import OratoriaEngine.Lib.Dict

/-!
# XML trees

An element has a tag, attributes of distinct names, perhaps a text, and children. Paths are
followed from an element through children of given tags.
-/

namespace Xml

inductive Element
  | node (tag : String) (attributes : Dict String String) (text : Option String)
      (children : List Element)

namespace Element

def tag : Element → String
  | node tag _ _ _ => tag

def attributes : Element → Dict String String
  | node _ attributes _ _ => attributes

def text : Element → Option String
  | node _ _ text _ => text

def children : Element → List Element
  | node _ _ _ children => children

def get (e : Element) (name : String) : Option String := e.attributes.get? name

/-- The elements at the end of a path, in document order. -/
def findAll (e : Element) : List String → List Element
  | [] => [e]
  | tag :: path => (e.children.filter fun child => child.tag = tag).flatMap (·.findAll path)

def childText (e : Element) (tag : String) : String :=
  match e.children.find? fun child => child.tag = tag with
  | some child => child.text.getD ""
  | none => ""

end Element

end Xml
