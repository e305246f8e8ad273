import OratoriaEngine.Failures

/-!
# Typed identifiers

Every reference is a non-blank string of its own type, so an identifier of one
kind cannot be used as another, and an empty one cannot be built.
-/

namespace OratoriaEngine

/-- The characters `str.strip` removes. -/
def isSpace (c : Char) : Bool :=
  let n := c.toNat
  (9 ≤ n && n ≤ 13) || (28 ≤ n && n ≤ 32) || n == 0x85 || n == 0xa0 || n == 0x1680 ||
    (0x2000 ≤ n && n ≤ 0x200a) || n == 0x2028 || n == 0x2029 || n == 0x202f || n == 0x205f ||
    n == 0x3000

/-- `not value.strip()`; the empty string is blank. -/
def isBlank (s : String) : Bool := s.toList.all isSpace

/-- A text that opens with a visible character is not blank, whatever follows. -/
theorem isBlank_append_of_head {p : String} (h : isBlank p = false) (s : String) :
    isBlank (p ++ s) = false := by
  rw [isBlank, String.toList_append, List.all_append]
  rw [isBlank] at h
  rw [h, Bool.false_and]

structure Identifier where
  value : String
  visible : isBlank value = false
  deriving DecidableEq

theorem Identifier.ext_value {a b : Identifier} (h : a.value = b.value) : a = b := by
  cases a
  cases b
  cases h
  rfl

def Identifier.of (typeName value : String) : Except Failure Identifier :=
  if h : isBlank value = false then .ok ⟨value, h⟩
  else .error (.invalidIdentifier s!"{typeName} cannot be empty or blank")

theorem Identifier.of_value (typeName : String) (i : Identifier) :
    Identifier.of typeName i.value = .ok i := by
  rw [Identifier.of, dif_pos i.visible]

theorem Identifier.map_of_value {α : Type} (mk : Identifier → α) (typeName : String)
    (i : Identifier) : mk <$> Identifier.of typeName i.value = .ok (mk i) := by
  rw [Identifier.of_value]
  rfl

structure ApplicationId extends Identifier
  deriving DecidableEq

structure TenantId extends Identifier
  deriving DecidableEq

structure ApiKeyId extends Identifier
  deriving DecidableEq

structure SessionId extends Identifier
  deriving DecidableEq

structure RunId extends Identifier
  deriving DecidableEq

structure EventId extends Identifier
  deriving DecidableEq

structure TokenId extends Identifier
  deriving DecidableEq

structure EvidenceRef extends Identifier
  deriving DecidableEq

structure ModelVersionId extends Identifier
  deriving DecidableEq

structure ConfigurationSnapshotId extends Identifier
  deriving DecidableEq

def SessionId.of (value : String) : Except Failure SessionId :=
  SessionId.mk <$> Identifier.of "SessionId" value

@[simp] theorem SessionId.of_value (id : SessionId) : SessionId.of id.value = .ok id :=
  Identifier.map_of_value SessionId.mk _ _

theorem EventId.of_value (id : EventId) :
    EventId.mk <$> Identifier.of "EventId" id.value = .ok id := Identifier.map_of_value _ _ _

theorem EventId.ext_value {a b : EventId} (h : a.value = b.value) : a = b := by
  cases a
  cases b
  exact congrArg EventId.mk (Identifier.ext_value h)

theorem TenantId.ext_value {a b : TenantId} (h : a.value = b.value) : a = b := by
  cases a
  cases b
  exact congrArg TenantId.mk (Identifier.ext_value h)

theorem SessionId.ext_value {a b : SessionId} (h : a.value = b.value) : a = b := by
  cases a
  cases b
  exact congrArg SessionId.mk (Identifier.ext_value h)

end OratoriaEngine
