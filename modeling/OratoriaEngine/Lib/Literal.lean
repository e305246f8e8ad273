import Mathlib.Data.Int.Notation
import Mathlib.Data.Nat.Notation

/-!
# Number literals

The texts that are read as an integer in base ten: an optional sign and decimal digits of any
script, at most 4300 of them, with single underscores between them and white space around. A
floating-point literal may have a point and an exponent, or be an infinity or not a number.
-/

namespace Literal

/-- The code points of the digits zero; the other nine follow each. -/
def zeros : List ℕ :=
  [0x30, 0x660, 0x6f0, 0x7c0, 0x966, 0x9e6, 0xa66, 0xae6, 0xb66, 0xbe6, 0xc66, 0xce6, 0xd66, 0xde6,
    0xe50, 0xed0, 0xf20, 0x1040, 0x1090, 0x17e0, 0x1810, 0x1946, 0x19d0, 0x1a80, 0x1a90, 0x1b50,
    0x1bb0, 0x1c40, 0x1c50, 0xa620, 0xa8d0, 0xa900, 0xa9d0, 0xa9f0, 0xaa50, 0xabf0, 0xff10,
    0x104a0, 0x10d30, 0x11066, 0x110f0, 0x11136, 0x111d0, 0x112f0, 0x11450, 0x114d0, 0x11650,
    0x116c0, 0x11730, 0x118e0, 0x11950, 0x11c50, 0x11d50, 0x11da0, 0x11f50, 0x16a60, 0x16ac0,
    0x16b50, 0x1d7ce, 0x1d7d8, 0x1d7e2, 0x1d7ec, 0x1d7f6, 0x1e140, 0x1e2f0, 0x1e4f0, 0x1e950,
    0x1fbf0]

def decimal? (c : Char) : Option ℕ :=
  (zeros.find? fun base => base ≤ c.toNat && c.toNat < base + 10).map fun base => c.toNat - base

/-- First and last code points of the digits that are not decimal: superscripts and the like. -/
def otherDigits : List (ℕ × ℕ) :=
  [(0xb2, 0xb3), (0xb9, 0xb9), (0x1369, 0x1371), (0x19da, 0x19da), (0x2070, 0x2070),
    (0x2074, 0x2079), (0x2080, 0x2089), (0x2460, 0x2468), (0x2474, 0x247c), (0x2488, 0x2490),
    (0x24ea, 0x24ea), (0x24f5, 0x24fd), (0x24ff, 0x24ff), (0x2776, 0x277e), (0x2780, 0x2788),
    (0x278a, 0x2792), (0x10a40, 0x10a43), (0x10e60, 0x10e68), (0x11052, 0x1105a),
    (0x1f100, 0x1f10a)]

/-- `str.isdigit` for one character. -/
def isDigit (c : Char) : Bool :=
  (decimal? c).isSome || otherDigits.any fun (first, last) => first ≤ c.toNat && c.toNat ≤ last

def isBlank (c : Char) : Bool :=
  let n := c.toNat
  (9 ≤ n && n ≤ 13) || n == 32 || n == 0x85 || n == 0xa0 || n == 0x1680 ||
    (0x2000 ≤ n && n ≤ 0x200a) || n == 0x2028 || n == 0x2029 || n == 0x202f || n == 0x205f ||
    n == 0x3000

def maxDigits : ℕ := 4300

/-- The digits of a literal, after some of value `n`; an underscore stands between two digits. -/
def digits? : (afterDigit : Bool) → (count n : ℕ) → List Char → Option ℕ
  | afterDigit, count, n, [] => if afterDigit && count ≤ maxDigits then some n else none
  | afterDigit, count, n, c :: rest =>
      match decimal? c with
      | some d => digits? true (count + 1) (10 * n + d) rest
      | none => if c = '_' && afterDigit then digits? false count n rest else none

def trim (text : List Char) : List Char :=
  ((text.dropWhile isBlank).reverse.dropWhile isBlank).reverse

def int? (text : List Char) : Option ℤ :=
  match trim text with
  | '+' :: digits => (digits? false 0 0 digits).map Int.ofNat
  | '-' :: digits => (digits? false 0 0 digits).map fun n => -(n : ℤ)
  | digits => (digits? false 0 0 digits).map Int.ofNat

example : int? "-1_200 ".toList = some (-1200) := by decide

/-- What a floating-point literal denotes: a decimal is its digits times a power of ten. -/
inductive Float
  | nan
  | inf (negative : Bool)
  | decimal (negative : Bool) (digits : ℕ) (exponent : ℤ)
  deriving DecidableEq

def toAscii (c : Char) : Char :=
  match decimal? c with
  | some d => Nat.digitChar d
  | none => c

/-- The text without the underscores, each of which must stand between two digits. -/
def withoutUnderscores? : (afterDigit : Bool) → List Char → Option (List Char)
  | _, [] => some []
  | afterDigit, '_' :: rest =>
      if afterDigit && (rest.head?.any Char.isDigit) then withoutUnderscores? false rest else none
  | _, c :: rest => (withoutUnderscores? c.isDigit rest).map (c :: ·)

def valueOf (digits : List Char) : ℕ := digits.foldl (fun n c => 10 * n + (c.toNat - '0'.toNat)) 0

def exponent? : List Char → Option ℤ
  | [] => some 0
  | e :: rest =>
      if e.toLower ≠ 'e' then none
      else
        let (negative, digits) : Bool × List Char := match rest with
          | '-' :: digits => (true, digits)
          | '+' :: digits => (false, digits)
          | digits => (false, digits)
        if digits.isEmpty || !digits.all Char.isDigit then none
        else some (if negative then -(valueOf digits : ℤ) else valueOf digits)

def unsigned? (negative : Bool) (text : List Char) : Option Float :=
  let lowered := text.map Char.toLower
  if lowered = "nan".toList then some .nan
  else if lowered = "inf".toList ∨ lowered = "infinity".toList then some (.inf negative)
  else
    let whole := text.takeWhile Char.isDigit
    let (fraction, rest) := match text.dropWhile Char.isDigit with
      | '.' :: rest => (rest.takeWhile Char.isDigit, rest.dropWhile Char.isDigit)
      | rest => ([], rest)
    if whole.isEmpty && fraction.isEmpty then none
    else (exponent? rest).map fun exponent =>
      .decimal negative (valueOf (whole ++ fraction)) (exponent - fraction.length)

def float? (text : List Char) : Option Float :=
  match withoutUnderscores? false ((trim text).map toAscii) with
  | none => none
  | some ('-' :: rest) => unsigned? true rest
  | some ('+' :: rest) => unsigned? false rest
  | some rest => unsigned? false rest

example : float? " -1_0.25e2".toList = some (.decimal true 1025 0) := by decide

end Literal
