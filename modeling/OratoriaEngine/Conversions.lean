import OratoriaEngine.Failures
import OratoriaEngine.FloatFormats
import OratoriaEngine.Json
import OratoriaEngine.Lib.Literal
import Mathlib.Algebra.Order.Ring.Int
import Mathlib.Data.Rat.Floor

/-!
# Conversions of untrusted values

What `int`, `float`, `str` and `isinstance` make of a value that came out of a JSON text. A
conversion refuses a value of a wrong type, a text that is no number and a number out of range,
each with an exception of its own.
-/

namespace OratoriaEngine

/-- What the language's own library says: the text of a value and the refusal of a text that is
no number, by the name of the conversion. -/
structure Texts where
  repr : Json → String
  refusal : (conversion text : String) → String

namespace Json

/-- `str(value)`; only a text is shown without its quotes. -/
def text (texts : Texts) : Json → String
  | .str s => s
  | v => texts.repr v

def truthy : Json → Bool
  | .null => false
  | .bool b => b
  | .int n => n != 0
  | .float x => x != .fin 0
  | .str s => !s.isEmpty
  | .arr items => !items.isEmpty
  | .obj entries => !entries.isEmpty

/-- The value where `isinstance(value, int)` holds: a truth value is an integer as well. -/
def asInt? : Json → Option ℤ
  | .bool b => some b.toInt
  | .int n => some n
  | _ => none

def wrongType (message typeName : String) : Failure :=
  .foreign "TypeError" s!"{message}, not '{typeName}'"

def intArgument : String :=
  "int() argument must be a string, a bytes-like object or a real number"

/-- `int(value)`: a floating-point number loses its fraction. -/
def toInt (texts : Texts) : Json → Except Failure ℤ
  | .null => .error (wrongType intArgument "NoneType")
  | .bool b => .ok b.toInt
  | .int n => .ok n
  | .float .nan => .error (.valueError "cannot convert float NaN to integer")
  | .float .negInf | .float .posInf =>
      .error (.foreign "OverflowError" "cannot convert float infinity to integer")
  | .float (.fin q) => .ok (q.num.tdiv q.den)
  | .str s =>
      match Literal.int? s.toList with
      | some n => .ok n
      | none => .error (.valueError (texts.refusal "int" s))
  | .arr _ => .error (wrongType intArgument "list")
  | .obj _ => .error (wrongType intArgument "dict")

def ofLiteral : Literal.Float → PyFloat
  | .nan => .nan
  | .inf negative => if negative then .negInf else .posInf
  | .decimal negative digits exponent =>
      nearestFloat ((if negative then -1 else 1) * digits * (10 : ℚ) ^ exponent)

def floatArgument : String := "float() argument must be a string or a real number"

def toFloat (texts : Texts) : Json → Except Failure PyFloat
  | .null => .error (wrongType floatArgument "NoneType")
  | .bool b => .ok (.fin b.toInt)
  | .int n =>
      if n.natAbs < floatLimit then .ok (nearestFloat n)
      else .error (.foreign "OverflowError" "int too large to convert to float")
  | .float x => .ok x
  | .str s =>
      match Literal.float? s.toList with
      | some x => .ok (ofLiteral x)
      | none => .error (.valueError (texts.refusal "float" s))
  | .arr _ => .error (wrongType floatArgument "list")
  | .obj _ => .error (wrongType floatArgument "dict")

/-- The values read as an integer: truth values, finite numbers and the literals among the texts. -/
def ReadsAsInt : Json → Prop
  | .bool _ | .int _ | .float (.fin _) => True
  | .str s => (Literal.int? s.toList).isSome
  | _ => False

/-- The values read as an integer that is not negative; a fraction above minus one is cut off. -/
def ReadsAsNatural : Json → Prop
  | .bool _ => True
  | .int n => 0 ≤ n
  | .float (.fin q) => -1 < q
  | .str s => ∃ n, Literal.int? s.toList = some n ∧ 0 ≤ n
  | _ => False

/-- The values read as a floating-point number: integers within the range, every floating-point
number and the literals among the texts. -/
def ReadsAsFloat : Json → Prop
  | .bool _ | .float _ => True
  | .int n => n.natAbs < floatLimit
  | .str s => (Literal.float? s.toList).isSome
  | _ => False

theorem toInt_error (texts : Texts) {v : Json} {f : Failure} (h : toInt texts v = .error f)
    (text : String) : f ≠ .protocolError text := by
  rintro rfl
  cases v with
  | null | bool | int | arr | obj => cases h
  | float x => cases x <;> cases h
  | str s =>
      cases hread : Literal.int? s.toList <;> simp [toInt, hread] at h

theorem toFloat_error (texts : Texts) {v : Json} {f : Failure} (h : toFloat texts v = .error f)
    (text : String) : f ≠ .protocolError text := by
  rintro rfl
  cases v with
  | null | bool | float | arr | obj => cases h
  | int n => by_cases hrange : n.natAbs < floatLimit <;> simp [toFloat, hrange] at h
  | str s =>
      cases hread : Literal.float? s.toList <;> simp [toFloat, hread] at h

theorem toInt_isOk_iff (texts : Texts) (v : Json) :
    (∃ n, toInt texts v = .ok n) ↔ v.ReadsAsInt := by
  cases v with
  | null => simp [toInt, ReadsAsInt]
  | bool b => simp [toInt, ReadsAsInt]
  | int n => simp [toInt, ReadsAsInt]
  | float x => cases x <;> simp [toInt, ReadsAsInt]
  | str s => cases h : Literal.int? s.toList <;> simp [toInt, ReadsAsInt, h]
  | arr items => simp [toInt, ReadsAsInt]
  | obj entries => simp [toInt, ReadsAsInt]

theorem tdiv_nonneg_iff (q : ℚ) : 0 ≤ q.num.tdiv q.den ↔ -1 < q := by
  have hden : (0 : ℤ) < q.den := by exact_mod_cast q.den_pos
  have hcompare : -1 < q ↔ -(q.den : ℤ) < q.num := by
    rw [← Rat.num_div_den q, lt_div_iff₀ (by exact_mod_cast q.den_pos)]
    rw [Rat.num_div_den]
    constructor
    · intro h
      have : ((-(q.den : ℤ) : ℤ) : ℚ) < (q.num : ℤ) := by
        push_cast
        linarith
      exact_mod_cast this
    · intro h
      have : ((-(q.den : ℤ) : ℤ) : ℚ) < (q.num : ℤ) := by exact_mod_cast h
      push_cast at this
      linarith
  rw [hcompare]
  rcases Int.le_total 0 q.num with hpos | hneg
  · exact iff_of_true (Int.tdiv_nonneg hpos hden.le) (by omega)
  · have hflip : q.num.tdiv q.den = -((-q.num) / q.den) := by
      rw [← Int.tdiv_eq_ediv_of_nonneg (by omega), Int.neg_tdiv, neg_neg]
    rw [hflip]
    constructor
    · intro h
      have hzero : -q.num / (q.den : ℤ) ≤ 0 := by omega
      have := Int.lt_mul_of_ediv_lt hden (show -q.num / (q.den : ℤ) < 1 by omega)
      omega
    · intro h
      have := Int.ediv_eq_zero_of_lt (a := -q.num) (b := q.den) (by omega) (by omega)
      omega

theorem toInt_nonneg_iff (texts : Texts) (v : Json) :
    (∃ n, toInt texts v = .ok n ∧ 0 ≤ n) ↔ v.ReadsAsNatural := by
  cases v with
  | null => simp [toInt, ReadsAsNatural]
  | bool b => cases b <;> simp [toInt, ReadsAsNatural]
  | int n => simp [toInt, ReadsAsNatural]
  | float x => cases x <;> simp [toInt, ReadsAsNatural, tdiv_nonneg_iff]
  | str s => cases h : Literal.int? s.toList <;> simp [toInt, ReadsAsNatural, h]
  | arr items => simp [toInt, ReadsAsNatural]
  | obj entries => simp [toInt, ReadsAsNatural]

theorem toFloat_isOk_iff (texts : Texts) (v : Json) :
    (∃ x, toFloat texts v = .ok x) ↔ v.ReadsAsFloat := by
  cases v with
  | null => simp [toFloat, ReadsAsFloat]
  | bool b => simp [toFloat, ReadsAsFloat]
  | int n => by_cases h : n.natAbs < floatLimit <;> simp [toFloat, ReadsAsFloat, h]
  | float x => simp [toFloat, ReadsAsFloat]
  | str s => cases h : Literal.float? s.toList <;> simp [toFloat, ReadsAsFloat, h]
  | arr items => simp [toFloat, ReadsAsFloat]
  | obj entries => simp [toFloat, ReadsAsFloat]

end Json

end OratoriaEngine
