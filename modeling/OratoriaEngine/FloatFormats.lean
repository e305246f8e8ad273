import OratoriaEngine.Floats
import OratoriaEngine.Lib.Rounding

/-!
# Arithmetic of floating-point values

A format says which values there are and how the exact result of an operation is stored: the doubles
round it and overflow, exact arithmetic keeps it. The operations follow the rules for infinities and
NaNs and are the same in every format.
-/

namespace OratoriaEngine

namespace PyFloat

def neg : PyFloat → PyFloat
  | nan => nan
  | negInf => posInf
  | fin q => fin (-q)
  | posInf => negInf

def isFinite : PyFloat → Bool
  | fin _ => true
  | _ => false

def sign : PyFloat → ℤ
  | nan => 0
  | negInf => -1
  | fin q => q.num.sign
  | posInf => 1

/-- What a product or a quotient with an infinity is, from the signs of both. -/
def infinity (sign : ℤ) : PyFloat :=
  if sign = 0 then nan else if sign < 0 then negInf else posInf

end PyFloat

/-- The values of a number format, and how the exact result of an operation is stored. Underflow is
gradual: the difference of two different numbers is not zero. -/
structure FloatFormat where
  Has : PyFloat → Prop
  store : ℚ → PyFloat
  store_mono {p q : ℚ} (h : p ≤ q) : (store p).le (store q) = true
  store_zero : store 0 = .fin 0
  store_one : store 1 = .fin 1
  store_sub_ne_zero {p q : ℚ} (hp : Has (.fin p)) (hq : Has (.fin q)) (h : p ≠ q) :
    store (p - q) ≠ .fin 0

/-- The numbers from here on round past the largest double, by half of its last bit. -/
def floatLimit : ℕ := (2 ^ 54 - 1) * 2 ^ 970

theorem one_lt_floatLimit : (1 : ℚ) < floatLimit := by
  have hlow : 1 < 2 ^ 54 - 1 := by decide
  exact Nat.one_lt_cast.2 (hlow.trans_le (Nat.le_mul_of_pos_right _ (by positivity)))

/-- The double nearest to a number, which is an infinity past the limit. -/
def nearestFloat (q : ℚ) : PyFloat :=
  if (floatLimit : ℚ) ≤ q then .posInf
  else if q ≤ -(floatLimit : ℚ) then .negInf
  else .fin (Rounding.double q)

theorem nearestFloat_eq_fin {p q : ℚ} (h : nearestFloat p = .fin q) : Rounding.double p = q := by
  unfold nearestFloat at h
  split_ifs at h
  cases h
  rfl

theorem nearestFloat_of_abs_lt {q : ℚ} (h : |q| < floatLimit) :
    nearestFloat q = .fin (Rounding.double q) := by
  obtain ⟨hlow, hhigh⟩ := abs_lt.1 h
  rw [nearestFloat, if_neg (not_le.2 hhigh), if_neg (not_le.2 hlow)]

theorem nearestFloat_zero : nearestFloat 0 = .fin 0 := by
  have hlimit : |(0 : ℚ)| < floatLimit := by
    rw [abs_zero]
    exact zero_lt_one.trans one_lt_floatLimit
  rw [nearestFloat_of_abs_lt hlimit, Rounding.double_zero]

theorem nearestFloat_one : nearestFloat 1 = .fin 1 := by
  have hlimit : |(1 : ℚ)| < floatLimit := by
    rw [abs_one]
    exact one_lt_floatLimit
  rw [nearestFloat_of_abs_lt hlimit, Rounding.double_one]

namespace FloatFormat

/-- Exact arithmetic, of numbers only. -/
def exact : FloatFormat where
  Has x := ∃ q, x = .fin q
  store := .fin
  store_mono h := decide_eq_true h
  store_zero := rfl
  store_one := rfl
  store_sub_ne_zero _ _ h := by
    rw [ne_eq, PyFloat.fin.injEq, sub_eq_zero]
    exact h

/-- The doubles. -/
def double : FloatFormat where
  Has x := ∀ q, x = .fin q → nearestFloat q = .fin q
  store := nearestFloat
  store_mono {p q} h := by
    have hlimit := one_lt_floatLimit
    unfold nearestFloat
    split_ifs with hp hq hq' hp' hq hq' hq hq'
    · rfl
    · linarith
    · linarith
    · rfl
    · rfl
    · rfl
    · rfl
    · linarith
    · exact decide_eq_true (Rounding.double.monotone h)
  store_zero := nearestFloat_zero
  store_one := nearestFloat_one
  store_sub_ne_zero {p q} hp hq h hzero :=
    Rounding.double_sub_ne_zero (nearestFloat_eq_fin (hp p rfl)) (nearestFloat_eq_fin (hq q rfl)) h
      (nearestFloat_eq_fin hzero)

theorem double_has_zero : double.Has (.fin 0) := by
  rintro q ⟨⟩
  exact nearestFloat_zero

theorem double_has_one : double.Has (.fin 1) := by
  rintro q ⟨⟩
  exact nearestFloat_one

variable (f : FloatFormat)

def add : PyFloat → PyFloat → PyFloat
  | .fin p, .fin q => f.store (p + q)
  | .nan, _ | _, .nan => .nan
  | .posInf, .negInf | .negInf, .posInf => .nan
  | .posInf, _ | _, .posInf => .posInf
  | .negInf, _ | _, .negInf => .negInf

def sub (a b : PyFloat) : PyFloat := f.add a b.neg

def mul : PyFloat → PyFloat → PyFloat
  | .fin p, .fin q => f.store (p * q)
  | a, b => .infinity (a.sign * b.sign)

/-- The quotient; the language refuses zero as a divisor, and here it gives a NaN. -/
def div : PyFloat → PyFloat → PyFloat
  | .fin p, .fin q => if q = 0 then .nan else f.store (p / q)
  | .fin _, .negInf | .fin _, .posInf => .fin 0
  | a, .fin q => if q = 0 then .nan else .infinity (a.sign * q.num.sign)
  | _, _ => .nan

@[simp] theorem add_nan (a : PyFloat) : f.add a .nan = .nan := by cases a <;> rfl

@[simp] theorem nan_mul (b : PyFloat) : f.mul .nan b = .nan := by
  cases b <;> simp [mul, PyFloat.sign, PyFloat.infinity]

@[simp] theorem nan_div (b : PyFloat) : f.div .nan b = .nan := by
  cases b <;> simp [div, PyFloat.sign, PyFloat.infinity]

@[simp] theorem posInf_div_posInf : f.div .posInf .posInf = .nan := rfl

variable {f}

theorem store_nonneg {q : ℚ} (h : 0 ≤ q) : (PyFloat.fin 0).le (f.store q) = true :=
  f.store_zero ▸ f.store_mono h

theorem store_unit {q : ℚ} (h0 : 0 ≤ q) (h1 : q ≤ 1) : ∃ r, 0 ≤ r ∧ r ≤ 1 ∧ f.store q = .fin r :=
  PyFloat.eq_fin_of_between (store_nonneg h0) (f.store_one ▸ f.store_mono h1)

theorem sub_fin (p q : ℚ) : f.sub (.fin p) (.fin q) = f.store (p - q) := by
  rw [sub_eq_add_neg]
  rfl

theorem sub_ne_zero {a b : PyFloat} (ha : f.Has a) (hb : f.Has b) (h : a ≠ b) :
    f.sub a b ≠ .fin 0 := by
  cases a with
  | nan => exact PyFloat.noConfusion
  | negInf | posInf => cases b <;> exact PyFloat.noConfusion
  | fin p =>
      cases b with
      | nan | negInf | posInf => exact PyFloat.noConfusion
      | fin q =>
          rw [sub_fin]
          exact f.store_sub_ne_zero ha hb fun hpq => h (congrArg _ hpq)

/-- A distance that is at most another one, which does not vanish. -/
theorem distances_cases {n d : PyFloat} (h0 : (PyFloat.fin 0).le n = true) (hne : d ≠ .fin 0)
    (hle : d = .posInf ∨ n.le d = true) :
    (n = .posInf ∧ d = .posInf) ∨
      ∃ r, 0 ≤ r ∧ n = .fin r ∧ (d = .posInf ∨ ∃ s, 0 < s ∧ r ≤ s ∧ d = .fin s) := by
  cases n with
  | nan | negInf => cases h0
  | posInf =>
      cases d with
      | posInf => exact Or.inl ⟨rfl, rfl⟩
      | nan | negInf | fin => simp [PyFloat.le] at hle
  | fin r =>
      have hr : 0 ≤ r := of_decide_eq_true h0
      refine Or.inr ⟨r, hr, rfl, ?_⟩
      cases d with
      | posInf => exact Or.inl rfl
      | nan | negInf => simp [PyFloat.le] at hle
      | fin s =>
          have hrs : r ≤ s := by simpa [PyFloat.le] using hle
          have hs : s ≠ 0 := fun h => hne (congrArg _ h)
          exact Or.inr ⟨s, lt_of_le_of_ne (hr.trans hrs) hs.symm, hrs, rfl⟩

/-- Between two values the distance from the first is no number, or as infinite as their own
distance, or at most that. -/
theorem sub_cases {a b c : PyFloat} (ha : f.Has a) (hb : f.Has b) (hne : b ≠ a)
    (hac : a.le c = true) (hcb : c.le b = true) :
    f.sub c a = .nan ∨ (f.sub c a = .posInf ∧ f.sub b a = .posInf) ∨
      ∃ r, 0 ≤ r ∧ f.sub c a = .fin r ∧
        (f.sub b a = .posInf ∨ ∃ s, 0 < s ∧ r ≤ s ∧ f.sub b a = .fin s) := by
  cases a with
  | nan => cases hac
  | posInf =>
      cases c with
      | nan | negInf | fin => cases hac
      | posInf => exact Or.inl rfl
  | negInf =>
      cases c with
      | nan => cases hac
      | negInf => exact Or.inl rfl
      | fin | posInf =>
          cases b with
          | nan => cases hcb
          | negInf => exact absurd rfl hne
          | fin | posInf => exact Or.inr (Or.inl ⟨rfl, rfl⟩)
  | fin p =>
      cases c with
      | nan | negInf => cases hac
      | posInf =>
          cases b with
          | nan | negInf | fin => cases hcb
          | posInf => exact Or.inr (Or.inl ⟨rfl, rfl⟩)
      | fin x =>
          have hx := store_nonneg (f := f) (sub_nonneg.2 (of_decide_eq_true hac : p ≤ x))
          rw [← sub_fin] at hx
          refine Or.inr (distances_cases hx (sub_ne_zero hb ha hne) ?_)
          cases b with
          | nan | negInf => cases hcb
          | posInf => exact Or.inl rfl
          | fin q =>
              rw [sub_fin, sub_fin]
              exact Or.inr (f.store_mono (sub_le_sub_right (of_decide_eq_true hcb) p))

end FloatFormat

end OratoriaEngine
