import Mathlib.Algebra.Order.Group.Abs
import Mathlib.Algebra.Order.Field.Rat
import Mathlib.Data.Int.Log
import Mathlib.Algebra.Order.Floor.Semiring
import Mathlib.Data.Rat.Floor
import Mathlib.Tactic.FieldSimp
import Mathlib.Tactic.Linarith
import Mathlib.Tactic.Ring

/-!
# Rounding

A rounding keeps the order of numbers and their signs, and leaves alone what it has rounded. The
identity is one, and so is the rounding to the nearest multiple of a power of two with a significand
of 53 bits, ties to the even one: the arithmetic of the double format below its largest number.
-/

structure Rounding (K : Type*) [AddCommGroup K] [LinearOrder K] where
  round : K → K
  monotone : Monotone round
  map_zero : round 0 = 0
  map_neg (x : K) : round (-x) = -round x
  idempotent (x : K) : round (round x) = round x

namespace Rounding

section Laws

variable {K : Type*} [AddCommGroup K] [LinearOrder K]

instance : CoeFun (Rounding K) fun _ => K → K := ⟨round⟩

/-- Nothing is rounded. -/
def exact : Rounding K where
  round x := x
  monotone := monotone_id
  map_zero := rfl
  map_neg _ := rfl
  idempotent _ := rfl

@[simp] theorem exact_apply (x : K) : (exact : Rounding K) x = x := rfl

variable (ρ : Rounding K) {x y : K}

theorem nonneg (h : 0 ≤ x) : 0 ≤ ρ x := ρ.map_zero ▸ ρ.monotone h

theorem abs_sub_comm (x y : K) : |ρ (x - y)| = |ρ (y - x)| := by
  rw [← neg_sub, ρ.map_neg, abs_neg]

theorem le_of_ge (hy : ρ y = y) (h : y ≤ x) : y ≤ ρ x := hy ▸ ρ.monotone h

end Laws

def halfEven (q : ℚ) : ℤ :=
  if q - ⌊q⌋ < 1 / 2 ∨ (q - ⌊q⌋ = 1 / 2 ∧ ⌊q⌋ % 2 = 0) then ⌊q⌋ else ⌊q⌋ + 1

theorem halfEven_cases (q : ℚ) : halfEven q = ⌊q⌋ ∨ halfEven q = ⌊q⌋ + 1 := by
  unfold halfEven
  split_ifs
  · exact Or.inl rfl
  · exact Or.inr rfl

@[simp] theorem halfEven_intCast (k : ℤ) : halfEven k = k := by simp [halfEven]

theorem halfEven_le_halfEven {p q : ℚ} (h : p ≤ q) : halfEven p ≤ halfEven q := by
  have hfloor := Int.floor_le_floor h
  rcases hfloor.lt_or_eq with hlt | heq
  · have hp := halfEven_cases p
    have hq := halfEven_cases q
    omega
  · unfold halfEven
    rw [heq]
    split_ifs with hp hq
    · exact le_rfl
    · omega
    · rcases ‹_ ∨ _› with hq | ⟨hq, heven⟩
      · exact absurd (Or.inl (by linarith)) hp
      · rcases h.lt_or_eq with hlt | rfl
        · exact absurd (Or.inl (by linarith)) hp
        · exact absurd (Or.inr ⟨hq, heven⟩) hp
    · exact le_rfl

theorem halfEven_le {q : ℚ} {k : ℤ} (h : q ≤ k) : halfEven q ≤ k := by
  simpa using halfEven_le_halfEven h

theorem le_halfEven {q : ℚ} {k : ℤ} (h : (k : ℚ) ≤ q) : k ≤ halfEven q := by
  simpa using halfEven_le_halfEven h

/-- The exponent of the last bit of a positive number; subnormal numbers share the least one. -/
def lastBit (q : ℚ) : ℤ := max (Int.log 2 q - 52) (-1074)

def ulp (q : ℚ) : ℚ := 2 ^ lastBit q

theorem ulp_pos (q : ℚ) : 0 < ulp q := zpow_pos two_pos _

theorem lt_ulp (q : ℚ) : q < 2 ^ (53 : ℤ) * ulp q := by
  have hlog : Int.log 2 q + 1 ≤ 53 + lastBit q := by
    have := le_max_left (Int.log 2 q - 52) (-1074)
    unfold lastBit
    omega
  calc
    q < 2 ^ (Int.log 2 q + 1) := Int.lt_zpow_succ_log_self one_lt_two q
    _ ≤ 2 ^ (53 + lastBit q) := zpow_le_zpow_right₀ one_le_two hlog
    _ = 2 ^ (53 : ℤ) * ulp q := zpow_add₀ two_ne_zero _ _

/-- A multiple of a power of two is one of every smaller power. -/
theorem exists_mul_zpow {e least : ℤ} (h : least ≤ e) (k : ℤ) :
    ∃ n : ℤ, (k * 2 ^ e : ℚ) = n * 2 ^ least := by
  refine ⟨k * 2 ^ (e - least).toNat, ?_⟩
  have hexp : ((e - least).toNat : ℤ) + least = e := by omega
  rw [Int.cast_mul, Int.cast_pow, Int.cast_ofNat, mul_assoc, ← zpow_natCast,
    ← zpow_add₀ two_ne_zero, hexp]

def nearest (q : ℚ) : ℚ := halfEven (q / ulp q) * ulp q

@[simp] theorem nearest_zero : nearest 0 = 0 := by simp [nearest, halfEven]

theorem nearest_of_multiple {k e : ℤ} (hk : k ≤ 2 ^ 53) (he : -1074 ≤ e) (hpos : 0 ≤ k) :
    nearest (k * 2 ^ e) = k * 2 ^ e := by
  rcases hpos.eq_or_lt with rfl | hpos
  · simp
  have hq : (0 : ℚ) < k * 2 ^ e := mul_pos (Int.cast_pos.2 hpos) (zpow_pos two_pos _)
  suffices hdvd : ∃ n : ℤ, (k * 2 ^ e : ℚ) = n * ulp (k * 2 ^ e) by
    obtain ⟨n, hn⟩ := hdvd
    rw [nearest]
    nth_rewrite 1 [hn]
    rw [mul_div_assoc, div_self (ulp_pos _).ne', mul_one, halfEven_intCast, ← hn]
  rcases le_or_gt (lastBit (k * 2 ^ e)) e with hle | hlt
  · exact exists_mul_zpow hle k
  · -- Only the least significand of 54 bits is left, and the exponent below it.
    have hlog : lastBit (k * 2 ^ e) = Int.log 2 (k * 2 ^ e : ℚ) - 52 := by
      unfold lastBit at hlt ⊢
      omega
    have hlow : (2 : ℚ) ^ (e + 53) ≤ k * 2 ^ e := by
      have := Int.zpow_log_le_self one_lt_two hq
      exact (zpow_le_zpow_right₀ one_le_two (by omega)).trans this
    have hhigh : (k * 2 ^ e : ℚ) ≤ 2 ^ (e + 53) := by
      rw [add_comm, zpow_add₀ two_ne_zero]
      exact mul_le_mul_of_nonneg_right (by exact_mod_cast hk) (zpow_pos two_pos _).le
    have heq : (k * 2 ^ e : ℚ) = 2 ^ (e + 53) := le_antisymm hhigh hlow
    have hpower : Int.log 2 ((2 : ℚ) ^ (e + 53)) = e + 53 := by
      exact_mod_cast Int.log_zpow (R := ℚ) one_lt_two (e + 53)
    have hlast : lastBit (k * 2 ^ e) = e + 1 := by
      rw [hlog, heq, hpower]
      omega
    have hcast : ((2 ^ 52 : ℤ) : ℚ) = 2 ^ (52 : ℤ) := by norm_num
    refine ⟨2 ^ 52, ?_⟩
    rw [ulp, hlast, heq, hcast, ← zpow_add₀ two_ne_zero]
    congr 1
    omega

theorem halfEven_div_ulp_le (q : ℚ) : halfEven (q / ulp q) ≤ 2 ^ 53 := by
  apply halfEven_le
  rw [div_le_iff₀ (ulp_pos q)]
  exact_mod_cast (lt_ulp q).le

theorem exists_multiple {q : ℚ} (hq : 0 ≤ q) :
    ∃ k e : ℤ, 0 ≤ k ∧ k ≤ 2 ^ 53 ∧ -1074 ≤ e ∧ nearest q = k * 2 ^ e := by
  refine ⟨halfEven (q / ulp q), lastBit q, ?_, ?_, le_max_right _ _, rfl⟩
  · exact le_halfEven (by exact_mod_cast div_nonneg hq (ulp_pos q).le)
  · exact halfEven_div_ulp_le q

theorem nearest_nonneg {q : ℚ} (hq : 0 ≤ q) : 0 ≤ nearest q := by
  obtain ⟨k, e, hk, -, -, heq⟩ := exists_multiple hq
  rw [heq]
  exact mul_nonneg (Int.cast_nonneg hk) (zpow_pos two_pos _).le

/-- The least number with a greater last bit lies between two numbers of different last bits, and
is a multiple of both. -/
theorem nearest_le_nearest {p q : ℚ} (hp : 0 ≤ p) (h : p ≤ q) : nearest p ≤ nearest q := by
  rcases hp.eq_or_lt with rfl | hp
  · rw [nearest_zero]
    exact nearest_nonneg h
  have hlast : lastBit p ≤ lastBit q :=
    max_le_max_right _ (sub_le_sub_right (Int.log_mono_right hp h) _)
  rcases hlast.eq_or_lt with heq | hlt
  · have hulp : ulp p = ulp q := congrArg (2 ^ ·) heq
    rw [nearest, nearest, hulp]
    refine mul_le_mul_of_nonneg_right ?_ (ulp_pos q).le
    exact_mod_cast halfEven_le_halfEven (div_le_div_of_nonneg_right h (ulp_pos q).le)
  · have hlog : lastBit q = Int.log 2 q - 52 := by
      unfold lastBit at hlt ⊢
      omega
    have hbelow : nearest p ≤ 2 ^ (53 : ℤ) * ulp p := by
      refine mul_le_mul_of_nonneg_right ?_ (ulp_pos p).le
      exact_mod_cast halfEven_div_ulp_le p
    have habove : 2 ^ (52 : ℤ) * ulp q ≤ nearest q := by
      refine mul_le_mul_of_nonneg_right ?_ (ulp_pos q).le
      have hq : (2 : ℚ) ^ (52 : ℤ) ≤ q / ulp q := by
        rw [le_div_iff₀ (ulp_pos q), ulp, ← zpow_add₀ two_ne_zero, hlog]
        have := Int.zpow_log_le_self one_lt_two (hp.trans_le h)
        rwa [add_sub_cancel]
      have hle : (2 : ℤ) ^ 52 ≤ halfEven (q / ulp q) := le_halfEven (by exact_mod_cast hq)
      exact_mod_cast hle
    refine hbelow.trans (le_trans ?_ habove)
    rw [ulp, ulp, ← zpow_add₀ two_ne_zero, ← zpow_add₀ two_ne_zero]
    exact zpow_le_zpow_right₀ one_le_two (by omega)

/-- The rounding of the double format, with no largest number. -/
def double : Rounding ℚ where
  round q := if q < 0 then -nearest (-q) else nearest q
  monotone p q h := by
    dsimp only
    split_ifs with hp hq hq
    · exact neg_le_neg (nearest_le_nearest (neg_pos.2 hq).le (neg_le_neg h))
    · have hleft := nearest_nonneg (neg_pos.2 hp).le
      have hright := nearest_nonneg (not_lt.1 hq)
      linarith
    · exact absurd (h.trans_lt hq) hp
    · exact nearest_le_nearest (not_lt.1 hp) h
  map_zero := by simp
  map_neg q := by
    rcases lt_trichotomy q 0 with hneg | rfl | hpos
    · rw [if_neg (not_lt.2 (neg_pos.2 hneg).le), if_pos hneg, neg_neg]
    · simp
    · rw [if_pos (neg_lt_zero.2 hpos), if_neg (not_lt.2 hpos.le), neg_neg]
  idempotent q := by
    have hkeep : ∀ p : ℚ, 0 ≤ p → nearest (nearest p) = nearest p := by
      intro p hp
      obtain ⟨k, e, hk, hk', he, heq⟩ := exists_multiple hp
      rw [heq, nearest_of_multiple hk' he hk]
    split_ifs with hq hneg hneg
    · rw [neg_neg, hkeep _ (neg_pos.2 hq).le]
    · have h0 := nearest_nonneg (neg_pos.2 hq).le
      have hzero : nearest (-q) = 0 := by linarith
      rw [hzero, neg_zero, nearest_zero]
    · exact absurd (nearest_nonneg (not_lt.1 hq)) (not_le.2 hneg)
    · exact hkeep q (not_lt.1 hq)

theorem double_of_multiple {k e : ℤ} (hk : |k| ≤ 2 ^ 53) (he : -1074 ≤ e) :
    double (k * 2 ^ e) = k * 2 ^ e := by
  have hpow : (0 : ℚ) < 2 ^ e := zpow_pos two_pos _
  rcases lt_or_ge k 0 with hneg | hpos
  · have hq : (k * 2 ^ e : ℚ) < 0 := mul_neg_of_neg_of_pos (Int.cast_lt_zero.2 hneg) hpow
    have hkeep := nearest_of_multiple ((neg_le_abs k).trans hk) he (neg_pos.2 hneg).le
    rw [Int.cast_neg, neg_mul] at hkeep
    change (if _ then _ else _) = _
    rw [if_pos hq, hkeep, neg_neg]
  · have hq : ¬(k * 2 ^ e : ℚ) < 0 := not_lt.2 (mul_nonneg (Int.cast_nonneg hpos) hpow.le)
    change (if _ then _ else _) = _
    rw [if_neg hq, nearest_of_multiple ((le_abs_self k).trans hk) he hpos]

theorem double_intCast {k : ℤ} (hk : |k| ≤ 2 ^ 53) : double k = k := by
  simpa using double_of_multiple (e := 0) hk (by decide)

@[simp] theorem double_zero : double 0 = 0 := double.map_zero

@[simp] theorem double_one : double 1 = 1 := by
  simpa using double_intCast (k := 1) (by decide)

theorem exists_eq_mul_least {q : ℚ} (h : double q = q) : ∃ n : ℤ, q = n * 2 ^ (-1074 : ℤ) := by
  have hnearest : ∀ p : ℚ, 0 ≤ p → nearest p = p → ∃ n : ℤ, p = n * 2 ^ (-1074 : ℤ) := by
    intro p hp hkeep
    obtain ⟨k, e, -, -, he, heq⟩ := exists_multiple hp
    rw [← hkeep, heq]
    exact exists_mul_zpow he k
  change (if _ then _ else _) = _ at h
  split_ifs at h with hneg
  · obtain ⟨n, hn⟩ := hnearest (-q) (neg_pos.2 hneg).le (by linarith)
    exact ⟨-n, by rw [Int.cast_neg, neg_mul, ← hn, neg_neg]⟩
  · exact hnearest q (not_lt.1 hneg) h

theorem double_sub_ne_zero {p q : ℚ} (hp : double p = p) (hq : double q = q) (h : p ≠ q) :
    double (p - q) ≠ 0 := by
  wlog hlt : q < p generalizing p q
  · have hback := this hq hp h.symm (lt_of_le_of_ne (not_lt.1 hlt) h)
    rwa [← neg_sub, double.map_neg, neg_ne_zero]
  obtain ⟨n, hn⟩ := exists_eq_mul_least hp
  obtain ⟨m, hm⟩ := exists_eq_mul_least hq
  have hleast : (0 : ℚ) < 2 ^ (-1074 : ℤ) := zpow_pos two_pos _
  have hmn : m < n := by
    rw [hn, hm] at hlt
    exact Int.cast_lt.1 (lt_of_mul_lt_mul_right hlt hleast.le)
  have hkeep : double (2 ^ (-1074 : ℤ)) = 2 ^ (-1074 : ℤ) := by
    simpa using double_of_multiple (k := 1) (by decide) le_rfl
  have hfar : (2 : ℚ) ^ (-1074 : ℤ) ≤ p - q := by
    have hone : (1 : ℚ) ≤ n - m := by exact_mod_cast Int.sub_pos.2 hmn
    calc
      (2 : ℚ) ^ (-1074 : ℤ) ≤ (n - m) * 2 ^ (-1074 : ℤ) := le_mul_of_one_le_left hleast.le hone
      _ = p - q := by rw [sub_mul, ← hn, ← hm]
  exact (hleast.trans_le (double.le_of_ge hkeep hfar)).ne'

end Rounding
