import OratoriaEngine.Failures
import OratoriaEngine.Identifiers
import OratoriaEngine.Taxonomy
import Mathlib.Data.Nat.Notation

/-!
# Versions as text

A version is stored as its text and parsed when it is read. Of the digits that `int` accepts
only the ASCII ones are modelled.
-/

namespace OratoriaEngine

def strip (text : List Char) : List Char :=
  ((text.dropWhile isSpace).reverse.dropWhile isSpace).reverse

/-- The digits of a literal; an underscore may stand between two of them. -/
def readDigits : Bool → ℕ → List Char → Option ℕ
  | afterDigit, n, [] => if afterDigit then some n else none
  | afterDigit, n, c :: rest =>
      if c.isDigit then readDigits true (10 * n + (c.toNat - '0'.toNat)) rest
      else if c = '_' && afterDigit then readDigits false n rest else none

/-- `int(text)`; `none` is a `ValueError`. -/
def readInt (text : List Char) : Option ℤ :=
  match strip text with
  | '+' :: digits => (readDigits false 0 digits).map Int.ofNat
  | '-' :: digits => (readDigits false 0 digits).map fun n => -(n : ℤ)
  | digits => (readDigits false 0 digits).map Int.ofNat

namespace SemanticVersion

def of (major minor patch : ℤ) : Except Failure SemanticVersion :=
  if major < 0 ∨ minor < 0 ∨ patch < 0 then
    .error (.invalidIdentifier
      s!"version components must be non-negative: {major}.{minor}.{patch}")
  else .ok ⟨major.toNat, minor.toNat, patch.toNat⟩

def parse (text : String) : Except Failure SemanticVersion :=
  match (strip text.toList).splitOn '.' with
  | [major, minor, patch] =>
      match readInt major, readInt minor, readInt patch with
      | some major, some minor, some patch => of major minor patch
      | _, _, _ => .error (.invalidIdentifier s!"non-numeric version component in '{text}'")
  | _ => .error (.invalidIdentifier s!"expected 'major.minor.patch', got '{text}'")

end SemanticVersion

theorem not_isSpace_of_isDigit {c : Char} (h : c.isDigit = true) : isSpace c = false := by
  simp only [Char.isDigit, Bool.and_eq_true, decide_eq_true_eq, ge_iff_le,
    UInt32.le_iff_toNat_le] at h
  have hlow : 48 ≤ c.toNat := h.1
  have hhigh : c.toNat ≤ 57 := h.2
  simp only [isSpace, Bool.or_eq_false_iff, Bool.and_eq_false_iff, decide_eq_false_iff_not,
    beq_eq_false_iff_ne]
  omega

theorem dropWhile_of_visible {text : List Char} (h : ∀ c ∈ text, isSpace c = false) :
    text.dropWhile isSpace = text := by
  cases text with
  | nil => rfl
  | cons c rest => exact List.dropWhile_cons_of_neg (by rw [h c List.mem_cons_self]; decide)

theorem strip_of_visible {text : List Char} (h : ∀ c ∈ text, isSpace c = false) :
    strip text = text := by
  have hreverse : ∀ c ∈ text.reverse, isSpace c = false :=
    fun c hc => h c (List.mem_reverse.1 hc)
  rw [strip, dropWhile_of_visible h, dropWhile_of_visible hreverse, List.reverse_reverse]

theorem readDigits_true {digits : List Char} (h : ∀ c ∈ digits, c.isDigit = true) (n : ℕ) :
    readDigits true n digits = some (Nat.ofDigitChars 10 digits n) := by
  induction digits generalizing n with
  | nil => rfl
  | cons c rest ih =>
      rw [readDigits, if_pos (h c List.mem_cons_self), Nat.ofDigitChars_cons]
      exact ih (fun c' hc' => h c' (List.mem_cons_of_mem _ hc')) _

theorem isDigit_of_mem {n : ℕ} {c : Char} (h : c ∈ Nat.toDigits 10 n) : c.isDigit = true :=
  Nat.isDigit_of_mem_toDigits (by decide) (by decide) h

theorem readInt_toDigits (n : ℕ) : readInt (Nat.toDigits 10 n) = some (n : ℤ) := by
  have hvisible : ∀ c ∈ Nat.toDigits 10 n, isSpace c = false :=
    fun c hc => not_isSpace_of_isDigit (isDigit_of_mem hc)
  have hread : readDigits false 0 (Nat.toDigits 10 n) = some n := by
    cases hdigits : Nat.toDigits 10 n with
    | nil => exact absurd hdigits Nat.toDigits_ne_nil
    | cons c rest =>
        have hc : c.isDigit = true := isDigit_of_mem (n := n) (by rw [hdigits]; simp)
        have hrest : ∀ c' ∈ rest, c'.isDigit = true := fun c' hc' =>
          isDigit_of_mem (n := n) (by rw [hdigits]; exact List.mem_cons_of_mem _ hc')
        rw [readDigits, if_pos hc, readDigits_true hrest, ← Nat.ofDigitChars_cons, ← hdigits,
          Nat.ofDigitChars_ten_toDigits]
  rw [readInt, strip_of_visible hvisible]
  split
  · rename_i heq
    have hsign : '+'.isDigit = true := isDigit_of_mem (n := n) (by rw [heq]; simp)
    cases hsign
  · rename_i heq
    have hsign : '-'.isDigit = true := isDigit_of_mem (n := n) (by rw [heq]; simp)
    cases hsign
  · rw [hread]
    rfl

namespace SemanticVersion

theorem toList_toString (v : SemanticVersion) :
    (toString v).toList = Nat.toDigits 10 v.major ++ '.' ::
      (Nat.toDigits 10 v.minor ++ '.' :: Nat.toDigits 10 v.patch) := by
  change ((((Nat.repr v.major ++ ".") ++ Nat.repr v.minor) ++ ".") ++ Nat.repr v.patch).toList = _
  simp only [String.toList_append, Nat.toList_repr]
  simp

theorem parse_toString (v : SemanticVersion) : parse (toString v) = .ok v := by
  have hdot : ∀ n : ℕ, '.' ∉ Nat.toDigits 10 n := fun n hmem => by
    have hdigit := isDigit_of_mem hmem
    cases hdigit
  have hvisible : ∀ c ∈ (toString v).toList, isSpace c = false := by
    intro c hc
    have hcases : c.isDigit = true ∨ c = '.' := by
      simp only [toList_toString, List.mem_append, List.mem_cons] at hc
      rcases hc with hc | hc | hc | hc | hc
      · exact Or.inl (isDigit_of_mem hc)
      · exact Or.inr hc
      · exact Or.inl (isDigit_of_mem hc)
      · exact Or.inr hc
      · exact Or.inl (isDigit_of_mem hc)
    rcases hcases with hdigit | rfl
    · exact not_isSpace_of_isDigit hdigit
    · rfl
  have hparts : (strip (toString v).toList).splitOn '.' =
      [Nat.toDigits 10 v.major, Nat.toDigits 10 v.minor, Nat.toDigits 10 v.patch] := by
    rw [strip_of_visible hvisible, toList_toString,
      List.splitOn_append_cons_self_of_not_mem (hdot _),
      List.splitOn_append_cons_self_of_not_mem (hdot _), List.splitOn_eq_singleton (hdot _)]
  have hnonneg : ¬((v.major : ℤ) < 0 ∨ (v.minor : ℤ) < 0 ∨ (v.patch : ℤ) < 0) := by omega
  simp only [parse, hparts, readInt_toDigits, of, if_neg hnonneg, Int.toNat_natCast]

end SemanticVersion

end OratoriaEngine
