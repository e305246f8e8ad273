import Mathlib.Data.List.DropRight
import Mathlib.Data.List.GetD
import Mathlib.Data.Nat.Notation

/-!
# Base64 in the alphabet for addresses

Three bytes are written as four characters of six bits each; one or two bytes at the end are
filled up with padding. A lenient reader skips the characters outside of the alphabet, so many
texts denote the same bytes, and what it needs to read what was written is only the padding.
-/

namespace Base64

def symbols : List Char :=
  ['A', 'B', 'C', 'D', 'E', 'F', 'G', 'H', 'I', 'J', 'K', 'L', 'M', 'N', 'O', 'P', 'Q', 'R', 'S',
    'T', 'U', 'V', 'W', 'X', 'Y', 'Z', 'a', 'b', 'c', 'd', 'e', 'f', 'g', 'h', 'i', 'j', 'k', 'l',
    'm', 'n', 'o', 'p', 'q', 'r', 's', 't', 'u', 'v', 'w', 'x', 'y', 'z', '0', '1', '2', '3', '4',
    '5', '6', '7', '8', '9', '-', '_']

def symbol (value : ℕ) : Char := symbols.getD value 'A'

/-- Six bits by their character, in either of the two alphabets. -/
def value? (c : Char) : Option ℕ :=
  if c = '+' then some 62 else if c = '/' then some 63
  else if c ∈ symbols then some (symbols.idxOf c) else none

/-- The bits of the bytes in groups of six; the last group is filled up with zeros. -/
def sextets : List UInt8 → List ℕ
  | [] => []
  | [a] => [a.toNat / 4, a.toNat % 4 * 16]
  | [a, b] => [a.toNat / 4, a.toNat % 4 * 16 + b.toNat / 16, b.toNat % 16 * 4]
  | a :: b :: c :: rest =>
      a.toNat / 4 :: (a.toNat % 4 * 16 + b.toNat / 16) :: (b.toNat % 16 * 4 + c.toNat / 64) ::
        (c.toNat % 64) :: sextets rest

/-- The number of characters that the last group of bytes is short of. -/
def short (raw : List UInt8) : ℕ := (3 - raw.length % 3) % 3

def encode (raw : List UInt8) : List Char :=
  (sextets raw).map symbol ++ List.replicate (short raw) '='

/-- Where a reader stands among the four characters of a group: the bits left over from the
character before, and whether padding was met after the second. -/
inductive Position
  | first
  | second (left : ℕ)
  | third (left : ℕ) (padded : Bool)
  | fourth (left : ℕ)

/-- Reads a text leniently: the padding that completes a group ends it, any other padding is
skipped like a character outside of the alphabet. -/
def scan : Position → List Char → Option (List UInt8)
  | .first, [] => some []
  | _, [] => none
  | .first, c :: rest =>
      match value? c with
      | some v => scan (.second v) rest
      | none => scan .first rest
  | .second left, c :: rest =>
      match value? c with
      | some v => (scan (.third (v % 16) false) rest).map (UInt8.ofNat (left * 4 + v / 16) :: ·)
      | none => scan (.second left) rest
  | .third left padded, c :: rest =>
      match value? c with
      | some v => (scan (.fourth (v % 4)) rest).map (UInt8.ofNat (left * 16 + v / 4) :: ·)
      | none =>
          if c ≠ '=' then scan (.third left padded) rest
          else if padded then some [] else scan (.third left true) rest
  | .fourth left, c :: rest =>
      match value? c with
      | some v => (scan .first rest).map (UInt8.ofNat (left * 64 + v) :: ·)
      | none => if c ≠ '=' then scan (.fourth left) rest else some []

def isAscii (text : List Char) : Bool := text.all fun c => c.toNat < 128

/-- A text with other characters than those of ASCII is refused. -/
def decode (text : List Char) : Option (List UInt8) :=
  if isAscii text then scan .first text else none

example : encode [77, 97] = "TWE=".toList := by decide

example : decode "T W\nE=ignored".toList = some [77, 97] := by decide

theorem symbols_nodup : symbols.Nodup := by decide

theorem length_symbols : symbols.length = 64 := by decide

theorem symbols_plain :
    symbols.all (fun c => c.isAlphanum || c == '-' || c == '_') = true := by decide

theorem notMem_symbols {c : Char} (h : (c.isAlphanum || c == '-' || c == '_') = false) :
    c ∉ symbols := by
  intro hc
  rw [List.all_eq_true.1 symbols_plain c hc] at h
  cases h

theorem symbol_eq {v : ℕ} (h : v < symbols.length) : symbol v = symbols[v] :=
  List.getD_eq_getElem _ _ h

theorem symbol_mem {v : ℕ} (h : v < 64) : symbol v ∈ symbols := by
  rw [← length_symbols] at h
  rw [symbol_eq h]
  exact List.getElem_mem h

theorem value?_symbol {v : ℕ} (h : v < 64) : value? (symbol v) = some v := by
  have hmem : symbol v ∈ symbols := symbol_mem h
  have hplus : symbol v ≠ '+' := fun hc => notMem_symbols (by decide) (hc ▸ hmem)
  have hslash : symbol v ≠ '/' := fun hc => notMem_symbols (by decide) (hc ▸ hmem)
  rw [← length_symbols] at h
  rw [value?, if_neg hplus, if_neg hslash, if_pos hmem, symbol_eq h, symbols_nodup.idxOf_getElem]

theorem pad_notMem : '=' ∉ symbols := notMem_symbols (by decide)

theorem value?_pad : value? '=' = none := by
  rw [value?, if_neg (by decide), if_neg (by decide), if_neg pad_notMem]

theorem sextets_lt (raw : List UInt8) : ∀ v ∈ sextets raw, v < 64 := by
  fun_induction sextets raw with
  | case1 => nofun
  | case2 a =>
      have ha := a.toNat_lt
      rw [List.forall_mem_cons, List.forall_mem_singleton]
      omega
  | case3 a b =>
      have ha := a.toNat_lt
      have hb := b.toNat_lt
      rw [List.forall_mem_cons, List.forall_mem_cons, List.forall_mem_singleton]
      omega
  | case4 a b c rest ih =>
      have ha := a.toNat_lt
      have hb := b.toNat_lt
      have hc := c.toNat_lt
      simp only [List.forall_mem_cons]
      exact ⟨by omega, by omega, by omega, by omega, ih⟩

theorem four_dvd_length (raw : List UInt8) : 4 ∣ (sextets raw).length + short raw := by
  unfold short
  fun_induction sextets raw with
  | case1 => decide
  | case2 a => simp
  | case3 a b => simp
  | case4 a b c rest ih =>
      simp only [List.length_cons]
      omega

theorem ofNat_eq {a : UInt8} {n : ℕ} (h : n = a.toNat) : UInt8.ofNat n = a := by
  rw [h, UInt8.ofNat_toNat]

theorem scan_first {v : ℕ} (h : v < 64) (rest : List Char) :
    scan .first (symbol v :: rest) = scan (.second v) rest := by
  simp [scan, value?_symbol h]

theorem scan_second {v left : ℕ} {a : UInt8} (h : v < 64) (ha : left * 4 + v / 16 = a.toNat)
    (rest : List Char) : scan (.second left) (symbol v :: rest) =
      (scan (.third (v % 16) false) rest).map (a :: ·) := by
  simp [scan, value?_symbol h, ofNat_eq ha]

theorem scan_third {v left : ℕ} {b : UInt8} (h : v < 64) (hb : left * 16 + v / 4 = b.toNat)
    (rest : List Char) : scan (.third left false) (symbol v :: rest) =
      (scan (.fourth (v % 4)) rest).map (b :: ·) := by
  simp [scan, value?_symbol h, ofNat_eq hb]

theorem scan_fourth {v left : ℕ} {c : UInt8} (h : v < 64) (hc : left * 64 + v = c.toNat)
    (rest : List Char) : scan (.fourth left) (symbol v :: rest) =
      (scan .first rest).map (c :: ·) := by
  simp [scan, value?_symbol h, ofNat_eq hc]

theorem scan_encode (raw : List UInt8) : scan .first (encode raw) = some raw := by
  unfold encode short
  fun_induction sextets raw with
  | case1 => rfl
  | case2 a =>
      have ha := a.toNat_lt
      change scan .first (symbol _ :: symbol _ :: ['=', '=']) = _
      rw [scan_first (by omega), scan_second (a := a) (by omega) (by omega)]
      simp [scan, value?_pad]
  | case3 a b =>
      have ha := a.toNat_lt
      have hb := b.toNat_lt
      change scan .first (symbol _ :: symbol _ :: symbol _ :: ['=']) = _
      rw [scan_first (by omega), scan_second (a := a) (by omega) (by omega),
        scan_third (b := b) (by omega) (by omega)]
      simp [scan, value?_pad]
  | case4 a b c rest ih =>
      have ha := a.toNat_lt
      have hb := b.toNat_lt
      have hc := c.toNat_lt
      have hshort : (3 - (a :: b :: c :: rest).length % 3) % 3 = (3 - rest.length % 3) % 3 := by
        simp only [List.length_cons]
        omega
      rw [hshort]
      simp only [List.map_cons, List.cons_append]
      rw [scan_first (by omega), scan_second (a := a) (by omega) (by omega),
        scan_third (b := b) (by omega) (by omega), scan_fourth (c := c) (by omega) (by omega), ih]
      rfl

theorem mem_encode {raw : List UInt8} {c : Char} (h : c ∈ encode raw) :
    c ∈ symbols ∨ c = '=' := by
  rcases List.mem_append.1 h with h | h
  · obtain ⟨v, hv, rfl⟩ := List.mem_map.1 h
    exact Or.inl (symbol_mem (sextets_lt raw v hv))
  · exact Or.inr (List.eq_of_mem_replicate h)

theorem isAscii_symbols : isAscii symbols = true := by decide

theorem toNat_lt_of_mem {c : Char} (h : c ∈ symbols) : c.toNat < 128 :=
  of_decide_eq_true (List.all_eq_true.1 isAscii_symbols c h)

theorem isAscii_encode (raw : List UInt8) : isAscii (encode raw) = true := by
  apply List.all_eq_true.2
  intro c hc
  apply decide_eq_true
  rcases mem_encode hc with h | rfl
  · exact toNat_lt_of_mem h
  · decide

theorem decode_encode (raw : List UInt8) : decode (encode raw) = some raw := by
  rw [decode, if_pos (isAscii_encode raw), scan_encode]

def unpadded (text : List Char) : List Char := text.rdropWhile (· = '=')

def repadded (text : List Char) : List Char :=
  text ++ List.replicate ((-(text.length : ℤ)) % 4).toNat '='

theorem unpadded_encode (raw : List UInt8) :
    unpadded (encode raw) = (sextets raw).map symbol := by
  unfold unpadded encode
  induction short raw with
  | zero =>
      rw [List.replicate_zero, List.append_nil, List.rdropWhile_eq_self_iff]
      intro hne hlast
      have hmem := List.getLast_mem hne
      rw [of_decide_eq_true hlast] at hmem
      obtain ⟨v, hv, hpad⟩ := List.mem_map.1 hmem
      exact pad_notMem (hpad ▸ symbol_mem (sextets_lt raw v hv))
  | succ k ih =>
      rw [List.replicate_succ', ← List.append_assoc, List.rdropWhile_concat_pos _ _ _ (by simp), ih]

theorem mem_symbols_of_mem_unpadded {raw : List UInt8} {c : Char}
    (h : c ∈ unpadded (encode raw)) : c ∈ symbols := by
  rw [unpadded_encode] at h
  obtain ⟨v, hv, rfl⟩ := List.mem_map.1 h
  exact symbol_mem (sextets_lt raw v hv)

/-- The padding that was cut off can be told from the length that is left. -/
theorem repadded_unpadded_encode (raw : List UInt8) :
    repadded (unpadded (encode raw)) = encode raw := by
  have hdvd := four_dvd_length raw
  have hshort : short raw < 3 := Nat.mod_lt _ (by decide)
  have hcount : ((-((sextets raw).length : ℤ)) % 4).toNat = short raw := by omega
  rw [unpadded_encode, repadded, List.length_map, hcount, encode]

end Base64
