import Mathlib.Data.List.DropRight
import Mathlib.Tactic.Common

/-! Python's view of white space in strings, and the case of ASCII letters by their codes. -/
namespace PythonText

/-- The characters for which `str.isspace` holds. -/
def isSpace (c : Char) : Bool :=
  c.toNat ∈ [0x9, 0xa, 0xb, 0xc, 0xd, 0x1c, 0x1d, 0x1e, 0x1f, 0x20, 0x85, 0xa0, 0x1680, 0x2000,
    0x2001, 0x2002, 0x2003, 0x2004, 0x2005, 0x2006, 0x2007, 0x2008, 0x2009, 0x200a, 0x2028,
    0x2029, 0x202f, 0x205f, 0x3000]

def strip (s : String) : String :=
  String.ofList ((s.toList.dropWhile isSpace).rdropWhile isSpace)

theorem strip_ne_empty {s : String} {c : Char} (hc : c ∈ s.toList) (h : isSpace c = false) :
    strip s ≠ "" := by
  unfold strip
  rw [Ne, String.ofList_eq_empty_iff, List.rdropWhile_eq_nil_iff]
  intro hall
  rw [← List.takeWhile_append_dropWhile (p := isSpace) (l := s.toList), List.mem_append] at hc
  have hspace : isSpace c = true := by
    rcases hc with hc | hc
    · exact List.mem_takeWhile_imp hc
    · exact hall c hc
  rw [h] at hspace
  cases hspace

def split (s : String) : List String :=
  ((s.toList.splitOnP isSpace).filter fun w => w ≠ []).map String.ofList

def lowerAscii (s : String) : String := String.ofList (s.toList.map Char.toLower)

/-- `str.lower`, known on ASCII. -/
structure Lowering where
  lower : String → String
  lower_ascii : ∀ s : String, (∀ c ∈ s.toList, c.toNat < 128) →
    lower s = String.ofList (s.toList.map Char.toLower)

def asciiLowering : Lowering := ⟨lowerAscii, fun _ _ => rfl⟩

theorem isDigit_iff {c : Char} : c.isDigit ↔ 48 ≤ c.toNat ∧ c.toNat ≤ 57 := by
  simp only [Char.isDigit, Bool.and_eq_true, decide_eq_true_eq, ge_iff_le, UInt32.le_iff_toNat_le]
  rfl

theorem isUpper_iff {c : Char} : c.isUpper ↔ 65 ≤ c.toNat ∧ c.toNat ≤ 90 := by
  change decide (c.val ≥ 65 ∧ c.val ≤ 90) = true ↔ _
  simp only [decide_eq_true_eq, ge_iff_le, UInt32.le_iff_toNat_le]
  rfl

theorem isAlpha_iff {c : Char} :
    c.isAlpha ↔ (65 ≤ c.toNat ∧ c.toNat ≤ 90) ∨ (97 ≤ c.toNat ∧ c.toNat ≤ 122) := by
  change (decide (c.val ≥ 65 ∧ c.val ≤ 90) ||
    (decide (c.val ≥ 97) && decide (c.val ≤ 122))) = true ↔ _
  simp only [Bool.or_eq_true, Bool.and_eq_true, decide_eq_true_eq, ge_iff_le,
    UInt32.le_iff_toNat_le]
  rfl

theorem toNat_toUpper (c : Char) :
    c.toUpper.toNat = if 97 ≤ c.toNat ∧ c.toNat ≤ 122 then c.toNat - 32 else c.toNat := by
  have hif : ('a'.val ≤ c.val ∧ c.val ≤ 'z'.val) ↔ (97 ≤ c.toNat ∧ c.toNat ≤ 122) := by
    simp only [UInt32.le_iff_toNat_le]
    rfl
  unfold Char.toUpper
  by_cases h : 97 ≤ c.toNat ∧ c.toNat ≤ 122
  · rw [dif_pos (hif.mpr h), if_pos h]
    have hval : c.val.toNat = c.toNat := rfl
    change (c.val + ('A'.val - 'a'.val)).toNat = _
    rw [UInt32.toNat_add, hval]
    change (c.toNat + 4294967264) % 4294967296 = _
    omega
  · rw [dif_neg (mt hif.mp h), if_neg h]

theorem toNat_toLower (c : Char) :
    c.toLower.toNat = if 65 ≤ c.toNat ∧ c.toNat ≤ 90 then c.toNat + 32 else c.toNat := by
  have hif : (c.val ≥ 'A'.val ∧ c.val ≤ 'Z'.val) ↔ (65 ≤ c.toNat ∧ c.toNat ≤ 90) := by
    simp only [ge_iff_le, UInt32.le_iff_toNat_le]
    rfl
  unfold Char.toLower
  by_cases h : 65 ≤ c.toNat ∧ c.toNat ≤ 90
  · rw [dif_pos (hif.mpr h), if_pos h]
    have hval : c.val.toNat = c.toNat := rfl
    change (c.val + ('a'.val - 'A'.val)).toNat = _
    rw [UInt32.toNat_add, hval]
    change (c.toNat + 32) % 4294967296 = _
    omega
  · rw [dif_neg (mt hif.mp h), if_neg h]

theorem toUpper_toLower (c : Char) : c.toLower.toUpper = c.toUpper := by
  rw [← Char.toNat_inj, toNat_toUpper, toNat_toUpper, toNat_toLower]
  split_ifs <;> omega

theorem toUpper_toUpper (c : Char) : c.toUpper.toUpper = c.toUpper := by
  rw [← Char.toNat_inj, toNat_toUpper c.toUpper, toNat_toUpper]
  split_ifs <;> omega

theorem isAlphanum_toUpper (c : Char) : c.toUpper.isAlphanum = c.isAlphanum := by
  rw [Bool.eq_iff_iff, Char.isAlphanum, Char.isAlphanum, Bool.or_eq_true, Bool.or_eq_true,
    isAlpha_iff, isAlpha_iff, isDigit_iff, isDigit_iff, toNat_toUpper]
  split_ifs <;> omega

theorem isAlpha_toUpper (c : Char) : c.toUpper.isAlpha = c.isAlpha := by
  rw [Bool.eq_iff_iff, isAlpha_iff, isAlpha_iff, toNat_toUpper]
  split_ifs <;> omega

theorem toUpper_of_isDigit {c : Char} (h : c.isDigit) : c.toUpper = c := by
  rw [isDigit_iff] at h
  rw [← Char.toNat_inj, toNat_toUpper, if_neg (by omega)]

/-- The text after the last separator is determined, and so is the text before it. -/
theorem last_separator_inj {α : Type*} {c : α} {x₁ x₂ z₁ z₂ : List α} (h₁ : c ∉ z₁) (h₂ : c ∉ z₂)
    (h : x₁ ++ c :: z₁ = x₂ ++ c :: z₂) : x₁ = x₂ ∧ z₁ = z₂ := by
  rw [List.append_eq_append_iff] at h
  rcases h with ⟨w, rfl, hw⟩ | ⟨w, rfl, hw⟩
  · cases w with
    | nil => simpa using hw
    | cons a w =>
      simp only [List.cons_append, List.cons.injEq] at hw
      exact absurd (by rw [hw.2]; simp) h₁
  · cases w with
    | nil => simpa [eq_comm] using hw
    | cons a w =>
      simp only [List.cons_append, List.cons.injEq] at hw
      exact absurd (by rw [hw.2]; simp) h₂

/-- A number can be read off its digits. -/
theorem toDigits_inj {m n : ℕ} (h : Nat.toDigits 10 m = Nat.toDigits 10 n) : m = n := by
  rw [← Nat.ofDigitChars_toDigits (b := 10) (n := m) (by decide) (by decide), h,
    Nat.ofDigitChars_toDigits (by decide) (by decide)]

/-- The number at the end of an id, and what stands before it. -/
theorem numbered_inj {c : Char} (hc : c.isDigit = false) {p q : List Char} {i j : ℕ}
    (h : p ++ c :: Nat.toDigits 10 i = q ++ c :: Nat.toDigits 10 j) : p = q ∧ i = j := by
  have hdigits : ∀ n, c ∉ Nat.toDigits 10 n := by
    intro n hm
    have hdigit := Nat.isDigit_of_mem_toDigits (by decide) (by decide) hm
    rw [hc] at hdigit
    cases hdigit
  obtain ⟨hp, hd⟩ := last_separator_inj (hdigits i) (hdigits j) h
  exact ⟨hp, toDigits_inj hd⟩

end PythonText
