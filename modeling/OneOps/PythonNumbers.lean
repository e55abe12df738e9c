import OneOps.PythonText
import Mathlib.Data.List.DropRight
import Mathlib.Algebra.Order.Group.Nat

/-! Python's integers as decimal text, both ways. A conversion of more than 4300 digits is
refused; what `int` reads may have blanks around it, a sign, the digits of any script and
single underscores between them. -/
namespace PythonNumbers

open PythonText (isSpace)

def maxStrDigits : ℕ := 4300

def Long (n : ℤ) : Prop := 10 ^ maxStrDigits ≤ n.natAbs

instance : DecidablePred Long := fun n => inferInstanceAs (Decidable (_ ≤ n.natAbs))

/-- `str(n)`, which raises a `ValueError` on a long integer. -/
def strInt (n : ℤ) : Option String := if Long n then none else some (toString n)

structure Decimals where
  value : Char → Option ℕ
  value_lt : ∀ c d, value c = some d → d < 10
  value_ascii : ∀ c : Char, c.toNat < 128 →
    value c = if c.isDigit then some (c.toNat - 48) else none

section Parsing

variable (D : Decimals)

def natOf (ds : List Char) : Option ℕ :=
  let groups := ds.splitOnP fun c => c = '_'
  if [] ∈ groups then none
  else
    match groups.flatten.mapM D.value with
    | none => none
    | some digits =>
      if maxStrDigits < digits.length then none
      else some (digits.foldl (fun v d => 10 * v + d) 0)

def isAscii (c : Char) : Bool := c.toNat < 128

def isCSpace (c : Char) : Bool := c.toNat ∈ [0x9, 0xa, 0xb, 0xc, 0xd, 0x20]

def trim (cs : List Char) : List Char :=
  let blank := if cs.all isAscii then isCSpace else isSpace
  (cs.dropWhile blank).rdropWhile blank

/-- `int(s)`, with `none` for a `ValueError`. -/
def intOf (s : String) : Option ℤ :=
  match trim s.toList with
  | '-' :: ds => (natOf D ds).map fun n : ℕ => -(n : ℤ)
  | '+' :: ds => (natOf D ds).map Int.ofNat
  | ds => (natOf D ds).map Int.ofNat

variable {D}

theorem mapM_digits {ds : List Char} (h : ∀ c ∈ ds, c.isDigit) :
    ds.mapM D.value = some (ds.map fun c => c.toNat - 48) := by
  induction ds with
  | nil => rfl
  | cons c ds ih =>
    obtain ⟨hc, hds⟩ := List.forall_mem_cons.mp h
    have hcode := PythonText.isDigit_iff.mp hc
    rw [List.mapM_cons, ih hds, D.value_ascii c (by omega), if_pos hc]
    rfl

theorem natOf_toDigits {n : ℕ} (h : n < 10 ^ maxStrDigits) :
    natOf D (Nat.toDigits 10 n) = some n := by
  have hdigit : ∀ c ∈ Nat.toDigits 10 n, c.isDigit :=
    fun c hc => Nat.isDigit_of_mem_toDigits (by decide) (by decide) hc
  have hgroups : (Nat.toDigits 10 n).splitOnP (fun c => c = '_') = [Nat.toDigits 10 n] := by
    apply List.splitOnP_eq_singleton
    intro c hc
    have hd := hdigit c hc
    rw [decide_eq_false_iff_not]
    rintro rfl
    exact absurd hd (by decide)
  have hne : Nat.toDigits 10 n ≠ [] := List.length_pos_iff.mp Nat.length_toDigits_pos
  have hlen : (Nat.toDigits 10 n).length ≤ maxStrDigits :=
    (Nat.length_toDigits_le_iff (by decide) (by decide)).mpr h
  have hvalue : ((Nat.toDigits 10 n).map fun c => c.toNat - 48).foldl (fun v d => 10 * v + d) 0 =
      n := by
    rw [List.foldl_map]
    exact Nat.ofDigitChars_ten_toDigits
  have hempty : [] ∉ [Nat.toDigits 10 n] := fun hm => hne (List.mem_singleton.mp hm).symm
  unfold natOf
  rw [hgroups]
  simp only [if_neg hempty, List.flatten_cons, List.flatten_nil, List.append_nil,
    mapM_digits hdigit, List.length_map, if_neg (Nat.not_lt.mpr hlen), hvalue]

theorem trim_eq_self {p : Char → Bool} {cs : List Char} (h : ∀ c ∈ cs, p c = false) :
    (cs.dropWhile p).rdropWhile p = cs := by
  have hdrop : cs.dropWhile p = cs := by
    rw [List.dropWhile_eq_self_iff]
    intro hpos hp
    rw [h _ (List.getElem_mem hpos)] at hp
    cases hp
  rw [hdrop, List.rdropWhile_eq_self_iff]
  intro hne hp
  rw [h _ (List.getLast_mem hne)] at hp
  cases hp

/-- Signs and digits are ASCII, and no blanks. -/
theorem trim_number {cs : List Char} (h : ∀ c ∈ cs, c = '-' ∨ c.isDigit) : trim cs = cs := by
  have hcode : ∀ c ∈ cs, 45 ≤ c.toNat ∧ c.toNat ≤ 57 := by
    intro c hc
    rcases h c hc with rfl | hd
    · decide
    · have := PythonText.isDigit_iff.mp hd
      omega
  have hascii : cs.all isAscii = true := by
    rw [List.all_eq_true]
    intro c hc
    have := hcode c hc
    exact decide_eq_true (by omega)
  rw [trim, if_pos hascii]
  apply trim_eq_self
  intro c hc
  have := hcode c hc
  simp only [isCSpace, List.mem_cons, List.not_mem_nil, or_false, decide_eq_false_iff_not]
  omega

/-- A short integer is read back as it was written. -/
theorem intOf_toString {n : ℤ} (h : ¬Long n) : intOf D (toString n) = some n := by
  have hdigit : ∀ m : ℕ, ∀ c ∈ Nat.toDigits 10 m, c.isDigit :=
    fun m c hc => Nat.isDigit_of_mem_toDigits (by decide) (by decide) hc
  unfold Long at h
  cases n with
  | ofNat m =>
    have htext : (toString (Int.ofNat m)).toList = Nat.toDigits 10 m := by
      simp [Int.toString_eq_repr, Int.repr, Nat.repr]
    have hnat : natOf D (Nat.toDigits 10 m) = some m := natOf_toDigits (by simpa using h)
    rw [intOf, htext, trim_number fun c hc => .inr (hdigit m c hc)]
    have hne : Nat.toDigits 10 m ≠ [] := List.length_pos_iff.mp Nat.length_toDigits_pos
    obtain ⟨x, xs, hx⟩ := List.exists_cons_of_ne_nil hne
    have hxd : x.isDigit := hdigit m x (by rw [hx]; exact List.mem_cons_self)
    rw [hx] at hnat ⊢
    split
    · exact absurd hxd (by simp_all)
    · exact absurd hxd (by simp_all)
    · rw [hnat]
      rfl
  | negSucc m =>
    have htext : (toString (Int.negSucc m)).toList = '-' :: Nat.toDigits 10 (m + 1) := by
      simp [Int.toString_eq_repr, Int.repr, Nat.repr]
    have hnat : natOf D (Nat.toDigits 10 (m + 1)) = some (m + 1) :=
      natOf_toDigits (by simpa using h)
    rw [intOf, htext, trim_number]
    · simp only [hnat, Option.map_some]
      rfl
    · intro c hc
      rcases List.mem_cons.mp hc with rfl | hc
      · exact .inl rfl
      · exact .inr (hdigit _ c hc)

theorem foldl_digits_lt {digits : List ℕ} (h : ∀ d ∈ digits, d < 10) (v : ℕ) :
    digits.foldl (fun v d => 10 * v + d) v < (v + 1) * 10 ^ digits.length := by
  induction digits generalizing v with
  | nil => simp
  | cons d digits ih =>
    obtain ⟨hd, hrest⟩ := List.forall_mem_cons.mp h
    calc (d :: digits).foldl (fun v d => 10 * v + d) v
        < (10 * v + d + 1) * 10 ^ digits.length := ih hrest (10 * v + d)
      _ ≤ (10 * (v + 1)) * 10 ^ digits.length := Nat.mul_le_mul_right _ (by omega)
      _ = (v + 1) * 10 ^ (d :: digits).length := by
          rw [List.length_cons, Nat.pow_succ, Nat.mul_comm 10 (v + 1), Nat.mul_assoc,
            Nat.mul_comm 10]

theorem mapM_value_lt {cs : List Char} {digits : List ℕ} (h : cs.mapM D.value = some digits) :
    ∀ d ∈ digits, d < 10 := by
  induction cs generalizing digits with
  | nil =>
    cases h
    exact List.forall_mem_nil _
  | cons c cs ih =>
    rw [List.mapM_cons] at h
    obtain ⟨d, hd, h⟩ := Option.bind_eq_some_iff.mp h
    obtain ⟨rest, hrest, h⟩ := Option.bind_eq_some_iff.mp h
    cases h
    exact List.forall_mem_cons.mpr ⟨D.value_lt c d hd, ih hrest⟩

theorem natOf_lt {ds : List Char} {n : ℕ} (h : natOf D ds = some n) : n < 10 ^ maxStrDigits := by
  unfold natOf at h
  by_cases hempty : [] ∈ ds.splitOnP fun c => c = '_'
  · simp [hempty] at h
  · cases hm : (ds.splitOnP fun c => c = '_').flatten.mapM D.value with
    | none => simp [hempty, hm] at h
    | some digits =>
      by_cases hlen : maxStrDigits < digits.length
      · simp [hempty, hm, hlen] at h
      · simp only [hempty, hm, hlen, if_false, Option.some.injEq] at h
        have hlt := foldl_digits_lt (mapM_value_lt hm) 0
        rw [h, Nat.zero_add, Nat.one_mul] at hlt
        exact hlt.trans_le (Nat.pow_le_pow_right (by decide) (Nat.not_lt.mp hlen))

theorem intOf_short {s : String} {n : ℤ} (h : intOf D s = some n) : ¬Long n := by
  have hneg : ∀ ds : List Char, (natOf D ds).map (fun m : ℕ => -(m : ℤ)) = some n → ¬Long n := by
    intro ds h
    obtain ⟨m, hm, rfl⟩ := Option.map_eq_some_iff.mp h
    have := natOf_lt hm
    unfold Long
    omega
  have hpos : ∀ ds : List Char, (natOf D ds).map Int.ofNat = some n → ¬Long n := by
    intro ds h
    obtain ⟨m, hm, rfl⟩ := Option.map_eq_some_iff.mp h
    exact Nat.not_le.mpr (natOf_lt hm)
  unfold intOf at h
  split at h
  · exact hneg _ h
  · exact hpos _ h
  · exact hpos _ h

end Parsing

end PythonNumbers
