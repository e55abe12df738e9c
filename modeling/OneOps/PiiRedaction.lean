import OneOps.LlmGateway
import OneOps.PythonText
import OneOps.RegexSubstitution

/-! What redaction leaves of a text. The patterns are read as languages between boundaries;
the placeholders shield the text from all of them, so that no later substitution brings back
what an earlier one removed. -/
namespace PiiRedaction

open LlmGateway
open PythonRegex
open PythonText (isDigit_iff isUpper_iff)
open RegexLanguage
open RegexSubstitution

/-- The classes of `re` for texts, as far as ASCII decides them. -/
structure UnicodeTable extends CharTable where
  word_ascii : ∀ c : Char, c.toNat < 128 → word c = (c.isAlphanum || c == '_')
  digit_ascii : ∀ c : Char, c.toNat < 128 → digit c = c.isDigit
  space_ascii : ∀ c : Char, c.toNat < 128 →
    space c = decide (c.toNat ∈ [9, 10, 11, 12, 13, 28, 29, 30, 31, 32])
  word_of_digit : ∀ c, digit c = true → word c = true

section Patterns

variable (tbl : CharTable)

def pattern : PiiLabel → Regex
  | .email => emailPattern tbl
  | .creditCard => creditCardPattern tbl
  | .ssn => ssnPattern tbl
  | .ipAddress => ipAddressPattern tbl
  | .phone => phonePattern tbl

def parts : PiiLabel → List Regex
  | .email =>
    [.rep 1 none (.chr fun c => tbl.word c ∨ c ∈ ['.', '%', '+', '-']), lit '@',
      .rep 1 none (.chr fun c => tbl.word c ∨ c ∈ ['.', '-']), lit '.',
      .rep 2 none (.chr asciiLetter)]
  | .creditCard =>
    [.rep 13 (some 19) (LlmGateway.sequence [.chr tbl.digit, .rep 0 (some 1) (oneOf [' ', '-'])])]
  | .ssn => [digits tbl 3 (some 3), lit '-', digits tbl 2 (some 2), lit '-', digits tbl 4 (some 4)]
  | .ipAddress =>
    [.rep 3 (some 3) (LlmGateway.sequence [digits tbl 1 (some 3), lit '.']), digits tbl 1 (some 3)]
  | .phone =>
    [.rep 0 (some 1) (lit '+'), .chr tbl.digit,
      .rep 7 none (.chr fun c => tbl.digit c ∨ tbl.space c ∨ c ∈ ['(', ')', '.', '-']),
      .chr tbl.digit]

def words (label : PiiLabel) : Language Char := lang (LlmGateway.sequence (parts tbl label))

theorem pattern_eq (label : PiiLabel) :
    pattern tbl label = LlmGateway.sequence (.boundary :: (parts tbl label ++ [.boundary])) := by
  cases label <;> rfl

variable {tbl} {word : Char → Bool}

theorem sequence_cons {rs : List Regex} (h : rs ≠ []) (r : Regex) :
    LlmGateway.sequence (r :: rs) = .seq r (LlmGateway.sequence rs) := by
  obtain ⟨s, ss, rfl⟩ := List.exists_cons_of_ne_nil h
  rfl

theorem ends_sequence_concat (z : Regex) {rs : List Regex} (h : rs ≠ []) (c : Cursor) :
    ends word (LlmGateway.sequence (rs ++ [z])) c =
      (ends word (LlmGateway.sequence rs) c).flatMap (ends word z) := by
  induction rs generalizing c with
  | nil => exact absurd rfl h
  | cons r rs ih =>
    rcases rs with _ | ⟨s, ss⟩
    · rfl
    · have htail : ends word (LlmGateway.sequence (s :: ss ++ [z])) =
          fun c => (ends word (LlmGateway.sequence (s :: ss)) c).flatMap (ends word z) :=
        funext (ih (List.cons_ne_nil s ss))
      rw [List.cons_append, sequence_cons (by simp), sequence_cons (List.cons_ne_nil s ss), ends,
        ends, htail, List.flatMap_assoc]

theorem finds_sequence {rs : List Regex} (h : rs ≠ []) (hplain : Plain (LlmGateway.sequence rs)) :
    Finds word (LlmGateway.sequence (.boundary :: (rs ++ [.boundary])))
      (lang (LlmGateway.sequence rs)) := by
  intro c e
  have hboundary : ∀ d, e ∈ ends word .boundary d ↔ atBoundary word d = true ∧ e = d := by
    intro d
    by_cases hd : atBoundary word d = true
    · simp [ends, hd]
    · simp [ends, hd]
  have hcore : e ∈ ends word (LlmGateway.sequence (rs ++ [.boundary])) c ↔
      atBoundary word e = true ∧ ∃ m b, c.rest = m ++ b ∧ m ∈ lang (LlmGateway.sequence rs) ∧
        e = Cursor.after c.prev m b := by
    rw [ends_sequence_concat _ h, List.mem_flatMap, ← speaks_ends hplain c e]
    constructor
    · rintro ⟨d, hd, he⟩
      obtain ⟨hat, rfl⟩ := (hboundary d).mp he
      exact ⟨hat, hd⟩
    · rintro ⟨hat, he⟩
      exact ⟨e, he, (hboundary e).mpr ⟨hat, rfl⟩⟩
  rw [sequence_cons (by simp), ends]
  by_cases hc : atBoundary word c = true
  · have hone : ends word .boundary c = [c] := by simp [ends, hc]
    rw [hone, List.flatMap_singleton, hcore]
    simp [hc]
  · have hnil : ends word .boundary c = [] := by simp [ends, hc]
    rw [hnil]
    simp [hc]

theorem plain_parts (label : PiiLabel) : Plain (LlmGateway.sequence (parts tbl label)) := by
  cases label <;> simp [parts, LlmGateway.sequence, digits, lit, oneOf, Plain]

variable (tbl) in
theorem finds_pattern (label : PiiLabel) :
    Finds tbl.word (pattern tbl label) (words tbl label) := by
  rw [pattern_eq]
  exact finds_sequence (by cases label <;> simp [parts]) (plain_parts label)

end Patterns

section Placeholders

variable (tbl : UnicodeTable)

/-- A placeholder is upper-case letters and `_` between brackets. -/
theorem placeholder_brackets (label : PiiLabel) : ∃ inner : List Char,
    label.placeholder.toList = '[' :: inner ++ [']'] ∧
      (inner.all fun c => c.isUpper || c == '_') = true := by
  refine ⟨(label.placeholder.toList.drop 1).dropLast, ?_⟩
  cases label <;> decide +kernel

variable {tbl}

theorem inner_ascii {c : Char} (h : (c.isUpper || c == '_') = true) :
    c.toNat < 128 ∧ c.isDigit = false ∧ c ≠ '@' ∧ c ≠ '+' := by
  rw [Bool.or_eq_true, beq_iff_eq] at h
  rcases h with h | rfl
  · obtain ⟨hlow, hhigh⟩ := isUpper_iff.mp h
    refine ⟨by omega, ?_, ?_, ?_⟩
    · rw [Bool.eq_false_iff, Ne, isDigit_iff]
      omega
    · rintro rfl
      exact absurd h (by decide)
    · rintro rfl
      exact absurd h (by decide)
  · decide

variable (tbl) in
theorem bracket_classes {c : Char} (h : c = '[' ∨ c = ']') :
    tbl.word c = false ∧ tbl.digit c = false ∧ tbl.space c = false ∧ asciiLetter c = false := by
  have hcode : c.toNat < 128 := by rcases h with rfl | rfl <;> decide
  rw [tbl.word_ascii c hcode, tbl.digit_ascii c hcode, tbl.space_ascii c hcode]
  rcases h with rfl | rfl <;> decide

theorem no_bracket (label : PiiLabel) :
    ∀ m ∈ words tbl.toCharTable label, ∀ x ∈ m, ¬(x = '[' ∨ x = ']') := by
  have hclasses : ∀ x, x = '[' ∨ x = ']' → tbl.word x = false ∧ tbl.digit x = false ∧
      tbl.space x = false ∧ asciiLetter x = false := fun _ => bracket_classes tbl
  apply Over.forall_mem
  cases label <;> simp only [parts, LlmGateway.sequence, digits, lit, oneOf, Over,
    decide_eq_true_eq] <;> grind

theorem has_mark (label : PiiLabel) :
    ∀ m ∈ words tbl.toCharTable label, ∃ x ∈ m, x = '@' ∨ tbl.digit x = true := by
  apply Has.exists_mem
  cases label <;> simp only [parts, LlmGateway.sequence, digits, lit, oneOf, Has,
    decide_eq_true_eq] <;> grind

/-- Every placeholder shields the text from every pattern. -/
theorem shields (label other : PiiLabel) :
    Shields tbl.word (words tbl.toCharTable label) other.placeholder.toList := by
  obtain ⟨inner, heq, hinner⟩ := placeholder_brackets other
  refine ⟨'[', ']', inner, heq, (bracket_classes tbl (.inl rfl)).1,
    (bracket_classes tbl (.inr rfl)).1, fun m hm => ⟨?_, ?_, ?_⟩⟩
  · exact fun hx => no_bracket label m hm _ hx (.inl rfl)
  · exact fun hx => no_bracket label m hm _ hx (.inr rfl)
  · obtain ⟨x, hx, hmark⟩ := has_mark label m hm
    refine ⟨x, hx, fun hin => ?_⟩
    obtain ⟨hascii, hdigit, hat, -⟩ := inner_ascii (List.all_eq_true.mp hinner x hin)
    rcases hmark with h | h
    · exact hat h
    · rw [tbl.digit_ascii x hascii, hdigit] at h
      cases h

variable (tbl) in
theorem nil_notMem_words (label : PiiLabel) : [] ∉ words tbl.toCharTable label := by
  intro h
  obtain ⟨x, hx, -⟩ := has_mark label [] h
  cases hx

end Placeholders

section Phone

variable (tbl : UnicodeTable)

def unsigned : Language Char := lang (LlmGateway.sequence
  [.chr tbl.digit, .rep 7 none (.chr fun c => tbl.digit c ∨ tbl.space c ∨ c ∈ ['(', ')', '.', '-']),
    .chr tbl.digit])

theorem plus_classes : tbl.word '+' = false ∧ tbl.digit '+' = false := by
  rw [tbl.word_ascii _ (by decide), tbl.digit_ascii _ (by decide)]
  decide

variable {tbl}

theorem mem_words_phone {m : List Char} : m ∈ words tbl.toCharTable .phone ↔
    m ∈ unsigned tbl ∨ ∃ t ∈ unsigned tbl, m = '+' :: t := by
  constructor
  · intro h
    obtain ⟨s, ⟨k, -, hk, hs⟩, t, ht, rfl⟩ := Language.mem_mul.mp h
    rcases Nat.le_one_iff_eq_zero_or_eq_one.mp (hk 1 rfl) with rfl | rfl
    · rw [pow_zero, Language.mem_one] at hs
      rw [hs]
      exact .inl ht
    · rw [pow_one] at hs
      obtain ⟨x, rfl, hx⟩ := hs
      obtain rfl : x = '+' := by simpa using hx
      exact .inr ⟨t, ht, rfl⟩
  · rintro (h | ⟨t, ht, rfl⟩)
    · exact Language.append_mem_mul (a := []) ⟨0, le_rfl, by simp, rfl⟩ h
    · refine Language.append_mem_mul (a := ['+']) ⟨1, by simp, by simp, ?_⟩ ht
      rw [pow_one]
      exact ⟨'+', rfl, by simp⟩

theorem unsigned_ends {t : List Char} (h : t ∈ unsigned tbl) :
    (∃ x xs, t = x :: xs ∧ tbl.digit x = true) ∧ t.getLast?.any tbl.word = true := by
  obtain ⟨u, ⟨x, rfl, hx⟩, v, hv, rfl⟩ := Language.mem_mul.mp h
  obtain ⟨body, -, v', ⟨y, rfl, hy⟩, rfl⟩ := Language.mem_mul.mp hv
  refine ⟨⟨x, body ++ [y], rfl, hx⟩, ?_⟩
  rw [← List.append_assoc, List.getLast?_append]
  simpa using tbl.word_of_digit y hy

theorem signed_phone : Signed tbl.word (words tbl.toCharTable .phone) '+' := by
  have hhead : ∀ t ∈ unsigned tbl, t.head? ≠ some '+' ∧ t.head?.any tbl.word = true := by
    intro t ht
    obtain ⟨⟨x, xs, rfl, hx⟩, -⟩ := unsigned_ends ht
    refine ⟨?_, by simpa using tbl.word_of_digit x hx⟩
    rintro heq
    obtain rfl : x = '+' := by simpa using heq
    rw [(plus_classes tbl).2] at hx
    cases hx
  refine ⟨(plus_classes tbl).1, ?_, ?_, ?_, ?_⟩
  · intro m hm
    rcases mem_words_phone.mp hm with h | ⟨t, ht, rfl⟩
    · exact (unsigned_ends h).2
    · obtain ⟨⟨x, xs, rfl, -⟩, hlast⟩ := unsigned_ends ht
      rwa [List.getLast?_cons_cons]
  · intro m hm
    rcases mem_words_phone.mp hm with h | ⟨t, ht, rfl⟩
    · exact .inr (hhead m h).2
    · exact .inl rfl
  · intro t ht
    rcases mem_words_phone.mp ht with h | ⟨t', ht', heq⟩
    · exact absurd rfl (hhead _ h).1
    · obtain rfl := (List.cons.inj heq).2
      exact ⟨mem_words_phone.mpr (.inl ht'), (hhead t ht').2⟩
  · intro t ht hword
    rcases mem_words_phone.mp ht with h | ⟨t', -, rfl⟩
    · exact mem_words_phone.mpr (.inr ⟨t, h, rfl⟩)
    · rw [List.head?_cons, Option.any_some, (plus_classes tbl).1] at hword
      cases hword

theorem descends_phone : Descends (ends tbl.word (phonePattern tbl.toCharTable)) := by
  have hlast : Shortens (1 + 0) (ends tbl.word (LlmGateway.sequence [.chr tbl.digit, .boundary])) :=
    (shortens_chr tbl.digit).seq shortens_boundary
  have hbody : Descends (ends tbl.word (LlmGateway.sequence [.rep 7 none
      (.chr fun c => tbl.digit c ∨ tbl.space c ∨ c ∈ ['(', ')', '.', '-']), .chr tbl.digit,
      .boundary])) := (descends_rep_chr 7 none _).flatMap_shortens hlast
  have hdigit : Shortens 1 (ends tbl.word (.chr tbl.digit)) := shortens_chr tbl.digit
  refine shortens_boundary.flatMap_descends
    (descends_optional (hdigit.flatMap_descends hbody) ?_)
  intro prev x xs hx
  obtain rfl : x = '+' := by simpa using hx
  have hnil : ends tbl.word (.chr tbl.digit) ⟨prev, '+' :: xs⟩ = [] := by
    simp [ends, (plus_classes tbl).2]
  rw [sequence_cons (by simp), ends, hnil, List.flatMap_nil]

theorem placeholder_not_phone {x : Char} (hx : x ∈ PiiLabel.phone.placeholder.toList) :
    ∀ m ∈ words tbl.toCharTable .phone, m.head? ≠ some x := by
  have hquiet : tbl.digit x = false ∧ x ≠ '+' := by
    obtain ⟨inner, heq, hinner⟩ := placeholder_brackets .phone
    rw [heq, List.cons_append, List.mem_cons, List.mem_append, List.mem_singleton] at hx
    rcases hx with rfl | hx | rfl
    · exact ⟨(bracket_classes tbl (.inl rfl)).2.1, by decide⟩
    · obtain ⟨hascii, hdigit, -, hplus⟩ := inner_ascii (List.all_eq_true.mp hinner x hx)
      exact ⟨by rw [tbl.digit_ascii x hascii, hdigit], hplus⟩
    · exact ⟨(bracket_classes tbl (.inr rfl)).2.1, by decide⟩
  intro m hm heq
  rcases mem_words_phone.mp hm with h | ⟨t, -, rfl⟩
  · obtain ⟨⟨y, ys, rfl, hy⟩, -⟩ := unsigned_ends h
    obtain rfl : y = x := by simpa using heq
    rw [hquiet.1] at hy
    cases hy
  · exact hquiet.2 (by simpa using heq.symm)

end Phone

/-- Dates, times of at most three numbers and what is not a digit. `n` numbers of a time have
been read since the last date. -/
inductive Calendar (digit : Char → Bool) : ℕ → List Char → Prop where
  | nil {n} : Calendar digit n []
  | other {n x w} (hx : digit x = false) (later : Calendar digit n w) : Calendar digit n (x :: w)
  | short {n x w} (hn : n < 3) (hx : digit x = true) (hw : w.head?.any digit = false)
      (later : Calendar digit (n + 1) w) : Calendar digit n (x :: w)
  | time {n x y w} (hn : n < 3) (hx : digit x = true) (hy : digit y = true)
      (hw : w.head?.any digit = false) (later : Calendar digit (n + 1) w) :
      Calendar digit n (x :: y :: w)
  | date {n} {y₁ y₂ y₃ y₄ s m₁ m₂ t d₁ d₂ : Char} {w}
      (hdigits : ∀ x ∈ [y₁, y₂, y₃, y₄, m₁, m₂, d₁, d₂], digit x = true)
      (hs : s = '-' ∧ t = '-') (hw : w.head?.any digit = false) (later : Calendar digit 0 w) :
      Calendar digit n (y₁ :: y₂ :: y₃ :: y₄ :: s :: m₁ :: m₂ :: t :: d₁ :: d₂ :: w)

example : Calendar Char.isDigit 0
    ['2', '0', '2', '6', '-', '0', '4', '-', '0', '1', ' ', '1', '6'] := by
  have hhour : Calendar Char.isDigit 0 [' ', '1', '6'] :=
    .other (by decide) (.time (by decide) (by decide) (by decide) (by decide) .nil)
  exact .date (by simp) ⟨rfl, rfl⟩ (by decide) hhour

section Dates

variable {tbl : UnicodeTable}

theorem calendar_other {digit : Char → Bool} {n : ℕ} {x : Char} (hx : digit x = false)
    {w : List Char} : Calendar digit n (x :: w) ↔ Calendar digit n w := by
  have hno : ¬digit x = true := by simp [hx]
  constructor
  · intro h
    cases h with
    | other _ later => exact later
    | short _ h _ _ => exact absurd h hno
    | time _ h _ _ _ => exact absurd h hno
    | date hdigits _ _ _ => exact absurd (hdigits x List.mem_cons_self) hno
  · exact .other hx

/-- A sign does not matter for the date in a match. -/
theorem search_dateLike_sign {w : List Char} :
    search tbl.word (dateLike tbl.toCharTable) ('+' :: w) =
      search tbl.word (dateLike tbl.toCharTable) w := by
  have hplain : Plain (dateLike tbl.toCharTable) := by
    simp [dateLike, LlmGateway.sequence, digits, lit, Plain]
  have hover : ∀ m ∈ lang (dateLike tbl.toCharTable), ∀ x ∈ m, x ≠ '+' := by
    have hplus := plus_classes tbl
    apply Over.forall_mem
    simp only [dateLike, LlmGateway.sequence, digits, lit, Over, decide_eq_true_eq]
    grind
  have hne : [] ∉ lang (dateLike tbl.toCharTable) := by
    intro h
    have hhas : Has (fun _ => True) (dateLike tbl.toCharTable) := by
      simp [dateLike, LlmGateway.sequence, digits, lit, Has]
    obtain ⟨x, hx, -⟩ := hhas.exists_mem [] h
    cases hx
  have hspeaks : Speaks (ends tbl.word _) _ := speaks_ends hplain
  rw [Bool.eq_iff_iff, hspeaks.search_iff hne, hspeaks.search_iff hne]
  constructor
  · rintro ⟨a, m, b, heq, hm⟩
    rcases a with _ | ⟨y, a⟩
    · rcases m with _ | ⟨x, m⟩
      · exact absurd hm hne
      · exact absurd (List.cons.inj heq).1.symm (hover _ hm x List.mem_cons_self)
    · exact ⟨a, m, b, (List.cons.inj heq).2, hm⟩
  · rintro ⟨a, m, b, rfl, hm⟩
    exact ⟨'+' :: a, m, b, rfl, hm⟩

end Dates

section Substitutions

variable {tbl : UnicodeTable} {label : PiiLabel} {s : List Char × List PiiLabel}

theorem mem_finditer {word : Char → Bool} {r : Regex} {text w : List Char} :
    w ∈ finditer word r text ↔ .inr w ∈ segments word r 0 none text := by
  simp [finditer, List.mem_filterMap, Sum.getRight?_eq_some_iff]

theorem search_eq_false_iff {text : List Char} :
    search tbl.word (pattern tbl.toCharTable label) text = false ↔
      Free tbl.word (words tbl.toCharTable label) text :=
  Finds.search_eq_false (finds_pattern tbl.toCharTable label) (nil_notMem_words tbl label)

theorem redactLabel_of_found (h : search tbl.word (pattern tbl.toCharTable label) s.1 = true) :
    (redactLabel tbl.toCharTable label (pattern tbl.toCharTable label) s).1 =
      replaced label.placeholder.toList
        (segments tbl.word (pattern tbl.toCharTable label) 0 none s.1) := by
  rw [redactLabel, if_pos h, sub_eq_replaced_segments]

theorem redactLabel_of_free (h : Free tbl.word (words tbl.toCharTable label) s.1) :
    redactLabel tbl.toCharTable label (pattern tbl.toCharTable label) s = s := by
  rw [redactLabel, search_eq_false_iff.mpr h]
  rfl

variable (label s) in
theorem redactLabel_free : Free tbl.word (words tbl.toCharTable label)
    (redactLabel tbl.toCharTable label (pattern tbl.toCharTable label) s).1 := by
  have hf := finds_pattern tbl.toCharTable label
  by_cases h : search tbl.word (pattern tbl.toCharTable label) s.1 = true
  · rw [redactLabel_of_found h]
    exact Cut.free hf (shields label label) (nil_notMem_words tbl label) (cut_segments hf s.1).1
  · have hfree := search_eq_false_iff.mp (Bool.eq_false_iff.mpr h)
    rwa [redactLabel_of_free hfree]

theorem redactLabel_keeps (other : PiiLabel) (h : Free tbl.word (words tbl.toCharTable other) s.1) :
    Free tbl.word (words tbl.toCharTable other)
      (redactLabel tbl.toCharTable label (pattern tbl.toCharTable label) s).1 := by
  have hf := finds_pattern tbl.toCharTable label
  obtain ⟨hcut, hflat⟩ := cut_segments hf s.1
  by_cases hfound : search tbl.word (pattern tbl.toCharTable label) s.1 = true
  · rw [redactLabel_of_found hfound]
    rw [← hflat] at h
    exact h.replaced (shields other label) (nil_notMem_words tbl other) (Finds.bounded hf hcut)
  · have hfree := search_eq_false_iff.mp (Bool.eq_false_iff.mpr hfound)
    rwa [redactLabel_of_free hfree]

def dated (tbl : UnicodeTable) (w : List Char) : Bool :=
  search tbl.word (dateLike tbl.toCharTable) w

def phoneMatches (tbl : UnicodeTable) (text : List Char) : List (List Char) :=
  finditer tbl.word (phonePattern tbl.toCharTable) text

theorem redactPhone_fst (s : List Char × List PiiLabel) : (redactPhone tbl.toCharTable s).1 =
    replaced PiiLabel.phone.placeholder.toList (cellsOf (dated tbl)
      (segments tbl.word (phonePattern tbl.toCharTable) 0 none s.1)) :=
  sub_eq_replaced s.1

theorem redactPhone_keeps (other : PiiLabel) (h : Free tbl.word (words tbl.toCharTable other) s.1) :
    Free tbl.word (words tbl.toCharTable other) (redactPhone tbl.toCharTable s).1 := by
  have hf := finds_pattern tbl.toCharTable .phone
  obtain ⟨hcut, hflat⟩ := cut_segments hf s.1
  have hcells : Free tbl.word (words tbl.toCharTable other) (flat (cellsOf (dated tbl)
      (segments tbl.word (phonePattern tbl.toCharTable) 0 none s.1))) := by
    rw [flat_cellsOf]
    rwa [← hflat] at h
  rw [redactPhone_fst]
  exact hcells.replaced (shields other .phone) (nil_notMem_words tbl other)
    (Finds.bounded hf hcut).cellsOf

/-- The phone-shaped matches of the result are the kept ones, some without their sign. -/
theorem segments_redactPhone (s : List Char × List PiiLabel) :
    segments tbl.word (phonePattern tbl.toCharTable) 0 none (redactPhone tbl.toCharTable s).1 =
      recut (dated tbl) PiiLabel.phone.placeholder.toList '+' false
        (segments tbl.word (phonePattern tbl.toCharTable) 0 none s.1) := by
  have hf := finds_pattern tbl.toCharTable .phone
  obtain ⟨hcut, -⟩ := cut_segments hf s.1
  have hbehind : Behind PiiLabel.phone.placeholder.toList false [] := by simp [Behind]
  have hbounded : Bounded tbl.word [] ([] ++ cellsOf (dated tbl)
      (segments tbl.word (phonePattern tbl.toCharTable) 0 none s.1)) :=
    (Finds.bounded hf hcut).cellsOf
  have hrecut := cut_recut hf descends_phone (shields .phone .phone) signed_phone
    (fun x hx => placeholder_not_phone hx) _ [] false hbounded hcut hbehind
  have hsegments := hrecut.segments_eq
  rw [flat_recut, ← redactPhone_fst] at hsegments
  exact hsegments

theorem dated_sign {w : List Char} : dated tbl ('+' :: w) = dated tbl w := search_dateLike_sign

theorem dated_of_mem_phoneMatches {w : List Char}
    (h : w ∈ phoneMatches tbl (redactPhone tbl.toCharTable s).1) : dated tbl w = true := by
  rw [phoneMatches, mem_finditer, segments_redactPhone] at h
  obtain ⟨v, -, hv, rfl | rfl⟩ := mem_recut _ _ h
  · exact hv
  · rwa [dated_sign] at hv

variable (tbl) in
theorem redactPhone_again (s : List Char × List PiiLabel) :
    redactPhone tbl.toCharTable ((redactPhone tbl.toCharTable s).1, []) =
      ((redactPhone tbl.toCharTable s).1, []) := by
  refine redactPhone_quiet (if_neg ?_)
  rw [List.any_eq_true]
  rintro ⟨w, hw, hno⟩
  have hdated : dated tbl w = true := dated_of_mem_phoneMatches hw
  rw [Bool.not_eq_true'] at hno
  rw [dated, hno] at hdated
  cases hdated

/-- The matches left are dates and times if those that hold a date were. -/
theorem phoneMatches_calendar (s : List Char × List PiiLabel) :
    (∀ w ∈ phoneMatches tbl (redactPhone tbl.toCharTable s).1, Calendar tbl.digit 0 w) ↔
      ∀ w ∈ phoneMatches tbl s.1, dated tbl w = true → Calendar tbl.digit 0 w := by
  simp only [phoneMatches, mem_finditer, segments_redactPhone]
  constructor
  · intro h w hw hdated
    have hmem : .inr w ∈ recut (dated tbl) PiiLabel.phone.placeholder.toList '+' false
        (segments tbl.word (phonePattern tbl.toCharTable) 0 none s.1) ∨ _ :=
      recut_mem hdated _ false hw
    rcases hmem with hw' | ⟨t, rfl, ht⟩
    · exact h w hw'
    · exact (calendar_other (plus_classes tbl).2).mpr (h t ht)
  · intro h w' hw'
    obtain ⟨w, hw, hdated, rfl | rfl⟩ := mem_recut _ _ hw'
    · exact h _ hw hdated
    · exact (calendar_other (plus_classes tbl).2).mp (h _ hw hdated)

end Substitutions

section Complete

variable (tbl : UnicodeTable)

def redactLabels (labels : List PiiLabel) (s : List Char × List PiiLabel) :
    List Char × List PiiLabel :=
  labels.foldl
    (fun s label => redactLabel tbl.toCharTable label (pattern tbl.toCharTable label) s) s

def beforePhone (text : String) : List Char × List PiiLabel :=
  redactLabels tbl [.email, .creditCard, .ssn, .ipAddress] (text.toList, [])

/-- No class is left but dates and times in what is phone-shaped, and a second redaction
finds nothing. -/
structure RedactionComplete (text : String) : Prop where
  clean : ∀ label, label ≠ .phone →
    search tbl.word (pattern tbl.toCharTable label) (redacted tbl.toCharTable text).toList = false
  phones : ∀ w ∈ phoneMatches tbl (redacted tbl.toCharTable text).toList, Calendar tbl.digit 0 w
  again : redactText tbl.toCharTable (redacted tbl.toCharTable text) =
    (redacted tbl.toCharTable text, [])

variable {tbl}

theorem redactText_eq (text : String) : redactText tbl.toCharTable text =
    (String.ofList (redactPhone tbl.toCharTable (beforePhone tbl text)).1,
      (redactPhone tbl.toCharTable (beforePhone tbl text)).2) := rfl

theorem redacted_toList (text : String) : (redacted tbl.toCharTable text).toList =
    (redactPhone tbl.toCharTable (beforePhone tbl text)).1 := String.toList_ofList

/-- A class is gone behind its own pattern and does not come back. -/
theorem redactLabels_free {label : PiiLabel} (labels : List PiiLabel) :
    ∀ s : List Char × List PiiLabel,
      label ∈ labels ∨ Free tbl.word (words tbl.toCharTable label) s.1 →
      Free tbl.word (words tbl.toCharTable label) (redactLabels tbl labels s).1 := by
  induction labels with
  | nil =>
    intro s h
    exact h.resolve_left List.not_mem_nil
  | cons other labels ih =>
    intro s h
    refine ih _ ?_
    rcases h with h | h
    · rcases List.mem_cons.mp h with rfl | h
      · exact .inr (redactLabel_free _ s)
      · exact .inl h
    · exact .inr (redactLabel_keeps _ h)

theorem redactLabels_of_free (labels : List PiiLabel) (s : List Char × List PiiLabel)
    (h : ∀ label ∈ labels, Free tbl.word (words tbl.toCharTable label) s.1) :
    redactLabels tbl labels s = s := by
  induction labels with
  | nil => rfl
  | cons label labels ih =>
    obtain ⟨hlabel, hlabels⟩ := List.forall_mem_cons.mp h
    rw [redactLabels, List.foldl_cons, redactLabel_of_free hlabel]
    exact ih hlabels

theorem redacted_free {label : PiiLabel} (h : label ≠ .phone) (text : String) :
    Free tbl.word (words tbl.toCharTable label) (redacted tbl.toCharTable text).toList := by
  rw [redacted_toList]
  refine redactPhone_keeps label (redactLabels_free _ _ (.inl ?_))
  cases label <;> simp_all

/-- The first four patterns find nothing in a redacted text. -/
theorem beforePhone_redacted (text : String) :
    beforePhone tbl (redacted tbl.toCharTable text) =
      ((redacted tbl.toCharTable text).toList, []) := by
  have hfree : ∀ label ∈ [PiiLabel.email, .creditCard, .ssn, .ipAddress],
      Free tbl.word (words tbl.toCharTable label) (redacted tbl.toCharTable text).toList := by
    intro label hlabel
    refine redacted_free ?_ text
    rintro rfl
    simp at hlabel
  generalize (redacted tbl.toCharTable text) = out at *
  exact redactLabels_of_free _ (out.toList, []) hfree

theorem redactText_redacted (text : String) :
    redactText tbl.toCharTable (redacted tbl.toCharTable text) =
      (redacted tbl.toCharTable text, []) := by
  have hagain := redactPhone_again tbl (beforePhone tbl text)
  rw [← redacted_toList] at hagain
  rw [redactText_eq, beforePhone_redacted, hagain, String.ofList_toList]

/-- A redaction is complete if and only if every phone-shaped match that holds a date is
nothing but dates and times. -/
theorem redaction_complete_iff (tbl : UnicodeTable) (text : String) :
    RedactionComplete tbl text ↔
      ∀ w ∈ phoneMatches tbl (beforePhone tbl text).1, dated tbl w = true →
        Calendar tbl.digit 0 w := by
  rw [← phoneMatches_calendar, ← redacted_toList]
  constructor
  · exact RedactionComplete.phones
  · intro h
    exact ⟨fun label hl => search_eq_false_iff.mpr (redacted_free hl text), h,
      redactText_redacted text⟩

end Complete

def asciiTable : UnicodeTable where
  word c := c.isAlphanum || c == '_'
  digit c := decide (48 ≤ c.toNat ∧ c.toNat ≤ 57)
  space c := decide (c.toNat ∈ [9, 10, 11, 12, 13, 28, 29, 30, 31, 32])
  word_ascii _ _ := rfl
  digit_ascii c _ := by rw [Bool.eq_iff_iff, decide_eq_true_iff, isDigit_iff]
  space_ascii _ _ := rfl
  word_of_digit c h := by
    rw [decide_eq_true_iff, ← isDigit_iff] at h
    rw [Char.isAlphanum, h, Bool.or_true, Bool.true_or]

theorem phone_behind_date_kept : redactText asciiTable.toCharTable "2026-04-01 (555) 123-4567" =
      ("2026-04-01 (555) 123-4567", []) ∧
    ¬RedactionComplete asciiTable "2026-04-01 (555) 123-4567" := by
  have hkept : redactText asciiTable.toCharTable "2026-04-01 (555) 123-4567" =
      ("2026-04-01 (555) 123-4567", []) := by decide +kernel
  refine ⟨hkept, fun h => ?_⟩
  have hmatch : "2026-04-01 (555) 123-4567".toList ∈
      phoneMatches asciiTable "2026-04-01 (555) 123-4567".toList := by decide +kernel
  have hphones := h.phones
  rw [redacted, hkept] at hphones
  have hcalendar : Calendar asciiTable.digit 0
      ['2', '0', '2', '6', '-', '0', '4', '-', '0', '1', ' ', '(', '5', '5', '5', ')', ' ',
        '1', '2', '3', '-', '4', '5', '6', '7'] := hphones _ hmatch
  -- behind the date only a number of three digits follows
  cases hcalendar with
  | other hx _ => exact absurd hx (by decide)
  | short _ _ hw _ => exact absurd hw (by decide)
  | time _ _ _ hw _ => exact absurd hw (by decide)
  | date _ _ _ later =>
    rw [calendar_other (by decide), calendar_other (by decide)] at later
    cases later with
    | other hx _ => exact absurd hx (by decide)
    | short _ _ hw _ => exact absurd hw (by decide)
    | time _ _ _ hw _ => exact absurd hw (by decide)
    | date hdigits _ _ _ => exact absurd (hdigits ')' (by simp)) (by decide)

end PiiRedaction
