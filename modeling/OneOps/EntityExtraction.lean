import OneOps.EntityIds
import OneOps.PythonRegex

/-! Entity references found in a message. Only the first of the four passes adds entities.
Its pattern takes in every digit that follows across spaces, tabs, hyphens and underscores,
so an id is found with its own digits only where it is spelled with no others behind it. -/
namespace EntityExtraction

open EntityIds PythonRegex PythonText

/-- The Unicode classes `\w` and `\d` and the punctuation characters. -/
structure CharClasses where
  word : Char → Bool
  digit : Char → Bool
  punctuation : Char → Bool
  digit_ascii : ∀ c : Char, c.toNat < 128 → digit c = c.isDigit
  punctuation_not_alnum : ∀ c : Char, punctuation c → ¬c.isAlphanum

def isSeparator (c : Char) : Bool := c ∈ [' ', '\t', '-', '_']

def isUpperText (cs : List Char) : Bool := cs.any Char.isAlpha && !cs.any Char.isLower

structure ExtractionResult where
  entities : List NormalizedEntity
  malformed : List NormalizationResult
  deriving DecidableEq, Repr

/-- The lists and sets that the passes of one `extract` share. -/
structure Extraction where
  entities : List NormalizedEntity
  seenOk : List String
  malformed : List NormalizationResult
  seenBad : List String

def recordBad (s : Extraction) (result : NormalizationResult) : Extraction :=
  let key := String.ofList (upper (strip result.raw).toList)
  if key ∈ s.seenBad then s
  else { s with seenBad := key :: s.seenBad, malformed := s.malformed ++ [result] }

section Extract

variable (cls : CharClasses) (n : EntityIdNormalizer)

def isTail (c : Char) : Bool := cls.digit c || isSeparator c

def candidate : Regex :=
  .seq (.rep 2 (some 5) (.chr Char.isAlpha))
    (.seq (.rep 0 none (.chr isSeparator))
      (.seq (.chr cls.digit) (.rep 0 none (.chr (isTail cls)))))

def alphaWord : Regex := .seq .boundary (.seq (.rep 2 (some 12) (.chr Char.isAlpha)) .boundary)

def bareDigits : Regex := .seq .boundary (.seq (.rep 2 (some 12) (.chr cls.digit)) .boundary)

def leadsDigits : Regex := .seq (.rep 0 none (.chr isSeparator)) (.chr cls.digit)

def mixedCase : Regex :=
  .seq .boundary
    (.seq (.rep 2 (some 5) (.chr Char.isUpper))
      (.seq (.rep 1 (some 10) (.chr Char.isAlphanum)) .boundary))

/-- A known prefix with a botched number is a near-miss; other noise is ignored. -/
def recordNearMiss (s : Extraction) (result : NormalizationResult) : Extraction :=
  if result.matchedPrefix = "" then s else recordBad s result

def digitToken (s : Extraction) (token : List Char) : Extraction :=
  let result := n.normalize (String.ofList token)
  match result.ok, result.entity with
  | true, some e =>
    if e.entityId ∈ s.seenOk then s
    else { s with seenOk := e.entityId :: s.seenOk, entities := s.entities ++ [e] }
  | _, _ => recordNearMiss s result

def pass1DigitTokens (text : List Char) (s : Extraction) : Extraction :=
  (finditer cls.word (candidate cls) text).foldl (digitToken n) s

def isDigitlessIdAttempt (word : List Char) : Bool :=
  let up := upper word
  if up = word ∧ String.ofList up ∈ n.prefixToService.map Prod.fst ∧ 3 ≤ up.length then true
  else if isUpperText word then
    n.prefixes.any fun p =>
      3 ≤ p.length && p.toList.isPrefixOf up && p.length < up.length
  else false

def recordRefused (s : Extraction) (token : List Char) : Extraction :=
  let result := n.normalize (String.ofList token)
  if result.ok then s else recordNearMiss s result

/-- `found` is a word with the text behind it; the head of a separated id is skipped. -/
def digitlessGarble (s : Extraction) (found : List Char × List Char) : Extraction :=
  if (matchLength cls.word (leadsDigits cls) ⟨found.1.getLast?, found.2⟩).isSome then s
  else if isDigitlessIdAttempt n found.1 then recordRefused n s found.1
  else s

def pass2DigitlessGarbles (text : List Char) (s : Extraction) : Extraction :=
  (finditerRest cls.word alphaWord text).foldl (digitlessGarble cls n) s

def mixedCaseGarble (s : Extraction) (token : List Char) : Extraction :=
  if token.any Char.isDigit then s
  else if isUpperText token then s
  else if (n.longestPrefix (upper token)).getD "" = "" then s
  else recordRefused n s token

def pass25MixedCase (text : List Char) (s : Extraction) : Extraction :=
  (finditer cls.word mixedCase text).foldl (mixedCaseGarble n) s

def bareNumber (s : Extraction) (body : List Char) : Extraction :=
  if body.length < 7 then s
  else if s.entities.any fun e => body.isSuffixOf e.entityId.toList then s
  else if s.malformed.any fun b => body.isSuffixOf b.raw.toList then s
  else
    let number := String.ofList body
    recordBad s (.bad number
      ("\"" ++ number ++ "\" looks like a record number but is missing its type prefix. " ++
        "Please share the full ID — e.g. \"INC" ++ number ++ "\" for an incident or \"REQ" ++
        number ++ "\" for a request.") "")

def pass3BareDigits (text : List Char) (s : Extraction) : Extraction :=
  (finditer cls.word (bareDigits cls) text).foldl bareNumber s

def extract (message : String) : ExtractionResult :=
  let text := message.toList
  let s := pass1DigitTokens cls n text ⟨[], [], [], []⟩
  let s := pass2DigitlessGarbles cls n text s
  let s := pass25MixedCase cls n text s
  let s := pass3BareDigits cls text s
  ⟨s.entities, s.malformed⟩

end Extract

theorem recordBad_entities (s : Extraction) (r : NormalizationResult) :
    (recordBad s r).entities = s.entities := by
  unfold recordBad
  dsimp only
  split_ifs <;> rfl

theorem recordNearMiss_entities (s : Extraction) (r : NormalizationResult) :
    (recordNearMiss s r).entities = s.entities := by
  unfold recordNearMiss
  split_ifs
  · rfl
  · exact recordBad_entities s r

theorem recordRefused_entities (n : EntityIdNormalizer) (s : Extraction) (token : List Char) :
    (recordRefused n s token).entities = s.entities := by
  unfold recordRefused
  dsimp only
  split_ifs
  · rfl
  · exact recordNearMiss_entities s _

theorem foldl_entities {α : Type*} {step : Extraction → α → Extraction}
    (h : ∀ s a, (step s a).entities = s.entities) (found : List α) (s : Extraction) :
    (found.foldl step s).entities = s.entities := by
  induction found generalizing s with
  | nil => rfl
  | cons a found ih => rw [List.foldl_cons, ih, h]

theorem extract_entities (cls : CharClasses) (n : EntityIdNormalizer) (message : String) :
    (extract cls n message).entities =
      (pass1DigitTokens cls n message.toList ⟨[], [], [], []⟩).entities := by
  have h3 : ∀ s body, (bareNumber s body).entities = s.entities := by
    intro s body
    unfold bareNumber
    dsimp only
    split_ifs <;> first | rfl | exact recordBad_entities s _
  have h25 : ∀ s token, (mixedCaseGarble n s token).entities = s.entities := by
    intro s token
    unfold mixedCaseGarble
    split_ifs <;> first | rfl | exact recordRefused_entities n s token
  have h2 : ∀ s found, (digitlessGarble cls n s found).entities = s.entities := by
    intro s found
    unfold digitlessGarble
    split_ifs <;> first | rfl | exact recordRefused_entities n s found.1
  unfold extract
  dsimp only
  rw [pass3BareDigits, foldl_entities h3, pass25MixedCase, foldl_entities h25,
    pass2DigitlessGarbles, foldl_entities h2]

section Candidates

variable {cls : CharClasses}

theorem digit_of_isAlpha {c : Char} (h : c.isAlpha) : cls.digit c = false := by
  rw [isAlpha_iff] at h
  rw [cls.digit_ascii c (by omega), Bool.eq_false_iff, ne_eq, isDigit_iff]
  omega

theorem digit_of_isDigit {c : Char} (h : c.isDigit) : cls.digit c := by
  rw [cls.digit_ascii c (by rw [isDigit_iff] at h; omega)]
  exact h

theorem isSeparator_cases {c : Char} (h : isSeparator c) :
    c.toNat = 32 ∨ c.toNat = 9 ∨ c.toNat = 45 ∨ c.toNat = 95 := by
  simp only [isSeparator, List.mem_cons, List.not_mem_nil, or_false, decide_eq_true_eq] at h
  rcases h with rfl | rfl | rfl | rfl <;> decide

theorem digit_of_isSeparator {c : Char} (h : isSeparator c) : cls.digit c = false := by
  have hc := isSeparator_cases h
  rw [cls.digit_ascii c (by omega), Bool.eq_false_iff, ne_eq, isDigit_iff]
  omega

theorem isAlpha_of_isSeparator {c : Char} (h : isSeparator c) : ¬c.isAlpha := by
  have hc := isSeparator_cases h
  rw [isAlpha_iff]
  omega

/-- Digits and separators are no letters. -/
theorem isAlpha_of_isTail {c : Char} (h : isTail cls c) : ¬c.isAlpha := by
  rcases Bool.or_eq_true_iff.mp h with hd | hs
  · intro ha
    rw [digit_of_isAlpha ha] at hd
    cases hd
  · exact isAlpha_of_isSeparator hs

variable (cls) in
/-- `_LEADS_DIGITS`: the first character that is no separator is a digit. -/
def Leads (cs : List Char) : Prop := (cs.dropWhile isSeparator).head?.any cls.digit

instance (cs : List Char) : Decidable (Leads cls cs) :=
  inferInstanceAs (Decidable ((cs.dropWhile isSeparator).head?.any cls.digit = true))

theorem not_head_dropWhile (p : Char → Bool) (cs : List Char) :
    ¬(cs.dropWhile p).head?.any p := by
  induction cs with
  | nil => simp
  | cons x xs ih =>
    by_cases hx : p x
    · rwa [List.dropWhile_cons_of_pos hx]
    · simp [List.dropWhile_cons_of_neg hx, hx]

theorem rest_of_tail (prev : Option Char) (ts : List Char) :
    (ends cls.word (.seq (.rep 0 none (.chr isSeparator))
      (.seq (.chr cls.digit) (.rep 0 none (.chr (isTail cls))))) ⟨prev, ts⟩).head?.map Cursor.rest =
      if Leads cls ts then some (ts.dropWhile (isTail cls)) else none := by
  have hsep : ∀ (prev : Option Char) (x : Char) (xs : List Char), isSeparator x →
      ends cls.word (.seq (.chr cls.digit) (.rep 0 none (.chr (isTail cls)))) ⟨prev, x :: xs⟩ =
        [] := by
    intro prev x xs hx
    rw [ends, ends_chr_nil (by simp [digit_of_isSeparator hx]), List.flatMap_nil]
  have htake : ∀ x ∈ ts.takeWhile isSeparator, isSeparator x := fun x => List.mem_takeWhile_imp
  have hdrop : ts.dropWhile (isTail cls) = (ts.dropWhile isSeparator).dropWhile (isTail cls) := by
    conv_lhs => rw [← List.takeWhile_append_dropWhile (p := isSeparator) (l := ts)]
    refine List.dropWhile_append_of_pos fun x hx => ?_
    rw [isTail, htake x hx, Bool.or_true]
  have hleads : Leads cls ts ↔ (ts.dropWhile isSeparator).head?.any cls.digit := Iff.rfl
  conv_lhs => rw [← List.takeWhile_append_dropWhile (p := isSeparator) (l := ts)]
  rw [ends_seq_rep_chr (by simp) hsep htake (not_head_dropWhile _ _), if_pos (by simp), hdrop]
  cases hus : ts.dropWhile isSeparator with
  | nil =>
    rw [hus] at hleads
    rw [if_neg (by simp [hleads])]
    rfl
  | cons d us =>
    rw [hus] at hleads
    by_cases hd : cls.digit d
    · have hrun : ∀ x ∈ us.takeWhile (isTail cls), isTail cls x := fun x => List.mem_takeWhile_imp
      rw [if_pos (hleads.mpr (by simpa using hd)), Cursor.after, ends, ends_chr_cons hd,
        List.flatMap_singleton, List.dropWhile_cons_of_pos (by simp [isTail, hd])]
      conv_lhs => rw [← List.takeWhile_append_dropWhile (p := isTail cls) (l := us)]
      rw [head?_ends_rep_chr hrun (not_head_dropWhile _ _)]
      rfl
    · rw [if_neg (by simpa [hleads] using hd), Cursor.after, ends, ends_chr_nil (by simpa using hd)]
      rfl

/-- A candidate is a whole run of at most five letters and all digits and separators behind it. -/
theorem matchLength_candidate (prev : Option Char) {ls ts : List Char} (hls : ∀ c ∈ ls, c.isAlpha)
    (hts : ¬ts.head?.any Char.isAlpha) :
    matchLength cls.word (candidate cls) ⟨prev, ls ++ ts⟩ =
      if 2 ≤ ls.length ∧ ls.length ≤ 5 ∧ Leads cls ts then
        some (ls.length + (ts.takeWhile (isTail cls)).length)
      else none := by
  have hletter : ∀ (prev : Option Char) (x : Char) (xs : List Char), x.isAlpha →
      ends cls.word (.seq (.rep 0 none (.chr isSeparator))
        (.seq (.chr cls.digit) (.rep 0 none (.chr (isTail cls))))) ⟨prev, x :: xs⟩ = [] := by
    intro prev x xs hx
    have hsep : isSeparator x = false := by
      rw [Bool.eq_false_iff]
      exact fun hs => isAlpha_of_isSeparator hs hx
    have h := @rest_of_tail cls prev (x :: xs)
    rw [if_neg (by simp [Leads, hsep, digit_of_isAlpha hx])] at h
    simpa using h
  rw [matchLength, candidate, ends_seq_rep_chr (by simp) hletter hls hts]
  by_cases hlen : 2 ≤ ls.length ∧ ls.length ≤ 5
  · rw [if_pos (by simpa using hlen), Cursor.after]
    have h := @rest_of_tail cls (ls.foldl (fun _ x => some x) prev) ts
    by_cases hleads : Leads cls ts
    · rw [if_pos hleads] at h
      obtain ⟨e, he, hrest⟩ := Option.map_eq_some_iff.mp h
      have hlength := congrArg List.length
        (List.takeWhile_append_dropWhile (p := isTail cls) (l := ts))
      rw [List.length_append] at hlength
      rw [if_pos ⟨hlen.1, hlen.2, hleads⟩, he, Option.map_some, hrest, List.length_append,
        Option.filter_some, if_pos (by simp; omega)]
      congr 1
      omega
    · rw [if_neg hleads] at h
      rw [if_neg (by simp [hleads]), Option.map_eq_none_iff.mp h]
      rfl
  · rw [if_neg (by simpa using hlen), if_neg (by tauto)]
    rfl

theorem candidate_looksAhead : LooksAhead cls.word (candidate cls) := by
  intro prev text
  have hls : ∀ c ∈ text.takeWhile Char.isAlpha, c.isAlpha := fun c => List.mem_takeWhile_imp
  have hts := not_head_dropWhile Char.isAlpha text
  rw [← List.takeWhile_append_dropWhile (p := Char.isAlpha) (l := text),
    matchLength_candidate prev hls hts, matchLength_candidate none hls hts]

theorem finditer_skip {run rest : List Char} (hrun : ∀ c ∈ run, ¬c.isAlpha) :
    finditer cls.word (candidate cls) (run ++ rest) =
      finditer cls.word (candidate cls) rest := by
  induction run with
  | nil => rfl
  | cons x run ih =>
    have hx : ¬((x :: (run ++ rest)).head?.any Char.isAlpha) := by
      simpa using hrun x (by simp)
    have hm := @matchLength_candidate cls none [] _ (by simp) hx
    rw [if_neg (by simp), List.nil_append] at hm
    rw [List.cons_append, finditer_cons_none candidate_looksAhead hm,
      ih fun c hc => hrun c (by simp [hc])]

theorem finditer_letters {ls ts : List Char} (hls : ∀ c ∈ ls, c.isAlpha)
    (hts : ¬ts.head?.any Char.isAlpha) :
    finditer cls.word (candidate cls) (ls ++ ts) =
      if 2 ≤ ls.length ∧ Leads cls ts then
        (ls.drop (ls.length - 5) ++ ts.takeWhile (isTail cls)) ::
          finditer cls.word (candidate cls) (ts.dropWhile (isTail cls))
      else finditer cls.word (candidate cls) ts := by
  induction ls with
  | nil => simp
  | cons x ls ih =>
    have hm := @matchLength_candidate cls none _ _ hls hts
    by_cases hc : 2 ≤ (x :: ls).length ∧ (x :: ls).length ≤ 5 ∧ Leads cls ts
    · rw [if_pos hc] at hm
      have hsplit : (x :: ls) ++ ts =
          ((x :: ls) ++ ts.takeWhile (isTail cls)) ++ ts.dropWhile (isTail cls) := by
        rw [List.append_assoc, List.takeWhile_append_dropWhile]
      rw [hsplit, ← List.length_append] at hm
      rw [hsplit, finditer_match candidate_looksAhead (by simp) hm, if_pos ⟨hc.1, hc.2.2⟩,
        Nat.sub_eq_zero_of_le hc.2.1, List.drop_zero]
    · rw [if_neg hc, List.cons_append] at hm
      rw [List.cons_append, finditer_cons_none candidate_looksAhead hm,
        ih fun c hcm => hls c (by simp [hcm])]
      rw [List.length_cons] at hc ⊢
      by_cases hlong : 2 ≤ ls.length ∧ Leads cls ts
      · have hfive : 5 ≤ ls.length := by
          by_contra hlt
          exact hc ⟨by omega, by omega, hlong.2⟩
        have hsub : ls.length + 1 - 5 = (ls.length - 5) + 1 := by omega
        rw [if_pos hlong, if_pos ⟨by omega, hlong.2⟩, hsub, List.drop_succ_cons]
      · rw [if_neg hlong, if_neg]
        rintro ⟨htwo, hl⟩
        by_cases h2 : 2 ≤ ls.length
        · exact hlong ⟨h2, hl⟩
        · exact hc ⟨htwo, by omega, hl⟩

/-- A run of letters, or its last five, and all digits and separators behind it. -/
structure RefAt (cls : CharClasses) (pre letters tail post : List Char) : Prop where
  alpha : ∀ c ∈ letters, c.isAlpha
  two : 2 ≤ letters.length
  five : letters.length ≤ 5
  whole : letters.length = 5 ∨ ¬pre.getLast?.any Char.isAlpha
  run : ∀ c ∈ tail, isTail cls c
  leads : Leads cls tail
  maximal : ¬post.head?.any (isTail cls)

def Spells (cls : CharClasses) (text letters tail : List Char) : Prop :=
  ∃ pre post, text = pre ++ (letters ++ (tail ++ post)) ∧ RefAt cls pre letters tail post

theorem spells_skip {run rest letters tail : List Char} (hrun : ∀ c ∈ run, ¬c.isAlpha) :
    Spells cls (run ++ rest) letters tail ↔ Spells cls rest letters tail := by
  induction run with
  | nil => rfl
  | cons x run ih =>
    rw [← ih fun c hc => hrun c (by simp [hc])]
    have hx := hrun x (by simp)
    constructor
    · rintro ⟨pre, post, htext, href⟩
      cases pre with
      | nil =>
        obtain ⟨c, cs, rfl⟩ :=
          List.exists_cons_of_length_pos (Nat.lt_of_lt_of_le Nat.two_pos href.two)
        rw [List.cons_append, List.nil_append, List.cons_append] at htext
        obtain ⟨rfl, _⟩ := List.cons.inj htext
        exact absurd (href.alpha x (by simp)) hx
      | cons y pre =>
        obtain ⟨rfl, hrest⟩ := List.cons.inj htext
        refine ⟨pre, post, hrest, { href with whole := href.whole.imp_right fun h => ?_ }⟩
        cases pre with
        | nil => simp
        | cons z pre => simpa [List.getLast?_cons_cons] using h
    · rintro ⟨pre, post, htext, href⟩
      refine ⟨x :: pre, post, by rw [List.cons_append, htext, List.cons_append],
        { href with whole := href.whole.imp_right fun h => ?_ }⟩
      cases pre with
      | nil => simpa using hx
      | cons z pre => simpa [List.getLast?_cons_cons] using h

/-- The letters at the front of a text are where the rest starts with none. -/
theorem letters_unique {a b c d : List Char} (ha : ∀ x ∈ a, x.isAlpha) (hc : ∀ x ∈ c, x.isAlpha)
    (hb : ¬b.head?.any Char.isAlpha) (hd : ¬d.head?.any Char.isAlpha) (h : a ++ b = c ++ d) :
    a = c ∧ b = d := by
  have front : ∀ {xs ys : List Char}, (∀ x ∈ xs, x.isAlpha) → ¬ys.head?.any Char.isAlpha →
      (xs ++ ys).takeWhile Char.isAlpha = xs := by
    intro xs ys hxs hys
    rw [List.takeWhile_append_of_pos hxs]
    cases ys with
    | nil => simp
    | cons y ys => simp [List.takeWhile_cons_of_neg (by simpa using hys)]
  have hac : a = c := by rw [← front ha hb, h, front hc hd]
  exact ⟨hac, List.append_cancel_left (hac ▸ h)⟩

theorem Leads.ne_nil {cs : List Char} (h : Leads cls cs) : cs ≠ [] := by
  rintro rfl
  simp [Leads] at h

theorem leads_append {cs more : List Char} (h : Leads cls cs) : Leads cls (cs ++ more) := by
  unfold Leads at h ⊢
  rw [List.dropWhile_append]
  cases hd : cs.dropWhile isSeparator with
  | nil => simp [hd] at h
  | cons x xs => simpa [hd] using h

theorem leads_takeWhile {cs : List Char} (h : Leads cls cs) :
    Leads cls (cs.takeWhile (isTail cls)) := by
  induction cs with
  | nil => exact h
  | cons x xs ih =>
    by_cases hs : isSeparator x
    · have htail : isTail cls x := by rw [isTail, hs, Bool.or_true]
      have hxs : Leads cls xs := by
        simpa only [Leads, List.dropWhile_cons_of_pos hs] using h
      rw [List.takeWhile_cons_of_pos htail]
      simpa only [Leads, List.dropWhile_cons_of_pos hs] using ih hxs
    · have hd : cls.digit x := by
        simpa [Leads, List.dropWhile_cons_of_neg hs] using h
      have htail : isTail cls x := by rw [isTail, hd, Bool.true_or]
      rw [List.takeWhile_cons_of_pos htail]
      simpa [Leads, List.dropWhile_cons_of_neg hs] using hd

theorem RefAt.tail_eq {pre letters tail post : List Char} (h : RefAt cls pre letters tail post) :
    (tail ++ post).takeWhile (isTail cls) = tail := by
  rw [List.takeWhile_append_of_pos h.run]
  cases post with
  | nil => simp
  | cons y ys => simp [List.takeWhile_cons_of_neg (by simpa using h.maximal)]

theorem RefAt.tail_head {pre letters tail post : List Char} (h : RefAt cls pre letters tail post) :
    ¬(tail ++ post).head?.any Char.isAlpha := by
  obtain ⟨x, xs, rfl⟩ := List.exists_cons_of_ne_nil h.leads.ne_nil
  simpa using isAlpha_of_isTail (h.run x (by simp))

theorem spells_letters {ls ts letters tail : List Char} (hls : ∀ c ∈ ls, c.isAlpha)
    (hts : ¬ts.head?.any Char.isAlpha) :
    Spells cls (ls ++ ts) letters tail ↔
      ((2 ≤ ls.length ∧ Leads cls ts) ∧ letters = ls.drop (ls.length - 5) ∧
        tail = ts.takeWhile (isTail cls)) ∨ Spells cls ts letters tail := by
  constructor
  · rintro ⟨pre, post, htext, href⟩
    rcases List.append_eq_append_iff.mp htext with ⟨mid, rfl, hts'⟩ | ⟨last, rfl, hrest⟩
    · right
      refine ⟨mid, post, hts', { href with whole := href.whole.imp_right fun h => ?_ }⟩
      cases hm : mid.getLast? with
      | none => simp
      | some z => simpa [List.getLast?_append, hm] using h
    · left
      have hlast : ∀ c ∈ last, c.isAlpha := fun c hc => hls c (by simp [hc])
      obtain ⟨rfl, rfl⟩ := letters_unique href.alpha hlast href.tail_head hts hrest
      refine ⟨⟨?_, leads_append href.leads⟩, ?_, href.tail_eq.symm⟩
      · have := href.two
        rw [List.length_append]
        omega
      · have hfive := href.five
        rcases href.whole with h | h
        · rw [List.length_append, h, Nat.add_sub_cancel, List.drop_left]
        · have hpre : pre = [] := by
            cases hm : pre.getLast? with
            | none => exact List.getLast?_eq_none_iff.mp hm
            | some z =>
              have hz := hls z (by simp [List.mem_of_getLast? hm])
              simp [hm, hz] at h
          rw [hpre, List.nil_append, Nat.sub_eq_zero_of_le hfive, List.drop_zero]
  · rintro (⟨⟨htwo, hleads⟩, rfl, rfl⟩ | ⟨pre, post, rfl, href⟩)
    · refine ⟨ls.take (ls.length - 5), ts.dropWhile (isTail cls), ?_, ?_⟩
      · rw [List.takeWhile_append_dropWhile, ← List.append_assoc, List.take_append_drop]
      · refine ⟨fun c hc => hls c (List.mem_of_mem_drop hc), ?_, ?_, ?_,
          fun c => List.mem_takeWhile_imp, leads_takeWhile hleads, not_head_dropWhile _ _⟩
        · rw [List.length_drop]
          omega
        · rw [List.length_drop]
          omega
        · rw [List.length_drop]
          by_cases h : 5 ≤ ls.length
          · left
            omega
          · right
            rw [Nat.sub_eq_zero_of_le (by omega)]
            simp
    · refine ⟨ls ++ pre, post, by rw [List.append_assoc],
        { href with whole := href.whole.imp_right fun h => ?_ }⟩
      cases pre with
      | nil =>
        obtain ⟨c, cs, rfl⟩ :=
          List.exists_cons_of_length_pos (Nat.lt_of_lt_of_le Nat.two_pos href.two)
        exact absurd (by simpa using href.alpha c (by simp)) hts
      | cons z pre => rwa [List.getLast?_append_of_ne_nil _ (List.cons_ne_nil z pre)]

theorem mem_finditer_iff {text w : List Char} :
    w ∈ finditer cls.word (candidate cls) text ↔
      ∃ letters tail, Spells cls text letters tail ∧ w = letters ++ tail := by
  -- A letter is read with its whole run, any other character alone.
  induction hlen : text.length using Nat.strong_induction_on generalizing text with
  | _ k ih =>
    cases text with
    | nil =>
      refine ⟨fun h => by simp [finditer_nil] at h, ?_⟩
      rintro ⟨letters, tail, ⟨pre, post, htext, href⟩, _⟩
      have htwo := href.two
      simp_all
    | cons x xs =>
      by_cases hx : x.isAlpha
      · have hls : ∀ c ∈ (x :: xs).takeWhile Char.isAlpha, c.isAlpha :=
          fun c => List.mem_takeWhile_imp
        have hts := not_head_dropWhile Char.isAlpha (x :: xs)
        have hrun : ∀ c ∈ ((x :: xs).dropWhile Char.isAlpha).takeWhile (isTail cls), ¬c.isAlpha :=
          fun c hc => isAlpha_of_isTail (List.mem_takeWhile_imp hc)
        have hshort : ((x :: xs).dropWhile Char.isAlpha).length < k := by
          have := (List.dropWhile_sublist Char.isAlpha (l := xs)).length_le
          rw [List.dropWhile_cons_of_pos hx, ← hlen, List.length_cons]
          omega
        have hrest := ih _ hshort rfl
        have hskip : finditer cls.word (candidate cls) ((x :: xs).dropWhile Char.isAlpha) =
            finditer cls.word (candidate cls)
              (((x :: xs).dropWhile Char.isAlpha).dropWhile (isTail cls)) := by
          conv_lhs => rw [← List.takeWhile_append_dropWhile (p := isTail cls)
            (l := (x :: xs).dropWhile Char.isAlpha)]
          exact finditer_skip hrun
        rw [← List.takeWhile_append_dropWhile (p := Char.isAlpha) (l := x :: xs),
          finditer_letters hls hts]
        simp only [spells_letters hls hts, or_and_right, exists_or, ← hrest, ← hskip]
        by_cases hc : 2 ≤ ((x :: xs).takeWhile Char.isAlpha).length ∧
            Leads cls ((x :: xs).dropWhile Char.isAlpha)
        · simp [hc]
        · simp [hc]
      · have hsingle : ∀ c ∈ [x], ¬c.isAlpha := by simpa using hx
        rw [← List.singleton_append, finditer_skip hsingle]
        simp only [spells_skip hsingle]
        exact ih xs.length (by simp [← hlen]) rfl

end Candidates

/-- A dict of prefixes of two to five ASCII letters. -/
structure LetterPrefixes where
  entries : List (String × String)
  nonempty : entries ≠ []
  letters : ∀ e ∈ entries, 2 ≤ e.1.toList.length ∧ e.1.toList.length ≤ 5 ∧
    ∀ c ∈ e.1.toList, c.isAlpha

def LetterPrefixes.Registers (m : LetterPrefixes) (p : List Char) : Prop :=
  ∃ e ∈ m.entries, upper e.1.toList = upper p

theorem init_eq_ok (m : LetterPrefixes) :
    ∃ n, EntityIdNormalizer.init m.entries = .ok n ∧
      ∀ p, p ∈ n.prefixes ↔ ∃ e ∈ m.entries, String.ofList (upper e.1.toList) = p := by
  have hmem : ∀ p, p ∈ sortedPrefixes (serviceTable m.entries) ↔
      ∃ e ∈ m.entries, String.ofList (upper e.1.toList) = p := by
    intro p
    rw [sortedPrefixes, List.mem_insertionSort, serviceTable, RowMerge.mem_keys_foldl_upsert,
      upperKeys, List.map_map, List.mem_map]
    simp
  have hne : sortedPrefixes (serviceTable m.entries) ≠ [] := by
    obtain ⟨e, rest, he⟩ := List.exists_cons_of_ne_nil m.nonempty
    exact List.ne_nil_of_mem ((hmem _).mpr ⟨e, by simp [he], rfl⟩)
  exact ⟨_, dif_neg hne, hmem⟩

section Ids

variable {cls : CharClasses} {m : LetterPrefixes} {n : EntityIdNormalizer}

theorem reference_candidate {letters tail : List Char} (hl : ∀ c ∈ letters, c.isAlpha)
    (ht : ∀ c ∈ tail, isTail cls c) :
    reference (String.ofList (letters ++ tail)) = upper letters ++ tail.filter Char.isDigit := by
  have hletters : letters.filter Char.isAlphanum = letters :=
    List.filter_eq_self.mpr fun c hc => by simp [Char.isAlphanum, hl c hc]
  have htail : tail.filter Char.isAlphanum = tail.filter Char.isDigit := by
    refine List.filter_congr fun c hc => ?_
    have ha : c.isAlpha = false := by simpa using isAlpha_of_isTail (ht c hc)
    rw [Char.isAlphanum, ha, Bool.false_or]
  have hdigits : upper (tail.filter Char.isDigit) = tail.filter Char.isDigit := by
    refine (List.map_congr_left fun c hc => ?_).trans (List.map_id _)
    exact toUpper_of_isDigit (List.mem_filter.mp hc).2
  rw [reference, String.toList_ofList, List.filter_append, hletters, htail, upper,
    List.map_append]
  exact congrArg _ hdigits

theorem isAlpha_upper {cs : List Char} (h : ∀ c ∈ cs, c.isAlpha) : ∀ c ∈ upper cs, c.isAlpha := by
  intro c hc
  obtain ⟨d, hd, rfl⟩ := List.mem_map.mp hc
  rw [isAlpha_toUpper]
  exact h d hd

theorem prefixes_alpha
    (hn : ∀ p, p ∈ n.prefixes ↔ ∃ e ∈ m.entries, String.ofList (upper e.1.toList) = p) :
    ∀ p ∈ n.prefixes, ∀ c ∈ p.toList, c.isAlpha := by
  intro p hp
  obtain ⟨e, he, rfl⟩ := (hn p).mp hp
  rw [String.toList_ofList]
  exact isAlpha_upper (m.letters e he).2.2

theorem not_head_isAlpha_of_digits {ds : List Char} (h : ∀ c ∈ ds, c.isDigit) :
    ¬ds.head?.any Char.isAlpha := by
  cases ds with
  | nil => simp
  | cons d ds =>
    have hd := h d (by simp)
    rw [isDigit_iff] at hd
    simp only [List.head?_cons, Option.any_some, isAlpha_iff]
    omega

variable (hup : ∀ p ∈ n.prefixes, ∀ c ∈ p.toList, c.isAlpha)

include hup

/-- Letters and digits are accepted where the letters are a prefix and there is a digit. -/
theorem normalize_ok_letters {t : String} {ls ds : List Char} (ht : reference t = ls ++ ds)
    (hls : ∀ c ∈ ls, c.isAlpha) (hds : ∀ c ∈ ds, c.isDigit) :
    (n.normalize t).ok ↔ String.ofList ls ∈ n.prefixes ∧ ds ≠ [] := by
  have hhead := not_head_isAlpha_of_digits hds
  rw [normalize_ok_iff, ht]
  constructor
  · rintro ⟨p, body, hp, hsplit, hne, hbody⟩
    have hmem := (longestPrefix_eq_some.mp hp).1
    obtain ⟨rfl, rfl⟩ :=
      letters_unique hls (hup p hmem) hhead (not_head_isAlpha_of_digits hbody) hsplit
    rw [String.ofList_toList]
    exact ⟨hmem, hne⟩
  · rintro ⟨hmem, hne⟩
    refine ⟨String.ofList ls, ds, longestPrefix_eq_some.mpr ⟨hmem, ?_, ?_⟩, ?_, hne, hds⟩
    · rw [String.toList_ofList]
      exact List.prefix_append ls ds
    · rintro q hq ⟨body, hsplit⟩
      rw [String.length_ofList, ← String.length_toList]
      rcases List.append_eq_append_iff.mp hsplit with ⟨more, rfl, _⟩ | ⟨more, hq', rfl⟩
      · simp
      · cases more with
        | nil => simp [hq']
        | cons c more =>
          have hc := hup q hq c (by simp [hq'])
          exact absurd (by simpa using hc) hhead
    · rw [String.toList_ofList]

theorem normalize_entity_letters {t : String} {ls ds : List Char} (ht : reference t = ls ++ ds)
    (hls : ∀ c ∈ ls, c.isAlpha) (hds : ∀ c ∈ ds, c.isDigit) {x : String} :
    (∃ e, (n.normalize t).entity = some e ∧ e.entityId = x) ↔
      String.ofList ls ∈ n.prefixes ∧ ds ≠ [] ∧ x = String.ofList (ls ++ ds) := by
  rw [← and_assoc, ← normalize_ok_letters hup ht hls hds]
  constructor
  · rintro ⟨e, he, rfl⟩
    have hok := normalize_ok_of_entity he
    obtain ⟨p, body, hp, hsplit, hne, hbody⟩ := normalize_ok_iff.mp hok
    rw [normalize_eq_good hp hsplit hne hbody] at he
    obtain rfl := Option.some.inj he
    exact ⟨hok, by rw [ht]⟩
  · rintro ⟨hok, rfl⟩
    obtain ⟨p, body, hp, hsplit, hne, hbody⟩ := normalize_ok_iff.mp hok
    rw [normalize_eq_good hp hsplit hne hbody, ← ht]
    exact ⟨_, rfl, rfl⟩

omit hup in
theorem recordNearMiss_seenOk (s : Extraction) (r : NormalizationResult) :
    (recordNearMiss s r).seenOk = s.seenOk := by
  simp only [recordNearMiss, recordBad]
  split_ifs <;> rfl

def SeenIds (s : Extraction) : Prop :=
  ∀ y, y ∈ s.seenOk ↔ y ∈ s.entities.map NormalizedEntity.entityId

omit hup in
theorem digitToken_ids (s : Extraction) (hs : SeenIds s) (token : List Char) :
    SeenIds (digitToken n s token) ∧
      ∀ x, x ∈ (digitToken n s token).entities.map NormalizedEntity.entityId ↔
        x ∈ s.entities.map NormalizedEntity.entityId ∨
          ∃ e, (n.normalize (String.ofList token)).entity = some e ∧ e.entityId = x := by
  cases he : (n.normalize (String.ofList token)).entity with
  | none =>
    have hstep : digitToken n s token = recordNearMiss s (n.normalize (String.ofList token)) := by
      simp only [digitToken, he]
      cases (n.normalize (String.ofList token)).ok <;> rfl
    rw [hstep, SeenIds, recordNearMiss_seenOk, recordNearMiss_entities]
    exact ⟨hs, by simp⟩
  | some e =>
    by_cases hseen : e.entityId ∈ s.seenOk
    · have hstep : digitToken n s token = s := by
        simp only [digitToken, normalize_ok_of_entity he, he, if_pos hseen]
      rw [hstep]
      refine ⟨hs, fun x => ⟨.inl, ?_⟩⟩
      rintro (hx | ⟨e', he', rfl⟩)
      · exact hx
      · obtain rfl := Option.some.inj he'
        exact (hs _).mp hseen
    · have hstep : digitToken n s token =
          { s with seenOk := e.entityId :: s.seenOk, entities := s.entities ++ [e] } := by
        simp only [digitToken, normalize_ok_of_entity he, he, if_neg hseen]
      rw [hstep]
      constructor
      · intro y
        rw [List.mem_cons, hs y, List.map_append, List.mem_append, or_comm]
        simp
      · intro x
        rw [List.map_append, List.mem_append]
        simp [eq_comm]

omit hup in
theorem mem_foldl_digitToken {x : String} (tokens : List (List Char)) (s : Extraction)
    (hs : SeenIds s) :
    x ∈ (tokens.foldl (digitToken n) s).entities.map NormalizedEntity.entityId ↔
      x ∈ s.entities.map NormalizedEntity.entityId ∨ ∃ token ∈ tokens,
        ∃ e, (n.normalize (String.ofList token)).entity = some e ∧ e.entityId = x := by
  induction tokens generalizing s with
  | nil => simp
  | cons token tokens ih =>
    obtain ⟨hseen, hids⟩ := digitToken_ids s hs token
    rw [List.foldl_cons, ih _ hseen, hids, or_assoc]
    simp only [List.mem_cons, exists_eq_or_imp]

/-- The ids that `extract` finds are the ones spelled in the message. -/
theorem mem_extract_iff {message x : String} :
    x ∈ (extract cls n message).entities.map NormalizedEntity.entityId ↔
      ∃ letters tail, Spells cls message.toList letters tail ∧
        String.ofList (upper letters) ∈ n.prefixes ∧ tail.filter Char.isDigit ≠ [] ∧
        x = String.ofList (upper letters ++ tail.filter Char.isDigit) := by
  have hspelled : ∀ letters tail, Spells cls message.toList letters tail →
      ((∃ e, (n.normalize (String.ofList (letters ++ tail))).entity = some e ∧ e.entityId = x) ↔
        String.ofList (upper letters) ∈ n.prefixes ∧ tail.filter Char.isDigit ≠ [] ∧
          x = String.ofList (upper letters ++ tail.filter Char.isDigit)) := by
    rintro letters tail ⟨pre, post, _, href⟩
    exact normalize_entity_letters hup (reference_candidate href.alpha href.run)
      (isAlpha_upper href.alpha) fun c hc => (List.mem_filter.mp hc).2
  rw [extract_entities, pass1DigitTokens, mem_foldl_digitToken _ _ (by simp [SeenIds])]
  constructor
  · rintro (h | ⟨token, htoken, hfound⟩)
    · simp at h
    · obtain ⟨letters, tail, hspells, rfl⟩ := mem_finditer_iff.mp htoken
      exact ⟨letters, tail, hspells, (hspelled letters tail hspells).mp hfound⟩
  · rintro ⟨letters, tail, hspells, hx⟩
    exact .inr ⟨letters ++ tail, mem_finditer_iff.mpr ⟨letters, tail, hspells, rfl⟩,
      (hspelled letters tail hspells).mpr hx⟩

end Ids

def Delimiter (cls : CharClasses) (c : Char) : Prop := isSpace c ∨ cls.punctuation c

/-- The message holds a canonical id: a registered prefix in any case and exactly seven digits,
delimited on both sides. -/
structure HoldsId (cls : CharClasses) (m : LetterPrefixes) (message : String)
    (pre p ds post : List Char) : Prop where
  place : message.toList = pre ++ (p ++ (ds ++ post))
  registered : m.Registers p
  seven : ds.length = 7
  digits : ∀ c ∈ ds, c.isDigit
  before : ∀ c ∈ pre.getLast?, Delimiter cls c
  behind : ∀ c ∈ post.head?, Delimiter cls c

theorem Delimiter.not_alnum {cls : CharClasses} {c : Char} (h : Delimiter cls c) :
    ¬c.isAlphanum := by
  rcases h with hs | hp
  · rw [Char.isAlphanum, Bool.or_eq_true, isAlpha_iff, isDigit_iff]
    simp only [isSpace, List.mem_cons, List.not_mem_nil, or_false, decide_eq_true_eq] at hs
    omega
  · exact cls.punctuation_not_alnum c hp

theorem LetterPrefixes.Registers.alpha {m : LetterPrefixes} {p : List Char} (h : m.Registers p) :
    2 ≤ p.length ∧ p.length ≤ 5 ∧ ∀ c ∈ p, c.isAlpha := by
  obtain ⟨e, he, hp⟩ := h
  obtain ⟨htwo, hfive, halpha⟩ := m.letters e he
  have hlen : e.1.toList.length = p.length := by simpa [upper] using congrArg List.length hp
  refine ⟨by omega, by omega, fun c hc => ?_⟩
  have hup : c.toUpper ∈ upper e.1.toList := hp ▸ List.mem_map_of_mem hc
  obtain ⟨d, hd, hdc⟩ := List.mem_map.mp hup
  rw [← isAlpha_toUpper, ← hdc, isAlpha_toUpper]
  exact halpha d hd

/-- An id is spelled where it stands, with all digits and separators behind it. -/
theorem HoldsId.spells {cls : CharClasses} {m : LetterPrefixes} {message : String}
    {pre p ds post : List Char} (h : HoldsId cls m message pre p ds post) :
    Spells cls message.toList p (ds ++ post.takeWhile (isTail cls)) := by
  obtain ⟨htwo, hfive, halpha⟩ := h.registered.alpha
  refine ⟨pre, post.dropWhile (isTail cls), ?_, ?_⟩
  · rw [h.place, List.append_assoc ds, List.takeWhile_append_dropWhile]
  · refine ⟨halpha, htwo, hfive, .inr ?_, ?_, ?_, not_head_dropWhile _ _⟩
    · cases hlast : pre.getLast? with
      | none => simp
      | some c =>
        have hc := (h.before c hlast).not_alnum
        simp_all [Char.isAlphanum]
    · intro c hc
      rcases List.mem_append.mp hc with hd | ht
      · rw [isTail, digit_of_isDigit (h.digits c hd), Bool.true_or]
      · exact List.mem_takeWhile_imp ht
    · obtain ⟨d, rest, hds⟩ :=
        List.exists_cons_of_length_pos (show 0 < ds.length by rw [h.seven]; omega)
      have hd := h.digits d (by simp [hds])
      have hsep : isSeparator d = false := by
        rw [Bool.eq_false_iff]
        intro hs
        have hdigit := @digit_of_isSeparator cls d hs
        rw [digit_of_isDigit hd] at hdigit
        cases hdigit
      simp [Leads, hds, hsep, digit_of_isDigit hd]

/-- Every canonical id of a message is found exactly where the message spells each one with no
other digit behind it, across spaces, tabs, hyphens and underscores. -/
theorem extract_complete_iff (cls : CharClasses) (m : LetterPrefixes) :
    ∃ n, EntityIdNormalizer.init m.entries = .ok n ∧ ∀ message,
      (∀ pre p ds post, HoldsId cls m message pre p ds post →
        ∃ e ∈ (extract cls n message).entities, e.entityId = String.ofList (upper p ++ ds)) ↔
      ∀ pre p ds post, HoldsId cls m message pre p ds post →
        (∀ c ∈ post.takeWhile (isTail cls), ¬c.isDigit) ∨
          ∃ letters tail, Spells cls message.toList letters tail ∧ upper letters = upper p ∧
            tail.filter Char.isDigit = ds := by
  obtain ⟨n, hinit, hn⟩ := init_eq_ok m
  have hup := prefixes_alpha hn
  refine ⟨n, hinit, fun message => ?_⟩
  have hfound : ∀ pre p ds post, HoldsId cls m message pre p ds post →
      ((∃ e ∈ (extract cls n message).entities, e.entityId = String.ofList (upper p ++ ds)) ↔
        ∃ letters tail, Spells cls message.toList letters tail ∧ upper letters = upper p ∧
          tail.filter Char.isDigit = ds) := by
    intro pre p ds post h
    rw [← List.mem_map, mem_extract_iff hup]
    refine exists_congr fun letters => exists_congr fun tail => and_congr_right fun hspells => ?_
    constructor
    · rintro ⟨_, _, hid⟩
      obtain ⟨_, _, _, href⟩ := hspells
      have hsame := letters_unique (isAlpha_upper h.registered.alpha.2.2) (isAlpha_upper href.alpha)
        (not_head_isAlpha_of_digits h.digits)
        (not_head_isAlpha_of_digits fun c hc => (List.mem_filter.mp hc).2)
          (String.ofList_inj.mp hid)
      exact ⟨hsame.1.symm, hsame.2.symm⟩
    · rintro ⟨hletters, hdigits⟩
      obtain ⟨e, he, hep⟩ := h.registered
      have hne : ds ≠ [] := List.ne_nil_of_length_pos (by rw [h.seven]; omega)
      rw [hletters, hdigits]
      exact ⟨(hn _).mpr ⟨e, he, by rw [hep]⟩, hne, rfl⟩
  constructor
  · intro h pre p ds post hid
    exact .inr ((hfound pre p ds post hid).mp (h pre p ds post hid))
  · intro h pre p ds post hid
    refine (hfound pre p ds post hid).mpr ?_
    rcases h pre p ds post hid with hclear | hspelled
    · refine ⟨p, _, hid.spells, rfl, ?_⟩
      rw [List.filter_append, List.filter_eq_self.mpr hid.digits,
        List.filter_eq_nil_iff.mpr hclear, List.append_nil]
    · exact hspelled

def asciiClasses : CharClasses where
  word c := c.isAlphanum || c = '_'
  digit c := 48 ≤ c.toNat && c.toNat ≤ 57
  punctuation c := c ∈ ['.', ',', ';', ':', '!', '?', '(', ')', '#', '-', '_']
  digit_ascii c _ := by
    rw [Bool.eq_iff_iff, isDigit_iff]
    simp
  punctuation_not_alnum := by
    intro c hc
    simp only [List.mem_cons, List.not_mem_nil, or_false, decide_eq_true_eq] at hc
    rcases hc with rfl | rfl | rfl | rfl | rfl | rfl | rfl | rfl | rfl | rfl | rfl <;> decide

def incidentPrefix : LetterPrefixes where
  entries := [("INC", "incident")]
  nonempty := List.cons_ne_nil _ _
  letters := by
    intro e he
    obtain rfl := List.mem_singleton.mp he
    exact ⟨by decide, by decide, List.all_eq_true.mp rfl⟩

def countedTwice : String := "INC0001234 2 times"

/-- The number of times is taken for digits of the id. -/
theorem following_number_taken_in :
    HoldsId asciiClasses incidentPrefix countedTwice [] ['I', 'N', 'C']
      ['0', '0', '0', '1', '2', '3', '4'] [' ', '2', ' ', 't', 'i', 'm', 'e', 's'] ∧
    ∃ n, EntityIdNormalizer.init incidentPrefix.entries = .ok n ∧
      (extract asciiClasses n countedTwice).entities.map NormalizedEntity.entityId =
        ["INC00012342"] ∧
      ¬∃ e ∈ (extract asciiClasses n countedTwice).entities,
        e.entityId =
          String.ofList (upper ['I', 'N', 'C'] ++ ['0', '0', '0', '1', '2', '3', '4']) := by
  have hholds : HoldsId asciiClasses incidentPrefix countedTwice [] ['I', 'N', 'C']
      ['0', '0', '0', '1', '2', '3', '4'] [' ', '2', ' ', 't', 'i', 'm', 'e', 's'] := by
    refine ⟨rfl, ⟨_, List.mem_singleton.mpr rfl, rfl⟩,
      rfl, List.all_eq_true.mp rfl, by simp, ?_⟩
    intro c hc
    obtain rfl := Option.some.inj hc
    exact .inl (by decide)
  obtain ⟨n, hinit, hn⟩ := init_eq_ok incidentPrefix
  have htokens : finditer asciiClasses.word (candidate asciiClasses) countedTwice.toList =
      [['I', 'N', 'C'] ++ ['0', '0', '0', '1', '2', '3', '4', ' ', '2', ' ']] := by
    decide
  have hreference := @reference_candidate asciiClasses ['I', 'N', 'C']
    ['0', '0', '0', '1', '2', '3', '4', ' ', '2', ' '] (List.all_eq_true.mp rfl)
    (List.all_eq_true.mp rfl)
  have hentity := @normalize_entity_letters n (prefixes_alpha hn) _ _ _ hreference
    (List.all_eq_true.mp rfl) (List.all_eq_true.mp rfl) "INC00012342"
  obtain ⟨e, he, hid⟩ := hentity.mpr ⟨(hn _).mpr ⟨_, List.mem_singleton.mpr rfl, rfl⟩,
    by decide, rfl⟩
  have hfound : (extract asciiClasses n countedTwice).entities = [e] := by
    rw [extract_entities, pass1DigitTokens, htokens]
    simp only [List.foldl_cons, List.foldl_nil, digitToken, he, normalize_ok_of_entity he]
    rfl
  refine ⟨hholds, n, hinit, by rw [hfound]; simp [hid], ?_⟩
  rw [hfound]
  rintro ⟨e', he', hid'⟩
  obtain rfl := List.mem_singleton.mp he'
  rw [hid, ← String.toList_inj, String.toList_ofList] at hid'
  revert hid'
  decide

end EntityExtraction
