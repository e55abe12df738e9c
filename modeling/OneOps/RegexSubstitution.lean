import OneOps.RegexLanguage

/-! Matches replaced by a placeholder in brackets. No match reaches over a bracket, and a
placeholder alone holds none, so whatever occurs in the result occurred in the text, at the
place that its cells had there. -/
namespace RegexSubstitution

open PythonRegex
open RegexLanguage

variable {word : Char → Bool} {r : Regex} {L : Language Char} {ph : List Char}

/-- The placeholder is in brackets that no word of `L` holds, and every word of `L` has
characters that do not stand between them. -/
structure Shields (word : Char → Bool) (L : Language Char) (ph : List Char) : Prop where
  bracketed : ∃ opening closing inner, ph = opening :: inner ++ [closing] ∧
    word opening = false ∧ word closing = false ∧
    ∀ m ∈ L, opening ∉ m ∧ closing ∉ m ∧ ∃ x ∈ m, x ∉ inner

def replaced (ph : List Char) (cells : List (Char ⊕ List Char)) : List Char :=
  cells.flatMap fun
    | .inl c => [c]
    | .inr _ => ph

@[simp] theorem replaced_nil : replaced ph [] = [] := rfl

@[simp] theorem replaced_inl (c : Char) (q : List (Char ⊕ List Char)) :
    replaced ph (.inl c :: q) = c :: replaced ph q := rfl

@[simp] theorem replaced_inr (w : List Char) (q : List (Char ⊕ List Char)) :
    replaced ph (.inr w :: q) = ph ++ replaced ph q := rfl

@[simp] theorem replaced_append (p q : List (Char ⊕ List Char)) :
    replaced ph (p ++ q) = replaced ph p ++ replaced ph q := List.flatMap_append

@[simp] theorem replaced_chars (m : List Char) : replaced ph (m.map .inl) = m := by
  induction m with
  | nil => rfl
  | cons x m ih => rw [List.map_cons, replaced_inl, ih]

theorem sub_eq_replaced_segments (text : List Char) :
    sub word r (fun _ => ph) text = replaced ph (segments word r 0 none text) := rfl

inductive Bounded (word : Char → Bool) : List Char → List (Char ⊕ List Char) → Prop where
  | nil {a} : Bounded word a []
  | char {a x q} (later : Bounded word (a ++ [x]) q) : Bounded word a (.inl x :: q)
  | hit {a w q} (starts : Edge word a (w ++ flat q)) (stops : Edge word (a ++ w) (flat q))
      (later : Bounded word (a ++ w) q) : Bounded word a (.inr w :: q)

theorem Bounded.drop {p q : List (Char ⊕ List Char)} : ∀ {a : List Char},
    Bounded word a (p ++ q) → Bounded word (a ++ flat p) q := by
  induction p with
  | nil =>
    intro a h
    simpa using h
  | cons s p ih =>
    intro a h
    cases h with
    | char later => simpa using ih later
    | hit _ _ later => simpa using ih later

theorem Bounded.chars {u a : List Char} {q : List (Char ⊕ List Char)}
    (h : Bounded word (a ++ u) q) : Bounded word a (u.map .inl ++ q) := by
  induction u generalizing a with
  | nil => simpa using h
  | cons x u ih => exact .char (ih (by simpa using h))

/-- Text without the opening bracket starts in cells that are kept. -/
theorem cells_of_prefix {opening : Char} {inner : List Char} (hph : ph = opening :: inner)
    {m b : List Char} (hm : opening ∉ m) {cells : List (Char ⊕ List Char)}
    (h : replaced ph cells = m ++ b) : ∃ q, cells = m.map .inl ++ q ∧ replaced ph q = b := by
  induction m generalizing cells with
  | nil => exact ⟨cells, rfl, h⟩
  | cons x m ih =>
    rw [List.mem_cons, not_or] at hm
    rcases cells with _ | ⟨c | w, cells⟩
    · cases h
    · obtain ⟨rfl, htail⟩ := List.cons.inj h
      obtain ⟨q, rfl, hq⟩ := ih hm.2 htail
      exact ⟨q, rfl, hq⟩
    · rw [replaced_inr, hph] at h
      exact absurd (List.cons.inj h).1 hm.1

theorem Shields.cells_of_prefix (hs : Shields word L ph) {m b : List Char} (hm : m ∈ L)
    {cells : List (Char ⊕ List Char)} (h : replaced ph cells = m ++ b) :
    ∃ q, cells = m.map .inl ++ q ∧ replaced ph q = b := by
  obtain ⟨opening, closing, inner, hph, -, -, hwords⟩ := hs.bracketed
  exact RegexSubstitution.cells_of_prefix hph (hwords m hm).1 h

theorem not_starts_within {closing : Char} {inner a u rest m b : List Char}
    (hph : inner ++ [closing] = a ++ u) (h : u ++ rest = m ++ b) (hclosing : closing ∉ m)
    (houtside : ∃ x ∈ m, x ∉ inner) : u = [] := by
  obtain ⟨x, hx, hinner⟩ := houtside
  rcases List.eq_nil_or_concat u with rfl | ⟨u, z, rfl⟩
  · rfl
  · rw [List.concat_eq_append] at hph h
    have hz : closing = z := by
      rw [← List.append_assoc] at hph
      exact List.singleton_inj.mp (List.append_inj' hph rfl).2
    rcases List.append_eq_append_iff.mp h with ⟨m', hm', -⟩ | ⟨u', hu', -⟩
    · refine absurd ?_ hclosing
      rw [hm', hz]
      simp
    · have hx : x ∈ inner ++ [closing] := by
        rw [hph, hu']
        simp [hx]
      rcases List.mem_append.mp hx with hin | hin
      · exact absurd hin hinner
      · rw [List.mem_singleton] at hin
        exact absurd (hin ▸ ‹x ∈ m›) hclosing

theorem Shields.cells_of_infix (hs : Shields word L ph) {m b : List Char} (hm : m ∈ L) :
    ∀ {cells : List (Char ⊕ List Char)} {a : List Char}, replaced ph cells = a ++ m ++ b →
      ∃ p q, cells = p ++ m.map .inl ++ q ∧ replaced ph p = a ∧ replaced ph q = b := by
  obtain ⟨opening, closing, inner, hph, -, -, hwords⟩ := hs.bracketed
  obtain ⟨ho, hc, x, hx, hinner⟩ := hwords m hm
  intro cells
  induction cells with
  | nil =>
    intro a h
    have hnil := (List.append_eq_nil_iff.mp (List.append_eq_nil_iff.mp h.symm).1).2
    rw [hnil] at hx
    cases hx
  | cons s cells ih =>
    intro a h
    cases a with
    | nil =>
      obtain ⟨q, hq, hb⟩ := hs.cells_of_prefix hm h
      exact ⟨[], q, hq, rfl, hb⟩
    | cons y a =>
      cases s with
      | inl c =>
        obtain ⟨rfl, htail⟩ := List.cons.inj h
        obtain ⟨p, q, rfl, hp, hb⟩ := ih htail
        exact ⟨.inl c :: p, q, rfl, by rw [replaced_inl, hp], hb⟩
      | inr w =>
        -- the word starts behind the placeholder
        obtain ⟨a', ha, htail⟩ : ∃ a', y :: a = ph ++ a' ∧ replaced ph cells = a' ++ m ++ b := by
          rw [replaced_inr, List.append_assoc] at h
          rcases List.append_eq_append_iff.mp h with ⟨a', ha, htail⟩ | ⟨u, hu, htail⟩
          · exact ⟨a', ha, by rw [htail, List.append_assoc]⟩
          · have hcons := hu
            rw [hph, List.cons_append, List.cons_append, List.cons.injEq] at hcons
            obtain rfl := not_starts_within hcons.2 htail.symm hc ⟨x, hx, hinner⟩
            exact ⟨[], by simpa using hu.symm, htail.symm⟩
        obtain ⟨p, q, rfl, hp, hb⟩ := ih htail
        exact ⟨.inr w :: p, q, rfl, by rw [replaced_inr, hp, ha], hb⟩

theorem Shields.brackets (hs : Shields word L ph) :
    (∀ a, (a ++ ph).getLast?.any word = false) ∧ ∀ b, (ph ++ b).head?.any word = false := by
  obtain ⟨opening, closing, inner, hph, ho, hc, -⟩ := hs.bracketed
  constructor
  · intro a
    rw [hph, ← List.append_assoc, List.getLast?_append]
    simp [hc]
  · intro b
    rw [hph]
    simp [ho]

section Transfer

variable {p q : List (Char ⊕ List Char)} {m : List Char}

theorem occurrence_flat (hb : Bounded word [] (p ++ m.map .inl ++ q)) (hne : m ≠ [])
    (ho : Occurrence word L (replaced ph p) m (replaced ph q)) :
    Occurrence word L (flat p) m (flat q) := by
  refine ⟨ho.mem, ?_, ?_⟩
  · obtain ⟨x, xs, rfl⟩ := List.exists_cons_of_ne_nil hne
    rcases List.eq_nil_or_concat p with rfl | ⟨p, c | w, rfl⟩
    · have hstart := ho.starts
      rw [edge_iff] at hstart ⊢
      exact hstart
    · have hstart := ho.starts
      rw [edge_iff] at hstart ⊢
      simpa using hstart
    · rw [List.concat_eq_append, List.append_assoc, List.append_assoc] at hb
      cases hb.drop with
      | hit _ stops _ => simpa using stops
  · obtain ⟨u, z, rfl⟩ := (List.eq_nil_or_concat m).resolve_left hne
    rw [List.concat_eq_append] at *
    rcases q with _ | ⟨c | w, q⟩
    · have hstop := ho.stops
      rw [edge_iff] at hstop ⊢
      simpa [← List.append_assoc] using hstop
    · have hstop := ho.stops
      rw [edge_iff] at hstop ⊢
      simpa [← List.append_assoc] using hstop
    · cases hb.drop with
      | hit starts _ _ => simpa using starts

theorem occurrence_text (hs : Shields word L ph) (hne : [] ∉ L) {cells : List (Char ⊕ List Char)}
    (hb : Bounded word [] (p ++ cells)) {b : List Char} (heq : replaced ph cells = m ++ b)
    (ho : Occurrence word L (replaced ph p) m b) :
    ∃ b', flat cells = m ++ b' ∧ Occurrence word L (flat p) m b' := by
  obtain ⟨q, rfl, rfl⟩ := hs.cells_of_prefix ho.mem heq
  have hm : m ≠ [] := fun hn => hne (hn ▸ ho.mem)
  rw [← List.append_assoc] at hb
  exact ⟨flat q, by rw [flat_append, flat_chars], occurrence_flat hb hm ho⟩

end Transfer

def Free (word : Char → Bool) (L : Language Char) (text : List Char) : Prop :=
  ∀ a m b, text = a ++ m ++ b → ¬Occurrence word L a m b

theorem Finds.search_eq_false (hf : Finds word r L) (hne : [] ∉ L) {text : List Char} :
    search word r text = false ↔ Free word L text := by
  rw [Bool.eq_false_iff, Ne, hf.search_iff hne]
  constructor
  · intro h a m b heq ho
    exact h ⟨a, m, b, heq, ho⟩
  · rintro h ⟨a, m, b, heq, ho⟩
    exact h a m b heq ho

/-- Replacing what stands between boundaries adds no occurrence. -/
theorem Free.replaced (hs : Shields word L ph) (hne : [] ∉ L) {cells : List (Char ⊕ List Char)}
    (hb : Bounded word [] cells) (h : Free word L (flat cells)) :
    Free word L (replaced ph cells) := by
  intro a m b heq ho
  obtain ⟨p, q, rfl, rfl, rfl⟩ := hs.cells_of_infix ho.mem heq
  have hm : m ≠ [] := fun hn => hne (hn ▸ ho.mem)
  exact h (flat p) m (flat q) (by simp) (occurrence_flat hb hm ho)

theorem Finds.bounded (hf : Finds word r L) {a : List Char} {cells : List (Char ⊕ List Char)}
    (h : Cut word r a cells) : Bounded word a cells := by
  induction h with
  | nil => exact .nil
  | char _ _ ih => exact .char ih
  | @hit a w q _ hsome _ ih =>
    obtain ⟨-, m, b, heq, hlen, ho⟩ := hf.matchLength_eq_some hsome
    obtain ⟨rfl, rfl⟩ := List.append_inj heq hlen.symm
    exact .hit ho.starts ho.stops ih

theorem Cut.drop {p q : List (Char ⊕ List Char)} : ∀ {a : List Char},
    Cut word r a (p ++ q) → Cut word r (a ++ flat p) q := by
  induction p with
  | nil =>
    intro a h
    simpa using h
  | cons s p ih =>
    intro a h
    cases h with
    | char _ later => simpa using ih later
    | hit _ _ later => simpa using ih later

theorem Cut.free (hf : Finds word r L) (hs : Shields word L ph) (hne : [] ∉ L)
    {cells : List (Char ⊕ List Char)} (h : Cut word r [] cells) :
    Free word L (replaced ph cells) := by
  intro a m b heq ho
  obtain ⟨p, q, rfl, rfl, rfl⟩ := hs.cells_of_infix ho.mem heq
  have hm : m ≠ [] := fun hn => hne (hn ▸ ho.mem)
  have hflat := occurrence_flat (Finds.bounded hf h) hm ho
  obtain ⟨x, xs, rfl⟩ := List.exists_cons_of_ne_nil hm
  rw [List.append_assoc] at h
  cases Cut.drop h with
  | char none _ =>
    refine (hf.matchLength_eq_none hne).mp none (x :: xs) (flat q) ?_ hflat
    simp

section Kept

variable (keep : List Char → Bool)

def cellsOf (cut : List (Char ⊕ List Char)) : List (Char ⊕ List Char) :=
  cut.flatMap fun
    | .inl c => [.inl c]
    | .inr w => if keep w then w.map .inl else [.inr w]

variable {keep}

@[simp] theorem cellsOf_nil : cellsOf keep [] = [] := rfl

@[simp] theorem cellsOf_inl (c : Char) (q : List (Char ⊕ List Char)) :
    cellsOf keep (.inl c :: q) = .inl c :: cellsOf keep q := rfl

theorem cellsOf_kept {w : List Char} (h : keep w = true) (q : List (Char ⊕ List Char)) :
    cellsOf keep (.inr w :: q) = w.map .inl ++ cellsOf keep q := by
  simp [cellsOf, h]

theorem cellsOf_cut {w : List Char} (h : ¬keep w = true) (q : List (Char ⊕ List Char)) :
    cellsOf keep (.inr w :: q) = .inr w :: cellsOf keep q := by
  simp [cellsOf, h]

@[simp] theorem flat_cellsOf (cut : List (Char ⊕ List Char)) :
    flat (cellsOf keep cut) = flat cut := by
  induction cut with
  | nil => rfl
  | cons s cut ih =>
    cases s with
    | inl c => rw [cellsOf_inl, flat_inl, flat_inl, ih]
    | inr w =>
      by_cases hw : keep w = true
      · rw [cellsOf_kept hw, flat_append, flat_chars, ih, flat_inr]
      · rw [cellsOf_cut hw, flat_inr, ih, flat_inr]

theorem Bounded.cellsOf {a : List Char} {cut : List (Char ⊕ List Char)} (h : Bounded word a cut) :
    Bounded word a (cellsOf keep cut) := by
  induction h with
  | nil => exact .nil
  | char _ ih => exact .char ih
  | @hit a w q starts stops _ ih =>
    by_cases hw : keep w = true
    · rw [cellsOf_kept hw]
      exact ih.chars
    · rw [cellsOf_cut hw]
      exact .hit (by rwa [flat_cellsOf]) (by rwa [flat_cellsOf]) ih

/-- `sub` with a function that keeps some matches. -/
theorem sub_eq_replaced (text : List Char) :
    sub word r (fun w => if keep w then w else ph) text =
      replaced ph (cellsOf keep (segments word r 0 none text)) := by
  unfold sub
  induction segments word r 0 none text with
  | nil => rfl
  | cons s cut ih =>
    cases s with
    | inl c => rw [List.flatMap_cons, ih, cellsOf_inl, replaced_inl, List.singleton_append]
    | inr w =>
      by_cases hw : keep w = true
      · rw [List.flatMap_cons, ih, cellsOf_kept hw, replaced_append, replaced_chars]
        dsimp only
        rw [if_pos hw]
      · rw [List.flatMap_cons, ih, cellsOf_cut hw, replaced_inr]
        dsimp only
        rw [if_neg hw]

end Kept

structure Signed (word : Char → Bool) (L : Language Char) (sign : Char) : Prop where
  nonword : word sign = false
  last : ∀ m ∈ L, m.getLast?.any word = true
  head : ∀ m ∈ L, m.head? = some sign ∨ m.head?.any word = true
  unsigned : ∀ t, sign :: t ∈ L → t ∈ L ∧ t.head?.any word = true
  signed : ∀ t ∈ L, t.head?.any word = true → sign :: t ∈ L

section Recut

variable (keep : List Char → Bool) (ph : List Char) (sign : Char)

/-- The cut of the result. Behind a placeholder a kept match loses its sign, which does not
stand at a boundary any more. -/
def recut : Bool → List (Char ⊕ List Char) → List (Char ⊕ List Char)
  | _, [] => []
  | _, .inl c :: q => .inl c :: recut false q
  | behind, .inr w :: q =>
    if keep w then
      if behind = true ∧ w.head? = some sign then .inl sign :: .inr w.tail :: recut false q
      else .inr w :: recut false q
    else ph.map .inl ++ recut true q

variable {keep ph sign}

theorem flat_recut (cut : List (Char ⊕ List Char)) : ∀ behind,
    flat (recut keep ph sign behind cut) = replaced ph (cellsOf keep cut) := by
  induction cut with
  | nil => exact fun _ => rfl
  | cons s cut ih =>
    intro behind
    cases s with
    | inl c => rw [recut, flat_inl, ih, cellsOf_inl, replaced_inl]
    | inr w =>
      by_cases hw : keep w = true
      · rw [cellsOf_kept hw, replaced_append, replaced_chars, recut, if_pos hw]
        by_cases hb : behind = true ∧ w.head? = some sign
        · obtain ⟨x, t, rfl⟩ := List.exists_cons_of_ne_nil
            (show w ≠ [] from fun hn => by simp [hn] at hb)
          have hx : x = sign := by simpa using hb.2
          rw [if_pos hb, flat_inl, flat_inr, ih, List.tail_cons, hx]
          rfl
        · rw [if_neg hb, flat_inr, ih]
      · rw [cellsOf_cut hw, replaced_inr, recut, if_neg hw, flat_append, flat_chars, ih]

/-- The matches of the result are kept ones, some without their sign. -/
theorem mem_recut {w' : List Char} (cut : List (Char ⊕ List Char)) : ∀ behind,
    .inr w' ∈ recut keep ph sign behind cut →
      ∃ w, .inr w ∈ cut ∧ keep w = true ∧ (w' = w ∨ w = sign :: w') := by
  induction cut with
  | nil =>
    intro behind h
    cases h
  | cons s cut ih =>
    intro behind h
    have hlater : ∀ b, .inr w' ∈ recut keep ph sign b cut →
        ∃ w, .inr w ∈ s :: cut ∧ keep w = true ∧ (w' = w ∨ w = sign :: w') := by
      intro b hb
      obtain ⟨w, hw, hrest⟩ := ih b hb
      exact ⟨w, List.mem_cons_of_mem _ hw, hrest⟩
    cases s with
    | inl c =>
      rw [recut] at h
      exact hlater false (by simpa using h)
    | inr w =>
      rw [recut] at h
      by_cases hw : keep w = true
      · rw [if_pos hw] at h
        by_cases hb : behind = true ∧ w.head? = some sign
        · rw [if_pos hb] at h
          simp only [List.mem_cons, reduceCtorEq, false_or, Sum.inr.injEq] at h
          rcases h with rfl | h
          · refine ⟨w, List.mem_cons_self, hw, .inr ?_⟩
            exact (List.cons_head?_tail (Option.mem_def.mpr hb.2)).symm
          · exact hlater false h
        · rw [if_neg hb] at h
          rcases List.mem_cons.mp h with heq | h
          · exact ⟨w, List.mem_cons_self, hw, .inl (Sum.inr.inj heq)⟩
          · exact hlater false h
      · rw [if_neg hw] at h
        exact hlater true (by simpa using h)

theorem recut_mem {w : List Char} (hw : keep w = true) (cut : List (Char ⊕ List Char)) :
    ∀ behind, .inr w ∈ cut → .inr w ∈ recut keep ph sign behind cut ∨
      ∃ t, w = sign :: t ∧ .inr t ∈ recut keep ph sign behind cut := by
  induction cut with
  | nil =>
    intro behind h
    cases h
  | cons s cut ih =>
    intro behind h
    cases s with
    | inl c =>
      rw [recut]
      simpa using ih false (by simpa using h)
    | inr v =>
      rw [recut]
      by_cases hv : keep v = true
      · rw [if_pos hv]
        by_cases hb : behind = true ∧ v.head? = some sign
        · rw [if_pos hb]
          rcases List.mem_cons.mp h with heq | h
          · have hcons : sign :: v.tail = v := List.cons_head?_tail (Option.mem_def.mpr hb.2)
            exact .inr ⟨v.tail, by rw [hcons, Sum.inr.inj heq], by simp⟩
          · rcases ih false h with h | ⟨t, ht, h⟩
            · exact .inl (by simp [h])
            · exact .inr ⟨t, ht, by simp [h]⟩
        · rw [if_neg hb]
          rcases List.mem_cons.mp h with heq | h
          · exact .inl (by simp [Sum.inr.inj heq])
          · rcases ih false h with h | ⟨t, ht, h⟩
            · exact .inl (by simp [h])
            · exact .inr ⟨t, ht, by simp [h]⟩
      · rw [if_neg hv]
        have hne : w ≠ v := by
          rintro rfl
          exact hv hw
        simpa using ih true (by simpa [hne] using h)

def Behind (ph : List Char) (behind : Bool) (pc : List (Char ⊕ List Char)) : Prop :=
  if behind = true then ∃ pc' w, pc = pc' ++ [.inr w]
  else (replaced ph pc).getLast? = (flat pc).getLast?

theorem behind_chars {pc : List (Char ⊕ List Char)} {m : List Char} (hm : m ≠ []) :
    Behind ph false (pc ++ m.map .inl) := by
  obtain ⟨u, z, rfl⟩ := (List.eq_nil_or_concat m).resolve_left hm
  simp [Behind, List.concat_eq_append, ← List.append_assoc]

/-- A place in the result before which the text ends without a word character. -/
theorem head_replaced (hs : Shields word L ph) {a : List Char} {cut : List (Char ⊕ List Char)}
    (hc : Cut word r a cut) (h : (flat cut).head?.any word = false) :
    (replaced ph (cellsOf keep cut)).head?.any word = false := by
  cases hc with
  | nil => rfl
  | char _ _ => simpa using h
  | @hit a w q hne _ _ =>
    by_cases hw : keep w = true
    · obtain ⟨x, xs, rfl⟩ := List.exists_cons_of_ne_nil hne
      rw [cellsOf_kept hw]
      simpa using h
    · rw [cellsOf_cut hw, replaced_inr]
      exact hs.brackets.2 _

section Kept

variable {pc q : List (Char ⊕ List Char)} {m : List Char}

theorem stops_replaced (hs : Shields word L ph) (hsg : Signed word L sign)
    (ho : Occurrence word L (flat pc) m (flat q)) {a : List Char} (hc : Cut word r a q)
    (b : List Char) : Edge word (b ++ m) (replaced ph (cellsOf keep q)) := by
  have hlast := hsg.last m ho.mem
  have hm : m ≠ [] := by
    rintro rfl
    cases hlast
  have hany : ∀ b : List Char, (b ++ m).getLast?.any word = true := by
    intro b
    rw [List.getLast?_append_of_ne_nil b hm]
    exact hlast
  have hstop := ho.stops
  rw [edge_iff, hany] at hstop ⊢
  rw [head_replaced hs hc (by simpa using hstop)]
  simp

/-- A kept match starts at a boundary of the result, unless it has lost its sign. -/
theorem starts_replaced (hs : Shields word L ph) (hsg : Signed word L sign)
    (ho : Occurrence word L (flat pc) m (flat q)) {behind : Bool} (hb : Behind ph behind pc)
    (hno : ¬(behind = true ∧ m.head? = some sign)) (b : List Char) :
    Edge word (replaced ph pc) (m ++ b) := by
  have hm : m ≠ [] := by
    rintro rfl
    cases hsg.last [] ho.mem
  obtain ⟨x, xs, rfl⟩ := List.exists_cons_of_ne_nil hm
  have hstart := ho.starts
  rw [edge_iff] at hstart ⊢
  cases behind with
  | false =>
    have hb : (replaced ph pc).getLast? = (flat pc).getLast? := by simpa [Behind] using hb
    rw [hb]
    simpa using hstart
  | true =>
    obtain ⟨pc', w, rfl⟩ : ∃ pc' w, pc = pc' ++ [.inr w] := by simpa [Behind] using hb
    have hx : word x = true := by
      rcases hsg.head _ ho.mem with h | h
      · exact absurd ⟨rfl, h⟩ hno
      · simpa using h
    have hph : (replaced ph (pc' ++ [.inr w])).getLast?.any word = false := by
      rw [replaced_append]
      simpa using hs.brackets.1 (replaced ph pc')
    rw [hph]
    simp [hx]

end Kept

theorem no_match_placeholder (hf : Finds word r L) (hne : [] ∉ L)
    (hph : ∀ x ∈ ph, ∀ m ∈ L, m.head? ≠ some x) {x : Char} (hx : x ∈ ph) (p rest : List Char) :
    matchLength word r ⟨p.getLast?, x :: rest⟩ = none := by
  rw [hf.matchLength_eq_none hne]
  intro m b heq ho
  cases m with
  | nil => exact hne ho.mem
  | cons y m =>
    have hxy := (List.cons.inj heq).1
    exact hph x hx _ ho.mem (by rw [hxy, List.head?_cons])

section Kept

variable {pc q : List (Char ⊕ List Char)} (hf : Finds word r L) (hd : Descends (ends word r))
  (hs : Shields word L ph) (hsg : Signed word L sign)

include hf hd hs hsg

/-- A kept match that has not lost its sign is what the pattern finds there. -/
theorem match_kept {w : List Char} {behind : Bool}
    (hb : Bounded word [] (pc ++ (w.map .inl ++ cellsOf keep q)))
    (ho : Occurrence word L (flat pc) w (flat q))
    (hsome : matchLength word r ⟨(flat pc).getLast?, w ++ flat q⟩ = some w.length)
    (hc : Cut word r (flat pc ++ w) q) (hbehind : Behind ph behind pc)
    (hno : ¬(behind = true ∧ w.head? = some sign)) :
    matchLength word r ⟨(replaced ph pc).getLast?, w ++ replaced ph (cellsOf keep q)⟩ =
      some w.length := by
  have hne : [] ∉ L := fun h => by cases hsg.last [] h
  have hlongest := (hf.matchLength_iff_longest hne hd ho).mp hsome
  have ho' : Occurrence word L (replaced ph pc) w (replaced ph (cellsOf keep q)) :=
    ⟨ho.mem, starts_replaced hs hsg ho hbehind hno _, stops_replaced hs hsg ho hc _⟩
  rw [hf.matchLength_iff_longest hne hd ho']
  intro m b heq hm
  obtain ⟨b', hflat, hocc⟩ := occurrence_text hs hne hb (by simpa using heq) hm
  exact hlongest m b' (by simpa using hflat) hocc

omit hf hd in
theorem no_match_sign (hf : Finds word r L) (hbehind : Behind ph true pc) (rest : List Char) :
    matchLength word r ⟨(replaced ph pc).getLast?, sign :: rest⟩ = none := by
  have hne : [] ∉ L := fun h => by cases hsg.last [] h
  rw [hf.matchLength_eq_none hne]
  intro m b heq ho
  obtain ⟨pc', w, rfl⟩ : ∃ pc' w, pc = pc' ++ [.inr w] := by simpa [Behind] using hbehind
  have hstart := ho.starts
  rw [edge_iff, ← heq, replaced_append] at hstart
  refine hstart ?_
  have hlast := hs.brackets.1 (replaced ph pc')
  simpa [hsg.nonword] using hlast

theorem match_unsigned {t : List Char}
    (hb : Bounded word [] (pc ++ ((sign :: t).map .inl ++ cellsOf keep q)))
    (ho : Occurrence word L (flat pc) (sign :: t) (flat q))
    (hsome : matchLength word r ⟨(flat pc).getLast?, sign :: t ++ flat q⟩ =
      some (sign :: t).length)
    (hc : Cut word r (flat pc ++ sign :: t) q) :
    matchLength word r ⟨(replaced ph pc ++ [sign]).getLast?, t ++ replaced ph (cellsOf keep q)⟩ =
      some t.length := by
  have hne : [] ∉ L := fun h => by cases hsg.last [] h
  obtain ⟨ht, hword⟩ := hsg.unsigned t ho.mem
  have htne : t ≠ [] := fun hn => hne (hn ▸ ht)
  have hlongest := (hf.matchLength_iff_longest hne hd ho).mp hsome
  have hstarts : Edge word (replaced ph pc ++ [sign]) (t ++ replaced ph (cellsOf keep q)) := by
    rw [edge_iff, List.head?_append_of_ne_nil t htne, hword]
    simp [hsg.nonword]
  have hstops : Edge word (replaced ph pc ++ [sign] ++ t) (replaced ph (cellsOf keep q)) := by
    rw [List.append_assoc]
    exact stops_replaced hs hsg ho hc _
  have ho' : Occurrence word L (replaced ph pc ++ [sign]) t (replaced ph (cellsOf keep q)) :=
    ⟨ht, hstarts, hstops⟩
  rw [hf.matchLength_iff_longest hne hd ho']
  intro m b heq hm
  have hb' : Bounded word [] ((pc ++ [.inl sign]) ++ (t.map .inl ++ cellsOf keep q)) := by
    simpa using hb
  obtain ⟨b', hflat, hocc⟩ := occurrence_text hs hne hb' (by simpa using heq) (by simpa using hm)
  have hflat : t ++ flat q = m ++ b' := by simpa using hflat
  have hmne : m ≠ [] := fun hn => hne (hn ▸ hm.mem)
  -- with the sign in front it is a match of the text
  have hhead : m.head?.any word = true := by
    have hheads := congrArg List.head? hflat
    rw [List.head?_append_of_ne_nil t htne, List.head?_append_of_ne_nil m hmne] at hheads
    rwa [← hheads]
  have hsigned : Occurrence word L (flat pc) (sign :: m) b' := by
    refine ⟨hsg.signed m hocc.mem hhead, ?_, by simpa using hocc.stops⟩
    have hstart := ho.starts
    rw [edge_iff] at hstart ⊢
    simpa using hstart
  have hle := hlongest (sign :: m) b' (by rw [List.cons_append, hflat, List.cons_append]) hsigned
  simpa using hle

end Kept

theorem cut_recut (hf : Finds word r L) (hd : Descends (ends word r)) (hs : Shields word L ph)
    (hsg : Signed word L sign) (hph : ∀ x ∈ ph, ∀ m ∈ L, m.head? ≠ some x)
    (q : List (Char ⊕ List Char)) : ∀ (pc : List (Char ⊕ List Char)) (behind : Bool),
      Bounded word [] (pc ++ cellsOf keep q) → Cut word r (flat pc) q → Behind ph behind pc →
      Cut word r (replaced ph pc) (recut keep ph sign behind q) := by
  have hne : [] ∉ L := fun h => by cases hsg.last [] h
  induction q with
  | nil =>
    intro pc behind _ _ _
    exact .nil
  | cons s q ih =>
    intro pc behind hb hc hbehind
    cases hc with
    | @char _ x _ hnone hlater =>
      refine .char ?_ ?_
      · rw [hf.matchLength_eq_none hne]
        intro m b heq ho
        rw [flat_recut] at heq
        obtain ⟨b', hflat, hocc⟩ := occurrence_text hs hne hb heq ho
        rw [flat_cellsOf] at hflat
        exact (hf.matchLength_eq_none hne).mp hnone m b' hflat hocc
      · have hrest : Bounded word [] ((pc ++ [.inl x]) ++ cellsOf keep q) := by simpa using hb
        have hnext := ih (pc ++ [.inl x]) false hrest (by simpa using hlater)
          (behind_chars (List.cons_ne_nil x []))
        rwa [replaced_append] at hnext
    | @hit _ w _ hnonempty hsome hlater =>
      by_cases hw : keep w = true
      · rw [cellsOf_kept hw] at hb
        obtain ⟨-, m, b, heq, hlen, hocc⟩ := hf.matchLength_eq_some hsome
        obtain ⟨rfl, rfl⟩ := List.append_inj heq hlen.symm
        have hrest : Bounded word [] ((pc ++ w.map .inl) ++ cellsOf keep q) := by
          rwa [List.append_assoc]
        have hnext := ih (pc ++ w.map .inl) false hrest (by simpa using hlater)
          (behind_chars hnonempty)
        rw [replaced_append, replaced_chars] at hnext
        rw [recut, if_pos hw]
        by_cases hsign : behind = true ∧ w.head? = some sign
        · obtain ⟨rfl, hhead⟩ := hsign
          obtain ⟨x, t, rfl⟩ := List.exists_cons_of_ne_nil hnonempty
          obtain rfl : x = sign := by simpa using hhead
          have ht := (hsg.unsigned t hocc.mem).1
          rw [if_pos ⟨rfl, hhead⟩, List.tail_cons]
          refine .char (no_match_sign hs hsg hf hbehind _) (.hit (fun hn => hne (hn ▸ ht)) ?_ ?_)
          · rw [flat_recut]
            exact match_unsigned hf hd hs hsg hb hocc hsome hlater
          · rwa [List.append_assoc]
        · rw [if_neg hsign]
          refine .hit hnonempty ?_ hnext
          rw [flat_recut]
          exact match_kept hf hd hs hsg hb hocc hsome hlater hbehind hsign
      · rw [recut, if_neg hw]
        rw [cellsOf_cut hw] at hb
        have hrest : Bounded word [] ((pc ++ [.inr w]) ++ cellsOf keep q) := by simpa using hb
        have hnext := ih (pc ++ [.inr w]) true hrest (by simpa using hlater) (by simp [Behind])
        rw [replaced_append, replaced_inr, replaced_nil, List.append_nil] at hnext
        exact Cut.chars (fun x hx p rest => no_match_placeholder hf hne hph hx p rest) hnext

end Recut

end RegexSubstitution
