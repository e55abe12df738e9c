import OneOps.KbChunker
import OneOps.RefreshQueue

/-! The vectors of the knowledge base. A trigger on `itsm.kb_knowledge` rings when the digest
of an article changes; the worker embeds the anchor and the body chunks, upserts them one by
one and prunes what a longer version of the article left behind. -/
namespace KbVectors

open KbChunker
open RefreshQueue

structure Article where
  title : List Char
  summary : Option (List Char)
  content : Option (List Char)
  category : Option (List Char)
  tags : List (List Char)
  deriving DecidableEq

def part (name : List Char) (field : List Char) : List (List Char) :=
  if field = [] then [] else [name ++ ": ".toList ++ field]

def tagText (tags : List (List Char)) : List Char :=
  List.intercalate ", ".toList (tags.filter fun t => t ≠ [])

def buildAnchorText (a : Article) : List Char :=
  List.intercalate ['\n'] (part "Title".toList a.title ++
    part "Summary".toList (a.summary.getD []) ++
    part "Category".toList (a.category.getD []) ++ part "Tags".toList (tagText a.tags))

def bodyChunks (content : List Char) : List (List Char) :=
  ((splitBody content (content.length + 1)).getD []).map Chunk.text

def buildKbChunks (a : Article) : List Char × List (List Char) :=
  (buildAnchorText a, bodyChunks (a.content.getD []))

/-- The text of which `content_hash_kb` is the digest. The tags are not in it. -/
def doorbell (a : Article) : List Char :=
  "Title: ".toList ++ a.title ++ "\nSummary: ".toList ++ a.summary.getD [] ++
    "\nCategory: ".toList ++ a.category.getD [] ++ "\nContent: ".toList ++ a.content.getD []

/-- The row of a chunk: `kb_anchor` with index 0, or `kb_body`. -/
inductive Slot where
  | anchor
  | body (index : ℕ)
  deriving DecidableEq, Repr

variable {η ν : Type*} [DecidableEq η]

structure VectorRow (η ν : Type*) where
  text : List Char
  hash : η
  embedding : ν

abbrev Rows (η ν : Type*) := Slot → Option (VectorRow η ν)

/-- `upsert_embedding`: a row is written unless it is there with the same hash. -/
def upsertEmbedding (slot : Slot) (row : VectorRow η ν) (rows : Rows η ν) : Rows η ν :=
  match rows slot with
  | none => Function.update rows slot (some row)
  | some old => if old.hash = row.hash then rows else Function.update rows slot (some row)

def prune (count : ℕ) (rows : Rows η ν) : Rows η ν
  | .anchor => rows .anchor
  | .body i => if count ≤ i then none else rows (.body i)

abbrev Embedder (Embeds : List Char → ν → Prop) :=
  { embed : Slot → List Char → ν // ∀ slot text, Embeds text (embed slot text) }

section

variable (sha256 : List Char → η) {Embeds : List Char → ν → Prop}

def chunkRow (embed : Embedder Embeds) (slot : Slot) (text : List Char) : VectorRow η ν :=
  ⟨text, sha256 text, embed.1 slot text⟩

def process (embed : Embedder Embeds) (a : Article) : List (Rows η ν → Rows η ν) :=
  let chunks := buildKbChunks a
  (if strip chunks.1 = [] then []
    else [upsertEmbedding .anchor (chunkRow sha256 embed .anchor chunks.1)]) ++
  (chunks.2.zipIdx.map fun p =>
    upsertEmbedding (.body p.2) (chunkRow sha256 embed (.body p.2) p.1)) ++
  [prune chunks.2.length]

def OneLine (a : Article) : Prop :=
  '\n' ∉ a.title ∧ '\n' ∉ a.summary.getD [] ∧ '\n' ∉ a.category.getD []

/-- Articles with a title; without one, an anchor of an older version may be left behind. -/
abbrev Titled := { a : Article // a.title ≠ [] ∧ OneLine a }

def pipeline (Embeds : List Char → ν → Prop) :
    Pipeline Titled (Rows η ν) (Embedder Embeds) where
  rings old new :=
    match old with
    | none => true
    | some a => sha256 (doorbell a.1) ≠ sha256 (doorbell new.1)
  program embed a := process sha256 embed a.1
  blank := fun _ => none

def textAt (a : Article) : Slot → Option (List Char)
  | .anchor => some (buildAnchorText a)
  | .body i => (buildKbChunks a).2[i]?

def Fresh (a : Titled) (rows : Rows η ν) : Prop :=
  ∀ slot, (rows slot).map VectorRow.hash = (textAt a.1 slot).map sha256

def Coherent (Embeds : List Char → ν → Prop) (rows : Rows η ν) : Prop :=
  ∀ slot row, rows slot = some row → row.hash = sha256 row.text ∧ Embeds row.text row.embedding

end

theorem upsertEmbedding_hash (slot : Slot) (row : VectorRow η ν) (rows : Rows η ν) (x : Slot) :
    (upsertEmbedding slot row rows x).map VectorRow.hash =
      if x = slot then some row.hash else (rows x).map VectorRow.hash := by
  unfold upsertEmbedding
  cases hr : rows slot with
  | none =>
    by_cases hx : x = slot
    · simp [hx]
    · simp [hx]
  | some old =>
    simp only
    split
    · next heq =>
      by_cases hx : x = slot
      · simp [hx, hr, heq]
      · simp [hx]
    · by_cases hx : x = slot
      · simp [hx]
      · simp [hx]

theorem upsertEmbedding_coherent {sha256 : List Char → η} {Embeds : List Char → ν → Prop}
    {rows : Rows η ν} (h : Coherent sha256 Embeds rows) (embed : Embedder Embeds) (slot : Slot)
    (text : List Char) :
    Coherent sha256 Embeds (upsertEmbedding slot (chunkRow sha256 embed slot text) rows) := by
  have hnew : Coherent sha256 Embeds
      (Function.update rows slot (some (chunkRow sha256 embed slot text))) := by
    intro x row hx
    by_cases hxs : x = slot
    · subst hxs
      rw [Function.update_self] at hx
      obtain rfl := Option.some.inj hx
      exact ⟨rfl, embed.2 x text⟩
    · rw [Function.update_of_ne hxs] at hx
      exact h x row hx
  unfold upsertEmbedding
  split
  · exact hnew
  · split
    · exact h
    · exact hnew

omit [DecidableEq η] in
theorem prune_coherent {sha256 : List Char → η} {Embeds : List Char → ν → Prop}
    {rows : Rows η ν} (h : Coherent sha256 Embeds rows) (count : ℕ) :
    Coherent sha256 Embeds (prune count rows) := by
  intro x row hx
  cases x with
  | anchor => exact h .anchor row hx
  | body i =>
    simp only [prune] at hx
    split at hx
    · simp at hx
    · exact h (.body i) row hx

theorem intercalate_cons (sep x : List Char) (xs : List (List Char)) :
    ∃ rest, List.intercalate sep (x :: xs) = x ++ rest := by
  cases xs with
  | nil => exact ⟨[], by simp [List.intercalate]⟩
  | cons y ys =>
    exact ⟨sep ++ List.intercalate sep (y :: ys), by simp [List.intercalate, List.intersperse]⟩

theorem strip_buildAnchorText {a : Article} (h : a.title ≠ []) :
    strip (buildAnchorText a) ≠ [] := by
  have hpart : part "Title".toList a.title = ["Title".toList ++ ": ".toList ++ a.title] := if_neg h
  have hmem : 'T' ∈ buildAnchorText a := by
    unfold buildAnchorText
    rw [hpart, List.append_assoc, List.append_assoc, List.singleton_append]
    obtain ⟨rest, hrest⟩ := intercalate_cons ['\n'] ("Title".toList ++ ": ".toList ++ a.title)
      (part "Summary".toList (a.summary.getD []) ++ (part "Category".toList (a.category.getD []) ++
        part "Tags".toList (tagText a.tags)))
    rw [hrest]
    simp
  intro hnil
  have hspace := strip_eq_nil_iff.mp hnil 'T' hmem
  exact absurd hspace (by decide)

section

variable (sha256 : List Char → η) {Embeds : List Char → ν → Prop}

theorem apply_append {ω : Type*} (l l' : List (ω → ω)) (r : ω) :
    apply (l ++ l') r = apply l' (apply l r) := List.foldl_append

theorem apply_bodies (embed : Embedder Embeds) : ∀ (texts : List (List Char)) (k : ℕ)
    (rows : Rows η ν) (slot : Slot),
    (apply ((texts.zipIdx k).map fun p =>
      upsertEmbedding (.body p.2) (chunkRow sha256 embed (.body p.2) p.1)) rows slot).map
        VectorRow.hash =
      match slot with
      | .anchor => (rows .anchor).map VectorRow.hash
      | .body i =>
        if k ≤ i ∧ i < k + texts.length then (texts[i - k]?).map sha256
        else (rows (.body i)).map VectorRow.hash := by
  intro texts
  induction texts with
  | nil =>
    intro k rows slot
    cases slot with
    | anchor => rfl
    | body i =>
      have hno : ¬ (k ≤ i ∧ i < k + ([] : List (List Char)).length) := by
        simp only [List.length_nil]
        omega
      simp only [List.zipIdx_nil, List.map_nil, apply, List.foldl_nil, hno, if_false]
  | cons t texts ih =>
    intro k rows slot
    rw [List.zipIdx_cons, List.map_cons, apply, List.foldl_cons]
    have hrest := ih (k + 1)
      (upsertEmbedding (.body k) (chunkRow sha256 embed (.body k) t) rows) slot
    rw [apply] at hrest
    rw [hrest]
    cases slot with
    | anchor =>
      simp only [upsertEmbedding_hash]
      rw [if_neg (by simp)]
    | body i =>
      simp only [upsertEmbedding_hash, List.length_cons, Slot.body.injEq]
      rcases Nat.lt_trichotomy i k with hlt | rfl | hgt
      · rw [if_neg (by omega), if_neg (by omega), if_neg (by omega)]
      · rw [if_neg (by omega), if_pos rfl, if_pos (by omega), Nat.sub_self]
        rfl
      · have hsub : i - k = (i - (k + 1)) + 1 := by omega
        by_cases hin : i < k + 1 + texts.length
        · rw [if_pos (by omega), if_pos (by omega), hsub, List.getElem?_cons_succ]
        · rw [if_neg (by omega), if_neg (by omega), if_neg (by omega)]

variable {sha256}

omit [DecidableEq η] in
theorem prune_hash (count : ℕ) (rows : Rows η ν) (i : ℕ) :
    (prune count rows (.body i)).map VectorRow.hash =
      if count ≤ i then none else (rows (.body i)).map VectorRow.hash := by
  simp only [prune]
  split <;> rfl

/-- A refresh that runs to its end leaves the rows of the article and no others. -/
theorem process_complete (embed : Embedder Embeds) (a : Titled) (rows : Rows η ν) :
    Fresh sha256 a (apply (process sha256 embed a.1) rows) := by
  have hanchor : ¬ strip (buildKbChunks a.1).1 = [] := strip_buildAnchorText a.2.1
  simp only [process]
  rw [if_neg hanchor, apply_append, apply_append]
  intro slot
  have hbodies := apply_bodies sha256 embed (buildKbChunks a.1).2 0
    (apply [upsertEmbedding .anchor (chunkRow sha256 embed .anchor (buildKbChunks a.1).1)] rows)
  cases slot with
  | anchor =>
    refine (hbodies .anchor).trans ?_
    simp only [apply, List.foldl_cons, List.foldl_nil, upsertEmbedding_hash, if_true]
    rfl
  | body i =>
    have hprune := prune_hash (buildKbChunks a.1).2.length
      (apply ((buildKbChunks a.1).2.zipIdx.map fun p =>
        upsertEmbedding (.body p.2) (chunkRow sha256 embed (.body p.2) p.1))
        (apply [upsertEmbedding .anchor (chunkRow sha256 embed .anchor (buildKbChunks a.1).1)]
          rows)) i
    refine hprune.trans ?_
    have hbody := hbodies (.body i)
    rw [hbody]
    simp only [Nat.zero_le, true_and, Nat.zero_add, Nat.sub_zero, textAt]
    by_cases hi : i < (buildKbChunks a.1).2.length
    · rw [if_neg (by omega), if_pos hi]
    · rw [if_pos (by omega), List.getElem?_eq_none (by omega)]
      rfl

theorem process_cases {embed : Embedder Embeds} {a : Article} {f : Rows η ν → Rows η ν}
    (hf : f ∈ process sha256 embed a) :
    (∃ slot text, textAt a slot = some text ∧
      f = upsertEmbedding slot (chunkRow sha256 embed slot text)) ∨
      f = prune (buildKbChunks a).2.length := by
  unfold process at hf
  rcases List.mem_append.mp hf with hf | hf
  · rcases List.mem_append.mp hf with hf | hf
    · split at hf
      · cases hf
      · exact .inl ⟨.anchor, _, rfl, List.mem_singleton.mp hf⟩
    · obtain ⟨⟨text, i⟩, hp, rfl⟩ := List.mem_map.mp hf
      exact .inl ⟨.body i, text, List.mem_zipIdx_iff_getElem?.mp hp, rfl⟩
  · exact .inr (List.mem_singleton.mp hf)

theorem process_harmless {embed : Embedder Embeds} {a : Titled} {f : Rows η ν → Rows η ν}
    {rows : Rows η ν} (hf : f ∈ process sha256 embed a.1) (h : Fresh sha256 a rows) :
    Fresh sha256 a (f rows) := by
  rcases process_cases hf with ⟨slot, text, ht, rfl⟩ | rfl
  · intro x
    rw [upsertEmbedding_hash]
    split
    · next hx =>
      rw [hx, ht]
      rfl
    · exact h x
  · intro x
    cases x with
    | anchor => exact h .anchor
    | body i =>
      rw [prune_hash]
      split
      · next hi =>
        simp [textAt, List.getElem?_eq_none hi]
      · exact h (.body i)

theorem pipeline_lawful (Embeds : List Char → ν → Prop) :
    Lawful (pipeline sha256 Embeds) (Fresh (ν := ν) sha256) where
  complete embed a rows := process_complete embed a rows
  harmless _ _ _ _ hf h := process_harmless hf h
  first _ := rfl

omit [DecidableEq η] in
/-- Rows keep hash and vector of their text, whoever writes them when. -/
theorem coherent_blank : Coherent (ν := ν) sha256 Embeds (fun _ => none) := by
  intro slot row h
  cases h

theorem process_coherent {embed : Embedder Embeds} {a : Article} {f : Rows η ν → Rows η ν}
    {rows : Rows η ν} (hf : f ∈ process sha256 embed a) (h : Coherent sha256 Embeds rows) :
    Coherent sha256 Embeds (f rows) := by
  rcases process_cases hf with ⟨slot, text, -, rfl⟩ | rfl
  · exact upsertEmbedding_coherent h embed slot text
  · exact prune_coherent h _

end

theorem line_inj {x y u v : List Char} (hx : '\n' ∉ x) (hy : '\n' ∉ y)
    (h : x ++ '\n' :: u = y ++ '\n' :: v) : x = y ∧ u = v := by
  induction x generalizing y with
  | nil =>
    cases y with
    | nil => exact ⟨rfl, (List.cons.inj h).2⟩
    | cons d y =>
      obtain ⟨rfl, -⟩ := List.cons.inj h
      exact absurd List.mem_cons_self hy
  | cons c x ih =>
    cases y with
    | nil =>
      obtain ⟨rfl, -⟩ := List.cons.inj h
      exact absurd List.mem_cons_self hx
    | cons d y =>
      obtain ⟨rfl, hrest⟩ := List.cons.inj h
      obtain ⟨rfl, rfl⟩ := ih (fun hm => hx (List.mem_cons_of_mem c hm))
        (fun hm => hy (List.mem_cons_of_mem c hm)) hrest
      exact ⟨rfl, rfl⟩

theorem doorbell_lines (a : Article) :
    doorbell a = "Title: ".toList ++ (a.title ++ '\n' :: ("Summary: ".toList ++
      (a.summary.getD [] ++ '\n' :: ("Category: ".toList ++ (a.category.getD [] ++ '\n' ::
        ("Content: ".toList ++ a.content.getD [])))))) := by
  unfold doorbell
  simp

/-- The doorbell shows every field but the tags. -/
theorem doorbell_inj {a b : Article} (ha : OneLine a) (hb : OneLine b)
    (h : doorbell a = doorbell b) :
    a.title = b.title ∧ a.summary.getD [] = b.summary.getD [] ∧
      a.category.getD [] = b.category.getD [] ∧ a.content.getD [] = b.content.getD [] := by
  rw [doorbell_lines, doorbell_lines] at h
  obtain ⟨htitle, h⟩ := line_inj ha.1 hb.1 (List.append_cancel_left h)
  obtain ⟨hsummary, h⟩ := line_inj ha.2.1 hb.2.1 (List.append_cancel_left h)
  obtain ⟨hcategory, h⟩ := line_inj ha.2.2 hb.2.2 (List.append_cancel_left h)
  exact ⟨htitle, hsummary, hcategory, List.append_cancel_left h⟩

theorem textAt_eq {a b : Article} (ha : OneLine a) (hb : OneLine b)
    (h : doorbell a = doorbell b) (htags : a.tags = b.tags) : textAt a = textAt b := by
  obtain ⟨htitle, hsummary, hcategory, hcontent⟩ := doorbell_inj ha hb h
  funext slot
  cases slot with
  | anchor => simp only [textAt, buildAnchorText, htitle, hsummary, hcategory, htags]
  | body i => simp only [textAt, buildKbChunks, hcontent]

section

variable {κ : Type*} [DecidableEq κ] (sha256 : List Char → η) (Embeds : List Char → ν → Prop)

def Noticed (s : State κ Titled (Rows η ν)) (k : κ) (a : Titled) : Prop :=
  ∀ a₀, s.source k = some a₀ → sha256 (doorbell a₀.1) = sha256 (doorbell a.1) →
    doorbell a₀.1 = doorbell a.1 ∧ a₀.1.tags = a.1.tags

/-- Edits are noticed, an article is not deleted while a worker refreshes it, and it is
refreshed by one worker at a time. -/
def Orderly (s : State κ Titled (Rows η ν)) : Action κ Titled (Embedder Embeds) → Prop
  | .put k a => Noticed sha256 s k a
  | a => Allowed (pipeline sha256 Embeds) (Fresh sha256) s a

/-- The table, its queue and its workers after any orderly run. -/
inductive KbReachable : State κ Titled (Rows η ν) → Prop where
  | start : KbReachable (State.empty (pipeline sha256 Embeds))
  | next {s : State κ Titled (Rows η ν)} (a : Action κ Titled (Embedder Embeds)) :
      KbReachable s → Orderly sha256 Embeds s a → KbReachable (next (pipeline sha256 Embeds) s a)

variable {sha256 Embeds}

omit [DecidableEq κ] in
theorem Orderly.allowed {s : State κ Titled (Rows η ν)}
    {a : Action κ Titled (Embedder Embeds)} (h : Orderly sha256 Embeds s a) :
    Allowed (pipeline sha256 Embeds) (Fresh sha256) s a := by
  cases a with
  | put k a =>
    intro a₀ hs hsilent rows
    have hdigest : sha256 (doorbell a₀.1) = sha256 (doorbell a.1) := by
      simpa [pipeline] using hsilent
    obtain ⟨hd, htags⟩ := h a₀ hs hdigest
    unfold Fresh
    rw [textAt_eq a₀.2.2 a.2.2 hd htags]
  | delete k => exact h
  | spawn => exact h
  | work i a => exact h

omit [DecidableEq κ] in
theorem orderly_fetch_of_single {s : State κ Titled (Rows η ν)} (h : s.workers.length ≤ 1) (i : ℕ)
    (embed : Embedder Embeds) : Orderly sha256 Embeds s (.work i (.fetch embed)) := by
  have hfetch : Allowed (pipeline sha256 Embeds) (Fresh sha256) s (.work i (.fetch embed)) :=
    allowed_fetch_of_single h
  exact hfetch

theorem KbReachable.reachable {s : State κ Titled (Rows η ν)} (h : KbReachable sha256 Embeds s) :
    Reachable (pipeline sha256 Embeds) (Fresh sha256) s := by
  induction h with
  | start => exact .start
  | next a _ ha ih => exact .next a ih ha.allowed

theorem KbReachable.coherent {s : State κ Titled (Rows η ν)} (h : KbReachable sha256 Embeds s)
    (k : κ) : Coherent sha256 Embeds (s.derived k) := by
  have htame : Tame (Coherent sha256 Embeds) s := h.reachable.tame coherent_blank
    fun embed a f rows hf hrows => process_coherent hf hrows
  exact htame.1 k

/-- The store of vectors follows the articles: once no message of an article is queued, its
anchor and each of its chunks have the one row with the digest of their text, the row's vector
is one of the row's own text, and there is nothing else. -/
theorem kb_vectors_follow {s : State κ Titled (Rows η ν)} (h : KbReachable sha256 Embeds s)
    {k : κ} (hq : ∀ m ∈ s.queue, m.key ≠ k) (slot : Slot) :
    (∀ a text, s.source k = some a → textAt a.1 slot = some text →
      ∃ row, s.derived k slot = some row ∧ row.hash = sha256 text ∧
        row.hash = sha256 row.text ∧ Embeds row.text row.embedding) ∧
    ((∀ a, s.source k = some a → textAt a.1 slot = none) → s.derived k slot = none) := by
  have hinv := h.reachable.inv (pipeline_lawful Embeds)
  constructor
  · intro a text hs ht
    have hfresh := hinv.fresh hs hq slot
    rw [ht, Option.map_some, Option.map_eq_some_iff] at hfresh
    obtain ⟨row, hrow, hhash⟩ := hfresh
    exact ⟨row, hrow, hhash, h.coherent k slot row hrow⟩
  · intro hno
    cases hs : s.source k with
    | none =>
      rw [(hinv.gone k hs).1]
      rfl
    | some a =>
      have hfresh := hinv.fresh hs hq slot
      rw [hno a hs, Option.map_none, Option.map_eq_none_iff] at hfresh
      exact hfresh

/-- What the comment at the digest concedes: an edit of the tags alone leaves the anchor stale. -/
theorem stale_after_tags {s : State κ Titled (Rows η ν)} {k : κ} {a₀ a : Titled}
    (hs : s.source k = some a₀) (hfresh : Fresh sha256 a₀ (s.derived k))
    (hsame : doorbell a₀.1 = doorbell a.1)
    (hanchor : sha256 (buildAnchorText a₀.1) ≠ sha256 (buildAnchorText a.1)) :
    (next (pipeline sha256 Embeds) s (.put k a)).queue = s.queue ∧
      ¬ Fresh sha256 a ((next (pipeline sha256 Embeds) s (.put k a)).derived k) := by
  have hsilent : (pipeline (ν := ν) sha256 Embeds).rings (s.source k) a = false := by
    rw [hs]
    simp [pipeline, hsame]
  simp only [next, hsilent]
  refine ⟨rfl, fun hf => hanchor ?_⟩
  have hold := hfresh .anchor
  have hnew := hf .anchor
  exact Option.some.inj (hold.symm.trans hnew)

end

def Copies (text vector : List Char) : Prop := vector = text

def copyPipeline : Pipeline Titled (Rows (List Char) (List Char)) (Embedder Copies) :=
  pipeline id Copies

def vpnArticle : Titled :=
  ⟨⟨"VPN".toList, none, some "Reset the token.".toList, none, ["net".toList]⟩, by decide,
    by unfold OneLine; decide⟩

def vpnFetched : State ℕ Titled (Rows (List Char) (List Char)) :=
  [Action.spawn, .put 0 vpnArticle, .work 0 (.poll [0]),
    .work 0 (.fetch ⟨fun _ text => text, fun _ _ => rfl⟩)].foldl (next copyPipeline)
      (State.empty copyPipeline)

def vpnState : State ℕ Titled (Rows (List Char) (List Char)) :=
  [Work.write, .write, .write, .ack].foldl (fun s a => next copyPipeline s (.work 0 a)) vpnFetched

theorem vpnState_reachable : KbReachable id Copies vpnState := by
  have hentered : KbReachable id Copies (next copyPipeline
      (next copyPipeline (State.empty copyPipeline) .spawn) (.put (0 : ℕ) vpnArticle)) := by
    refine .next _ (.next _ .start trivial) fun a₀ hs => ?_
    cases hs
  have hpolled := hentered.next (.work 0 (.poll [0])) trivial
  have hfetched : KbReachable id Copies vpnFetched :=
    hpolled.next (.work 0 (.fetch _)) (orderly_fetch_of_single (by decide) 0 _)
  exact (((hfetched.next (.work 0 .write) trivial).next (.work 0 .write) trivial).next
    (.work 0 .write) trivial).next (.work 0 .ack) trivial

theorem kb_vectors_follow_vpn : ∃ row, vpnState.derived 0 (.body 0) = some row ∧
    row.hash = "Reset the token.".toList ∧ Copies row.text row.embedding := by
  have hq : ∀ m ∈ vpnState.queue, m.key ≠ 0 := by
    have hnil : vpnState.queue.isEmpty = true := by decide +kernel
    rw [List.isEmpty_iff.mp hnil]
    exact nofun
  have htext : textAt vpnArticle.1 (.body 0) = some "Reset the token.".toList := by decide +kernel
  obtain ⟨row, hrow, hhash, -, hvector⟩ :=
    (kb_vectors_follow vpnState_reachable hq (.body 0)).1 vpnArticle _ rfl htext
  exact ⟨row, hrow, hhash, hvector⟩

end KbVectors
