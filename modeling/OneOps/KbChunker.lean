import Mathlib.Data.Finset.Max
import Mathlib.Data.List.Chain
import OneOps.PythonText

/-! The chunker of KB bodies: a loop over cursors that cuts a slice up to the best boundary,
keeps it if it is long enough without its margins and goes on a little before the cut, or a
stride ahead when the cut is too near. A text is its list of characters. -/
namespace KbChunker

open PythonText

def targetChunkChars : ℕ := 2000

def overlapChars : ℕ := 200

def maxChunkChars : ℕ := 6000

def minChunkChars : ℕ := 100

def minStride : ℕ := max minChunkChars (targetChunkChars - overlapChars)

def strip (text : List Char) : List Char := (text.dropWhile isSpace).rdropWhile isSpace

/-- `str.rfind`: where the last occurrence begins. -/
def rfind (delim : List Char) : List Char → Option ℕ
  | [] => if delim = [] then some 0 else none
  | c :: text =>
    match rfind delim text with
    | some i => some (i + 1)
    | none => if delim.isPrefixOf (c :: text) then some 0 else none

/-- Paragraph breaks, ends of sentences, line breaks and blanks, the preferred ones first. -/
def delimiters : List (List Char) :=
  [['\n', '\n', '\n'], ['\n', '\n'], ['.', ' '], ['!', ' '], ['?', ' '], ['.', '\n'], ['!', '\n'],
    ['?', '\n'], ['\n'], [' ']]

def boundary (window : List Char) : Option ℕ :=
  delimiters.findSome? fun delim => (rfind delim window).map (· + delim.length)

def findSplitPoint (text : List Char) (start target hardMax : ℕ) : ℕ :=
  if text.length ≤ start + target then text.length
  else
    let windowStart := start + max minChunkChars (target - 400)
    let windowEnd := min text.length (start + hardMax)
    if windowEnd ≤ start then text.length
    else
      match boundary ((text.take windowEnd).drop windowStart) with
      | some offset => windowStart + offset
      | none => min (start + target) text.length

def splitPoint (content : List Char) (cursor : ℕ) : ℕ :=
  findSplitPoint content cursor targetChunkChars maxChunkChars

def nextCursor (content : List Char) (cursor : ℕ) : ℕ :=
  max (splitPoint content cursor - overlapChars) (cursor + minStride)

/-- The cursors of the loop from one on, or `none` when the bound on its rounds is hit. -/
def cursorsFrom (content : List Char) : ℕ → ℕ → Option (List ℕ)
  | 0, _ => none
  | fuel + 1, cursor =>
    if cursor < content.length then
      if content.length ≤ splitPoint content cursor then some [cursor]
      else (cursorsFrom content fuel (nextCursor content cursor)).map (cursor :: ·)
    else some []

structure Chunk where
  start : ℕ
  stop : ℕ
  text : List Char
  deriving DecidableEq, Repr

def slice (content : List Char) (start stop : ℕ) : List Char := (content.take stop).drop start

def chunkAt (content : List Char) (cursor : ℕ) : Chunk :=
  ⟨cursor, splitPoint content cursor, strip (slice content cursor (splitPoint content cursor))⟩

def longEnough (k : Chunk) : Bool := minChunkChars ≤ k.text.length

def splitLoop (content : List Char) : ℕ → ℕ → List Chunk → Option (List Chunk)
  | 0, _, _ => none
  | fuel + 1, cursor, chunks =>
    if cursor < content.length then
      let k := chunkAt content cursor
      let chunks := if longEnough k then chunks ++ [k] else chunks
      if content.length ≤ k.stop then some chunks
      else splitLoop content fuel (nextCursor content cursor) chunks
    else some chunks

def splitBody (content : List Char) (fuel : ℕ) : Option (List Chunk) :=
  if strip content = [] then some []
  else if content.length ≤ targetChunkChars then some [⟨0, content.length, strip content⟩]
  else splitLoop content fuel 0 []

theorem rfind_le {delim text : List Char} {i : ℕ} (h : rfind delim text = some i) :
    i + delim.length ≤ text.length := by
  induction text generalizing i with
  | nil =>
    unfold rfind at h
    split at h
    · rename_i hd
      simp only [Option.some.injEq] at h
      simp [hd, ← h]
    · cases h
  | cons c text ih =>
    unfold rfind at h
    split at h
    · rename_i j hj
      rw [Option.some.injEq] at h
      have := ih hj
      rw [List.length_cons]
      omega
    · split at h
      · rename_i hp
        rw [Option.some.injEq] at h
        have := (List.isPrefixOf_iff_prefix.mp hp).length_le
        omega
      · cases h

theorem boundary_bounds {window : List Char} {offset : ℕ} (h : boundary window = some offset) :
    0 < offset ∧ offset ≤ window.length := by
  obtain ⟨delim, hd, hm⟩ := List.exists_of_findSome?_eq_some h
  rw [Option.map_eq_some_iff] at hm
  obtain ⟨i, hi, rfl⟩ := hm
  have hpos : 0 < delim.length := by
    have hall : ∀ delim ∈ delimiters, 0 < delim.length := by decide
    exact hall delim hd
  exact ⟨by omega, rfind_le hi⟩

/-- What a split point can be: the end of the text when little is left, otherwise a point
between 1600 and 6000 characters ahead. -/
theorem splitPoint_cases (content : List Char) (cursor : ℕ) :
    (content.length ≤ cursor + 2000 ∧ splitPoint content cursor = content.length) ∨
      (cursor + 2000 < content.length ∧ cursor + 1600 < splitPoint content cursor ∧
        splitPoint content cursor ≤ content.length ∧
        splitPoint content cursor ≤ cursor + 6000) := by
  unfold splitPoint findSplitPoint targetChunkChars maxChunkChars minChunkChars
  split
  · rename_i hle
    exact Or.inl ⟨hle, rfl⟩
  · rename_i hlt
    right
    dsimp only
    rw [if_neg (by omega)]
    split
    · rename_i offset hb
      have hbounds := boundary_bounds hb
      rw [List.length_drop, List.length_take] at hbounds
      omega
    · omega

theorem splitPoint_le (content : List Char) (cursor : ℕ) :
    splitPoint content cursor ≤ content.length := by
  have := splitPoint_cases content cursor
  omega

theorem nextCursor_eq (content : List Char) (cursor : ℕ) :
    nextCursor content cursor = max (splitPoint content cursor - 200) (cursor + 1800) := rfl

inductive Run (content : List Char) : ℕ → List ℕ → Prop where
  | done {c : ℕ} : content.length ≤ c → Run content c []
  | last {c : ℕ} : c < content.length → content.length ≤ splitPoint content c →
      Run content c [c]
  | step {c : ℕ} {cs : List ℕ} : c < content.length → splitPoint content c < content.length →
      Run content (nextCursor content c) cs → Run content c (c :: cs)

variable {content : List Char}

theorem cursorsFrom_run {fuel c : ℕ} {cs : List ℕ} (h : cursorsFrom content fuel c = some cs) :
    Run content c cs := by
  induction fuel generalizing c cs with
  | zero => cases h
  | succ fuel ih =>
    unfold cursorsFrom at h
    split_ifs at h with hc hs
    · cases h
      exact .last hc hs
    · obtain ⟨cs', hcs, rfl⟩ := Option.map_eq_some_iff.mp h
      exact .step hc (not_le.mp hs) (ih hcs)
    · cases h
      exact .done (not_lt.mp hc)

/-- A round that does not reach the end of the text leaves some of it for the next one. -/
theorem nextCursor_lt {c : ℕ} (h : splitPoint content c < content.length) :
    nextCursor content c < content.length := by
  have hcases := splitPoint_cases content c
  have hnext := nextCursor_eq content c
  omega

/-- Every round moves the cursor a stride on, so the rounds end. -/
theorem cursorsFrom_total {fuel c : ℕ} (hpos : 0 < fuel)
    (h : content.length ≤ c + 1800 * fuel) :
    ∃ cs, ∀ k, cursorsFrom content (fuel + k) c = some cs := by
  induction fuel generalizing c with
  | zero => exact absurd hpos (lt_irrefl 0)
  | succ fuel ih =>
    by_cases hc : c < content.length
    · by_cases hs : content.length ≤ splitPoint content c
      · refine ⟨[c], fun k => ?_⟩
        rw [Nat.succ_add, cursorsFrom, if_pos hc, if_pos hs]
      · have hnext := nextCursor_eq content c
        have hlt := nextCursor_lt (not_le.mp hs)
        have hrest : content.length ≤ nextCursor content c + 1800 * fuel := by omega
        obtain ⟨cs, hcs⟩ := ih (by omega) hrest
        refine ⟨c :: cs, fun k => ?_⟩
        rw [Nat.succ_add, cursorsFrom, if_pos hc, if_neg hs, hcs k]
        rfl
    · refine ⟨[], fun k => ?_⟩
      rw [Nat.succ_add, cursorsFrom, if_neg hc]

theorem splitLoop_eq (fuel c : ℕ) (chunks : List Chunk) :
    splitLoop content fuel c chunks =
      (cursorsFrom content fuel c).map fun cs =>
        chunks ++ (cs.map (chunkAt content)).filter longEnough := by
  induction fuel generalizing c chunks with
  | zero => rfl
  | succ fuel ih =>
    unfold splitLoop cursorsFrom
    have hone : (if longEnough (chunkAt content c) then chunks ++ [chunkAt content c] else chunks) =
        chunks ++ [chunkAt content c].filter longEnough := by
      split_ifs with hl
      · rw [List.filter_cons_of_pos hl, List.filter_nil]
      · rw [List.filter_cons_of_neg hl, List.filter_nil, List.append_nil]
    have hstop : (chunkAt content c).stop = splitPoint content c := rfl
    dsimp only
    rw [hone, hstop]
    split_ifs
    · rw [Option.map_some, List.map_singleton]
    · rw [ih, Option.map_map]
      congr 1
      funext cs
      rw [Function.comp_apply, List.map_cons, List.append_assoc, ← List.filter_append,
        List.singleton_append]
    · rw [Option.map_some, List.map_nil, List.filter_nil, List.append_nil]

theorem Run.ge {c : ℕ} {cs : List ℕ} (h : Run content c cs) : ∀ x ∈ cs, c ≤ x := by
  induction h with
  | done _ => intro x hx; cases hx
  | last _ _ => intro x hx; exact (List.mem_singleton.mp hx).ge
  | @step c cs _ _ _ ih =>
    intro x hx
    have hnext := nextCursor_eq content c
    rcases List.mem_cons.mp hx with rfl | hx
    · exact le_refl x
    · have := ih x hx
      omega

theorem Run.head_mem {c x : ℕ} {cs : List ℕ} (h : Run content c cs) (hx : x ∈ cs) : c ∈ cs := by
  cases h with
  | done _ => cases hx
  | last _ _ => exact List.mem_cons_self
  | step _ _ _ => exact List.mem_cons_self

theorem Run.lt_length {c : ℕ} {cs : List ℕ} (h : Run content c cs) :
    ∀ x ∈ cs, x < content.length := by
  induction h with
  | done _ => intro x hx; cases hx
  | last hc _ => intro x hx; exact (List.mem_singleton.mp hx) ▸ hc
  | step hc _ _ ih =>
    intro x hx
    rcases List.mem_cons.mp hx with rfl | hx
    · exact hc
    · exact ih x hx

theorem Run.spaced {c : ℕ} {cs : List ℕ} (h : Run content c cs) :
    cs.Pairwise fun x y => x + 1800 ≤ y := by
  induction h with
  | done _ => exact List.Pairwise.nil
  | last _ _ => exact List.pairwise_singleton _ _
  | @step c cs _ _ hrun ih =>
    refine List.Pairwise.cons ?_ ih
    intro x hx
    have hnext := nextCursor_eq content c
    have := hrun.ge x hx
    omega

theorem Run.sorted {c : ℕ} {cs : List ℕ} (h : Run content c cs) : cs.Pairwise (· < ·) :=
  h.spaced.imp fun hxy => by omega

theorem Run.next_mem {c : ℕ} {cs : List ℕ} (h : Run content c cs) {x z : ℕ} (hx : x ∈ cs)
    (hz : z ∈ cs) (hlt : x < z) :
    nextCursor content x ∈ cs ∧ nextCursor content x ≤ z ∧
      splitPoint content x < content.length := by
  induction h with
  | done _ => cases hx
  | last _ _ =>
    rw [List.mem_singleton.mp hx, List.mem_singleton.mp hz] at hlt
    exact absurd hlt (lt_irrefl _)
  | @step c cs _ hs hrun ih =>
    have hnext := nextCursor_eq content c
    rcases List.mem_cons.mp hz with rfl | hzs
    · have := (Run.step ‹_› hs hrun).ge x hx
      omega
    · rcases List.mem_cons.mp hx with rfl | hxs
      · exact ⟨List.mem_cons_of_mem _ (hrun.head_mem hzs), hrun.ge z hzs, hs⟩
      · obtain ⟨hmem, hle, hlen⟩ := ih hxs hzs
        exact ⟨List.mem_cons_of_mem c hmem, hle, hlen⟩

/-- Every cursor but the first follows another one. -/
theorem Run.pred {c : ℕ} {cs : List ℕ} (h : Run content c cs) {x : ℕ} (hx : x ∈ cs)
    (hne : x ≠ c) : ∃ y ∈ cs, nextCursor content y = x ∧ splitPoint content y < content.length := by
  induction h with
  | done _ => cases hx
  | last _ _ => exact absurd (List.mem_singleton.mp hx) hne
  | @step c cs _ hs hrun ih =>
    rcases List.mem_cons.mp hx with rfl | hx
    · exact absurd rfl hne
    · by_cases hxn : x = nextCursor content c
      · exact ⟨c, List.mem_cons_self, hxn.symm, hs⟩
      · obtain ⟨y, hy, hyx, hlen⟩ := ih hx hxn
        exact ⟨y, List.mem_cons_of_mem c hy, hyx, hlen⟩

theorem Run.next_or_behind {c : ℕ} {cs : List ℕ} (h : Run content c cs) {x z : ℕ} (hx : x ∈ cs)
    (hz : z ∈ cs) (hlt : x < z) : z = nextCursor content x ∨ splitPoint content x < z := by
  obtain ⟨hmem, hle, _⟩ := h.next_mem hx hz hlt
  by_cases he : z = nextCursor content x
  · exact Or.inl he
  · right
    obtain ⟨_, hle', _⟩ := h.next_mem hmem hz (lt_of_le_of_ne hle (Ne.symm he))
    have h₁ := nextCursor_eq content x
    have h₂ := nextCursor_eq content (nextCursor content x)
    omega

theorem Run.splitPoint_mono {c : ℕ} {cs : List ℕ} (h : Run content c cs) {x z : ℕ} (hx : x ∈ cs)
    (hz : z ∈ cs) (hle : x ≤ z) : splitPoint content x ≤ splitPoint content z := by
  rcases hle.eq_or_lt with rfl | hlt
  · exact le_refl _
  · obtain ⟨_, hnle, _⟩ := h.next_mem hx hz hlt
    have hnext := nextCursor_eq content x
    have hx' := splitPoint_le content x
    have hz' := splitPoint_cases content z
    omega

def Visible (content : List Char) (i : ℕ) : Prop := ∃ c, content[i]? = some c ∧ isSpace c = false

/-- The position lies in the text of the chunk, which begins behind the white space that its
slice begins with. -/
def Covers (content : List Char) (k : Chunk) (i : ℕ) : Prop :=
  let first := k.start + ((slice content k.start k.stop).takeWhile isSpace).length
  first ≤ i ∧ i < first + k.text.length

instance (content : List Char) (k : Chunk) (i : ℕ) : Decidable (Covers content k i) :=
  inferInstanceAs (Decidable (_ ∧ _))

theorem strip_margins (text : List Char) :
    ∃ trail, text = text.takeWhile isSpace ++ (strip text ++ trail) ∧
      ∀ c ∈ trail, isSpace c = true := by
  refine ⟨(text.dropWhile isSpace).rtakeWhile isSpace, ?_, fun c hc => List.mem_rtakeWhile_imp hc⟩
  unfold strip
  rw [List.rdropWhile_append_rtakeWhile, List.takeWhile_append_dropWhile]

theorem getElem?_slice {start stop j : ℕ} (h : start + j < stop) :
    (slice content start stop)[j]? = content[start + j]? := by
  unfold slice
  rw [List.getElem?_drop, List.getElem?_take_of_lt h]

theorem length_slice {start stop : ℕ} (h : stop ≤ content.length) :
    (slice content start stop).length = stop - start := by
  unfold slice
  rw [List.length_drop, List.length_take, min_eq_left h]

/-- What is not white space is in the text of a chunk when it is in its slice. -/
theorem covers_iff {start stop i : ℕ} (hstop : stop ≤ content.length) (hi : Visible content i) :
    Covers content ⟨start, stop, strip (slice content start stop)⟩ i ↔ start ≤ i ∧ i < stop := by
  obtain ⟨trail, heq, htrail⟩ := strip_margins (slice content start stop)
  have hlen := congrArg List.length heq
  rw [List.length_append, List.length_append, length_slice hstop] at hlen
  unfold Covers
  dsimp only
  constructor
  · rintro ⟨hge, hlt⟩
    omega
  · rintro ⟨hge, hlt⟩
    obtain ⟨c, hc, hspace⟩ := hi
    have hj : (slice content start stop)[i - start]? = some c := by
      rw [getElem?_slice (by omega), Nat.add_sub_cancel' hge, hc]
    have hlead : ¬ i - start < ((slice content start stop).takeWhile isSpace).length := by
      intro hin
      rw [heq, List.getElem?_append_left hin] at hj
      have hsp := List.mem_takeWhile_imp (List.mem_of_getElem? hj)
      rw [hspace] at hsp
      cases hsp
    have htail : i - start - ((slice content start stop).takeWhile isSpace).length <
        (strip (slice content start stop)).length := by
      by_contra hout
      rw [heq, List.getElem?_append_right (not_lt.mp hlead),
        List.getElem?_append_right (not_lt.mp hout)] at hj
      have hsp := htrail c (List.mem_of_getElem? hj)
      rw [hspace] at hsp
      cases hsp
    omega

theorem strip_eq_nil_iff {text : List Char} : strip text = [] ↔ ∀ c ∈ text, isSpace c = true := by
  unfold strip
  rw [List.rdropWhile_eq_nil_iff]
  constructor
  · intro h c hc
    rw [← List.takeWhile_append_dropWhile (p := isSpace) (l := text)] at hc
    rcases List.mem_append.mp hc with hc | hc
    · exact List.mem_takeWhile_imp hc
    · exact h c hc
  · intro h c hc
    exact h c ((List.dropWhile_suffix isSpace).subset hc)

theorem visible_iff_mem : (∃ i, Visible content i) ↔ ∃ c ∈ content, isSpace c = false := by
  constructor
  · rintro ⟨i, c, hc, hspace⟩
    exact ⟨c, List.mem_of_getElem? hc, hspace⟩
  · rintro ⟨c, hc, hspace⟩
    obtain ⟨i, hi⟩ := List.getElem?_of_mem hc
    exact ⟨i, c, hi, hspace⟩

theorem exists_visible {start stop : ℕ} (h : strip (slice content start stop) ≠ []) :
    ∃ i, Visible content i ∧ start ≤ i ∧ i < stop := by
  rw [Ne, strip_eq_nil_iff] at h
  push Not at h
  obtain ⟨c, hc, hspace⟩ := h
  obtain ⟨j, hj⟩ := List.getElem?_of_mem hc
  have hlt : start + j < stop := by
    have := (List.getElem?_eq_some_iff.mp hj).1
    unfold slice at this
    rw [List.length_drop, List.length_take] at this
    omega
  rw [getElem?_slice hlt] at hj
  exact ⟨start + j, ⟨c, hj, Bool.eq_false_iff.mpr hspace⟩, Nat.le_add_right start j, hlt⟩

def cursors (content : List Char) : List ℕ :=
  (cursorsFrom content (content.length + 1) 0).getD []

theorem cursorsFrom_cursors {fuel : ℕ} (h : content.length / 1800 < fuel) :
    cursorsFrom content fuel 0 = some (cursors content) := by
  have hlen : content.length ≤ 0 + 1800 * (content.length / 1800 + 1) := by omega
  obtain ⟨cs, hcs⟩ := cursorsFrom_total (Nat.succ_pos _) hlen
  have hcs' : ∀ fuel, content.length / 1800 < fuel → cursorsFrom content fuel 0 = some cs := by
    intro fuel hfuel
    obtain ⟨k, rfl⟩ := Nat.exists_eq_add_of_le hfuel
    exact hcs k
  unfold cursors
  rw [hcs' fuel h, hcs' _ (by omega), Option.getD_some]

theorem cursors_run (content : List Char) : Run content 0 (cursors content) :=
  cursorsFrom_run (cursorsFrom_cursors (Nat.lt_succ_self _))

def Long (content : List Char) (c : ℕ) : Prop :=
  100 ≤ (strip (slice content c (splitPoint content c))).length

instance (c : ℕ) : Decidable (Long content c) := inferInstanceAs (Decidable (_ ≤ _))

def keptChunks (content : List Char) : List Chunk :=
  ((cursors content).filter fun c => Long content c).map (chunkAt content)

theorem splitBody_blank (h : strip content = []) (fuel : ℕ) : splitBody content fuel = some [] := by
  rw [splitBody, if_pos h]

theorem splitBody_short (h : strip content ≠ []) (hlen : content.length ≤ 2000) (fuel : ℕ) :
    splitBody content fuel = some [⟨0, content.length, strip content⟩] := by
  rw [splitBody, if_neg h]
  exact if_pos hlen

theorem splitBody_long (h : strip content ≠ []) (hlen : 2000 < content.length) {fuel : ℕ}
    (hfuel : content.length / 1800 < fuel) :
    splitBody content fuel = some (keptChunks content) := by
  have hlong : ¬ content.length ≤ targetChunkChars := not_le.mpr hlen
  unfold splitBody
  rw [if_neg h, if_neg hlong, splitLoop_eq, cursorsFrom_cursors hfuel, Option.map_some,
    List.nil_append, List.filter_map]
  rfl

theorem slice_all (content : List Char) : slice content 0 content.length = content := by
  unfold slice
  rw [List.take_length, List.drop_zero]

theorem length_strip_le (text : List Char) : (strip text).length ≤ text.length :=
  (List.rdropWhile_prefix isSpace _).length_le.trans (List.dropWhile_suffix isSpace).length_le

/-- What is promised of every chunk and of the order of the chunks. -/
structure Limits (content : List Char) (chunks : List Chunk) : Prop where
  cut : ∀ k ∈ chunks, k.start < k.stop ∧ k.stop ≤ content.length ∧
    k.text = strip (slice content k.start k.stop)
  spaced : chunks.Pairwise fun k l => k.start + 1800 ≤ l.start
  capped : ∀ k ∈ chunks, k.text.length ≤ 6000
  filled : 2000 < content.length → ∀ k ∈ chunks, 100 ≤ k.text.length

theorem limits_nil (content : List Char) : Limits content [] where
  cut _ hk := absurd hk List.not_mem_nil
  spaced := List.Pairwise.nil
  capped _ hk := absurd hk List.not_mem_nil
  filled _ _ hk := absurd hk List.not_mem_nil

theorem limits_short (h : strip content ≠ []) (hlen : content.length ≤ 2000) :
    Limits content [⟨0, content.length, strip content⟩] where
  cut := by
    rw [List.forall_mem_singleton]
    have hpos := List.length_pos_of_ne_nil h
    have hle := length_strip_le content
    exact ⟨hpos.trans_le hle, le_refl _, by rw [slice_all]⟩
  spaced := List.pairwise_singleton _ _
  capped := by
    rw [List.forall_mem_singleton]
    have hle := length_strip_le content
    show (strip content).length ≤ 6000
    omega
  filled hlong := absurd hlen (not_le.mpr hlong)

/-- A slice ends behind its cursor, inside the text and at most 6000 characters on. -/
theorem splitPoint_bounds {c : ℕ} (hc : c < content.length) :
    c < splitPoint content c ∧ splitPoint content c ≤ content.length ∧
      splitPoint content c ≤ c + 6000 := by
  have hcases := splitPoint_cases content c
  omega

theorem length_chunkAt_le {c : ℕ} (hc : c < content.length) :
    (chunkAt content c).text.length ≤ 6000 := by
  obtain ⟨_, hin, hmax⟩ := splitPoint_bounds hc
  have hle := length_strip_le (slice content c (splitPoint content c))
  rw [length_slice hin] at hle
  show (strip (slice content c (splitPoint content c))).length ≤ 6000
  omega

theorem limits_kept (content : List Char) : Limits content (keptChunks content) := by
  have hrun := cursors_run content
  have hkept : ∀ k ∈ keptChunks content,
      ∃ c, c < content.length ∧ Long content c ∧ chunkAt content c = k := by
    intro k hk
    obtain ⟨c, hc, rfl⟩ := List.mem_map.mp hk
    obtain ⟨hmem, hlong⟩ := List.mem_filter.mp hc
    exact ⟨c, hrun.lt_length c hmem, of_decide_eq_true hlong, rfl⟩
  constructor
  case cut =>
    intro k hk
    obtain ⟨c, hc, _, rfl⟩ := hkept k hk
    obtain ⟨hlt, hin, _⟩ := splitPoint_bounds hc
    exact ⟨hlt, hin, rfl⟩
  case spaced =>
    unfold keptChunks
    rw [List.pairwise_map]
    exact hrun.spaced.filter _
  case capped =>
    intro k hk
    obtain ⟨c, hc, _, rfl⟩ := hkept k hk
    exact length_chunkAt_le hc
  case filled =>
    intro _ k hk
    obtain ⟨c, _, hlong, rfl⟩ := hkept k hk
    exact hlong

/-- The loop ends within a round for each stride of the text. All its slices, also those that are
dropped, start a stride apart, and the chunks keep within the limits. -/
theorem splitBody_limits (content : List Char) :
    ∃ cs chunks, (∀ fuel, content.length / 1800 < fuel →
        cursorsFrom content fuel 0 = some cs ∧ splitBody content fuel = some chunks) ∧
      cs.Pairwise (fun x y => x + 1800 ≤ y) ∧ Limits content chunks := by
  refine ⟨cursors content, ?_⟩
  by_cases hblank : strip content = []
  · exact ⟨[], fun fuel hfuel => ⟨cursorsFrom_cursors hfuel, splitBody_blank hblank fuel⟩,
      (cursors_run content).spaced, limits_nil content⟩
  · rcases le_or_gt content.length 2000 with hlen | hlen
    · exact ⟨_, fun fuel hfuel => ⟨cursorsFrom_cursors hfuel, splitBody_short hblank hlen fuel⟩,
        (cursors_run content).spaced, limits_short hblank hlen⟩
    · exact ⟨_, fun fuel hfuel => ⟨cursorsFrom_cursors hfuel, splitBody_long hblank hlen hfuel⟩,
        (cursors_run content).spaced, limits_kept content⟩

theorem isChain_iff_neighbours {R : ℕ → ℕ → Prop} {l : List ℕ} (hs : l.Pairwise (· < ·)) :
    l.IsChain R ↔ ∀ x ∈ l, ∀ y ∈ l, x < y → (∀ z ∈ l, ¬ (x < z ∧ z < y)) → R x y := by
  induction l with
  | nil => simp
  | cons a l ih =>
    rw [List.pairwise_cons] at hs
    cases l with
    | nil => simp
    | cons b l =>
      have hab := hs.1 b List.mem_cons_self
      have hb : ∀ z ∈ b :: l, b ≤ z := by
        intro z hz
        rcases List.mem_cons.mp hz with rfl | hz
        · exact le_refl z
        · exact ((List.pairwise_cons.mp hs.2).1 z hz).le
      rw [List.isChain_cons_cons, ih hs.2]
      constructor
      · rintro ⟨hR, hrest⟩ x hx y hy hxy hno
        rcases List.mem_cons.mp hx with rfl | hx
        · rcases List.mem_cons.mp hy with rfl | hy
          · exact absurd hxy (lt_irrefl _)
          · have hby : b = y := by
              by_contra hne
              exact hno b (List.mem_cons_of_mem _ List.mem_cons_self)
                ⟨hab, lt_of_le_of_ne (hb y hy) hne⟩
            exact hby ▸ hR
        · rcases List.mem_cons.mp hy with rfl | hy
          · exact absurd (hs.1 x ‹x ∈ b :: l›) (not_lt.mpr hxy.le)
          · exact hrest x hx y hy hxy fun z hz => hno z (List.mem_cons_of_mem a hz)
      · intro h
        constructor
        · refine h a List.mem_cons_self b (List.mem_cons_of_mem a List.mem_cons_self) hab ?_
          rintro z hz ⟨haz, hzb⟩
          rcases List.mem_cons.mp hz with rfl | hz
          · exact lt_irrefl _ haz
          · exact absurd hzb (not_lt.mpr (hb z hz))
        · intro x hx y hy hxy hno
          refine h x (List.mem_cons_of_mem a hx) y (List.mem_cons_of_mem a hy) hxy ?_
          intro z hz
          rcases List.mem_cons.mp hz with rfl | hz
          · exact fun hb => absurd hb.1 (not_lt.mpr (hs.1 x hx).le)
          · exact hno z hz

def Linked (content : List Char) : Prop :=
  ∀ x ∈ cursors content, ∀ y ∈ cursors content, Long content x → Long content y → x < y →
    Long content (nextCursor content x) ∧ x + 1800 ≤ splitPoint content x

theorem nextCursor_le_splitPoint {c : ℕ} (h : c + 1800 ≤ splitPoint content c) :
    nextCursor content c ≤ splitPoint content c := by
  have := nextCursor_eq content c
  omega

theorem chain_iff_linked (content : List Char) :
    (keptChunks content).IsChain (fun k l => l.start ≤ k.stop) ↔ Linked content := by
  have hrun := cursors_run content
  have hsorted : ((cursors content).filter fun c => Long content c).Pairwise (· < ·) :=
    hrun.sorted.filter _
  unfold keptChunks
  rw [List.isChain_map, isChain_iff_neighbours hsorted]
  simp only [List.mem_filter, decide_eq_true_eq, and_imp]
  constructor
  · intro h x hx y hy hlx hly hxy
    -- the first kept cursor behind `x`
    have hex : ∃ z, (z ∈ cursors content ∧ Long content z) ∧ x < z := ⟨y, ⟨hy, hly⟩, hxy⟩
    obtain ⟨hz, hxz⟩ := Nat.find_spec hex
    have hle : Nat.find hex ≤ splitPoint content x :=
      h x hx hlx (Nat.find hex) hz.1 hz.2 hxz
        fun w hw hlw hbetween => Nat.find_min hex hbetween.2 ⟨⟨hw, hlw⟩, hbetween.1⟩
    rcases hrun.next_or_behind hx hz.1 hxz with heq | hbehind
    · have hnext := nextCursor_eq content x
      rw [heq] at hz hle
      exact ⟨hz.2, by omega⟩
    · exact absurd hle (not_le.mpr hbehind)
  · intro h x hx hlx y hy hly hxy hno
    obtain ⟨hlong, hgap⟩ := h x hx y hy hlx hly hxy
    obtain ⟨hmem, hle, _⟩ := hrun.next_mem hx hy hxy
    have hnext := nextCursor_eq content x
    have heq : nextCursor content x = y := by
      by_contra hne
      exact hno _ hmem hlong ⟨by omega, lt_of_le_of_ne hle hne⟩
    show y ≤ splitPoint content x
    rw [← heq]
    exact nextCursor_le_splitPoint hgap

/-- Every visible character is in a chunk, a chunk starts no later than the one before it ends,
and a text that is not blank has a chunk. -/
def Lossless (content : List Char) : Prop :=
  ∃ chunks, (∀ k, splitBody content (content.length + 1 + k) = some chunks) ∧
    (∀ i, Visible content i → ∃ k ∈ chunks, Covers content k i) ∧
    chunks.IsChain (fun k l => l.start ≤ k.stop) ∧
    ((∃ c ∈ content, isSpace c = false) → chunks ≠ [])

/-- From one cursor to another every slice is long enough, none but the last is cut within a
stride of its cursor, and outside is nothing but white space. -/
def CutCleanly (content : List Char) (a b : ℕ) : Prop :=
  a ≤ b ∧ (∀ c ∈ cursors content, a ≤ c → c ≤ b → Long content c) ∧
    (∀ c ∈ cursors content, a ≤ c → c < b → c + 1800 ≤ splitPoint content c) ∧
    ∀ i, Visible content i → a ≤ i ∧ i < splitPoint content b

theorem kept_covers {i : ℕ} (hi : Visible content i) :
    (∃ k ∈ keptChunks content, Covers content k i) ↔
      ∃ c ∈ cursors content, Long content c ∧ c ≤ i ∧ i < splitPoint content c := by
  unfold keptChunks
  simp only [List.mem_map, List.mem_filter, decide_eq_true_eq]
  constructor
  · rintro ⟨_, ⟨c, ⟨hc, hl⟩, rfl⟩, hcov⟩
    exact ⟨c, hc, hl, (covers_iff (splitPoint_le content c) hi).mp hcov⟩
  · rintro ⟨c, hc, hl, hin⟩
    exact ⟨_, ⟨c, ⟨hc, hl⟩, rfl⟩, (covers_iff (splitPoint_le content c) hi).mpr hin⟩

theorem exists_visible_of_long {c : ℕ} (h : Long content c) :
    ∃ i, Visible content i ∧ c ≤ i ∧ i < splitPoint content c := by
  apply exists_visible
  intro hnil
  unfold Long at h
  rw [hnil] at h
  exact absurd h (by decide)

/-- Chunks that cover and link begin and end at two cursors with a clean cut between. -/
theorem cutCleanly_of_covered (hlink : Linked content) (hex : ∃ i, Visible content i)
    (hcov : ∀ i, Visible content i →
      ∃ c ∈ cursors content, Long content c ∧ c ≤ i ∧ i < splitPoint content c) :
    ∃ a ∈ cursors content, ∃ b ∈ cursors content, CutCleanly content a b := by
  have hrun := cursors_run content
  obtain ⟨i₀, hi₀⟩ := hex
  obtain ⟨c₀, hc₀, hl₀, _⟩ := hcov i₀ hi₀
  have hne : ((cursors content).filter fun c => Long content c).toFinset.Nonempty :=
    ⟨c₀, List.mem_toFinset.mpr (List.mem_filter.mpr ⟨hc₀, decide_eq_true hl₀⟩)⟩
  obtain ⟨a, ha, hmin⟩ := Finset.exists_min_image _ id hne
  obtain ⟨b, hb, hmax⟩ := Finset.exists_max_image _ id hne
  simp only [List.mem_toFinset, List.mem_filter, decide_eq_true_eq, id, and_imp] at ha hb hmin hmax
  have hlong : ∀ n, ∀ c ∈ cursors content, c ≤ n → a ≤ c → c ≤ b → Long content c := by
    intro n
    induction n with
    | zero =>
      intro c _ hcn hac _
      have hca : c = a := by omega
      exact hca ▸ ha.2
    | succ n ih =>
      intro c hc hcn hac hcb
      rcases hac.eq_or_lt with rfl | hlt
      · exact ha.2
      · obtain ⟨y, hy, rfl, _⟩ := hrun.pred hc (by omega)
        have hnext := nextCursor_eq content y
        have hay : a ≤ y := by
          by_contra hya
          have := (hrun.next_mem hy ha.1 (not_le.mp hya)).2.1
          omega
        have hly := ih y hy (by omega) hay (by omega)
        exact (hlink y hy b hb.1 hly hb.2 (by omega)).1
  refine ⟨a, ha.1, b, hb.1, hmin b hb.1 hb.2, fun c hc => hlong c c hc (le_refl c), ?_, ?_⟩
  · intro c hc hac hcb
    exact (hlink c hc b hb.1 (hlong c c hc (le_refl c) hac hcb.le) hb.2 hcb).2
  · intro i hi
    obtain ⟨c, hc, hl, hci, hic⟩ := hcov i hi
    exact ⟨(hmin c hc hl).trans hci,
      lt_of_lt_of_le hic (hrun.splitPoint_mono hc hb.1 (hmax c hc hl))⟩

theorem covered_of_cutCleanly {a b : ℕ} (ha : a ∈ cursors content) (hb : b ∈ cursors content)
    (h : CutCleanly content a b) {i : ℕ} (hi : Visible content i) :
    ∃ c ∈ cursors content, Long content c ∧ c ≤ i ∧ i < splitPoint content c := by
  obtain ⟨hab, hlong, hgap, hin⟩ := h
  have hrun := cursors_run content
  have hwalk : ∀ d, ∀ c ∈ cursors content, a ≤ c → c ≤ b → b - c ≤ d → c ≤ i →
      ∃ c ∈ cursors content, Long content c ∧ c ≤ i ∧ i < splitPoint content c := by
    intro d
    induction d with
    | zero =>
      intro c hc hac hcb hd hci
      have hcb' : c = b := by omega
      exact ⟨c, hc, hlong c hc hac hcb, hci, hcb' ▸ (hin i hi).2⟩
    | succ d ih =>
      intro c hc hac hcb hd hci
      by_cases hic : i < splitPoint content c
      · exact ⟨c, hc, hlong c hc hac hcb, hci, hic⟩
      · have hlt : c < b := by
          rcases hcb.eq_or_lt with rfl | hlt
          · exact absurd (hin i hi).2 hic
          · exact hlt
        obtain ⟨hmem, hle, _⟩ := hrun.next_mem hc hb hlt
        have hnext := nextCursor_eq content c
        have hcut := nextCursor_le_splitPoint (hgap c hc hac hlt)
        exact ih _ hmem (by omega) hle (by omega) (by omega)
  exact hwalk (b - a) a ha (le_refl a) hab (le_refl _) (hin i hi).1

theorem linked_of_cutCleanly {a b : ℕ} (ha : a ∈ cursors content) (hb : b ∈ cursors content)
    (h : CutCleanly content a b) : Linked content := by
  obtain ⟨hab, hlong, hgap, hin⟩ := h
  have hrun := cursors_run content
  intro x hx y hy hlx hly hxy
  obtain ⟨i, hi, hxi, hix⟩ := exists_visible_of_long hlx
  obtain ⟨j, hj, hyj, hjy⟩ := exists_visible_of_long hly
  have hgapOf : ∀ {x : ℕ}, nextCursor content x ≤ splitPoint content x →
      x + 1800 ≤ splitPoint content x := by
    intro x hle
    have := nextCursor_eq content x
    omega
  rcases lt_trichotomy x b with hxb | rfl | hbx
  · rcases lt_or_ge x a with hxa | hax
    · -- the visible text of `x` begins at `a` or later, so `a` is the next cursor
      rcases hrun.next_or_behind hx ha hxa with heq | hbehind
      · rw [← heq]
        refine ⟨hlong a ha (le_refl a) hab, hgapOf ?_⟩
        rw [← heq]
        exact (lt_of_le_of_lt (hin i hi).1 hix).le
      · exact absurd (lt_of_le_of_lt (hin i hi).1 hix) (not_lt.mpr hbehind.le)
    · obtain ⟨hmem, hle, _⟩ := hrun.next_mem hx hb hxb
      have hnext := nextCursor_eq content x
      exact ⟨hlong _ hmem (by omega) hle, hgap x hx hax hxb⟩
  · rcases hrun.next_or_behind hx hy hxy with heq | hbehind
    · rw [← heq]
      refine ⟨hly, hgapOf ?_⟩
      rw [← heq]
      exact (lt_of_le_of_lt hyj (hin j hj).2).le
    · exact absurd (lt_of_le_of_lt hyj (hin j hj).2) (not_lt.mpr hbehind.le)
  · -- behind `b` only one slice can reach back to visible text
    obtain ⟨_, hle, _⟩ := hrun.next_mem hb hx hbx
    have hjb := (hin j hj).2
    rcases hrun.next_or_behind hb hy (hbx.trans hxy) with heq | hbehind
    · omega
    · omega

theorem exists_visible_of_strip (h : strip content ≠ []) : ∃ i, Visible content i := by
  rw [visible_iff_mem]
  rw [Ne, strip_eq_nil_iff] at h
  push Not at h
  obtain ⟨c, hc, hspace⟩ := h
  exact ⟨c, hc, Bool.eq_false_iff.mpr hspace⟩

theorem lossless_blank (h : strip content = []) : Lossless content := by
  have hnone : ∀ i, ¬ Visible content i := by
    intro i hi
    obtain ⟨c, hc, hspace⟩ := visible_iff_mem.mp ⟨i, hi⟩
    rw [strip_eq_nil_iff.mp h c hc] at hspace
    cases hspace
  refine ⟨[], fun k => splitBody_blank h _, ?_, List.IsChain.nil, ?_⟩
  · exact fun i hi => absurd hi (hnone i)
  · exact fun hc => absurd (visible_iff_mem.mpr hc) (not_exists.mpr hnone)

theorem lossless_short (h : strip content ≠ []) (hlen : content.length ≤ 2000) :
    Lossless content := by
  refine ⟨[⟨0, content.length, strip content⟩], fun k => splitBody_short h hlen _, ?_,
    List.isChain_singleton _, fun _ => List.cons_ne_nil _ _⟩
  intro i hi
  have hcov := (@covers_iff content 0 content.length i (le_refl content.length) hi).mpr
  rw [slice_all] at hcov
  obtain ⟨c, hc, _⟩ := hi
  exact ⟨_, List.mem_singleton.mpr rfl, hcov ⟨Nat.zero_le i, (List.getElem?_eq_some_iff.mp hc).1⟩⟩

theorem lossless_long_iff (h : strip content ≠ []) (hlen : 2000 < content.length) :
    Lossless content ↔ ∃ a ∈ cursors content, ∃ b ∈ cursors content, CutCleanly content a b := by
  have hvis := exists_visible_of_strip h
  have hsplit : ∀ k, splitBody content (content.length + 1 + k) = some (keptChunks content) :=
    fun k => splitBody_long h hlen (by omega)
  constructor
  · rintro ⟨chunks, hchunks, hcov, hchain, _⟩
    have hkept : chunks = keptChunks content :=
      Option.some.inj ((hchunks 0).symm.trans (hsplit 0))
    rw [hkept, chain_iff_linked] at hchain
    exact cutCleanly_of_covered hchain hvis fun i hi => (kept_covers hi).mp (hkept ▸ hcov i hi)
  · rintro ⟨a, ha, b, hb, hcut⟩
    have hcov : ∀ i, Visible content i → ∃ k ∈ keptChunks content, Covers content k i :=
      fun i hi => (kept_covers hi).mpr (covered_of_cutCleanly ha hb hcut hi)
    refine ⟨keptChunks content, hsplit, hcov,
      (chain_iff_linked content).mpr (linked_of_cutCleanly ha hb hcut), ?_⟩
    obtain ⟨i, hi⟩ := hvis
    obtain ⟨k, hk, _⟩ := hcov i hi
    exact fun _ => List.ne_nil_of_mem hk

/-- Nothing is lost of a text exactly when it is short or blank, or is cut cleanly. -/
theorem lossless_iff (content : List Char) :
    Lossless content ↔ content.length ≤ 2000 ∨ strip content = [] ∨
      ∃ a ∈ cursors content, ∃ b ∈ cursors content, CutCleanly content a b := by
  by_cases hblank : strip content = []
  · exact iff_of_true (lossless_blank hblank) (Or.inr (Or.inl hblank))
  · rcases le_or_gt content.length 2000 with hlen | hlen
    · exact iff_of_true (lossless_short hblank hlen) (Or.inl hlen)
    · rw [lossless_long_iff hblank hlen, or_iff_right (not_le.mpr hlen), or_iff_right hblank]

def earlyBreak : List Char :=
  List.replicate 1650 'a' ++ ['\n', '\n'] ++ List.replicate 600 'b'

/-- The first slice ends at 1652 and the second one begins a stride after the first, at 1800. -/
theorem earlyBreak_loses_text : ¬ Lossless earlyBreak := by
  rintro ⟨chunks, hchunks, hcov, _⟩
  have hrun : (splitBody earlyBreak (earlyBreak.length + 1 + 0)).map
      (fun chunks => chunks.all fun k => decide (¬ Covers earlyBreak k 1700)) = some true := by
    decide +kernel
  have hvis : Visible earlyBreak 1700 := ⟨'b', by decide +kernel, by decide⟩
  rw [hchunks 0, Option.map_some, Option.some.injEq, List.all_eq_true] at hrun
  obtain ⟨k, hk, hcov⟩ := hcov 1700 hvis
  exact of_decide_eq_true (hrun k hk) hcov

end KbChunker
