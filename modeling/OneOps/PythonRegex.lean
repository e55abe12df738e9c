import Mathlib.Data.List.Basic
import Mathlib.Tactic.Common

/-! A fragment of Python's `re`: character classes, sequences, greedy bounded repetition
and word boundaries, matched by backtracking. The matches of a pattern at a position are
listed in the order in which backtracking finds them. Patterns whose matches are never
empty are meant: an empty match counts as none. -/
namespace PythonRegex

inductive Regex where
  | chr (p : Char → Bool)
  | seq (a b : Regex)
  | rep (lo : ℕ) (hi : Option ℕ) (r : Regex)
  | boundary

/-- A position in the text: the character before it and what follows. -/
structure Cursor where
  prev : Option Char
  rest : List Char

def times (f : Cursor → List Cursor) : ℕ → Cursor → List Cursor
  | 0, c => [c]
  | n + 1, c => (f c).flatMap (times f n)

/-- Up to `n` iterations, more before fewer. -/
def upTo (f : Cursor → List Cursor) : ℕ → Cursor → List Cursor
  | 0, c => [c]
  | n + 1, c => (f c).flatMap (upTo f n) ++ [c]

section Matching

variable (word : Char → Bool)

def atBoundary (c : Cursor) : Bool := c.prev.any word != c.rest.head?.any word

def ends : Regex → Cursor → List Cursor
  | .chr p, c =>
    match c.rest with
    | [] => []
    | x :: xs => if p x then [⟨some x, xs⟩] else []
  | .seq a b, c => (ends a c).flatMap (ends b)
  | .rep lo hi r, c =>
    (times (ends r) lo c).flatMap fun d =>
      upTo (ends r) ((hi.map (· - lo)).getD d.rest.length) d
  | .boundary, c => if atBoundary word c then [c] else []

def matchLength (r : Regex) (c : Cursor) : Option ℕ :=
  ((ends word r c).head?.map fun e => c.rest.length - e.rest.length).filter (0 < ·)

def searchFrom (r : Regex) : Option Char → List Char → Bool
  | _, [] => false
  | prev, x :: xs => (matchLength word r ⟨prev, x :: xs⟩).isSome || searchFrom r (some x) xs

def search (r : Regex) (text : List Char) : Bool := searchFrom word r none text

/-- The text cut at the leftmost matches that do not overlap: single characters and
matches. `skip` characters still belong to the last match. -/
def segments (r : Regex) : ℕ → Option Char → List Char → List (Char ⊕ List Char)
  | _, _, [] => []
  | skip + 1, _, x :: xs => segments r skip (some x) xs
  | 0, prev, x :: xs =>
    match matchLength word r ⟨prev, x :: xs⟩ with
    | some (n + 1) => .inr (x :: xs.take n) :: segments r n (some x) xs
    | _ => .inl x :: segments r 0 (some x) xs

def finditer (r : Regex) (text : List Char) : List (List Char) :=
  (segments word r 0 none text).filterMap Sum.getRight?

def finditerRest (r : Regex) (text : List Char) : List (List Char × List Char) :=
  (segments word r 0 none text).tails.filterMap fun
    | .inr w :: later => some (w, later.flatMap fun
      | .inl c => [c]
      | .inr v => v)
    | _ => none

def sub (r : Regex) (f : List Char → List Char) (text : List Char) : List Char :=
  (segments word r 0 none text).flatMap fun
    | .inl c => [c]
    | .inr w => f w

end Matching

variable {word : Char → Bool} {r : Regex}

theorem flatMap_segments : ∀ (text : List Char) (skip : ℕ) (prev : Option Char),
    ((segments word r skip prev text).flatMap fun
      | .inl c => [c]
      | .inr w => w) = text.drop skip := by
  intro text
  induction text with
  | nil =>
    intro skip prev
    simp [segments]
  | cons x xs ih =>
    intro skip prev
    cases skip with
    | succ skip =>
      rw [segments, List.drop_succ_cons]
      exact ih skip (some x)
    | zero =>
      rw [segments]
      split
      · rename_i n _
        rw [List.flatMap_cons, ih n (some x), List.drop_zero, List.cons_append,
          List.take_append_drop]
      · rw [List.flatMap_cons, ih 0 (some x)]
        rfl

/-- A substitution that leaves every match as it is leaves the text as it is. -/
theorem sub_eq_self {f : List Char → List Char} {text : List Char}
    (h : ∀ w ∈ finditer word r text, f w = w) : sub word r f text = text := by
  have hsame : sub word r f text = (segments word r 0 none text).flatMap fun
      | .inl c => [c]
      | .inr w => w := by
    unfold sub
    refine List.flatMap_congr fun seg hseg => ?_
    cases seg with
    | inl c => rfl
    | inr w => exact h w (List.mem_filterMap.mpr ⟨.inr w, hseg, rfl⟩)
  rw [hsame, flatMap_segments, List.drop_zero]

section Runs

variable {p : Char → Bool}

def Cursor.after (prev : Option Char) (run rest : List Char) : Cursor :=
  ⟨run.foldl (fun _ x => some x) prev, rest⟩

theorem ends_chr_nil {prev : Option Char} {rest : List Char} (h : ¬rest.head?.any p) :
    ends word (.chr p) ⟨prev, rest⟩ = [] := by
  cases rest with
  | nil => rfl
  | cons x xs =>
    have hx : p x = false := by simpa using h
    simp [ends, hx]

theorem ends_chr_cons {prev : Option Char} {x : Char} {xs : List Char} (h : p x) :
    ends word (.chr p) ⟨prev, x :: xs⟩ = [⟨some x, xs⟩] := by
  simp [ends, h]

theorem times_chr {run rest : List Char} (hrun : ∀ x ∈ run, p x) (hrest : ¬rest.head?.any p) :
    ∀ (lo : ℕ) (prev : Option Char),
      times (ends word (.chr p)) lo ⟨prev, run ++ rest⟩ =
        if lo ≤ run.length then [Cursor.after prev (run.take lo) (run.drop lo ++ rest)]
        else [] := by
  induction run with
  | nil =>
    intro lo prev
    cases lo with
    | zero => rfl
    | succ lo => simp [times, ends_chr_nil hrest]
  | cons x run ih =>
    intro lo prev
    cases lo with
    | zero => rfl
    | succ lo =>
      have hx : p x := hrun x (by simp)
      rw [times, List.cons_append, ends_chr_cons hx, List.flatMap_singleton,
        ih (fun y hy => hrun y (by simp [hy]))]
      simp [Cursor.after]

/-- What cannot start within the class is reached behind the whole run only. -/
theorem flatMap_upTo_chr {g : Cursor → List Cursor}
    (hg : ∀ prev x xs, p x → g ⟨prev, x :: xs⟩ = []) {run rest : List Char}
    (hrun : ∀ x ∈ run, p x) (hrest : ¬rest.head?.any p) :
    ∀ (n : ℕ) (prev : Option Char),
      (upTo (ends word (.chr p)) n ⟨prev, run ++ rest⟩).flatMap g =
        if run.length ≤ n then g (Cursor.after prev run rest) else [] := by
  induction run with
  | nil =>
    intro n prev
    cases n with
    | zero => simp [upTo, Cursor.after]
    | succ n => simp [upTo, Cursor.after, ends_chr_nil hrest]
  | cons x run ih =>
    intro n prev
    have hx : p x := hrun x (by simp)
    cases n with
    | zero => simp [upTo, hg prev x (run ++ rest) hx]
    | succ n =>
      rw [upTo, List.cons_append, ends_chr_cons hx, List.flatMap_singleton, List.flatMap_append,
        List.flatMap_singleton, hg prev x _ hx, List.append_nil,
        ih (fun y hy => hrun y (by simp [hy]))]
      simp [Cursor.after]

theorem ends_seq_rep_chr {lo : ℕ} {hi : Option ℕ} (hbounds : ∀ h ∈ hi, lo ≤ h) {b : Regex}
    (hb : ∀ prev x xs, p x → ends word b ⟨prev, x :: xs⟩ = []) {prev : Option Char}
    {run rest : List Char} (hrun : ∀ x ∈ run, p x) (hrest : ¬rest.head?.any p) :
    ends word (.seq (.rep lo hi (.chr p)) b) ⟨prev, run ++ rest⟩ =
      if lo ≤ run.length ∧ ∀ h ∈ hi, run.length ≤ h then ends word b (Cursor.after prev run rest)
      else [] := by
  rw [ends, ends, times_chr hrun hrest]
  by_cases hlo : lo ≤ run.length
  · have hdrop : ∀ x ∈ run.drop lo, p x := fun x hx => hrun x (List.mem_of_mem_drop hx)
    have hwhole : Cursor.after (run.take lo |>.foldl (fun _ x => some x) prev) (run.drop lo) rest =
        Cursor.after prev run rest := by
      rw [Cursor.after, ← List.foldl_append, List.take_append_drop, Cursor.after]
    rw [if_pos hlo, List.flatMap_singleton, Cursor.after, flatMap_upTo_chr hb hdrop hrest, hwhole,
      List.length_drop]
    cases hi with
    | none => simp [hlo]
    | some h =>
      have hlh := hbounds h rfl
      have hiff : run.length - lo ≤ h - lo ↔ run.length ≤ h := by omega
      simp [hlo, hiff]
  · rw [if_neg hlo, if_neg (by simp [hlo])]
    rfl

theorem head?_upTo_chr {run rest : List Char} (hrun : ∀ x ∈ run, p x)
    (hrest : ¬rest.head?.any p) : ∀ (n : ℕ) (prev : Option Char), run.length ≤ n →
      (upTo (ends word (.chr p)) n ⟨prev, run ++ rest⟩).head? =
        some (Cursor.after prev run rest) := by
  induction run with
  | nil =>
    intro n prev _
    cases n with
    | zero => rfl
    | succ n => simp [upTo, Cursor.after, ends_chr_nil hrest]
  | cons x run ih =>
    intro n prev hn
    cases n with
    | zero => simp at hn
    | succ n =>
      have htail := ih (fun y hy => hrun y (by simp [hy])) n (some x) (by simpa using hn)
      rw [upTo, List.cons_append, ends_chr_cons (hrun x (by simp)), List.flatMap_singleton,
        List.head?_append, htail]
      rfl

theorem head?_ends_rep_chr {prev : Option Char} {run rest : List Char} (hrun : ∀ x ∈ run, p x)
    (hrest : ¬rest.head?.any p) :
    (ends word (.rep 0 none (.chr p)) ⟨prev, run ++ rest⟩).head? =
      some (Cursor.after prev run rest) := by
  rw [ends, times, List.flatMap_singleton]
  exact head?_upTo_chr hrun hrest _ prev (by simp)

end Runs

def LooksAhead (word : Char → Bool) (r : Regex) : Prop :=
  ∀ prev text, matchLength word r ⟨prev, text⟩ = matchLength word r ⟨none, text⟩

theorem segments_drop (h : LooksAhead word r) : ∀ (text : List Char) (skip : ℕ)
    (prev : Option Char), segments word r skip prev text =
      segments word r 0 none (text.drop skip) := by
  intro text
  induction text with
  | nil =>
    intro skip prev
    simp [segments]
  | cons x xs ih =>
    intro skip prev
    cases skip with
    | succ skip => rw [segments, ih, List.drop_succ_cons]
    | zero => rw [List.drop_zero, segments, segments, h prev]

theorem finditer_nil : finditer word r [] = [] := rfl

theorem finditer_cons_none {x : Char} {xs : List Char} (h : LooksAhead word r)
    (hm : matchLength word r ⟨none, x :: xs⟩ = none) :
    finditer word r (x :: xs) = finditer word r xs := by
  rw [finditer, segments, hm]
  dsimp only
  rw [segments_drop h, List.drop_zero]
  rfl

theorem finditer_match {w rest : List Char} (h : LooksAhead word r) (hw : w ≠ [])
    (hm : matchLength word r ⟨none, w ++ rest⟩ = some w.length) :
    finditer word r (w ++ rest) = w :: finditer word r rest := by
  obtain ⟨x, xs, rfl⟩ := List.exists_cons_of_ne_nil hw
  rw [List.length_cons] at hm
  rw [finditer, List.cons_append, segments, ← List.cons_append, hm]
  dsimp only
  rw [segments_drop h, List.drop_left, List.take_left]
  rfl

end PythonRegex
