import Mathlib.Data.List.Forall2
import Mathlib.Data.List.TakeWhile
import Mathlib.Data.Nat.Notation
import Mathlib.Tactic.Common

/-! SQL text with numbered parameters. A condition is a text, or a text around the place of a
value; a builder collects the texts of the conditions and the values side by side. -/
namespace SqlParameters

variable {α : Type}

/-- The numbers that follow a dollar sign, from left to right. -/
def placeholders : List Char → List ℕ
  | [] => []
  | c :: cs =>
    if c = '$' ∧ cs.takeWhile Char.isDigit ≠ [] then
      Nat.ofDigitChars 10 (cs.takeWhile Char.isDigit) 0 :: placeholders cs
    else placeholders cs

def param (n : ℕ) : String := "$" ++ toString n

def Plain (s : String) : Prop := '$' ∉ s.toList

def Ends (cs : List Char) : Prop := cs.head?.any Char.isDigit = false

instance (s : String) : Decidable (Plain s) := inferInstanceAs (Decidable (¬ _))

instance (cs : List Char) : Decidable (Ends cs) := inferInstanceAs (Decidable (_ = false))

theorem placeholders_eq_nil {cs : List Char} (h : '$' ∉ cs) : placeholders cs = [] := by
  induction cs with
  | nil => rfl
  | cons c cs ih =>
    rw [List.mem_cons, not_or] at h
    rw [placeholders, if_neg fun hc => h.1 hc.1.symm, ih h.2]

theorem ends_append {xs ys : List Char} (h : Ends xs) (hne : xs ≠ []) : Ends (xs ++ ys) := by
  obtain ⟨x, xs', rfl⟩ := List.exists_cons_of_ne_nil hne
  exact h

theorem takeWhile_ends {xs ys : List Char} (h : Ends ys) :
    (xs ++ ys).takeWhile Char.isDigit = xs.takeWhile Char.isDigit := by
  have hys : ys.takeWhile Char.isDigit = [] := by
    cases ys with
    | nil => rfl
    | cons y ys =>
      have hy : y.isDigit = false := h
      rw [List.takeWhile_cons, hy]
      rfl
  induction xs with
  | nil => exact hys
  | cons x xs ih => rw [List.cons_append, List.takeWhile_cons, List.takeWhile_cons, ih]

theorem placeholders_append {xs ys : List Char} (h : Ends ys) :
    placeholders (xs ++ ys) = placeholders xs ++ placeholders ys := by
  induction xs with
  | nil => rfl
  | cons x xs ih =>
    rw [List.cons_append, placeholders, placeholders, takeWhile_ends h, ih]
    split_ifs
    · rfl
    · rfl

theorem placeholders_plain_append {xs ys : List Char} (h : '$' ∉ xs) :
    placeholders (xs ++ ys) = placeholders ys := by
  induction xs with
  | nil => rfl
  | cons x xs ih =>
    rw [List.mem_cons, not_or] at h
    rw [List.cons_append, placeholders, if_neg fun hc => h.1 hc.1.symm, ih h.2]

theorem toList_param (n : ℕ) : (param n).toList = '$' :: Nat.toDigits 10 n := by
  simp [param, Nat.repr]

theorem placeholders_param (n : ℕ) : placeholders (param n).toList = [n] := by
  have hdigit : ∀ c ∈ Nat.toDigits 10 n, c.isDigit :=
    fun c hc => Nat.isDigit_of_mem_toDigits (by decide) (by decide) hc
  have hne : Nat.toDigits 10 n ≠ [] := List.length_pos_iff.mp Nat.length_toDigits_pos
  have hnone : '$' ∉ Nat.toDigits 10 n := fun hc => absurd (hdigit _ hc) (by decide)
  have hwhole : (Nat.toDigits 10 n).takeWhile Char.isDigit = Nat.toDigits 10 n :=
    List.takeWhile_eq_self_iff.mpr hdigit
  rw [toList_param, placeholders, hwhole, if_pos ⟨rfl, hne⟩, placeholders_eq_nil hnone,
    Nat.ofDigitChars_ten_toDigits]

/-- The text of a condition around a parameter mentions that parameter only. -/
theorem placeholders_bound {before after : String} {n : ℕ} (hb : Plain before)
    (ha : Plain after) (he : Ends after.toList) :
    placeholders (before ++ param n ++ after).toList = [n] := by
  rw [String.toList_append, String.toList_append, placeholders_append he,
    placeholders_plain_append hb, placeholders_param, placeholders_eq_nil ha]
  rfl

theorem mem_placeholders_intercalate {sep : String} {conditions : List String} {n : ℕ}
    (hp : Plain sep) (hs : sep.toList ≠ []) (he : Ends sep.toList) :
    n ∈ placeholders (sep.intercalate conditions).toList ↔
      ∃ c ∈ conditions, n ∈ placeholders c.toList := by
  induction conditions with
  | nil => simp [placeholders]
  | cons c rest ih =>
    cases rest with
    | nil => simp
    | cons d rest =>
      rw [String.intercalate_cons_cons, String.toList_append, String.toList_append,
        List.append_assoc, placeholders_append (ends_append he hs), placeholders_plain_append hp,
        List.mem_append, ih, List.exists_mem_cons_iff _ c (d :: rest)]

inductive Clause (α : Type) where
  | text (s : String)
  | bound (before : String) (value : α) (after : String)

structure Builder (α : Type) where
  conditions : List String
  params : List α

def Builder.text (b : Builder α) (s : String) : Builder α :=
  { b with conditions := b.conditions ++ [s] }

/-- The value is appended, and the condition refers to its number. -/
def Builder.bind (b : Builder α) (before : String) (value : α) (after : String) : Builder α :=
  let params := b.params ++ [value]
  ⟨b.conditions ++ [before ++ param params.length ++ after], params⟩

def Builder.bindOption (b : Builder α) (before : String) (value : Option α) (after : String) :
    Builder α :=
  match value with
  | some v => b.bind before v after
  | none => b

def boundOption (before : String) (value : Option α) (after : String) : List (Clause α) :=
  match value with
  | some v => [.bound before v after]
  | none => []

/-- A condition says what the clause means under the parameters. -/
def Means (params : List α) : Clause α → String → Prop
  | .text s, condition => condition = s
  | .bound before value after, condition =>
    ∃ n, 1 ≤ n ∧ params[n - 1]? = some value ∧ condition = before ++ param n ++ after

def Covers (conditions : List String) (count : ℕ) : Prop :=
  ∀ n, (∃ c ∈ conditions, n ∈ placeholders c.toList) ↔ 1 ≤ n ∧ n ≤ count

structure Represents (b : Builder α) (clauses : List (Clause α)) : Prop where
  means : List.Forall₂ (Means b.params) clauses b.conditions
  covers : Covers b.conditions b.params.length

theorem means_append {params more : List α} {clause : Clause α} {condition : String}
    (h : Means params clause condition) : Means (params ++ more) clause condition := by
  cases clause with
  | text s => exact h
  | bound before value after =>
    obtain ⟨n, hn, hv, hc⟩ := h
    refine ⟨n, hn, ?_, hc⟩
    obtain ⟨hlt, _⟩ := List.getElem?_eq_some_iff.mp hv
    rw [List.getElem?_append_left hlt, hv]

/-- A condition that mentions only numbers of the parameters already there. -/
theorem Represents.add {b : Builder α} {clauses : List (Clause α)} (h : Represents b clauses)
    {clause : Clause α} {condition : String} (hs : Means b.params clause condition)
    (hn : ∀ n ∈ placeholders condition.toList, 1 ≤ n ∧ n ≤ b.params.length) :
    Represents (b.text condition) (clauses ++ [clause]) where
  means := List.rel_append h.means (List.Forall₂.cons hs List.Forall₂.nil)
  covers n := by
    constructor
    · rintro ⟨c, hc, hnc⟩
      rcases List.mem_append.mp hc with hc | hc
      · exact (h.covers n).mp ⟨c, hc, hnc⟩
      · rw [List.mem_singleton] at hc
        exact hn n (hc ▸ hnc)
    · intro hle
      obtain ⟨c, hc, hnc⟩ := (h.covers n).mpr hle
      exact ⟨c, List.mem_append_left _ hc, hnc⟩

theorem Represents.text {b : Builder α} {clauses : List (Clause α)} (h : Represents b clauses)
    {s : String} (hs : Plain s) : Represents (b.text s) (clauses ++ [.text s]) :=
  h.add rfl fun n hn => by
    rw [placeholders_eq_nil hs] at hn
    cases hn

theorem Represents.bind {b : Builder α} {clauses : List (Clause α)} (h : Represents b clauses)
    {before after : String} {value : α} (hb : Plain before) (ha : Plain after)
    (he : Ends after.toList) :
    Represents (b.bind before value after) (clauses ++ [.bound before value after]) where
  means := by
    refine List.rel_append (h.means.imp fun _ _ => means_append) (List.Forall₂.cons ?_ .nil)
    refine ⟨(b.params ++ [value]).length, ?_, ?_, rfl⟩
    · simp
    · simp
  covers n := by
    have hlen : (b.bind before value after).params.length = b.params.length + 1 := by
      simp [Builder.bind]
    have hnew : placeholders (before ++ param (b.params ++ [value]).length ++ after).toList =
        [b.params.length + 1] := by
      rw [placeholders_bound hb ha he, List.length_append]
      rfl
    rw [hlen]
    constructor
    · rintro ⟨c, hc, hnc⟩
      rcases List.mem_append.mp hc with hc | hc
      · have hold := (h.covers n).mp ⟨c, hc, hnc⟩
        omega
      · rw [List.mem_singleton] at hc
        rw [hc, hnew, List.mem_singleton] at hnc
        omega
    · intro hle
      by_cases hlast : n = b.params.length + 1
      · refine ⟨_, List.mem_append_right _ (List.mem_singleton_self _), ?_⟩
        rw [hnew, hlast]
        exact List.mem_singleton_self _
      · obtain ⟨c, hc, hnc⟩ := (h.covers n).mpr ⟨hle.1, by omega⟩
        exact ⟨c, List.mem_append_left _ hc, hnc⟩

theorem Represents.bindOption {b : Builder α} {clauses : List (Clause α)}
    (h : Represents b clauses) {before after : String} {value : Option α} (hb : Plain before)
    (ha : Plain after) (he : Ends after.toList) :
    Represents (b.bindOption before value after) (clauses ++ boundOption before value after) := by
  cases value with
  | none =>
    unfold Builder.bindOption boundOption
    rw [List.append_nil]
    exact h
  | some v => exact h.bind hb ha he

/-- Every clause has its condition. -/
theorem Represents.condition {b : Builder α} {clauses : List (Clause α)} (h : Represents b clauses)
    {clause : Clause α} (hc : clause ∈ clauses) :
    ∃ condition ∈ b.conditions, Means b.params clause condition := by
  obtain ⟨i, hi, rfl⟩ := List.getElem_of_mem hc
  have hlen := h.means.length_eq
  exact ⟨b.conditions[i], List.getElem_mem _, h.means.get hi (hlen ▸ hi)⟩

end SqlParameters
