import Mathlib.Computability.Language
import OneOps.PythonRegex

/-! What backtracking finds is what the language of a pattern allows: a pattern without
boundaries matches the words of a regular language wherever they stand, and one with a
boundary at either end matches those whose ends are boundaries. The cut of a text into
matches and single characters is the only one that says at each place what is found there. -/
namespace RegexLanguage

open PythonRegex

def Plain : Regex → Prop
  | .chr _ => True
  | .seq a b => Plain a ∧ Plain b
  | .rep lo hi r => (∀ h ∈ hi, lo ≤ h) ∧ Plain r
  | .boundary => False

def lang : Regex → Language Char
  | .chr p => {m | ∃ x, m = [x] ∧ p x}
  | .seq a b => lang a * lang b
  | .rep lo hi r => {m | ∃ k, lo ≤ k ∧ (∀ h ∈ hi, k ≤ h) ∧ m ∈ lang r ^ k}
  | .boundary => 0

def Speaks (f : Cursor → List Cursor) (L : Language Char) : Prop :=
  ∀ c e, e ∈ f c ↔ ∃ m b, c.rest = m ++ b ∧ m ∈ L ∧ e = Cursor.after c.prev m b

variable {f g : Cursor → List Cursor} {L M : Language Char}

theorem after_append (prev : Option Char) (u v b : List Char) :
    Cursor.after (Cursor.after prev u (v ++ b)).prev v b = Cursor.after prev (u ++ v) b := by
  simp [Cursor.after]

theorem Speaks.seq (hf : Speaks f L) (hg : Speaks g M) :
    Speaks (fun c => (f c).flatMap g) (L * M) := by
  intro c e
  rw [List.mem_flatMap]
  constructor
  · rintro ⟨d, hd, he⟩
    obtain ⟨u, rest, hc, hu, rfl⟩ := (hf c d).mp hd
    obtain ⟨v, b, hrest, hv, rfl⟩ := (hg _ e).mp he
    have hrest : rest = v ++ b := hrest
    refine ⟨u ++ v, b, ?_, Language.append_mem_mul hu hv, ?_⟩
    · rw [hc, hrest, List.append_assoc]
    · rw [hrest, after_append]
  · rintro ⟨m, b, hc, hm, rfl⟩
    obtain ⟨u, hu, v, hv, rfl⟩ := Language.mem_mul.mp hm
    rw [List.append_assoc] at hc
    exact ⟨_, (hf c _).mpr ⟨u, v ++ b, hc, hu, rfl⟩,
      (hg _ _).mpr ⟨v, b, rfl, hv, (after_append _ _ _ _).symm⟩⟩

theorem Speaks.times (hf : Speaks f L) : ∀ n, Speaks (times f n) (L ^ n)
  | 0 => by
    intro c e
    simp only [PythonRegex.times, List.mem_singleton, pow_zero, Language.mem_one]
    constructor
    · rintro rfl
      exact ⟨[], e.rest, rfl, rfl, rfl⟩
    · rintro ⟨m, b, hc, rfl, rfl⟩
      rw [Cursor.after, ← List.nil_append b, ← hc]
      rfl
  | n + 1 => by
    rw [pow_succ']
    exact hf.seq (Speaks.times hf n)

theorem mem_upTo (hf : Speaks f L) : ∀ (n : ℕ) (c e : Cursor),
    e ∈ upTo f n c ↔ ∃ k ≤ n, ∃ m b, c.rest = m ++ b ∧ m ∈ L ^ k ∧ e = Cursor.after c.prev m b := by
  have hzero : ∀ c e : Cursor, e = c ↔
      ∃ m b, c.rest = m ++ b ∧ m ∈ L ^ 0 ∧ e = Cursor.after c.prev m b := by
    intro c e
    have := hf.times 0 c e
    rwa [PythonRegex.times, List.mem_singleton] at this
  intro n
  induction n with
  | zero =>
    intro c e
    rw [upTo, List.mem_singleton, hzero c e]
    simp
  | succ n ih =>
    intro c e
    rw [upTo, List.mem_append, List.mem_singleton, List.mem_flatMap, hzero c e]
    constructor
    · rintro (⟨d, hd, he⟩ | h)
      · obtain ⟨u, rest, hc, hu, rfl⟩ := (hf c d).mp hd
        obtain ⟨k, hk, v, b, hrest, hv, rfl⟩ := (ih _ e).mp he
        have hrest : rest = v ++ b := hrest
        refine ⟨k + 1, by omega, u ++ v, b, by rw [hc, hrest, List.append_assoc], ?_, ?_⟩
        · rw [pow_succ']
          exact Language.append_mem_mul hu hv
        · rw [hrest, after_append]
      · exact ⟨0, Nat.zero_le _, h⟩
    · rintro ⟨k, hk, m, b, hc, hm, rfl⟩
      cases k with
      | zero => exact .inr ⟨m, b, hc, hm, rfl⟩
      | succ k =>
        rw [pow_succ'] at hm
        obtain ⟨u, hu, v, hv, rfl⟩ := Language.mem_mul.mp hm
        rw [List.append_assoc] at hc
        exact .inl ⟨_, (hf c _).mpr ⟨u, v ++ b, hc, hu, rfl⟩, (ih _ _).mpr
          ⟨k, by omega, v, b, rfl, hv, (after_append _ _ _ _).symm⟩⟩

/-- Empty factors can be left out. -/
theorem mem_pow_short {m : List Char} {k : ℕ} (h : m ∈ L ^ k) :
    ∃ j ≤ k, j ≤ m.length ∧ m ∈ L ^ j := by
  induction k generalizing m with
  | zero => exact ⟨0, le_rfl, Nat.zero_le _, h⟩
  | succ k ih =>
    rw [pow_succ'] at h
    obtain ⟨u, hu, v, hv, rfl⟩ := Language.mem_mul.mp h
    obtain ⟨j, hjk, hj, hmem⟩ := ih hv
    by_cases hnil : u = []
    · rw [hnil, List.nil_append]
      exact ⟨j, by omega, hj, hmem⟩
    · have hpos := List.length_pos_iff.mpr hnil
      refine ⟨j + 1, by omega, by rw [List.length_append]; omega, ?_⟩
      rw [pow_succ']
      exact Language.append_mem_mul hu hmem

variable {word : Char → Bool}

/-- The words of a repeated class. -/
theorem mem_chr_pow {p : Char → Bool} {k : ℕ} {m : List Char} :
    m ∈ lang (.chr p) ^ k ↔ m.length = k ∧ ∀ c ∈ m, p c := by
  induction k generalizing m with
  | zero =>
    rw [pow_zero, Language.mem_one]
    constructor
    · rintro rfl
      exact ⟨rfl, nofun⟩
    · rintro ⟨h, -⟩
      exact List.length_eq_zero_iff.mp h
  | succ k ih =>
    rw [pow_succ', Language.mem_mul]
    constructor
    · rintro ⟨a, ⟨x, rfl, hx⟩, b, hb, rfl⟩
      obtain ⟨rfl, hall⟩ := ih.mp hb
      refine ⟨by simp, fun c hc => ?_⟩
      rcases List.mem_cons.mp hc with rfl | hc
      · exact hx
      · exact hall c hc
    · rintro ⟨hlen, hall⟩
      cases m with
      | nil => cases hlen
      | cons x m =>
        refine ⟨[x], ⟨x, rfl, hall x List.mem_cons_self⟩, m, ih.mpr ⟨Nat.succ.inj hlen, ?_⟩, rfl⟩
        exact fun c hc => hall c (List.mem_cons_of_mem x hc)

theorem speaks_chr (p : Char → Bool) : Speaks (ends word (.chr p)) (lang (.chr p)) := by
  rintro ⟨prev, rest⟩ e
  cases rest with
  | nil =>
    refine iff_of_false (by simp [ends]) ?_
    rintro ⟨m, b, hc, ⟨x, rfl, -⟩, -⟩
    cases hc
  | cons x xs =>
    rw [ends]
    constructor
    · intro h
      by_cases hx : p x
      · simp only [hx, if_true, List.mem_singleton] at h
        exact ⟨[x], xs, rfl, ⟨x, rfl, hx⟩, h⟩
      · simp [hx] at h
    · rintro ⟨m, b, hc, ⟨y, rfl, hy⟩, rfl⟩
      obtain ⟨rfl, rfl⟩ := List.cons.inj hc
      simp [hy, Cursor.after]

theorem speaks_rep {lo : ℕ} {hi : Option ℕ} {r : Regex} (hbounds : ∀ h ∈ hi, lo ≤ h)
    (hr : Speaks (ends word r) (lang r)) :
    Speaks (ends word (.rep lo hi r)) (lang (.rep lo hi r)) := by
  intro c e
  rw [ends, List.mem_flatMap]
  constructor
  · rintro ⟨d, hd, he⟩
    obtain ⟨u, rest, hc, hu, rfl⟩ := (hr.times lo c d).mp hd
    obtain ⟨k, hk, v, b, hrest, hv, rfl⟩ := (mem_upTo hr _ _ e).mp he
    have hrest : rest = v ++ b := hrest
    refine ⟨u ++ v, b, by rw [hc, hrest, List.append_assoc], ⟨lo + k, by omega, ?_, ?_⟩, ?_⟩
    · intro h hh
      have := hbounds h hh
      rw [Option.mem_def.mp hh] at hk
      simp only [Option.map_some, Option.getD_some] at hk
      omega
    · rw [pow_add]
      exact Language.append_mem_mul hu hv
    · rw [hrest, after_append]
  · rintro ⟨m, b, hc, ⟨k, hlo, hhi, hm⟩, rfl⟩
    obtain ⟨j, rfl⟩ := Nat.exists_eq_add_of_le hlo
    rw [pow_add] at hm
    obtain ⟨u, hu, v, hv, rfl⟩ := Language.mem_mul.mp hm
    rw [List.append_assoc] at hc
    refine ⟨_, (hr.times lo c _).mpr ⟨u, v ++ b, hc, hu, rfl⟩, ?_⟩
    obtain ⟨i, hij, hi', hv'⟩ := mem_pow_short hv
    refine (mem_upTo hr _ _ _).mpr ⟨i, ?_, v, b, rfl, hv', (after_append _ _ _ _).symm⟩
    cases hi with
    | none =>
      simp only [Option.map_none, Option.getD_none, Cursor.after, List.length_append]
      omega
    | some h =>
      have := hhi h rfl
      simp only [Option.map_some, Option.getD_some]
      omega

/-- A plain pattern matches the words of its language. -/
theorem speaks_ends : ∀ {r : Regex}, Plain r → Speaks (ends word r) (lang r)
  | .chr p, _ => speaks_chr p
  | .seq _ _, h => (speaks_ends h.1).seq (speaks_ends h.2)
  | .rep _ _ _, h => speaks_rep h.1 (speaks_ends h.2)
  | .boundary, h => h.elim

def Over (P : Char → Prop) : Regex → Prop
  | .chr p => ∀ x, p x → P x
  | .seq a b => Over P a ∧ Over P b
  | .rep _ _ r => Over P r
  | .boundary => True

def Has (P : Char → Prop) : Regex → Prop
  | .chr p => ∀ x, p x → P x
  | .seq a b => Has P a ∨ Has P b
  | .rep lo _ r => 1 ≤ lo ∧ Has P r
  | .boundary => True

variable {P : Char → Prop}

theorem forall_mem_pow (hL : ∀ m ∈ L, ∀ x ∈ m, P x) {k : ℕ} {m : List Char} (h : m ∈ L ^ k) :
    ∀ x ∈ m, P x := by
  induction k generalizing m with
  | zero =>
    rw [pow_zero, Language.mem_one] at h
    simp [h]
  | succ k ih =>
    rw [pow_succ'] at h
    obtain ⟨u, hu, v, hv, rfl⟩ := Language.mem_mul.mp h
    intro x hx
    exact (List.mem_append.mp hx).elim (hL u hu x) (ih hv x)

theorem Over.forall_mem : ∀ {r : Regex}, Over P r → ∀ m ∈ lang r, ∀ x ∈ m, P x
  | .chr _, h, _, ⟨y, hm, hy⟩, x, hx => by
    rw [hm, List.mem_singleton] at hx
    exact hx ▸ h y hy
  | .seq _ _, h, _, hm, x, hx => by
    obtain ⟨u, hu, v, hv, rfl⟩ := Language.mem_mul.mp hm
    exact (List.mem_append.mp hx).elim (h.1.forall_mem u hu x) (h.2.forall_mem v hv x)
  | .rep _ _ r, h, _, ⟨_, _, _, hm⟩, x, hx => by
    have hr : Over P r := h
    exact forall_mem_pow hr.forall_mem hm x hx
  | .boundary, _, _, hm, _, _ => (Set.notMem_empty _ hm).elim

theorem Has.exists_mem : ∀ {r : Regex}, Has P r → ∀ m ∈ lang r, ∃ x ∈ m, P x
  | .chr _, h, _, ⟨y, hm, hy⟩ => ⟨y, by rw [hm, List.mem_singleton], h y hy⟩
  | .seq _ _, h, _, hm => by
    obtain ⟨u, hu, v, hv, rfl⟩ := Language.mem_mul.mp hm
    rcases h with h | h
    · obtain ⟨x, hx, hP⟩ := h.exists_mem u hu
      exact ⟨x, List.mem_append_left v hx, hP⟩
    · obtain ⟨x, hx, hP⟩ := h.exists_mem v hv
      exact ⟨x, List.mem_append_right u hx, hP⟩
  | .rep _ _ _, h, _, ⟨k, hlo, _, hm⟩ => by
    obtain ⟨k, rfl⟩ := Nat.exists_eq_add_of_le (h.1.trans hlo)
    rw [Nat.add_comm, pow_succ'] at hm
    obtain ⟨u, hu, v, -, rfl⟩ := Language.mem_mul.mp hm
    obtain ⟨x, hx, hP⟩ := h.2.exists_mem u hu
    exact ⟨x, List.mem_append_left v hx, hP⟩
  | .boundary, _, _, hm => (Set.notMem_empty _ hm).elim

theorem matchLength_of_ends {r : Regex} {c e : Cursor} {es : List Cursor}
    (hes : ends word r c = e :: es) (hlt : e.rest.length < c.rest.length) :
    matchLength word r c = some (c.rest.length - e.rest.length) := by
  have hpos : 0 < c.rest.length - e.rest.length := by omega
  simp only [matchLength, hes, List.head?_cons, Option.map_some, Option.filter_some, hpos,
    decide_true, if_true]

theorem Speaks.matchLength_isSome {r : Regex} (h : Speaks (ends word r) L) (hne : [] ∉ L)
    (c : Cursor) : (matchLength word r c).isSome = true ↔ ∃ m b, c.rest = m ++ b ∧ m ∈ L := by
  constructor
  · intro hsome
    obtain ⟨n, hn⟩ := Option.isSome_iff_exists.mp hsome
    obtain ⟨e, he, -⟩ := Option.map_eq_some_iff.mp (Option.filter_eq_some_iff.mp hn).1
    obtain ⟨m, b, hc, hm, -⟩ := (h c e).mp (List.mem_of_mem_head? he)
    exact ⟨m, b, hc, hm⟩
  · rintro ⟨m, b, hc, hm⟩
    have hmem := (h c _).mpr ⟨m, b, hc, hm, rfl⟩
    obtain ⟨e, es, hes⟩ := List.exists_cons_of_ne_nil (List.ne_nil_of_mem hmem)
    obtain ⟨m', b', hc', hm', rfl⟩ := (h c e).mp (hes ▸ List.mem_cons_self)
    have hpos : 0 < m'.length := List.length_pos_iff.mpr fun hn => hne (hn ▸ hm')
    have hlt : (Cursor.after c.prev m' b').rest.length < c.rest.length := by
      rw [hc', List.length_append]
      dsimp only [Cursor.after]
      omega
    rw [matchLength_of_ends hes hlt, Option.isSome_some]

theorem Speaks.searchFrom_iff {r : Regex} (h : Speaks (ends word r) L) (hne : [] ∉ L)
    (text : List Char) : ∀ prev, searchFrom word r prev text = true ↔
      ∃ a m b, text = a ++ m ++ b ∧ m ∈ L := by
  induction text with
  | nil =>
    intro prev
    refine iff_of_false (by simp [searchFrom]) ?_
    rintro ⟨a, m, b, heq, hm⟩
    have ham := (List.append_eq_nil_iff.mp heq.symm).1
    exact hne ((List.append_eq_nil_iff.mp ham).2 ▸ hm)
  | cons x xs ih =>
    intro prev
    rw [searchFrom, Bool.or_eq_true, h.matchLength_isSome hne, ih]
    constructor
    · rintro (⟨m, b, heq, hm⟩ | ⟨a, m, b, rfl, hm⟩)
      · exact ⟨[], m, b, heq, hm⟩
      · exact ⟨x :: a, m, b, rfl, hm⟩
    · rintro ⟨a, m, b, heq, hm⟩
      cases a with
      | nil => exact .inl ⟨m, b, heq, hm⟩
      | cons y a => exact .inr ⟨a, m, b, (List.cons.inj heq).2, hm⟩

/-- A plain pattern is found wherever a word of its language stands. -/
theorem Speaks.search_iff {r : Regex} (h : Speaks (ends word r) L) (hne : [] ∉ L)
    {text : List Char} : search word r text = true ↔ ∃ a m b, text = a ++ m ++ b ∧ m ∈ L :=
  h.searchFrom_iff hne text none

/-- A word boundary between what stands before and what follows. -/
def Edge (word : Char → Bool) (a b : List Char) : Prop :=
  atBoundary word ⟨a.getLast?, b⟩ = true

theorem edge_iff {a b : List Char} :
    Edge word a b ↔ a.getLast?.any word ≠ b.head?.any word := by
  simp [Edge, atBoundary]

/-- A word of the language between two boundaries. -/
structure Occurrence (word : Char → Bool) (L : Language Char) (a m b : List Char) : Prop where
  mem : m ∈ L
  starts : Edge word a (m ++ b)
  stops : Edge word (a ++ m) b

def Finds (word : Char → Bool) (r : Regex) (L : Language Char) : Prop :=
  ∀ c e, e ∈ ends word r c ↔ atBoundary word c = true ∧ atBoundary word e = true ∧
    ∃ m b, c.rest = m ++ b ∧ m ∈ L ∧ e = Cursor.after c.prev m b

theorem after_getLast? (a m b : List Char) :
    Cursor.after a.getLast? m b = ⟨(a ++ m).getLast?, b⟩ := by
  induction m using List.reverseRecOn with
  | nil => simp [Cursor.after]
  | append_singleton m x _ => simp [Cursor.after, ← List.append_assoc]

variable {r : Regex}

theorem Finds.mem_ends (h : Finds word r L) {a rest : List Char} {e : Cursor} :
    e ∈ ends word r ⟨a.getLast?, rest⟩ ↔
      ∃ m b, rest = m ++ b ∧ Occurrence word L a m b ∧ e = ⟨(a ++ m).getLast?, b⟩ := by
  rw [h]
  constructor
  · rintro ⟨hs, he, m, b, hrest, hm, rfl⟩
    have hrest : rest = m ++ b := hrest
    subst hrest
    rw [after_getLast?] at he
    exact ⟨m, b, rfl, ⟨hm, hs, he⟩, after_getLast? a m b⟩
  · rintro ⟨m, b, rfl, ho, rfl⟩
    exact ⟨ho.starts, ho.stops, m, b, rfl, ho.mem, (after_getLast? a m b).symm⟩

theorem Finds.matchLength_eq_some (h : Finds word r L) {a rest : List Char}
    {n : ℕ} (hm : matchLength word r ⟨a.getLast?, rest⟩ = some n) :
    0 < n ∧ ∃ m b, rest = m ++ b ∧ m.length = n ∧ Occurrence word L a m b := by
  obtain ⟨hmap, hpos⟩ := Option.filter_eq_some_iff.mp hm
  obtain ⟨e, he, hlen⟩ := Option.map_eq_some_iff.mp hmap
  obtain ⟨m, b, hrest, ho, rfl⟩ := h.mem_ends.mp (List.mem_of_mem_head? he)
  refine ⟨by simpa using hpos, m, b, hrest, ?_, ho⟩
  rw [← hlen]
  dsimp only
  rw [hrest, List.length_append]
  omega

/-- The words are not empty. -/
theorem Finds.matchLength_eq_none (h : Finds word r L) (hne : [] ∉ L) {a rest : List Char} :
    matchLength word r ⟨a.getLast?, rest⟩ = none ↔
      ∀ m b, rest = m ++ b → ¬Occurrence word L a m b := by
  constructor
  · rintro hnone m b rfl ho
    have hmem := h.mem_ends.mpr ⟨m, b, rfl, ho, rfl⟩
    obtain ⟨e, es, hes⟩ := List.exists_cons_of_ne_nil (List.ne_nil_of_mem hmem)
    obtain ⟨m', b', hrest, ho', rfl⟩ := h.mem_ends.mp (hes ▸ List.mem_cons_self)
    have hpos : 0 < m'.length := List.length_pos_iff.mpr fun hn => hne (hn ▸ ho'.mem)
    have hlt : b'.length < (m ++ b).length := by
      rw [hrest, List.length_append]
      omega
    rw [matchLength_of_ends hes hlt] at hnone
    cases hnone
  · intro hno
    cases hm : matchLength word r ⟨a.getLast?, rest⟩ with
    | none => rfl
    | some n =>
      obtain ⟨-, m, b, hrest, -, ho⟩ := h.matchLength_eq_some hm
      exact absurd ho (hno m b hrest)

def Descends (f : Cursor → List Cursor) : Prop :=
  ∀ c, (f c).Pairwise fun e e' => e.rest.length < e'.rest.length

theorem Finds.matchLength_iff_longest (h : Finds word r L) (hne : [] ∉ L)
    (hg : Descends (ends word r))
    {a m b : List Char} (ho : Occurrence word L a m b) :
    matchLength word r ⟨a.getLast?, m ++ b⟩ = some m.length ↔
      ∀ m' b', m ++ b = m' ++ b' → Occurrence word L a m' b' → m'.length ≤ m.length := by
  have hmem := h.mem_ends.mpr ⟨m, b, rfl, ho, rfl⟩
  obtain ⟨e, es, hes⟩ := List.exists_cons_of_ne_nil (List.ne_nil_of_mem hmem)
  have hlongest := hes ▸ hg ⟨a.getLast?, m ++ b⟩
  obtain ⟨m₀, b₀, hrest, ho₀, rfl⟩ := h.mem_ends.mp (hes ▸ List.mem_cons_self)
  have hpos : 0 < m₀.length := List.length_pos_iff.mpr fun hn => hne (hn ▸ ho₀.mem)
  have htotal : (m ++ b).length = m₀.length + b₀.length := by rw [hrest, List.length_append]
  have hlen : (m ++ b).length - b₀.length = m₀.length := by omega
  have hmatch : matchLength word r ⟨a.getLast?, m ++ b⟩ = some m₀.length := by
    rw [matchLength_of_ends hes (by dsimp only; omega), hlen]
  -- every other match leaves more of the text
  have hfirst : ∀ m' b', m ++ b = m' ++ b' → Occurrence word L a m' b' →
      m'.length ≤ m₀.length := by
    intro m' b' heq ho'
    have hmem' := h.mem_ends.mpr ⟨m', b', heq, ho', rfl⟩
    rw [heq, List.length_append] at htotal
    rw [hes] at hmem'
    rcases List.mem_cons.mp hmem' with he | he
    · have := congrArg (fun e : Cursor => e.rest.length) he
      dsimp only at this
      omega
    · have := (List.pairwise_cons.mp hlongest).1 _ he
      dsimp only at this
      omega
  rw [hmatch, Option.some.injEq]
  constructor
  · intro heq m' b' hsplit ho'
    rw [← heq]
    exact hfirst m' b' hsplit ho'
  · intro hall
    exact Nat.le_antisymm (hall m₀ b₀ hrest ho₀) (hfirst m b rfl ho)

theorem Finds.searchFrom_iff (h : Finds word r L) (hne : [] ∉ L) (text : List Char) :
    ∀ a : List Char, searchFrom word r a.getLast? text = true ↔
      ∃ p m b, text = p ++ m ++ b ∧ Occurrence word L (a ++ p) m b := by
  induction text with
  | nil =>
    intro a
    refine iff_of_false (by simp [searchFrom]) ?_
    rintro ⟨p, m, b, heq, ho⟩
    obtain ⟨hpm, -⟩ := List.append_eq_nil_iff.mp heq.symm
    exact hne ((List.append_eq_nil_iff.mp hpm).2 ▸ ho.mem)
  | cons x xs ih =>
    intro a
    have hlast : some x = (a ++ [x]).getLast? := by simp
    rw [searchFrom, Bool.or_eq_true, hlast, ih]
    constructor
    · rintro (hm | ⟨p, m, b, rfl, ho⟩)
      · obtain ⟨n, hn⟩ := Option.isSome_iff_exists.mp hm
        obtain ⟨-, m, b, heq, -, ho⟩ := h.matchLength_eq_some hn
        exact ⟨[], m, b, heq, by rwa [List.append_nil]⟩
      · exact ⟨x :: p, m, b, rfl, by simpa using ho⟩
    · rintro ⟨p, m, b, heq, ho⟩
      cases p with
      | nil =>
        rw [List.append_nil] at ho
        refine .inl (Option.isSome_iff_ne_none.mpr fun hnone => ?_)
        exact (h.matchLength_eq_none hne).mp hnone m b heq ho
      | cons y p =>
        obtain ⟨rfl, htail⟩ := List.cons.inj heq
        exact .inr ⟨p, m, b, htail, by simpa using ho⟩

/-- A text has a match exactly where it has an occurrence. -/
theorem Finds.search_iff (h : Finds word r L) (hne : [] ∉ L) {text : List Char} :
    search word r text = true ↔ ∃ a m b, text = a ++ m ++ b ∧ Occurrence word L a m b :=
  h.searchFrom_iff hne text []

def flat (cells : List (Char ⊕ List Char)) : List Char :=
  cells.flatMap fun
    | .inl c => [c]
    | .inr w => w

@[simp] theorem flat_nil : flat [] = [] := rfl

@[simp] theorem flat_inl (c : Char) (q : List (Char ⊕ List Char)) :
    flat (.inl c :: q) = c :: flat q := rfl

@[simp] theorem flat_inr (w : List Char) (q : List (Char ⊕ List Char)) :
    flat (.inr w :: q) = w ++ flat q := rfl

@[simp] theorem flat_append (p q : List (Char ⊕ List Char)) : flat (p ++ q) = flat p ++ flat q :=
  List.flatMap_append

@[simp] theorem flat_chars (m : List Char) : flat (m.map .inl) = m := by
  induction m with
  | nil => rfl
  | cons x m ih => rw [List.map_cons, flat_inl, ih]

/-- What stands in each cell behind `a` is what the pattern finds there. -/
inductive Cut (word : Char → Bool) (r : Regex) : List Char → List (Char ⊕ List Char) → Prop where
  | nil {a} : Cut word r a []
  | char {a x q} (none : matchLength word r ⟨a.getLast?, x :: flat q⟩ = none)
      (later : Cut word r (a ++ [x]) q) : Cut word r a (.inl x :: q)
  | hit {a w q} (nonempty : w ≠ [])
      (some : matchLength word r ⟨a.getLast?, w ++ flat q⟩ = some w.length)
      (later : Cut word r (a ++ w) q) : Cut word r a (.inr w :: q)

theorem segments_skip (xs rest : List Char) : ∀ prev : Option Char,
    segments word r xs.length prev (xs ++ rest) =
      segments word r 0 (Cursor.after prev xs rest).prev rest := by
  induction xs with
  | nil => exact fun _ => rfl
  | cons x xs ih =>
    intro prev
    rw [List.length_cons, List.cons_append, segments, ih]
    rfl

theorem Cut.segments_eq {a : List Char} {cells : List (Char ⊕ List Char)}
    (h : Cut word r a cells) : segments word r 0 a.getLast? (flat cells) = cells := by
  induction h with
  | nil => rfl
  | @char a x q hnone _ ih =>
    have hlast : some x = (a ++ [x]).getLast? := by simp
    rw [flat_inl, segments, hnone]
    dsimp only
    rw [hlast, ih]
  | @hit a w q hne hsome _ ih =>
    obtain ⟨x, xs, rfl⟩ := List.exists_cons_of_ne_nil hne
    have hlast : (Cursor.after (some x) xs (flat q)).prev = (a ++ x :: xs).getLast? := by
      have hx : (a ++ [x]).getLast? = some x := by simp
      have hafter := after_getLast? (a ++ [x]) xs (flat q)
      rw [hx] at hafter
      rw [hafter, List.append_assoc]
      rfl
    rw [List.length_cons, List.cons_append] at hsome
    rw [flat_inr, List.cons_append, segments, hsome]
    dsimp only
    rw [List.take_left, segments_skip, hlast, ih]

theorem exists_cut (h : Finds word r L) (text : List Char) :
    ∀ a, ∃ cells, Cut word r a cells ∧ flat cells = text := by
  induction hn : text.length using Nat.strong_induction_on generalizing text with
  | _ n ih =>
    intro a
    cases text with
    | nil => exact ⟨[], .nil, rfl⟩
    | cons x xs =>
      cases hm : matchLength word r ⟨a.getLast?, x :: xs⟩ with
      | none =>
        obtain ⟨q, hq, hflat⟩ := ih xs.length (by rw [← hn]; simp) xs rfl (a ++ [x])
        exact ⟨.inl x :: q, .char (by rw [hflat, hm]) hq, by rw [flat_inl, hflat]⟩
      | some k =>
        obtain ⟨hpos, m, b, heq, hk, -⟩ := h.matchLength_eq_some hm
        have hlen : b.length < n := by
          rw [← hn, heq, List.length_append]
          omega
        obtain ⟨q, hq, hflat⟩ := ih b.length hlen b rfl (a ++ m)
        refine ⟨.inr m :: q, .hit ?_ ?_ hq, by rw [flat_inr, hflat, heq]⟩
        · rintro rfl
          simp at hk
          omega
        · rw [hflat, ← heq, hm, hk]

theorem cut_segments (h : Finds word r L) (text : List Char) :
    Cut word r [] (segments word r 0 none text) ∧
      flat (segments word r 0 none text) = text := by
  obtain ⟨cells, hcut, hflat⟩ := exists_cut h text []
  have hseg := hcut.segments_eq
  rw [hflat] at hseg
  have hseg : segments word r 0 none text = cells := hseg
  rw [hseg]
  exact ⟨hcut, hflat⟩

/-- Characters at which no match starts. -/
theorem Cut.chars {u : List Char} {a : List Char} {q : List (Char ⊕ List Char)}
    (hno : ∀ x ∈ u, ∀ p rest : List Char, matchLength word r ⟨p.getLast?, x :: rest⟩ = none)
    (hq : Cut word r (a ++ u) q) : Cut word r a (u.map .inl ++ q) := by
  induction u generalizing a with
  | nil => simpa using hq
  | cons x u ih =>
    obtain ⟨hx, hu⟩ := List.forall_mem_cons.mp hno
    refine .char (hx _ _) (ih hu ?_)
    simpa using hq

def Shortens (k : ℕ) (f : Cursor → List Cursor) : Prop :=
  ∀ c, (f c).length ≤ 1 ∧ ∀ e ∈ f c, e.rest.length + k = c.rest.length

theorem shortens_chr (p : Char → Bool) : Shortens 1 (ends word (.chr p)) := by
  rintro ⟨prev, rest⟩
  cases rest with
  | nil => exact ⟨Nat.zero_le _, fun e he => by cases he⟩
  | cons x xs =>
    by_cases hx : p x
    · simp [ends, hx]
    · simp [ends, hx]

theorem shortens_boundary : Shortens 0 (ends word .boundary) := by
  intro c
  by_cases hc : atBoundary word c = true
  · simp [ends, hc]
  · simp [ends, hc]

theorem eq_nil_or_singleton {l : List Cursor} (h : l.length ≤ 1) : l = [] ∨ ∃ c, l = [c] := by
  rcases l with _ | ⟨c, _ | ⟨d, l⟩⟩
  · exact .inl rfl
  · exact .inr ⟨c, rfl⟩
  · simp at h

theorem Shortens.seq {k l : ℕ} (hf : Shortens k f) (hg : Shortens l g) :
    Shortens (k + l) fun c => (f c).flatMap g := by
  intro c
  rcases eq_nil_or_singleton (hf c).1 with hnil | ⟨d, hd⟩
  · simp [hnil]
  · have hkd := (hf c).2 d (by simp [hd])
    dsimp only
    rw [hd, List.flatMap_singleton]
    refine ⟨(hg d).1, fun e he => ?_⟩
    have := (hg d).2 e he
    omega

theorem Shortens.times {k : ℕ} (hf : Shortens k f) : ∀ n, Shortens (n * k) (times f n)
  | 0 => by
    intro c
    simp [PythonRegex.times]
  | n + 1 => by
    rw [Nat.succ_mul, Nat.add_comm]
    exact hf.seq (Shortens.times hf n)

theorem Shortens.flatMap_descends {k : ℕ} (hf : Shortens k f) (hg : Descends g) :
    Descends fun c => (f c).flatMap g := by
  intro c
  rcases eq_nil_or_singleton (hf c).1 with hnil | ⟨d, hd⟩
  · simp [hnil]
  · dsimp only
    rw [hd, List.flatMap_singleton]
    exact hg d

theorem Descends.flatMap_shortens {k : ℕ} (hf : Descends f) (hg : Shortens k g) :
    Descends fun c => (f c).flatMap g := by
  intro c
  rw [List.pairwise_flatMap]
  constructor
  · intro d _
    rcases eq_nil_or_singleton (hg d).1 with hnil | ⟨e, he⟩
    · simp [hnil]
    · simp [he]
  · refine (hf c).imp ?_
    intro d d' hlt e he e' he'
    have := (hg d).2 e he
    have := (hg d').2 e' he'
    omega

theorem descends_upTo {k : ℕ} (hf : Shortens (k + 1) f) : ∀ n, Descends (upTo f n) ∧
    ∀ c, ∀ e ∈ upTo f n c, e.rest.length ≤ c.rest.length
  | 0 => by simp [Descends, upTo]
  | n + 1 => by
    obtain ⟨hdesc, hle⟩ := descends_upTo hf n
    have hlt : ∀ c, ∀ e ∈ (f c).flatMap (upTo f n), e.rest.length < c.rest.length := by
      intro c e he
      obtain ⟨d, hd, he⟩ := List.mem_flatMap.mp he
      have := (hf c).2 d hd
      have := hle d e he
      omega
    constructor
    · intro c
      rw [upTo, List.pairwise_append]
      refine ⟨hf.flatMap_descends hdesc c, List.pairwise_singleton _ _, ?_⟩
      intro e he e' he'
      rw [List.mem_singleton.mp he']
      exact hlt c e he
    · intro c e he
      rw [upTo, List.mem_append, List.mem_singleton] at he
      rcases he with he | rfl
      · exact (hlt c e he).le
      · exact le_rfl

theorem descends_rep_chr (lo : ℕ) (hi : Option ℕ) (p : Char → Bool) :
    Descends (ends word (.rep lo hi (.chr p))) := by
  intro c
  have htimes : Shortens (lo * 1) (times (ends word (.chr p)) lo) := (shortens_chr p).times lo
  rw [ends]
  rcases eq_nil_or_singleton (htimes c).1 with hnil | ⟨d, hd⟩
  · rw [hnil]
    exact List.Pairwise.nil
  · rw [hd, List.flatMap_singleton]
    exact (descends_upTo (shortens_chr p) _).1 d

/-- An optional character in front of what cannot start with it. -/
theorem descends_optional {p : Char → Bool} (hg : Descends g)
    (hno : ∀ prev x xs, p x → g ⟨prev, x :: xs⟩ = []) :
    Descends fun c => (ends word (.rep 0 (some 1) (.chr p)) c).flatMap g := by
  rintro ⟨prev, rest⟩
  have hends : ∀ c, ends word (.rep 0 (some 1) (.chr p)) c = ends word (.chr p) c ++ [c] := by
    intro c
    have hid : ∀ l : List Cursor, l.flatMap (upTo (ends word (.chr p)) 0) = l :=
      fun l => List.flatMap_singleton' l
    have hrep : ends word (.rep 0 (some 1) (.chr p)) c =
        [c].flatMap (upTo (ends word (.chr p)) 1) := by
      rw [ends]
      rfl
    rw [hrep, List.flatMap_singleton, upTo, hid]
  dsimp only
  rw [hends, List.flatMap_append, List.flatMap_singleton]
  cases rest with
  | nil =>
    rw [ends, List.flatMap_nil, List.nil_append]
    exact hg _
  | cons x xs =>
    by_cases hx : p x
    · rw [hno prev x xs hx, List.append_nil]
      exact (shortens_chr p).flatMap_descends hg ⟨prev, x :: xs⟩
    · have hnil : ends word (.chr p) ⟨prev, x :: xs⟩ = [] := by simp [ends, hx]
      rw [hnil, List.flatMap_nil, List.nil_append]
      exact hg _

end RegexLanguage
