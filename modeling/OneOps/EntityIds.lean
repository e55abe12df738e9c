import Mathlib.Data.List.Sort
import OneOps.ListSplit
import OneOps.PythonText
import OneOps.RowMerge

/-! Entity references brought to one form. All that counts in a token are its ASCII letters
and digits, upper-cased: they have to be a registered prefix, the longest one that fits,
followed by digits. -/
namespace EntityIds

open PythonText RowMerge

inductive IdAcceptance where
  | accepted | clarify | rejected
  deriving DecidableEq, Repr

structure NormalizedEntity where
  entityId : String
  serviceId : String
  raw : String
  deriving DecidableEq, Repr

structure NormalizationResult where
  ok : Bool
  raw : String
  acceptance : IdAcceptance
  entity : Option NormalizedEntity
  reason : String
  matchedPrefix : String
  suggested : Option NormalizedEntity
  candidates : List NormalizedEntity
  deriving DecidableEq, Repr

def NormalizationResult.good (entity : NormalizedEntity) : NormalizationResult :=
  ⟨true, entity.raw, .accepted, some entity, "", "", none, []⟩

def NormalizationResult.bad (raw reason matchedPrefix : String) : NormalizationResult :=
  ⟨false, raw, .rejected, none, reason, matchedPrefix, none, []⟩

def upper (cs : List Char) : List Char := cs.map Char.toUpper

def NoShorter (p q : String) : Prop := q.length ≤ p.length

instance : DecidableRel NoShorter := fun p q => inferInstanceAs (Decidable (q.length ≤ p.length))

instance : Std.Total NoShorter := ⟨fun p q => Nat.le_total q.length p.length⟩

instance : IsTrans String NoShorter := ⟨fun _ _ _ hpq hqr => Nat.le_trans hqr hpq⟩

/-- The prefixes stand longest first. -/
structure EntityIdNormalizer where
  prefixToService : List (String × String)
  prefixes : List String
  known : prefixes.Perm (prefixToService.map Prod.fst)
  distinct : (prefixToService.map Prod.fst).Nodup
  longest_first : prefixes.Pairwise NoShorter
  nonempty : prefixes ≠ []

def upperKeys (entries : List (String × String)) : List (String × String) :=
  entries.map fun e => (String.ofList (upper e.1.toList), e.2)

/-- A dict comprehension: of two prefixes that differ in case only the last one counts. -/
def serviceTable (entries : List (String × String)) : List (String × String) :=
  (upperKeys entries).foldl (upsert Prod.fst) []

def sortedPrefixes (table : List (String × String)) : List String :=
  (table.map Prod.fst).insertionSort NoShorter

def EntityIdNormalizer.init (entries : List (String × String)) :
    Except String EntityIdNormalizer :=
  if h : sortedPrefixes (serviceTable entries) = [] then
    .error "EntityIdNormalizer built with no prefixes"
  else
    .ok {
      prefixToService := serviceTable entries
      prefixes := sortedPrefixes (serviceTable entries)
      known := List.perm_insertionSort _ _
      distinct := foldl_upsert_nodup List.nodup_nil
      longest_first := List.pairwise_insertionSort _ _
      nonempty := h }

def reference (token : String) : List Char := upper (token.toList.filter Char.isAlphanum)

def EntityIdNormalizer.service (n : EntityIdNormalizer) (p : String) : String :=
  (n.prefixToService.lookup p).getD ""

def EntityIdNormalizer.longestPrefix (n : EntityIdNormalizer) (cleaned : List Char) :
    Option String :=
  n.prefixes.find? fun p => p.toList.isPrefixOf cleaned

def EntityIdNormalizer.normalize (n : EntityIdNormalizer) (token : String) :
    NormalizationResult :=
  let cleaned := reference token
  if cleaned = [] then .bad token "no entity reference found in the input" ""
  else
    match n.longestPrefix cleaned with
    | some p =>
      let body := cleaned.drop p.toList.length
      if body = [] then
        .bad token ("'" ++ p ++ "' is a valid ID prefix but has no number after it") p
      else if ¬body.all Char.isDigit then
        .bad token ("the part after '" ++ p ++ "' is not a number: '" ++
          String.ofList body ++ "'") p
      else .good ⟨p ++ String.ofList body, n.service p, token⟩
    | none =>
      .bad token ("'" ++ String.ofList cleaned ++
        "' does not begin with a recognised ID prefix (expected one of: " ++
        String.intercalate ", " (n.prefixes.insertionSort (· ≤ ·)) ++ ")") ""

section Laws

def NormalizationResult.withRaw (r : NormalizationResult) (raw : String) : NormalizationResult :=
  { r with raw, entity := r.entity.map fun e => { e with raw } }

theorem normalize_withRaw (n : EntityIdNormalizer) {t u : String}
    (h : reference t = reference u) : n.normalize u = (n.normalize t).withRaw u := by
  simp only [EntityIdNormalizer.normalize, h]
  split_ifs
  · rfl
  · split
    · split_ifs <;> rfl
    · rfl

theorem reference_insert {a b : List Char} {c : Char} (h : ¬c.isAlphanum) :
    reference (String.ofList (a ++ c :: b)) = reference (String.ofList (a ++ b)) := by
  simp [reference, List.filter_cons_of_neg h]

theorem reference_recase {t u : String}
    (h : List.Forall₂ (fun c d => d = c ∨ d = c.toUpper ∨ d = c.toLower) t.toList u.toList) :
    reference t = reference u := by
  have main : ∀ cs ds : List Char,
      List.Forall₂ (fun c d => d = c ∨ d = c.toUpper ∨ d = c.toLower) cs ds →
      upper (cs.filter Char.isAlphanum) = upper (ds.filter Char.isAlphanum) := by
    intro cs ds h
    induction h with
    | nil => rfl
    | @cons c d cs ds hcd _ ih =>
      have hup : d.toUpper = c.toUpper := by
        rcases hcd with rfl | rfl | rfl
        · rfl
        · exact toUpper_toUpper c
        · exact toUpper_toLower c
      have hkind : d.isAlphanum = c.isAlphanum := by
        rw [← isAlphanum_toUpper d, hup, isAlphanum_toUpper]
      rw [List.filter_cons, List.filter_cons, hkind]
      split_ifs
      · simp only [upper, List.map_cons, hup] at ih ⊢
        rw [ih]
      · exact ih
  exact main t.toList u.toList h

theorem reference_ofList (t : String) : reference (String.ofList (reference t)) = reference t := by
  have halnum : ∀ c ∈ reference t, c.isAlphanum := by
    intro c hc
    obtain ⟨d, hd, rfl⟩ := List.mem_map.mp hc
    rw [isAlphanum_toUpper]
    exact (List.mem_filter.mp hd).2
  have hupper : ∀ c ∈ reference t, c.toUpper = id c := by
    intro c hc
    obtain ⟨d, _, rfl⟩ := List.mem_map.mp hc
    exact toUpper_toUpper d
  rw [reference, String.toList_ofList, List.filter_eq_self.mpr halnum, upper,
    List.map_congr_left hupper, List.map_id]

/-- A dict of prefixes that differ by more than their case. -/
structure PrefixMap where
  entries : List (String × String)
  nonempty : entries ≠ []
  alphanumeric : ∀ e ∈ entries, e.1 ≠ "" ∧ ∀ c ∈ e.1.toList, c.isAlphanum
  distinct : (entries.map fun e => upper e.1.toList).Nodup

def PrefixMap.Registers (m : PrefixMap) (p : List Char) (service : String) : Prop :=
  ∃ e ∈ m.entries, upper e.1.toList = p ∧ e.2 = service

/-- `p` is the longest registered prefix that `cs` starts with. -/
structure PrefixMap.Longest (m : PrefixMap) (cs p : List Char) (service : String) : Prop where
  registered : m.Registers p service
  starts : p <+: cs
  longest : ∀ q s, m.Registers q s → q <+: cs → q.length ≤ p.length

/-- The longest registered prefix and at least one digit make up the whole of `cs`. -/
def PrefixMap.Accepts (m : PrefixMap) (cs : List Char) (service : String) : Prop :=
  ∃ p body, m.Longest cs p service ∧ cs = p ++ body ∧ body ≠ [] ∧ ∀ c ∈ body, c.isDigit

theorem serviceTable_eq (m : PrefixMap) : serviceTable m.entries = upperKeys m.entries := by
  have hdistinct : ((upperKeys m.entries).map Prod.fst).Nodup := by
    have h := m.distinct.map fun _ _ he => String.ofList_injective he
    rw [upperKeys, List.map_map]
    rw [List.map_map] at h
    exact h
  rw [serviceTable, foldl_fresh upsert_new (by simpa using hdistinct), List.nil_append]

theorem longestPrefix_eq_some {n : EntityIdNormalizer} {cs : List Char} {p : String} :
    n.longestPrefix cs = some p ↔
      p ∈ n.prefixes ∧ p.toList <+: cs ∧
        ∀ q ∈ n.prefixes, q.toList <+: cs → q.length ≤ p.length := by
  constructor
  · intro h
    refine ⟨List.mem_of_find?_eq_some h, ?_, ?_⟩
    · have hp := List.find?_some h
      simpa using hp
    · intro q hq hqs
      rcases ListSplit.find?_first n.longest_first h q hq (by simpa using hqs) with rfl | hle
      · exact Nat.le_refl _
      · exact hle
  · rintro ⟨hp, hps, hlongest⟩
    cases hfind : n.longestPrefix cs with
    | none =>
      have hnone := List.find?_eq_none.mp hfind p hp
      exact absurd hps (by simpa using hnone)
    | some q =>
      have hq := List.find?_some hfind
      have hqp : p = q ∨ NoShorter q p :=
        ListSplit.find?_first n.longest_first hfind p hp (by simpa using hps)
      rcases hqp with rfl | hle
      · rfl
      · have hqs : q.toList <+: cs := by simpa using hq
        have hlen : p.toList.length = q.toList.length := by
          rw [String.length_toList, String.length_toList]
          exact Nat.le_antisymm hle (hlongest q (List.mem_of_find?_eq_some hfind) hqs)
        have hsame := List.prefix_of_prefix_length_le hqs hps hlen.ge
        rw [String.toList_injective (hsame.eq_of_length hlen.symm)]

/-- An accepted token gives its letters and digits as they are. -/
theorem normalize_eq_good {n : EntityIdNormalizer} {t p : String} {body : List Char}
    (hp : n.longestPrefix (reference t) = some p) (ht : reference t = p.toList ++ body)
    (hne : body ≠ []) (hbody : ∀ c ∈ body, c.isDigit) :
    n.normalize t = .good ⟨String.ofList (reference t), n.service p, t⟩ := by
  have hdrop : (reference t).drop p.toList.length = body := by rw [ht, List.drop_left]
  have hid : p ++ String.ofList body = String.ofList (reference t) := by
    rw [ht, String.ofList_append, String.ofList_toList]
  have hfull : reference t ≠ [] := by
    rw [ht]
    exact List.append_ne_nil_of_right_ne_nil _ hne
  simp only [EntityIdNormalizer.normalize, if_neg hfull, hp, hdrop, if_neg hne]
  rw [if_neg (by simpa using hbody), hid]

/-- Where a token is not accepted, the result carries no entity. -/
theorem normalize_cases (n : EntityIdNormalizer) (t : String) :
    (∃ reason p, n.normalize t = .bad t reason p) ∨
      ∃ p body, n.longestPrefix (reference t) = some p ∧ reference t = p.toList ++ body ∧
        body ≠ [] ∧ ∀ c ∈ body, c.isDigit := by
  simp only [EntityIdNormalizer.normalize]
  split_ifs
  · exact .inl ⟨_, _, rfl⟩
  · split
    · rename_i p hp
      obtain ⟨body, hbody⟩ := (longestPrefix_eq_some.mp hp).2.1
      rw [← hbody, List.drop_left]
      by_cases hne : body = []
      · rw [if_pos hne]
        exact .inl ⟨_, _, rfl⟩
      · by_cases hdigits : ¬body.all Char.isDigit
        · rw [if_neg hne, if_pos hdigits]
          exact .inl ⟨_, _, rfl⟩
        · exact .inr ⟨p, body, hbody ▸ hp, rfl, hne, by simpa using hdigits⟩
    · exact .inl ⟨_, _, rfl⟩

theorem normalize_ok_iff {n : EntityIdNormalizer} {t : String} :
    (n.normalize t).ok ↔ ∃ p body, n.longestPrefix (reference t) = some p ∧
      reference t = p.toList ++ body ∧ body ≠ [] ∧ ∀ c ∈ body, c.isDigit := by
  constructor
  · intro h
    rcases normalize_cases n t with ⟨reason, p, hbad⟩ | hgood
    · rw [hbad] at h
      cases h
    · exact hgood
  · rintro ⟨p, body, hp, ht, hne, hbody⟩
    rw [normalize_eq_good hp ht hne hbody]
    rfl

theorem normalize_ok_of_entity {n : EntityIdNormalizer} {t : String} {e : NormalizedEntity}
    (h : (n.normalize t).entity = some e) : (n.normalize t).ok := by
  rcases normalize_cases n t with ⟨reason, p, hbad⟩ | hgood
  · rw [hbad] at h
    cases h
  · exact normalize_ok_iff.mpr hgood

theorem init_eq_ok (m : PrefixMap) :
    ∃ n, EntityIdNormalizer.init m.entries = .ok n ∧ n.prefixToService = upperKeys m.entries := by
  have hne : sortedPrefixes (serviceTable m.entries) ≠ [] := by
    intro h
    have hlen := congrArg List.length h
    simp only [sortedPrefixes, List.length_insertionSort, serviceTable_eq, upperKeys,
      List.length_map, List.length_nil, List.length_eq_zero_iff] at hlen
    exact m.nonempty hlen
  exact ⟨_, dif_neg hne, serviceTable_eq m⟩

section Built

variable {m : PrefixMap} {n : EntityIdNormalizer} (hn : n.prefixToService = upperKeys m.entries)

include hn

theorem mem_table_iff {p s : String} : (p, s) ∈ n.prefixToService ↔ m.Registers p.toList s := by
  rw [hn, upperKeys, List.mem_map]
  refine exists_congr fun e => and_congr_right fun _ => ?_
  rw [Prod.mk.injEq, ← String.toList_inj, String.toList_ofList]

theorem mem_prefixes_iff {p : String} : p ∈ n.prefixes ↔ ∃ s, m.Registers p.toList s := by
  rw [n.known.mem_iff, List.mem_map]
  constructor
  · rintro ⟨⟨q, s⟩, hmem, rfl⟩
    exact ⟨s, (mem_table_iff hn).mp hmem⟩
  · rintro ⟨s, h⟩
    exact ⟨(p, s), (mem_table_iff hn).mpr h, rfl⟩

theorem service_eq {p s : String} (h : m.Registers p.toList s) : n.service p = s := by
  obtain ⟨before, rest, hsplit⟩ := List.append_of_mem ((mem_table_iff hn).mpr h)
  have hdistinct := n.distinct
  rw [hsplit, List.map_append, List.nodup_append] at hdistinct
  have hlookup : n.prefixToService.lookup p = some s := by
    refine List.lookup_eq_some_iff.mpr ⟨before, rest, hsplit, ?_⟩
    intro e he
    have hne := hdistinct.2.2 e.1 (List.mem_map_of_mem he) p (by simp)
    simpa using hne.symm
  rw [EntityIdNormalizer.service, hlookup, Option.getD_some]

theorem longest_iff {cs : List Char} {p s : String} :
    m.Longest cs p.toList s ↔ n.longestPrefix cs = some p ∧ m.Registers p.toList s := by
  rw [longestPrefix_eq_some]
  constructor
  · rintro ⟨hreg, hstarts, hlongest⟩
    refine ⟨⟨(mem_prefixes_iff hn).mpr ⟨s, hreg⟩, hstarts, ?_⟩, hreg⟩
    intro q hq hqs
    obtain ⟨s', hs'⟩ := (mem_prefixes_iff hn).mp hq
    simpa only [String.length_toList] using hlongest q.toList s' hs' hqs
  · rintro ⟨⟨_, hstarts, hlongest⟩, hreg⟩
    refine ⟨hreg, hstarts, ?_⟩
    intro q s' hq hqs
    have := hlongest (String.ofList q)
      ((mem_prefixes_iff hn).mpr ⟨s', by rwa [String.toList_ofList]⟩)
      (by rwa [String.toList_ofList])
    simpa only [String.length_ofList, String.length_toList] using this

theorem accepts_iff {t s : String} :
    m.Accepts (reference t) s ↔ ∃ p body, n.longestPrefix (reference t) = some p ∧
      n.service p = s ∧ reference t = p.toList ++ body ∧ body ≠ [] ∧ ∀ c ∈ body, c.isDigit := by
  constructor
  · rintro ⟨p, body, hlongest, ht, hne, hbody⟩
    obtain ⟨p, rfl⟩ : ∃ q : String, q.toList = p := ⟨_, String.toList_ofList⟩
    obtain ⟨hp, hreg⟩ := (longest_iff hn).mp hlongest
    exact ⟨p, body, hp, service_eq hn hreg, ht, hne, hbody⟩
  · rintro ⟨p, body, hp, rfl, ht, hne, hbody⟩
    obtain ⟨s, hreg⟩ := (mem_prefixes_iff hn).mp (longestPrefix_eq_some.mp hp).1
    rw [service_eq hn hreg]
    exact ⟨p.toList, body, (longest_iff hn).mpr ⟨hp, hreg⟩, ht, hne, hbody⟩

end Built

end Laws

/-- The laws of normalisation: only the sequence of ASCII letters and digits counts, up to
case; a token is accepted exactly where the longest registered prefix of that sequence is
followed by digits alone; and what is accepted is in its final form. -/
theorem normalize_laws (m : PrefixMap) :
    ∃ n, EntityIdNormalizer.init m.entries = .ok n ∧
      (∀ t u, reference t = reference u → n.normalize u = (n.normalize t).withRaw u) ∧
      (∀ a b c, ¬c.isAlphanum → n.normalize (String.ofList (a ++ c :: b)) =
        (n.normalize (String.ofList (a ++ b))).withRaw (String.ofList (a ++ c :: b))) ∧
      (∀ t u : String,
        List.Forall₂ (fun c d => d = c ∨ d = c.toUpper ∨ d = c.toLower) t.toList u.toList →
        n.normalize u = (n.normalize t).withRaw u) ∧
      (∀ t, (n.normalize t).ok ↔ ∃ s, m.Accepts (reference t) s) ∧
      (∀ t s, m.Accepts (reference t) s →
        n.normalize t = .good ⟨String.ofList (reference t), s, t⟩) ∧
      ∀ t e, (n.normalize t).entity = some e →
        (n.normalize e.entityId).entity = some { e with raw := e.entityId } := by
  obtain ⟨n, hinit, hn⟩ := init_eq_ok m
  have hok : ∀ t, (n.normalize t).ok ↔ ∃ s, m.Accepts (reference t) s := by
    intro t
    rw [normalize_ok_iff]
    constructor
    · rintro ⟨p, body, hp, ht, hne, hbody⟩
      exact ⟨_, (accepts_iff hn).mpr ⟨p, body, hp, rfl, ht, hne, hbody⟩⟩
    · rintro ⟨s, hs⟩
      obtain ⟨p, body, hp, _, ht, hne, hbody⟩ := (accepts_iff hn).mp hs
      exact ⟨p, body, hp, ht, hne, hbody⟩
  have hgood : ∀ t s, m.Accepts (reference t) s →
      n.normalize t = .good ⟨String.ofList (reference t), s, t⟩ := by
    intro t s hs
    obtain ⟨p, body, hp, rfl, ht, hne, hbody⟩ := (accepts_iff hn).mp hs
    exact normalize_eq_good hp ht hne hbody
  refine ⟨n, hinit, fun t u => normalize_withRaw n, ?_, ?_, hok, hgood, ?_⟩
  · intro a b c hc
    exact normalize_withRaw n (reference_insert hc).symm
  · intro t u h
    exact normalize_withRaw n (reference_recase h)
  · intro t e he
    obtain ⟨s, hs⟩ := (hok t).mp (normalize_ok_of_entity he)
    have ht := hgood t s hs
    rw [ht] at he
    obtain rfl : _ = e := Option.some.inj he
    rw [normalize_withRaw n (reference_ofList t).symm, ht]
    rfl

end EntityIds
