import OneOps.PythonDate
import Mathlib.Logic.Function.Basic

/-! The time filter of a query and its extractor. A filter is built from a payload by the checks
of its fields and three validators, the last of which moves dates of the future back by a year;
the extractor keeps the dump of a filter in a cache and builds it anew on every hit. -/
namespace TimeFilters

open PythonDate

inductive Boundary where
  | createdAt | updatedAt | resolvedAt
  deriving DecidableEq, Repr

def Boundary.value : Boundary → String
  | .createdAt => "created_at"
  | .updatedAt => "updated_at"
  | .resolvedAt => "resolved_at"

/-- The fields as they pass their own checks. -/
@[ext] structure TimeFilter where
  relativeDays : Option ℕ
  startDate : Option Date
  endDate : Option Date
  label : Option String
  boundary : Boundary
  daysIn : ∀ n ∈ relativeDays, 1 ≤ n ∧ n ≤ 3650
  labelShort : ∀ s ∈ label, s.length ≤ 80
  deriving DecidableEq

def TimeFilter.isEmpty (t : TimeFilter) : Bool :=
  t.relativeDays.isNone && t.startDate.isNone && t.endDate.isNone

inductive Rejected where
  /-- A field fails its own check, or an unknown one is given. -/
  | field
  | exclusive
  | backwards (startDate endDate : Date)
  /-- `replace` finds no such day in the year before. -/
  | noSuchDay
  | backwardsAfterInference (startDate endDate : Date)
  deriving DecidableEq

def mutualExclusion (t : TimeFilter) : Except Rejected TimeFilter :=
  if t.relativeDays.isSome ∧ (t.startDate.isSome ∨ t.endDate.isSome) then .error .exclusive
  else .ok t

def checkOrder (error : Date → Date → Rejected) (t : TimeFilter) : Except Rejected TimeFilter :=
  match t.startDate, t.endDate with
  | some s, some e => if e.before s then .error (error s e) else .ok t
  | _, _ => .ok t

def orderedDates (t : TimeFilter) : Except Rejected TimeFilter := checkOrder .backwards t

/-- A date more than seven days ahead is moved back by one year. -/
def inferPast (today : Date) : Option Date → Except Rejected (Option Date)
  | none => .ok none
  | some d =>
    if 7 < d.daysAfter today then
      match d.lastYear with
      | some d' => .ok (some d')
      | none => .error .noSuchDay
    else .ok (some d)

def futureAnchorInferredPast (today : Date) (t : TimeFilter) : Except Rejected TimeFilter := do
  let s ← inferPast today t.startDate
  let e ← inferPast today t.endDate
  checkOrder .backwardsAfterInference { t with startDate := s, endDate := e }

def validate (today : Date) (t : TimeFilter) : Except Rejected TimeFilter := do
  let t ← mutualExclusion t
  let t ← orderedDates t
  futureAnchorInferredPast today t

/-- The checks of the single fields and the dump as JSON, which they read back. -/
structure Pydantic (J : Type) where
  fields : J → Option TimeFilter
  dump : TimeFilter → J
  fields_dump : ∀ t, fields (dump t) = some t

variable {J : Type} (P : Pydantic J)

def construct (today : Date) (payload : J) : Except Rejected TimeFilter :=
  match P.fields payload with
  | none => .error .field
  | some t => validate today t

/-- What the model answers: the call fails, there is no filter to build, or a payload. -/
inductive Reply (J : Type) where
  | failed
  | noFilter
  | payload (p : J)

inductive Stored (J : Type) where
  | null
  | document (p : J)

abbrev Cache (J : Type) := String → Option (Stored J)

/-- The key of a message on a day, and whether the message is blank. -/
structure Messages where
  cacheKey : Date → String → String
  isBlank : String → Bool

/-- `some v` is a hit; a document that is refused is a miss. -/
def cacheLookup (today : Date) (entry : Option (Stored J)) : Option (Option TimeFilter) :=
  match entry with
  | none => none
  | some .null => some none
  | some (.document p) =>
    match construct P today p with
    | .ok t => some (some t)
    | .error _ => none

def toStored : Option TimeFilter → Stored J
  | none => .null
  | some t => .document (P.dump t)

def parseResponse (today : Date) : Reply J → Option TimeFilter
  | .payload p =>
    match construct P today p with
    | .ok t => some t
    | .error _ => none
  | _ => none

def extract (M : Messages) (today : Date) (message : String) (reply : Reply J) (cache : Cache J) :
    Option TimeFilter × Cache J :=
  if M.isBlank message then (none, cache)
  else
    match cacheLookup P today (cache (M.cacheKey today message)) with
    | some v => (v, cache)
    | none =>
      match reply with
      | .failed => (none, cache)
      | reply =>
        let t := parseResponse P today reply
        (t, Function.update cache (M.cacheKey today message) (some (toStored P t)))

def Exclusive (t : TimeFilter) : Prop :=
  ¬ (t.relativeDays.isSome ∧ (t.startDate.isSome ∨ t.endDate.isSome))

def Ordered (t : TimeFilter) : Prop :=
  ∀ s ∈ t.startDate, ∀ e ∈ t.endDate, ¬ e.before s

def NotAhead (today : Date) (t : TimeFilter) : Prop :=
  (∀ d ∈ t.startDate, d.daysAfter today ≤ 7) ∧ ∀ d ∈ t.endDate, d.daysAfter today ≤ 7

/-- A call that misses and stores is repeated by every later call of the key on that day. -/
def HitsAgree (today : Date) (payload : J) : Prop :=
  ∀ (M : Messages) (message : String) (cache : Cache J),
    cacheLookup P today (cache (M.cacheKey today message)) = none →
      ∀ reply, (extract P M today message reply
          (extract P M today message (.payload payload) cache).2).1 =
        (extract P M today message (.payload payload) cache).1

/-- A date that is moved back lands at most seven days ahead. -/
def Settles (today : Date) (d : Date) : Prop :=
  7 < d.daysAfter today → ∀ d' ∈ d.lastYear, d'.daysAfter today ≤ 7

instance (today d : Date) : Decidable (Settles today d) :=
  inferInstanceAs (Decidable (_ → ∀ d' ∈ d.lastYear, _))

def PayloadSettles (today : Date) (payload : J) : Prop :=
  ∀ t ∈ P.fields payload, (∀ d ∈ t.startDate, Settles today d) ∧ ∀ d ∈ t.endDate, Settles today d

variable {P} {today : Date}

theorem mutualExclusion_ok {t u : TimeFilter} :
    mutualExclusion t = .ok u ↔ Exclusive t ∧ u = t := by
  unfold mutualExclusion Exclusive
  split_ifs with h
  · constructor
    · intro hu
      cases hu
    · rintro ⟨hn, _⟩
      exact absurd h hn
  · rw [Except.ok.injEq]
    exact ⟨fun hu => ⟨h, hu.symm⟩, fun hu => hu.2.symm⟩

theorem checkOrder_ok {error : Date → Date → Rejected} {t u : TimeFilter} :
    checkOrder error t = .ok u ↔ Ordered t ∧ u = t := by
  unfold checkOrder Ordered
  cases t.startDate with
  | none => simp [eq_comm]
  | some s =>
    cases t.endDate with
    | none => simp [eq_comm]
    | some e =>
      by_cases hb : e.before s
      · simp [hb]
      · simp [hb, eq_comm]

theorem inferPast_near {d : Option Date} (h : ∀ x ∈ d, x.daysAfter today ≤ 7) :
    inferPast today d = .ok d := by
  cases d with
  | none => rfl
  | some x =>
    unfold inferPast
    dsimp only
    rw [if_neg (Int.not_lt.mpr (h x rfl))]

theorem inferPast_cases {d e : Option Date} (h : inferPast today d = .ok e) :
    (e = d ∧ ∀ x ∈ d, x.daysAfter today ≤ 7) ∨
      ∃ x y, d = some x ∧ e = some y ∧ 7 < x.daysAfter today ∧ x.lastYear = some y := by
  cases d with
  | none =>
    cases h
    exact Or.inl ⟨rfl, fun x hx => by cases hx⟩
  | some x =>
    unfold inferPast at h
    dsimp only at h
    split_ifs at h with hfar
    · cases hy : x.lastYear with
      | none =>
        rw [hy] at h
        cases h
      | some y =>
        rw [hy] at h
        cases h
        exact Or.inr ⟨x, y, rfl, rfl, hfar, hy⟩
    · cases h
      refine Or.inl ⟨rfl, fun z hz => ?_⟩
      cases hz
      exact Int.not_lt.mp hfar

theorem inferPast_isSome {d e : Option Date} (h : inferPast today d = .ok e) :
    e.isSome = d.isSome := by
  rcases inferPast_cases h with ⟨rfl, _⟩ | ⟨x, y, rfl, rfl, _⟩
  · rfl
  · rfl

/-- A date is within seven days after the inference exactly when it settles. -/
theorem inferPast_settles {d e : Option Date} (h : inferPast today d = .ok e) :
    (∀ y ∈ e, y.daysAfter today ≤ 7) ↔ ∀ x ∈ d, Settles today x := by
  rcases inferPast_cases h with ⟨rfl, hnear⟩ | ⟨x, y, rfl, rfl, hfar, hy⟩
  · exact iff_of_true hnear fun x hx hfar => absurd (hnear x hx) (Int.not_le.mpr hfar)
  · constructor
    · intro hn z hz _ d' hd'
      cases hz
      rw [hy] at hd'
      exact hn d' hd'
    · intro hs z hz
      cases hz
      exact hs x rfl hfar _ hy

theorem validate_ok {t u : TimeFilter} (h : validate today t = .ok u) :
    Exclusive t ∧ Ordered t ∧ inferPast today t.startDate = .ok u.startDate ∧
      inferPast today t.endDate = .ok u.endDate ∧ Ordered u ∧
      u = { t with startDate := u.startDate, endDate := u.endDate } := by
  unfold validate at h
  cases hm : mutualExclusion t with
  | error e =>
    rw [hm] at h
    cases h
  | ok v =>
    obtain ⟨hex, rfl⟩ := mutualExclusion_ok.mp hm
    rw [hm] at h
    cases ho : orderedDates v with
    | error e =>
      simp only [bind, Except.bind, ho] at h
      cases h
    | ok w =>
      obtain ⟨hord, rfl⟩ := checkOrder_ok.mp ho
      simp only [bind, Except.bind, ho, futureAnchorInferredPast] at h
      cases hs : inferPast today w.startDate with
      | error e =>
        rw [hs] at h
        cases h
      | ok s =>
        cases he : inferPast today w.endDate with
        | error e =>
          rw [hs, he] at h
          cases h
        | ok e =>
          rw [hs, he] at h
          obtain ⟨hordu, rfl⟩ := checkOrder_ok.mp h
          exact ⟨hex, hord, rfl, rfl, hordu, rfl⟩

theorem validate_self {t : TimeFilter} (hex : Exclusive t) (hord : Ordered t)
    (hn : NotAhead today t) : validate today t = .ok t := by
  have hm := mutualExclusion_ok.mpr ⟨hex, rfl⟩
  have ho : orderedDates t = .ok t := checkOrder_ok.mpr ⟨hord, rfl⟩
  have hlast : checkOrder .backwardsAfterInference t = .ok t := checkOrder_ok.mpr ⟨hord, rfl⟩
  unfold validate futureAnchorInferredPast
  rw [hm]
  simp only [bind, Except.bind]
  rw [ho]
  simp only [inferPast_near hn.1, inferPast_near hn.2]
  exact hlast

theorem validate_exclusive {t u : TimeFilter} (h : validate today t = .ok u) : Exclusive u := by
  obtain ⟨hex, _, hs, he, _, hu⟩ := validate_ok h
  have hrel : u.relativeDays = t.relativeDays := by rw [hu]
  unfold Exclusive at hex ⊢
  rwa [hrel, inferPast_isSome hs, inferPast_isSome he]

theorem notAhead_iff {t u : TimeFilter} (h : validate today t = .ok u) :
    NotAhead today u ↔
      (∀ d ∈ t.startDate, Settles today d) ∧ ∀ d ∈ t.endDate, Settles today d := by
  obtain ⟨_, _, hs, he, _⟩ := validate_ok h
  unfold NotAhead
  rw [inferPast_settles hs, inferPast_settles he]

theorem construct_ok {payload : J} {u : TimeFilter} (h : construct P today payload = .ok u) :
    ∃ t, P.fields payload = some t ∧ validate today t = .ok u := by
  unfold construct at h
  cases hf : P.fields payload with
  | none =>
    rw [hf] at h
    cases h
  | some t =>
    rw [hf] at h
    exact ⟨t, rfl, h⟩

theorem hitsAgree_of_dump {payload : J} {u : TimeFilter}
    (h : construct P today payload = .ok u) (hdump : construct P today (P.dump u) = .ok u) :
    HitsAgree P today payload := by
  intro M message cache hmiss reply
  have hparse : parseResponse P today (.payload payload) = some u := by
    unfold parseResponse
    dsimp only
    rw [h]
  by_cases hb : M.isBlank message = true
  · unfold extract
    rw [if_pos hb, if_pos hb]
  · have hfirst : extract P M today message (.payload payload) cache = (some u,
        Function.update cache (M.cacheKey today message) (some (.document (P.dump u)))) := by
      unfold extract
      rw [if_neg hb, hmiss]
      dsimp only
      rw [hparse]
      rfl
    have hhit : cacheLookup P today (some (.document (P.dump u))) = some (some u) := by
      unfold cacheLookup
      dsimp only
      rw [hdump]
    rw [hfirst]
    dsimp only
    unfold extract
    rw [if_neg hb, Function.update_self, hhit]

/-- An accepted payload gives a filter that keeps its promises, parses again to itself and is
the same on every hit, exactly when a date that is moved back lands at most seven days ahead. -/
theorem filter_promises_iff {payload : J} {u : TimeFilter}
    (h : construct P today payload = .ok u) :
    (Exclusive u ∧ Ordered u ∧ NotAhead today u ∧ construct P today (P.dump u) = .ok u ∧
        HitsAgree P today payload) ↔ PayloadSettles P today payload := by
  obtain ⟨t, hf, hv⟩ := construct_ok h
  have hsettles : PayloadSettles P today payload ↔ NotAhead today u := by
    unfold PayloadSettles
    rw [notAhead_iff hv, hf]
    constructor
    · exact fun hall => hall t rfl
    · rintro hall t' ht'
      cases ht'
      exact hall
  rw [hsettles]
  constructor
  · rintro ⟨_, _, hn, _⟩
    exact hn
  · intro hn
    have hex := validate_exclusive hv
    have hord : Ordered u := (validate_ok hv).2.2.2.2.1
    have hdump : construct P today (P.dump u) = .ok u := by
      unfold construct
      rw [P.fields_dump]
      exact validate_self hex hord hn
    exact ⟨hex, hord, hn, hdump, hitsAgree_of_dump h hdump⟩

def asFields : Pydantic TimeFilter := ⟨some, id, fun _ => rfl⟩

def january15 : Date := ⟨2026, 1, 15, by decide⟩

def newYear (year : ℕ) (h : ValidDate year 1 1) : Date := ⟨year, 1, 1, h⟩

def since (d : Date) : TimeFilter :=
  { relativeDays := none, startDate := some d, endDate := none, label := none
    boundary := .createdAt
    daysIn := fun _ h => by cases h
    labelShort := fun _ h => by cases h }

/-- A new year within the year ahead is taken for the last one, once and for all. -/
theorem recent_promises :
    NotAhead january15 (since (newYear 2026 (by decide))) ∧
      HitsAgree asFields january15 (since (newYear 2027 (by decide))) := by
  have h : construct asFields january15 (since (newYear 2027 (by decide))) =
      .ok (since (newYear 2026 (by decide))) := by decide +kernel
  have hsettles : PayloadSettles asFields january15 (since (newYear 2027 (by decide))) := by
    intro t ht
    cases ht
    refine ⟨fun d hd => ?_, fun d hd => by cases hd⟩
    cases hd
    decide +kernel
  have hall := (filter_promises_iff h).mpr hsettles
  exact ⟨hall.2.2.1, hall.2.2.2.2⟩

theorem far_start_parsed_again :
    construct asFields january15 (since (newYear 2030 (by decide))) =
        .ok (since (newYear 2029 (by decide))) ∧
      ¬ NotAhead january15 (since (newYear 2029 (by decide))) ∧
      construct asFields january15 (asFields.dump (since (newYear 2029 (by decide)))) =
        .ok (since (newYear 2028 (by decide))) := by
  refine ⟨by decide +kernel, ?_, by decide +kernel⟩
  rintro ⟨hs, _⟩
  have hle := hs (newYear 2029 (by decide)) rfl
  exact absurd hle (by decide +kernel)

end TimeFilters
