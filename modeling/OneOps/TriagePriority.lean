import OneOps.TriageStores

/-! Impact, urgency and priority of an incident in triage. The model's answer is validated
against the vocabularies and the priority read from the matrix of the service schema; a
reporter who is a VIP is meant to be at the top of the impact axis. -/
namespace TriagePriority

open PythonJson
open TriageService
open PythonText (strip)
open TriageStores (truthy)

def validImpacts : List String := ["Low", "On Users", "On Department", "On Business"]

def validUrgencies : List String := ["Low", "Medium", "High", "Urgent"]

def impactOf (s : String) : Option Impact :=
  [Impact.low, .onUsers, .onDepartment, .onBusiness].find? fun i => i.text = s

def levelOf (s : String) : Option Level :=
  [Level.low, .medium, .high, .urgent].find? fun l => l.text = s

def safeDefaultImpact : Impact := .onUsers

def safeDefaultUrgency : Level := .medium

inductive Raised where
  | attributeError
  | typeError
  | runtimeError (message : String)
  | other (name : String)
  deriving DecidableEq, Repr

/-- A value of any type: plain data, or an instance of a class with what `str` makes of the
answers of its `get`, if it has one. -/
inductive Returned where
  | value (v : Value)
  | object (get : Option (String → Except Raised String))

inductive Inference where
  | absent
  | raised
  | returned (r : Returned)

def Returned.text (str : Value → String) (r : Returned) (key : String) : Except Raised String :=
  match r with
  | .value (.dict items) =>
    .ok (str (((items.find? fun item => item.1 = .str key).map Prod.snd).getD (.str "")))
  | .value _ => .error .attributeError
  | .object none => .error .attributeError
  | .object (some get) => get key

/-- The two axes with where each comes from. -/
structure Judgement where
  impact : Impact
  urgency : Level
  impactBasis : String
  urgencyBasis : String
  deriving DecidableEq, Repr

def safeDefault (basis : String) : Judgement :=
  ⟨safeDefaultImpact, safeDefaultUrgency, basis, basis⟩

def incidentPath (str : Value → String) (vipFlag : Bool) (infer : Inference) :
    Except Raised Judgement :=
  match infer with
  | .absent => .ok (safeDefault "safe_default_no_llm")
  | .raised => .ok (safeDefault "safe_default_llm_exception")
  | .returned result => do
    let rawImpact := strip (← result.text str "impact")
    let rawUrgency := strip (← result.text str "urgency")
    let impact := (impactOf rawImpact).getD safeDefaultImpact
    let urgency := (levelOf rawUrgency).getD safeDefaultUrgency
    let basis (ok : Bool) := if ok then "llm_inferred" else "safe_default_llm_invalid"
    pure
      { impact := if vipFlag ∧ impact ≠ .onBusiness then .onBusiness else impact
        urgency := urgency
        impactBasis := basis (impactOf rawImpact).isSome ++
          if vipFlag then "+vip_override" else ""
        urgencyBasis := basis (levelOf rawUrgency).isSome }

def member (members : List (String × Doc)) (name : String) : Option Doc :=
  members.reverse.lookup name

@[simp] theorem member_nil (name : String) : member [] name = none := rfl

def getMember (d : Doc) (name : String) (default : Doc) : Except Raised Doc :=
  match d with
  | .obj members => .ok ((member members name).getD default)
  | _ => .error .attributeError

/-- `_lookup_priority`. Asking whether a list or a dict is in a set raises. -/
def lookupPriority (matrix : Doc) (impact : Impact) (urgency : Level) : Except Raised Level := do
  let row ← getMember matrix impact.text (.obj [])
  let cell ← getMember row urgency.text .null
  match cell with
  | .arr _ => .error .typeError
  | .obj _ => .error .typeError
  | .str s => pure ((levelOf s).getD .medium)
  | _ => pure .medium

/-- What the tool reads of a ticket row; a missing key reads as `None`. -/
structure TicketRow where
  title : Doc
  description : Doc
  incidentId : Doc
  requestId : Doc

def strippedText (d : Doc) : Except Raised String :=
  match d with
  | .str s => .ok (strip s)
  | _ => if truthy d then .error .attributeError else .ok ""

structure PrioritizationResult where
  impact : Impact
  urgency : Level
  priority : Level
  basis : List (String × String)

def given (s : Option String) : Bool := s.any fun v => v ≠ ""

def noSignal (str : Value → String) (row : TicketRow) : Raised :=
  let name := if truthy row.incidentId then str (loads row.incidentId)
    else if truthy row.requestId then str (loads row.requestId)
    else "?"
  .runtimeError (name ++
    ": no signal to prioritize on (title, description, category, catalog all empty)")

def prioritizeEntity (str : Value → String) (row : TicketRow)
    (suggestedCategory suggestedCatalogItemId : Option String) (vipFlag : Bool)
    (infer : Inference) (matrix : Doc) : Except Raised PrioritizationResult := do
  let title ← strippedText row.title
  let description ← strippedText row.description
  if title = "" ∧ description = "" ∧ ¬ given suggestedCategory ∧ ¬ given suggestedCatalogItemId then
    .error (noSignal str row)
  else
    let j ← incidentPath str vipFlag infer
    let priority ← lookupPriority matrix j.impact j.urgency
    pure
      { impact := j.impact
        urgency := j.urgency
        priority := priority
        basis := [("impact", j.impactBasis), ("urgency", j.urgencyBasis),
          ("priority", "matrix[" ++ j.impact.text ++ "][" ++ j.urgency.text ++ "]")] }

def HasSignal (row : TicketRow) (suggestedCategory suggestedCatalogItemId : Option String) : Prop :=
  (∃ s, row.title = .str s ∧ strip s ≠ "") ∨ (∃ s, row.description = .str s ∧ strip s ≠ "") ∨
    given suggestedCategory = true ∨ given suggestedCatalogItemId = true

def cellLevel (matrix : Doc) (impact : Impact) (urgency : Level) : Option Level :=
  match matrix with
  | .obj rows =>
    match member rows impact.text with
    | some (.obj cells) =>
      match member cells urgency.text with
      | some (.str s) => levelOf s
      | _ => none
    | _ => none
  | _ => none

/-- Both axes in their vocabulary, the priority from the matrix, and the VIP floor. -/
structure Prioritized (vipFlag : Bool) (matrix : Doc) (r : PrioritizationResult) : Prop where
  impact : r.impact.text ∈ validImpacts
  urgency : r.urgency.text ∈ validUrgencies
  priority : r.priority = (cellLevel matrix r.impact r.urgency).getD .medium
  vip : vipFlag = true → r.impact = .onBusiness

/-- The axes that an inference gives, the safe defaults where it gives none. -/
def inferred (str : Value → String) : Inference → Impact × Level
  | .returned r =>
    match r.text str "impact", r.text str "urgency" with
    | .ok i, .ok u =>
      ((impactOf (strip i)).getD safeDefaultImpact, (levelOf (strip u)).getD safeDefaultUrgency)
    | _, _ => (safeDefaultImpact, safeDefaultUrgency)
  | _ => (safeDefaultImpact, safeDefaultUrgency)

def floored (vipFlag : Bool) (impact : Impact) : Impact := if vipFlag then .onBusiness else impact

/-- No answer where the reporter is no VIP, or an answer with a `get` that can be read. -/
inductive Answered (str : Value → String) (vipFlag : Bool) : Inference → Prop where
  | absent (h : vipFlag = false) : Answered str vipFlag .absent
  | raised (h : vipFlag = false) : Answered str vipFlag .raised
  | returned (r : Returned) (i u : String) (hi : r.text str "impact" = .ok i)
      (hu : r.text str "urgency" = .ok u) : Answered str vipFlag (.returned r)

def Readable (d : Doc) : Prop := (∃ s, d = .str s) ∨ truthy d = false

def WellFormedAt (matrix : Doc) (impact : Impact) (urgency : Level) : Prop :=
  ∃ rows, matrix = .obj rows ∧ (member rows impact.text = none ∨
    ∃ cells, member rows impact.text = some (.obj cells) ∧
      ∀ cell, member cells urgency.text = some cell →
        (∀ xs, cell ≠ .arr xs) ∧ ∀ members, cell ≠ .obj members)

/-- Nothing that is read is of a kind that cannot be, and a VIP's inference has answered. -/
structure Sound (str : Value → String) (row : TicketRow) (vipFlag : Bool) (infer : Inference)
    (matrix : Doc) : Prop where
  title : Readable row.title
  description : Readable row.description
  answered : Answered str vipFlag infer
  matrix : WellFormedAt matrix (floored vipFlag (inferred str infer).1) (inferred str infer).2

theorem impact_text_mem (i : Impact) : i.text ∈ validImpacts := by
  cases i <;> decide

theorem level_text_mem (l : Level) : l.text ∈ validUrgencies := by
  cases l <;> decide

variable {str : Value → String} {row : TicketRow} {vipFlag : Bool} {infer : Inference}
  {matrix : Doc} {suggestedCategory suggestedCatalogItemId : Option String}

theorem strippedText_ok_iff {d : Doc} : (∃ s, strippedText d = .ok s) ↔ Readable d := by
  unfold Readable strippedText
  cases d with
  | str s => exact iff_of_true ⟨_, rfl⟩ (.inl ⟨s, rfl⟩)
  | _ =>
    dsimp only
    split
    · next h => simp [h]
    · next h => exact iff_of_true ⟨_, rfl⟩ (.inr (by simpa using h))

theorem lookupPriority_eq_ok_iff {impact : Impact} {urgency priority : Level} :
    lookupPriority matrix impact urgency = .ok priority ↔
      WellFormedAt matrix impact urgency ∧
        priority = (cellLevel matrix impact urgency).getD .medium := by
  unfold lookupPriority WellFormedAt cellLevel
  cases matrix with
  | obj rows =>
    simp only [getMember, bind, Except.bind]
    cases hrow : member rows impact.text with
    | none => simp [pure, Except.pure, eq_comm, hrow]
    | some d =>
      cases d with
      | obj cells =>
        simp only [Option.getD_some]
        cases hcell : member cells urgency.text with
        | none => simp [pure, Except.pure, eq_comm, hrow, hcell]
        | some cell => cases cell <;> simp [pure, Except.pure, eq_comm, hrow, hcell]
      | _ => simp [hrow]
  | _ => simp [getMember, bind, Except.bind]

theorem prioritizeEntity_eq_ok_iff {r : PrioritizationResult}
    (hsignal : HasSignal row suggestedCategory suggestedCatalogItemId) :
    prioritizeEntity str row suggestedCategory suggestedCatalogItemId vipFlag infer matrix = .ok r ↔
      Readable row.title ∧ Readable row.description ∧
      ∃ j, incidentPath str vipFlag infer = .ok j ∧
        lookupPriority matrix j.impact j.urgency = .ok r.priority ∧
        r = ⟨j.impact, j.urgency, r.priority,
          [("impact", j.impactBasis), ("urgency", j.urgencyBasis),
            ("priority", "matrix[" ++ j.impact.text ++ "][" ++ j.urgency.text ++ "]")]⟩ := by
  have hgo : ∀ {title description : String}, strippedText row.title = .ok title →
      strippedText row.description = .ok description →
      ¬ (title = "" ∧ description = "" ∧ ¬ given suggestedCategory ∧
        ¬ given suggestedCatalogItemId) := by
    rintro title description ht hd ⟨rfl, rfl, hcategory, hcatalog⟩
    rcases hsignal with ⟨s, hs, hne⟩ | ⟨s, hs, hne⟩ | h | h
    · rw [hs] at ht
      exact hne (Except.ok.inj ht)
    · rw [hs] at hd
      exact hne (Except.ok.inj hd)
    · exact hcategory h
    · exact hcatalog h
  unfold prioritizeEntity
  constructor
  · intro h
    obtain ⟨title, ht, h⟩ := ExceptLoops.bind_eq_ok.mp h
    obtain ⟨description, hd, h⟩ := ExceptLoops.bind_eq_ok.mp h
    rw [if_neg (hgo ht hd)] at h
    obtain ⟨j, hj, h⟩ := ExceptLoops.bind_eq_ok.mp h
    obtain ⟨priority, hp, h⟩ := ExceptLoops.bind_eq_ok.mp h
    cases h
    exact ⟨strippedText_ok_iff.mp ⟨_, ht⟩, strippedText_ok_iff.mp ⟨_, hd⟩, j, hj, hp, rfl⟩
  · rintro ⟨htitle, hdescription, j, hj, hp, hr⟩
    obtain ⟨title, ht⟩ := strippedText_ok_iff.mpr htitle
    obtain ⟨description, hd⟩ := strippedText_ok_iff.mpr hdescription
    simp only [ht, hd, bind, Except.bind]
    rw [if_neg (hgo ht hd), hr]
    simp only [hj, hp, pure, Except.pure]

theorem incidentPath_eq_ok {j : Judgement} (h : incidentPath str vipFlag infer = .ok j)
    (hvip : vipFlag = true → j.impact = .onBusiness) :
    Answered str vipFlag infer ∧ j.impact = floored vipFlag (inferred str infer).1 ∧
      j.urgency = (inferred str infer).2 := by
  have hdefault : ∀ basis : String, (vipFlag = true → (safeDefault basis).impact = .onBusiness) →
      vipFlag = false := by
    intro basis hv
    cases hf : vipFlag with
    | false => rfl
    | true => exact absurd (hv hf) (by simp [safeDefault, safeDefaultImpact])
  cases infer with
  | absent =>
    cases h
    have hf := hdefault _ hvip
    exact ⟨.absent hf, by simp [hf, floored, inferred, safeDefault], rfl⟩
  | raised =>
    cases h
    have hf := hdefault _ hvip
    exact ⟨.raised hf, by simp [hf, floored, inferred, safeDefault], rfl⟩
  | returned result =>
    obtain ⟨i, hi, h⟩ := ExceptLoops.bind_eq_ok.mp h
    obtain ⟨u, hu, h⟩ := ExceptLoops.bind_eq_ok.mp h
    cases h
    refine ⟨.returned result i u hi hu, ?_, ?_⟩
    · simp only [inferred, hi, hu, floored]
      cases vipFlag with
      | false => simp
      | true =>
        by_cases hb : (impactOf (strip i)).getD safeDefaultImpact = .onBusiness <;> simp [hb]
    · simp only [inferred, hi, hu]

theorem incidentPath_of_answered (h : Answered str vipFlag infer) :
    ∃ j, incidentPath str vipFlag infer = .ok j ∧ (vipFlag = true → j.impact = .onBusiness) := by
  cases h with
  | absent hf => exact ⟨_, rfl, by simp [hf]⟩
  | raised hf => exact ⟨_, rfl, by simp [hf]⟩
  | returned r i u hi hu =>
    simp only [incidentPath, hi, hu, bind, Except.bind, pure, Except.pure]
    refine ⟨_, rfl, ?_⟩
    rintro rfl
    by_cases hb : (impactOf (strip i)).getD safeDefaultImpact = .onBusiness <;> simp [hb]

def vpnRow : TicketRow := ⟨.str "VPN down", .null, .str "INC0000001", .null⟩

def smallMatrix : Doc :=
  .obj [("On Users", .obj [("Medium", .str "Low")]),
    ("On Business", .obj [("Medium", .str "High")])]

def plainStr : Value → String
  | .str s => s
  | _ => "None"

theorem vpnRow_signal : HasSignal vpnRow none none := .inl ⟨"VPN down", rfl, by decide⟩

def inferredReply : Inference :=
  .returned (.value (.dict [(.str "impact", .str " On Users "), (.str "urgency", .str "soon")]))

end TriagePriority
