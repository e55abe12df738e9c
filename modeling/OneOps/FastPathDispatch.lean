import OneOps.FastPathFields
import OneOps.RegistryReads
import OneOps.RouterPlan

/-! The dispatcher of the fast path: inputs that the caller gives as a JSON object are
checked against the fields that the agent declares, cast to their types and written into a
plan of one step. What it refuses it refuses with an error of its own; the casts raise
others on numbers that are too large. -/
namespace FastPathDispatch

open FastPathCasts
open FastPathFields
open PythonText (strip)
open VersionedRegistry (Store RegistryRecord RecordStatus)
open RegistryReads (getOptional)
open EntityIds (EntityIdNormalizer)
open PythonNumbers (Long)

variable {F : Type}

section Dispatch

variable (P : Python F) (normalizer : EntityIdNormalizer)

/-- The names of the fields are checked to be distinct where the fast path is enabled. -/
structure FastPathSpec where
  enabled : Bool
  primaryToolId : String
  inputFields : List FastPathInputField
  nonempty : inputFields ≠ []
  names_nodup : enabled = true → (inputFields.map FastPathInputField.name).Nodup

structure AgentFields where
  fastPath : Option FastPathSpec

def coerceInputs (spec : FastPathSpec) (inputs : Inputs F) (ucId : String) :
    Except Raised (Parameters F) := do
  let (params, missing) ← readFields P normalizer inputs spec.inputFields ([], [])
  if missing = [] then .ok params
  else
    .error (.fastPath ("use case " ++ P.quoted ucId ++ " fast-path requires fields: " ++
      quotedList P missing))

def written (p : String × Value F) : Except Raised (String × String) :=
  match str P p.2 with
  | none => .error .valueError
  | some t => .ok (p.1, t)

structure FastPathDispatchResult (F : Type) where
  plan : List RouterPlan.PlanStep
  parameters : Parameters F

structure FastPathRequest (F : Type) where
  ucId : String
  inputs : Inputs F

def statusValue : RecordStatus → String
  | .draft => "draft"
  | .active => "active"
  | .deprecated => "deprecated"
  | .retired => "retired"

def servedSpec (D : Store AgentFields) (ucId : String) : Except Raised FastPathSpec :=
  if ucId = "" then .error (.fastPath "uc_id is required")
  else
    match getOptional D ucId with
    | none => .error (.fastPath ("unknown use case " ++ P.quoted ucId))
    | some agent =>
      if agent.status ≠ .active then
        .error (.fastPath ("use case " ++ P.quoted ucId ++ " is not active (status=" ++
          statusValue agent.status ++ ")"))
      else
        match agent.body.fastPath.filter fun spec => spec.enabled with
        | none => .error (.fastPath ("use case " ++ P.quoted ucId ++
            " does not expose a fast-path entry"))
        | some spec => .ok spec

def unknownNames (spec : FastPathSpec) (inputs : Inputs F) : List String :=
  (inputs.map Prod.fst).filter fun k => k ∉ spec.inputFields.map FastPathInputField.name

def dispatch (D : Store AgentFields) (request : FastPathRequest F) :
    Except Raised (FastPathDispatchResult F) := do
  let ucId := strip request.ucId
  let spec ← servedSpec P D ucId
  let unknown := unknownNames spec request.inputs
  if unknown ≠ [] then
    .error (.fastPath ("use case " ++ P.quoted ucId ++ " received unknown fast-path fields: " ++
      quotedList P unknown))
  else
    let params ← coerceInputs P normalizer spec request.inputs ucId
    let parameters ← params.mapM (written P)
    pure ⟨[⟨"step_1", ucId, parameters, [], [], []⟩], params⟩

/-- A value and its text in the plan: the field reads the text back as the value. -/
structure Faithful (spec : FastPathSpec) (param : String × Value F) (text : String × String) :
    Prop where
  name : text.1 = param.1
  declared : ∃ field ∈ spec.inputFields, field.name = param.1 ∧ HasType field.type param.2 ∧
    coerce P field (.str text.2) = .ok param.2

structure Validated (spec : FastPathSpec) (ucId : String) (r : FastPathDispatchResult F) :
    Prop where
  oneStep : ∃ parameters, r.plan = [⟨"step_1", ucId, parameters, [], [], []⟩] ∧
    List.Forall₂ (Faithful P spec) r.parameters parameters
  required : ∀ field ∈ spec.inputFields, field.required = true →
    field.name ∈ r.parameters.map Prod.fst

/-- Only the dispatcher's own error is raised, and what is returned is validated. -/
structure StrictGate (D : Store AgentFields) (request : FastPathRequest F) : Prop where
  errors : ∀ e, dispatch P normalizer D request = .error e → ∃ m, e = .fastPath m
  results : ∀ r, dispatch P normalizer D request = .ok r →
    ∃ spec, servedSpec P D (strip request.ucId) = .ok spec ∧
      Validated P spec (strip request.ucId) r

/-- Unless the call is refused before its fields are read: no field overflows that comes
before any refused one, and if none is refused or missing, no integer is long. -/
structure Harmless (D : Store AgentFields) (request : FastPathRequest F) : Prop where
  casts : ∀ spec, servedSpec P D (strip request.ucId) = .ok spec →
    unknownNames spec request.inputs = [] → ∀ before field later,
      spec.inputFields = before ++ field :: later →
        (∀ g ∈ before, Passes P normalizer request.inputs g) →
          ¬FieldOverflows P request.inputs field
  texts : ∀ spec, servedSpec P D (strip request.ucId) = .ok spec →
    unknownNames spec request.inputs = [] →
      (∀ g ∈ spec.inputFields, Passes P normalizer request.inputs g ∧
        ¬Misses P normalizer request.inputs g) →
      ∀ field ∈ spec.inputFields, field.type = "int" →
        ∀ n, input request.inputs field.name = .int n → ¬Long n

variable {P normalizer}

theorem written_escapes {params : Parameters F} :
    Escapes (params.mapM (written P)) ↔ ∃ p ∈ params, HoldsLong p.2 := by
  induction params with
  | nil => simp [pure, Except.pure]
  | cons p params ih =>
    rw [List.mapM_cons, escapes_bind]
    simp only [escapes_bind, ih, List.mem_cons, exists_eq_or_imp, pure, Except.pure,
      not_escapes_ok, and_false, exists_false, or_false]
    unfold written
    cases hs : str P p.2 with
    | none => simp [str_eq_none.mp hs]
    | some t =>
      have hno : ¬HoldsLong p.2 := fun hl => by simp [str_eq_none.mpr hl] at hs
      simp [hno]

theorem servedSpec_not_escapes (D : Store AgentFields) (ucId : String) :
    ¬Escapes (servedSpec P D ucId) := by
  unfold servedSpec
  by_cases hid : ucId = ""
  · simp [hid]
  · rw [if_neg hid]
    cases getOptional D ucId with
    | none => simp
    | some agent =>
      by_cases hs : agent.status ≠ .active
      · simp [hs]
      · simp only [hs, if_false]
        cases agent.body.fastPath.filter fun spec => spec.enabled <;> simp

theorem servedSpec_enabled {D : Store AgentFields} {ucId : String} {spec : FastPathSpec}
    (h : servedSpec P D ucId = .ok spec) : spec.enabled = true := by
  unfold servedSpec at h
  by_cases hid : ucId = ""
  · simp [hid] at h
  · rw [if_neg hid] at h
    cases hg : getOptional D ucId with
    | none => simp [hg] at h
    | some agent =>
      by_cases hs : agent.status ≠ .active
      · simp [hg, hs] at h
      · simp only [hg, hs, if_false] at h
        cases hf : agent.body.fastPath.filter fun spec => spec.enabled with
        | none => simp [hf] at h
        | some s =>
          simp only [hf, Except.ok.injEq] at h
          rw [← h]
          exact (Option.filter_eq_some_iff.mp hf).2

theorem coerceInputs_escapes {spec : FastPathSpec} {inputs : Inputs F} {ucId : String} :
    Escapes (coerceInputs P normalizer spec inputs ucId) ↔
      Escapes (readFields P normalizer inputs spec.inputFields ([], [])) := by
  rw [coerceInputs, escapes_bind, or_iff_left]
  rintro ⟨⟨params, missing⟩, -, h⟩
  by_cases hm : missing = []
  · simp [hm] at h
  · simp [hm] at h

theorem coerceInputs_ok {spec : FastPathSpec} {inputs : Inputs F} {ucId : String}
    {params : Parameters F} :
    coerceInputs P normalizer spec inputs ucId = .ok params ↔
      readFields P normalizer inputs spec.inputFields ([], []) = .ok (params, []) := by
  rw [coerceInputs, ExceptLoops.bind_eq_ok]
  constructor
  · rintro ⟨⟨params', missing⟩, hread, h⟩
    by_cases hm : missing = []
    · simp only [hm, if_true, Except.ok.injEq] at h
      rw [hread, hm, h]
    · simp [hm] at h
  · intro hread
    exact ⟨_, hread, rfl⟩

theorem dispatch_ok {D : Store AgentFields} {request : FastPathRequest F}
    {r : FastPathDispatchResult F} (h : dispatch P normalizer D request = .ok r) :
    ∃ spec parameters, servedSpec P D (strip request.ucId) = .ok spec ∧
      readFields P normalizer request.inputs spec.inputFields ([], []) = .ok (r.parameters, []) ∧
      r.parameters.mapM (written P) = .ok parameters ∧
      r.plan = [⟨"step_1", strip request.ucId, parameters, [], [], []⟩] := by
  unfold dispatch at h
  obtain ⟨spec, hspec, h⟩ := ExceptLoops.bind_eq_ok.mp h
  by_cases hu : unknownNames spec request.inputs ≠ []
  · simp [hu] at h
  · rw [if_neg hu] at h
    obtain ⟨params, hparams, h⟩ := ExceptLoops.bind_eq_ok.mp h
    obtain ⟨parameters, hwritten, h⟩ := ExceptLoops.bind_eq_ok.mp h
    cases h
    exact ⟨spec, parameters, hspec, coerceInputs_ok.mp hparams, hwritten, rfl⟩

theorem dispatch_escapes {D : Store AgentFields} {request : FastPathRequest F} :
    Escapes (dispatch P normalizer D request) ↔
      ∃ spec, servedSpec P D (strip request.ucId) = .ok spec ∧
        unknownNames spec request.inputs = [] ∧
        (Escapes (readFields P normalizer request.inputs spec.inputFields ([], [])) ∨
          ∃ params, readFields P normalizer request.inputs spec.inputFields ([], []) =
            .ok (params, []) ∧ ∃ p ∈ params, HoldsLong p.2) := by
  rw [dispatch, escapes_bind, or_iff_right (servedSpec_not_escapes D _)]
  apply exists_congr
  intro spec
  apply and_congr_right
  intro _
  by_cases hu : unknownNames spec request.inputs = []
  · have hu' : ¬unknownNames spec request.inputs ≠ [] := not_not_intro hu
    rw [if_neg hu', escapes_bind, coerceInputs_escapes]
    simp only [coerceInputs_ok, escapes_bind, written_escapes, pure, Except.pure,
      not_escapes_ok, and_false, exists_false, or_false, hu, true_and]
  · simp [hu]

theorem served_names_nodup {D : Store AgentFields} {ucId : String} {spec : FastPathSpec}
    (h : servedSpec P D ucId = .ok spec) :
    (spec.inputFields.map FastPathInputField.name).Nodup :=
  spec.names_nodup (servedSpec_enabled h)

theorem readAll {D : Store AgentFields} {ucId : String} {spec : FastPathSpec}
    (hspec : servedSpec P D ucId = .ok spec) {inputs : Inputs F}
    {read : Parameters F × List String}
    (h : readFields P normalizer inputs spec.inputFields ([], []) = .ok read) :
    ReadsAll P normalizer inputs spec.inputFields ([], []) read :=
  readFields_ok h (served_names_nodup hspec) (by simp)

theorem dispatch_validated {D : Store AgentFields} {request : FastPathRequest F}
    {r : FastPathDispatchResult F} (h : dispatch P normalizer D request = .ok r) :
    ∃ spec, servedSpec P D (strip request.ucId) = .ok spec ∧
      Validated P spec (strip request.ucId) r := by
  obtain ⟨spec, parameters, hspec, hread, hwritten, hplan⟩ := dispatch_ok h
  have hall := readAll hspec hread
  have hset : ∀ p ∈ r.parameters, ∃ field ∈ spec.inputFields, field.name = p.1 ∧
      resolveFieldValue P normalizer request.inputs field = .ok (.set p.2) := by
    intro p hp
    simpa using (hall.params p).mp hp
  refine ⟨spec, hspec, ⟨parameters, hplan, ?_⟩, ?_⟩
  · have hzip := ExceptLoops.mapM_eq_ok.mp hwritten
    have hmem := List.forall₂_iff_zip.mp hzip
    refine List.forall₂_iff_zip.mpr ⟨hmem.1, ?_⟩
    intro p q hpq
    obtain ⟨field, hf, hname, hres⟩ := hset p (List.of_mem_zip hpq).1
    obtain ⟨-, v, htakes, hcoerce⟩ := resolve_set.mp hres
    obtain ⟨htype, hback, -⟩ := coerce_faithful htakes.ne_null hcoerce
    have hw : written P p = .ok q := hmem.2 hpq
    cases hs : str P p.2 with
    | none => simp [written, hs] at hw
    | some t =>
      simp only [written, hs, Except.ok.injEq] at hw
      subst hw
      exact ⟨rfl, field, hf, hname, htype, hback t hs⟩
  · intro field hf hreq
    have hmiss : ¬Misses P normalizer request.inputs field :=
      (hall.missing.mp rfl).2 field hf
    obtain ⟨v, htakes⟩ : ∃ v, Takes P normalizer request.inputs field v := by
      by_contra hno
      exact hmiss ⟨hreq, not_exists.mp hno⟩
    have hpass := hall.passes field hf
    obtain ⟨w, hw⟩ := (coerce_ok htakes.ne_null).mpr (hpass.1 v htakes)
    exact List.mem_map.mpr ⟨(field.name, w),
      (hall.params _).mpr (.inr ⟨field, hf, rfl, resolve_set.mpr ⟨hpass, v, htakes, hw⟩⟩), rfl⟩

/-- A long integer among the values that are written out was given for an integer field. -/
theorem long_param_iff {D : Store AgentFields} {ucId : String} {spec : FastPathSpec}
    (hspec : servedSpec P D ucId = .ok spec) {inputs : Inputs F}
    {read : Parameters F × List String}
    (h : readFields P normalizer inputs spec.inputFields ([], []) = .ok read) :
    (∃ p ∈ read.1, HoldsLong p.2) ↔ ∃ field ∈ spec.inputFields, field.type = "int" ∧
      ∃ n, input inputs field.name = .int n ∧ Long n := by
  have hall := readAll hspec h
  constructor
  · rintro ⟨p, hp, hlong⟩
    obtain ⟨field, hf, hname, hres⟩ : ∃ field ∈ spec.inputFields, field.name = p.1 ∧
        resolveFieldValue P normalizer inputs field = .ok (.set p.2) := by
      simpa using (hall.params p).mp hp
    obtain ⟨-, v, htakes, hcoerce⟩ := resolve_set.mp hres
    obtain ⟨htype, -, hl⟩ := coerce_faithful htakes.ne_null hcoerce
    obtain ⟨hint, rfl⟩ := hl hlong
    refine ⟨field, hf, hint, ?_⟩
    rcases htakes with ⟨-, hv⟩ | ⟨-, -, s, -, hv⟩
    · rw [← hv]
      obtain ⟨n, hn⟩ : ∃ n, p.2 = .int n := by
        simpa [HasType, hint] using htype
      exact ⟨n, hn, by simpa [hn, HoldsLong] using hlong⟩
    · rw [hv] at hlong
      exact absurd hlong (by simp [HoldsLong])
  · rintro ⟨field, hf, hint, n, hn, hlong⟩
    have htakes : Takes P normalizer inputs field (.int n) := .inl ⟨by rw [hn]; rfl, hn.symm⟩
    have hcoerce : coerce P field (.int n) = .ok (.int n) := by
      rw [coerce_of_ne_null htakes.ne_null, hint]
      rfl
    exact ⟨(field.name, .int n), (hall.params _).mpr (.inr ⟨field, hf, rfl,
      resolve_set.mpr ⟨hall.passes field hf, _, htakes, hcoerce⟩⟩), hlong⟩

theorem readFields_complete {D : Store AgentFields} {ucId : String} {spec : FastPathSpec}
    (hspec : servedSpec P D ucId = .ok spec) {inputs : Inputs F} :
    (∃ params, readFields P normalizer inputs spec.inputFields ([], []) = .ok (params, [])) ↔
      ∀ g ∈ spec.inputFields, Passes P normalizer inputs g ∧ ¬Misses P normalizer inputs g := by
  constructor
  · rintro ⟨params, h⟩ g hg
    have hall := readAll hspec h
    exact ⟨hall.passes g hg, (hall.missing.mp rfl).2 g hg⟩
  · intro h
    have hex : ∃ read, readFields P normalizer inputs spec.inputFields ([], []) = .ok read :=
      readFields_isOk.mpr fun g hg => (h g hg).1
    obtain ⟨⟨params, missing⟩, hread⟩ := hex
    have hnone : missing = [] :=
      (readAll hspec hread).missing.mpr ⟨rfl, fun g hg => (h g hg).2⟩
    exact ⟨params, by rw [hread, hnone]⟩

end Dispatch

/-- The floats that stand for no number or for a small one. -/
inductive Special where
  | nan | infinity | zero | one
  deriving DecidableEq

def Special.text : Special → String
  | .nan => "nan"
  | .infinity => "inf"
  | .zero => "0.0"
  | .one => "1.0"

def asciiDecimals : PythonNumbers.Decimals where
  value c := if c.isDigit then some (c.toNat - 48) else none
  value_lt c d h := by
    by_cases hc : c.isDigit
    · have := PythonText.isDigit_iff.mp hc
      simp only [hc, if_true, Option.some.injEq] at h
      omega
    · simp [hc] at h
  value_ascii _ _ := rfl

example : PythonNumbers.intOf asciiDecimals " +1_0 " = some 10 := by decide

def specialPython : Python Special where
  toLowering := PythonText.asciiLowering
  decimals := asciiDecimals
  quoted s := "'" ++ s ++ "'"
  zero := .zero
  one := .one
  isZero x := x = .zero
  trunc
    | .nan => .nan
    | .infinity => .infinite
    | .zero => .whole 0
    | .one => .whole 1
  trunc_short x n h := by
    cases x <;> cases h <;> decide +kernel
  ofInt n := if n = 0 then some .zero else if n = 1 then some .one else none
  ofStr s := [Special.nan, .infinity, .zero, .one].find? fun x => x.text = s
  reprFloat := Special.text
  ofStr_repr x := by
    cases x <;> decide

def incidentNormalizer : EntityIdNormalizer where
  prefixToService := [("INC", "incident")]
  prefixes := ["INC"]
  known := .refl _
  distinct := List.nodup_singleton _
  longest_first := List.pairwise_singleton _ _
  nonempty := List.cons_ne_nil _ _

def limitField : FastPathInputField := ⟨"limit", "int", false, none⟩

def limitSpec : FastPathSpec where
  enabled := true
  primaryToolId := "list_tickets"
  inputFields := [limitField]
  nonempty := List.cons_ne_nil _ _
  names_nodup _ := List.nodup_singleton _

def limitAgents : Store AgentFields :=
  VersionedRegistry.after "agents"
    [.create ⟨"uc1", 1, .draft, ⟨some limitSpec⟩⟩, .activate "uc1" 1]

def limitRequest (limit : Value Special) : FastPathRequest Special := ⟨"uc1", [("limit", limit)]⟩

end FastPathDispatch
