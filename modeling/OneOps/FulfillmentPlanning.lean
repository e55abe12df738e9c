import OneOps.ExceptLoops
import OneOps.FulfillmentContracts

/-! Deterministic plan materialisation from a validated catalog template. Python's
`str.format` is a parameter: the code only relies on which exceptions it catches. -/
namespace FulfillmentPlanning

open FulfillmentContracts

/-- The exceptions of `str.format`; the first three leave the placeholder in place. -/
inductive FormatError where
  | keyError | indexError | valueError
  | other (message : String)

def asciiLetter (c : Char) : Bool := ('a' ≤ c ∧ c ≤ 'z') ∨ ('A' ≤ c ∧ c ≤ 'Z')

def asciiWord (c : Char) : Bool := asciiLetter c ∨ ('0' ≤ c ∧ c ≤ '9') ∨ c = '_'

/-- `^[a-zA-Z][a-zA-Z0-9_]*$`, where `$` also accepts one trailing newline. -/
def safeVarKey (k : String) : Bool :=
  let body := if k.toList.getLast? = some '\n' then k.toList.dropLast else k.toList
  match body with
  | [] => false
  | c :: rest => asciiLetter c && rest.all asciiWord

def sanitiseVariables (vars : JsonObject) : JsonObject := vars.filter fun kv => safeVarKey kv.1

def maxTemplateDepth : ℕ := 16

variable (format : String → JsonObject → Except FormatError String)

mutual

/-- `_walk`: leaf strings are formatted, containers are walked, the rest passes through. -/
def walk (safeVars : JsonObject) (depth : ℕ) (v : Json) : Except FulfillmentError Json :=
  if maxTemplateDepth < depth then
    .error ⟨.invalidTemplate, "catalog template nested beyond max depth 16"⟩
  else
    match v with
    | .str s =>
      match format s safeVars with
      | .ok t => .ok (.str t)
      | .error (.other message) => .error ⟨.other, message⟩
      | .error _ => .ok (.str s)
    | .obj fields => (walkFields safeVars (depth + 1) fields).map .obj
    | .arr xs => (walkItems safeVars (depth + 1) xs).map .arr
    | v => .ok v

def walkItems (safeVars : JsonObject) (depth : ℕ) : List Json → Except FulfillmentError (List Json)
  | [] => .ok []
  | x :: xs => do
    let y ← walk safeVars depth x
    let ys ← walkItems safeVars depth xs
    return y :: ys

def walkFields (safeVars : JsonObject) (depth : ℕ) :
    List (String × Json) → Except FulfillmentError (List (String × Json))
  | [] => .ok []
  | (k, x) :: xs => do
    let y ← walk safeVars depth x
    let ys ← walkFields safeVars depth xs
    return (k, y) :: ys

end

def substituteInputTemplate (inputTemplate vars : JsonObject) :
    Except FulfillmentError JsonObject :=
  if inputTemplate.isEmpty then .ok []
  else walkFields format (sanitiseVariables vars) 1 inputTemplate

def perTaskSlaDefault (t : CatalogTemplate) : ℕ :=
  max 1 (t.estimatedTotalMinutes / max 1 t.tasks.length)

def taskInput (t : CatalogTemplateTask) (vars : JsonObject) : Except FulfillmentError JsonObject :=
  match t.inputTemplate with
  | some template => substituteInputTemplate format template vars
  | none => .ok vars

def planItem (sla : ℕ) (t : CatalogTemplateTask) (input : JsonObject) : TaskPlanItem :=
  { templateTaskId := t.taskId
    taskName := t.name
    taskType := t.type
    toolId := t.toolId
    dependsOn := t.dependsOn
    assignmentGroup := t.ownerGroup
    slaMinutes := some (t.slaMinutes.getD sla)
    inputPayload := input }

def planItems (sla : ℕ) (vars : JsonObject) :
    List CatalogTemplateTask → Except FulfillmentError (List TaskPlanItem)
  | [] => .ok []
  | t :: ts => do
    let input ← taskInput format t vars
    let items ← planItems sla vars ts
    return planItem sla t input :: items

def materialisePlanFromTemplate (template : CatalogTemplate) (vars : JsonObject) :
    Except FulfillmentError FulfillmentPlan := do
  let items ← planItems format (perTaskSlaDefault template) vars template.tasks
  let p : FulfillmentPlanFields := ⟨template.catalogItemId, items, template.estimatedTotalMinutes⟩
  if h : p.Valid then return { p with valid := h }
  else .error ⟨.validation, "plan for RITM_PENDING"⟩

theorem planItems_forall {sla : ℕ} {vars : JsonObject} {ts : List CatalogTemplateTask}
    {items : List TaskPlanItem} (h : planItems format sla vars ts = .ok items) :
    List.Forall₂ (fun t i => ∃ input, i = planItem sla t input) ts items := by
  induction ts generalizing items with
  | nil =>
    cases h
    exact .nil
  | cons t ts ih =>
    rw [planItems] at h
    obtain ⟨input, _, h⟩ := ExceptLoops.bind_eq_ok.mp h
    obtain ⟨rest, hrest, h⟩ := ExceptLoops.bind_eq_ok.mp h
    cases h
    exact .cons ⟨input, rfl⟩ (ih hrest)

theorem planItems_mem {sla : ℕ} {vars : JsonObject} {ts : List CatalogTemplateTask}
    {items : List TaskPlanItem} (h : planItems format sla vars ts = .ok items) :
    ∀ i ∈ items, ∃ t ∈ ts, ∃ input, i = planItem sla t input :=
  fun _ => ListSplit.forall₂_right (planItems_forall format h)

theorem sla_default_bounds (t : CatalogTemplate) : minutesInYear (perTaskSlaDefault t) := by
  have hy := t.valid.estimated.2
  have hd : t.estimatedTotalMinutes / max 1 t.tasks.length ≤ t.estimatedTotalMinutes :=
    Nat.div_le_self _ _
  unfold minutesInYear perTaskSlaDefault
  omega

theorem planItem_valid {t : CatalogTemplateTask} {sla : ℕ} (ht : t.Valid) (hs : minutesInYear sla)
    (input : JsonObject) : (planItem sla t input).Valid := by
  obtain ⟨hid, hname, hgroup, htool, hsla⟩ := ht
  refine ⟨hid, hname, htool, hgroup, ?_⟩
  intro m hm
  cases h : t.slaMinutes with
  | none => simp only [planItem, h, Option.getD_none, Option.mem_some_iff] at hm; exact hm ▸ hs
  | some k =>
    simp only [planItem, h, Option.getD_some, Option.mem_some_iff] at hm
    exact hm ▸ hsla k h

theorem planItems_map {β : Type} {sla : ℕ} {vars : JsonObject} {ts : List CatalogTemplateTask}
    {items : List TaskPlanItem} (h : planItems format sla vars ts = .ok items)
    (f : CatalogTemplateTask → β) (g : TaskPlanItem → β)
    (hfg : ∀ t input, g (planItem sla t input) = f t) : items.map g = ts.map f := by
  have hall := planItems_forall format h
  clear h
  induction hall with
  | nil => rfl
  | cons hi _ ih =>
    obtain ⟨input, rfl⟩ := hi
    rw [List.map_cons, List.map_cons, hfg, ih]

/-- A validated template never fails the plan's own validators: the only errors of
materialisation come from the template substitution. -/
theorem materialise_tasks {template : CatalogTemplate} {vars : JsonObject}
    {items : List TaskPlanItem}
    (h : planItems format (perTaskSlaDefault template) vars template.tasks = .ok items) :
    ∃ plan : FulfillmentPlan, materialisePlanFromTemplate format template vars = .ok plan ∧
      plan.tasks = items := by
  have hids : items.map (·.templateTaskId) = template.tasks.map (·.taskId) :=
    planItems_map format h _ _ fun _ _ => rfl
  have hnodes : planNodes items = templateNodes template.tasks :=
    planItems_map format h (fun t => (t.taskId, t.dependsOn)) _ fun _ _ => rfl
  have hlen : items.length = template.tasks.length := by
    simpa using congrArg List.length hids
  have hvalid : FulfillmentPlanFields.Valid
      ⟨template.catalogItemId, items, template.estimatedTotalMinutes⟩ := by
    refine ⟨template.valid.catalog_item_id, template.valid.estimated, ?_, ?_, ?_⟩
    · simpa [hlen] using template.valid.tasks_count
    · intro i hi
      obtain ⟨t, ht, input, rfl⟩ := planItems_mem format h i hi
      exact planItem_valid (template.valid.tasks_valid t ht) (sla_default_bounds template) input
    · simpa [hids, hnodes] using template.valid.dag
  refine ⟨⟨⟨template.catalogItemId, items, template.estimatedTotalMinutes⟩, hvalid⟩, ?_, rfl⟩
  simp [materialisePlanFromTemplate, h, hvalid, bind, Except.bind, pure, Except.pure]

end FulfillmentPlanning
