import OneOps.ExecutorStepRunner

/-! Which of its tools an agent runs for a step that names none. A tool is admissible if the
step has all that it requires. The passes after the declared primary tool leave out the
tools that require nothing, and what is left then need not be admissible. -/
namespace ExecutorToolSelection

open FulfillmentContracts
open ExecutorStepRunner
open RegistryReads
open RegistryService

/-- A candidate of the agent that the registry serves and whose required parameters, those
of the envelope apart, are all in the step. -/
structure Admissible (S : Service) (agent : AgentRecord) (params : JsonObject) (toolId : String)
    (tool : ToolRecord) : Prop where
  candidate : toolId ∈ candidateToolIds agent
  registered : getOptional S.tools toolId = some tool
  satisfied : requiredParams tool ⊆ presentParams params

def specificity (tool : ToolRecord) : ℕ × ℕ := toolSpecificity (requiredParams tool)

def PrimaryFits (S : Service) (agent : AgentRecord) (params : JsonObject) (tool : ToolRecord) :
    Prop :=
  primaryId agent ≠ "" ∧ Admissible S agent params (primaryId agent) tool

structure Selected (S : Service) (agent : AgentRecord) (params : JsonObject) (toolId : String)
    (tool : ToolRecord) : Prop where
  admissible : Admissible S agent params toolId tool
  primary : ∀ t, PrimaryFits S agent params t → toolId = primaryId agent
  best : (∀ t, ¬ PrimaryFits S agent params t) → ∀ otherId other,
    Admissible S agent params otherId other →
      higher (specificity other) (specificity tool) = false ∧
      (higher (specificity tool) (specificity other) = false →
        (candidateToolIds agent).idxOf toolId ≤ (candidateToolIds agent).idxOf otherId)

theorem higher_iff {s t : ℕ × ℕ} : higher s t = true ↔ t.1 < s.1 ∨ (t.1 = s.1 ∧ t.2 < s.2) := by
  simp [higher]

theorem higher_false_iff {s t : ℕ × ℕ} :
    higher s t = false ↔ ¬ (t.1 < s.1 ∨ (t.1 = s.1 ∧ t.2 < s.2)) := by
  rw [← higher_iff, Bool.not_eq_true]

theorem higher_trans {s t u : ℕ × ℕ} (h : higher s t = true) (h' : higher u t = false) :
    higher s u = true := by
  rw [higher_iff] at h ⊢
  rw [higher_false_iff] at h'
  omega

theorem higher_asymm {s t : ℕ × ℕ} (h : higher s t = true) : higher t s = false := by
  rw [higher_iff] at h
  rw [higher_false_iff]
  omega

theorem higher_irrefl (s : ℕ × ℕ) : higher s s = false := by
  rw [higher_false_iff]
  omega

theorem specificity_nil {tool : ToolRecord} (h : requiredParams tool = []) :
    specificity tool = (0, 0) := by
  simp [specificity, toolSpecificity, h]

theorem higher_of_required {tool other : ToolRecord} (h : requiredParams tool ≠ [])
    (ho : requiredParams other = []) : higher (specificity tool) (specificity other) = true := by
  rw [specificity_nil ho, higher_iff]
  exact .inl (List.length_pos_iff.mpr h)

section Best

variable {S : Service} {candidates present : List String}

theorem fitting_iff {toolId : String} {hit : String × ToolRecord} :
    fitting S present toolId = some hit ↔ hit.1 = toolId ∧ getOptional S.tools toolId = some hit.2 ∧
      requiredParams hit.2 ≠ [] ∧ requiredParams hit.2 ⊆ present := by
  unfold fitting
  rw [Option.bind_eq_some_iff]
  constructor
  · rintro ⟨tool, hg, h⟩
    split_ifs at h with hc
    cases h
    exact ⟨rfl, hg, hc⟩
  · rintro ⟨rfl, hg, hc⟩
    exact ⟨hit.2, hg, if_pos hc⟩

def FirstBest (S : Service) (present candidates : List String) (hit : String × ToolRecord) : Prop :=
  ∃ before after, candidates = before ++ hit.1 :: after ∧ fitting S present hit.1 = some hit ∧
    (∀ x ∈ before, ∀ h, fitting S present x = some h →
      higher (specificity hit.2) (specificity h.2) = true) ∧
    ∀ x ∈ after, ∀ h, fitting S present x = some h →
      higher (specificity h.2) (specificity hit.2) = false

theorem FirstBest.snoc_keep {hit : String × ToolRecord} (hb : FirstBest S present candidates hit)
    {x : String} (hx : ∀ h, fitting S present x = some h →
      higher (specificity h.2) (specificity hit.2) = false) :
    FirstBest S present (candidates ++ [x]) hit := by
  obtain ⟨before, after, rfl, hfit, hbefore, hafter⟩ := hb
  refine ⟨before, after ++ [x], by simp, hfit, hbefore, ?_⟩
  intro y hy h hyf
  rcases List.mem_append.mp hy with hy | hy
  · exact hafter y hy h hyf
  · rw [List.mem_singleton.mp hy] at hyf
    exact hx h hyf

theorem FirstBest.snoc_replace {hit new : String × ToolRecord}
    (hb : FirstBest S present candidates hit) {x : String} (hx : fitting S present x = some new)
    (hhigh : higher (specificity new.2) (specificity hit.2) = true) :
    FirstBest S present (candidates ++ [x]) new := by
  obtain ⟨before, after, rfl, hfit, hbefore, hafter⟩ := hb
  have hid : new.1 = x := (fitting_iff.mp hx).1
  refine ⟨before ++ hit.1 :: after, [], by rw [hid], hid ▸ hx, ?_, by simp⟩
  intro y hy h hyf
  rcases List.mem_append.mp hy with hy | hy
  · exact higher_trans hhigh (higher_asymm (hbefore y hy h hyf))
  · rcases List.mem_cons.mp hy with rfl | hy
    · rw [hfit] at hyf
      cases hyf
      exact hhigh
    · exact higher_trans hhigh (hafter y hy h hyf)

theorem bestSpecificityTool_cases (S : Service) (candidates present : List String) :
    (bestSpecificityTool S candidates present = none ∧
      ∀ x ∈ candidates, fitting S present x = none) ∨
    ∃ hit, bestSpecificityTool S candidates present = some hit ∧
      FirstBest S present candidates hit := by
  induction candidates using List.reverseRecOn with
  | nil => exact .inl ⟨rfl, by simp⟩
  | append_singleton candidates x ih =>
    unfold bestSpecificityTool at ih ⊢
    rw [List.foldl_concat]
    cases hx : fitting S present x with
    | none =>
      rcases ih with ⟨hnone, hall⟩ | ⟨hit, hsome, hb⟩
      · refine .inl ⟨by simp [hnone], ?_⟩
        intro y hy
        rcases List.mem_append.mp hy with hy | hy
        · exact hall y hy
        · rw [List.mem_singleton.mp hy]
          exact hx
      · refine .inr ⟨hit, by simp [hsome], hb.snoc_keep fun h hf => ?_⟩
        rw [hx] at hf
        cases hf
    | some new =>
      right
      rcases ih with ⟨hnone, hall⟩ | ⟨hit, hsome, hb⟩
      · have hid : new.1 = x := (fitting_iff.mp hx).1
        refine ⟨new, by simp [hnone], candidates, [], by rw [hid], hid ▸ hx, ?_, by simp⟩
        intro y hy h hyf
        rw [hall y hy] at hyf
        cases hyf
      · by_cases hhigh : higher (specificity new.2) (specificity hit.2) = true
        · refine ⟨new, ?_, hb.snoc_replace hx hhigh⟩
          simp only [hsome]
          exact if_pos hhigh
        · have hlow : higher (specificity new.2) (specificity hit.2) = false := by simpa using hhigh
          refine ⟨hit, ?_, hb.snoc_keep fun h hf => ?_⟩
          · simp only [hsome]
            exact if_neg hhigh
          · rw [hx] at hf
            cases hf
            exact hlow

end Best

section Choice

variable {S : Service} {agent : AgentRecord} {params : JsonObject}

theorem primaryToolIfFits_iff {hit : String × ToolRecord} :
    primaryToolIfFits S (primaryId agent) (candidateToolIds agent) (presentParams params) =
      some hit ↔ hit.1 = primaryId agent ∧ PrimaryFits S agent params hit.2 := by
  unfold primaryToolIfFits
  constructor
  · intro h
    split_ifs at h with hc
    rw [not_or, not_not] at hc
    cases hg : getOptional S.tools (primaryId agent) with
    | none => simp [hg] at h
    | some tool =>
      simp only [hg] at h
      split_ifs at h with hsub
      cases h
      exact ⟨rfl, hc.1, hc.2, hg, hsub⟩
  · rintro ⟨hid, hne, had⟩
    obtain ⟨id, tool⟩ := hit
    cases hid
    rw [if_neg (by simp [hne, had.candidate]), had.registered]
    exact if_pos had.satisfied

theorem fitting_admissible {toolId : String} {hit : String × ToolRecord}
    (hc : toolId ∈ candidateToolIds agent)
    (h : fitting S (presentParams params) toolId = some hit) :
    Admissible S agent params hit.1 hit.2 := by
  obtain ⟨rfl, hg, _, hsub⟩ := fitting_iff.mp h
  exact ⟨hc, hg, hsub⟩

/-- The first best of the fitting tools is the tool to take where the primary one does not
fit. -/
theorem selected_of_firstBest {hit : String × ToolRecord}
    (hprim : ∀ t, ¬ PrimaryFits S agent params t)
    (hb : FirstBest S (presentParams params) (candidateToolIds agent) hit) :
    Selected S agent params hit.1 hit.2 := by
  obtain ⟨before, after, hsplit, hfit, hbefore, hafter⟩ := hb
  have hcand : hit.1 ∈ candidateToolIds agent := by simp [hsplit]
  have hreq := (fitting_iff.mp hfit).2.2.1
  refine ⟨fitting_admissible hcand hfit, fun t ht => absurd ht (hprim t), ?_⟩
  intro _ otherId other hother
  by_cases hnone : requiredParams other = []
  · have hhigh := higher_of_required hreq hnone
    refine ⟨higher_asymm hhigh, fun hlow => ?_⟩
    rw [hhigh] at hlow
    cases hlow
  have hofit : fitting S (presentParams params) otherId = some (otherId, other) :=
    fitting_iff.mpr ⟨rfl, hother.registered, hnone, hother.satisfied⟩
  have hmem := hother.candidate
  rw [hsplit, List.mem_append, List.mem_cons] at hmem
  constructor
  · rcases hmem with hm | rfl | hm
    · exact higher_asymm (hbefore otherId hm _ hofit)
    · rw [hfit] at hofit
      rw [Option.some.inj hofit]
      exact higher_irrefl _
    · exact hafter otherId hm _ hofit
  · intro htie
    have hnot : otherId ∉ before := by
      intro hm
      rw [hbefore otherId hm _ hofit] at htie
      cases htie
    rw [hsplit, List.idxOf_append_of_notMem hnot, List.idxOf_append]
    split_ifs with hin
    · exact (List.idxOf_lt_length_of_mem hin).le.trans (Nat.le_add_right _ _)
    · rw [List.idxOf_cons_self]
      omega

/-- The step tells the candidates apart: there is one candidate, or the primary tool fits,
or an admissible tool requires something, or no primary tool is declared and the first
candidate is admissible. -/
def Decided (S : Service) (agent : AgentRecord) (params : JsonObject) : Prop :=
  (∃ only, candidateToolIds agent = [only]) ∨
  (∃ tool, PrimaryFits S agent params tool) ∨
  (∃ toolId tool, Admissible S agent params toolId tool ∧ requiredParams tool ≠ []) ∨
  (primaryId agent = "" ∧ ∃ first tool, (candidateToolIds agent).head? = some first ∧
    Admissible S agent params first tool)

theorem pickTool_single {only : String} (h : candidateToolIds agent = [only]) :
    pickTool S agent params = (only, getOptional S.tools only) := by
  simp [pickTool, h]

def found (hit : String × ToolRecord) : String × Option ToolRecord := (hit.1, some hit.2)

theorem pickTool_many {first second : String} {rest : List String}
    (h : candidateToolIds agent = first :: second :: rest) :
    pickTool S agent params =
      (primaryToolIfFits S (primaryId agent) (candidateToolIds agent) (presentParams params)).elim
        ((bestSpecificityTool S (candidateToolIds agent) (presentParams params)).elim
          (if primaryId agent ≠ "" then (primaryId agent, getOptional S.tools (primaryId agent))
            else (first, getOptional S.tools first))
          found)
        found := by
  simp only [pickTool, h]
  cases primaryToolIfFits S (primaryId agent) (first :: second :: rest) (presentParams params) with
  | some hit => rfl
  | none =>
    cases bestSpecificityTool S (first :: second :: rest) (presentParams params) with
    | some hit => rfl
    | none => rfl

theorem selected_single {only toolId : String} {tool : ToolRecord}
    (h : candidateToolIds agent = [only]) (hadm : Admissible S agent params toolId tool) :
    Selected S agent params only tool ∧ getOptional S.tools only = some tool := by
  have hsole : ∀ x, x ∈ candidateToolIds agent → x = only := by simp [h]
  have hid := hsole toolId hadm.candidate
  subst hid
  refine ⟨⟨hadm, fun t ht => (hsole _ ht.2.candidate).symm, ?_⟩, hadm.registered⟩
  intro _ otherId other hother
  have hoid := hsole otherId hother.candidate
  subst hoid
  have hsame := hother.registered
  rw [hadm.registered] at hsame
  cases hsame
  exact ⟨higher_irrefl _, fun _ => le_refl _⟩

/-- If nothing that requires a parameter is admissible, the first candidate is as good as
any. -/
theorem selected_first {first : String} {tool : ToolRecord}
    (hfirst : (candidateToolIds agent).head? = some first)
    (hadm : Admissible S agent params first tool)
    (hprim : ∀ t, ¬ PrimaryFits S agent params t)
    (hnone : ∀ x t, Admissible S agent params x t → requiredParams t = []) :
    Selected S agent params first tool := by
  refine ⟨hadm, fun t ht => absurd ht (hprim t), ?_⟩
  intro _ otherId other hother
  rw [specificity_nil (hnone _ _ hadm), specificity_nil (hnone _ _ hother)]
  refine ⟨higher_irrefl _, fun _ => ?_⟩
  obtain ⟨rest, hrest⟩ := List.head?_eq_some_iff.mp hfirst
  rw [hrest, List.idxOf_cons_self]
  exact Nat.zero_le _

/-- Without a primary tool that fits and an admissible one that requires something, the
choice is decided by the first candidate, and only for an agent with no primary tool. -/
theorem decided_iff_first {first second : String} {rest : List String}
    (hc : candidateToolIds agent = first :: second :: rest)
    (hprim : ∀ t, ¬ PrimaryFits S agent params t)
    (hnone : ∀ x t, Admissible S agent params x t → requiredParams t = []) :
    Decided S agent params ↔
      primaryId agent = "" ∧ ∃ tool, Admissible S agent params first tool := by
  constructor
  · rintro (⟨only, ho⟩ | ⟨t, ht⟩ | ⟨x, t, hx, hreq⟩ | ⟨hid, f, t, hf, ht⟩)
    · rw [hc] at ho
      cases ho
    · exact absurd ht (hprim t)
    · exact absurd (hnone x t hx) hreq
    · rw [hc] at hf
      cases hf
      exact ⟨hid, t, ht⟩
  · rintro ⟨hid, t, ht⟩
    exact .inr (.inr (.inr ⟨hid, first, t, by rw [hc]; rfl, ht⟩))

end Choice

/-- For every agent, registry and parameters of a step: if some candidate is admissible, the
tool that is picked is the one to select exactly if the step tells the candidates apart. -/
theorem pickTool_selects_iff (S : Service) (agent : AgentRecord) (params : JsonObject)
    (hadm : ∃ toolId tool, Admissible S agent params toolId tool) :
    (∃ tool, (pickTool S agent params).2 = some tool ∧
      Selected S agent params (pickTool S agent params).1 tool) ↔ Decided S agent params := by
  obtain ⟨toolId, tool, hadm⟩ := hadm
  cases hc : candidateToolIds agent with
  | nil =>
    have := hadm.candidate
    rw [hc] at this
    cases this
  | cons first rest =>
    cases rest with
    | nil =>
      obtain ⟨hsel, hget⟩ := selected_single hc hadm
      rw [pickTool_single hc]
      exact iff_of_true ⟨tool, hget, hsel⟩ (.inl ⟨first, hc⟩)
    | cons second rest =>
      rw [pickTool_many hc]
      cases hp : primaryToolIfFits S (primaryId agent) (candidateToolIds agent)
          (presentParams params) with
      | some hit =>
        obtain ⟨hid, hfits⟩ := primaryToolIfFits_iff.mp hp
        refine iff_of_true ⟨hit.2, rfl, hid ▸ hfits.2, fun _ _ => hid, fun hno => ?_⟩
          (.inr (.inl ⟨hit.2, hfits⟩))
        exact absurd hfits (hno hit.2)
      | none =>
        have hprim : ∀ t, ¬ PrimaryFits S agent params t := by
          intro t ht
          have hsome := (@primaryToolIfFits_iff S agent params (primaryId agent, t)).mpr ⟨rfl, ht⟩
          rw [hp] at hsome
          cases hsome
        rcases bestSpecificityTool_cases S (candidateToolIds agent) (presentParams params) with
          ⟨hb, hall⟩ | ⟨hit, hb, hbest⟩
        · -- nothing that requires a parameter is admissible
          have hnone : ∀ x t, Admissible S agent params x t → requiredParams t = [] := by
            intro x t hx
            by_contra hreq
            have hfit : fitting S (presentParams params) x = some (x, t) :=
              fitting_iff.mpr ⟨rfl, hx.registered, hreq, hx.satisfied⟩
            rw [hall x hx.candidate] at hfit
            cases hfit
          rw [decided_iff_first hc hprim hnone, hb]
          by_cases hid : primaryId agent = ""
          · simp only [hid, ne_eq, not_true, if_false, true_and]
            constructor
            · rintro ⟨t, _, hsel⟩
              exact ⟨t, hsel.admissible⟩
            · rintro ⟨t, ht⟩
              exact ⟨t, ht.registered, selected_first (by rw [hc]; rfl) ht hprim hnone⟩
          · simp only [ne_eq, hid, not_false_eq_true, if_true, false_and, iff_false]
            rintro ⟨t, _, hsel⟩
            exact hprim t ⟨hid, hsel.admissible⟩
        · rw [hb]
          have hsel := selected_of_firstBest hprim hbest
          obtain ⟨before, after, hsplit, hfit, _⟩ := hbest
          refine iff_of_true ⟨hit.2, rfl, hsel⟩
            (.inr (.inr (.inl ⟨hit.1, hit.2, hsel.admissible, ?_⟩)))
          exact (fitting_iff.mp hfit).2.2.1

def kbTool (id : String) (parameters : List ToolParameter) : ToolRecord :=
  ⟨id, 1, .draft, ⟨"kb:" ++ id, .read, parameters, true, []⟩⟩

def kbTools : List ToolRecord :=
  [kbTool "get_kb_article" [⟨"article_id", true⟩, ⟨"tenant_id", true⟩],
    kbTool "search_kb" [⟨"query", true⟩, ⟨"tenant_id", true⟩],
    kbTool "list_recent_articles" [⟨"tenant_id", true⟩, ⟨"limit", false⟩]]

def kbAgent : AgentRecord :=
  let plain := readAgent "uc_kb" [] []
  { plain with body := { plain.body with
      toolRefs := [⟨"get_kb_article", 1⟩, ⟨"search_kb", 1⟩, ⟨"list_recent_articles", 1⟩] } }

theorem kbAgent_rules : ∀ a ∈ [kbAgent], CrossFieldRules a := by
  intro a ha
  rw [List.mem_singleton.mp ha]
  have h : CrossFieldRules (readAgent "uc_kb" [] []) := readAgent_rules (by decide) (by decide)
  exact ⟨h.notOwnPrerequisite, h.notOwnExclusion, h.notOwnMember, h.hooked, fun f hf => by cases hf⟩

theorem kbTools_rules : ∀ t ∈ kbTools, ActionRules t := by
  intro t ht hact
  simp only [kbTools, List.mem_cons, List.not_mem_nil, or_false] at ht
  rcases ht with rfl | rfl | rfl <;> cases hact

def kbRegistry : Service := Service.ofRecords [kbAgent] kbTools kbAgent_rules kbTools_rules

theorem kbRegistry_tool {toolId : String} {required : List String}
    (h : (getOptional kbRegistry.tools toolId).map requiredParams = some required) :
    ∃ tool, getOptional kbRegistry.tools toolId = some tool ∧ requiredParams tool = required := by
  obtain ⟨tool, hg, hr⟩ := Option.map_eq_some_iff.mp h
  exact ⟨tool, hg, hr⟩

theorem search_selected :
    ∃ tool, (pickTool kbRegistry kbAgent [("query", .str "vpn")]).2 = some tool ∧
      Selected kbRegistry kbAgent [("query", .str "vpn")]
        (pickTool kbRegistry kbAgent [("query", .str "vpn")]).1 tool := by
  obtain ⟨tool, hg, hr⟩ := @kbRegistry_tool "search_kb" ["query"] (by decide +kernel)
  have hadm : Admissible kbRegistry kbAgent [("query", .str "vpn")] "search_kb" tool :=
    ⟨by decide +kernel, hg, by rw [hr]; decide +kernel⟩
  exact (pickTool_selects_iff kbRegistry kbAgent _ ⟨"search_kb", tool, hadm⟩).mpr
    (.inr (.inr (.inl ⟨"search_kb", tool, hadm, by rw [hr]; decide⟩)))

/-- A step without parameters could run the listing, and gets the tool for an article. -/
theorem unsatisfiable_tool_picked :
    (∃ tool, Admissible kbRegistry kbAgent [] "list_recent_articles" tool) ∧
    (pickTool kbRegistry kbAgent []).1 = "get_kb_article" ∧
    (pickTool kbRegistry kbAgent []).2.map requiredParams = some ["article_id"] ∧
    ¬ ∃ tool, (pickTool kbRegistry kbAgent []).2 = some tool ∧
      Selected kbRegistry kbAgent [] (pickTool kbRegistry kbAgent []).1 tool := by
  have hpicked : (pickTool kbRegistry kbAgent []).2.map requiredParams = some ["article_id"] := by
    decide +kernel
  obtain ⟨tool, hg, hr⟩ := @kbRegistry_tool "list_recent_articles" [] (by decide +kernel)
  refine ⟨⟨tool, by decide +kernel, hg, by rw [hr]; decide⟩, by decide +kernel, hpicked, ?_⟩
  rintro ⟨picked, hsome, hsel⟩
  rw [hsome, Option.map_some, Option.some.injEq] at hpicked
  have := hsel.admissible.satisfied
  rw [hpicked] at this
  exact absurd this (by decide)

end ExecutorToolSelection
