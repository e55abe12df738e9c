import OneOps.ExecutorWaves
import OneOps.BoundedTree
import OneOps.PythonText

/-! The steps a handler may add to the running plan. Their ids are namespaced under the
parent, `<parent>.g<i>`, and the depth and width budgets of the parent pass on to them, so
below every planned step there is a bounded tree of generated ones. -/
namespace ExecutorGeneration

open ExecutorPlan
open ExecutorNodes
open ExecutorWaves

theorem generatedId_toList (p : String) (i : ℕ) :
    (generatedId p i).toList = p.toList ++ '.' :: 'g' :: Nat.toDigits 10 i := by
  simp [generatedId, List.append_assoc]

/-- Two parents never generate the same id. -/
theorem generatedId_inj {p q : String} {i j : ℕ} (h : generatedId p i = generatedId q j) :
    p = q ∧ i = j := by
  have hl := congrArg String.toList h
  rw [generatedId_toList, generatedId_toList] at hl
  obtain ⟨hp, hij⟩ := PythonText.numbered_inj (c := 'g') (p := p.toList ++ ['.'])
    (q := q.toList ++ ['.']) (by decide) (by simpa using hl)
  exact ⟨String.toList_inj.mp (List.append_cancel_right hp), hij⟩

/-- What a pass of `run_step` may append to the plan. -/
structure Offspring (B : Budgets) (p : Step) (gs : List Step) : Prop where
  width : gs.length ≤ maxWidth B p
  depth : gs ≠ [] → p.genDepth < maxDepth B p
  ids : (gs.map Step.stepId).Nodup
  named : ∀ g ∈ gs, ∃ i, g.stepId = generatedId p.stepId i
  deeper : ∀ g ∈ gs, g.genDepth = p.genDepth + 1
  inherits : ∀ g ∈ gs, g.genMaxDepth = p.genMaxDepth ∧ g.genMaxWidth = p.genMaxWidth
  untagged : ∀ g ∈ gs, g.turnId = none

theorem Offspring.nil (B : Budgets) (p : Step) : Offspring B p [] where
  width := Nat.zero_le _
  depth h := absurd rfl h
  ids := List.nodup_nil
  named _ h := (by cases h)
  deeper _ h := (by cases h)
  inherits _ h := (by cases h)
  untagged _ h := (by cases h)

theorem Offspring.sublist {B : Budgets} {p : Step} {gs hs : List Step} (h : Offspring B p gs)
    (hsub : hs.Sublist gs) : Offspring B p hs where
  width := hsub.length_le.trans h.width
  depth hn := h.depth fun he => hn (List.sublist_nil.mp (he ▸ hsub))
  ids := h.ids.sublist (hsub.map _)
  named g hg := h.named g (hsub.subset hg)
  deeper g hg := h.deeper g (hsub.subset hg)
  inherits g hg := h.inherits g (hsub.subset hg)
  untagged g hg := h.untagged g (hsub.subset hg)

theorem Offspring.budgets {B : Budgets} {p g : Step} {gs : List Step} (h : Offspring B p gs)
    (hg : g ∈ gs) :
    maxWidth B g = maxWidth B p ∧ maxDepth B g = maxDepth B p := by
  obtain ⟨hd, hw⟩ := h.inherits g hg
  simp only [maxWidth, maxDepth, hd, hw, and_self]

theorem namespace_ids (p : Step) (raw : List RawStep) :
    ((namespaceGeneratedSteps p raw).1.map Step.stepId).Nodup := by
  simp only [namespaceGeneratedSteps, List.map_map]
  -- distinct positions give distinct ids
  have hidx : ((raw.zipIdx.filter fun r => r.1.agentId ≠ "").map Prod.snd).Nodup := by
    apply List.Nodup.sublist (List.filter_sublist.map _)
    rw [List.zipIdx_map_snd]
    exact List.nodup_range'
  have hf : ((fun s : Step => s.stepId) ∘ fun r : RawStep × ℕ =>
      ({ stepId := generatedId p.stepId r.2, agentId := r.1.agentId, parameters := r.1.parameters,
         dependsOn := if r.1.dependsOn = [] then [p.stepId] else r.1.dependsOn, turnId := none,
         toolId := "", intent := none, parameterBindings := [], dependencyTypes := [],
         genDepth := p.genDepth + 1, genMaxDepth := p.genMaxDepth,
         genMaxWidth := p.genMaxWidth } : Step)) = generatedId p.stepId ∘ Prod.snd := rfl
  rw [hf, ← List.map_map]
  exact hidx.map fun i j h => (generatedId_inj h).2

theorem namespace_offspring {B : Budgets} {p : Step} {raw : List RawStep}
    (hw : raw.length ≤ maxWidth B p) (hd : p.genDepth < maxDepth B p) :
    Offspring B p (namespaceGeneratedSteps p raw).1 := by
  have hmem : ∀ g ∈ (namespaceGeneratedSteps p raw).1, ∃ r : RawStep × ℕ,
      g.stepId = generatedId p.stepId r.2 ∧ g.genDepth = p.genDepth + 1 ∧
        g.genMaxDepth = p.genMaxDepth ∧ g.genMaxWidth = p.genMaxWidth ∧ g.turnId = none := by
    intro g hg
    obtain ⟨r, _, rfl⟩ := List.mem_map.mp hg
    exact ⟨r, rfl, rfl, rfl, rfl, rfl⟩
  constructor
  · refine le_trans ?_ hw
    simp only [namespaceGeneratedSteps, List.length_map]
    exact (List.length_filter_le _ _).trans (by simp)
  · exact fun _ => hd
  · exact namespace_ids p raw
  · intro g hg
    obtain ⟨r, h, _⟩ := hmem g hg
    exact ⟨r.2, h⟩
  · intro g hg
    obtain ⟨r, _, h, _⟩ := hmem g hg
    exact h
  · intro g hg
    obtain ⟨r, _, _, h₁, h₂, _⟩ := hmem g hg
    exact ⟨h₁, h₂⟩
  · intro g hg
    obtain ⟨r, _, _, _, _, h⟩ := hmem g hg
    exact h

theorem normalise_offspring (B : Budgets) (p : Step) (raw : List RawStep) :
    Offspring B p (normaliseGeneratedSteps B p raw).1 := by
  unfold normaliseGeneratedSteps
  by_cases hd : maxDepth B p ≤ p.genDepth
  · rw [if_pos hd]
    exact Offspring.nil B p
  · rw [if_neg hd]
    exact namespace_offspring (by simp) (by omega)

theorem append_offspring (S : Services) (B : Budgets) (x : Send) (r : StepResult)
    (raw : List RawStep) : Offspring B x.step (appendGeneratedSteps S B x r raw).2 := by
  unfold appendGeneratedSteps
  by_cases hr : raw = []
  · rw [if_pos hr]
    exact Offspring.nil B x.step
  · rw [if_neg hr]
    exact (normalise_offspring B x.step raw).sublist List.filter_sublist

def Stamped (p : Step) (r : StepResult) : Prop := r.stepId = p.stepId ∧ r.turnId = p.turnId

theorem append_stamped {S : Services} {B : Budgets} {x : Send} {r : StepResult}
    (raw : List RawStep) (h : Stamped x.step r) :
    Stamped x.step (appendGeneratedSteps S B x r raw).1 := by
  have noted : ∀ note,
      Stamped x.step (if note = "" then r else { r with generationNote := note }) := by
    intro note
    split
    · exact h
    · exact h
  unfold appendGeneratedSteps
  by_cases hr : raw = []
  · rwa [if_pos hr]
  · rw [if_neg hr]
    exact noted _

theorem work_spec (S : Services) (B : Budgets) (x : Send) (agent : Agent)
    (bound : FulfillmentContracts.JsonObject) :
    Stamped x.step (runStepWork S B x agent bound).1 ∧
      Offspring B x.step (runStepWork S B x agent bound).2 := by
  unfold runStepWork
  dsimp only
  split
  · exact ⟨⟨rfl, rfl⟩, Offspring.nil B x.step⟩
  · refine ⟨append_stamped _ ?_, append_offspring S B x _ _⟩
    cases S.run x.step x.request x.previousResults bound <;> exact ⟨rfl, rfl⟩

theorem runStep_spec (S : Services) (B : Budgets) (x : Send) :
    Stamped x.step (runStep S B x).result ∧ Offspring B x.step (runStep S B x).generated := by
  have stop : ∀ r, Stamped x.step r → Stamped x.step r ∧ Offspring B x.step [] :=
    fun r h => ⟨h, Offspring.nil B x.step⟩
  cases ha : S.agents x.step.agentId with
  | none => simpa only [runStep, ha] using stop _ ⟨rfl, rfl⟩
  | some agent =>
    cases hp : S.policy x.request agent x.step with
    | deny reason => simpa only [runStep, ha, evaluateStepPolicy, hp] using stop _ ⟨rfl, rfl⟩
    | canned response rule =>
      simpa only [runStep, ha, evaluateStepPolicy, hp] using stop _ ⟨rfl, rfl⟩
    | allow =>
      cases hb : resolveBindings S.getAttr x.step x.previousResults with
      | error reason => simpa only [runStep, ha, evaluateStepPolicy, hp, hb] using stop _ ⟨rfl, rfl⟩
      | ok bound =>
        simp only [runStep, ha, evaluateStepPolicy, hp, hb]
        cases S.hooks .before agent.beforeInvocation agent x.step x.request none with
        | some e => exact stop _ ⟨rfl, rfl⟩
        | none =>
          dsimp only
          split
          · exact stop _ ⟨rfl, rfl⟩
          · exact work_spec S B x agent bound

end ExecutorGeneration
