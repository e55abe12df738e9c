import OneOps.ExecutorPlan

/-! The reducers of `executor/state.py` as the checkpointer runs them: on rows whose
`step_id` may be missing, through a dictionary that keeps insertion order. On rows that all
carry an id they are the two merges of `RowMerge`, and the laws a replay relies on follow. -/
namespace ExecutorReducers

open RowMerge

variable {α : Type*} (stepId : α → Option String)

/-- `sid if sid is not None else f"__anon_{len(by_id)}"`. -/
def entryKey (byId : List (String × α)) (row : α) : String :=
  (stepId row).getD ("__anon_" ++ toString byId.length)

/-- `by_id[key] = result`: a known key keeps its place. -/
def setResult (byId : List (String × α)) (row : α) : List (String × α) :=
  upsert Prod.fst byId (entryKey stepId byId row, row)

def setStep (byId : List (String × α)) (row : α) : List (String × α) :=
  insertNew Prod.fst byId (entryKey stepId byId row, row)

def mergeStepResults (left right : Option (List α)) : List α :=
  ((left.getD [] ++ right.getD []).foldl (setResult stepId) []).map Prod.snd

def mergePlan (left right : Option (List α)) : List α :=
  ((left.getD [] ++ right.getD []).foldl (setStep stepId) []).map Prod.snd

def Identified (rows : List α) : Prop := ∀ r ∈ rows, ∃ sid, stepId r = some sid

def entryOf (rows : List α) (sid : String) : Option α := lookup stepId rows (some sid)

variable {stepId}

theorem identified_nil : Identified stepId ([] : List α) := fun _ hr => absurd hr List.not_mem_nil

theorem Identified.append {a b : List α} (ha : Identified stepId a) (hb : Identified stepId b) :
    Identified stepId (a ++ b) :=
  fun r hr => (List.mem_append.mp hr).elim (ha r) (hb r)

def tagged (stepId : α → Option String) (rows : List α) : List (String × α) :=
  rows.map fun r => ((stepId r).getD "", r)

theorem mem_tagged_keys {rows : List α} (h : Identified stepId rows) {sid : String} :
    sid ∈ (tagged stepId rows).map Prod.fst ↔ some sid ∈ rows.map stepId := by
  unfold tagged
  rw [List.map_map, List.mem_map, List.mem_map]
  constructor
  · rintro ⟨r, hr, rfl⟩
    obtain ⟨s, hs⟩ := h r hr
    refine ⟨r, hr, ?_⟩
    simp [hs]
  · rintro ⟨r, hr, hs⟩
    refine ⟨r, hr, ?_⟩
    simp [hs]

theorem entryKey_eq {byId : List (String × α)} {row : α} {sid : String}
    (h : stepId row = some sid) : entryKey stepId byId row = sid := by
  unfold entryKey
  rw [h]
  rfl

/-- On rows with ids the dictionary is the merged list with each row under its own id. -/
theorem setResult_tagged {rows : List α} {row : α} (h : Identified stepId rows)
    (hrow : ∃ sid, stepId row = some sid) :
    setResult stepId (tagged stepId rows) row = tagged stepId (upsert stepId rows row) := by
  obtain ⟨sid, hsid⟩ := hrow
  unfold setResult upsert
  rw [entryKey_eq hsid]
  by_cases hin : stepId row ∈ rows.map stepId
  · rw [if_pos hin, if_pos ((mem_tagged_keys h).mpr (hsid ▸ hin))]
    unfold tagged
    rw [List.map_map, List.map_map]
    apply List.map_congr_left
    intro r hr
    obtain ⟨s, hs⟩ := h r hr
    by_cases he : s = sid <;> simp [hs, hsid, he]
  · rw [if_neg hin, if_neg fun hk => hin (hsid ▸ (mem_tagged_keys h).mp hk)]
    unfold tagged
    rw [List.map_append, List.map_singleton, hsid]
    rfl

theorem setStep_tagged {rows : List α} {row : α} (h : Identified stepId rows)
    (hrow : ∃ sid, stepId row = some sid) :
    setStep stepId (tagged stepId rows) row = tagged stepId (insertNew stepId rows row) := by
  obtain ⟨sid, hsid⟩ := hrow
  unfold setStep insertNew
  rw [entryKey_eq hsid]
  by_cases hin : stepId row ∈ rows.map stepId
  · rw [if_pos hin, if_pos ((mem_tagged_keys h).mpr (hsid ▸ hin))]
  · rw [if_neg hin, if_neg fun hk => hin (hsid ▸ (mem_tagged_keys h).mp hk)]
    unfold tagged
    rw [List.map_append, List.map_singleton, hsid]
    rfl

theorem Identified.upsert {rows : List α} {row : α} (h : Identified stepId rows)
    (hrow : ∃ sid, stepId row = some sid) : Identified stepId (upsert stepId rows row) := by
  intro r hr
  rcases mem_upsert.mp hr with rfl | ⟨hr, _⟩
  · exact hrow
  · exact h r hr

theorem Identified.insertNew {rows : List α} {row : α} (h : Identified stepId rows)
    (hrow : ∃ sid, stepId row = some sid) : Identified stepId (insertNew stepId rows row) := by
  unfold RowMerge.insertNew
  split
  · exact h
  · exact h.append fun r hr => List.mem_singleton.mp hr ▸ hrow

theorem tagged_snd (rows : List α) : (tagged stepId rows).map Prod.snd = rows := by
  unfold tagged
  rw [List.map_map]
  exact List.map_id rows

theorem foldl_tagged {f : List (String × α) → α → List (String × α)} {g : List α → α → List α}
    (hstep : ∀ {rows : List α} {row : α}, Identified stepId rows →
      (∃ sid, stepId row = some sid) →
        f (tagged stepId rows) row = tagged stepId (g rows row) ∧
          Identified stepId (g rows row))
    {new : List α} (hnew : Identified stepId new) :
    ∀ {rows : List α}, Identified stepId rows →
      new.foldl f (tagged stepId rows) = tagged stepId (new.foldl g rows) ∧
        Identified stepId (new.foldl g rows) := by
  induction new with
  | nil => intro rows h; exact ⟨rfl, h⟩
  | cons row new ih =>
    intro rows h
    obtain ⟨heq, hid⟩ := hstep h (hnew row List.mem_cons_self)
    rw [List.foldl_cons, List.foldl_cons, heq]
    exact ih (fun r hr => hnew r (List.mem_cons_of_mem row hr)) hid

theorem mergeStepResults_spec {a b : List α} (ha : Identified stepId a) (hb : Identified stepId b) :
    mergeStepResults stepId (some a) (some b) = mergeLast stepId a b ∧
      Identified stepId (mergeLast stepId a b) := by
  obtain ⟨heq, hid⟩ := foldl_tagged (f := setResult stepId) (g := RowMerge.upsert stepId)
    (fun h hrow => ⟨setResult_tagged h hrow, h.upsert hrow⟩) (ha.append hb) identified_nil
  refine ⟨?_, hid⟩
  have hfold : mergeStepResults stepId (some a) (some b) =
      ((a ++ b).foldl (setResult stepId) (tagged stepId [])).map Prod.snd := rfl
  rw [hfold, heq, tagged_snd]
  rfl

theorem mergePlan_spec {a b : List α} (ha : Identified stepId a) (hb : Identified stepId b) :
    mergePlan stepId (some a) (some b) = mergeFirst stepId a b ∧
      Identified stepId (mergeFirst stepId a b) := by
  obtain ⟨heq, hid⟩ := foldl_tagged (f := setStep stepId) (g := RowMerge.insertNew stepId)
    (fun h hrow => ⟨setStep_tagged h hrow, h.insertNew hrow⟩) (ha.append hb) identified_nil
  refine ⟨?_, hid⟩
  have hfold : mergePlan stepId (some a) (some b) =
      ((a ++ b).foldl (setStep stepId) (tagged stepId [])).map Prod.snd := rfl
  rw [hfold, heq, tagged_snd]
  rfl

variable (stepId) in
def Runs (reduce : Option (List α) → Option (List α) → List α)
    (merge : List α → List α → List α) : Prop :=
  ∀ a b, Identified stepId a → Identified stepId b →
    reduce (some a) (some b) = merge a b ∧ Identified stepId (merge a b)

theorem runs_mergeLast : Runs stepId (mergeStepResults stepId) (mergeLast stepId) :=
  fun _ _ => mergeStepResults_spec

theorem runs_mergeFirst : Runs stepId (mergePlan stepId) (mergeFirst stepId) :=
  fun _ _ => mergePlan_spec

variable {reduce : Option (List α) → Option (List α) → List α} {merge : List α → List α → List α}

theorem Runs.foldl (h : Runs stepId reduce merge) {writes : List (List α)}
    (hw : ∀ w ∈ writes, Identified stepId w) :
    ∀ {acc : List α}, Identified stepId acc →
      writes.foldl (fun acc w => reduce (some acc) (some w)) acc = writes.foldl merge acc := by
  induction writes with
  | nil => intro acc _; rfl
  | cons w writes ih =>
    intro acc hacc
    obtain ⟨heq, hid⟩ := h acc w hacc (hw w List.mem_cons_self)
    rw [List.foldl_cons, List.foldl_cons, heq]
    exact ih (fun v hv => hw v (List.mem_cons_of_mem w hv)) hid

theorem Runs.laws (h : Runs stepId reduce merge)
    (hassoc : ∀ a b c, merge (merge a b) c = merge a (merge b c))
    (hself : ∀ a, merge a a = merge a []) (hnodup : ∀ a b, ((merge a b).map stepId).Nodup)
    {a b c : List α} (ha : Identified stepId a) (hb : Identified stepId b)
    (hc : Identified stepId c) :
    reduce (some (reduce (some a) (some b))) (some c) =
        reduce (some a) (some (reduce (some b) (some c))) ∧
      reduce (some a) (some a) = reduce (some a) (some []) ∧
      ((reduce (some a) (some b)).map stepId).Nodup := by
  obtain ⟨hab, hida⟩ := h a b ha hb
  obtain ⟨hbc, hidc⟩ := h b c hb hc
  refine ⟨?_, ?_, ?_⟩
  · rw [hab, hbc, (h _ c hida hc).1, (h a _ ha hidc).1]
    exact hassoc a b c
  · rw [(h a a ha ha).1, (h a [] ha identified_nil).1]
    exact hself a
  · rw [hab]
    exact hnodup a b

/-- The left argument of `merge_plan` comes first, thinned to the first definition of each
id: nothing of it is rewritten, moved or dropped for a row of the right argument. -/
theorem mergePlan_keeps_left {a b : List α} (ha : Identified stepId a) (hb : Identified stepId b) :
    (mergePlan stepId (some a) (some [])).IsPrefix (mergePlan stepId (some a) (some b)) ∧
      List.Sublist (mergePlan stepId (some a) (some [])) a ∧
      ((a.map stepId).Nodup → mergePlan stepId (some a) (some []) = a) ∧
      ∀ sid x, entryOf stepId a sid = some x →
        entryOf stepId (mergePlan stepId (some a) (some b)) sid = some x := by
  rw [(mergePlan_spec ha hb).1, (mergePlan_spec ha identified_nil).1]
  refine ⟨?_, ?_, ?_, ?_⟩
  · obtain ⟨taken, _, heq⟩ := foldl_insertNew_sublist stepId (mergeFirst stepId a []) b
    rw [@mergeFirst_eq_foldl' _ _ _ stepId a b, heq]
    exact List.prefix_append _ taken
  · obtain ⟨taken, hsub, heq⟩ := foldl_insertNew_sublist stepId [] a
    unfold mergeFirst
    rw [List.append_nil, heq, List.nil_append]
    exact hsub
  · intro hnodup
    exact mergeFirst_eq_foldl hnodup
  · intro sid x hx
    unfold entryOf at hx ⊢
    rw [lookup_mergeFirst, hx, Option.some_or]

/-- The laws of the two reducers on rows that carry an id. Both are associative, absorb a
repeated argument and leave one row for each id; the plan keeps its left argument; and
writes of disjoint ids, folded in any order, store the same row under every id. -/
theorem reducer_laws {a b c : List α} (ha : Identified stepId a) (hb : Identified stepId b)
    (hc : Identified stepId c) {writes writes' : List (List α)}
    (hw : ∀ w ∈ writes, Identified stepId w) (hd : writes.Pairwise (DisjointKeys stepId))
    (hp : writes.Perm writes') (sid : String) :
    (mergeStepResults stepId (some (mergeStepResults stepId (some a) (some b))) (some c) =
          mergeStepResults stepId (some a) (some (mergeStepResults stepId (some b) (some c))) ∧
        mergeStepResults stepId (some a) (some a) = mergeStepResults stepId (some a) (some []) ∧
        ((mergeStepResults stepId (some a) (some b)).map stepId).Nodup) ∧
      (mergePlan stepId (some (mergePlan stepId (some a) (some b))) (some c) =
          mergePlan stepId (some a) (some (mergePlan stepId (some b) (some c))) ∧
        mergePlan stepId (some a) (some a) = mergePlan stepId (some a) (some []) ∧
        ((mergePlan stepId (some a) (some b)).map stepId).Nodup) ∧
      ((mergePlan stepId (some a) (some [])).IsPrefix (mergePlan stepId (some a) (some b)) ∧
        List.Sublist (mergePlan stepId (some a) (some [])) a ∧
        ((a.map stepId).Nodup → mergePlan stepId (some a) (some []) = a) ∧
        ∀ sid x, entryOf stepId a sid = some x →
          entryOf stepId (mergePlan stepId (some a) (some b)) sid = some x) ∧
      entryOf stepId
          (writes.foldl (fun acc w => mergeStepResults stepId (some acc) (some w)) a) sid =
        entryOf stepId
          (writes'.foldl (fun acc w => mergeStepResults stepId (some acc) (some w)) a) sid ∧
      entryOf stepId (writes.foldl (fun acc w => mergePlan stepId (some acc) (some w)) a) sid =
        entryOf stepId
          (writes'.foldl (fun acc w => mergePlan stepId (some acc) (some w)) a) sid := by
  have hw' : ∀ w ∈ writes', Identified stepId w := fun w h => hw w (hp.mem_iff.mpr h)
  refine ⟨runs_mergeLast.laws mergeLast_assoc mergeLast_self mergeLast_nodup ha hb hc,
    runs_mergeFirst.laws mergeFirst_assoc mergeFirst_self mergeFirst_nodup ha hb hc,
    mergePlan_keeps_left ha hb, ?_, ?_⟩
  · rw [runs_mergeLast.foldl hw ha, runs_mergeLast.foldl hw' ha]
    exact foldl_mergeLast_perm hp hd a (some sid)
  · rw [runs_mergeFirst.foldl hw ha, runs_mergeFirst.foldl hw' ha]
    exact foldl_mergeFirst_perm hp hd a (some sid)

/-- Two waves of one result each over a state that holds a first attempt of one of them. -/
theorem reducer_laws_waves :
    let stepId : String × ℕ → Option String := fun r => some r.1
    entryOf stepId
        ([[("s1", 2)], [("s2", 3)]].foldl
          (fun acc w => mergeStepResults stepId (some acc) (some w)) [("s1", 1)]) "s1" =
      entryOf stepId
        ([[("s2", 3)], [("s1", 2)]].foldl
          (fun acc w => mergeStepResults stepId (some acc) (some w)) [("s1", 1)]) "s1" := by
  have hid : ∀ rows : List (String × ℕ), Identified (fun r => some r.1) rows :=
    fun rows r _ => ⟨r.1, rfl⟩
  exact (reducer_laws (hid [("s1", 1)]) (hid []) (hid []) (fun w _ => hid w)
    (by simp [DisjointKeys]) (List.Perm.swap _ _ []) "s1").2.2.2.1

end ExecutorReducers
