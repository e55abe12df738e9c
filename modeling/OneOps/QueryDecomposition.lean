import OneOps.ExceptLoops
import OneOps.PythonJson
import OneOps.SubQueryCleanup

/-! A decomposition as the model writes it. The reply is read element by element; some of the
errors that this can raise are caught and the message is then handled as one sub-query.
What is returned is routed, whatever agents are chosen, and a circle among the sub-queries
is noticed by the planner only. -/
namespace QueryDecomposition

open ExceptLoops
open PythonJson
open ListSplit
open RouterFunnel (SubQuery FunnelOutcome RouteResult Decision finalizeRoute routeOf)
open RouterPlan (SubQueryRoute Registry assemblePlan)
open SubQueryCleanup

inductive PyError where
  | llmGatewayError | keyError | valueError | typeError | attributeError | recursionError
  deriving DecidableEq, Repr

/-- `except (LLMGatewayError, ValueError, KeyError, TypeError)`. -/
def PyError.caught : PyError → Bool
  | .llmGatewayError | .keyError | .valueError | .typeError => true
  | .attributeError | .recursionError => false

/-- A text that is no JSON, or one that is nested too deep. -/
inductive DecodeError where
  | invalid | nestedTooDeep
  deriving DecidableEq, Repr

/-- What the reading of a reply rests on: the decoder of JSON texts, `str` of a list or a dict
and `str.lower`. -/
structure PyText where
  decode : String → Except DecodeError Doc
  strOf : Value → String
  lower : String → String

def truthy : Value → Bool
  | .null => false
  | .bool b => b
  | .int n => n ≠ 0
  | .float repr => repr ≠ "0.0" ∧ repr ≠ "-0.0"
  | .str s => s ≠ ""
  | .list xs => !xs.isEmpty
  | .tuple xs => !xs.isEmpty
  | .dict items => !items.isEmpty
  | .object _ => true

def str (T : PyText) : Value → String
  | .null => "None"
  | .bool b => if b then "True" else "False"
  | .int n => toString n
  | .float repr => repr
  | .str s => s
  | .object text => text
  | v => T.strOf v

def keyValue : Key → Value
  | .str s => .str s
  | .int n => .int n
  | .float repr => .float repr
  | .bool b => .bool b
  | .null => .null
  | .other text => .object text

/-- What a `for` loop or `tuple` runs over. -/
def iterate : Value → Except PyError (List Value)
  | .list xs => .ok xs
  | .tuple xs => .ok xs
  | .str s => .ok (s.toList.map fun c => .str (String.ofList [c]))
  | .dict items => .ok (items.map fun e => keyValue e.1)
  | _ => .error .typeError

def items : Value → Except PyError (List (Key × Value))
  | .dict entries => .ok entries
  | _ => .error .attributeError

def get (entries : List (Key × Value)) (name : String) : Value :=
  (entries.lookup (.str name)).getD .null

def getItem (entries : List (Key × Value)) (name : String) : Except PyError Value :=
  match entries.lookup (.str name) with
  | some v => .ok v
  | none => .error .keyError

def orElse (v default : Value) : Value := if truthy v then v else default

def hashable : Value → Bool
  | .list _ | .dict _ => false
  | _ => true

def nameOf : Value → Option String
  | .str s => some s
  | _ => none

/-- A sub-query with its dependencies as they were written. -/
structure SubQueryValue where
  id : String
  text : String
  dependsOn : List Value
  bindings : List (String × String × String)

def checkedValue (s : SubQueryValue) : Except PyError SubQueryValue :=
  if s.id = "" then .error .valueError
  else if s.id ∈ s.dependsOn.filterMap nameOf then .error .valueError
  else .ok s

section Reading

variable (T : PyText)

def strippedField (entries : List (Key × Value)) (name : String) : String :=
  PythonText.strip (str T (orElse (get entries name) (.str "")))

def parseBinding (own : String) : Value → Option (String × String × String)
  | .dict entries =>
    let fr := strippedField T entries "from"
    let ff := strippedField T entries "from_field"
    let tp := strippedField T entries "to_param"
    if fr ≠ "" ∧ ff ≠ "" ∧ tp ≠ "" ∧ fr ≠ own then some (fr, ff, tp) else none
  | _ => none

def parseBindings (entries : List (Key × Value)) :
    Except PyError (List (String × String × String)) := do
  let bds ← iterate (orElse (get entries "bindings") (.list []))
  .ok (bds.filterMap (parseBinding T (str T (orElse (get entries "id") (.str "")))))

def bindingsOf (emitBindings : Bool) (entries : List (Key × Value)) :
    Except PyError (List (String × String × String)) :=
  if emitBindings then parseBindings T entries else .ok []

def parseSubquery (emitBindings : Bool) (s : Value) : Except PyError (Option SubQueryValue) := do
  let entries ← items s
  if truthy (get entries "text") then
    let id ← getItem entries "id"
    let text ← getItem entries "text"
    let dependsOn ← iterate (orElse (get entries "depends_on") (.tuple []))
    let bindings ← bindingsOf T emitBindings entries
    let sub ← checkedValue ⟨str T id, str T text, dependsOn, bindings⟩
    .ok (some sub)
  else .ok none

def subqueriesOf (entries : List (Key × Value)) : Value :=
  (entries.lookup (.str "subqueries")).getD (.list [])

def readAll (emitBindings : Bool) (xs : List Value) : Except PyError (List SubQueryValue) := do
  let found ← xs.mapM (parseSubquery T emitBindings)
  .ok (found.filterMap id)

def readDocument (emitBindings : Bool) (doc : Value) : Except PyError (List SubQueryValue) := do
  let entries ← items doc
  let xs ← iterate (subqueriesOf entries)
  readAll T emitBindings xs

/-- The names that a sub-query depends on. They are looked up in sets and dicts, which an
unhashable value does not allow and in which nothing but a name is found. -/
def named (s : SubQueryValue) : SubQuery := ⟨s.id, s.text, s.dependsOn.filterMap nameOf, s.bindings⟩

def hashed (s : SubQueryValue) : Except PyError SubQuery :=
  if s.dependsOn.all hashable then .ok (named s) else .error .typeError

def ofNamed (s : SubQuery) : SubQueryValue := ⟨s.id, s.text, s.dependsOn.map .str, s.bindings⟩

def sanitize (subs : List SubQueryValue) : Except PyError (List SubQueryValue) :=
  if subs.length ≤ 1 then .ok subs
  else do
    let deduped ← (dedupe T.lower SubQueryValue.text [] subs).mapM hashed
    match relabel (dropRollup deduped) with
    | .ok out => .ok (out.map ofNamed)
    | .error _ => .error .valueError

def loadsText (content : String) : Except PyError Value :=
  match T.decode content with
  | .ok doc => .ok (loads doc)
  | .error .invalid => .error .valueError
  | .error .nestedTooDeep => .error .recursionError

/-- The body of the `try`; `none` is a call that raised an LLMGatewayError. -/
def attempt (emitBindings : Bool) (reply : Option String) :
    Except PyError (List SubQueryValue) := do
  let content ← match reply with
    | some content => .ok content
    | none => .error .llmGatewayError
  let doc ← loadsText T content
  let subs ← readDocument T emitBindings doc
  sanitize T subs

def wholeMessage (message : String) : SubQueryValue := ⟨"sq1", message, [], []⟩

def decompose (emitBindings : Bool) (reply : Option String) (message : String) :
    Except PyError (List SubQueryValue) :=
  match attempt T emitBindings reply with
  | .ok [] => .ok [wholeMessage message]
  | .ok (s :: rest) => .ok (s :: rest)
  | .error e => if e.caught then .ok [wholeMessage message] else .error e

/-- `LlmUnifiedSplitter.split` reads the reply to its own prompt in the same way. -/
def split : (emitBindings : Bool) → (reply : Option String) → (message : String) →
    Except PyError (List SubQueryValue) := decompose T

end Reading

def resultWith (R : Registry) (d : Decision) : Option RouteResult :=
  match d.outcome with
  | .routed => (assemblePlan R d.routes).map fun plan => ⟨.routed, some plan, "", d.unrouted⟩
  | outcome => some ⟨outcome, none, d.reason, []⟩

/-- The rest of `Router.route`, with what the funnel chose for each sub-query. -/
def route (R : Registry) (outcomes : List (SubQueryValue × FunnelOutcome)) :
    Except PyError RouteResult :=
  if outcomes.all fun o => o.2.agentIds.isEmpty || o.1.dependsOn.all hashable then
    match resultWith R (finalizeRoute (outcomes.map fun o => (named o.1, o.2))) with
    | some r => .ok r
    | none => .error .valueError
  else .error .typeError

def Escapes {α : Type} (r : Except PyError α) : Prop := ∃ e, r = .error e ∧ e.caught = false

section Escaping

variable {α β : Type}

theorem not_escapes_ok (v : α) : ¬Escapes (.ok v : Except PyError α) := by
  rintro ⟨e, he, _⟩
  cases he

theorem escapes_error {e : PyError} : Escapes (.error e : Except PyError α) ↔ e.caught = false := by
  constructor
  · rintro ⟨e', he, hc⟩
    cases he
    exact hc
  · exact fun hc => ⟨e, rfl, hc⟩

theorem escapes_bind {r : Except PyError α} {f : α → Except PyError β} :
    Escapes (r >>= f) ↔ Escapes r ∨ ∃ v, r = .ok v ∧ Escapes (f v) := by
  cases r with
  | error e => simp [bind, Except.bind, escapes_error]
  | ok v => simp [bind, Except.bind, not_escapes_ok]

theorem escapes_mapM {f : α → Except PyError β} {xs : List α} :
    Escapes (xs.mapM f) ↔ ∃ before x rest, xs = before ++ x :: rest ∧
      (∀ y ∈ before, ∃ v, f y = .ok v) ∧ Escapes (f x) := by
  induction xs with
  | nil =>
    refine ⟨fun h => absurd h (not_escapes_ok _), ?_⟩
    rintro ⟨before, x, rest, he, _⟩
    simp at he
  | cons a xs ih =>
    rw [List.mapM_cons, escapes_bind]
    constructor
    · rintro (ha | ⟨v, hv, h⟩)
      · exact ⟨[], a, xs, rfl, by simp, ha⟩
      · rcases escapes_bind.mp h with h | ⟨vs, _, h⟩
        · obtain ⟨before, x, rest, rfl, hbefore, hx⟩ := ih.mp h
          exact ⟨a :: before, x, rest, rfl, List.forall_mem_cons.mpr ⟨⟨v, hv⟩, hbefore⟩, hx⟩
        · exact absurd h (not_escapes_ok _)
    · rintro ⟨before, x, rest, he, hbefore, hx⟩
      cases before with
      | nil =>
        obtain ⟨rfl, _⟩ := List.cons.inj he
        exact .inl hx
      | cons b before =>
        obtain ⟨rfl, rfl⟩ := List.cons.inj he
        obtain ⟨⟨v, hv⟩, hbefore⟩ := List.forall_mem_cons.mp hbefore
        exact .inr ⟨v, hv, escapes_bind.mpr (.inl (ih.mpr ⟨before, x, rest, rfl, hbefore, hx⟩))⟩

theorem iterate_caught (v : Value) : ¬Escapes (iterate v) := by
  cases v <;> simp [iterate, not_escapes_ok, escapes_error, PyError.caught]

theorem items_escapes {v : Value} : Escapes (items v) ↔ ¬∃ entries, v = .dict entries := by
  cases v <;> simp [items, not_escapes_ok, escapes_error, PyError.caught]

theorem getItem_caught (entries : List (Key × Value)) (name : String) :
    ¬Escapes (getItem entries name) := by
  unfold getItem
  split
  · exact not_escapes_ok _
  · simp [escapes_error, PyError.caught]

theorem checkedValue_caught (s : SubQueryValue) : ¬Escapes (checkedValue s) := by
  unfold checkedValue
  split_ifs <;> simp [not_escapes_ok, escapes_error, PyError.caught]

variable {T : PyText} {emitBindings : Bool}

theorem bindingsOf_caught (entries : List (Key × Value)) :
    ¬Escapes (bindingsOf T emitBindings entries) := by
  intro h
  unfold bindingsOf at h
  split_ifs at h
  · rcases escapes_bind.mp h with h | ⟨bds, _, h⟩
    · exact iterate_caught _ h
    · exact not_escapes_ok _ h
  · exact not_escapes_ok _ h

/-- An element of the list escapes the handler where it is no object. -/
theorem parseSubquery_escapes {s : Value} :
    Escapes (parseSubquery T emitBindings s) ↔ ¬∃ entries, s = .dict entries := by
  rw [parseSubquery, escapes_bind, items_escapes, or_iff_left]
  rintro ⟨entries, _, h⟩
  split_ifs at h
  · rcases escapes_bind.mp h with h | ⟨_, _, h⟩
    · exact getItem_caught _ _ h
    rcases escapes_bind.mp h with h | ⟨_, _, h⟩
    · exact getItem_caught _ _ h
    rcases escapes_bind.mp h with h | ⟨_, _, h⟩
    · exact iterate_caught _ h
    rcases escapes_bind.mp h with h | ⟨_, _, h⟩
    · exact bindingsOf_caught _ h
    rcases escapes_bind.mp h with h | ⟨_, _, h⟩
    · exact checkedValue_caught _ h
    · exact not_escapes_ok _ h
  · exact not_escapes_ok _ h

theorem hashed_caught (s : SubQueryValue) : ¬Escapes (hashed s) := by
  unfold hashed
  split_ifs <;> simp [not_escapes_ok, escapes_error, PyError.caught]

theorem sanitize_caught (subs : List SubQueryValue) : ¬Escapes (sanitize T subs) := by
  unfold sanitize
  split_ifs
  · exact not_escapes_ok _
  · intro h
    rcases escapes_bind.mp h with h | ⟨deduped, _, h⟩
    · obtain ⟨_, s, _, _, _, hs⟩ := escapes_mapM.mp h
      exact hashed_caught s hs
    · split at h
      · exact not_escapes_ok _ h
      · simp [escapes_error, PyError.caught] at h

end Escaping

def DependsAmong (subs : List SubQuery) (a b : String) : Prop :=
  ∃ s ∈ subs, s.id = a ∧ b ∈ s.dependsOn ∧ b ∈ subs.map SubQuery.id

def Circular (subs : List SubQuery) : Prop := ∃ x, Relation.TransGen (DependsAmong subs) x x

section Circles

open RouterPlanAssembly DepthFirst RegistryService

variable {subs : List SubQuery}

theorem circular_of_routes {outcomes : List (SubQuery × FunnelOutcome)}
    (h : Cyclic (outcomes.filterMap fun o => routeOf o.1 o.2)) :
    Circular (outcomes.map Prod.fst) := by
  have hroute : ∀ r ∈ outcomes.filterMap fun o => routeOf o.1 o.2,
      ∃ s ∈ outcomes.map Prod.fst, s.id = r.subQueryId ∧ s.dependsOn = r.dependsOnSubqueries := by
    intro r hr
    obtain ⟨o, ho, hor⟩ := List.mem_filterMap.mp hr
    unfold routeOf at hor
    split_ifs at hor
    cases hor
    exact ⟨o.1, List.mem_map_of_mem ho, rfl, rfl⟩
  obtain ⟨x, hx⟩ := h
  refine ⟨x, hx.lift id ?_⟩
  rintro a b ⟨r, hr, rfl, hb, hbr⟩
  obtain ⟨s, hs, hid, hdeps⟩ := hroute r hr
  obtain ⟨r', hr', rfl⟩ := List.mem_map.mp hbr
  obtain ⟨s', hs', hid', _⟩ := hroute r' hr'
  exact ⟨s, hs, hid, hdeps ▸ hb, hid' ▸ List.mem_map_of_mem hs'⟩

theorem next_on_circle {x : String} (h : Relation.TransGen (DependsAmong subs) x x) :
    ∃ s ∈ subs, s.id = x ∧ ∃ y ∈ s.dependsOn, Relation.TransGen (DependsAmong subs) y y := by
  obtain ⟨y, hxy, hyx⟩ := Relation.TransGen.head'_iff.mp h
  obtain ⟨s, hs, hid, hy, _⟩ := id hxy
  exact ⟨s, hs, hid, y, hy, Relation.TransGen.tail' hyx hxy⟩

def pickedAgent (agentId : String) : FunnelOutcome := ⟨[agentId], [], "", false⟩

/-- Routes that each wait for another one of them cannot be sorted. -/
theorem topoSubqueries_none_of_next {routes : List SubQueryRoute} (hne : routes ≠ [])
    (h : ∀ r ∈ routes, ∃ d ∈ r.dependsOnSubqueries, d ∈ routes.map SubQueryRoute.subQueryId) :
    RouterPlan.topoSubqueries routes = none := by
  rw [topoSubqueries_eq, Option.map_eq_none_iff]
  by_contra hsome
  obtain ⟨l, hl⟩ := Option.ne_none_iff_exists'.mp hsome
  obtain ⟨hclosed, _, hmem⟩ := orderAll_closed hl mem_ids_iff
  have hbefore : AtEach (fun before x =>
      ∀ d, Dep (knownDeps (subqueryDeps routes)) x d → d ∈ before) l := by
    rintro before x rest he d ⟨ds, hds, hd⟩
    exact hclosed before x rest he ds hds d hd
  -- The place in the sorted list would go down for ever.
  have hdown : ∀ n, ∀ x ∈ routes.map SubQueryRoute.subQueryId, l.idxOf x ≠ n := by
    intro n
    induction n using Nat.strong_induction_on with
    | _ n ih =>
      intro x hx hidx
      obtain ⟨r, hr⟩ := byId_isSome hx
      obtain ⟨d, hd, hknown⟩ := h r (byId_cases hr).1
      have hdep : Dep (knownDeps (subqueryDeps routes)) x d := by
        refine ⟨r.dependsOnSubqueries.filter fun d => (subqueryDeps routes d).isSome, ?_, ?_⟩
        · rw [knownDeps, subqueryDeps, hr]
          rfl
        · exact List.mem_filter.mpr
            ⟨hd, Option.isSome_iff_ne_none.mpr ((mem_ids_iff d).mp hknown)⟩
      have hlt := hbefore.idxOf_lt ((hmem x).mpr hx) hdep
      exact ih (l.idxOf d) (hidx ▸ hlt) d hknown rfl
  obtain ⟨r, rest, rfl⟩ := List.exists_cons_of_ne_nil hne
  exact hdown _ r.subQueryId (by simp) rfl

/-- Of the sub-queries on circles, one for each id, routed alone, none can come first. -/
theorem unsorted_of_circular (h : Circular subs) (agentId : String) :
    ∃ pick : SubQuery → FunnelOutcome,
      (∀ s, pick s = pickedAgent agentId ∨ pick s = RouterFunnel.unrouted "" false) ∧
      (subs.filterMap fun s => routeOf s (pick s)) ≠ [] ∧
      RouterPlan.topoSubqueries (subs.filterMap fun s => routeOf s (pick s)) = none := by
  classical
  have hnext : ∀ x, Relation.TransGen (DependsAmong subs) x x →
      ∃ s ∈ subs, s.id = x ∧ ∃ y ∈ s.dependsOn, Relation.TransGen (DependsAmong subs) y y :=
    fun x => next_on_circle
  have : Nonempty SubQuery := ⟨⟨"", "", [], []⟩⟩
  choose! chosen hchosen hid hdep using hnext
  let pick : SubQuery → FunnelOutcome := fun s =>
    if Relation.TransGen (DependsAmong subs) s.id s.id ∧ s = chosen s.id then pickedAgent agentId
    else RouterFunnel.unrouted "" false
  have hroute : ∀ x, Relation.TransGen (DependsAmong subs) x x →
      routeOf (chosen x) (pick (chosen x)) =
        some ⟨x, [agentId], [], (chosen x).dependsOn, (chosen x).bindings⟩ := by
    intro x hx
    have hpick : pick (chosen x) = pickedAgent agentId := by
      simp only [pick, hid x hx]
      exact if_pos ⟨hx, trivial⟩
    rw [hpick, routeOf, if_neg (by simp [pickedAgent]), hid x hx]
    rfl
  have hmem : ∀ x, Relation.TransGen (DependsAmong subs) x x →
      x ∈ (subs.filterMap fun s => routeOf s (pick s)).map SubQueryRoute.subQueryId := by
    intro x hx
    exact List.mem_map.mpr ⟨_, List.mem_filterMap.mpr ⟨chosen x, hchosen x hx, hroute x hx⟩, rfl⟩
  have hne : (subs.filterMap fun s => routeOf s (pick s)) ≠ [] := by
    obtain ⟨x, hx⟩ := h
    exact List.ne_nil_of_mem (List.mem_filterMap.mpr ⟨chosen x, hchosen x hx, hroute x hx⟩)
  refine ⟨pick, ?_, hne, topoSubqueries_none_of_next hne ?_⟩
  · intro s
    simp only [pick]
    split_ifs
    · exact .inl rfl
    · exact .inr rfl
  · intro r hr
    obtain ⟨s, _, hsr⟩ := List.mem_filterMap.mp hr
    by_cases hs : Relation.TransGen (DependsAmong subs) s.id s.id ∧ s = chosen s.id
    · rw [hs.2, hroute s.id hs.1] at hsr
      cases hsr
      obtain ⟨y, hy, hcircle⟩ := hdep s.id hs.1
      exact ⟨y, hy, hmem y hcircle⟩
    · have hpick : pick s = RouterFunnel.unrouted "" false := if_neg hs
      rw [hpick] at hsr
      cases hsr

theorem circular_remapped {kept : List SubQuery} :
    Circular (kept.map (remapped kept)) ↔ Circular kept := by
  have hids : (kept.map (remapped kept)).map SubQuery.id =
      (kept.map SubQuery.id).map (renameOf kept) := by
    rw [List.map_map, List.map_map]
    rfl
  have hname : ∀ {d : String}, d ∈ kept.map SubQuery.id →
      idRemap kept d = some (renameOf kept d) := by
    intro d hd
    rw [idRemap_eq_ite, if_pos hd]
  constructor
  · rintro ⟨x, hx⟩
    let back := Function.invFunOn (renameOf kept) {d | d ∈ kept.map SubQuery.id}
    have hback : ∀ d ∈ kept.map SubQuery.id, back (renameOf kept d) = d :=
      Set.InjOn.leftInvOn_invFunOn fun a ha b hb => renameOf_inj ha hb
    refine ⟨back x, hx.lift back ?_⟩
    rintro a b ⟨s', hs', rfl, hb, _⟩
    obtain ⟨s, hs, rfl⟩ := List.mem_map.mp hs'
    obtain ⟨d, hd, hdb⟩ := List.mem_filterMap.mp hb
    have hdk : d ∈ kept.map SubQuery.id := idRemap_ne_none.mp (by simp [hdb])
    obtain rfl : renameOf kept d = b := Option.some.inj ((hname hdk).symm.trans hdb)
    refine ⟨s, hs, (hback s.id (List.mem_map_of_mem hs)).symm, ?_, ?_⟩
    · rwa [hback d hdk]
    · rwa [hback d hdk]
  · rintro ⟨x, hx⟩
    refine ⟨renameOf kept x, hx.lift (renameOf kept) ?_⟩
    rintro a b ⟨s, hs, rfl, hb, hbk⟩
    refine ⟨remapped kept s, List.mem_map_of_mem hs, rfl, ?_, ?_⟩
    · exact List.mem_filterMap.mpr ⟨b, hb, hname hbk⟩
    · rw [hids]
      exact List.mem_map_of_mem hbk

theorem not_circular_nil : ¬Circular [] := by
  rintro ⟨x, hx⟩
  obtain ⟨y, ⟨s, hs, _⟩, _⟩ := Relation.TransGen.head'_iff.mp hx
  cases hs

theorem not_circular_single {s : SubQuery} (h : s.id ∉ s.dependsOn) : ¬Circular [s] := by
  rintro ⟨x, hx⟩
  obtain ⟨y, ⟨s', hs', _, hy, hyk⟩, _⟩ := Relation.TransGen.head'_iff.mp hx
  obtain rfl := List.mem_singleton.mp hs'
  rw [List.map_singleton, List.mem_singleton] at hyk
  exact h (hyk ▸ hy)

end Circles

section Routing

open RouterPlanAssembly RegistryService

variable {subs : List SubQueryValue}

/-- Over every checked registry and whatever active agents are chosen, a result is reached. -/
def Routable (subs : List SubQueryValue) : Prop :=
  ∀ (S : Service) (hS : checkIntegrity S = .ok ())
    (outcomes : List (SubQueryValue × FunnelOutcome)),
    outcomes.map Prod.fst = subs →
    (∀ o ∈ outcomes, ∀ a ∈ o.2.agentIds, a ∈ agentIds (activeAgents S)) →
    ∃ r, route (registry S hS) outcomes = .ok r

theorem routeOf_agents {sq : SubQuery} {o : FunnelOutcome} {r : SubQueryRoute}
    (h : routeOf sq o = some r) : r.agentIds = o.agentIds ∧ r.agentIds ≠ [] := by
  unfold routeOf at h
  split_ifs at h with he
  cases h
  exact ⟨rfl, he⟩

theorem resultWith_finalize (R : Registry) (outcomes : List (SubQuery × FunnelOutcome)) :
    (∃ r, resultWith R (finalizeRoute outcomes) = some r) ↔
      (outcomes.filterMap fun o => routeOf o.1 o.2) = [] ∨
        ∃ plan, assemblePlan R (outcomes.filterMap fun o => routeOf o.1 o.2) = some plan := by
  unfold finalizeRoute
  dsimp only
  by_cases hne : (outcomes.filterMap fun o => routeOf o.1 o.2) = []
  · rw [if_pos hne]
    refine ⟨fun _ => .inl hne, fun _ => ?_⟩
    by_cases hd : (outcomes.filter fun o => o.2.agentIds = []).any fun o => o.2.policyDenied
    · exact ⟨_, by rw [if_pos hd]; rfl⟩
    · exact ⟨_, by rw [if_neg hd]; rfl⟩
  · rw [if_neg hne]
    simp only [resultWith, hne, false_or]
    constructor
    · rintro ⟨r, hr⟩
      obtain ⟨plan, hplan, _⟩ := Option.map_eq_some_iff.mp hr
      exact ⟨plan, hplan⟩
    · rintro ⟨plan, hplan⟩
      exact ⟨_, by rw [hplan]; rfl⟩

theorem route_eq_ok {R : Registry} {outcomes : List (SubQueryValue × FunnelOutcome)} :
    (∃ r, route R outcomes = .ok r) ↔
      (∀ o ∈ outcomes, o.2.agentIds = [] ∨ o.1.dependsOn.all hashable) ∧
        ∃ r, resultWith R (finalizeRoute (outcomes.map fun o => (named o.1, o.2))) = some r := by
  unfold route
  by_cases hh : outcomes.all fun o => o.2.agentIds.isEmpty || o.1.dependsOn.all hashable
  · rw [if_pos hh, and_iff_right (by simpa using hh)]
    cases resultWith R (finalizeRoute (outcomes.map fun o => (named o.1, o.2))) with
    | none => simp
    | some r => simp
  · rw [if_neg hh]
    constructor
    · rintro ⟨r, hr⟩
      cases hr
    · rintro ⟨hall, _⟩
      exact absurd (by simpa using hall) hh

theorem uc_list_active : "uc_list" ∈ agentIds (activeAgents chainedAgents) := by decide +kernel

theorem Routable.of_pick (h : Routable subs) {pick : SubQueryValue → FunnelOutcome}
    (hpick : ∀ s, pick s = pickedAgent "uc_list" ∨ pick s = RouterFunnel.unrouted "" false) :
    ∃ r, route (registry chainedAgents chainedAgents_checked) (subs.map fun s => (s, pick s)) =
      .ok r := by
  apply h chainedAgents chainedAgents_checked
  · rw [List.map_map]
    exact List.map_id _
  · intro o ho a ha
    obtain ⟨s, _, rfl⟩ := List.mem_map.mp ho
    rcases hpick s with hp | hp
    · rw [hp] at ha
      rw [List.mem_singleton.mp ha]
      exact uc_list_active
    · rw [hp] at ha
      cases ha

theorem routable_iff : Routable subs ↔
    (∀ s ∈ subs, s.dependsOn.all hashable) ∧ ¬Circular (subs.map named) := by
  constructor
  · intro h
    constructor
    · intro s hs
      have hall := (route_eq_ok.mp (@Routable.of_pick subs h (fun _ => pickedAgent "uc_list")
        fun _ => .inl rfl)).1 _ (List.mem_map_of_mem hs)
      exact hall.resolve_left (by simp [pickedAgent])
    · intro hcircle
      obtain ⟨pick, hpick, hne, hsort⟩ := unsorted_of_circular hcircle "uc_list"
      have hresult := (route_eq_ok.mp (@Routable.of_pick subs h (fun s => pick (named s))
        fun s => hpick (named s))).2
      rw [List.map_map, resultWith_finalize] at hresult
      rw [List.filterMap_map] at hne hsort
      have hsame : (subs.map ((fun o : SubQueryValue × FunnelOutcome => (named o.1, o.2)) ∘
          fun s => (s, pick (named s)))).filterMap (fun o => routeOf o.1 o.2) =
          subs.filterMap ((fun s => routeOf s (pick s)) ∘ named) := by
        rw [List.filterMap_map]
        rfl
      rw [hsame] at hresult
      obtain ⟨plan, hplan⟩ := hresult.resolve_left hne
      have hag : ∀ r ∈ subs.filterMap ((fun s => routeOf s (pick s)) ∘ named), r.agentIds ≠ [] := by
        intro r hr
        obtain ⟨s, _, hs⟩ := List.mem_filterMap.mp hr
        exact (routeOf_agents hs).2
      rw [assemblePlan_eq hne hag, hsort] at hplan
      cases hplan
  · rintro ⟨hhash, hcircle⟩ S hS outcomes rfl hactive
    rw [route_eq_ok, resultWith_finalize]
    refine ⟨fun o ho => .inr (hhash o.1 (List.mem_map_of_mem ho)), ?_⟩
    rw [or_iff_not_imp_left]
    intro hne
    apply assemblePlan_of_acyclic (registry_resolves S hS) hne
    · intro r hr
      obtain ⟨o, ho, hor⟩ := List.mem_filterMap.mp hr
      obtain ⟨o', ho', rfl⟩ := List.mem_map.mp ho
      obtain ⟨hagents, hsome⟩ := routeOf_agents hor
      refine ⟨hsome, fun a ha => registry_known (hactive o' ho' a ?_)⟩
      rwa [hagents] at ha
    · intro hcyc
      have hsubs := circular_of_routes hcyc
      rw [List.map_map] at hsubs hcircle
      exact hcircle hsubs

end Routing

section Read

variable {T : PyText} {emitBindings : Bool}

theorem checkedValue_eq_ok {s s' : SubQueryValue} (h : checkedValue s = .ok s') :
    s'.id ∉ s'.dependsOn.filterMap nameOf := by
  unfold checkedValue at h
  split_ifs at h with hid hself
  cases h
  exact hself

theorem parseSubquery_checked {v : Value} {s : SubQueryValue}
    (h : parseSubquery T emitBindings v = .ok (some s)) : s.id ∉ s.dependsOn.filterMap nameOf := by
  obtain ⟨entries, _, h⟩ := bind_eq_ok.mp h
  split_ifs at h
  · obtain ⟨id, _, h⟩ := bind_eq_ok.mp h
    obtain ⟨text, _, h⟩ := bind_eq_ok.mp h
    obtain ⟨dependsOn, _, h⟩ := bind_eq_ok.mp h
    obtain ⟨bindings, _, h⟩ := bind_eq_ok.mp h
    obtain ⟨sub, hsub, h⟩ := bind_eq_ok.mp h
    cases h
    exact checkedValue_eq_ok hsub
  · cases h

theorem readDocument_checked {doc : Value} {subs : List SubQueryValue}
    (h : readDocument T emitBindings doc = .ok subs) :
    ∀ s ∈ subs, (named s).id ∉ (named s).dependsOn := by
  obtain ⟨entries, _, h⟩ := bind_eq_ok.mp h
  obtain ⟨xs, _, h⟩ := bind_eq_ok.mp h
  obtain ⟨found, hfound, h⟩ := bind_eq_ok.mp h
  cases h
  intro s hs
  obtain ⟨o, ho, rfl⟩ := List.mem_filterMap.mp hs
  obtain ⟨v, _, hv⟩ := mem_of_mapM hfound _ ho
  exact parseSubquery_checked hv

theorem mapM_hashed {subs : List SubQueryValue} {out : List SubQuery} :
    subs.mapM hashed = .ok out ↔ (∀ s ∈ subs, s.dependsOn.all hashable) ∧ subs.map named = out := by
  have hone : ∀ s o, hashed s = .ok o ↔ s.dependsOn.all hashable ∧ named s = o := by
    intro s o
    unfold hashed
    split_ifs with hs
    · simp [hs]
    · simp [hs]
  simp only [mapM_eq_ok, hone]
  rw [List.forall₂_and_left, ← List.forall₂_eq_eq_eq, List.forall₂_map_left_iff]

theorem named_ofNamed (s : SubQuery) : named (ofNamed s) = s := by
  have hdeps : (s.dependsOn.map Value.str).filterMap nameOf = s.dependsOn := by
    rw [List.filterMap_map]
    exact List.filterMap_some
  rw [named, ofNamed, hdeps]

theorem map_named_ofNamed (l : List SubQuery) : (l.map ofNamed).map named = l := by
  rw [List.map_map, show named ∘ ofNamed = id from funext named_ofNamed, List.map_id]

theorem hashable_ofNamed (s : SubQuery) : (ofNamed s).dependsOn.all hashable := by
  simp [ofNamed, hashable]

def keptSubqueries (T : PyText) (subs : List SubQueryValue) : List SubQuery :=
  dropRollup ((dedupe T.lower SubQueryValue.text [] subs).map named)

/-- The clean-up of two or more sub-queries goes through where the first ones of each text have
hashable dependencies. -/
theorem sanitize_eq_ok {subs out : List SubQueryValue} (hlen : 2 ≤ subs.length)
    (hself : ∀ s ∈ subs, (named s).id ∉ (named s).dependsOn) :
    sanitize T subs = .ok out ↔
      (∀ s ∈ dedupe T.lower SubQueryValue.text [] subs, s.dependsOn.all hashable) ∧
        out = ((keptSubqueries T subs).map (remapped (keptSubqueries T subs))).map ofNamed := by
  have hkept : ∀ s ∈ keptSubqueries T subs, s.id ∉ s.dependsOn := by
    intro s hs
    obtain ⟨v, hv, rfl⟩ := List.mem_map.mp ((dropRollup_sublist _).subset hs)
    exact hself v ((dedupe_sublist _ _).subset hv)
  have hrelabel := relabel_eq_ok hkept
  rw [sanitize, if_neg (by omega), bind_eq_ok]
  simp only [mapM_hashed]
  constructor
  · rintro ⟨deduped, ⟨hhash, rfl⟩, h⟩
    rw [← keptSubqueries, hrelabel] at h
    cases h
    exact ⟨hhash, rfl⟩
  · rintro ⟨hhash, rfl⟩
    refine ⟨_, ⟨hhash, rfl⟩, ?_⟩
    rw [← keptSubqueries, hrelabel]

/-- What comes out of the clean-up can be routed unless a lone sub-query has an unhashable
dependency, or the sub-queries that are kept depend on each other in a circle. -/
theorem sanitize_routable_iff {subs : List SubQueryValue}
    (hself : ∀ s ∈ subs, (named s).id ∉ (named s).dependsOn) :
    (∀ out, sanitize T subs = .ok out → Routable out) ↔
      (∀ s, subs = [s] → s.dependsOn.all hashable) ∧
      (2 ≤ subs.length →
        (∀ s ∈ dedupe T.lower SubQueryValue.text [] subs, s.dependsOn.all hashable) →
        ¬Circular (keptSubqueries T subs)) := by
  by_cases hlen : 2 ≤ subs.length
  · have hmany : ∀ s, subs ≠ [s] := by
      rintro s rfl
      simp at hlen
    have hroutable : Routable (((keptSubqueries T subs).map
        (remapped (keptSubqueries T subs))).map ofNamed) ↔ ¬Circular (keptSubqueries T subs) := by
      rw [routable_iff, map_named_ofNamed, circular_remapped, and_iff_right]
      intro s hs
      obtain ⟨o, _, rfl⟩ := List.mem_map.mp hs
      exact hashable_ofNamed o
    simp only [sanitize_eq_ok hlen hself, and_imp]
    constructor
    · intro h
      exact ⟨fun s hs => absurd hs (hmany s), fun _ hhash => hroutable.mp (h _ hhash rfl)⟩
    · rintro ⟨_, h⟩ out hhash rfl
      exact hroutable.mpr (h hlen hhash)
  · have hok : sanitize T subs = .ok subs := if_pos (by omega)
    have hone : (∀ out, sanitize T subs = .ok out → Routable out) ↔ Routable subs := by
      rw [hok]
      simp
    rw [hone, and_iff_left fun h => absurd h hlen, routable_iff]
    match subs with
    | [] =>
      constructor
      · intro _ s hs
        cases hs
      · intro _
        exact ⟨by simp, not_circular_nil⟩
    | [s] =>
      have hsingle : ¬Circular ([s].map named) := not_circular_single (hself s (by simp))
      rw [and_iff_left hsingle]
      simp
    | a :: b :: rest => simp at hlen

end Read

section Reply

open RegistryService

variable {T : PyText} {emitBindings : Bool}

def HandlesReply (read : Bool → Option String → String → Except PyError (List SubQueryValue))
    (emitBindings : Bool) (text message : String) : Prop :=
  ∃ subs, read emitBindings (some text) message = .ok subs ∧ subs ≠ [] ∧ Routable subs

def ObjectsRead (T : PyText) (emitBindings : Bool) (xs : List Value) : Prop :=
  AtEach (fun before x => (∀ y ∈ before, ∃ s, parseSubquery T emitBindings y = .ok s) →
    ∃ entries, x = .dict entries) xs

/-- What a text has to be like to be handled, as one that is no JSON always is. -/
structure Manageable (T : PyText) (emitBindings : Bool) (text : String) : Prop where
  depth : T.decode text ≠ .error .nestedTooDeep
  object : ∀ doc, T.decode text = .ok doc → ∃ entries, loads doc = .dict entries
  elements : ∀ doc entries xs, T.decode text = .ok doc → loads doc = .dict entries →
    iterate (subqueriesOf entries) = .ok xs → ObjectsRead T emitBindings xs
  lone : ∀ doc s, T.decode text = .ok doc → readDocument T emitBindings (loads doc) = .ok [s] →
    s.dependsOn.all hashable
  ordered : ∀ doc subs, T.decode text = .ok doc →
    readDocument T emitBindings (loads doc) = .ok subs → 2 ≤ subs.length →
    (∀ s ∈ dedupe T.lower SubQueryValue.text [] subs, s.dependsOn.all hashable) →
    ¬Circular (keptSubqueries T subs)

theorem routable_nil : Routable [] := by
  rw [routable_iff]
  exact ⟨by simp, not_circular_nil⟩

theorem routable_wholeMessage (message : String) : Routable [wholeMessage message] := by
  rw [routable_iff]
  refine ⟨?_, not_circular_single (by simp [named, wholeMessage])⟩
  intro s hs
  obtain rfl := List.mem_singleton.mp hs
  rfl

theorem handlesReply_iff {text message : String} :
    HandlesReply (decompose T) emitBindings text message ↔
      ¬Escapes (attempt T emitBindings (some text)) ∧
        ∀ subs, attempt T emitBindings (some text) = .ok subs → Routable subs := by
  unfold HandlesReply decompose
  cases h : attempt T emitBindings (some text) with
  | error e =>
    rw [escapes_error]
    cases hc : e.caught with
    | true => simp [hc, routable_wholeMessage]
    | false => simp [hc]
  | ok subs =>
    cases subs with
    | nil => simp [not_escapes_ok, routable_wholeMessage, routable_nil]
    | cons s rest => simp [not_escapes_ok]

theorem readAll_escapes {xs : List Value} :
    Escapes (readAll T emitBindings xs) ↔ ¬ObjectsRead T emitBindings xs := by
  rw [readAll, escapes_bind, or_iff_left (by rintro ⟨found, _, h⟩; exact not_escapes_ok _ h),
    escapes_mapM, ObjectsRead, AtEach]
  simp only [parseSubquery_escapes]
  push Not
  rfl

theorem readDocument_escapes {doc : Value} :
    Escapes (readDocument T emitBindings doc) ↔
      (¬∃ entries, doc = .dict entries) ∨ ∃ entries xs, doc = .dict entries ∧
        iterate (subqueriesOf entries) = .ok xs ∧ ¬ObjectsRead T emitBindings xs := by
  have hitems : ∀ entries, items doc = .ok entries ↔ doc = .dict entries := by
    intro entries
    cases doc <;> simp [items]
  rw [readDocument, escapes_bind, items_escapes]
  simp only [hitems, escapes_bind, iterate_caught, readAll_escapes, false_or]
  refine or_congr_right (exists_congr fun entries => ?_)
  rw [exists_and_left]

/-- Only a document that is nested too deep, one that is no object, and an element of the list
that is none escape the handler. -/
theorem attempt_escapes {text : String} :
    Escapes (attempt T emitBindings (some text)) ↔
      T.decode text = .error .nestedTooDeep ∨ ∃ doc, T.decode text = .ok doc ∧
        ((¬∃ entries, loads doc = .dict entries) ∨ ∃ entries xs, loads doc = .dict entries ∧
          iterate (subqueriesOf entries) = .ok xs ∧ ¬ObjectsRead T emitBindings xs) := by
  have hattempt : attempt T emitBindings (some text) = loadsText T text >>= fun doc =>
      readDocument T emitBindings doc >>= sanitize T := rfl
  rw [hattempt, loadsText]
  cases hd : T.decode text with
  | error e =>
    cases e with
    | invalid => simp [bind, Except.bind, escapes_error, PyError.caught]
    | nestedTooDeep => simp [bind, Except.bind, escapes_error, PyError.caught]
  | ok doc =>
    have hdoc : (Except.ok (loads doc) >>= fun doc =>
        readDocument T emitBindings doc >>= sanitize T) =
        readDocument T emitBindings (loads doc) >>= sanitize T := rfl
    simp only [hdoc, escapes_bind, sanitize_caught, and_false, exists_false, or_false,
      readDocument_escapes]
    simp

theorem attempt_eq_ok {text : String} {subs : List SubQueryValue} :
    attempt T emitBindings (some text) = .ok subs ↔ ∃ doc read, T.decode text = .ok doc ∧
      readDocument T emitBindings (loads doc) = .ok read ∧ sanitize T read = .ok subs := by
  have hattempt : attempt T emitBindings (some text) = loadsText T text >>= fun doc =>
      readDocument T emitBindings doc >>= sanitize T := rfl
  have hloads : ∀ v, loadsText T text = .ok v ↔ ∃ doc, T.decode text = .ok doc ∧ loads doc = v := by
    intro v
    unfold loadsText
    split <;> simp_all
  simp only [hattempt, bind_eq_ok, hloads]
  constructor
  · rintro ⟨v, ⟨doc, hdoc, rfl⟩, read, hread, hsub⟩
    exact ⟨doc, read, hdoc, hread, hsub⟩
  · rintro ⟨doc, read, hdoc, hread, hsub⟩
    exact ⟨_, ⟨doc, hdoc, rfl⟩, read, hread, hsub⟩

/-- For every text that the model can return, a list of sub-queries comes back and every way of
routing it ends in a result, exactly where the text is manageable. -/
theorem reply_handled_iff (T : PyText) (emitBindings : Bool) (text message : String) :
    (HandlesReply (decompose T) emitBindings text message ↔ Manageable T emitBindings text) ∧
      (HandlesReply (split T) emitBindings text message ↔ Manageable T emitBindings text) := by
  have hsame : split T = decompose T := rfl
  rw [hsame, and_self, handlesReply_iff, attempt_escapes]
  constructor
  · rintro ⟨hescape, hroute⟩
    push Not at hescape
    obtain ⟨hdepth, hdoc⟩ := hescape
    have hread : ∀ doc read, T.decode text = .ok doc →
        readDocument T emitBindings (loads doc) = .ok read →
        ∀ out, sanitize T read = .ok out → Routable out :=
      fun doc read hd hr out hs => hroute out (attempt_eq_ok.mpr ⟨doc, read, hd, hr, hs⟩)
    refine ⟨hdepth, fun doc hd => (hdoc doc hd).1, ?_, ?_, ?_⟩
    · intro doc entries xs hd hentries hxs
      exact (hdoc doc hd).2 entries xs hentries hxs
    · intro doc s hd hr
      exact ((sanitize_routable_iff (readDocument_checked hr)).mp (hread doc _ hd hr)).1 s rfl
    · intro doc subs hd hr
      exact ((sanitize_routable_iff (readDocument_checked hr)).mp (hread doc _ hd hr)).2
  · intro h
    constructor
    · rintro (hdeep | ⟨doc, hd, hnone | ⟨entries, xs, hentries, hxs, hread⟩⟩)
      · exact h.depth hdeep
      · exact hnone (h.object doc hd)
      · exact hread (h.elements doc entries xs hd hentries hxs)
    · intro subs hsubs
      obtain ⟨doc, read, hd, hr, hs⟩ := attempt_eq_ok.mp hsubs
      refine (sanitize_routable_iff (readDocument_checked hr)).mpr ⟨?_, ?_⟩ subs hs
      · rintro s rfl
        exact h.lone doc s hd hr
      · exact h.ordered doc read hd hr

end Reply

def circleText : String :=
  "\x7b\"subqueries\": [\x7b\"id\": \"a\", \"text\": \"open it\", \"depends_on\": [\"b\"]\x7d, " ++
    "\x7b\"id\": \"b\", \"text\": \"close it\", \"depends_on\": [\"a\"]\x7d]\x7d"

def circleDoc : Doc :=
  .obj [("subqueries", .arr
    [.obj [("id", .str "a"), ("text", .str "open it"), ("depends_on", .arr [.str "b"])],
      .obj [("id", .str "b"), ("text", .str "close it"), ("depends_on", .arr [.str "a"])]])]

def sampleText : PyText where
  decode text := if text = circleText then .ok circleDoc else if text = "[]" then .ok (.arr [])
    else .error .invalid
  strOf _ := "[]"
  lower := id

def circleSubs : List SubQueryValue :=
  [⟨"sq1", "open it", [.str "sq2"], []⟩, ⟨"sq2", "close it", [.str "sq1"], []⟩]

/-- The planner's error on a circle, and an AttributeError on a document that is no object, are
not caught. -/
theorem circle_and_list_escape :
    decompose sampleText true (some circleText) "open and close it" = .ok circleSubs ∧
    route (RegistryService.registry RouterPlanAssembly.chainedAgents
        RouterPlanAssembly.chainedAgents_checked)
      (circleSubs.map fun s => (s, pickedAgent "uc_list")) = .error .valueError ∧
    ¬HandlesReply (decompose sampleText) true circleText "open and close it" ∧
    decompose sampleText true (some "[]") "open it" = .error .attributeError ∧
    ¬HandlesReply (decompose sampleText) true "[]" "open it" := by
  have hread : decompose sampleText true (some circleText) "open and close it" =
      .ok circleSubs := rfl
  have hnone : (resultWith (RegistryService.registry RouterPlanAssembly.chainedAgents
      RouterPlanAssembly.chainedAgents_checked) (finalizeRoute
        ((circleSubs.map fun s => (s, pickedAgent "uc_list")).map
          fun o => (named o.1, o.2)))).isNone := by
    decide +kernel
  have hroute : route (RegistryService.registry RouterPlanAssembly.chainedAgents
        RouterPlanAssembly.chainedAgents_checked)
      (circleSubs.map fun s => (s, pickedAgent "uc_list")) = .error .valueError := by
    rw [route, if_pos (by decide), Option.isNone_iff_eq_none.mp hnone]
  have hlist : decompose sampleText true (some "[]") "open it" = .error .attributeError := rfl
  refine ⟨hread, hroute, ?_, hlist, ?_⟩
  · rintro ⟨subs, hsubs, _, hroutable⟩
    obtain rfl := Except.ok.inj (hread.symm.trans hsubs)
    obtain ⟨r, hr⟩ := @Routable.of_pick circleSubs hroutable (fun _ => pickedAgent "uc_list")
      fun _ => .inl rfl
    rw [hroute] at hr
    cases hr
  · rintro ⟨subs, hsubs, _⟩
    rw [hlist] at hsubs
    cases hsubs

end QueryDecomposition
