import Mathlib.Data.Finset.Sort
import Mathlib.Data.List.DropRight
import Mathlib.Data.String.Basic
import OneOps.AnswerCache
import OneOps.AuthzService
import OneOps.PythonJson
import OneOps.RouterFunnel

/-! The route cache: the verdict of the funnel is kept under a key made of the normalised
message, the role, the focus and digests of the signals and the history, for each tenant.
A later call with the same key gets the verdict without running the funnel, and its plan is
assembled again. -/
namespace RouteCache

open AnswerCache ListSplit
open ActivationConditions
open PythonJson (Doc)
open RouterDisambiguation
open RouterFunnel

def separator : Char := '\x1f'

/-- The text functions of the key and the fingerprint of the registry. The separator counts
as white space, and digests are hexadecimal. -/
structure KeyText where
  strip : String → String
  lower : String → String
  isSpace : Char → Bool
  sha256 : String → String
  fingerprint : String
  separator_space : isSpace separator = true
  sha256_plain : ∀ s, separator ∉ (sha256 s).toList
  fingerprint_plain : separator ∉ fingerprint.toList

def join (sep : Char) (parts : List (List Char)) : String := String.ofList ([sep].intercalate parts)

def words (K : KeyText) (s : String) : List (List Char) :=
  ((K.lower (K.strip s)).toList.splitOnP K.isSpace).filter fun w => w ≠ []

def norm (K : KeyText) (s : String) : String := join ' ' (words K s)

def digest (K : KeyText) (n : ℕ) (raw : String) : String :=
  String.ofList ((K.sha256 raw).toList.take n)

def names (l : List String) : Doc := .arr (l.map .str)

def entityLe (a b : String × String) : Prop := a.1 < b.1 ∨ (a.1 = b.1 ∧ a.2 ≤ b.2)

instance : DecidableRel entityLe := fun _ _ => inferInstanceAs (Decidable (_ ∨ _))

def intentsDoc : Option (Finset String) → Doc
  | none => .null
  | some intents => if intents = ∅ then .null else names intents.sort

def signalsDoc (s : RequestSignals) : Doc :=
  .obj [("caps", names s.tenantCapabilities.sort),
    ("entities", .arr ((s.presentEntities.insertionSort entityLe).map fun e => names [e.1, e.2])),
    ("focus", .bool s.hasActiveFocus),
    ("intents", intentsDoc s.intents),
    ("role", .str s.role),
    ("tenant", .str s.tenantId)]

def signalsDigest (K : KeyText) (s : RequestSignals) : String :=
  digest K 16 (String.ofList (signalsDoc s).text)

def conversationDoc (history : List ConversationTurn) : Doc :=
  .arr (history.map fun t => names [t.role, t.content])

def conversationDigest (K : KeyText) (history : List ConversationTurn) : String :=
  if history = [] then "0" else digest K 16 (String.ofList (conversationDoc history).text)

def keyVersion : String := "rc1"

def keyParts (K : KeyText) (x : RouteCall) : List String :=
  [keyVersion, norm K x.queryText, x.principal.role, x.ctx.domain.getD "",
    x.ctx.focusEntityId.getD "", x.ctx.focusServiceId.getD "", signalsDigest K x.signals,
    conversationDigest K x.history, K.fingerprint]

def rawKey (K : KeyText) (x : RouteCall) : String :=
  join separator ((keyParts K x).map String.toList)

def routeCacheKey (K : KeyText) (x : RouteCall) : String × String :=
  (x.principal.tenantId, digest K 32 (rawKey K x))

/-- What a call does is one step. A get or a put may fail, and rows expire. -/
inductive Event where
  | route (x : RouteCall) (getFails putFails : Bool)
  | expire (key : String × String)

def Event.call : Event → Option RouteCall
  | .route x _ _ => some x
  | .expire _ => none

/-- The rows, and the call that each of them was stored by. -/
structure Cache where
  rows : String × String → Option Decision
  origins : String × String → Option RouteCall

/-- A routed verdict without routes is not served, and neither is one whose plan cannot be
assembled. -/
def resultFromCache (F : Router) (d : Decision) : Option RouteResult :=
  if d.outcome = .routed ∧ d.routes = [] then none else resultOf F d

def lookup (F : Router) (K : KeyText) (c : Cache) (x : RouteCall) (getFails : Bool) :
    Option RouteResult :=
  if getFails then none else (c.rows (routeCacheKey K x)).bind (resultFromCache F)

inductive Answer where
  | fromCache (r : RouteResult)
  | ran (r : Option RouteResult)

def Answer.result : Answer → Option RouteResult
  | .fromCache r => some r
  | .ran r => r

def store (F : Router) (K : KeyText) (c : Cache) (x : RouteCall) : Cache :=
  ⟨Function.update c.rows (routeCacheKey K x) (some (decision F x)),
    Function.update c.origins (routeCacheKey K x) (some x)⟩

/-- The verdict is stored before the plan is assembled. -/
def route (F : Router) (K : KeyText) (c : Cache) (x : RouteCall) (getFails putFails : Bool) :
    Cache × Answer :=
  if isBlank F x then (c, .ran (fresh F x))
  else
    match lookup F K c x getFails with
    | some r => (c, .fromCache r)
    | none => (if putFails then c else store F K c x, .ran (fresh F x))

def drop (c : Cache) (key : String × String) : Cache :=
  ⟨Function.update c.rows key none, Function.update c.origins key none⟩

def step (F : Router) (K : KeyText) (c : Cache) : Event → Cache
  | .route x getFails putFails => (route F K c x getFails putFails).1
  | .expire key => drop c key

def empty : Cache := ⟨fun _ => none, fun _ => none⟩

def after (F : Router) (K : KeyText) (events : List Event) : Cache := events.foldl (step F K) empty

/-- A call that is answered from the cache gets what the funnel would give it. -/
def Served (F : Router) (K : KeyText) (c : Cache) : Event → Prop
  | .route x getFails putFails =>
    ∀ r, (route F K c x getFails putFails).2 = .fromCache r → fresh F x = some r
  | .expire _ => True

/-- The calls of a run have equal digests only where what is digested is equal. -/
structure CollisionFree (K : KeyText) (calls : List RouteCall) : Prop where
  key : ∀ x ∈ calls, ∀ y ∈ calls, digest K 32 (rawKey K x) = digest K 32 (rawKey K y) →
    rawKey K x = rawKey K y
  signals : ∀ x ∈ calls, ∀ y ∈ calls, signalsDigest K x.signals = signalsDigest K y.signals →
    signalsDoc x.signals = signalsDoc y.signals
  conversation : ∀ x ∈ calls, ∀ y ∈ calls,
    conversationDigest K x.history = conversationDigest K y.history → x.history = y.history

/-- The separator stands in none of the texts that come into the key as they are. -/
structure Separated (x : RouteCall) : Prop where
  role : separator ∉ x.principal.role.toList
  domain : separator ∉ (x.ctx.domain.getD "").toList
  focusEntityId : separator ∉ (x.ctx.focusEntityId.getD "").toList
  focusServiceId : separator ∉ (x.ctx.focusServiceId.getD "").toList

/-- The stages cannot tell two calls apart: they split and rewrite the two messages alike,
the intents are unset in both or in neither, and the disambiguator answers alike in both
contexts. -/
structure Alike (F : Router) (x y : RouteCall) : Prop where
  subqueries : subqueries F x = subqueries F y
  rewrites : ∀ sq ∈ RouterFunnel.subqueries F y, rewriteOf F x sq = rewriteOf F y sq
  intents : x.signals.intents = none ↔ y.signals.intents = none
  disambiguation : ∀ queryText candidates,
    disambiguate F.text.toText (registeredIds F) F.disambiguator queryText candidates x.ctx =
      disambiguate F.text.toText (registeredIds F) F.disambiguator queryText candidates y.ctx

def Repeats (F : Router) (K : KeyText) (c : Cache) : Event → Prop
  | .route x _ _ => Separated x ∧
    ∀ y, c.origins (routeCacheKey K x) = some y → Alike F y x
  | .expire _ => True

section Keys

variable {K : KeyText} {x y : RouteCall}

theorem notMem_splitOnP {p : Char → Bool} {l : List Char} :
    ∀ w ∈ l.splitOnP p, ∀ c ∈ w, p c = false := by
  induction l with
  | nil =>
    intro w hw c hc
    rw [List.splitOnP_nil, List.mem_singleton] at hw
    rw [hw] at hc
    cases hc
  | cons a l ih =>
    intro w hw c hc
    rw [List.splitOnP_cons_eq_if_modifyHead] at hw
    by_cases ha : p a = true
    · rw [if_pos ha] at hw
      rcases List.mem_cons.mp hw with rfl | hw
      · cases hc
      · exact ih w hw c hc
    · rw [if_neg ha] at hw
      cases hs : l.splitOnP p with
      | nil => exact absurd hs (List.splitOnP_ne_nil p l)
      | cons first rest =>
        rw [hs, List.modifyHead_cons] at hw
        rcases List.mem_cons.mp hw with rfl | hw
        · rcases List.mem_cons.mp hc with rfl | hc
          · simpa using ha
          · exact ih first (hs ▸ List.mem_cons_self) c hc
        · exact ih w (hs ▸ List.mem_cons_of_mem _ hw) c hc

theorem notMem_intercalate {sep c : Char} (hc : c ≠ sep) {parts : List (List Char)}
    (h : ∀ w ∈ parts, c ∉ w) : c ∉ [sep].intercalate parts := by
  induction parts with
  | nil => simp
  | cons w parts ih =>
    cases parts with
    | nil =>
      rw [List.intercalate_singleton]
      exact h w List.mem_cons_self
    | cons v parts =>
      rw [List.intercalate_cons_cons]
      simp only [List.mem_append, List.mem_singleton, not_or]
      exact ⟨⟨h w List.mem_cons_self, hc⟩, ih fun u hu => h u (List.mem_cons_of_mem _ hu)⟩

theorem norm_plain (K : KeyText) (s : String) : separator ∉ (norm K s).toList := by
  rw [norm, join, String.toList_ofList]
  apply notMem_intercalate (by decide)
  intro w hw hc
  have hspace := notMem_splitOnP w (List.mem_filter.mp hw).1 separator hc
  rw [K.separator_space] at hspace
  cases hspace

theorem digest_plain (K : KeyText) (n : ℕ) (raw : String) :
    separator ∉ (digest K n raw).toList := by
  rw [digest, String.toList_ofList]
  intro hc
  exact K.sha256_plain raw (List.mem_of_mem_take hc)

theorem conversationDigest_plain (K : KeyText) (history : List ConversationTurn) :
    separator ∉ (conversationDigest K history).toList := by
  unfold conversationDigest
  by_cases hh : history = []
  · rw [if_pos hh]
    decide
  · rw [if_neg hh]
    exact digest_plain K 16 _

theorem keyParts_plain (hx : Separated x) :
    ∀ w ∈ (keyParts K x).map String.toList, separator ∉ w := by
  have hversion : separator ∉ keyVersion.toList := by decide
  simp only [keyParts, List.map_cons, List.map_nil, List.forall_mem_cons]
  exact ⟨hversion, norm_plain K _, hx.role, hx.domain, hx.focusEntityId, hx.focusServiceId,
    digest_plain K 16 _, conversationDigest_plain K _, K.fingerprint_plain, List.forall_mem_nil _⟩

theorem keyParts_inj (hx : Separated x) (hy : Separated y) (h : rawKey K x = rawKey K y) :
    keyParts K x = keyParts K y := by
  have hlist := String.ofList_injective h
  have hne : ∀ z : RouteCall, (keyParts K z).map String.toList ≠ [] := by
    intro z
    exact List.cons_ne_nil _ _
  have hmap := congrArg (List.splitOn separator) hlist
  rw [List.splitOn_intercalate separator (keyParts_plain hx) (hne x),
    List.splitOn_intercalate separator (keyParts_plain hy) (hne y)] at hmap
  exact List.map_injective_iff.mpr (fun _ _ he => String.toList_injective he) hmap

/-- What calls of one key have in common. -/
structure SameKey (x y : RouteCall) : Prop where
  tenantId : x.principal.tenantId = y.principal.tenantId
  role : x.principal.role = y.principal.role
  focusEntityId : x.ctx.focusEntityId.getD "" = y.ctx.focusEntityId.getD ""
  focusServiceId : x.ctx.focusServiceId.getD "" = y.ctx.focusServiceId.getD ""
  signals : signalsDoc x.signals = signalsDoc y.signals
  history : x.history = y.history

theorem sameKey {calls : List RouteCall} (hfree : CollisionFree K calls) (hxc : x ∈ calls)
    (hyc : y ∈ calls) (hx : Separated x) (hy : Separated y)
    (h : routeCacheKey K x = routeCacheKey K y) : SameKey x y := by
  obtain ⟨htenant, hdigest⟩ := Prod.mk.inj h
  have hparts := keyParts_inj hx hy (hfree.key x hxc y hyc hdigest)
  simp only [keyParts, List.cons.injEq, and_true, true_and] at hparts
  obtain ⟨_, hrole, _, hfocus, hservice, hsignals, hconversation⟩ := hparts
  exact ⟨htenant, hrole, hfocus, hservice, hfree.signals x hxc y hyc hsignals,
    hfree.conversation x hxc y hyc hconversation⟩

theorem names_inj {l m : List String} (h : names l = names m) : l = m :=
  List.map_injective_iff.mpr (fun _ _ he => Doc.str.inj he) (Doc.arr.inj h)

/-- The document of the signals has all that the stages read of them, but for the
difference between unset and empty intents. -/
theorem signalsDoc_inj {s t : RequestSignals} (h : signalsDoc s = signalsDoc t)
    (hi : s.intents = none ↔ t.intents = none) :
    s.role = t.role ∧ s.tenantId = t.tenantId ∧ s.tenantCapabilities = t.tenantCapabilities ∧
      s.hasActiveFocus = t.hasActiveFocus ∧ s.intents = t.intents := by
  simp only [signalsDoc, Doc.obj.injEq, List.cons.injEq, Prod.mk.injEq, true_and, and_true,
    Doc.bool.injEq, Doc.str.injEq] at h
  obtain ⟨hcaps, _, hfocus, hintents, hrole, htenant⟩ := h
  have hsort : ∀ {a b : Finset String}, a.sort = b.sort → a = b := by
    intro a b hab
    simpa using congrArg List.toFinset hab
  refine ⟨hrole, htenant, hsort (names_inj hcaps), hfocus, ?_⟩
  cases hs : s.intents with
  | none => exact (hi.mp hs).symm
  | some a =>
    cases ht : t.intents with
    | none =>
      rw [hi.mpr ht] at hs
      cases hs
    | some b =>
      rw [hs, ht] at hintents
      unfold intentsDoc at hintents
      by_cases ha : a = ∅
      · by_cases hb : b = ∅
        · rw [ha, hb]
        · simp only [ha, hb, if_true, if_false] at hintents
          cases hintents
      · by_cases hb : b = ∅
        · simp only [ha, hb, if_true, if_false] at hintents
          cases hintents
        · simp only [ha, hb, if_false] at hintents
          rw [hsort (names_inj hintents)]

end Keys

section Verdicts

variable {F : Router} {x y : RouteCall}

theorem stage3Filter_congr {p q : AuthzRules.Principal} (h : p.role = q.role) (s : RequestSignals)
    (candidates : List Candidate) :
    stage3Filter F p s candidates = stage3Filter F q s candidates := by
  have hallowed : ∀ agent, agentAllowed F p agent = agentAllowed F q agent := by
    intro agent
    rw [agentAllowed, agentAllowed, AuthzRules.isAllowed, AuthzRules.isAllowed]
    rw [AuthzRules.check_own_tenant F.roles agent h]
  have hstage : stage3 F p s = stage3 F q s := by
    funext c
    simp only [stage3, hallowed]
  rw [stage3Filter, stage3Filter, hstage]

/-- The funnel reads nothing of a call but what its key and its stages tell. -/
theorem routeSubquery_congr (hk : SameKey x y) (ha : Alike F x y) {sq : SubQuery}
    (hsq : sq ∈ subqueries F y) : routeSubquery F x sq = routeSubquery F y sq := by
  have hrewrite := ha.rewrites sq hsq
  have hfocusId : focusId F x.ctx = focusId F y.ctx := by
    rw [focusId, focusId, hk.focusEntityId]
  have hfocusService : focusService F x.ctx = focusService F y.ctx := by
    rw [focusService, focusService, hk.focusServiceId]
  have hscoped : scopeSubquerySignals F x sq = scopeSubquerySignals F y sq := by
    obtain ⟨hrole, htenant, hcaps, hfocus, hintents⟩ := signalsDoc_inj hk.signals ha.intents
    simp only [scopeSubquerySignals, scopedEntities, hrewrite, hfocusId, hfocusService, hk.history,
      hrole, htenant, hcaps, hfocus, hintents]
  have hcandidates : ∀ text,
      chatCandidates F x.principal text = chatCandidates F y.principal text := by
    intro text
    rw [chatCandidates, chatCandidates, hk.tenantId]
  simp only [routeSubquery, funnel, choose, stage4Disambiguate, hscoped, hrewrite, hk.tenantId,
    hcandidates, stage3Filter_congr hk.role, hfocusId, ha.disambiguation]

theorem decision_congr (hk : SameKey x y) (ha : Alike F x y) : decision F x = decision F y := by
  rw [decision, decision, ha.subqueries]
  apply congrArg finalizeRoute
  apply List.map_congr_left
  intro sq hsq
  rw [routeSubquery_congr hk ha hsq]

end Verdicts

section Runs

variable {F : Router} {K : KeyText} {c : Cache} {x : RouteCall} {getFails putFails : Bool}

def calls (events : List Event) : List RouteCall := events.filterMap Event.call

def Known (F : Router) (K : KeyText) (c : Cache) : Prop :=
  Traced (routeCacheKey K) (fun x => some (decision F x)) c.rows c.origins

/-- What a call does to the cache: nothing, or it stores its own verdict. -/
theorem route_cache (F : Router) (K : KeyText) (c : Cache) (x : RouteCall)
    (getFails putFails : Bool) :
    (route F K c x getFails putFails).1 = c ∨
      (route F K c x getFails putFails).1 = store F K c x := by
  unfold route
  by_cases hb : isBlank F x = true
  · rw [if_pos hb]
    exact .inl rfl
  · rw [if_neg hb]
    cases lookup F K c x getFails with
    | some r => exact .inl rfl
    | none =>
      by_cases hp : putFails = true
      · exact .inl (if_pos hp)
      · exact .inr (if_neg hp)

theorem route_fromCache {r : RouteResult}
    (h : (route F K c x getFails putFails).2 = .fromCache r) :
    isBlank F x = false ∧
      ∃ d, c.rows (routeCacheKey K x) = some d ∧ resultFromCache F d = some r := by
  unfold route at h
  by_cases hb : isBlank F x = true
  · rw [if_pos hb] at h
    cases h
  · rw [if_neg hb] at h
    refine ⟨by simpa using hb, ?_⟩
    cases hl : lookup F K c x getFails with
    | none =>
      rw [hl] at h
      cases h
    | some r' =>
      rw [hl] at h
      cases h
      unfold lookup at hl
      by_cases hg : getFails = true
      · rw [if_pos hg] at hl
        cases hl
      · rw [if_neg hg] at hl
        exact Option.bind_eq_some_iff.mp hl

theorem route_ran {r : Option RouteResult} (h : (route F K c x getFails putFails).2 = .ran r) :
    r = fresh F x := by
  unfold route at h
  by_cases hb : isBlank F x = true
  · rw [if_pos hb] at h
    cases h
    rfl
  · rw [if_neg hb] at h
    cases hl : lookup F K c x getFails with
    | none =>
      rw [hl] at h
      cases h
      rfl
    | some r' =>
      rw [hl] at h
      cases h

theorem Known.step (h : Known F K c) (e : Event) : Known F K (step F K c e) := by
  cases e with
  | expire key => exact Traced.drop h key
  | route x getFails putFails =>
    rcases route_cache F K c x getFails putFails with he | he
    · rw [RouteCache.step, he]
      exact h
    · rw [RouteCache.step, he]
      exact Traced.store h rfl

theorem after_snoc (events : List Event) (e : Event) :
    after F K (events ++ [e]) = step F K (after F K events) e := by
  simp [after]

theorem after_known (F : Router) (K : KeyText) (events : List Event) :
    Known F K (after F K events) := by
  induction events using List.reverseRecOn with
  | nil => exact traced_empty
  | append_singleton events e ih =>
    rw [after_snoc]
    exact ih.step e

@[simp] theorem store_origins (F : Router) (K : KeyText) (c : Cache) (x : RouteCall) :
    (store F K c x).origins = Function.update c.origins (routeCacheKey K x) (some x) := rfl

@[simp] theorem drop_origins (c : Cache) (key : String × String) :
    (drop c key).origins = Function.update c.origins key none := rfl

theorem after_origins {events : List Event} {key : String × String} {y : RouteCall}
    (h : (after F K events).origins key = some y) : y ∈ calls events := by
  induction events using List.reverseRecOn generalizing key y with
  | nil => cases h
  | append_singleton events e ih =>
    rw [after_snoc] at h
    rw [calls, List.filterMap_append, List.mem_append]
    cases e with
    | expire k =>
      left
      by_cases hk : key = k
      · simp [step, hk] at h
      · rw [step, drop_origins, Function.update_of_ne hk] at h
        exact ih h
    | route x getFails putFails =>
      rcases route_cache F K (after F K events) x getFails putFails with he | he
      · rw [step, he] at h
        exact .inl (ih h)
      · rw [step, he] at h
        by_cases hk : key = routeCacheKey K x
        · rw [store_origins, hk, Function.update_self] at h
          cases h
          exact .inr (by simp [Event.call])
        · rw [store_origins, Function.update_of_ne hk] at h
          exact .inl (ih h)

theorem fromCache_origin {events : List Event} {r : RouteResult}
    (h : (route F K (after F K events) x getFails putFails).2 = .fromCache r) :
    isBlank F x = false ∧ ∃ y ∈ calls events,
      (after F K events).origins (routeCacheKey K x) = some y ∧
      routeCacheKey K y = routeCacheKey K x ∧ resultFromCache F (decision F y) = some r := by
  obtain ⟨hblank, d, hrow, hd⟩ := route_fromCache h
  obtain ⟨y, hy, hkey, hanswer⟩ := Traced.origin (after_known F K events) hrow
  cases hanswer
  exact ⟨hblank, y, after_origins hy, hy, hkey, hd⟩

theorem resultFromCache_eq {d : Decision} {r : RouteResult} (h : resultFromCache F d = some r) :
    resultOf F d = some r := by
  unfold resultFromCache at h
  split at h
  · cases h
  · exact h

theorem mem_calls {events : List Event} :
    x ∈ calls events ↔ ∃ getFails putFails, .route x getFails putFails ∈ events := by
  unfold calls
  rw [List.mem_filterMap]
  constructor
  · rintro ⟨e, he, hc⟩
    cases e with
    | expire key => cases hc
    | route y getFails putFails =>
      cases hc
      exact ⟨getFails, putFails, he⟩
  · rintro ⟨getFails, putFails, he⟩
    exact ⟨_, he, rfl⟩

theorem calls_of_atEach {Q : List Event → Event → Prop} {P : RouteCall → Prop}
    {events : List Event} (h : AtEach Q events)
    (hP : ∀ before x getFails putFails, Q before (.route x getFails putFails) → P x) :
    ∀ x ∈ calls events, P x := by
  intro x hx
  obtain ⟨getFails, putFails, he⟩ := mem_calls.mp hx
  obtain ⟨before, rest, rfl⟩ := List.append_of_mem he
  exact hP before x getFails putFails (h before _ rest rfl)

end Runs

/-- In every run with any calls, expiries and failures of the store, a call that is answered
from the cache gets what the funnel run afresh would give it, if each call that finds a row
is like the call that stored it. -/
theorem route_cache_sound (F : Router) (K : KeyText) (events : List Event)
    (hfree : CollisionFree K (calls events))
    (h : AtEach (fun before e => Repeats F K (after F K before) e) events) :
    AtEach (fun before e => Served F K (after F K before) e) events := by
  have hsep : ∀ x ∈ calls events, Separated x :=
    calls_of_atEach h fun _ _ _ _ hr => hr.1
  intro before e rest he
  cases e with
  | expire key => trivial
  | route x getFails putFails =>
    intro r hr
    obtain ⟨hblank, y, hy, horigin, hkey, hd⟩ := fromCache_origin hr
    have hxc : x ∈ calls events := mem_calls.mpr ⟨getFails, putFails, by rw [he]; simp⟩
    have hyc : y ∈ calls events := by
      rw [he, calls, List.filterMap_append]
      exact List.mem_append_left _ hy
    have hsame := sameKey hfree hyc hxc (hsep y hyc) (hsep x hxc) hkey
    have halike := (h before _ rest he).2 y horigin
    rw [fresh, hblank, if_neg Bool.false_ne_true, ← decision_congr hsame halike]
    exact resultFromCache_eq hd

section TwoCalls

variable {F : Router} {K : KeyText} {x y : RouteCall} {r : RouteResult}

theorem after_one (hx : isBlank F x = false) :
    after F K [.route x false false] = store F K empty x := by
  simp [after, step, route, hx, lookup, empty]

/-- Both calls reach the cache, and the verdict on the first one makes a result. -/
theorem second_fromCache (hkey : routeCacheKey K x = routeCacheKey K y)
    (hx : isBlank F x = false) (hy : isBlank F y = false)
    (hr : resultFromCache F (decision F x) = some r) :
    (route F K (after F K [.route x false false]) y false false).2 = .fromCache r := by
  have hfound : lookup F K (store F K empty x) y false = some r := by
    simp only [lookup, store, Bool.false_eq_true, if_false, ← hkey, Function.update_self,
      Option.bind_some, hr]
  simp only [after_one hx, route, hy, Bool.false_eq_true, if_false, hfound]

theorem second_not_served (hkey : routeCacheKey K x = routeCacheKey K y)
    (hx : isBlank F x = false) (hy : isBlank F y = false)
    (hr : resultFromCache F (decision F x) = some r) (hne : fresh F y ≠ some r) :
    ¬ AtEach (fun before e => Served F K (after F K before) e)
      [.route x false false, .route y false false] := by
  intro h
  exact hne (h [.route x false false] (.route y false false) [] rfl r
    (second_fromCache hkey hx hy hr))

/-- Stages that cannot tell the contexts apart take equal messages alike. -/
theorem alike_of_same_text (ht : x.queryText = y.queryText) (hh : x.history = y.history)
    (hi : x.signals.intents = none ↔ y.signals.intents = none)
    (hd : ∀ text, F.decompose text x.ctx = F.decompose text y.ctx)
    (hw : ∀ text history, F.rewrite text history x.ctx = F.rewrite text history y.ctx)
    (hs : ∀ split ∈ F.unifiedSplitter, ∀ text history,
      split text history x.ctx = split text history y.ctx)
    (hq : ∀ queryText candidates,
      disambiguate F.text.toText (registeredIds F) F.disambiguator queryText candidates x.ctx =
        disambiguate F.text.toText (registeredIds F) F.disambiguator queryText candidates y.ctx) :
    Alike F x y := by
  have hsub : subqueries F x = subqueries F y := by
    unfold subqueries
    cases hsplit : F.unifiedSplitter with
    | none => simp only [ht, hd]
    | some split => simp only [ht, hh, hs split hsplit]
  have hspec : specUsable F x = specUsable F y := by
    rw [specUsable, specUsable, hsub, ht]
  refine ⟨hsub, ?_, hi, hq⟩
  intro sq _
  simp only [rewriteOf, hspec, ht, hh, hw]

end TwoCalls

def summaryRecord : RegistryService.AgentRecord :=
  let plain := RegistryService.readAgent summaryAgent [] []
  { plain with body := { plain.body with
      activationCondition := .leaf .intentIn ["summary"] false } }

theorem summaryRecord_rules : ∀ a ∈ [summaryRecord], RegistryService.CrossFieldRules a := by
  intro a ha
  rw [List.mem_singleton.mp ha]
  obtain ⟨hp, hx, hm, hh, hf⟩ :=
    @RegistryService.readAgent_rules summaryAgent [] [] (by decide) (by decide)
  exact ⟨hp, hx, hm, hh, hf⟩

def summaryService : RegistryService.Service :=
  .ofRecords [summaryRecord] [] summaryRecord_rules (List.forall_mem_nil _)

def asciiLower (s : String) : String := String.ofList (s.toList.map Char.toLower)

def incidentText : RouterText where
  strip s := String.ofList ((s.toList.dropWhile Char.isWhitespace).rdropWhile Char.isWhitespace)
  lower := asciiLower
  fixed _ := ""
  shown _ := ""
  isBareId s := asciiLower s = "inc0001001"
  isLinkedRead _ := false
  hasEntityId s := "inc0001001".toList.isSuffixOf (asciiLower s).toList
  hasDocNoun _ := false
  hasDocPhrase _ := false
  extract s :=
    if "inc0001001".toList.isSuffixOf (asciiLower s).toList then [("INC0001001", "incident")]
    else []
  serviceOf _ := none
  isFollowupReference _ := false
  referencesLinkedRecord _ := false

/-- The stages pass the message through, and the retriever finds the one agent. -/
def summaryRouter : Router where
  service := summaryService
  cards _ := ⟨[], []⟩
  roles := []
  text := incidentText
  normalize s := s
  retrieve _ _ := [⟨summaryAgent, 9 / 10⟩]
  decompose text _ := [⟨"sq1", text, [], []⟩]
  rewrite text _ _ := ⟨text, false⟩
  unifiedSplitter := none
  disambiguator := .threshold (34 / 100)
  confidenceSkip := none

def withoutSeparators (s : String) : String :=
  String.ofList (s.toList.filter fun c => c ≠ separator)

theorem withoutSeparators_plain (s : String) : separator ∉ (withoutSeparators s).toList := by
  simp [withoutSeparators]

def plainKey : KeyText where
  strip := incidentText.strip
  lower := asciiLower
  isSpace c := c.isWhitespace || c = separator
  sha256 := withoutSeparators
  fingerprint := "f1"
  separator_space := rfl
  sha256_plain := withoutSeparators_plain
  fingerprint_plain := by decide

def requester (userId : String) : AuthzRules.Principal :=
  { AuthzService.requester with userId := userId }

def ask (userId text : String) (intents : Option (Finset String)) : RouteCall where
  queryText := text
  principal := requester userId
  signals := ⟨"requester", "t1", [("INC0001001", "incident")], ∅, false, intents⟩
  history := []
  ctx := { others := [("user_id", userId)] }

theorem ask_separated (userId text : String) (intents : Option (Finset String)) :
    Separated (ask userId text intents) := by
  have hrole : separator ∉ "requester".toList := by decide
  have hempty : separator ∉ "".toList := by decide
  exact ⟨hrole, hempty, hempty, hempty⟩

theorem ask_rawKey (userId userId' text : String) (intents : Option (Finset String)) :
    rawKey plainKey (ask userId text intents) = rawKey plainKey (ask userId' text intents) := rfl

theorem ask_key {userId userId' text text' : String} {intents intents' : Option (Finset String)}
    (hn : norm plainKey text = norm plainKey text')
    (hi : intentsDoc intents = intentsDoc intents') :
    routeCacheKey plainKey (ask userId text intents) =
      routeCacheKey plainKey (ask userId' text' intents') := by
  simp only [routeCacheKey, rawKey, keyParts, signalsDigest, signalsDoc, ask, requester, hn, hi]

/-- Another user's call with the same message gets the row of the first one, which is what
the funnel would give it. -/
theorem same_message_served :
    AtEach (fun before e => Served summaryRouter plainKey (after summaryRouter plainKey before) e)
      [.route (ask "ann" "Summarize INC0001001" none) false false,
        .route (ask "bob" "Summarize INC0001001" none) false false] := by
  have husers : ∀ x ∈ calls [.route (ask "ann" "Summarize INC0001001" none) false false,
      .route (ask "bob" "Summarize INC0001001" none) false false],
      ∃ userId, x = ask userId "Summarize INC0001001" none := by
    intro x hx
    rcases List.mem_cons.mp hx with rfl | hx
    · exact ⟨"ann", rfl⟩
    · exact ⟨"bob", List.mem_singleton.mp hx⟩
  apply route_cache_sound
  · constructor
    · intro x hx y hy _
      obtain ⟨u, rfl⟩ := husers x hx
      obtain ⟨v, rfl⟩ := husers y hy
      exact ask_rawKey u v _ _
    · intro x hx y hy _
      obtain ⟨u, rfl⟩ := husers x hx
      obtain ⟨v, rfl⟩ := husers y hy
      rfl
    · intro x hx y hy _
      obtain ⟨u, rfl⟩ := husers x hx
      obtain ⟨v, rfl⟩ := husers y hy
      rfl
  · have hann : isBlank summaryRouter (ask "ann" "Summarize INC0001001" none) = false := by
      decide +kernel
    refine atEach_snoc.mpr ⟨atEach_snoc.mpr ⟨atEach_nil, ask_separated _ _ _, ?_⟩,
      ask_separated _ _ _, ?_⟩
    · intro y hy
      cases hy
    · intro y hy
      rw [List.nil_append, after_one hann, store_origins,
        @ask_key "bob" "ann" "Summarize INC0001001" "Summarize INC0001001" none none rfl rfl,
        Function.update_self] at hy
      cases hy
      exact alike_of_same_text rfl rfl Iff.rfl (fun _ => rfl) (fun _ _ => rfl)
        (fun _ h => (by cases h)) (fun _ _ => rfl)

def bound (r : RouteResult) : RouteOutcome × Option (List (List (String × String))) :=
  (r.outcome, r.plan.map fun steps => steps.map RouterPlan.PlanStep.parameters)

theorem ask_first : (resultFromCache summaryRouter (decision summaryRouter
    (ask "ann" "Summarize INC0001001" none))).map bound = some (.routed,
      some [[("query", "Summarize INC0001001"), ("user_message", "Summarize INC0001001")]]) := by
  decide +kernel

/-- The first message in other letters gets the text of the first one. With an empty set of
intents instead of none, the call is routed where the funnel has no match. -/
theorem key_merges_messages :
    ¬ AtEach (fun before e => Served summaryRouter plainKey (after summaryRouter plainKey before) e)
      [.route (ask "ann" "Summarize INC0001001" none) false false,
        .route (ask "bob" "summarize  inc0001001" none) false false] ∧
    ¬ AtEach (fun before e => Served summaryRouter plainKey (after summaryRouter plainKey before) e)
      [.route (ask "ann" "Summarize INC0001001" none) false false,
        .route (ask "bob" "Summarize INC0001001" (some ∅)) false false] := by
  obtain ⟨r, hr, hbound⟩ := Option.map_eq_some_iff.mp ask_first
  have hann : isBlank summaryRouter (ask "ann" "Summarize INC0001001" none) = false := by
    decide +kernel
  constructor
  · have hcased : (fresh summaryRouter (ask "bob" "summarize  inc0001001" none)).map bound =
        some (.routed, some [[("query", "summarize  inc0001001"),
          ("user_message", "summarize  inc0001001")]]) := by
      decide +kernel
    apply second_not_served (ask_key (by decide +kernel) rfl) hann (by decide +kernel) hr
    intro hf
    rw [hf, Option.map_some, hbound] at hcased
    revert hcased
    decide
  · have hempty : (fresh summaryRouter (ask "bob" "Summarize INC0001001" (some ∅))).map bound =
        some (.noConfidentMatch, none) := by
      decide +kernel
    have hkey : routeCacheKey plainKey (ask "ann" "Summarize INC0001001" none) =
        routeCacheKey plainKey (ask "bob" "Summarize INC0001001" (some ∅)) :=
      ask_key rfl (by simp [intentsDoc])
    apply second_not_served hkey hann (by decide +kernel) hr
    intro hf
    rw [hf, Option.map_some, hbound] at hempty
    cases hempty

end RouteCache
