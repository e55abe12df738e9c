import Mathlib.Data.List.Sort
import Mathlib.Data.Prod.Lex
import OneOps.AuthzRules
import OneOps.JsonText

/-! The access-decision service: the rules behind a cache that is keyed by a digest of
everything a decision depends on. The cache keeps decisions in the process, or documents in
Dragonfly; entries may expire or be invalidated at any moment. -/
namespace AuthzService

open AuthzRules
open RegistryService
open PythonJson
open ExecutorNodes (ExecutionTier)

inductive Effect where
  | allow | deny
  deriving DecidableEq, Repr

def Effect.value : Effect → String
  | .allow => "allow"
  | .deny => "deny"

/-- `Effect(text)`; another text raises a `ValueError`. -/
def Effect.ofValue (text : String) : Option Effect :=
  if text = "allow" then some .allow else if text = "deny" then some .deny else none

structure AuthzDecision where
  effect : Effect
  reasons : List String
  fromCache : Bool
  deriving DecidableEq

def AuthzDecision.withCacheFlag (d : AuthzDecision) : AuthzDecision := { d with fromCache := true }

/-- The `repr` of a text and the digest of the key. -/
structure Texts where
  quoted : String → String
  sha256 : String → String

variable (T : Texts)

def listText (names : List String) : String :=
  "[" ++ ", ".intercalate (names.map T.quoted) ++ "]"

def reasonText : Denial → String
  | .crossTenant principalTenant resourceTenant =>
    "cross-tenant access denied: principal tenant '" ++ principalTenant ++
      "' != resource tenant '" ++ resourceTenant ++ "'"
  | .audience role audience =>
    "role '" ++ role ++ "' is not in resource audience " ++ listText T audience
  | .missingScopes missing => "missing required scope(s): " ++ listText T missing
  | .tier resourceId role =>
    "action-tier resource '" ++ resourceId ++ "' requires a write-class permission; role '" ++
      role ++ "' has none"
  | .dataClass classification role =>
    classification.value ++ " data requires '" ++ broadRead ++ "' or '" ++ adminPermission ++
      "'; role '" ++ role ++ "' has neither"

def freshDecision (roles : Roles) (p : Principal) (r : ResourceDescriptor) : AuthzDecision :=
  match (evaluate p r (permissionsFor roles p.role)).map (reasonText T) with
  | [] => ⟨.allow, [], false⟩
  | reasons => ⟨.deny, reasons, false⟩

def tierValue : ExecutionTier → String
  | .read => "read"
  | .action => "action"

def strings (names : List String) : Doc := .arr (names.map .str)

def sortedAttributes (attributes : List (String × String)) : List (String × String) :=
  attributes.insertionSort fun a b => toLex a ≤ toLex b

def keyDoc (p : Principal) (r : ResourceDescriptor) : Doc :=
  .obj [("p_attrs", .arr ((sortedAttributes p.attributes).map fun a => strings [a.1, a.2])),
    ("p_role", .str p.role),
    ("p_tenant", .str p.tenantId),
    ("p_user", .str p.userId),
    ("r_audience", strings (sortedNames r.audience)),
    ("r_data", .str r.dataClassification.value),
    ("r_id", .str r.resourceId),
    ("r_scopes", strings (sortedNames r.requiredScopes)),
    ("r_tenant", .str r.resourceTenantId),
    ("r_tier", .str (tierValue r.tier))]

def decisionKey (p : Principal) (r : ResourceDescriptor) : String :=
  "authz:" ++ T.sha256 (String.ofList (JsonText.compact (keyDoc p r)))

def encode (d : AuthzDecision) : Option Doc :=
  dumps false (.dict [(.str "effect", .str d.effect.value),
    (.str "reasons", .list (d.reasons.map .str))])

def textOf : Value → Option String
  | .str s => some s
  | _ => none

/-- `none` where the document has another shape than `encode` writes. -/
def decode (doc : Doc) : Option AuthzDecision :=
  match loads doc with
  | .dict items => do
    let effect ← (RowMerge.lookup Prod.fst items (.str "effect")).bind fun e => textOf e.2
    let effect ← Effect.ofValue effect
    let reasons ← match RowMerge.lookup Prod.fst items (.str "reasons") with
      | none => some []
      | some (_, .list xs) => xs.mapM textOf
      | some _ => none
    some ⟨effect, reasons, true⟩
  | _ => none

inductive CacheKind where
  | inMemory | dragonfly
  deriving DecidableEq, Repr

variable {Moment : Type} [LinearOrder Moment] (plus : Moment → ℤ → Moment)

inductive Entry (Moment : Type) where
  | decision (d : AuthzDecision) (expiresAt : Moment)
  | document (doc : Doc)

abbrev Cache (Moment : Type) := String → Option (Entry Moment)

inductive Error where
  /-- `ttl_seconds must be > 0`. -/
  | ttlNotPositive
  | notADecision
  deriving DecidableEq, Repr

def Cache.drop (c : Cache Moment) (key : String) : Cache Moment := Function.update c key none

/-- An expired entry of the process is deleted when it is met. -/
def Cache.get (c : Cache Moment) (now : Moment) (key : String) :
    Except Error (Option AuthzDecision) × Cache Moment :=
  match c key with
  | none => (.ok none, c)
  | some (.decision d expiresAt) =>
    if expiresAt ≤ now then (.ok none, c.drop key) else (.ok (some d.withCacheFlag), c)
  | some (.document doc) =>
    match decode doc with
    | some d => (.ok (some d), c)
    | none => (.error .notADecision, c)

def Cache.put (c : Cache Moment) (kind : CacheKind) (now : Moment) (key : String)
    (d : AuthzDecision) (ttlSeconds : ℤ) : Except Error (Cache Moment) :=
  if ttlSeconds ≤ 0 then .error .ttlNotPositive
  else
    match kind with
    | .inMemory => .ok (Function.update c key (some (.decision d (plus now ttlSeconds))))
    | .dragonfly =>
      match encode d with
      | some doc => .ok (Function.update c key (some (.document doc)))
      | none => .error .notADecision

/-- One call, with the moments at which it reads the clock. -/
structure Call (Moment : Type) where
  principal : Principal
  resource : ResourceDescriptor
  gotAt : Moment
  putAt : Moment
  /-- The setting of the service that is called. -/
  ttlSeconds : ℤ

def check (roles : Roles) (kind : CacheKind) (c : Cache Moment) (x : Call Moment) :
    Except Error AuthzDecision × Cache Moment :=
  let key := decisionKey T x.principal x.resource
  match c.get x.gotAt key with
  | (.error e, c) => (.error e, c)
  | (.ok (some d), c) => (.ok d, c)
  | (.ok none, c) =>
    let d := freshDecision T roles x.principal x.resource
    match c.put plus kind x.putAt key d x.ttlSeconds with
    | .ok c => (.ok d, c)
    | .error e => (.error e, c)

/-- A call, or an entry that the server lets go or someone invalidates. -/
inductive Event (Moment : Type) where
  | check (x : Call Moment)
  | drop (key : String)

def step (roles : Roles) (kind : CacheKind) (c : Cache Moment) : Event Moment → Cache Moment
  | .check x => (check T plus roles kind c x).2
  | .drop key => c.drop key

def after (roles : Roles) (kind : CacheKind) (events : List (Event Moment)) : Cache Moment :=
  events.foldl (step T plus roles kind) fun _ => none

variable {T}

theorem strings_textual (names : List String) : JsonText.Textual (strings names) := by
  have hall : JsonText.TextualAll (names.map Doc.str) := by
    induction names with
    | nil => rw [List.map_nil, JsonText.TextualAll]; trivial
    | cons s names ih =>
      rw [List.map_cons, JsonText.TextualAll, JsonText.Textual]
      exact ⟨trivial, ih⟩
  rw [strings, JsonText.Textual]
  exact hall

theorem attributes_textual (attributes : List (String × String)) :
    JsonText.TextualAll (attributes.map fun a => strings [a.1, a.2]) := by
  induction attributes with
  | nil => rw [List.map_nil, JsonText.TextualAll]; trivial
  | cons a attributes ih =>
    rw [List.map_cons, JsonText.TextualAll]
    exact ⟨strings_textual _, ih⟩

theorem keyDoc_textual (p : Principal) (r : ResourceDescriptor) :
    JsonText.Textual (keyDoc p r) := by
  simp only [keyDoc, JsonText.Textual, JsonText.TextualMembers, strings_textual,
    attributes_textual, and_true]

theorem strings_inj {l m : List String} (h : strings l = strings m) : l = m :=
  List.map_injective_iff.mpr (fun _ _ he => Doc.str.inj he) (Doc.arr.inj h)

theorem tierValue_inj : Function.Injective tierValue := by
  intro s t h
  cases s <;> cases t <;> first | rfl | exact absurd h (by decide)

theorem classification_inj : Function.Injective DataClassification.value := by
  intro s t h
  cases s <;> cases t <;> first | rfl | exact absurd h (by decide)

/-- The fields that the rules read are alike, up to the order of roles and scopes. -/
structure SameRequest (p q : Principal) (r s : ResourceDescriptor) : Prop where
  tenant : p.tenantId = q.tenantId
  role : p.role = q.role
  resourceId : r.resourceId = s.resourceId
  resourceTenant : r.resourceTenantId = s.resourceTenantId
  tier : r.tier = s.tier
  dataClass : r.dataClassification = s.dataClassification
  audience : sortedNames r.audience = sortedNames s.audience
  scopes : sortedNames r.requiredScopes = sortedNames s.requiredScopes

/-- Where digests do not collide, a key separates all requests that the rules can tell apart. -/
theorem sameRequest_of_key (hsha : Function.Injective T.sha256) {p q : Principal}
    {r s : ResourceDescriptor} (h : decisionKey T p r = decisionKey T q s) :
    SameRequest p q r s := by
  have hdigest : T.sha256 (String.ofList (JsonText.compact (keyDoc p r))) =
      T.sha256 (String.ofList (JsonText.compact (keyDoc q s))) :=
    String.append_right_inj _ |>.mp h
  have hdoc := JsonText.text_inj (keyDoc_textual p r) (keyDoc_textual q s) (hsha hdigest)
  simp only [keyDoc, Doc.obj.injEq, List.cons.injEq, Prod.mk.injEq, true_and, and_true,
    Doc.str.injEq] at hdoc
  obtain ⟨_, hrole, htenant, _, haudience, hdata, hid, hscopes, hresource, htier⟩ := hdoc
  exact ⟨htenant, hrole, hid, hresource, tierValue_inj htier, classification_inj hdata,
    strings_inj haudience, strings_inj hscopes⟩

theorem perm_of_sortedNames {l m : List String} (h : sortedNames l = sortedNames m) :
    l.Perm m := by
  have hl : (sortedNames l).Perm l := List.perm_insertionSort _ l
  have hm : (sortedNames m).Perm m := List.perm_insertionSort _ m
  exact hl.symm.trans (h ▸ hm)

theorem sortedNames_of_perm {l m : List String} (h : l.Perm m) : sortedNames l = sortedNames m :=
  List.Perm.eq_of_sortedLE List.sortedLE_insertionSort List.sortedLE_insertionSort
    (((List.perm_insertionSort _ l).trans h).trans (List.perm_insertionSort _ m).symm)

theorem audienceRule_congr {p q : Principal} {r s : ResourceDescriptor}
    (h : SameRequest p q r s) : audienceRule p r = audienceRule q s := by
  have hperm := perm_of_sortedNames h.audience
  have hempty : r.audience ≠ [] ↔ s.audience ≠ [] := by
    rw [not_iff_not]
    constructor
    · intro he
      exact (he ▸ hperm).nil_eq.symm
    · intro he
      exact (he ▸ hperm).eq_nil
  unfold audienceRule
  simp only [hempty, hperm.mem_iff, h.role, h.audience]

theorem scopeRule_congr {p q : Principal} {r s : ResourceDescriptor} (h : SameRequest p q r s)
    (granted : Finset String) : scopeRule r granted = scopeRule s granted := by
  have hperm := (perm_of_sortedNames h.scopes).filter fun n => n ∉ granted
  unfold scopeRule
  split
  · rfl
  · cases hr : r.requiredScopes.filter fun n => n ∉ granted with
    | nil =>
      rw [hr] at hperm
      rw [hperm.nil_eq]
    | cons a rest =>
      rw [hr] at hperm
      cases hs : s.requiredScopes.filter fun n => n ∉ granted with
      | nil =>
        rw [hs] at hperm
        exact absurd hperm.eq_nil (List.cons_ne_nil a rest)
      | cons b rest' =>
        rw [hs] at hperm
        exact congrArg (fun names => [Denial.missingScopes names]) (sortedNames_of_perm hperm)

/-- The reasons depend on nothing but what the key holds. -/
theorem evaluate_congr {p q : Principal} {r s : ResourceDescriptor} (h : SameRequest p q r s)
    (granted : Finset String) : evaluate p r granted = evaluate q s granted := by
  unfold evaluate tierRule dataClassRule
  rw [audienceRule_congr h, scopeRule_congr h granted, h.tenant, h.resourceTenant, h.role, h.tier,
    h.dataClass, h.resourceId]

theorem freshDecision_congr {p q : Principal} {r s : ResourceDescriptor}
    (h : SameRequest p q r s) (roles : Roles) :
    freshDecision T roles p r = freshDecision T roles q s := by
  unfold freshDecision
  rw [h.role, evaluate_congr h]

theorem ofValue_value (e : Effect) : Effect.ofValue e.value = some e := by
  cases e <;> decide

theorem mapM_textOf (names : List String) : names.mapM (textOf ∘ Value.str) = some names := by
  induction names with
  | nil => rfl
  | cons s names ih =>
    rw [List.mapM_cons, ih]
    rfl

theorem decode_encode (d : AuthzDecision) :
    ∃ doc, encode d = some doc ∧ decode doc = some d.withCacheFlag := by
  have hplain : Plain (.dict [(.str "effect", .str d.effect.value),
      (.str "reasons", .list (d.reasons.map .str))]) := by
    have hnames : PlainAll (d.reasons.map Value.str) := by
      induction d.reasons with
      | nil => rw [List.map_nil, PlainAll]; trivial
      | cons s names ih =>
        rw [List.map_cons, PlainAll, Plain]
        · exact ⟨trivial, ih⟩
        all_goals simp
    simp [Plain, PlainItems, hnames]
  obtain ⟨doc, hdumps, hloads⟩ := loads_of_plain false _ hplain
  refine ⟨doc, hdumps, ?_⟩
  unfold decode
  rw [hloads]
  simp [RowMerge.lookup_cons, textOf, ofValue_value, mapM_textOf, AuthzDecision.withCacheFlag]

def Entry.Holds (d : AuthzDecision) : Entry Moment → Prop
  | .decision d' _ => d' = d
  | .document doc => encode d = some doc

variable (T) in
def Sound (roles : Roles) (c : Cache Moment) : Prop :=
  ∀ key e, c key = some e → ∃ p r, decisionKey T p r = key ∧ e.Holds (freshDecision T roles p r)

variable {roles : Roles} {kind : CacheKind} {c : Cache Moment}

omit [LinearOrder Moment] in
theorem Sound.drop (h : Sound T roles c) (key : String) : Sound T roles (c.drop key) := by
  intro k e he
  by_cases hk : k = key
  · rw [Cache.drop, hk, Function.update_self] at he
    cases he
  · rw [Cache.drop, Function.update_of_ne hk] at he
    exact h k e he

omit [LinearOrder Moment] in
theorem Sound.update (h : Sound T roles c) {p : Principal} {r : ResourceDescriptor}
    {e : Entry Moment} (he : e.Holds (freshDecision T roles p r)) :
    Sound T roles (Function.update c (decisionKey T p r) (some e)) := by
  intro k e' he'
  by_cases hk : k = decisionKey T p r
  · rw [hk, Function.update_self, Option.some.injEq] at he'
    exact ⟨p, r, hk.symm, he' ▸ he⟩
  · rw [Function.update_of_ne hk] at he'
    exact h k e' he'

/-- A lookup finds nothing, or the flagged decision that the entry was made of. -/
theorem Sound.get (h : Sound T roles c) (now : Moment) (key : String) :
    Sound T roles (c.get now key).2 ∧
      ((c.get now key).1 = .ok none ∨ ∃ p r, decisionKey T p r = key ∧
        (c.get now key).1 = .ok (some (freshDecision T roles p r).withCacheFlag)) := by
  unfold Cache.get
  cases hc : c key with
  | none => exact ⟨h, Or.inl rfl⟩
  | some e =>
    obtain ⟨p, r, hkey, he⟩ := h key e hc
    cases e with
    | decision d expiresAt =>
      unfold Entry.Holds at he
      simp only
      split
      · exact ⟨h.drop key, Or.inl rfl⟩
      · exact ⟨h, Or.inr ⟨p, r, hkey, by rw [he]⟩⟩
    | document doc =>
      obtain ⟨doc', henc, hdec⟩ := decode_encode (freshDecision T roles p r)
      have hdoc : doc' = doc := Option.some.inj (henc.symm.trans he)
      rw [hdoc] at hdec
      simp only [hdec]
      exact ⟨h, Or.inr ⟨p, r, hkey, rfl⟩⟩

variable {plus}

variable (plus kind) in
omit [LinearOrder Moment] in
theorem Sound.put (h : Sound T roles c) (p : Principal) (r : ResourceDescriptor) (now : Moment)
    (ttlSeconds : ℤ) :
    (c.put plus kind now (decisionKey T p r) (freshDecision T roles p r) ttlSeconds =
        .error .ttlNotPositive ∧ ttlSeconds ≤ 0) ∨
      ∃ c', c.put plus kind now (decisionKey T p r) (freshDecision T roles p r) ttlSeconds =
        .ok c' ∧ Sound T roles c' := by
  unfold Cache.put
  split
  · rename_i hle
    exact Or.inl ⟨rfl, hle⟩
  · obtain ⟨doc, henc, _⟩ := decode_encode (freshDecision T roles p r)
    cases kind with
    | inMemory => exact Or.inr ⟨_, rfl, h.update rfl⟩
    | dragonfly =>
      rw [henc]
      exact Or.inr ⟨_, rfl, h.update henc⟩

theorem Sound.check (hsha : Function.Injective T.sha256) (h : Sound T roles c) (x : Call Moment) :
    Sound T roles (check T plus roles kind c x).2 ∧
      (((check T plus roles kind c x).1 = .error .ttlNotPositive ∧ x.ttlSeconds ≤ 0) ∨
        ∃ flag, (check T plus roles kind c x).1 =
          .ok { freshDecision T roles x.principal x.resource with fromCache := flag }) := by
  obtain ⟨hget, hanswer⟩ := h.get x.gotAt (decisionKey T x.principal x.resource)
  unfold AuthzService.check
  dsimp only
  generalize c.get x.gotAt (decisionKey T x.principal x.resource) = found at hget hanswer ⊢
  obtain ⟨answer, c'⟩ := found
  rcases hanswer with rfl | ⟨p, r, hkey, rfl⟩
  · dsimp only at hget ⊢
    rcases hget.put plus kind x.principal x.resource x.putAt x.ttlSeconds with ⟨hput, hle⟩ |
      ⟨c'', hput, hsound⟩
    · rw [hput]
      exact ⟨hget, Or.inl ⟨rfl, hle⟩⟩
    · rw [hput]
      have hflag : (freshDecision T roles x.principal x.resource).fromCache = false := by
        unfold freshDecision
        split <;> rfl
      exact ⟨hsound, Or.inr ⟨false, by rw [← hflag]⟩⟩
  · refine ⟨hget, Or.inr ⟨true, ?_⟩⟩
    rw [freshDecision_congr (sameRequest_of_key hsha hkey) roles]
    rfl

theorem Sound.step (hsha : Function.Injective T.sha256) (h : Sound T roles c) (e : Event Moment) :
    Sound T roles (step T plus roles kind c e) := by
  cases e with
  | check x => exact (h.check hsha x).1
  | drop key => exact h.drop key

theorem after_sound (hsha : Function.Injective T.sha256) (events : List (Event Moment)) :
    Sound T roles (after T plus roles kind events) := by
  have hfold : ∀ (events : List (Event Moment)) (c : Cache Moment), Sound T roles c →
      Sound T roles (events.foldl (AuthzService.step T plus roles kind) c) := by
    intro events
    induction events with
    | nil => intro c h; exact h
    | cons e events ih => intro c h; exact ih _ (h.step hsha e)
  exact hfold events _ fun key e he => by cases he

theorem evaluate_mono {p : Principal} {r : ResourceDescriptor} {granted more : Finset String}
    (hsub : granted ⊆ more) (h : evaluate p r granted = []) : evaluate p r more = [] := by
  unfold evaluate at h ⊢
  split_ifs at h ⊢
  rw [List.append_eq_nil_iff, List.append_eq_nil_iff, List.append_eq_nil_iff] at h ⊢
  obtain ⟨⟨⟨haudience, hscope⟩, htier⟩, hdata⟩ := h
  refine ⟨⟨⟨haudience, ?_⟩, ?_⟩, ?_⟩
  · unfold scopeRule at hscope ⊢
    split
    · rfl
    · rename_i hadmin
      rw [if_neg fun ha => hadmin (hsub ha)] at hscope
      have hnone : r.requiredScopes.filter (fun s => s ∉ granted) = [] := by
        cases hf : r.requiredScopes.filter fun s => s ∉ granted with
        | nil => rfl
        | cons a rest => rw [hf] at hscope; cases hscope
      have hnone' : r.requiredScopes.filter (fun s => s ∉ more) = [] := by
        rw [List.filter_eq_nil_iff] at hnone ⊢
        intro s hs hm
        apply hnone s hs
        rw [decide_eq_true_eq] at hm ⊢
        exact fun hg => hm (hsub hg)
      rw [hnone']
  · unfold tierRule at htier ⊢
    split
    · rename_i hno
      rw [if_pos ⟨hno.1, fun ⟨q, hq, hw⟩ => hno.2 ⟨q, hsub hq, hw⟩⟩] at htier
      cases htier
    · rfl
  · unfold dataClassRule at hdata ⊢
    split
    · rename_i hno
      rw [if_pos ⟨hno.1, fun ha => hno.2.1 (hsub ha), fun hb => hno.2.2 (hsub hb)⟩] at hdata
      cases hdata
    · rfl

theorem evaluate_cross_tenant {p : Principal} {r : ResourceDescriptor}
    (h : p.tenantId ≠ r.resourceTenantId) (granted : Finset String) :
    evaluate p r granted = [.crossTenant p.tenantId r.resourceTenantId] := if_pos h

/-- After any calls, expiries and invalidations a call gives the effect and the reasons of the
rules themselves, or raises for a `ttl` that is not positive. More permissions never turn an
allowance into a denial, and another tenant's resource is denied with any permissions. -/
theorem authz_cache_transparent (plus : Moment → ℤ → Moment)
    (hsha : Function.Injective T.sha256) (roles : Roles)
    (kind : CacheKind) (events : List (Event Moment)) (x : Call Moment) :
    (((check T plus roles kind (after T plus roles kind events) x).1 = .error .ttlNotPositive ∧
          x.ttlSeconds ≤ 0) ∨
        ∃ d, (check T plus roles kind (after T plus roles kind events) x).1 = .ok d ∧
          d.effect = (freshDecision T roles x.principal x.resource).effect ∧
          d.reasons = (freshDecision T roles x.principal x.resource).reasons) ∧
      (∀ (p : Principal) (r : ResourceDescriptor) (granted more : Finset String),
        granted ⊆ more → evaluate p r granted = [] → evaluate p r more = []) ∧
      ∀ (p : Principal) (r : ResourceDescriptor) (granted : Finset String),
        p.tenantId ≠ r.resourceTenantId → evaluate p r granted ≠ [] := by
  refine ⟨?_, fun p r granted more => evaluate_mono, ?_⟩
  · rcases ((after_sound hsha events).check hsha x).2 with herr | ⟨flag, hd⟩
    · exact Or.inl herr
    · exact Or.inr ⟨_, hd, rfl, rfl⟩
  · intro p r granted hne
    rw [evaluate_cross_tenant hne]
    exact List.cons_ne_nil _ _

/-- Eight hexadecimal digits. -/
def hexDigits (c : Char) : List Char :=
  (List.range 8).map fun i => Nat.digitChar (c.toNat / 16 ^ i % 16)

theorem hexDigits_inj {c d : Char} (h : hexDigits c = hexDigits d) : c = d := by
  have hdigit : ∀ a < 16, ∀ b < 16, Nat.digitChar a = Nat.digitChar b → a = b := by decide
  have heach : ∀ i ∈ List.range 8, c.toNat / 16 ^ i % 16 = d.toNat / 16 ^ i % 16 := fun i hi =>
    hdigit _ (Nat.mod_lt _ (by decide)) _ (Nat.mod_lt _ (by decide)) (List.map_inj_left.mp h i hi)
  have hc : c.toNat < 4294967296 := c.val.toNat_lt
  have hd : d.toNat < 4294967296 := d.val.toNat_lt
  simp only [List.range, List.range.loop, List.forall_mem_cons] at heach
  simp only [Nat.reducePow, Nat.div_one] at heach
  exact Char.toNat_inj.mp (by omega)

def hexText (s : String) : String := String.ofList (s.toList.flatMap hexDigits)

theorem hexText_injective : Function.Injective hexText := by
  have hlists : ∀ l m : List Char, l.flatMap hexDigits = m.flatMap hexDigits → l = m := by
    intro l
    induction l with
    | nil =>
      rintro (_ | ⟨d, m⟩) h
      · rfl
      · simp [hexDigits] at h
    | cons c l ih =>
      rintro (_ | ⟨d, m⟩) h
      · simp [hexDigits] at h
      · rw [List.flatMap_cons, List.flatMap_cons] at h
        obtain ⟨hhead, htail⟩ := List.append_inj h rfl
        rw [hexDigits_inj hhead, ih m htail]
  intro s t h
  exact String.toList_inj.mp (hlists _ _ (String.ofList_injective h))

def requester : Principal := ⟨"t1", "u1", "requester", [], by decide, by decide⟩

def auditor : Principal := ⟨"t1", "u2", "auditor", [], by decide, by decide⟩

def summaryTool : ResourceDescriptor :=
  ⟨"uc01", "t1", .read, .internal, ["requester", "auditor"], ["read:own"]⟩

def deskRoles : Roles := [("requester", {"read:own"}), ("auditor", ∅)]

def hexTexts : Texts := ⟨fun s => "'" ++ s ++ "'", hexText⟩

def askedAt (p : Principal) (now : ℤ) : Call ℤ := ⟨p, summaryTool, now, now, 60⟩

/-- Calls of an allowed and a denied user, and their repetitions a little later, in Dragonfly. -/
theorem repeated_checks_transparent :
    let earlier : List (Event ℤ) := [.check (askedAt requester 0), .check (askedAt auditor 1)]
    ∀ p ∈ [requester, auditor], ∃ d,
      (check hexTexts (· + ·) deskRoles .dragonfly
        (after hexTexts (· + ·) deskRoles .dragonfly earlier) (askedAt p 5)).1 = .ok d ∧
      d.effect = (freshDecision hexTexts deskRoles p summaryTool).effect ∧
      d.reasons = (freshDecision hexTexts deskRoles p summaryTool).reasons := by
  intro earlier p hp
  have hsha : Function.Injective hexTexts.sha256 := hexText_injective
  rcases (authz_cache_transparent (· + ·) hsha deskRoles .dragonfly earlier
    (askedAt p 5)).1 with ⟨_, hle⟩ | hd
  · exact absurd hle (by simp [askedAt])
  · exact hd

end AuthzService
