import OneOps.FulfillmentWorker
import Mathlib.Logic.Function.Basic

/-! The in-process integration adapter. Nothing in it suspends between the look-up of an
idempotency key and the store of the response, so concurrent calls act one after the other.
Failures are stored as well: a caller that wants another try takes another key. -/
namespace InProcessAdapter

open FulfillmentContracts
open FulfillmentDb
open FulfillmentWorker

inductive ResultBody where
  | account (accountId login : String)
  | mailbox (mailboxId primarySmtp : String) (quotaGb : Option ℕ)
  | vpnGrant (configId : String) (profileUrl : Option String)
  | groupMembership (groupsAdded : List String)
  | license (licenseId product : String) (expiresAt : Option String)
  | procurementOrder (poId : String) (estimatedDelivery substitutedModel : Option String)
  | genericTask (workItemId detail : Option String)
  deriving DecidableEq, Repr

def atMost (n : ℕ) (s : Option String) : Prop := ∀ t ∈ s, t.length ≤ n

instance (n : ℕ) (s : Option String) : Decidable (atMost n s) :=
  inferInstanceAs (Decidable (∀ t ∈ s, _))

def ResultBody.Valid : ResultBody → Prop
  | .account accountId login => lengthBetween 1 128 accountId ∧ lengthBetween 1 256 login
  | .mailbox mailboxId primarySmtp quotaGb =>
    lengthBetween 1 128 mailboxId ∧ lengthBetween 1 320 primarySmtp ∧
      ∀ q ∈ quotaGb, 1 ≤ q ∧ q ≤ 10240
  | .vpnGrant configId profileUrl => lengthBetween 1 128 configId ∧ atMost 2048 profileUrl
  | .groupMembership groupsAdded => groupsAdded ≠ []
  | .license licenseId product expiresAt =>
    lengthBetween 1 128 licenseId ∧ lengthBetween 1 64 product ∧ atMost 32 expiresAt
  | .procurementOrder poId estimatedDelivery substitutedModel =>
    lengthBetween 1 128 poId ∧ atMost 32 estimatedDelivery ∧ atMost 64 substitutedModel
  | .genericTask workItemId detail => atMost 128 workItemId ∧ atMost 2000 detail

instance (b : ResultBody) : Decidable b.Valid := by
  cases b <;> unfold ResultBody.Valid <;> infer_instance

structure Response where
  success : Bool
  idempotencyKey : String
  result : Option ResultBody
  errorClass : Option AdapterErrorClass
  errorMessage : Option String
  errorCode : Option String
  retryAfterSeconds : Option ℤ
  partialState : Option JsonObject
  durationMs : Option ℕ

/-- The field constraints of `AdapterResponse`; a value that breaks one raises. -/
def Response.Valid (r : Response) : Prop :=
  lengthBetween 1 128 r.idempotencyKey ∧ (∀ b ∈ r.result, b.Valid) ∧ atMost 2000 r.errorMessage ∧
    atMost 64 r.errorCode ∧ ∀ n ∈ r.retryAfterSeconds, 0 ≤ n ∧ n ≤ 86400

instance (r : Response) : Decidable r.Valid := inferInstanceAs (Decidable (_ ∧ _))

inductive Operation where
  | createDirectoryAccount (userFullName emailSuggested : String)
  | provisionEmailMailbox (userFullName primarySmtp : String)
  | grantVpnAccess (userId : String)
  | addToGroups (userId : String) (groups : List String)
  | assignSoftwareLicense (userId product : String)
  | orderHardwareAsset (assetType modelPreferred deliverTo : String)
  | notifyMilestone (recipientUserId message level : String)
  | disableDirectoryAccount (accountId : String)
  | deprovisionEmailMailbox (mailboxId : String)
  | revokeVpnAccess (configId : String)
  | releaseSoftwareLicense (licenseId : String)
  | cancelHardwareOrder (poId : String)
  deriving DecidableEq, Repr

def Operation.method : Operation → String
  | .createDirectoryAccount .. => "create_directory_account"
  | .provisionEmailMailbox .. => "provision_email_mailbox"
  | .grantVpnAccess .. => "grant_vpn_access"
  | .addToGroups .. => "add_to_groups"
  | .assignSoftwareLicense .. => "assign_software_license"
  | .orderHardwareAsset .. => "order_hardware_asset"
  | .notifyMilestone .. => "notify_milestone"
  | .disableDirectoryAccount .. => "disable_directory_account"
  | .deprovisionEmailMailbox .. => "deprovision_email_mailbox"
  | .revokeVpnAccess .. => "revoke_vpn_access"
  | .releaseSoftwareLicense .. => "release_software_license"
  | .cancelHardwareOrder .. => "cancel_hardware_order"

/-- A call, with the time that its runner is going to take. -/
structure Call where
  tenantId : String
  operation : Operation
  idempotencyKey : String
  durationMs : ℕ

def Call.key (c : Call) : String × String := (c.tenantId, c.idempotencyKey)

structure FailurePolicy where
  failFirstN : ℤ
  errorClass : AdapterErrorClass
  errorMessage : String
  partialState : Option JsonObject
  retryAfterS : Option ℤ

/-- What an adapter is constructed with; `digest` is the first half of a SHA-256 in hex and
`lower` is `str.lower`. -/
structure Knobs where
  policies : String → Option FailurePolicy
  outOfStock : String → Bool
  timeoutMethods : String → Bool
  digest : String → String
  lower : String → String

structure CompensationEntry where
  op : String
  tenantId : String
  handle : String
  idempotencyKey : String
  deriving DecidableEq, Repr

structure Adapter where
  idemCache : String × String → Option Response
  compensationLog : List CompensationEntry
  counts : String → ℕ

def Adapter.fresh : Adapter := ⟨fun _ => none, [], fun _ => 0⟩

def Adapter.remember (s : Adapter) (key : String × String) (r : Response) : Adapter :=
  { s with idemCache := Function.update s.idemCache key (some r) }

def substitutionTable : List (String × String) :=
  [("T14", "T14s"), ("MBP M3", "MBP M3 Pro"), ("XPS 13", "XPS 13 Plus"),
    ("Studio Display", "Studio Display (refurb)"), ("Magic Mouse", "Magic Mouse (Black)")]

def substituted (model : String) : String :=
  ((substitutionTable.find? fun p => p.1 = model).map Prod.snd).getD (model ++ " (alt)")

section

variable (K : Knobs)

def detId (name : String) (parts : List String) : String :=
  name ++ "_" ++ K.digest ("|".intercalate parts)

def loginOf (emailSuggested : String) : String :=
  K.lower (String.ofList (emailSuggested.toList.takeWhile fun c => c ≠ '@'))

def resultOf (c : Call) : ResultBody :=
  match c.operation with
  | .createDirectoryAccount userFullName emailSuggested =>
    .account (detId K "AD" [c.tenantId, userFullName]) (loginOf K emailSuggested)
  | .provisionEmailMailbox _ primarySmtp =>
    .mailbox (detId K "MBX" [c.tenantId, primarySmtp]) primarySmtp (some 50)
  | .grantVpnAccess userId =>
    .vpnGrant (detId K "VPN" [c.tenantId, userId]) (some ("vpn://corp/" ++ userId))
  | .addToGroups _ groups => .groupMembership (groups.dedup.insertionSort (· ≤ ·))
  | .assignSoftwareLicense userId product =>
    .license (detId K "LIC" [c.tenantId, userId, product]) product (some "2027-12-31T23:59:59Z")
  | .orderHardwareAsset assetType modelPreferred deliverTo =>
    .procurementOrder (detId K "PO" [c.tenantId, assetType, modelPreferred, deliverTo])
      (some "2026-06-10T17:00:00Z")
      (if K.outOfStock modelPreferred then some (substituted modelPreferred) else none)
  | .notifyMilestone recipientUserId message level =>
    .genericTask (some (detId K "NOTIFY" [c.tenantId, recipientUserId, c.idempotencyKey]))
      (some ("[" ++ level ++ "] " ++ String.ofList (message.toList.take 200)))
  | .disableDirectoryAccount accountId => .genericTask none (some ("disabled " ++ accountId))
  | .deprovisionEmailMailbox mailboxId => .genericTask none (some ("deprovisioned " ++ mailboxId))
  | .revokeVpnAccess configId => .genericTask none (some ("revoked " ++ configId))
  | .releaseSoftwareLicense licenseId => .genericTask none (some ("released " ++ licenseId))
  | .cancelHardwareOrder poId => .genericTask none (some ("cancelled " ++ poId))

/-- The undo operations write to the audit log before they answer. -/
def compensation (c : Call) : List CompensationEntry :=
  match c.operation with
  | .disableDirectoryAccount h | .deprovisionEmailMailbox h | .revokeVpnAccess h
  | .releaseSoftwareLicense h | .cancelHardwareOrder h =>
    [⟨c.operation.method, c.tenantId, h, c.idempotencyKey⟩]
  | _ => []

def answered (c : Call) : Response :=
  ⟨true, c.idempotencyKey, some (resultOf K c), none, none, none, none, none, none⟩

def timed (c : Call) : Response := { answered K c with durationMs := some c.durationMs }

def timeoutFailure (method key : String) : Response :=
  ⟨false, key, none, some .timeout,
    some (method ++ ": integration unreachable (mock outage)"), some "INTEGRATION_TIMEOUT", none,
    none, none⟩

def injectedFailure (pol : FailurePolicy) (key : String) : Response :=
  ⟨false, key, none, some pol.errorClass, some pol.errorMessage,
    some ("INJECTED_" ++ String.ofList (pol.errorClass.value.toList.map Char.toUpper)),
    pol.retryAfterS, pol.partialState, none⟩

def maybeInjectFailure (method key : String) (counts : String → ℕ) :
    Option Response × (String → ℕ) :=
  if K.timeoutMethods method then (some (timeoutFailure method key), counts)
  else
    match K.policies method with
    | none => (none, counts)
    | some pol =>
      if pol.failFirstN ≤ counts method then (none, counts)
      else (some (injectedFailure pol key), Function.update counts method (counts method + 1))

def store (key : String × String) (r stored : Response) (s : Adapter) : Option Response × Adapter :=
  if r.Valid then (some stored, s.remember key stored) else (none, s)

def runAndStore (c : Call) (s : Adapter) : Option Response × Adapter :=
  store c.key (answered K c) (timed K c)
    { s with compensationLog := s.compensationLog ++ compensation c }

/-- `_cached_or_run`; `none` is a raised exception. -/
def cachedOrRun (c : Call) (s : Adapter) : Option Response × Adapter :=
  match s.idemCache c.key with
  | some r => (some r, s)
  | none =>
    let injected := maybeInjectFailure K c.operation.method c.idempotencyKey s.counts
    let s' := { s with counts := injected.2 }
    match injected.1 with
    | some r => store c.key r r s'
    | none => runAndStore K c s'

/-- The runner of the call acts: its key is new and no failure is injected. -/
def acts (c : Call) (s : Adapter) : Bool :=
  (s.idemCache c.key).isNone &&
    (maybeInjectFailure K c.operation.method c.idempotencyKey s.counts).1.isNone

/-- The adapter after a sequence of calls, in the order in which they got through, with the
calls whose runners acted. -/
def history (calls : List Call) : Adapter × List Call :=
  calls.foldl (fun p c => ((cachedOrRun K c p.1).2, if acts K c p.1 then p.2 ++ [c] else p.2))
    (Adapter.fresh, [])

def afterCalls (calls : List Call) : Adapter := (history K calls).1

def executed (calls : List Call) : List Call := (history K calls).2

end

/-- Success carries a result and no error, failure an error class and no result. -/
def Coherent (r : Response) : Prop :=
  (r.success = true ∧ r.result.isSome = true ∧ r.errorClass = none) ∨
    (r.success = false ∧ r.result = none ∧ r.errorClass.isSome = true)

section

variable {K : Knobs} {s : Adapter} {c : Call}

theorem remember_cache (key : String × String) (r : Response) :
    (s.remember key r).idemCache = Function.update s.idemCache key (some r) := rfl

theorem cachedOrRun_hit {r : Response} (h : s.idemCache c.key = some r) :
    cachedOrRun K c s = (some r, s) := by
  unfold cachedOrRun
  rw [h]

theorem maybeInjectFailure_coherent {method key : String} {counts : String → ℕ} {r : Response}
    (h : (maybeInjectFailure K method key counts).1 = some r) :
    Coherent r ∧ r.idempotencyKey = key := by
  unfold maybeInjectFailure at h
  split at h
  · obtain rfl := Option.some.inj h
    exact ⟨.inr ⟨rfl, rfl, rfl⟩, rfl⟩
  · cases hp : K.policies method with
    | none => simp [hp] at h
    | some pol =>
      rw [hp] at h
      simp only at h
      split at h
      · cases h
      · obtain rfl := Option.some.inj h
        exact ⟨.inr ⟨rfl, rfl, rfl⟩, rfl⟩

def Adapter.counted (K : Knobs) (s : Adapter) (c : Call) (log : List CompensationEntry) : Adapter :=
  { s with
    compensationLog := s.compensationLog ++ log
    counts := (maybeInjectFailure K c.operation.method c.idempotencyKey s.counts).2 }

/-- A call under a key that is not cached: it fails by injection, or its runner acts. -/
theorem cachedOrRun_miss (h : s.idemCache c.key = none) :
    ∃ r stored log, cachedOrRun K c s = store c.key r stored (Adapter.counted K s c log) ∧
      Coherent stored ∧ stored.idempotencyKey = c.idempotencyKey ∧
      ((acts K c s = false ∧ log = []) ∨
        (acts K c s = true ∧ r = answered K c ∧ log = compensation c)) := by
  cases hi : (maybeInjectFailure K c.operation.method c.idempotencyKey s.counts).1 with
  | some r =>
    obtain ⟨hcoh, hkey⟩ := maybeInjectFailure_coherent hi
    refine ⟨r, r, [], ?_, hcoh, hkey, .inl ⟨?_, rfl⟩⟩
    · simp only [cachedOrRun, h, hi, Adapter.counted, List.append_nil]
    · simp [acts, hi]
  | none =>
    refine ⟨answered K c, timed K c, compensation c,
      ?_, .inl ⟨rfl, rfl, rfl⟩, rfl, .inr ⟨?_, rfl, rfl⟩⟩
    · simp only [cachedOrRun, h, hi, runAndStore, Adapter.counted]
    · simp [acts, h, hi]

theorem cachedOrRun_keeps {k : String × String} {r : Response} (h : s.idemCache k = some r) :
    (cachedOrRun K c s).2.idemCache k = some r := by
  cases hc : s.idemCache c.key with
  | some r' =>
    rw [cachedOrRun_hit hc]
    exact h
  | none =>
    obtain ⟨r', stored, log, heq, -⟩ := cachedOrRun_miss (K := K) hc
    have hne : k ≠ c.key := by
      rintro rfl
      rw [hc] at h
      cases h
    rw [heq, store]
    split
    · rw [remember_cache, Function.update_of_ne hne]
      exact h
    · exact h

theorem cachedOrRun_answer {r : Response} (h : (cachedOrRun K c s).1 = some r) :
    (cachedOrRun K c s).2.idemCache c.key = some r := by
  cases hc : s.idemCache c.key with
  | some r' =>
    rw [cachedOrRun_hit hc] at h ⊢
    exact hc.trans h
  | none =>
    obtain ⟨r', stored, log, heq, -⟩ := cachedOrRun_miss (K := K) hc
    rw [heq, store] at h ⊢
    split at h
    · next hvalid =>
      rw [if_pos hvalid, remember_cache, Function.update_self]
      exact h
    · cases h

theorem afterCalls_snoc (calls : List Call) (c : Call) :
    afterCalls K (calls ++ [c]) = (cachedOrRun K c (afterCalls K calls)).2 := by
  simp [afterCalls, history]

theorem executed_snoc (calls : List Call) (c : Call) : executed K (calls ++ [c]) =
    if acts K c (afterCalls K calls) then executed K calls ++ [c] else executed K calls := by
  simp only [executed, afterCalls, history, List.foldl_append]
  rfl

/-- A run goes on without taking back what was stored. -/
theorem afterCalls_keeps (calls : List Call) {k : String × String} {r : Response}
    (h : (afterCalls K calls).idemCache k = some r) (more : List Call) :
    (afterCalls K (calls ++ more)).idemCache k = some r := by
  induction more using List.reverseRecOn with
  | nil =>
    rw [List.append_nil]
    exact h
  | append_singleton more c ih =>
    rw [← List.append_assoc, afterCalls_snoc]
    exact cachedOrRun_keeps ih

/-- Stored responses echo their key, the audit log is what the executed calls wrote, and an
executed call has its response stored, so that no key is executed twice. -/
structure Inv (s : Adapter) (done : List Call) : Prop where
  echo : ∀ k r, s.idemCache k = some r → r.idempotencyKey = k.2 ∧ Coherent r
  logged : s.compensationLog = done.flatMap compensation
  stored : ∀ c ∈ done, (s.idemCache c.key).isSome = true
  once : (done.map Call.key).Nodup

theorem inv_fresh : Inv Adapter.fresh [] where
  echo k r h := by simp [Adapter.fresh] at h
  logged := rfl
  stored := nofun
  once := List.nodup_nil

theorem Inv.next {done : List Call} (hs : Inv s done) (hvalid : (answered K c).Valid) :
    Inv (cachedOrRun K c s).2 (if acts K c s then done ++ [c] else done) := by
  cases hc : s.idemCache c.key with
  | some r =>
    have hno : acts K c s = false := by simp [acts, hc]
    rw [cachedOrRun_hit hc, hno]
    exact hs
  | none =>
    obtain ⟨r, stored, log, heq, hcoh, hecho, hlog⟩ := cachedOrRun_miss (K := K) hc
    have hnew : ∀ x ∈ done, x.key ≠ c.key := by
      intro x hx hk
      have hsome := hs.stored x hx
      rw [hk, hc] at hsome
      cases hsome
    have hcache : ∀ k r', (s.remember c.key stored).idemCache k = some r' →
        r'.idempotencyKey = k.2 ∧ Coherent r' := by
      intro k r' hk
      rw [remember_cache] at hk
      by_cases hkc : k = c.key
      · subst hkc
        rw [Function.update_self] at hk
        obtain rfl := Option.some.inj hk
        exact ⟨hecho, hcoh⟩
      · rw [Function.update_of_ne hkc] at hk
        exact hs.echo k r' hk
    have hkept : ∀ x ∈ done, ((s.remember c.key stored).idemCache x.key).isSome = true := by
      intro x hx
      rw [remember_cache, Function.update_of_ne (hnew x hx)]
      exact hs.stored x hx
    rw [heq, store]
    rcases hlog with ⟨hno, rfl⟩ | ⟨hact, rfl, rfl⟩
    · have hlogged : s.compensationLog ++ [] = done.flatMap compensation := by
        rw [List.append_nil, hs.logged]
      rw [hno]
      split
      · exact ⟨hcache, hlogged, hkept, hs.once⟩
      · exact ⟨hs.echo, hlogged, hs.stored, hs.once⟩
    · rw [if_pos hvalid, if_pos hact]
      refine ⟨hcache, ?_, fun x hx => ?_, ?_⟩
      · rw [List.flatMap_append, List.flatMap_singleton, ← hs.logged]
        rfl
      · rcases List.mem_append.mp hx with hx | hx
        · exact hkept x hx
        · rw [List.mem_singleton.mp hx, remember_cache, Function.update_self]
          rfl
      · rw [List.map_append, List.map_singleton]
        refine List.nodup_append.mpr ⟨hs.once, List.nodup_singleton _, fun k hk k' hk' heq => ?_⟩
        obtain ⟨x, hx, rfl⟩ := List.mem_map.mp hk
        exact hnew x hx (heq.trans (List.mem_singleton.mp hk'))

theorem inv_afterCalls (calls : List Call) (hvalid : ∀ c ∈ calls, (answered K c).Valid) :
    Inv (afterCalls K calls) (executed K calls) := by
  induction calls using List.reverseRecOn with
  | nil => exact inv_fresh
  | append_singleton calls c ih =>
    rw [afterCalls_snoc, executed_snoc]
    exact (ih fun x hx => hvalid x (List.mem_append_left _ hx)).next
      (hvalid c (List.mem_append_right _ (List.mem_singleton.mpr rfl)))

/-- The adapter honours the protocol. Whatever calls a run makes, a call whose key was answered
before gets the same response again and changes nothing, responses echo their key, and no key
is executed twice, so that the audit log has at most one entry for it. -/
theorem adapter_honours_protocol (K : Knobs) (calls : List Call)
    (hvalid : ∀ c ∈ calls, (answered K c).Valid) :
    (∀ before c mid rest c' r, calls = before ++ c :: mid ++ c' :: rest → c'.key = c.key →
      (cachedOrRun K c (afterCalls K before)).1 = some r →
      cachedOrRun K c' (afterCalls K (before ++ c :: mid)) =
        (some r, afterCalls K (before ++ c :: mid))) ∧
    (∀ k r, (afterCalls K calls).idemCache k = some r → r.idempotencyKey = k.2 ∧ Coherent r) ∧
    ((executed K calls).map Call.key).Nodup ∧
    (afterCalls K calls).compensationLog = (executed K calls).flatMap compensation := by
  have hinv := inv_afterCalls calls hvalid
  refine ⟨?_, hinv.echo, hinv.once, hinv.logged⟩
  rintro before c mid rest c' r - hkey hr
  have hstored : (afterCalls K (before ++ [c])).idemCache c.key = some r := by
    rw [afterCalls_snoc]
    exact cachedOrRun_answer hr
  have hlater := afterCalls_keeps (before ++ [c]) hstored mid
  rw [List.append_assoc, List.singleton_append, ← hkey] at hlater
  exact cachedOrRun_hit hlater

def flakyDirectory : Knobs where
  policies method :=
    if method = "create_directory_account" then
      some ⟨2, .transient, "injected failure for test", none, none⟩
    else none
  outOfStock _ := false
  timeoutMethods _ := false
  digest _ := "0123456789ab"
  lower s := String.ofList (s.toList.map Char.toLower)

def revokeVpn : Call := ⟨"T001", .revokeVpnAccess "VPN_0123456789ab", "RITM0000000001:T1:undo", 4⟩

theorem adapter_honours_protocol_undo :
    ((executed flakyDirectory [revokeVpn, revokeVpn]).map Call.key).Nodup :=
  (adapter_honours_protocol flakyDirectory [revokeVpn, revokeVpn] (by decide +kernel)).2.2.1

/-- Without injected failures a runner acts whenever its key is new. -/
structure Reliable (K : Knobs) : Prop where
  reachable : ∀ method, K.timeoutMethods method = false
  sound : ∀ method, K.policies method = none

theorem Reliable.acts_iff (h : Reliable K) : acts K c s = true ↔ s.idemCache c.key = none := by
  simp [acts, maybeInjectFailure, h.reachable, h.sound]

def effectFor (taskOf : Call → String) (c : Call) : Effect :=
  ⟨c.tenantId, c.idempotencyKey, taskOf c⟩

theorem Reliable.executed_of_cached (h : Reliable K) (calls : List Call) (k : String × String)
    (hk : ((afterCalls K calls).idemCache k).isSome = true) :
    k ∈ (executed K calls).map Call.key := by
  induction calls using List.reverseRecOn with
  | nil => simp [afterCalls, history, Adapter.fresh] at hk
  | append_singleton calls c ih =>
    rw [executed_snoc]
    rw [afterCalls_snoc] at hk
    cases hc : (afterCalls K calls).idemCache c.key with
    | some r =>
      rw [cachedOrRun_hit hc] at hk
      have hno : acts K c (afterCalls K calls) = false := by simp [acts, hc]
      rw [hno]
      exact ih hk
    | none =>
      rw [if_pos (h.acts_iff.mpr hc), List.map_append, List.mem_append]
      by_cases hkc : k = c.key
      · exact .inr (by simp [hkc])
      · refine .inl (ih ?_)
        obtain ⟨r, stored, log, heq, -⟩ := cachedOrRun_miss (K := K) hc
        rw [heq, store] at hk
        split at hk
        · rw [remember_cache, Function.update_of_ne hkc] at hk
          exact hk
        · exact hk

/-- The effects of a run are those of the abstract adapter, which performs an effect unless its
key was used before. -/
theorem executed_refines_perform (h : Reliable K) (calls : List Call)
    (hvalid : ∀ c ∈ calls, (answered K c).Valid) (taskOf : Call → String) :
    (executed K calls).map (effectFor taskOf) =
      calls.foldl (fun effects c => perform (effectFor taskOf c) effects) [] := by
  induction calls using List.reverseRecOn with
  | nil => rfl
  | append_singleton calls c ih =>
    have hbefore : ∀ x ∈ calls, (answered K x).Valid :=
      fun x hx => hvalid x (List.mem_append_left _ hx)
    have hinv := inv_afterCalls calls hbefore
    rw [List.foldl_append, List.foldl_cons, List.foldl_nil, ← ih hbefore, executed_snoc, perform]
    have hiff : ((executed K calls).map (effectFor taskOf)).any (fun f =>
        decide (f.tenantId = (effectFor taskOf c).tenantId ∧
          f.idempotencyKey = (effectFor taskOf c).idempotencyKey)) = true ↔
        ¬ acts K c (afterCalls K calls) = true := by
      rw [h.acts_iff, List.any_map, List.any_eq_true]
      constructor
      · rintro ⟨x, hx, hk⟩ hnone
        have hkey : x.key = c.key := Prod.ext (of_decide_eq_true hk).1 (of_decide_eq_true hk).2
        have hsome := hinv.stored x hx
        rw [hkey, hnone] at hsome
        cases hsome
      · intro hsome
        obtain ⟨x, hx, hk⟩ := List.mem_map.mp
          (h.executed_of_cached calls c.key (Option.ne_none_iff_isSome.mp hsome))
        exact ⟨x, hx, decide_eq_true ⟨congrArg Prod.fst hk, congrArg Prod.snd hk⟩⟩
    by_cases hact : acts K c (afterCalls K calls) = true
    · rw [if_pos hact, if_neg (fun hany => hiff.mp hany hact), List.map_append, List.map_singleton]
    · rw [if_neg hact, if_pos (hiff.mpr hact)]

theorem executed_refines_perform_undo :
    (executed { flakyDirectory with policies := fun _ => none } [revokeVpn, revokeVpn]).map
      (effectFor fun _ => "T1") =
      [revokeVpn, revokeVpn].foldl (fun es c => perform (effectFor (fun _ => "T1") c) es) [] :=
  executed_refines_perform ⟨fun _ => rfl, fun _ => rfl⟩ [revokeVpn, revokeVpn] (by decide +kernel) _

end

def jsonOf (s : Option String) : Json := (s.map Json.str).getD .null

def ResultBody.dump : ResultBody → Json
  | .account accountId login => .obj [("account_id", .str accountId), ("login", .str login)]
  | .mailbox mailboxId primarySmtp quotaGb =>
    .obj [("mailbox_id", .str mailboxId), ("primary_smtp", .str primarySmtp),
      ("quota_gb", ((quotaGb.map fun n => Json.num n).getD .null))]
  | .vpnGrant configId profileUrl =>
    .obj [("config_id", .str configId), ("profile_url", jsonOf profileUrl)]
  | .groupMembership groupsAdded => .obj [("groups_added", .arr (groupsAdded.map .str))]
  | .license licenseId product expiresAt =>
    .obj [("license_id", .str licenseId), ("product", .str product),
      ("expires_at", jsonOf expiresAt)]
  | .procurementOrder poId estimatedDelivery substitutedModel =>
    .obj [("po_id", .str poId), ("estimated_delivery", jsonOf estimatedDelivery),
      ("substituted_model", jsonOf substitutedModel)]
  | .genericTask workItemId detail =>
    .obj [("work_item_id", jsonOf workItemId), ("detail", jsonOf detail)]

def Response.read (r : Response) : AdapterResponse :=
  ⟨r.success, r.result.map ResultBody.dump, r.errorClass, r.errorMessage⟩

section

variable {K : Knobs} {pol : FailurePolicy} {s : Adapter}

def failedOnce (pol : FailurePolicy) (c : Call) (s : Adapter) : Adapter :=
  Adapter.remember { s with
    counts := Function.update s.counts c.operation.method (s.counts c.operation.method + 1) }
      c.key (injectedFailure pol c.idempotencyKey)

theorem cachedOrRun_injected {c : Call} (hnew : s.idemCache c.key = none)
    (hup : K.timeoutMethods c.operation.method = false)
    (hpol : K.policies c.operation.method = some pol)
    (hleft : ¬ pol.failFirstN ≤ s.counts c.operation.method)
    (hvalid : (injectedFailure pol c.idempotencyKey).Valid) :
    cachedOrRun K c s = (some (injectedFailure pol c.idempotencyKey), failedOnce pol c s) := by
  have hi : maybeInjectFailure K c.operation.method c.idempotencyKey s.counts =
      (some (injectedFailure pol c.idempotencyKey),
        Function.update s.counts c.operation.method (s.counts c.operation.method + 1)) := by
    simp [maybeInjectFailure, hup, hpol, hleft]
  simp only [cachedOrRun, hnew, hi, store, hvalid, if_true, failedOnce]

theorem cachedOrRun_answered {c : Call} (hnew : s.idemCache c.key = none)
    (hup : K.timeoutMethods c.operation.method = false)
    (hpol : K.policies c.operation.method = some pol)
    (hdone : pol.failFirstN ≤ s.counts c.operation.method) (hvalid : (answered K c).Valid) :
    (cachedOrRun K c s).1 = some (timed K c) := by
  have hi : maybeInjectFailure K c.operation.method c.idempotencyKey s.counts =
      (none, s.counts) := by
    simp [maybeInjectFailure, hup, hpol, hdone]
  simp only [cachedOrRun, hnew, hi, runAndStore, store, hvalid, if_true]

theorem maybeInjectFailure_other {method key other : String} {counts : String → ℕ}
    (h : other ≠ method) : (maybeInjectFailure K method key counts).2 other = counts other := by
  unfold maybeInjectFailure
  split
  · rfl
  · split
    · rfl
    · split
      · rfl
      · exact Function.update_of_ne h ..

/-- A call leaves the failures of the other methods and what is stored under other keys. -/
theorem cachedOrRun_other {c : Call} {method : String} {key : String × String}
    (hm : method ≠ c.operation.method) (hk : key ≠ c.key) :
    (cachedOrRun K c s).2.counts method = s.counts method ∧
      (cachedOrRun K c s).2.idemCache key = s.idemCache key := by
  cases hc : s.idemCache c.key with
  | some r =>
    rw [cachedOrRun_hit hc]
    exact ⟨rfl, rfl⟩
  | none =>
    obtain ⟨r, stored, log, heq, -⟩ := cachedOrRun_miss (K := K) hc
    have hcounts : (Adapter.counted K s c log).counts method = s.counts method :=
      maybeInjectFailure_other hm
    rw [heq, store]
    split
    · exact ⟨hcounts, Function.update_of_ne hk ..⟩
    · exact ⟨hcounts, rfl⟩

end

end InProcessAdapter
