import OneOps.FulfillmentCompletion
import OneOps.InProcessAdapter
import OneOps.PythonText

/-! One `execute_plan` call over the in-process adapter. The adapter answers an awaited call
from its own state and in one go, so no call runs into the timeout. A task whose integration
fails its first calls is attempted once in each wave, under the key of its retry count. -/
namespace InProcessExecution

open KeyedTable
open DependencyClosure
open FairExecution
open FulfillmentContracts
open FulfillmentDb
open FulfillmentInspection
open FulfillmentWorker
open FulfillmentSystem
open FulfillmentTaskProtocol
open FulfillmentWaves
open FulfillmentTermination
open FulfillmentCompletion
open InProcessAdapter

def textOf (payload : JsonObject) (name : String) : Option String :=
  match payload.lookup name with
  | some (.str s) => some s
  | _ => none

def textsOf (payload : JsonObject) (name : String) : Option (List String) :=
  match payload.lookup name with
  | some (.arr xs) => xs.mapM fun x => match x with
    | .str s => some s
    | _ => none
  | _ => none

def only (payload : JsonObject) (names : List String) : Option Unit :=
  if ∀ kv ∈ payload, kv.1 ∈ names then some () else none

/-- `method(tenant_id=…, idempotency_key=…, **payload)` for the method that bears the name of
the tool; `none` is a TypeError. -/
def bindCall (toolId : String) (payload : JsonObject) : Option Operation :=
  match toolId with
  | "create_directory_account" => do
    only payload ["user_full_name", "email_suggested"]
    return .createDirectoryAccount (← textOf payload "user_full_name")
      (← textOf payload "email_suggested")
  | "provision_email_mailbox" => do
    only payload ["user_full_name", "primary_smtp"]
    return .provisionEmailMailbox (← textOf payload "user_full_name")
      (← textOf payload "primary_smtp")
  | "grant_vpn_access" => do
    only payload ["user_id"]
    return .grantVpnAccess (← textOf payload "user_id")
  | "add_to_groups" => do
    only payload ["user_id", "groups"]
    return .addToGroups (← textOf payload "user_id") (← textsOf payload "groups")
  | "assign_software_license" => do
    only payload ["user_id", "product"]
    return .assignSoftwareLicense (← textOf payload "user_id") (← textOf payload "product")
  | "order_hardware_asset" => do
    only payload ["asset_type", "model_preferred", "deliver_to"]
    return .orderHardwareAsset (← textOf payload "asset_type")
      (← textOf payload "model_preferred") (← textOf payload "deliver_to")
  | "notify_milestone" => do
    only payload ["recipient_user_id", "message", "level"]
    return .notifyMilestone (← textOf payload "recipient_user_id") (← textOf payload "message")
      (← textOf payload "level")
  | "disable_directory_account" => do
    only payload ["account_id"]
    return .disableDirectoryAccount (← textOf payload "account_id")
  | "deprovision_email_mailbox" => do
    only payload ["mailbox_id"]
    return .deprovisionEmailMailbox (← textOf payload "mailbox_id")
  | "revoke_vpn_access" => do
    only payload ["config_id"]
    return .revokeVpnAccess (← textOf payload "config_id")
  | "release_software_license" => do
    only payload ["license_id"]
    return .releaseSoftwareLicense (← textOf payload "license_id")
  | "cancel_hardware_order" => do
    only payload ["po_id"]
    return .cancelHardwareOrder (← textOf payload "po_id")
  | _ => none

def awaited (k : Worker) (j : ℕ) : Option AdapterCall :=
  match (childrenOf k.phase)[j]? with
  | some (.calling task _) => some (adapterCall k.tenantId k.ritmId task)
  | _ => none

/-- `_invoke_adapter`; what the adapter raises is raised as `AdapterInvocationError`. -/
def invoke (K : Knobs) (call : AdapterCall) (ms : ℕ) (s : Adapter) : CallResult × Adapter :=
  match bindCall call.toolId call.payload with
  | none => (.raised "AdapterInvocationError", s)
  | some op =>
    let o := cachedOrRun K ⟨call.tenantId, op, call.idempotencyKey, ms⟩ s
    match o.1 with
    | none => (.raised "AdapterInvocationError", o.2)
    | some r => (.answer r.read, o.2)

structure Hosted where
  call : World × Worker
  adapter : Adapter

inductive Turn where
  | main
  | child (j : ℕ) (hex : String)
  | answer (j ms : ℕ)

def Hosted.step (cfg : Config) (K : Knobs) (x : Hosted) (seconds : ℕ) : Turn → Hosted
  | .main => ⟨workerStep cfg .stmt (tick seconds x.call.1) x.call.2, x.adapter⟩
  | .child j hex =>
    ⟨workerStep cfg (.child j (.stmt hex)) (tick seconds x.call.1) x.call.2, x.adapter⟩
  | .answer j ms =>
    match awaited x.call.2 j with
    | none => x
    | some call =>
      let o := invoke K call ms x.adapter
      ⟨workerStep cfg (.child j (.result o.1)) (tick seconds x.call.1) x.call.2, o.2⟩

def Hosts (cfg : Config) (K : Knobs) (x y : Hosted) : Prop :=
  ∃ seconds turn, y = x.step cfg K seconds turn

/-- Every step is one that the call can take with some adapter. -/
theorem hosts_solo {cfg : Config} {K : Knobs} {x y : Hosted} (h : Hosts cfg K x y) :
    Solo cfg x.call y.call := by
  obtain ⟨seconds, turn, rfl⟩ := h
  cases turn with
  | main => exact ⟨seconds, .stmt, rfl⟩
  | child j hex => exact ⟨seconds, .child j (.stmt hex), rfl⟩
  | answer j ms =>
    unfold Hosted.step
    dsimp only
    split
    · exact solo_idle cfg x.call
    · exact ⟨seconds, _, rfl⟩

theorem bindCall_method {toolId : String} {payload : JsonObject} {op : Operation}
    (h : bindCall toolId payload = some op) : op.method = toolId := by
  unfold bindCall at h
  split at h
  all_goals first
    | cases h
    | simp only [Option.bind_eq_bind, Option.bind_eq_some_iff, Option.pure_def,
        Option.some.injEq] at h
  · obtain ⟨_, _, _, _, _, _, rfl⟩ := h; rfl
  · obtain ⟨_, _, _, _, _, _, rfl⟩ := h; rfl
  · obtain ⟨_, _, _, _, rfl⟩ := h; rfl
  · obtain ⟨_, _, _, _, _, _, rfl⟩ := h; rfl
  · obtain ⟨_, _, _, _, _, _, rfl⟩ := h; rfl
  · obtain ⟨_, _, _, _, _, _, _, _, rfl⟩ := h; rfl
  · obtain ⟨_, _, _, _, _, _, _, _, rfl⟩ := h; rfl
  all_goals obtain ⟨_, _, _, _, rfl⟩ := h; rfl

def keyAt (m : String) (task : TaskRow) (r : ℕ) : String :=
  m ++ ":" ++ task.taskId ++ ":" ++ toString r

theorem keyAt_inj {m : String} {q q' : TaskRow} {r r' : ℕ} (h : keyAt m q r = keyAt m q' r') :
    q.taskId = q'.taskId ∧ r = r' := by
  have hlist := congrArg String.toList h
  simp only [keyAt, String.toList_append, List.append_assoc] at hlist
  have hlist := List.append_cancel_left (List.append_cancel_left hlist)
  obtain ⟨hid, hr⟩ := PythonText.numbered_inj (c := ':') (p := q.taskId.toList)
    (q := q'.taskId.toList) (i := r) (j := r') (by decide) (by simpa using hlist)
  exact ⟨String.toList_inj.mp hid, hr⟩

structure RowOf (task r : TaskRow) : Prop where
  taskId : r.taskId = task.taskId
  templateTaskId : r.templateTaskId = task.templateTaskId
  dependsOn : r.dependsOn = task.dependsOn
  taskType : r.taskType = task.taskType
  toolId : r.toolId = task.toolId
  inputPayload : r.inputPayload = task.inputPayload
  maxRetries : r.maxRetries = task.maxRetries

theorem RowOf.set {task r : TaskRow} (h : RowOf task r) (a : TaskTransition) (now : ℕ) :
    RowOf task (a.set now r) :=
  ⟨h.taskId, h.templateTaskId, h.dependsOn, h.taskType, h.toolId, h.inputPayload, h.maxRetries⟩

theorem RowOf.retryBudget {task r : TaskRow} (h : RowOf task r) :
    retryBudget r = retryBudget task := by
  simp [FulfillmentWorker.retryBudget, h.maxRetries]

/-- A waiting task that the executor can take up at once: its dependencies are done, its tool
is a method of the adapter that no other task of the request item uses, its payload binds, and
the waves suffice for its retry budget. -/
structure Assigned (cfg : Config) (t m : String) (db : Db) (task : TaskRow) (op : Operation) :
    Prop where
  listed : task ∈ listTasksForRitm t m db
  waiting : Waiting task.state
  automated : task.taskType = .automated
  toolId : task.toolId = some op.method
  method : cfg.hasMethod op.method = true
  bound : bindCall op.method task.inputPayload = some op
  alone : ∀ q ∈ listTasksForRitm t m db, q.toolId = some op.method →
    q.templateTaskId = task.templateTaskId
  dependencies : DepsDone (listTasksForRitm t m db) task.dependsOn
  budget : task.retryCount < retryBudget task
  waves : retryBudget task ≤ task.retryCount + maxWaves

/-- The integration fails its first calls with an error that is retried, the keys of the
attempts were not used, and the responses keep the contract. -/
structure Flaky (K : Knobs) (t m : String) (task : TaskRow) (op : Operation)
    (pol : FailurePolicy) (s : Adapter) : Prop where
  reachable : K.timeoutMethods op.method = false
  policy : K.policies op.method = some pol
  retryable : retryable pol.errorClass
  failing : ∀ r < retryBudget task, (injectedFailure pol (keyAt m task r)).Valid
  answering : ∀ r < retryBudget task, (answered K ⟨t, op, keyAt m task r, 0⟩).Valid
  unused : ∀ r, task.retryCount ≤ r → r < retryBudget task →
    s.idemCache (t, keyAt m task r) = none

section

variable (cfg : Config) (K : Knobs) (t m : String) (task : TaskRow) (op : Operation)
  (pol : FailurePolicy) (s₀ : Adapter)

def verdict : TaskState :=
  if pol.failFirstN - s₀.counts op.method < (retryBudget task : ℤ) - task.retryCount then .done
  else .failed

/-- The adapter after `n` failed attempts. -/
structure AfterFailures (n : ℕ) (s : Adapter) : Prop where
  counts : s.counts op.method = s₀.counts op.method + n
  spent : n = 0 ∨ (s₀.counts op.method + n : ℤ) ≤ pol.failFirstN
  unused : ∀ r, task.retryCount + n ≤ r → r < retryBudget task →
    s.idemCache (t, keyAt m task r) = none

def Foreign (c : Child) : Prop :=
  (∀ q, taskOf c = some q → q.taskId ≠ task.taskId ∧ q.toolId ≠ some op.method) ∧
    ∀ a, c = .settle a → a.taskId ≠ task.taskId

def Lone (c : Child) (children : List Child) : Prop :=
  ∃ i : ℕ, children[i]? = some c ∧ ∀ (j : ℕ) d, j ≠ i → children[j]? = some d → Foreign task op d

/-- The row waits, after `n` failed attempts: at most as many waves are over, and the wave
under way has not claimed it, or is done with it. -/
def Idle (r : TaskRow) (n : ℕ) : Phase → Prop
  | .readRitm | .startRitm _ | .recover => True
  | .list wave | .relist wave => wave ≤ n
  | .cascade wave todo => wave ≤ n ∧ ∀ x ∈ todo, x.1 ≠ task.taskId
  | .running wave children => wave ≤ n ∧ Lone task op (.claim r) children ∨
      wave < n ∧ ∀ c ∈ children, Foreign task op c
  | _ => False

def Settles (n : ℕ) (s : Adapter) (a : TaskTransition) : Prop :=
  a.toState = verdict task op pol s₀ ∨
    a.toState = .ready ∧ a.retryCount = some (task.retryCount + (n + 1)) ∧
      task.retryCount + (n + 1) < retryBudget task ∧
      AfterFailures t m task op pol s₀ (n + 1) s

/-- How far the task is: it waits, an attempt is under way, the attempt was answered, or the
row is closed. -/
inductive Progress (T : List TaskRow) (p : Phase) (s : Adapter) : Prop where
  | waits (n : ℕ) (r : TaskRow) (hr : r ∈ T) (hrow : RowOf task r) (hs : Waiting r.state)
      (hn : r.retryCount = task.retryCount + n) (hb : task.retryCount + n < retryBudget task)
      (hf : AfterFailures t m task op pol s₀ n s) (hp : Idle task op r n p)
  | attempts (n : ℕ) (r q : TaskRow) (wave : ℕ) (children : List Child) (c : Child)
      (hp : p = .running wave children) (hr : r ∈ T) (hrow : RowOf task r)
      (hs : r.state = .inProgress) (hq : RowOf task q) (hn : q.retryCount = task.retryCount + n)
      (hb : task.retryCount + n < retryBudget task) (hf : AfterFailures t m task op pol s₀ n s)
      (hw : wave ≤ n) (hc : c = .dispatch q r.version ∨ c = .calling q r.version)
      (hl : Lone task op c children)
  | answered (n : ℕ) (r : TaskRow) (a : TaskTransition) (wave : ℕ) (children : List Child)
      (hp : p = .running wave children) (hr : r ∈ T) (hrow : RowOf task r)
      (ht : a.tenantId = t) (hid : a.taskId = task.taskId) (hs : r.state = .inProgress)
      (hfrom : a.fromState = .inProgress) (hv : r.version = a.version) (hw : wave ≤ n)
      (ha : Settles t m task op pol s₀ n s a) (hl : Lone task op (.settle a) children)
  | closed (r : TaskRow) (hr : r ∈ T) (hrow : RowOf task r) (hs : r.state = verdict task op pol s₀)

structure Driven (x : World × Worker) : Prop where
  tenantId : x.2.tenantId = t
  ritmId : x.2.ritmId = m
  wave : WaveInvariant x
  alone : ∀ q ∈ rowsOf x, q.toolId = some op.method → q.templateTaskId = task.templateTaskId
  dependencies : DepsDone (rowsOf x) task.dependsOn

end

section

variable {cfg : Config} {K : Knobs} {t m : String} {task : TaskRow} {op : Operation}
  {pol : FailurePolicy} {s₀ s : Adapter} {w : World} {k : Worker} {c d : Child}
  {children : List Child} {n : ℕ}

theorem foreign_of_task {q : TaskRow} (h : q.taskId ≠ task.taskId ∧ q.toolId ≠ some op.method)
    (hc : taskOf c = some q) : Foreign task op c := by
  refine ⟨fun q' hq' => ?_, fun a ha => ?_⟩
  · rw [hc] at hq'
    exact Option.some.inj hq' ▸ h
  · rw [ha] at hc
    cases hc

theorem foreign_settle {a : TaskTransition} (h : a.taskId ≠ task.taskId) :
    Foreign task op (.settle a) :=
  ⟨fun _ hq => (by cases hq), fun _ ha => Child.settle.inj ha ▸ h⟩

theorem foreign_finished (state : TaskState) : Foreign task op (.finished state) :=
  ⟨fun _ hq => (by cases hq), fun _ ha => (by cases ha)⟩

theorem foreign_raised : Foreign task op .raised :=
  ⟨fun _ hq => (by cases hq), fun _ ha => (by cases ha)⟩

theorem foreign_afterClaim {q : TaskRow} (v : ℕ)
    (h : q.taskId ≠ task.taskId ∧ q.toolId ≠ some op.method) :
    Foreign task op (afterClaim t q v) := by
  unfold afterClaim
  split_ifs
  · exact foreign_of_task h rfl
  · exact foreign_settle h.1
  · exact foreign_settle h.1
  · exact foreign_settle h.1
  · exact foreign_of_task h rfl

theorem childStep_foreign (h : Foreign task op c) (ci : ChildInput) :
    Foreign task op (childStep cfg t m ci w c).2 := by
  unfold childStep
  split
  · split
    · exact foreign_finished _
    · exact foreign_afterClaim _ (h.1 _ rfl)
  · split
    · exact foreign_raised
    · exact foreign_settle (h.1 _ rfl).1
  · split
    · exact foreign_of_task (h.1 _ rfl) rfl
    · exact foreign_raised
  · exact foreign_settle (by rw [settleResponse_taskId]; exact (h.1 _ rfl).1)
  · exact foreign_settle (by rw [settleResponse_taskId]; exact (h.1 _ rfl).1)
  · exact foreign_raised
  · exact foreign_finished _
  · exact h
  · exact foreign_raised
  · exact h

theorem childStep_keeps (h : Foreign task op c) (ci : ChildInput) {r : TaskRow}
    (hr : r ∈ listTasksForRitm t m w.db) (hrow : RowOf task r) :
    r ∈ listTasksForRitm t m (childStep cfg t m ci w c).1.db := by
  rcases childStep_task_cases cfg t m w c ci with he | ⟨q, rfl, he⟩ | ⟨a, _, rfl, _, he⟩
  · rw [listTasks_congr he]
    exact hr
  · rw [he]
    refine (list_transition_other ?_).mpr hr
    rw [hrow.taskId]
    exact (h.1 q rfl).1.symm
  · rw [he]
    refine (list_transition_other ?_).mpr hr
    rw [hrow.taskId]
    exact (h.2 a rfl).symm

theorem lone_set {i : ℕ} (hi : children[i]? = some c)
    (ho : ∀ (j : ℕ) e, j ≠ i → children[j]? = some e → Foreign task op e) (d : Child) :
    Lone task op d (children.set i d) := by
  refine ⟨i, ?_, fun j e hj he => ho j e hj ?_⟩
  · rw [List.getElem?_set_self (List.getElem?_eq_some_iff.mp hi).1]
  · rwa [List.getElem?_set_ne hj.symm] at he

theorem lone_other {i j : ℕ} (hi : children[i]? = some c)
    (ho : ∀ (j : ℕ) e, j ≠ i → children[j]? = some e → Foreign task op e) (hj : j ≠ i)
    (hd : Foreign task op d) : Lone task op c (children.set j d) := by
  refine ⟨i, by rw [List.getElem?_set_ne hj]; exact hi, fun j' e hj' he => ?_⟩
  rw [List.getElem?_set] at he
  split_ifs at he
  · exact Option.some.inj he ▸ hd
  · exact ho j' e hj' he

theorem foreign_set {j : ℕ} (h : ∀ e ∈ children, Foreign task op e) (hd : Foreign task op d) :
    ∀ e ∈ children.set j d, Foreign task op e := by
  intro e he
  rcases List.mem_or_eq_of_mem_set he with he | rfl
  · exact h e he
  · exact hd

theorem method_ne_empty (op : Operation) : op.method ≠ "" := by
  cases op <;> simp [Operation.method]

/-- An answer to it leaves the failures of the task's tool and the keys of its attempts. -/
theorem invoke_foreign {q : TaskRow} (h : q.taskId ≠ task.taskId ∧ q.toolId ≠ some op.method)
    (ms : ℕ) (hf : AfterFailures t m task op pol s₀ n s) :
    AfterFailures t m task op pol s₀ n (invoke K (adapterCall t m q) ms s).2 := by
  unfold invoke
  split
  · exact hf
  · rename_i op' hop
    have hmethod : op.method ≠ op'.method := by
      intro he
      have htool := bindCall_method hop
      rw [← he] at htool
      cases hq : q.toolId with
      | none => exact method_ne_empty op (by simpa [adapterCall, hq] using htool)
      | some x => exact h.2 (by simpa [adapterCall, hq] using htool.symm)
    have hkey : ∀ r, (t, keyAt m task r) ≠ (t, keyAt m q q.retryCount) := by
      intro r he
      exact h.1 (keyAt_inj (congrArg Prod.snd he)).1.symm
    have hother : ∀ r, ((cachedOrRun K ⟨t, op', keyAt m q q.retryCount, ms⟩ s).2.counts op.method =
        s.counts op.method) ∧
        (cachedOrRun K ⟨t, op', keyAt m q q.retryCount, ms⟩ s).2.idemCache (t, keyAt m task r) =
          s.idemCache (t, keyAt m task r) :=
      fun r => cachedOrRun_other hmethod (hkey r)
    have hafter : AfterFailures t m task op pol s₀ n
        (cachedOrRun K ⟨t, op', keyAt m q q.retryCount, ms⟩ s).2 :=
      ⟨(hother 0).1.trans hf.counts, hf.spent,
        fun r hlo hhi => (hother r).2.trans (hf.unused r hlo hhi)⟩
    dsimp only
    split
    · exact hafter
    · exact hafter

theorem settles_foreign {q : TaskRow} (h : q.taskId ≠ task.taskId ∧ q.toolId ≠ some op.method)
    (ms : ℕ) {a : TaskTransition} (hs : Settles t m task op pol s₀ n s a) :
    Settles t m task op pol s₀ n (invoke K (adapterCall t m q) ms s).2 a := by
  rcases hs with hs | ⟨hs, hr, hb, hf⟩
  · exact .inl hs
  · exact .inr ⟨hs, hr, hb, invoke_foreign h ms hf⟩

theorem verdict_done (hb : task.retryCount + n < retryBudget task)
    (h : pol.failFirstN ≤ s₀.counts op.method + n) : verdict task op pol s₀ = .done := by
  unfold verdict
  rw [if_pos (by omega)]

theorem verdict_failed (hb : ¬ task.retryCount + n < retryBudget task)
    (h : (s₀.counts op.method + n : ℤ) ≤ pol.failFirstN) : verdict task op pol s₀ = .failed := by
  unfold verdict
  rw [if_neg (by omega)]

theorem verdict_absorbing : Absorbing (verdict task op pol s₀) := by
  unfold verdict Absorbing
  split_ifs <;> simp

/-- An attempt that the integration fails spends one of its failures, and the next key is new. -/
theorem afterFailures_next {r ms : ℕ} (hr : r = task.retryCount + n)
    (hf : AfterFailures t m task op pol s₀ n s)
    (hleft : ¬ pol.failFirstN ≤ s.counts op.method) :
    AfterFailures t m task op pol s₀ (n + 1) (failedOnce pol ⟨t, op, keyAt m task r, ms⟩ s) := by
  have hcounts := hf.counts
  refine ⟨?_, .inr (by push_cast; omega), fun r' hlo hhi => ?_⟩
  · have hself : (failedOnce pol ⟨t, op, keyAt m task r, ms⟩ s).counts op.method =
        s.counts op.method + 1 := Function.update_self ..
    omega
  · have hne : (t, keyAt m task r') ≠ (t, keyAt m task r) := by
      intro he
      have := (keyAt_inj (congrArg Prod.snd he)).2
      omega
    rw [failedOnce, remember_cache]
    exact (Function.update_of_ne hne ..).trans (hf.unused r' (by omega) hhi)

theorem settle_success {q : TaskRow} {v : ℕ} {resp : AdapterResponse} (h : resp.success = true) :
    (settleResponse t q v resp).toState = .done := by
  simp [settleResponse, h, leave, plain]

theorem settle_failure {q : TaskRow} {v : ℕ} {resp : AdapterResponse} {e : AdapterErrorClass}
    (h : resp.success = false) (he : resp.errorClass = some e)
    (hretry : FulfillmentWorker.retryable e) :
    (settleResponse t q v resp).toState =
        (if q.retryCount + 1 < retryBudget q then .ready else .failed) ∧
      (settleResponse t q v resp).retryCount = some (q.retryCount + 1) := by
  simp only [settleResponse, h, he, Option.getD_some, hretry, true_and, Bool.false_eq_true,
    if_false]
  exact ⟨rfl, trivial⟩

/-- The answer to an attempt: a success once the failures are spent, else one failure less. -/
theorem invoke_attempt (ha : bindCall op.method task.inputPayload = some op)
    (htool : task.toolId = some op.method) (hfl : Flaky K t m task op pol s₀) {q : TaskRow}
    (hq : RowOf task q) (hn : q.retryCount = task.retryCount + n)
    (hb : task.retryCount + n < retryBudget task) (hf : AfterFailures t m task op pol s₀ n s)
    (ms : ℕ) : ∃ resp, (invoke K (adapterCall t m q) ms s).1 = .answer resp ∧
      ∀ v, Settles t m task op pol s₀ n (invoke K (adapterCall t m q) ms s).2
        (settleResponse t q v resp) := by
  have hbind : bindCall (q.toolId.getD "") q.inputPayload = some op := by
    rw [hq.toolId, htool, hq.inputPayload]
    exact ha
  have hkey : (adapterCall t m q).idempotencyKey = keyAt m task q.retryCount := by
    rw [keyAt, ← hq.taskId]
    rfl
  have hcall : invoke K (adapterCall t m q) ms s =
      match (cachedOrRun K ⟨t, op, keyAt m task q.retryCount, ms⟩ s).1 with
      | none => (.raised "AdapterInvocationError",
          (cachedOrRun K ⟨t, op, keyAt m task q.retryCount, ms⟩ s).2)
      | some r => (.answer r.read,
          (cachedOrRun K ⟨t, op, keyAt m task q.retryCount, ms⟩ s).2) := by
    unfold invoke
    rw [hkey]
    simp only [adapterCall, hbind]
  have hnew : s.idemCache (t, keyAt m task q.retryCount) = none :=
    hf.unused _ (by omega) (by omega)
  have hcounts := hf.counts
  by_cases hdone : pol.failFirstN ≤ s.counts op.method
  · have hvalid : (answered K ⟨t, op, keyAt m task q.retryCount, ms⟩).Valid :=
      hfl.answering q.retryCount (by omega)
    have ho := cachedOrRun_answered (c := ⟨t, op, keyAt m task q.retryCount, ms⟩) hnew
      hfl.reachable hfl.policy hdone hvalid
    rw [hcall, ho]
    refine ⟨_, rfl, fun v => .inl ?_⟩
    rw [verdict_done hb (by omega)]
    exact settle_success rfl
  · have ho := cachedOrRun_injected (c := ⟨t, op, keyAt m task q.retryCount, ms⟩) hnew
      hfl.reachable hfl.policy hdone (hfl.failing q.retryCount (by omega))
    have hnext : AfterFailures t m task op pol s₀ (n + 1)
        (failedOnce pol ⟨t, op, keyAt m task q.retryCount, ms⟩ s) := afterFailures_next hn hf hdone
    rw [hcall, ho]
    refine ⟨_, rfl, fun v => ?_⟩
    let resp := (injectedFailure pol (keyAt m task q.retryCount)).read
    obtain ⟨hstate, hretry⟩ : (settleResponse t q v resp).toState =
        (if q.retryCount + 1 < retryBudget q then .ready else .failed) ∧
        (settleResponse t q v resp).retryCount = some (q.retryCount + 1) :=
      settle_failure rfl rfl hfl.retryable
    rw [hq.retryBudget] at hstate
    by_cases hmore : q.retryCount + 1 < retryBudget task
    · rw [if_pos hmore] at hstate
      exact .inr ⟨hstate, by rw [hretry, hn, Nat.add_assoc], by omega, hnext⟩
    · rw [if_neg hmore] at hstate
      exact .inl (hstate.trans (verdict_failed (n := n + 1) (by omega)
        (hnext.spent.resolve_left (by omega))).symm)

theorem afterClaim_attempt {db : Db} (ha : Assigned cfg t m db task op) {q : TaskRow}
    (hq : RowOf task q) (v : ℕ) : afterClaim t q v = .dispatch q v := by
  have htool : q.toolId = some op.method := hq.toolId.trans ha.toolId
  have happroval : op.method ≠ "request_human_approval" := by
    cases op <;> simp [Operation.method]
  unfold afterClaim
  simp [htool, happroval, method_ne_empty, hq.taskType, ha.automated]

theorem progress_child {db : Db} (ha : Assigned cfg t m db task op) {wave j : ℕ} (hex : String)
    (hc : children[j]? = some c)
    (h : Progress t m task op pol s₀ (listTasksForRitm t m w.db) (.running wave children) s)
    (hopen : ∀ r ∈ listTasksForRitm t m w.db, RowOf task r → r.state ≠ verdict task op pol s₀) :
    Progress t m task op pol s₀
      (listTasksForRitm t m (childStep cfg t m (.stmt hex) w c).1.db)
      (.running wave (children.set j (childStep cfg t m (.stmt hex) w c).2)) s := by
  cases h with
  | waits n r hr hrow hs hn hb hf hp =>
    rcases hp with ⟨hw, i, hi, ho⟩ | ⟨hw, hall⟩
    · by_cases hj : j = i
      · subst hj
        rw [hi] at hc
        cases hc
        have hclaim := claim_hits hr
        have hstep : (childStep cfg t m (.stmt hex) w (.claim r)).2 =
            .dispatch r (r.version + 1) := by
          simp only [childStep]
          rw [hclaim]
          exact afterClaim_attempt ha hrow _
        have hdb : (childStep cfg t m (.stmt hex) w (.claim r)).1.db =
            (transitionTaskState (plain t r.taskId r.state .inProgress r.version) w.db).2 := by
          simp only [childStep]
          rw [hclaim]
        rw [hstep, hdb]
        exact .attempts n _ r wave _ _ rfl (list_transition_hit hr rfl rfl rfl rfl)
          (hrow.set _ _) rfl hrow hn hb hf hw (.inl rfl) (lone_set hi ho _)
      · have hfor := ho j c hj hc
        exact .waits n r (childStep_keeps hfor _ hr hrow) hrow hs hn hb hf
          (.inl ⟨hw, lone_other hi ho hj (childStep_foreign hfor _)⟩)
    · have hfor := hall c (List.mem_of_getElem? hc)
      exact .waits n r (childStep_keeps hfor _ hr hrow) hrow hs hn hb hf
        (.inr ⟨hw, foreign_set hall (childStep_foreign hfor _)⟩)
  | attempts n r q wave' children' c' hp hr hrow hs hq hn hb hf hw hc' hl =>
    cases hp
    obtain ⟨i, hi, ho⟩ := hl
    by_cases hj : j = i
    · subst hj
      rw [hi] at hc
      cases hc
      rcases hc' with rfl | rfl
      · have hmethod : cfg.hasMethod (q.toolId.getD "") = true := by
          rw [hq.toolId, ha.toolId]
          exact ha.method
        simp only [childStep, hmethod, if_true]
        exact .attempts n r q wave _ _ rfl hr hrow hs hq hn hb hf hw (.inr rfl)
          (lone_set hi ho _)
      · exact .attempts n r q wave _ _ rfl hr hrow hs hq hn hb hf hw (.inr rfl)
          (lone_set hi ho _)
    · have hfor := ho j c hj hc
      exact .attempts n r q wave _ c' rfl (childStep_keeps hfor _ hr hrow) hrow hs hq hn hb hf
        hw hc' (lone_other hi ho hj (childStep_foreign hfor _))
  | answered n r a wave' children' hp hr hrow ht hid hs hfrom hv hw hset hl =>
    cases hp
    obtain ⟨i, hi, ho⟩ := hl
    by_cases hj : j = i
    · subst hj
      rw [hi] at hc
      cases hc
      have hhit := list_transition_hit hr ht (hid.trans hrow.taskId.symm) (hs.trans hfrom.symm) hv
      have hall : ∀ e ∈ children.set j (.finished a.toState), Foreign task op e := by
        intro e he
        obtain ⟨i', hi'⟩ := List.getElem?_of_mem he
        rw [List.getElem?_set] at hi'
        split_ifs at hi' with hne
        · exact Option.some.inj hi' ▸ foreign_finished _
        · exact ho i' e (Ne.symm hne) hi'
      rcases hset with hclosed | ⟨hready, hcount, hb, hf⟩
      · exact .closed _ hhit (hrow.set _ _) hclosed
      · refine .waits (n + 1) _ hhit (hrow.set _ _) (.inr hready) ?_ hb hf
          (.inr ⟨by omega, hall⟩)
        simp [TaskTransition.set, hcount]
    · have hfor := ho j c hj hc
      exact .answered n r a wave _ rfl (childStep_keeps hfor _ hr hrow) hrow ht hid hs hfrom hv
        hw hset (lone_other hi ho hj (childStep_foreign hfor _))
  | closed r hr hrow hs => exact absurd hs (hopen r hr hrow)

theorem progress_answer {db : Db} (ha : Assigned cfg t m db task op)
    (hfl : Flaky K t m task op pol s₀) {wave j v : ℕ} {q : TaskRow} (ms : ℕ)
    (hc : children[j]? = some (.calling q v))
    (h : Progress t m task op pol s₀ (listTasksForRitm t m w.db) (.running wave children) s)
    (hopen : ∀ r ∈ listTasksForRitm t m w.db, RowOf task r → r.state ≠ verdict task op pol s₀) :
    Progress t m task op pol s₀
      (listTasksForRitm t m (childStep cfg t m
        (.result (invoke K (adapterCall t m q) ms s).1) w (.calling q v)).1.db)
      (.running wave (children.set j (childStep cfg t m
        (.result (invoke K (adapterCall t m q) ms s).1) w (.calling q v)).2))
      (invoke K (adapterCall t m q) ms s).2 := by
  have keeps : ∀ {r : TaskRow}, Foreign task op (.calling q v) →
      r ∈ listTasksForRitm t m w.db → RowOf task r → r ∈ listTasksForRitm t m (childStep cfg t m
        (.result (invoke K (adapterCall t m q) ms s).1) w (.calling q v)).1.db :=
    fun hfor hr hrow => childStep_keeps hfor _ hr hrow
  cases h with
  | waits n r hr hrow hs hn hb hf hp =>
    rcases hp with ⟨hw, i, hi, ho⟩ | ⟨hw, hall⟩
    · have hj : j ≠ i := by
        rintro rfl
        rw [hi] at hc
        cases hc
      have hfor := ho j _ hj hc
      exact .waits n r (keeps hfor hr hrow) hrow hs hn hb (invoke_foreign (hfor.1 q rfl) ms hf)
        (.inl ⟨hw, lone_other hi ho hj (childStep_foreign hfor _)⟩)
    · have hfor := hall _ (List.mem_of_getElem? hc)
      exact .waits n r (keeps hfor hr hrow) hrow hs hn hb (invoke_foreign (hfor.1 q rfl) ms hf)
        (.inr ⟨hw, foreign_set hall (childStep_foreign hfor _)⟩)
  | attempts n r q' wave' children' c' hp hr hrow hs hq hn hb hf hw hc' hl =>
    cases hp
    obtain ⟨i, hi, ho⟩ := hl
    by_cases hj : j = i
    · subst hj
      rw [hi] at hc
      cases hc
      rcases hc' with hc' | hc'
      · cases hc'
      · cases hc'
        obtain ⟨resp, hresp, hset⟩ := invoke_attempt ha.bound ha.toolId hfl hq hn hb hf ms
        rw [hresp]
        refine .answered n r _ wave _ rfl hr hrow (settleResponse_tenantId ..)
          ((settleResponse_taskId ..).trans hq.taskId) hs ?_ (settleResponse_version ..).symm hw
          (hset r.version) (lone_set hi ho _)
        unfold settleResponse
        split_ifs <;> rfl
    · have hfor := ho j _ hj hc
      exact .attempts n r q' wave _ c' rfl (keeps hfor hr hrow) hrow hs hq hn hb
        (invoke_foreign (hfor.1 q rfl) ms hf) hw hc'
        (lone_other hi ho hj (childStep_foreign hfor _))
  | answered n r a wave' children' hp hr hrow ht hid hs hfrom hv hw hset hl =>
    cases hp
    obtain ⟨i, hi, ho⟩ := hl
    have hj : j ≠ i := by
      rintro rfl
      rw [hi] at hc
      cases hc
    have hfor := ho j _ hj hc
    exact .answered n r a wave _ rfl (keeps hfor hr hrow) hrow ht hid hs hfrom hv hw
      (settles_foreign (hfor.1 q rfl) ms hset) (lone_other hi ho hj (childStep_foreign hfor _))
  | closed r hr hrow hs => exact absurd hs (hopen r hr hrow)

/-- Nothing the waiting task depends on has failed. -/
theorem not_poisoned {y : World × Worker} (hd : Driven t m task op y) {r : TaskRow}
    (hr : r ∈ rowsOf y) (hrow : RowOf task r) (hs : Waiting r.state) : ¬ Poisoned (rowsOf y) r := by
  rintro ⟨f, hf, hfail, hreach⟩
  have hdeps : DepsDone (rowsOf y) r.dependsOn := hrow.dependsOn ▸ hd.dependencies
  rcases Relation.reflTransGen_iff_eq_or_transGen.mp hreach with he | hdep
  · rw [list_eq_of_template hf hr he] at hfail
    simp [Waiting, hfail] at hs
  · obtain ⟨d, hdT, htmpl, hdone⟩ := depends_done hd.wave hr hdeps hdep
    rw [list_eq_of_template hdT hf htmpl, hfail] at hdone
    cases hdone

/-- The next wave takes the waiting task up, and no other coroutine of it is about the task or
its tool. -/
theorem decideWave_takes {y : World × Worker} (hd : Driven t m task op y)
    {r : TaskRow} (hr : r ∈ rowsOf y) (hrow : RowOf task r) (hs : Waiting r.state) (wave : ℕ) :
    ∃ children, decideWave wave (rowsOf y) = .running wave children ∧
      Lone task op (.claim r) children := by
  have hok : depsOk (rowsOf y) r = true := by
    refine depsOk_iff.mpr ⟨hs, fun dep hdep => depOk_iff.mpr ?_⟩
    obtain ⟨d, hdT, rfl, hdone⟩ := hd.dependencies dep (hrow.dependsOn ▸ hdep)
    exact ⟨d, byTmpl_of_mem hdT, .inl hdone⟩
  have hready : r ∈ readyTasks (rowsOf y) := mem_readyTasks.mpr ⟨hr, r, hr, rfl, hok⟩
  have hterm : isTerminal (rowsOf y) = none :=
    isTerminal_eq_none.mpr ⟨r, hr, hs.elim .inl fun h => .inr (.inl h)⟩
  have hsome : (readyTaskIds (rowsOf y)).isEmpty = false := by
    rw [List.isEmpty_eq_false_iff]
    exact List.ne_nil_of_mem (List.mem_map_of_mem (List.mem_filter.mpr ⟨hr, hok⟩))
  refine ⟨(readyTasks (rowsOf y)).map .claim, ?_, ?_⟩
  · unfold decideWave
    simp only [hterm, hsome, Bool.false_eq_true, if_false]
  · obtain ⟨i, hi⟩ := List.getElem?_of_mem hready
    refine ⟨i, by rw [List.getElem?_map, hi]; rfl, fun j d hj hjd => ?_⟩
    rw [List.getElem?_map] at hjd
    obtain ⟨q, hq, rfl⟩ := Option.map_eq_some_iff.mp hjd
    obtain ⟨hqT, _⟩ := mem_readyTasks.mp (List.mem_of_getElem? hq)
    have hne : q ≠ r := by
      rintro rfl
      have hnodup : (readyTasks (rowsOf y)).Nodup :=
        (List.Nodup.of_map _ listTasks_nodup).sublist List.filter_sublist
      exact hj ((List.getElem?_inj (List.getElem?_eq_some_iff.mp hq).1 hnodup).mp
        (hq.trans hi.symm))
    refine foreign_of_task ⟨fun he => ?_, fun he => ?_⟩ rfl
    · exact hne (listTasks_eq_of_taskId hqT hr (he.trans hrow.taskId.symm))
    · exact hne (list_eq_of_template hqT hr
        ((hd.alone q hqT he).trans hrow.templateTaskId.symm))

/-- The coroutine that is about the task holds the wave. -/
theorem Lone.running (hl : Lone task op c children) (hc : c.ended = false) :
    children.all Child.ended = false := by
  obtain ⟨i, hi, _⟩ := hl
  exact List.all_eq_false.mpr ⟨c, List.mem_of_getElem? hi, by rw [hc]; nofun⟩

/-- A wave with a coroutine at work waits for it. -/
theorem workerStep_running {wave : ℕ} (hp : k.phase = .running wave children)
    (hrun : children.all Child.ended = false) : workerStep cfg .stmt w k = (w, k) := by
  cases k
  cases hp
  simp [workerStep, mainStep, hrun]

/-- The main loop leaves the waiting task waiting, and its next wave takes it up. -/
theorem waits_main {db : Db} (ha : Assigned cfg t m db task op)
    (hd : Driven t m task op (w, k)) {r : TaskRow} (hr : r ∈ rowsOf (w, k)) (hrow : RowOf task r)
    (hs : Waiting r.state) (hn : r.retryCount = task.retryCount + n)
    (hb : task.retryCount + n < retryBudget task) (hf : AfterFailures t m task op pol s₀ n s)
    (hp : Idle task op r n k.phase) :
    Progress t m task op pol s₀ (rowsOf (workerStep cfg .stmt w k))
      (workerStep cfg .stmt w k).2.phase s := by
  have hwaits : ∀ p (w' : World), w'.db.task = w.db.task → Idle task op r n p →
      Progress t m task op pol s₀ (rowsOf (w', ⟨k.tenantId, k.ritmId, p⟩)) p s := by
    intro p w' hw' hp'
    refine .waits n r ?_ hrow hs hn hb hf hp'
    rw [rowsOf, listTasks_congr hw']
    exact hr
  have hdecide : ∀ wave, wave ≤ n → Idle task op r n (decideWave wave (rowsOf (w, k))) := by
    intro wave hw
    obtain ⟨children, he, hl⟩ := decideWave_takes hd hr hrow hs wave
    rw [he]
    exact .inl ⟨hw, hl⟩
  cases hphase : k.phase with
  | readRitm =>
    simp only [workerStep, mainStep, hphase]
    split
    · rename_i hnone
      obtain ⟨hmem, ht, hm⟩ := mem_listTasks.mp hr
      have hritm := w.db.task_ritm r hmem
      rw [ht, hm] at hritm
      exact absurd hritm (Table.lookup_eq_none.mp hnone)
    · split_ifs
      · exact hwaits (.startRitm _) w rfl trivial
      · exact hwaits .recover w rfl trivial
  | startRitm version =>
    simp only [workerStep, mainStep, hphase]
    exact hwaits .recover _ rfl trivial
  | recover =>
    simp only [workerStep, mainStep, hphase]
    refine .waits n r (mem_list_recover.mpr ⟨r, hr, (if_neg ?_).symm⟩) hrow hs hn hb hf
      (Nat.zero_le n)
    rcases hs with hs | hs <;> simp [stuckTask, hs]
  | list wave =>
    rw [hphase] at hp
    simp only [workerStep, mainStep, hphase]
    split_ifs
    · exact hwaits _ w rfl (hdecide wave hp)
    · refine hwaits (.cascade wave _) w rfl ⟨hp, fun x hx he => ?_⟩
      obtain ⟨u, hu, rfl, _, hpoisoned⟩ := mem_transitivelyBlocked.mp hx
      have hur : u = r := listTasks_eq_of_taskId hu hr (Eq.trans he hrow.taskId.symm)
      exact not_poisoned hd hr hrow hs (hur ▸ hpoisoned)
  | cascade wave todo =>
    rw [hphase] at hp
    cases todo with
    | nil =>
      simp only [workerStep, mainStep, hphase]
      exact hwaits (.relist wave) w rfl hp.1
    | cons x todo =>
      simp only [workerStep, mainStep, hphase]
      have hne : r.taskId ≠ (skipWrite k x).taskId := by
        rw [hrow.taskId]
        exact (hp.2 x List.mem_cons_self).symm
      exact .waits n r ((list_transition_other hne).mpr hr) hrow hs hn hb hf
        ⟨hp.1, fun x' hx' => hp.2 x' (List.mem_cons_of_mem _ hx')⟩
  | relist wave =>
    rw [hphase] at hp
    simp only [workerStep, mainStep, hphase]
    exact hwaits _ w rfl (hdecide wave hp)
  | running wave children =>
    rw [hphase] at hp
    simp only [workerStep, mainStep, hphase]
    rcases hp with ⟨hw, hl⟩ | ⟨hw, hall⟩
    · have hrun : children.all Child.ended = false := hl.running rfl
      rw [hrun, if_neg Bool.false_ne_true]
      exact hwaits (.running wave children) w rfl (.inl ⟨hw, hl⟩)
    · split_ifs
      · have hwaves := ha.waves
        have hnext : nextWave wave = .list (wave + 1) := by
          unfold nextWave
          rw [if_pos (by omega)]
        rw [hnext]
        exact hwaits (.list (wave + 1)) w rfl hw
      · exact hwaits (.running wave children) w rfl (.inr ⟨hw, hall⟩)
  | _ =>
    rw [hphase] at hp
    exact hp.elim

theorem progress_main {db : Db} (ha : Assigned cfg t m db task op)
    (hd : Driven t m task op (w, k))
    (h : Progress t m task op pol s₀ (rowsOf (w, k)) k.phase s)
    (hopen : ∀ r ∈ rowsOf (w, k), RowOf task r → r.state ≠ verdict task op pol s₀) :
    Progress t m task op pol s₀ (rowsOf (workerStep cfg .stmt w k))
      (workerStep cfg .stmt w k).2.phase s := by
  cases h with
  | waits n r hr hrow hs hn hb hf hp => exact waits_main ha hd hr hrow hs hn hb hf hp
  | attempts n r q wave children c hp hr hrow hs hq hn hb hf hw hc hl =>
    have hrun : children.all Child.ended = false :=
      hl.running (by rcases hc with rfl | rfl <;> rfl)
    rw [workerStep_running hp hrun]
    exact .attempts n r q wave children c hp hr hrow hs hq hn hb hf hw hc hl
  | answered n r a wave children hp hr hrow ht hid hs hfrom hv hw hset hl =>
    have hrun : children.all Child.ended = false := hl.running rfl
    rw [workerStep_running hp hrun]
    exact .answered n r a wave children hp hr hrow ht hid hs hfrom hv hw hset hl
  | closed r hr hrow hs => exact absurd hs (hopen r hr hrow)

theorem driven_step {x y : World × Worker} (hd : Driven t m task op x) (h : Solo cfg x y) :
    Driven t m task op y := by
  have hwave := solo_inv hd.wave h
  have hspecs := solo_specs h
  obtain ⟨seconds, inp, rfl⟩ := h
  obtain ⟨ht, hm⟩ := workerStep_ids cfg inp (tick seconds x.1) x.2
  refine ⟨ht.trans hd.tenantId, hm.trans hd.ritmId, hwave, fun q hq he => ?_,
    hd.dependencies.evolved (workerStep_evolved cfg (w := tick seconds x.1) hd.wave.wf inp)⟩
  obtain ⟨q', hq', hs⟩ := List.mem_map.mp (hspecs.mem_iff.mp (List.mem_map_of_mem hq))
  simp only [rowSpec, TaskSpec.mk.injEq] at hs
  rw [← hs.1]
  exact hd.alone q' hq' (hs.2.2.1.trans he)

theorem progress_step {db : Db} (ha : Assigned cfg t m db task op)
    (hfl : Flaky K t m task op pol s₀) {x y : Hosted} (hd : Driven t m task op x.call)
    (h : Progress t m task op pol s₀ (rowsOf x.call) x.call.2.phase x.adapter)
    (hs : Hosts cfg K x y) :
    Progress t m task op pol s₀ (rowsOf y.call) y.call.2.phase y.adapter := by
  by_cases hclosed : ∃ r ∈ rowsOf x.call, RowOf task r ∧ r.state = verdict task op pol s₀
  · obtain ⟨r, hr, hrow, hstate⟩ := hclosed
    obtain ⟨seconds, inp, he⟩ := hosts_solo hs
    have hev := workerStep_evolved cfg (w := tick seconds x.call.1) hd.wave.wf inp
    rw [← he] at hev
    exact .closed r (hev.absorbed hr (hstate ▸ verdict_absorbing)) hrow hstate
  · have hopen : ∀ r ∈ rowsOf x.call, RowOf task r → r.state ≠ verdict task op pol s₀ :=
      fun r hr hrow he => hclosed ⟨r, hr, hrow, he⟩
    obtain ⟨rfl, rfl, hwave, halone, hdeps⟩ := hd
    obtain ⟨⟨w, k⟩, s⟩ := x
    obtain ⟨seconds, turn, rfl⟩ := hs
    cases turn with
    | main =>
      exact progress_main (w := tick seconds w) ha
        ⟨rfl, rfl, ⟨hwave.wf, hwave.started, hwave.skipped, hwave.phase, hwave.calls⟩, halone,
          hdeps⟩ h hopen
    | child j hex =>
      simp only [Hosted.step]
      cases workerActs cfg (tick seconds w) k (.child j (.stmt hex)) with
      | child _ _ wave children c hp hc =>
        simp only at hp h
        rw [hp] at h
        rw [workerStep_child hp hc]
        exact progress_child (w := tick seconds w) ha hex hc h hopen
      | idle _ he =>
        rw [he]
        exact h
    | answer j ms =>
      simp only [Hosted.step, awaited]
      split
      · exact h
      · rename_i call hcall
        split at hcall
        · rename_i q v hc
          cases hcall
          cases hp : k.phase with
          | running wave children =>
            simp only at hp h
            rw [hp] at h hc
            rw [workerStep_child hp hc]
            exact progress_answer (w := tick seconds w) ha hfl ms hc h hopen
          | _ =>
            rw [hp] at hc
            cases hc
        · cases hcall

/-- The attempts of one call at a task whose integration fails its first calls, over the waves
and with a new key each: the task is done exactly when the budget exceeds the failures that
are left. -/
theorem retries_outlast_failures (ha : Assigned cfg t m w.db task op)
    (hw : WaveInvariant (freshCall w t m)) (hfl : Flaky K t m task op pol s₀) {f : ℕ → Hosted}
    (hf : Execution (Hosts cfg K) f) (h0 : f 0 = ⟨freshCall w t m, s₀⟩)
    (hfair : FairCall fun i => (f i).call) :
    (∃ n, ended (f n).call.2.phase = true) ∧
    ∀ n, ended (f n).call.2.phase = true → ∃ r ∈ rowsOf (f n).call, r.taskId = task.taskId ∧
      r.state = if pol.failFirstN - s₀.counts op.method < (retryBudget task : ℤ) - task.retryCount
        then .done else .failed := by
  have hsolo : Execution (Solo cfg) fun i => (f i).call := fun i => hosts_solo (hf i)
  have hrun : ∀ i, Driven t m task op (f i).call ∧
      Progress t m task op pol s₀ (rowsOf (f i).call) (f i).call.2.phase (f i).adapter := by
    intro i
    induction i with
    | zero =>
      rw [h0]
      exact ⟨⟨rfl, rfl, hw, ha.alone, ha.dependencies⟩,
        .waits 0 task ha.listed ⟨rfl, rfl, rfl, rfl, rfl, rfl, rfl⟩ ha.waiting rfl ha.budget
          ⟨rfl, .inl rfl, hfl.unused⟩ trivial⟩
    | succ i ih => exact ⟨driven_step ih.1 (hsolo i), progress_step ha hfl ih.1 ih.2 (hf i)⟩
  refine ⟨call_ends hsolo hfair, fun n he => ?_⟩
  cases (hrun n).2 with
  | waits i r hr hrow hs hn hb hf hp =>
    cases hphase : (f n).call.2.phase <;> rw [hphase] at hp he
    case returned o => exact hp.elim
    case raised e => exact hp.elim
    all_goals cases he
  | attempts i r q wave children c hp =>
    rw [hp] at he
    cases he
  | answered i r a wave children hp =>
    rw [hp] at he
    cases he
  | closed r hr hrow hs => exact ⟨r, hr, hrow.taskId, hs⟩

end

theorem hosts_idle (cfg : Config) (K : Knobs) (x : Hosted) : Hosts cfg K x x :=
  ⟨0, .answer (childrenOf x.call.2.phase).length 0, by simp [Hosted.step, awaited]⟩

def hosted (cfg : Config) (K : Knobs) (x : Hosted) (turns : List Turn) (i : ℕ) : Hosted :=
  (turns.take i).foldl (fun y turn => y.step cfg K 0 turn) x

theorem hosted_all {cfg : Config} {K : Knobs} {x : Hosted} {turns : List Turn} {i : ℕ}
    (h : turns.length ≤ i) : hosted cfg K x turns i = hosted cfg K x turns turns.length := by
  rw [hosted, hosted, List.take_of_length_le h, List.take_length]

theorem hosted_execution (cfg : Config) (K : Knobs) (x : Hosted) (turns : List Turn) :
    Execution (Hosts cfg K) (hosted cfg K x turns) := by
  intro i
  rcases Nat.lt_or_ge i turns.length with h | h
  · refine ⟨0, turns[i], ?_⟩
    simp only [hosted, List.take_add_one, List.getElem?_eq_getElem h, List.foldl_append]
    rfl
  · rw [hosted_all h, hosted_all (Nat.le_succ_of_le h)]
    exact hosts_idle cfg K _

def account : TaskRow :=
  { sampleTask "a" .automated (some "create_directory_account") [] with
    inputPayload := [("user_full_name", .str "John Smith"),
      ("email_suggested", .str "John.Smith@corp")] }

def directoryConfig : Config := ⟨fun tool => tool = "create_directory_account", 10, "60.0"⟩

def newHire : Db :=
  sampleDb (sampleRitm .requested 2) [account, sampleTask "b" .manual none ["a"]]
    requestedTwo_length (by decide) (by decide) (by decide)

def directoryWave : List Turn :=
  [.main, .child 0 "", .child 0 "", .answer 0 3, .child 0 "", .main]

def directoryTurns : List Turn :=
  [.main, .main, .main] ++ directoryWave ++ directoryWave ++ directoryWave ++
    [.main, .child 0 "", .child 0 "", .main, .main, .main, .main, .main]

def directoryRun : ℕ → Hosted :=
  hosted directoryConfig flakyDirectory
    ⟨freshCall ⟨newHire, [], [], []⟩ "t" "RITM0000000001", Adapter.fresh⟩ directoryTurns

def johnsAccount : Operation := .createDirectoryAccount "John Smith" "John.Smith@corp"

theorem account_assigned :
    Assigned directoryConfig "t" "RITM0000000001" newHire account johnsAccount where
  listed := mem_listTasks.mpr ⟨List.mem_cons_self, rfl, rfl⟩
  waiting := .inl rfl
  automated := rfl
  toolId := rfl
  method := rfl
  bound := rfl
  alone := by decide +kernel
  dependencies := nofun
  budget := by decide
  waves := by decide

theorem account_flaky : Flaky flakyDirectory "t" "RITM0000000001" account johnsAccount
    ⟨2, .transient, "injected failure for test", none, none⟩ Adapter.fresh where
  reachable := rfl
  policy := rfl
  retryable := .inl rfl
  failing := by decide +kernel
  answering := by decide +kernel
  unused _ _ _ := rfl

theorem retries_outlast_failures_account :
    (directoryRun 29).adapter.counts "create_directory_account" = 2 ∧
    ∃ r ∈ rowsOf (directoryRun 29).call, r.taskId = "SCTASK-a" ∧ r.state = .done := by
  refine ⟨by decide +kernel, ?_⟩
  have hfair : FairCall fun i => (directoryRun i).call := by
    refine fair_of_done (n := directoryTurns.length) fun i hi => ?_
    simp only [directoryRun]
    rw [hosted_all hi]
    rfl
  have hpending : ∀ r ∈ listTasksForRitm "t" "RITM0000000001" newHire, r.state = .pending := by
    decide +kernel
  exact (retries_outlast_failures account_assigned (freshCall_inv hpending rfl) account_flaky
    (hosted_execution _ _ _ _) rfl hfair).2 29 rfl

end InProcessExecution
