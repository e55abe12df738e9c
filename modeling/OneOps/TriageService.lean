import OneOps.PythonJson
import OneOps.ProcessPool

/-! The triage service. A proposal is cached when the propose plan has run, and a decide
call applies or discards it. Each call advances from one await to the next over the ticket
rows and the proposal cache, in process or through the agent behind the message bus. -/
namespace TriageService

open ProcessPool
open PythonJson

inductive ServiceId where
  | incident
  | request
  deriving DecidableEq, Repr

inductive Column where
  | category
  | subcategory
  | impact
  | urgency
  | priority
  | assignmentGroup
  | assignedTo
  | ciId
  deriving DecidableEq, Repr

def Column.name : Column → String
  | .category => "category"
  | .subcategory => "subcategory"
  | .impact => "impact"
  | .urgency => "urgency"
  | .priority => "priority"
  | .assignmentGroup => "assignment_group"
  | .assignedTo => "assigned_to"
  | .ciId => "ci_id"

def triageFieldsFor : ServiceId → List Column
  | .incident => [.category, .subcategory, .impact, .urgency, .priority, .assignmentGroup,
      .assignedTo]
  | .request => [.category, .priority, .assignmentGroup, .assignedTo]

def writableFieldsFor (serviceId : ServiceId) : List Column := triageFieldsFor serviceId ++ [.ciId]

def closedStatuses : List String := ["closed", "resolved", "cancelled"]

structure TicketKey where
  tenantId : String
  serviceId : ServiceId
  ticketId : String
  deriving DecidableEq, Repr

/-- A row of `itsm.incident` or `itsm.request`; a request has no value in the columns that
only incidents have. -/
structure Ticket where
  fields : Column → Option String
  status : Option String
  slaDue : Option ℤ
  updatedAt : Option ℤ

def Ticket.closed (row : Ticket) : Bool := row.status.any fun s => s ∈ closedStatuses

inductive Impact where
  | low
  | onUsers
  | onDepartment
  | onBusiness
  deriving DecidableEq, Repr

def Impact.text : Impact → String
  | .low => "Low"
  | .onUsers => "On Users"
  | .onDepartment => "On Department"
  | .onBusiness => "On Business"

inductive Level where
  | low
  | medium
  | high
  | urgent
  deriving DecidableEq, Repr

def Level.text : Level → String
  | .low => "Low"
  | .medium => "Medium"
  | .high => "High"
  | .urgent => "Urgent"

structure Proposal where
  proposalId : String
  ticketId : String
  serviceId : ServiceId
  tenantId : String
  suggestedCategory : Option String
  suggestedSubcategory : Option String
  suggestedAssignedTo : Option String
  suggestedCiId : Option String
  suggestedImpact : Impact
  suggestedUrgency : Level
  suggestedPriority : Level
  suggestedAssignmentGroup : Option String
  deriving DecidableEq, Repr

def Proposal.key (p : Proposal) : TicketKey := ⟨p.tenantId, p.serviceId, p.ticketId⟩

def Proposal.suggested (p : Proposal) : Column → Option String
  | .category => p.suggestedCategory
  | .subcategory => p.suggestedSubcategory
  | .impact => some p.suggestedImpact.text
  | .urgency => some p.suggestedUrgency.text
  | .priority => some p.suggestedPriority.text
  | .assignmentGroup => p.suggestedAssignmentGroup
  | .assignedTo => p.suggestedAssignedTo
  | .ciId => p.suggestedCiId

inductive DecisionChoice where
  | yes
  | no
  deriving DecidableEq, Repr

inductive OutcomeStatus where
  | applied
  | discarded
  deriving DecidableEq, Repr

abbrev Values := Column → Option Doc

structure Outcome where
  proposalId : String
  ticketId : String
  outcome : OutcomeStatus
  actorUserId : String
  decidedAt : ℤ
  appliedFields : Option (Values × ℤ)

/-- What the texts of the service rest on: `str.isspace` of a character and `repr`. -/
structure Python where
  isSpace : Char → Bool
  repr : String → String

structure Principal where
  tenantId : String
  userId : String
  role : String
  deriving DecidableEq, Repr

structure DecideRequest where
  proposalId : String
  choice : DecisionChoice
  finalValues : Option (List (String × Doc))

/-- What a call returns: an HTTP error, an exception that no handler maps, or a result. -/
inductive Answer where
  | http (status : ℕ) (detail : String)
  | raised (error message : String)
  | proposal (p : Proposal)
  | outcome (o : Outcome)

/-- What `apply_triage_decision` raises. -/
inductive Failure where
  | runtimeError (message : String)
  | keyError (key : String)
  | other (error message : String)

def triageRoles : List String :=
  ["admin", "manager", "service_desk_agent", "technician_l1", "technician_l2", "triage_desk"]

def Python.reprs (py : Python) (names : List String) : String :=
  "[" ++ ", ".intercalate (names.map py.repr) ++ "]"

/-- `_principal` and `_require_triage_role`. -/
def refusal (py : Python) (who : Principal) : Option Answer :=
  if who.tenantId = "" then some (.http 401 "missing x-tenant-id header")
  else if who.userId = "" then some (.http 401 "missing x-user-id header")
  else if who.role = "" then some (.http 401 "missing x-role header")
  else if who.role ∈ triageRoles then none
  else some (.http 403
    ("role " ++ py.repr who.role ++ " not permitted; need one of " ++ py.reprs triageRoles))

def missingUc5Fields (py : Python) (row : Ticket) (serviceId : ServiceId) : List Column :=
  (triageFieldsFor serviceId).filter fun c =>
    match row.fields c with
    | none => true
    | some v => v.toList.all py.isSpace

/-- Suggestions overridden by the technician's edits, both without their `None` values. -/
def mergeFinalValues (p : Proposal) (edits : List (String × Doc)) : Values := fun c =>
  if c ∈ writableFieldsFor p.serviceId then
    match edits.lookup c.name with
    | none => (p.suggested c).map .str
    | some .null => (p.suggested c).map .str
    | some v => some v
  else none

def slaDurationByPriority : List (String × ℤ) :=
  [("Low", 28800), ("Medium", 14400), ("High", 7200), ("Urgent", 1800)]

def defaultSlaDuration : ℤ := 28800

def computeSlaDue (priority : Doc) (now : ℤ) : Except Failure ℤ :=
  match priority with
  | .arr _ => .error (.other "TypeError" "unhashable type: 'list'")
  | .obj _ => .error (.other "TypeError" "unhashable type: 'dict'")
  | .str s => .ok (now + (slaDurationByPriority.lookup s).getD defaultSlaDuration)
  | _ => .ok (now + defaultSlaDuration)

/-- The parameters as the driver sends them: the columns are text and take only `str`. -/
def encode (serviceId : ServiceId) (v : Values) : Option (Column → Option String) :=
  let text : Doc → Option String
    | .str s => some s
    | _ => none
  if (writableFieldsFor serviceId).all fun c => (v c).all fun d => (text d).isSome then
    some fun c => (v c).bind text
  else none

/-- Whether the decision is applied in process or by the agent behind the bus; there the
route may have given up waiting. -/
inductive Route where
  | inProcess
  | nats (waiting : Bool)
  deriving DecidableEq, Repr

/-- A decide call that has read the cache and passed its checks. -/
structure Decision where
  proposal : Proposal
  proposalId : String
  choice : DecisionChoice
  actorUserId : String
  finalValues : Option (List (String × Doc))
  route : Route

def Decision.key (d : Decision) : TicketKey := d.proposal.key

/-- A call, by the await at which it stands. `lost` is a decision whose outcome came after
the route had given up. -/
inductive Call where
  | propose (who : Principal) (ticketId : String) (serviceId : ServiceId)
  | proposing (who : Principal) (ticketId : String) (serviceId : ServiceId)
  | decide (who : Principal) (payload : DecideRequest)
  | dispatched (d : Decision)
  | updating (d : Decision) (values : Values) (slaDue now : ℤ)
  | checking (d : Decision)
  | returning (d : Decision) (values : Values) (slaDue now : ℤ)
  | replying (d : Decision) (reply : Except Failure Outcome)
  | lost (d : Decision)
  | done (answer : Answer)

/-- The rows, the cache, and what has happened: the proposals issued, the UPDATEs that hit
and what `apply_triage_decision` returned, each in order. -/
structure World where
  tickets : TicketKey → Option Ticket
  proposalCache : String → Option Proposal
  issued : List Proposal
  writes : List TicketKey
  outcomes : List (Proposal × Outcome)

def World.evict (w : World) (proposalId : String) : World :=
  { w with proposalCache := Function.update w.proposalCache proposalId none }

def World.record (w : World) (p : Proposal) (o : Outcome) : World :=
  { w with outcomes := w.outcomes ++ [(p, o)] }

def answerInProcess : Failure → Answer
  | .runtimeError m => .http 409 m
  | .keyError _ => .http 404 "ticket not found"
  | .other e m => .raised e m

def answerOfAgent (py : Python) (f : Failure) : Answer :=
  let message :=
    match f with
    | .runtimeError m => m
    | .keyError k => py.repr k
    | .other _ m => m
  .http 409 ("agent error: " ++ String.ofList (message.toList.take 200))

def fail (d : Decision) (f : Failure) : Call :=
  match d.route with
  | .inProcess => .done (answerInProcess f)
  | .nats _ => .replying d (.error f)

def finish (w : World) (d : Decision) (o : Outcome) : World × Call :=
  match d.route with
  | .inProcess => ((w.record d.proposal o).evict d.proposalId, .done (.outcome o))
  | .nats _ => (w.record d.proposal o, .replying d (.ok o))

def discarded (d : Decision) (now : ℤ) : Outcome :=
  ⟨d.proposalId, d.proposal.ticketId, .discarded, d.actorUserId, now, none⟩

def applied (d : Decision) (values : Values) (slaDue now : ℤ) : Outcome :=
  ⟨d.proposalId, d.proposal.ticketId, .applied, d.actorUserId, now, some (values, slaDue)⟩

def applyTriageDecision (now : ℤ) (w : World) (d : Decision) : World × Call :=
  match d.choice with
  | .no => finish w d (discarded d now)
  | .yes =>
    let merged := mergeFinalValues d.proposal (d.finalValues.getD [])
    match merged .priority with
    | none => (w, fail d (.keyError "priority"))
    | some priority =>
      match computeSlaDue priority now with
      | .error f => (w, fail d f)
      | .ok due => (w, .updating d merged due now)

def Ticket.assign (row : Ticket) (texts : Column → Option String) (slaDue now : ℤ) : Ticket where
  fields c := (texts c).orElse fun _ => row.fields c
  status := some "assigned"
  slaDue := some slaDue
  updatedAt := some now

def storeApply (w : World) (d : Decision) (values : Values) (slaDue now : ℤ) : World × Call :=
  match encode d.proposal.serviceId values with
  | none => (w, fail d (.other "OneOpsError" "uc05.db_store: apply failed"))
  | some texts =>
    match w.tickets d.key with
    | none => (w, .checking d)
    | some row =>
      if row.fields .category = none then
        ({ w with
            tickets := Function.update w.tickets d.key (some (row.assign texts slaDue now))
            writes := w.writes ++ [d.key] },
          .returning d values slaDue now)
      else (w, .checking d)

def recheck (w : World) (d : Decision) : Call :=
  match w.tickets d.key with
  | none => fail d (.keyError d.proposal.ticketId)
  | some _ => fail d (.runtimeError (d.proposal.ticketId ++
      " already triaged (optimistic-lock conflict: category no longer NULL)"))

def notFound : Answer := .http 404 "proposal not found or expired"

def badKeys (serviceId : ServiceId) (finalValues : Option (List (String × Doc))) : List String :=
  ((finalValues.getD []).map Prod.fst).filter fun k =>
    k ∉ (triageFieldsFor serviceId).map Column.name

/-- `decide` up to its first await; `dispatcher` says whether the bus is wired. -/
def decideStep (py : Python) (dispatcher : Bool) (now : ℤ) (w : World) (who : Principal)
    (payload : DecideRequest) : World × Call :=
  match refusal py who with
  | some a => (w, .done a)
  | none =>
    match w.proposalCache payload.proposalId with
    | none => (w, .done notFound)
    | some proposal =>
      if proposal.tenantId ≠ who.tenantId then (w, .done notFound)
      else
        let bad := badKeys proposal.serviceId payload.finalValues
        if bad ≠ [] then
          (w, .done (.http 422 ("final_values contains non-triage fields: " ++ py.reprs bad)))
        else if 128 < who.userId.length then
          (w, .done (.raised "ValidationError" "actor_user_id"))
        else if dispatcher then
          (w, .dispatched ⟨proposal, payload.proposalId, payload.choice, who.userId,
            payload.finalValues, .nats true⟩)
        else
          applyTriageDecision now w ⟨proposal, payload.proposalId, payload.choice, who.userId,
            payload.finalValues, .inProcess⟩

def proposeStep (py : Python) (w : World) (who : Principal) (ticketId : String)
    (serviceId : ServiceId) : Call :=
  match refusal py who with
  | some a => .done a
  | none =>
    match w.tickets ⟨who.tenantId, serviceId, ticketId⟩ with
    | none => .done (.http 404 "ticket not found in this tenant")
    | some row =>
      if missingUc5Fields py row serviceId = [] then
        .done (.http 409 "ticket already fully triaged")
      else .proposing who ticketId serviceId

def replyStep (py : Python) (w : World) (d : Decision) (reply : Except Failure Outcome) :
    World × Call :=
  match reply with
  | .ok o =>
    if d.route = .nats false then (w, .lost d)
    else (w.evict d.proposalId, .done (.outcome o))
  | .error f => (w, .done (answerOfAgent py f))

def resume (py : Python) (dispatcher : Bool) (now : ℤ) (w : World) : Call → World × Call
  | .propose who ticketId serviceId => (w, proposeStep py w who ticketId serviceId)
  | .decide who payload => decideStep py dispatcher now w who payload
  | .dispatched d => applyTriageDecision now w d
  | .updating d values due at' => storeApply w d values due at'
  | .checking d => (w, recheck w d)
  | .returning d values due at' => finish w d (applied d values due at')
  | .replying d reply => replyStep py w d reply
  | c => (w, c)

/-- What was awaited raises instead. A reply that gets lost leaves the outcome standing. -/
def interrupt (error message : String) : Call → Call
  | .propose _ _ _ => .done (.raised error message)
  | .proposing _ _ _ => .done (.raised error message)
  | .dispatched _ => .done (.raised error message)
  | .updating d _ _ _ => fail d (.other error message)
  | .checking d => fail d (.other error message)
  | .returning d _ _ _ => fail d (.other error message)
  | .replying d (.ok _) => .lost d
  | .replying _ (.error _) => .done (.raised error message)
  | c => c

def Decision.giveUp (d : Decision) : Decision :=
  match d.route with
  | .inProcess => d
  | .nats _ => { d with route := .nats false }

def giveUp : Call → Call
  | .dispatched d => .dispatched d.giveUp
  | .updating d values due at' => .updating d.giveUp values due at'
  | .checking d => .checking d.giveUp
  | .returning d values due at' => .returning d.giveUp values due at'
  | .replying d reply => .replying d.giveUp reply
  | c => c

inductive Input where
  | resume (now : ℤ)
  | proposal (p : Proposal)
  | error (error message : String)
  | timeout

/-- Somebody outside triage rewrites, adds or removes a ticket. -/
structure Edit where
  key : TicketKey
  row : Option Ticket

def step (py : Python) (dispatcher : Bool) : Input → World → Call → World × Call
  | .resume now, w, c => resume py dispatcher now w c
  | .proposal p, w, .proposing _ _ _ =>
    ({ w with
        proposalCache := Function.update w.proposalCache p.proposalId (some p)
        issued := w.issued ++ [p] },
      .done (.proposal p))
  | .proposal _, w, c => (w, c)
  | .error e m, w, c => (w, interrupt e m c)
  | .timeout, w, c => (w, giveUp c)

def service (py : Python) (dispatcher : Bool) : Machine World Call Input Edit where
  step := step py dispatcher
  env e w := { w with tickets := Function.update w.tickets e.key e.row }

end TriageService
