import Mathlib.Data.List.DropRight
import Mathlib.Data.List.Sort
import Mathlib.Data.Rat.Defs
import OneOps.AuthzRules

/-! The similar-tickets tool: a source ticket or a described problem, the candidate query
over the stored embeddings, the re-rank and the response. Scores are numbers of any type
with the operations of floating point. The role decides which rows the candidate query may
return. -/
namespace SimilarTickets

/-- The characters that `str.strip` removes. -/
def isSpace (c : Char) : Bool :=
  c.toNat ∈ [0x9, 0xa, 0xb, 0xc, 0xd, 0x1c, 0x1d, 0x1e, 0x1f, 0x20, 0x85, 0xa0, 0x1680, 0x2000,
    0x2001, 0x2002, 0x2003, 0x2004, 0x2005, 0x2006, 0x2007, 0x2008, 0x2009, 0x200a, 0x2028,
    0x2029, 0x202f, 0x205f, 0x3000]

def strip (s : String) : String :=
  String.ofList ((s.toList.dropWhile isSpace).rdropWhile isSpace)

/-- `str.lower` and the digits of a regular expression, known on ASCII. -/
structure Text where
  lower : String → String
  isDigit : Char → Bool
  lower_ascii : ∀ s : String, (∀ c ∈ s.toList, c.toNat < 128) →
    lower s = String.ofList (s.toList.map Char.toLower)
  isDigit_ascii : ∀ c : Char, c.toNat < 128 → isDigit c = c.isDigit

/-- Python's `a or b` on strings. -/
def orText (a b : String) : String := if a = "" then b else a

inductive ServiceId where
  | incident
  | request
  deriving DecidableEq, Repr

def ServiceId.name : ServiceId → String
  | .incident => "incident"
  | .request => "request"

structure Ticket where
  tenantId : String
  serviceId : ServiceId
  id : String
  title : String
  description : Option String
  status : Option String
  priority : Option String
  category : Option String
  subcategory : Option String
  serviceName : Option String
  ciId : Option String
  assignedTo : Option String
  assignmentGroup : Option String
  openedAt : Option ℤ
  resolvedAt : Option ℤ
  reportedBy : Option String
  requestedBy : Option String
  requestedFor : Option String
  deriving DecidableEq, Repr

inductive ChunkType where
  | symptomAnchor
  | diagnosisTrail
  | other (name : String)
  deriving DecidableEq, Repr

structure Embedding (V : Type) where
  tenantId : String
  serviceId : ServiceId
  entityId : String
  chunkType : ChunkType
  embedding : V
  contentText : Option String

def Ticket.key (t : Ticket) : String × ServiceId × String := (t.tenantId, t.serviceId, t.id)

/-- The ticket tables with their primary key, and the embedding tables. -/
structure Db (V : Type) where
  tickets : List Ticket
  embeddings : List (Embedding V)
  keys : (tickets.map Ticket.key).Nodup

def Db.ticket {V : Type} (db : Db V) (tenantId : String) (serviceId : ServiceId) (id : String) :
    Option Ticket :=
  db.tickets.find? fun t => t.key = (tenantId, serviceId, id)

def Db.chunk {V : Type} (db : Db V) (tenantId : String) (serviceId : ServiceId) (id : String)
    (kind : ChunkType) : Option (Embedding V) :=
  db.embeddings.find? fun e =>
    (e.tenantId, e.serviceId, e.entityId) = (tenantId, serviceId, id) ∧ e.chunkType = kind

/-- A time window: the rows within it and how it is called. -/
structure TimeFilter where
  admits : Ticket → Bool
  label : Option String

inductive SimilarFlag where
  | likelyDuplicate
  | resolutionAvailable
  deriving DecidableEq, Repr

structure SimilarTicket (F : Type) where
  ticketId : String
  serviceId : ServiceId
  title : String
  status : String
  priority : Option String
  category : Option String
  subcategory : Option String
  serviceName : Option String
  ciId : Option String
  assignedTo : Option String
  assignmentGroup : Option String
  openedAt : Option ℤ
  resolvedAt : Option ℤ
  similarityScore : F
  matchPct : ℤ
  confidence : F
  whySimilar : List String
  discriminator : Option String
  flag : Option SimilarFlag

structure SimilarTicketsResponse (F : Type) where
  sourceTicketId : String
  serviceId : ServiceId
  tenantId : String
  results : List (SimilarTicket F)
  totalCandidatesConsidered : ℕ
  message : Option String
  warning : Option String
  sourceTicket : Option (SimilarTicket F)

/-- The tool's arguments; an absent text is empty. -/
structure Arguments (F : Type) where
  tenantId : String
  userId : String
  role : String
  ticketId : String
  serviceId : String
  queryText : String
  query : String
  userMessage : String
  maxResults : Option ℤ
  minSimilarityScore : Option F
  preferStatus : String
  sameCategoryOnly : Bool
  sameServiceOnly : Bool
  diagnosisConfirm : Bool
  timeFilter : Option TimeFilter

structure Context where
  tenantId : String
  userId : String
  role : String
  focusEntityId : String
  focusServiceId : String
  timeFilter : Option TimeFilter

structure Request (F : Type) where
  arguments : Arguments F
  context : Context

/-- What a call raises. -/
inductive Raised where
  | notFound (serviceId : ServiceId) (ticketId : String)
  | anchorMissing (serviceId : ServiceId) (ticketId tenantId : String)
  | noEmbeddingGateway
  | malformedEmbedding
  | attributeError
  | negativeLimit
  | valueError (message : String)
  deriving DecidableEq, Repr

inductive Payload (F : Type) where
  | answer (r : SimilarTicketsResponse F)
  | notice (displayText : String)

def Payload.rows {F : Type} : Payload F → List (SimilarTicket F)
  | .answer r => r.results ++ r.sourceTicket.toList
  | .notice _ => []

structure Card where
  ticketId : String
  title : String
  description : String

/-- The language model behind the gateway. `relevant` is `none` when the call fails. -/
structure Gateway (V : Type) where
  embed : String → Option V
  relevant : String → List Card → Option (List String)
  labels : String → String → List Card → List (String × String)

/-- Numbers and vectors as the process and the database compute with them, the tunables, the
gateway if one is wired, and the id normaliser of the router. -/
structure Env (F V : Type) where
  text : Text
  distance : V → V → F
  log : F → F
  days : ℤ → F
  percent : F → ℤ
  format : F → String
  overfetch : ℤ
  diagBoost : F
  diagThreshold : F
  recencyLambda : F
  limitedCtxChars : ℕ
  textMinScore : F
  gateway : Option (Gateway V)
  normalize : String → Except String (String × String)
  now : ℤ

section Core

variable {F V : Type} [Add F] [Sub F] [Mul F] [Div F] [LT F] [DecidableLT F] [OfScientific F]

/-- The roles that see only the tickets they reported. -/
def ownTicketRoles : List String := ["end_user", "requester", "requester_only"]

def defaultRbac (T : Text) (role userId : String) (serviceId : ServiceId) :
    Option (Ticket → Bool) :=
  if T.lower (strip role) ∈ ownTicketRoles then
    match serviceId with
    | .incident => some fun t => t.reportedBy = some userId
    | .request => some fun t => t.requestedBy = some userId
  else none

structure Search (F V : Type) where
  tenantId : String
  serviceId : ServiceId
  ticketId : String
  userId : String
  role : String
  maxResults : ℤ
  timeFilter : Option TimeFilter
  sameCategoryOnly : Bool
  sameServiceOnly : Bool
  preferStatus : String
  minSimilarityScore : F
  diagnosisConfirm : Bool

def serviceNameOf (t : Ticket) : Option String :=
  if t.serviceId = .incident then t.serviceName else none

def subcategoryOf (t : Ticket) : Option String :=
  if t.serviceId = .incident then t.subcategory else none

def given (s : Option String) : Bool := s.any fun v => v ≠ ""

def statusFilter (preferStatus : String) (t : Ticket) : Bool :=
  if preferStatus = "open" then
    t.status.any fun s => s ∈ ["open", "new", "in-progress", "in_progress", "assigned"]
  else if preferStatus = "resolved" then
    t.status.any fun s => s ∈ ["resolved", "closed", "fulfilled"]
  else true

/-- The predicates on the base row: scope, time window, status and access. `src` is the
source ticket of the id path. -/
def scope (E : Env F V) (q : Search F V) (src : Option Ticket) (t : Ticket) : Bool :=
  (src.all fun s => !(q.sameCategoryOnly && given s.category) || t.category = s.category) &&
  (src.all fun s => !(q.sameServiceOnly && given (serviceNameOf s)) ||
    serviceNameOf t = serviceNameOf s) &&
  (q.timeFilter.all fun f => f.admits t) &&
  statusFilter q.preferStatus t &&
  (defaultRbac E.text q.role q.userId q.serviceId).all fun p => p t

structure Candidate (F : Type) where
  ticket : Ticket
  distance : F

def joined (E : Env F V) (db : Db V) (q : Search F V) (src : Option Ticket) (anchor : V) :
    List (Candidate F) :=
  (db.embeddings.filter fun e => e.tenantId = q.tenantId ∧ e.serviceId = q.serviceId ∧
      e.chunkType = .symptomAnchor ∧ src.all fun s => e.entityId ≠ s.id).flatMap fun e =>
    (db.tickets.filter fun t => t.key = (e.tenantId, e.serviceId, e.entityId) ∧
      scope E q src t = true).map fun t => ⟨t, E.distance e.embedding anchor⟩

def limitOf (E : Env F V) (q : Search F V) : ℤ :=
  max (q.maxResults * E.overfetch) (q.maxResults + 5)

/-- `ORDER BY distance LIMIT n`; a negative limit is an error of the database. -/
def candidates (E : Env F V) (db : Db V) (q : Search F V) (src : Option Ticket) (anchor : V) :
    Except Raised (List (Candidate F)) :=
  if limitOf E q < 0 then .error .negativeLimit
  else .ok (((joined E db q src anchor).insertionSort fun a b => ¬ b.distance < a.distance).take
    (limitOf E q).toNat)

structure Scored (F : Type) where
  ticket : Ticket
  sem : F
  trust : F
  composite : F
  why : List String

def clamp (x : F) : F :=
  let y := if x < 1.0 then x else 1.0
  if 0.0 < y then y else 0.0

def agrees (f : Ticket → Option String) (src : Option Ticket) (t : Ticket) : Bool :=
  src.any fun s => given (f s) && f s = f t

def metadataSignal (src : Option Ticket) (t : Ticket) : F × List String :=
  let add (acc : F × List String) (hit : Bool) (w : F) (name : String) : F × List String :=
    if hit then (acc.1 + w, acc.2 ++ [name]) else acc
  let s := add (0.0, []) (agrees (·.ciId) src t) 0.45 "same_ci"
  let s := add s (agrees (·.category) src t) 0.25 "same_category"
  let s := add s (agrees serviceNameOf src t) 0.15 "same_service"
  let s := add s (agrees (·.assignmentGroup) src t) 0.15 "same_group"
  (if 1.0 < s.1 then 1.0 else s.1, s.2)

def recencyDecay (E : Env F V) (openedAt : Option ℤ) : F :=
  match openedAt with
  | none => 0.0
  | some at' =>
    let age := E.days (E.now - at')
    let age := if 0.0 < age then age else 0.0
    1.0 / (1.0 + E.recencyLambda * E.log (age + 1.0))

/-- How far metadata and recency count, by the semantic score. -/
def semTrust (sem : F) : F :=
  if ¬ sem < 0.75 then 1.0
  else if ¬ (0.45 : F) < sem then 0.0
  else (sem - 0.45) / (0.75 - 0.45)

def resolvedStatuses : List String := ["resolved", "closed", "fulfilled"]

/-- One row of the re-rank: dropped, kept, or an exception on a NULL status. -/
def rerankOne (E : Env F V) (src : Option Ticket) (minScore : F) (c : Candidate F) :
    Except Raised (Option (Scored F)) :=
  let sem := clamp ((1.0 : F) - c.distance)
  if sem < 0.10 then .ok none
  else
    let signal : F × List String := metadataSignal src c.ticket
    match c.ticket.status with
    | none => .error .attributeError
    | some status =>
      let why := if E.text.lower status ∈ resolvedStatuses then signal.2 ++ ["resolved"]
        else signal.2
      let trust := semTrust sem
      let composite := 0.60 * sem + 0.25 * signal.1 * trust +
        0.15 * recencyDecay E c.ticket.openedAt * trust
      if composite < minScore then .ok none
      else .ok (some ⟨c.ticket, sem, trust, composite, why⟩)

def rerankCandidates (E : Env F V) (src : Option Ticket) (minScore : F) :
    List (Candidate F) → Except Raised (List (Scored F))
  | [] => .ok []
  | c :: cs => do
    let kept ← rerankOne E src minScore c
    let rest ← rerankCandidates E src minScore cs
    pure (kept.toList ++ rest)

def sliceTo {α : Type} (xs : List α) (n : ℤ) : List α :=
  if 0 ≤ n then xs.take n.toNat else xs.take (xs.length - n.natAbs)

/-- The nudge for candidates of the first places whose diagnosis trail is near the
source's. -/
def confirmWithDiagnosis (E : Env F V) (db : Db V) (q : Search F V) (diag : V)
    (scored : List (Scored F)) : List (Scored F) :=
  let topIds := (sliceTo scored q.maxResults).map fun d => d.ticket.id
  let trails := db.embeddings.filter fun e => e.tenantId = q.tenantId ∧
    e.serviceId = q.serviceId ∧ e.chunkType = .diagnosisTrail ∧ e.entityId ∈ topIds
  scored.map fun d =>
    match trails.reverse.find? fun e => e.entityId = d.ticket.id with
    | none => d
    | some e =>
      if (1.0 : F) - E.distance e.embedding diag < E.diagThreshold then d
      else { d with
        composite := d.composite + E.diagBoost * d.trust
        why := d.why ++ ["diagnosis_match"] }

def sortByComposite (scored : List (Scored F)) : List (Scored F) :=
  scored.insertionSort fun a b => ¬ a.composite < b.composite

def card (d : Scored F) : Card := ⟨d.ticket.id, d.ticket.title, d.ticket.description.getD ""⟩

def filterRelevantText (E : Env F V) (queryText : String) (top : List (Scored F)) :
    List (Scored F) :=
  match E.gateway with
  | none => top
  | some g =>
    if top.length ≤ 1 then top
    else
      top.filter fun d => d.ticket.id ≠ "" ∧
        (g.relevant queryText (top.map card)).all fun keep => d.ticket.id ∈ keep.map strip

def labelDiscriminators (E : Env F V) (sourceTitle sourceDesc : String) (top : List (Scored F)) :
    List (String × String) :=
  match E.gateway with
  | none => []
  | some g => if top = [] then [] else g.labels sourceTitle sourceDesc (top.map card)

def flagFor (T : Text) (sem : F) (src : Option Ticket) (t : Ticket) : Option SimilarFlag :=
  let status := T.lower (t.status.getD "")
  if (0.90 : F) < sem ∧ agrees (·.ciId) src t = true ∧
      status ∈ ["open", "new", "in-progress", "in_progress"] then some .likelyDuplicate
  else if (0.85 : F) < sem ∧ status ∈ resolvedStatuses then some .resolutionAvailable
  else none

def resultRow (E : Env F V) (src : Option Ticket) (serviceId : ServiceId)
    (labels : List (String × String)) (d : Scored F) : SimilarTicket F where
  ticketId := d.ticket.id
  serviceId := serviceId
  title := d.ticket.title
  status := d.ticket.status.getD ""
  priority := d.ticket.priority
  category := d.ticket.category
  subcategory := subcategoryOf d.ticket
  serviceName := serviceNameOf d.ticket
  ciId := d.ticket.ciId
  assignedTo := d.ticket.assignedTo
  assignmentGroup := d.ticket.assignmentGroup
  openedAt := d.ticket.openedAt
  resolvedAt := d.ticket.resolvedAt
  similarityScore := clamp d.composite
  matchPct := E.percent (clamp d.composite)
  confidence := d.sem
  whySimilar := d.why
  discriminator := labels.lookup d.ticket.id
  flag := flagFor E.text d.sem src d.ticket

def sourceSnapshot (src : Ticket) (serviceId : ServiceId) : SimilarTicket F where
  ticketId := src.id
  serviceId := serviceId
  title := src.title
  status := src.status.getD ""
  priority := src.priority
  category := src.category
  subcategory := none
  serviceName := serviceNameOf src
  ciId := src.ciId
  assignedTo := src.assignedTo
  assignmentGroup := src.assignmentGroup
  openedAt := src.openedAt
  resolvedAt := none
  similarityScore := 1.0
  matchPct := 100
  confidence := 1.0
  whySimilar := []
  discriminator := none
  flag := none

def noResultsMessage (E : Env F V) (q : Search F V) (considered : ℕ) (msgRef : String) : String :=
  if considered ≠ 0 then
    "no candidates met the minimum similarity threshold (" ++ E.format q.minSimilarityScore ++ ")"
  else
    match q.timeFilter.bind fun f => f.label with
    | some label =>
      if label ≠ "" then
        "no tickets similar to " ++ msgRef ++ " were found within " ++ label ++
          " — try widening the time range"
      else "no significantly similar tickets found within the current scope"
    | none => "no significantly similar tickets found within the current scope"

def buildMessages (E : Env F V) (q : Search F V) (results : List (SimilarTicket F))
    (considered : ℕ) (msgRef : String) (limited : Bool) : Option String × Option String :=
  let low : Option String :=
    match results with
    | [] => none
    | r :: _ =>
      if r.similarityScore < 0.50 then
        some ("limited context — top similarity is low; consider broadening the scope or " ++
          "refining the source ticket text")
      else none
  let vague := "source ticket has limited descriptive content"
  (if results.isEmpty then some (noResultsMessage E q considered msgRef) else none,
    if limited then some (low.elim vague fun w => w ++ " | " ++ vague) else low)

/-- Stage 5, where the source has a diagnosis trail. -/
def confirmed (E : Env F V) (db : Db V) (q : Search F V) (diag : Option V)
    (scored : List (Scored F)) : List (Scored F) :=
  match diag with
  | none => scored
  | some v => confirmWithDiagnosis E db q v scored

/-- What both paths do with an anchor: query, re-rank, confirm and cut; a described problem
also filters. The count is that of the candidates considered. -/
def rank (E : Env F V) (db : Db V) (q : Search F V) (src : Option Ticket) (anchor : V)
    (diag : Option V) (text : Option String) : Except Raised (ℕ × List (Scored F)) := do
  let rows ← candidates E db q src anchor
  let scored ← rerankCandidates E src q.minSimilarityScore rows
  let top := sliceTo (sortByComposite (confirmed E db q diag scored)) q.maxResults
  pure (rows.length, text.elim top fun s => filterRelevantText E s top)

def findSimilarById (E : Env F V) (db : Db V) (q : Search F V) :
    Except Raised (SimilarTicketsResponse F) :=
  match db.ticket q.tenantId q.serviceId q.ticketId with
  | none => .error (.notFound q.serviceId q.ticketId)
  | some src =>
    match db.chunk q.tenantId q.serviceId q.ticketId .symptomAnchor with
    | none => .error (.anchorMissing q.serviceId q.ticketId q.tenantId)
    | some anchor =>
      let diag := if q.diagnosisConfirm then
          (db.chunk q.tenantId q.serviceId q.ticketId .diagnosisTrail).map Embedding.embedding
        else none
      let limited : Bool := (strip (anchor.contentText.getD "")).length < E.limitedCtxChars
      match rank E db q (some src) anchor.embedding diag none with
      | .error e => .error e
      | .ok (considered, top) =>
        let labels := labelDiscriminators E src.title (src.description.getD "") top
        let results := top.map (resultRow E (some src) q.serviceId labels)
        let (message, warning) := buildMessages E q results considered q.ticketId limited
        .ok ⟨q.ticketId, q.serviceId, q.tenantId, results, considered, message, warning,
          some (sourceSnapshot src q.serviceId)⟩

def findSimilarByText (E : Env F V) (db : Db V) (q : Search F V) (textQuery : String) :
    Except Raised (SimilarTicketsResponse F) :=
  match E.gateway with
  | none => .error .noEmbeddingGateway
  | some g =>
    match g.embed textQuery with
    | none => .error .malformedEmbedding
    | some anchor =>
      let limited : Bool := textQuery.length < E.limitedCtxChars
      match rank E db q none anchor none (some textQuery) with
      | .error e => .error e
      | .ok (considered, top) =>
        let title := String.ofList (textQuery.toList.take 200)
        let labels := labelDiscriminators E title "" top
        let results := top.map (resultRow E none q.serviceId labels)
        let (message, warning) := buildMessages E q results considered "your description" limited
        .ok ⟨q.ticketId, q.serviceId, q.tenantId, results, considered, message, warning, none⟩

def tenantOf (r : Request F) : String := strip (orText r.context.tenantId r.arguments.tenantId)

def userOf (r : Request F) : String := strip (orText r.context.userId r.arguments.userId)

def roleOf (r : Request F) : String := strip (orText r.context.role r.arguments.role)

def textQueryFrom (a : Arguments F) : String :=
  strip (orText a.queryText (orText a.query a.userMessage))

def maxResultsOf (a : Arguments F) : ℤ :=
  match a.maxResults with
  | none => 5
  | some n => if n = 0 then 5 else n

/-- The user and role that the search is made for: a missing role counts as an agent of the
service desk. -/
def searchUser (r : Request F) : String := orText (userOf r) "anonymous"

def searchRole (r : Request F) : String := orText (roleOf r) "service_desk_agent"

def timeFilterOf (r : Request F) : Option TimeFilter :=
  r.context.timeFilter <|> r.arguments.timeFilter

def servicesForText (serviceId : String) : List ServiceId :=
  if serviceId = "incident" then [.incident]
  else if serviceId = "request" then [.request]
  else [.incident, .request]

def textSearch (E : Env F V) (r : Request F) (service : ServiceId) : Search F V where
  tenantId := tenantOf r
  serviceId := service
  ticketId := ""
  userId := searchUser r
  role := searchRole r
  maxResults := maxResultsOf r.arguments
  timeFilter := timeFilterOf r
  sameCategoryOnly := false
  sameServiceOnly := false
  preferStatus := orText r.arguments.preferStatus "any"
  minSimilarityScore := r.arguments.minSimilarityScore.getD E.textMinScore
  diagnosisConfirm := false

def mergeTextResponses (r : Request F) (rs : List (SimilarTicketsResponse F)) :
    SimilarTicketsResponse F :=
  let merged := sliceTo ((rs.flatMap fun x => x.results).insertionSort fun a b =>
    ¬ a.similarityScore < b.similarityScore) (maxResultsOf r.arguments)
  { sourceTicketId := ""
    serviceId := merged.head?.elim .incident fun x => x.serviceId
    tenantId := tenantOf r
    results := merged
    totalCandidatesConsidered := (rs.map fun x => x.totalCandidatesConsidered).sum
    message := if merged.isEmpty then some "no significantly similar tickets found" else none
    warning := rs.findSome? fun x => x.warning
    sourceTicket := none }

def similarByText (E : Env F V) (db : Db V) (r : Request F) (serviceId : String) :
    Except Raised (SimilarTicketsResponse F) :=
  let queryText := textQueryFrom r.arguments
  if queryText = "" then
    .error (.valueError ("provide a ticket id (e.g. 'similar to INC0001234') or describe the " ++
      "problem to find similar tickets"))
  else
    match (servicesForText serviceId).mapM fun s =>
      findSimilarByText E db (textSearch E r s) queryText with
    | .error e => .error e
    | .ok rs => .ok (mergeTextResponses r rs)

/-- Why an id is not resolved. The first two are answered, the others are errors. -/
inductive ResolveError where
  | serviceUnknown (hint : String)
  | serviceUnsupported (serviceId : String)
  | idRequired
  | ambiguous
  | unparsed (reason : String)
  | contradicts (hint entityId inferred : String)
  deriving DecidableEq, Repr

def serviceOf (name : String) : Option ServiceId :=
  if name = "incident" then some .incident
  else if name = "request" then some .request
  else none

def zeroPad (body : String) : String :=
  String.ofList (List.replicate (7 - body.length) '0' ++ body.toList)

def isBareDigits (T : Text) (s : String) : Bool :=
  0 < s.length && s.length ≤ 32 && s.toList.all T.isDigit

def resolveNormalised (E : Env F V) (s : String) (hint : Option ServiceId) :
    Except ResolveError (String × ServiceId) :=
  match E.normalize s with
  | .error reason => .error (.unparsed (orText reason "could not parse ticket_id"))
  | .ok (entityId, service) =>
    match serviceOf service with
    | none => .error (.serviceUnsupported service)
    | some serviceId =>
      if hint.all fun h => h = serviceId then .ok (entityId, serviceId)
      else .error (.contradicts (hint.elim "" ServiceId.name) entityId service)

def resolve (E : Env F V) (rawId serviceHint : String) : Except ResolveError (String × ServiceId) :=
  let s := strip rawId
  let hint := E.text.lower (strip serviceHint)
  if s = "" then .error .idRequired
  else if hint ≠ "" ∧ serviceOf hint = none then .error (.serviceUnknown hint)
  else if isBareDigits E.text s then
    match serviceOf hint with
    | none => .error .ambiguous
    | some .incident => .ok ("INC" ++ zeroPad s, .incident)
    | some .request => .ok ("REQ" ++ zeroPad s, .request)
  else resolveNormalised E s (serviceOf hint)

def boundaryMsg : String :=
  "I can only find similar tickets for incidents and requests. The current " ++
  "focus is a different record type — try asking about an incident (INC…) " ++
  "or request (REQ…) instead."

def resolveBoundaryResponse : ResolveError → Except Raised (Payload F)
  | .serviceUnknown _ => .ok (.notice boundaryMsg)
  | .serviceUnsupported _ => .ok (.notice boundaryMsg)
  | .idRequired => .error (.valueError "ticket_id is required")
  | .ambiguous => .error (.valueError ("bare ticket number without service_id is ambiguous — " ++
      "provide service_id ('incident' or 'request'), or include the " ++
      "prefix (e.g. INC0001234, REQ0001234)"))
  | .unparsed reason => .error (.valueError reason)
  | .contradicts hint entityId inferred =>
    .error (.valueError ("service_id='" ++ hint ++ "' contradicts the prefix in '" ++ entityId ++
      "' (service inferred: '" ++ inferred ++ "')"))

def findSimilarErrorResponse (r : Request F) (ticketId : String) :
    Raised → Except Raised (Payload F)
  | .notFound _ _ =>
    .ok (.notice ("Ticket " ++ ticketId ++ " not found in tenant " ++ tenantOf r ++ "."))
  | .anchorMissing _ _ _ =>
    .ok (.notice ("Embedding for " ++ ticketId ++
      " is still being computed — please try again in a moment."))
  | e => .error e

def idSearch (r : Request F) (entityId : String) (service : ServiceId) : Search F V where
  tenantId := tenantOf r
  serviceId := service
  ticketId := entityId
  userId := searchUser r
  role := searchRole r
  maxResults := maxResultsOf r.arguments
  timeFilter := timeFilterOf r
  sameCategoryOnly := r.arguments.sameCategoryOnly
  sameServiceOnly := r.arguments.sameServiceOnly
  preferStatus := orText r.arguments.preferStatus "any"
  minSimilarityScore := r.arguments.minSimilarityScore.getD 0.5
  diagnosisConfirm := r.arguments.diagnosisConfirm

def similarById (E : Env F V) (db : Db V) (r : Request F) (rawId serviceHint : String) :
    Except Raised (Payload F) :=
  match resolve E rawId serviceHint with
  | .error e => resolveBoundaryResponse e
  | .ok (entityId, service) =>
    match findSimilarById E db (idSearch r entityId service) with
    | .ok resp => .ok (.answer resp)
    | .error e => findSimilarErrorResponse r entityId e

def explicitTicket (r : Request F) : String := strip r.arguments.ticketId

def focusTicket (r : Request F) : String := strip r.context.focusEntityId

def explicitService (T : Text) (r : Request F) : String := T.lower (strip r.arguments.serviceId)

def focusService (T : Text) (r : Request F) : String := T.lower (strip r.context.focusServiceId)

/-- `find_similar_entities`. A carried focus gives way to the message's own text, unless
that finds nothing. -/
def findSimilarEntities (E : Env F V) (db : Db V) (r : Request F) : Except Raised (Payload F) :=
  if tenantOf r = "" then
    .error (.valueError "tenant_id missing from context and arguments")
  else if explicitTicket r ≠ "" then
    similarById E db r (explicitTicket r)
      (orText (explicitService E.text r) (focusService E.text r))
  else if focusTicket r = "" then
    (similarByText E db r (explicitService E.text r)).map .answer
  else if textQueryFrom r.arguments = "" then
    similarById E db r (focusTicket r) (focusService E.text r)
  else
    match similarByText E db r (explicitService E.text r) with
    | .error e => .error e
    | .ok resp =>
      if resp.results = [] then similarById E db r (focusTicket r) (focusService E.text r)
      else .ok (.answer resp)

end Core

end SimilarTickets
