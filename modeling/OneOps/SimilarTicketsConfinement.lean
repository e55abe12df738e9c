import Mathlib.Data.Finset.Lattice.Basic
import Mathlib.Tactic.NormNum
import OneOps.ExceptLoops
import OneOps.SimilarTickets

/-! A caller who may only read his own tickets. The candidate query confines its rows for
three role names; the registry knows other restricted roles, a missing role becomes that of
a service-desk agent, and the echoed source ticket is not looked at. -/
namespace SimilarTicketsConfinement

open SimilarTickets
open AuthzRules (Roles permissionsFor adminPermission broadRead)

def agentPermissions : Finset String := {"read:all_tickets", "write:ticket", "create:ticket"}

def rolePermissions : Roles :=
  [("viewer", {"read:own_tickets"}),
    ("employee", {"read:own_tickets", "create:ticket"}),
    ("service_desk_agent", agentPermissions),
    ("technician_l1", agentPermissions),
    ("technician_l2", agentPermissions),
    ("triage_desk", agentPermissions),
    ("network_engineer", agentPermissions),
    ("database_admin", agentPermissions),
    ("application_support", agentPermissions),
    ("change_manager", agentPermissions ∪ {"approve:change"}),
    ("problem_manager", agentPermissions),
    ("security_engineer", agentPermissions),
    ("cloud_engineer", agentPermissions),
    ("cmdb_admin", agentPermissions ∪ {"write:cmdb"}),
    ("asset_manager", agentPermissions ∪ {"write:asset"}),
    ("knowledge_manager", agentPermissions ∪ {"write:kb"}),
    ("it_director", agentPermissions ∪
      {"approve:change", "write:cmdb", "write:asset", "write:kb", "admin"}),
    ("manager", {"read:all_tickets", "read:kb"}),
    ("end_user", {"read:own_tickets", "create:ticket"})]

def Restricted (role : String) : Prop :=
  broadRead ∉ permissionsFor rolePermissions role ∧
    adminPermission ∉ permissionsFor rolePermissions role

instance (role : String) : Decidable (Restricted role) := inferInstanceAs (Decidable (_ ∧ _))

def Recognised (T : Text) (role : String) : Prop := T.lower (strip role) ∈ ownTicketRoles

instance (T : Text) (role : String) : Decidable (Recognised T role) :=
  inferInstanceAs (Decidable (_ ∈ _))

def Own (userId : String) (t : Ticket) : Prop :=
  match t.serviceId with
  | .incident => t.reportedBy = some userId
  | .request => t.requestedBy = some userId ∨ t.requestedFor = some userId

section Rows

variable {F V : Type} {E : Env F V} {db : Db V} {q : Search F V}

def Belongs (db : Db V) (tenantId userId : String) (row : SimilarTicket F) : Prop :=
  ∃ t ∈ db.tickets, t.key = (tenantId, row.serviceId, row.ticketId) ∧ Own userId t

/-- A ticket that the candidate query may return. -/
structure Listed (E : Env F V) (db : Db V) (q : Search F V) (t : Ticket) : Prop where
  stored : t ∈ db.tickets
  tenant : t.tenantId = q.tenantId
  service : t.serviceId = q.serviceId
  allowed : (defaultRbac E.text q.role q.userId q.serviceId).all (fun p => p t) = true

theorem joined_listed {src : Option Ticket} {anchor : V} {c : Candidate F}
    (h : c ∈ joined E db q src anchor) : Listed E db q c.ticket := by
  simp only [joined, List.mem_flatMap, List.mem_filter, List.mem_map, decide_eq_true_eq] at h
  obtain ⟨e, ⟨-, htenant, hservice, -⟩, t, ⟨hmem, hkey, hscope⟩, rfl⟩ := h
  have ht : t.tenantId = e.tenantId := congrArg Prod.fst hkey
  have hs : t.serviceId = e.serviceId := congrArg (fun k => k.2.1) hkey
  unfold scope at hscope
  rw [Bool.and_eq_true] at hscope
  exact ⟨hmem, ht.trans htenant, hs.trans hservice, hscope.2⟩

theorem Listed.own {t : Ticket} (hrole : Recognised E.text q.role) (h : Listed E db q t) :
    Own q.userId t := by
  have hallowed := h.allowed
  unfold defaultRbac at hallowed
  rw [if_pos (show E.text.lower (strip q.role) ∈ ownTicketRoles from hrole)] at hallowed
  unfold Own
  rw [h.service]
  cases hs : q.serviceId with
  | incident =>
    rw [hs] at hallowed
    simpa using hallowed
  | request =>
    rw [hs] at hallowed
    exact .inl (by simpa using hallowed)

theorem Listed.belongs {t : Ticket} {row : SimilarTicket F} (h : Listed E db q t)
    (hid : row.ticketId = t.id) (hs : row.serviceId = q.serviceId) (ho : Own q.userId t) :
    Belongs db q.tenantId q.userId row := by
  refine ⟨t, h.stored, ?_, ho⟩
  unfold Ticket.key
  rw [h.tenant, h.service, hid, hs]

theorem mem_of_mem_sliceTo {α : Type} {xs : List α} {n : ℤ} {x : α} (h : x ∈ sliceTo xs n) :
    x ∈ xs := by
  unfold sliceTo at h
  split at h
  · exact List.mem_of_mem_take h
  · exact List.mem_of_mem_take h

theorem mem_of_mem_filterRelevantText {s : String} {top : List (Scored F)} {d : Scored F}
    (h : d ∈ filterRelevantText E s top) : d ∈ top := by
  unfold filterRelevantText at h
  split at h
  · exact h
  · split at h
    · exact h
    · exact (List.mem_filter.mp h).1

theorem candidates_listed [LT F] [DecidableLT F] {src : Option Ticket} {anchor : V}
    {rows : List (Candidate F)} (h : candidates E db q src anchor = .ok rows) :
    ∀ c ∈ rows, Listed E db q c.ticket := by
  unfold candidates at h
  split at h
  · cases h
  · cases h
    intro c hc
    exact joined_listed ((List.mem_insertionSort _).mp (List.mem_of_mem_take hc))

theorem textSearch_caller (E : Env F V) (r : Request F) (service : ServiceId) :
    (textSearch E r service).tenantId = tenantOf r ∧
      (textSearch E r service).userId = searchUser r ∧
      (textSearch E r service).role = searchRole r := by
  simp only [textSearch, and_self]

theorem idSearch_caller [OfScientific F] (r : Request F) (id : String) (service : ServiceId) :
    (idSearch r id service : Search F V).tenantId = tenantOf r ∧
      (idSearch r id service : Search F V).userId = searchUser r ∧
      (idSearch r id service : Search F V).role = searchRole r := by
  simp only [idSearch, and_self]

theorem rows_resolveBoundaryResponse {e : ResolveError} {payload : Payload F}
    (h : resolveBoundaryResponse e = .ok payload) : payload.rows = [] := by
  unfold resolveBoundaryResponse at h
  split at h
  · rw [← Except.ok.inj h]
    rfl
  · rw [← Except.ok.inj h]
    rfl
  all_goals cases h

theorem rows_findSimilarErrorResponse {r : Request F} {id : String} {e : Raised}
    {payload : Payload F} (h : findSimilarErrorResponse r id e = .ok payload) :
    payload.rows = [] := by
  unfold findSimilarErrorResponse at h
  split at h
  · rw [← Except.ok.inj h]
    rfl
  · rw [← Except.ok.inj h]
    rfl
  · cases h

end Rows

section Stages

variable {F V : Type} [Add F] [Sub F] [Mul F] [Div F] [LT F] [DecidableLT F] [OfScientific F]
variable {E : Env F V} {db : Db V} {q : Search F V} {r : Request F}

/-- Every ticket row of the response, the echoed source included, is the caller's own. -/
def Confined (E : Env F V) (db : Db V) (r : Request F) : Prop :=
  ∀ payload, findSimilarEntities E db r = .ok payload →
    ∀ row ∈ payload.rows, Belongs db (tenantOf r) (searchUser r) row

/-- The ticket whose row the tool would echo: the one named, or the carried focus where the
message has no text or its text finds nothing. -/
def sourceOf (E : Env F V) (db : Db V) (r : Request F) : Option (String × ServiceId) :=
  let focus := (resolve E (focusTicket r) (focusService E.text r)).toOption
  if explicitTicket r ≠ "" then
    (resolve E (explicitTicket r)
      (orText (explicitService E.text r) (focusService E.text r))).toOption
  else if focusTicket r = "" then none
  else if textQueryFrom r.arguments = "" then focus
  else
    match similarByText E db r (explicitService E.text r) with
    | .error _ => none
    | .ok resp => if resp.results = [] then focus else none

def SourceOwn (E : Env F V) (db : Db V) (r : Request F) : Prop :=
  ∀ id service, sourceOf E db r = some (id, service) →
    ∀ t ∈ db.tickets, t.key = (tenantOf r, service, id) → Own (searchUser r) t

def Echoes (E : Env F V) (db : Db V) (r : Request F) : Prop :=
  ∃ resp, findSimilarEntities E db r = .ok (.answer resp) ∧ resp.sourceTicket ≠ none

theorem rerankOne_ticket {src : Option Ticket} {m : F} {c : Candidate F} {d : Scored F}
    (h : rerankOne E src m c = .ok (some d)) : d.ticket = c.ticket := by
  unfold rerankOne at h
  dsimp only at h
  split at h
  · cases h
  · split at h
    · cases h
    · split at h
      · cases h
      · cases h
        rfl

theorem rerank_ticket {src : Option Ticket} {m : F} {rows : List (Candidate F)}
    {scored : List (Scored F)} (h : rerankCandidates E src m rows = .ok scored) :
    ∀ d ∈ scored, ∃ c ∈ rows, d.ticket = c.ticket := by
  induction rows generalizing scored with
  | nil =>
    cases h
    intro d hd
    cases hd
  | cons c cs ih =>
    simp only [rerankCandidates, bind, Except.bind] at h
    split at h
    · cases h
    · next kept hkept =>
      split at h
      · cases h
      · next rest hrest =>
        cases h
        intro d hd
        rcases List.mem_append.mp hd with hd | hd
        · have hk : kept = some d := Option.mem_toList.mp hd
          exact ⟨c, List.mem_cons_self, rerankOne_ticket (hk ▸ hkept)⟩
        · obtain ⟨c', hc', heq⟩ := ih hrest d hd
          exact ⟨c', List.mem_cons_of_mem c hc', heq⟩

omit [Div F] in
theorem confirm_ticket {diag : V} {scored : List (Scored F)} :
    ∀ d ∈ confirmWithDiagnosis E db q diag scored, ∃ d' ∈ scored, d.ticket = d'.ticket := by
  intro d hd
  simp only [confirmWithDiagnosis, List.mem_map] at hd
  obtain ⟨d', hd', rfl⟩ := hd
  refine ⟨d', hd', ?_⟩
  split
  · rfl
  · split <;> rfl

theorem rank_listed {src : Option Ticket} {anchor : V} {diag : Option V} {text : Option String}
    {n : ℕ} {top : List (Scored F)} (h : rank E db q src anchor diag text = .ok (n, top)) :
    ∀ d ∈ top, Listed E db q d.ticket := by
  simp only [rank, bind, Except.bind] at h
  split at h
  · cases h
  · next rows hrows =>
    split at h
    · cases h
    · next scored hscored =>
      cases h
      have hlisted : ∀ d ∈ scored, Listed E db q d.ticket := by
        intro d hd
        obtain ⟨c, hc, heq⟩ := rerank_ticket hscored d hd
        rw [heq]
        exact candidates_listed hrows c hc
      have hconfirmed : ∀ d ∈ confirmed E db q diag scored, Listed E db q d.ticket := by
        cases diag with
        | none => exact hlisted
        | some v =>
          intro d hd
          obtain ⟨d', hd', heq⟩ := confirm_ticket d hd
          rw [heq]
          exact hlisted d' hd'
      intro d hd
      have htop : d ∈ sliceTo (sortByComposite (confirmed E db q diag scored)) q.maxResults := by
        cases text with
        | none => exact hd
        | some s => exact mem_of_mem_filterRelevantText hd
      exact hconfirmed d ((List.mem_insertionSort _).mp (mem_of_mem_sliceTo htop))

theorem rank_belongs {src : Option Ticket} {anchor : V} {diag : Option V} {text : Option String}
    {n : ℕ} {top : List (Scored F)} {labels : List (String × String)}
    (hrole : Recognised E.text q.role)
    (h : rank E db q src anchor diag text = .ok (n, top)) :
    ∀ row ∈ top.map (resultRow E src q.serviceId labels), Belongs db q.tenantId q.userId row := by
  intro row hrow
  obtain ⟨d, hd, rfl⟩ := List.mem_map.mp hrow
  have hlisted := rank_listed h d hd
  exact hlisted.belongs rfl rfl (hlisted.own hrole)

/-- What a search by id returns: rows of the query, and the source ticket as it is. -/
theorem findSimilarById_ok {resp : SimilarTicketsResponse F}
    (h : findSimilarById E db q = .ok resp) :
    ∃ src, db.ticket q.tenantId q.serviceId q.ticketId = some src ∧
      resp.sourceTicket = some (sourceSnapshot src q.serviceId) ∧
      (Recognised E.text q.role →
        ∀ row ∈ resp.results, Belongs db q.tenantId q.userId row) := by
  unfold findSimilarById at h
  split at h
  · cases h
  · next src hsrc =>
    split at h
    · cases h
    · dsimp only at h
      split at h
      · cases h
      · next n top hrank =>
        cases h
        exact ⟨src, hsrc, rfl, fun hrole => rank_belongs hrole hrank⟩

theorem findSimilarByText_ok {text : String} {resp : SimilarTicketsResponse F}
    (hrole : Recognised E.text q.role)
    (h : findSimilarByText E db q text = .ok resp) :
    ∀ row ∈ resp.results, Belongs db q.tenantId q.userId row := by
  unfold findSimilarByText at h
  split at h
  · cases h
  · split at h
    · cases h
    · dsimp only at h
      split at h
      · cases h
      · next n top hrank =>
        cases h
        exact rank_belongs hrole hrank

theorem similarByText_ok {serviceId : String} {resp : SimilarTicketsResponse F}
    (h : similarByText E db r serviceId = .ok resp) :
    resp.sourceTicket = none ∧ (Recognised E.text (searchRole r) →
      ∀ row ∈ resp.results, Belongs db (tenantOf r) (searchUser r) row) := by
  unfold similarByText at h
  dsimp only at h
  split at h
  · cases h
  · split at h
    · cases h
    · next rs hrs =>
      cases h
      refine ⟨rfl, fun hrole row hrow => ?_⟩
      have hmem := (List.mem_insertionSort _).mp (mem_of_mem_sliceTo hrow)
      obtain ⟨x, hx, hrow'⟩ := List.mem_flatMap.mp hmem
      obtain ⟨s, -, hs⟩ := ExceptLoops.mem_of_mapM hrs x hx
      obtain ⟨ht, hu, ho⟩ := textSearch_caller E r s
      rw [← ht, ← hu]
      exact findSimilarByText_ok (ho ▸ hrole) hs row hrow'

theorem similarById_answer {rawId hint : String} {payload : Payload F}
    (h : similarById E db r rawId hint = .ok payload) :
    payload.rows = [] ∨ ∃ id service src resp, payload = .answer resp ∧
      resolve E rawId hint = .ok (id, service) ∧
      db.ticket (tenantOf r) service id = some src ∧
      resp.sourceTicket = some (sourceSnapshot src service) ∧
      (Recognised E.text (searchRole r) →
        ∀ row ∈ resp.results, Belongs db (tenantOf r) (searchUser r) row) := by
  unfold similarById at h
  split at h
  · exact .inl (rows_resolveBoundaryResponse h)
  · next id service hres =>
    split at h
    · next resp hresp =>
      cases h
      obtain ⟨src, hsrc, hecho, hown⟩ := findSimilarById_ok hresp
      obtain ⟨ht, hu, ho⟩ := idSearch_caller (V := V) r id service
      rw [ht, hu, ho] at hown
      rw [ht] at hsrc
      exact .inr ⟨id, service, src, resp, rfl, hres, hsrc, hecho, hown⟩
    · exact .inl (rows_findSimilarErrorResponse h)

/-- An answer comes from the described problem, or from the ticket that `sourceOf` names. -/
theorem findSimilarEntities_ok {payload : Payload F}
    (h : findSimilarEntities E db r = .ok payload) :
    (∃ resp serviceId, payload = .answer resp ∧ similarByText E db r serviceId = .ok resp) ∨
    ∃ rawId hint, similarById E db r rawId hint = .ok payload ∧
      sourceOf E db r = (resolve E rawId hint).toOption := by
  unfold findSimilarEntities at h
  unfold sourceOf
  split at h
  · cases h
  · split at h
    · next hexplicit =>
      exact .inr ⟨_, _, h, if_pos hexplicit⟩
    · next hexplicit =>
      dsimp only
      rw [if_neg hexplicit]
      split at h
      · left
        cases hby : similarByText E db r (explicitService E.text r) with
        | error e =>
          rw [hby] at h
          cases h
        | ok resp =>
          rw [hby] at h
          exact ⟨resp, _, (Except.ok.inj h).symm, hby⟩
      · next hfocus =>
        rw [if_neg hfocus]
        split at h
        · next htext => exact .inr ⟨_, _, h, if_pos htext⟩
        · next htext =>
          rw [if_neg htext]
          cases hby : similarByText E db r (explicitService E.text r) with
          | error e =>
            rw [hby] at h
            cases h
          | ok resp =>
            rw [hby] at h
            dsimp only at h ⊢
            split at h
            · next hempty => exact .inr ⟨_, _, h, if_pos hempty⟩
            · exact .inl ⟨resp, _, (Except.ok.inj h).symm, hby⟩

theorem ticket_spec {tenantId id : String} {service : ServiceId} {t : Ticket}
    (h : db.ticket tenantId service id = some t) :
    t ∈ db.tickets ∧ t.key = (tenantId, service, id) :=
  ⟨List.mem_of_find?_eq_some h, by simpa using List.find?_some h⟩

/-- For a recognised role, all rows are the caller's own once the source ticket is. -/
theorem confined_of_sourceOwn (hrole : Recognised E.text (searchRole r))
    (hsource : SourceOwn E db r) : Confined E db r := by
  intro payload h row hrow
  rcases findSimilarEntities_ok h with ⟨resp, serviceId, rfl, hby⟩ | ⟨rawId, hint, hid, hsrc⟩
  · obtain ⟨hnone, hown⟩ := similarByText_ok hby
    simp only [Payload.rows, hnone, Option.toList_none, List.append_nil] at hrow
    exact hown hrole row hrow
  · rcases similarById_answer hid with
      hempty | ⟨id, service, src, resp, rfl, hres, hstored, hecho, hown⟩
    · rw [hempty] at hrow
      cases hrow
    · simp only [Payload.rows, hecho, Option.toList_some, List.mem_append,
        List.mem_singleton] at hrow
      rcases hrow with hrow | rfl
      · exact hown hrole row hrow
      · obtain ⟨hmem, hkey⟩ := ticket_spec hstored
        have hnamed : sourceOf E db r = some (id, service) := by
          rw [hsrc, hres]
          rfl
        have hsid : src.id = id := congrArg (fun k => k.2.2) hkey
        refine ⟨src, hmem, ?_, hsource id service hnamed src hmem hkey⟩
        rw [hkey, ← hsid]
        rfl

/-- A source ticket that is echoed has to be the caller's own, whatever his role. -/
theorem sourceOwn_of_confined (hecho : Echoes E db r) (hc : Confined E db r) :
    SourceOwn E db r := by
  obtain ⟨resp, hresp, hsome⟩ := hecho
  intro id service hnamed t ht htkey
  rcases findSimilarEntities_ok hresp with ⟨resp', serviceId, hsame, hby⟩ | ⟨rawId, hint, hid, hsrc⟩
  · cases hsame
    exact absurd (similarByText_ok hby).1 hsome
  · rcases similarById_answer hid with
      hempty | ⟨id', service', src, resp', hsame, hres, hstored, hsnap, -⟩
    · simp only [Payload.rows, List.append_eq_nil_iff, Option.toList_eq_nil_iff] at hempty
      exact absurd hempty.2 hsome
    · cases hsame
      rw [hsrc, hres] at hnamed
      cases hnamed
      obtain ⟨hmem, hkey⟩ := ticket_spec hstored
      have hrow : sourceSnapshot src service ∈ (Payload.answer resp : Payload F).rows := by
        simp [Payload.rows, hsnap]
      obtain ⟨t', ht', hkey', hown⟩ := hc _ hresp _ hrow
      have hsid : src.id = id := congrArg (fun k => k.2.2) hkey
      have hsame : t = t' := by
        refine List.inj_on_of_nodup_map db.keys ht ht' (htkey.trans (Eq.trans ?_ hkey'.symm))
        rw [← hsid]
        rfl
      rw [hsame]
      exact hown

end Stages

def nearEnv (T : Text) : Env ℚ ℕ where
  text := T
  distance _ _ := 0
  log _ := 0
  days _ := 0
  percent x := (x * 100).floor
  format _ := ""
  overfetch := 3
  diagBoost := 0.05
  diagThreshold := 0.70
  recencyLambda := 0.10
  limitedCtxChars := 40
  textMinScore := 0.20
  gateway := none
  normalize _ := .error ""
  now := 0

def incidentOf (tenantId id : String) (reportedBy : Option String) : Ticket where
  tenantId := tenantId
  serviceId := .incident
  id := id
  title := "VPN tunnel drops"
  description := none
  status := some "open"
  priority := none
  category := none
  subcategory := none
  serviceName := none
  ciId := none
  assignedTo := none
  assignmentGroup := none
  openedAt := none
  resolvedAt := none
  reportedBy := reportedBy
  requestedBy := none
  requestedFor := none

def anchorOf (tenantId id : String) : Embedding ℕ :=
  ⟨tenantId, .incident, id, .symptomAnchor, 0, none⟩

@[simp] theorem incidentOf_key (tenantId id : String) (reportedBy : Option String) :
    (incidentOf tenantId id reportedBy).key = (tenantId, .incident, id) := rfl

@[simp] theorem incidentOf_id (tenantId id : String) (reportedBy : Option String) :
    (incidentOf tenantId id reportedBy).id = id := rfl

@[simp] theorem nearEnv_text (T : Text) : (nearEnv T).text = T := rfl

@[simp] theorem nearEnv_distance (T : Text) (v v' : ℕ) : (nearEnv T).distance v v' = 0 := rfl

theorem twoIncidents_keys (tenantId : String) (first second : Option String) :
    ([incidentOf tenantId "INC0000001" first, incidentOf tenantId "INC0000002" second].map
      Ticket.key).Nodup := by
  simp

def twoIncidents (tenantId : String) (first second : Option String) : Db ℕ where
  tickets := [incidentOf tenantId "INC0000001" first, incidentOf tenantId "INC0000002" second]
  embeddings := [anchorOf tenantId "INC0000001", anchorOf tenantId "INC0000002"]
  keys := twoIncidents_keys tenantId first second

def probe (caller : Request ℚ) : Request ℚ where
  arguments := { caller.arguments with
    ticketId := "1"
    serviceId := "incident"
    maxResults := none
    minSimilarityScore := some 0
    preferStatus := ""
    sameCategoryOnly := false
    sameServiceOnly := false
    diagnosisConfirm := false
    timeFilter := none }
  context := { caller.context with timeFilter := none }

structure SameCaller (r r' : Request ℚ) : Prop where
  tenant : tenantOf r' = tenantOf r
  user : userOf r' = userOf r
  role : roleOf r' = roleOf r

theorem probe_sameCaller (caller : Request ℚ) : SameCaller caller (probe caller) := by
  constructor
  · simp only [tenantOf, probe]
  · simp only [userOf, probe]
  · simp only [roleOf, probe]

section Probe

variable {T : Text} {tenantId : String} {first second : Option String} {q : Search ℚ ℕ}

theorem lower_incident (T : Text) : T.lower "incident" = "incident" := by
  rw [T.lower_ascii "incident" (by simp)]
  decide

theorem resolve_one (T : Text) (hint : String) :
    resolve (nearEnv T) "1" (orText (T.lower (strip "incident")) hint) =
      .ok ("INC0000001", .incident) := by
  have hone : strip "1" = "1" := by decide
  have hinc : strip "incident" = "incident" := by decide
  have hor : orText "incident" hint = "incident" := by simp [orText]
  have hdigit : T.isDigit '1' = true := T.isDigit_ascii '1' (by decide)
  have hlist : "1".toList = ['1'] := by decide
  have hbare : isBareDigits T "1" = true := by
    rw [isBareDigits, hlist, List.all_cons, hdigit, List.all_nil]
    decide
  have hpad : "INC" ++ zeroPad "1" = "INC0000001" := by decide
  simp [resolve, nearEnv, hinc, lower_incident, hor, hone, hbare, serviceOf, hpad]

theorem joined_two (hr : ¬ Recognised T q.role) (ht : q.tenantId = tenantId)
    (hs : q.serviceId = .incident) (hf : q.timeFilter = none) (hp : q.preferStatus = "any")
    (hc : q.sameCategoryOnly = false) (hn : q.sameServiceOnly = false) :
    joined (nearEnv T) (twoIncidents tenantId first second) q
      (some (incidentOf tenantId "INC0000001" first)) 0 =
    [⟨incidentOf tenantId "INC0000002" second, 0⟩] := by
  have hrbac : defaultRbac T q.role q.userId q.serviceId = none := if_neg hr
  have hscope : ∀ t, scope (nearEnv T) q (some (incidentOf tenantId "INC0000001" first)) t =
      true := by
    intro t
    simp [scope, hf, hp, hc, hn, statusFilter, hrbac]
  simp [joined, twoIncidents, anchorOf, ht, hs, hscope]

theorem rerank_two (T : Text) (tenantId : String) (first second : Option String) :
    ∃ d : Scored ℚ, d.ticket = incidentOf tenantId "INC0000002" second ∧
      rerankCandidates (nearEnv T) (some (incidentOf tenantId "INC0000001" first)) 0
        [⟨incidentOf tenantId "INC0000002" second, 0⟩] = .ok [d] := by
  have hsem : clamp ((1.0 : ℚ) - 0) = 1 := by norm_num [clamp]
  have htrust : semTrust (1 : ℚ) = 1 := by norm_num [semTrust]
  have hsignal : (metadataSignal (some (incidentOf tenantId "INC0000001" first))
      (incidentOf tenantId "INC0000002" second) : ℚ × List String) = (0, []) := by
    norm_num [metadataSignal, agrees, given, incidentOf, serviceNameOf]
  have hkept : ∃ d : Scored ℚ, d.ticket = incidentOf tenantId "INC0000002" second ∧
      rerankOne (nearEnv T) (some (incidentOf tenantId "INC0000001" first)) 0
        ⟨incidentOf tenantId "INC0000002" second, 0⟩ = .ok (some d) := by
    have hstatus : (incidentOf tenantId "INC0000002" second).status = some "open" := rfl
    have hopened : (incidentOf tenantId "INC0000002" second).openedAt = none := rfl
    simp only [rerankOne, hsem, htrust, hsignal, hstatus, hopened, recencyDecay]
    rw [if_neg (by norm_num), if_neg (by norm_num)]
    exact ⟨_, rfl, rfl⟩
  obtain ⟨d, hd, hok⟩ := hkept
  refine ⟨d, hd, ?_⟩
  simp only [rerankCandidates, hok]
  rfl

/-- A search from the first incident for a role that the query does not restrict. -/
structure Probing (T : Text) (tenantId : String) (q : Search ℚ ℕ) : Prop where
  role : ¬ Recognised T q.role
  tenant : q.tenantId = tenantId
  service : q.serviceId = .incident
  ticket : q.ticketId = "INC0000001"
  results : q.maxResults = 5
  window : q.timeFilter = none
  status : q.preferStatus = "any"
  category : q.sameCategoryOnly = false
  name : q.sameServiceOnly = false
  score : q.minSimilarityScore = 0
  confirm : q.diagnosisConfirm = false

variable (first second) in
theorem rank_two (h : Probing T tenantId q) :
    ∃ d : Scored ℚ, d.ticket = incidentOf tenantId "INC0000002" second ∧
      rank (nearEnv T) (twoIncidents tenantId first second) q
        (some (incidentOf tenantId "INC0000001" first)) 0 none none = .ok (1, [d]) := by
  obtain ⟨d, hd, hok⟩ := rerank_two T tenantId first second
  have hlimit : limitOf (nearEnv T) q = 15 := by
    simp [limitOf, h.results, nearEnv]
  have hrows : candidates (nearEnv T) (twoIncidents tenantId first second) q
      (some (incidentOf tenantId "INC0000001" first)) 0 =
      .ok [⟨incidentOf tenantId "INC0000002" second, 0⟩] := by
    rw [candidates, joined_two h.role h.tenant h.service h.window h.status h.category h.name,
      hlimit]
    rfl
  refine ⟨d, hd, ?_⟩
  simp only [rank, hrows, h.score, h.results, bind, Except.bind, hok]
  rfl

variable (first second) in
theorem findSimilarById_two (h : Probing T tenantId q) :
    ∃ resp, findSimilarById (nearEnv T) (twoIncidents tenantId first second) q = .ok resp ∧
      ∃ row ∈ resp.results, row.ticketId = "INC0000002" ∧ row.serviceId = .incident := by
  obtain ⟨d, hd, hok⟩ := rank_two first second h
  have hsrc : (twoIncidents tenantId first second).ticket q.tenantId q.serviceId q.ticketId =
      some (incidentOf tenantId "INC0000001" first) := by
    simp [Db.ticket, twoIncidents, h.tenant, h.service, h.ticket]
  have hanchor : (twoIncidents tenantId first second).chunk q.tenantId q.serviceId q.ticketId
      .symptomAnchor = some (anchorOf tenantId "INC0000001") := by
    simp [Db.chunk, twoIncidents, anchorOf, h.tenant, h.service, h.ticket]
  have hvec : (anchorOf tenantId "INC0000001").embedding = 0 := rfl
  simp only [findSimilarById, hsrc, hanchor, h.confirm, hvec, Bool.false_eq_true, if_false, hok]
  refine ⟨_, rfl, _, List.mem_map_of_mem List.mem_cons_self, ?_, ?_⟩
  · simp only [resultRow, hd, incidentOf_id]
  · simp only [resultRow, h.service]

theorem probing_probe {caller : Request ℚ} (hr : ¬ Recognised T (searchRole caller)) :
    Probing T (tenantOf caller) (idSearch (probe caller) "INC0000001" .incident) := by
  obtain ⟨ht, -, ho⟩ := idSearch_caller (V := ℕ) (probe caller) "INC0000001" .incident
  have hsame := probe_sameCaller caller
  refine ⟨?_, ht.trans hsame.tenant, ?_, ?_, ?_, ?_, ?_, ?_, ?_, ?_, ?_⟩
  · rw [ho, searchRole, hsame.role]
    exact hr
  all_goals simp [idSearch, probe, maxResultsOf, timeFilterOf, orText]

theorem probe_named (T : Text) (caller : Request ℚ) (db : Db ℕ) :
    explicitTicket (probe caller) = "1" ∧
      sourceOf (nearEnv T) db (probe caller) = some ("INC0000001", .incident) := by
  have hticket : explicitTicket (probe caller) = "1" := by
    simp only [explicitTicket, probe]
    decide
  refine ⟨hticket, ?_⟩
  simp only [sourceOf, hticket]
  rw [if_pos (by decide)]
  have hservice : explicitService (nearEnv T).text (probe caller) = T.lower (strip "incident") := by
    simp only [explicitService, probe, nearEnv_text]
  rw [hservice, resolve_one]
  rfl

/-- The caller of a role that the query does not restrict is shown the second incident. -/
theorem probe_answer (caller : Request ℚ) (first second : Option String) (ht : tenantOf caller ≠ "")
    (hr : ¬ Recognised T (searchRole caller)) :
    ∃ resp, findSimilarEntities (nearEnv T) (twoIncidents (tenantOf caller) first second)
        (probe caller) = .ok (.answer resp) ∧
      ∃ row ∈ resp.results, row.ticketId = "INC0000002" ∧ row.serviceId = .incident := by
  obtain ⟨resp, hresp, hrow⟩ := findSimilarById_two first second (probing_probe hr)
  refine ⟨resp, ?_, hrow⟩
  have htenant : tenantOf (probe caller) ≠ "" := (probe_sameCaller caller).tenant ▸ ht
  have hticket := (probe_named T caller (twoIncidents (tenantOf caller) first second)).1
  have hservice : explicitService (nearEnv T).text (probe caller) = T.lower (strip "incident") := by
    simp only [explicitService, probe, nearEnv_text]
  simp only [findSimilarEntities, hticket, hservice]
  rw [if_neg htenant, if_pos (by decide), similarById, resolve_one]
  dsimp only
  rw [hresp]

end Probe

theorem mem_twoIncidents {tenantId : String} {first second : Option String} {t : Ticket}
    (h : t ∈ (twoIncidents tenantId first second).tickets) :
    t = incidentOf tenantId "INC0000001" first ∨ t = incidentOf tenantId "INC0000002" second := by
  simpa [twoIncidents] using h

/-- The first incident is the caller's own, so that he names no foreign ticket. -/
theorem probe_sourceOwn (T : Text) (caller : Request ℚ) (second : Option String) :
    SourceOwn (nearEnv T) (twoIncidents (tenantOf caller) (some (searchUser caller)) second)
      (probe caller) := by
  have hsame := probe_sameCaller caller
  have huser : searchUser (probe caller) = searchUser caller := by
    rw [searchUser, searchUser, hsame.user]
  intro id service hnamed t ht hkey
  rw [(probe_named T caller _).2] at hnamed
  cases hnamed
  rw [huser]
  rcases mem_twoIncidents ht with rfl | rfl
  · rfl
  · simp at hkey

theorem probe_not_confined {T : Text} (caller : Request ℚ) (first : Option String)
    (ht : tenantOf caller ≠ "") (hr : ¬ Recognised T (searchRole caller)) :
    ¬ Confined (nearEnv T) (twoIncidents (tenantOf caller) first none) (probe caller) := by
  intro hc
  obtain ⟨resp, hresp, row, hrow, hid, hservice⟩ := probe_answer caller first none ht hr
  obtain ⟨t, hmem, hkey, hown⟩ := hc _ hresp row (List.mem_append_left _ hrow)
  rw [hid, hservice] at hkey
  rcases mem_twoIncidents hmem with rfl | rfl
  · simp at hkey
  · simp [Own, incidentOf] at hown

/-- For a role that the candidate query knows, the response holds only the caller's own
tickets once its source ticket is his own, and an echoed source has to be. For every other
restricted role there are tickets that it leaks to the caller, whoever he is. -/
theorem similar_tickets_confined (F V : Type) [Add F] [Sub F] [Mul F] [Div F] [LT F]
    [DecidableLT F] [OfScientific F] :
    (∀ (E : Env F V) (db : Db V) (r : Request F), Restricted (roleOf r) →
      Recognised E.text (searchRole r) →
      (SourceOwn E db r → Confined E db r) ∧
        (Echoes E db r → Confined E db r → SourceOwn E db r)) ∧
    ∀ (T : Text) (caller : Request ℚ), tenantOf caller ≠ "" → Restricted (roleOf caller) →
      ¬ Recognised T (searchRole caller) →
      ∃ (E : Env ℚ ℕ) (db : Db ℕ) (r : Request ℚ), E.text = T ∧ SameCaller caller r ∧
        SourceOwn E db r ∧ ¬ Confined E db r := by
  refine ⟨fun E db r _ hrole => ⟨confined_of_sourceOwn hrole, sourceOwn_of_confined⟩, ?_⟩
  intro T caller ht _ hr
  exact ⟨nearEnv T, twoIncidents (tenantOf caller) (some (searchUser caller)) none, probe caller,
    rfl, probe_sameCaller caller, probe_sourceOwn T caller none, probe_not_confined caller _ ht hr⟩

def asciiText : Text where
  lower s := String.ofList (s.toList.map Char.toLower)
  isDigit := Char.isDigit
  lower_ascii _ _ := rfl
  isDigit_ascii _ _ := rfl

def ann (role : String) : Request ℚ where
  arguments := ⟨"", "", "", "", "", "", "", "", none, none, "", false, false, true, none⟩
  context := ⟨"t", "ann", role, "", "", none⟩

theorem ann_endUser_confined :
    Restricted "end_user" ∧
    Confined (nearEnv asciiText) (twoIncidents "t" (some "ann") (some "bob"))
      (probe (ann "end_user")) := by
  refine ⟨by decide, ?_⟩
  exact ((similar_tickets_confined ℚ ℕ).1 _ _ _ (by decide) (by decide)).1
    (probe_sourceOwn asciiText (ann "end_user") (some "bob"))

/-- A viewer, and a caller without a role, are shown a ticket that nobody of theirs reported;
an end user is shown the foreign ticket that he names. -/
theorem foreign_tickets_shown :
    (Restricted "viewer" ∧
      ¬ Confined (nearEnv asciiText) (twoIncidents "t" (some "ann") none) (probe (ann "viewer"))) ∧
    (Restricted "" ∧
      ¬ Confined (nearEnv asciiText) (twoIncidents "t" (some "ann") none) (probe (ann ""))) ∧
    Restricted "end_user" ∧
      ¬ Confined (nearEnv asciiText) (twoIncidents "t" (some "bob") none)
        (probe (ann "end_user")) := by
  refine ⟨⟨by decide, probe_not_confined (ann "viewer") _ (by decide) (by decide)⟩,
    ⟨by decide, probe_not_confined (ann "") _ (by decide) (by decide)⟩, by decide, ?_⟩
  intro hc
  have hecho : Echoes (nearEnv asciiText) (twoIncidents "t" (some "bob") none)
      (probe (ann "end_user")) := ⟨_, rfl, by decide⟩
  have hown := sourceOwn_of_confined hecho hc "INC0000001" .incident
    (probe_named asciiText (ann "end_user") _).2 (incidentOf "t" "INC0000001" (some "bob"))
    List.mem_cons_self rfl
  change some "bob" = some (searchUser (probe (ann "end_user"))) at hown
  exact absurd hown (by decide)

end SimilarTicketsConfinement
