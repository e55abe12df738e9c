import OneOps.ExceptLoops
import OneOps.SimilarTicketsConfinement
import OneOps.SqlParameters
import OneOps.TimeFilters

/-! The text of the candidate query over the embeddings of one service and the list of its
parameters. Every optional predicate appends its own value and refers to the place that the
value then has. -/
namespace SimilarTicketsQuery

open ExceptLoops
open PythonDate
open SimilarTickets (ServiceId Text strip ownTicketRoles)
open SimilarTicketsConfinement (asciiText)
open SqlParameters
open TimeFilters (TimeFilter Boundary)

/-- The tables and columns of a service. -/
structure Cols where
  serviceId : ServiceId
  embTbl : String
  baseTbl : String
  idCol : String
  openedCol : String
  resolvedCol : String

def colsFor : ServiceId → Cols
  | .incident => ⟨.incident, "ai.embeddings_incident", "itsm.incident", "incident_id", "created_at",
      "resolved_at"⟩
  | .request => ⟨.request, "ai.embeddings_request", "itsm.request", "request_id", "created_at",
      "fulfilled_at"⟩

inductive Param where
  | text (s : String)
  | int (n : ℤ)
  | date (d : Date)
  deriving DecidableEq

inductive Raised where
  | overflowError | typeError | valueError
  deriving DecidableEq, Repr

/-- What the scope filters read of the source ticket; the text path has neither. -/
structure SourceRow where
  category : Option String
  serviceName : Option String

structure Scope where
  tenantId : String
  src : SourceRow
  excludeEntityId : Option String
  maxResults : ℤ
  timeFilter : Option TimeFilter
  sameCategoryOnly : Bool
  sameServiceOnly : Bool
  preferStatus : String
  role : String
  userId : String

/-- `fmt % args` for a format with `%d` only. -/
def percent : List Char → List ℕ → Option (List Char)
  | '%' :: 'd' :: cs, n :: ns => (percent cs ns).map fun rest => (toString n).toList ++ rest
  | '%' :: _, _ => none
  | c :: cs, ns => (percent cs ns).map fun rest => c :: rest
  | [], [] => some []
  | [], _ :: _ => none

def ownerCol : ServiceId → String
  | .incident => "reported_by"
  | .request => "requested_by"

/-- The predicate of a role and its arguments, not yet numbered. -/
def defaultRbac (T : Text) (role userId : String) (serviceId : ServiceId) :
    String × List Param :=
  if T.lower (strip role) ∈ ownTicketRoles then
    (ownerCol serviceId ++ " = $%d", [.text userId])
  else ("TRUE", [])

def appendRbac (b : Builder Param) (rbac : String × List Param) : Except Raised (Builder Param) :=
  if rbac.1 ≠ "TRUE" then
    match percent rbac.1.toList (List.range' (b.params.length + 1) rbac.2.length) with
    | some text => .ok ⟨b.conditions ++ ["b." ++ String.ofList text], b.params ++ rbac.2⟩
    | none => .error .typeError
  else .ok b

def endDateInclusive (t : TimeFilter) : Except Raised (Option Date) :=
  match t.endDate with
  | none => .ok none
  | some d =>
    match d.nextDay with
    | some d' => .ok (some d')
    | none => .error .overflowError

def boundaryCol (openedCol : String) (t : TimeFilter) : String :=
  if t.boundary = .createdAt then openedCol else t.boundary.value

def appendTimePredicates (b : Builder Param) (timeFilter : Option TimeFilter)
    (openedCol : String) : Except Raised (Builder Param × String) :=
  match timeFilter with
  | none => .ok (b, openedCol)
  | some t =>
    if t.isEmpty then .ok (b, openedCol)
    else
      let col := boundaryCol openedCol t
      match t.relativeDays with
      | some n =>
        .ok (b.bind ("b." ++ col ++ " >= NOW() - (") (.int n) "::int * INTERVAL '1 day')", col)
      | none => do
        let b := b.bindOption ("b." ++ col ++ " >= ") (t.startDate.map .date) "::date"
        let endInc ← endDateInclusive t
        .ok (b.bindOption ("b." ++ col ++ " < ") (endInc.map .date) "::date", col)

/-- `repr` of a float, and `float` of a text. -/
structure Floats (F : Type) where
  repr : F → String
  ofText : String → Option F

inductive AnchorVec (F : Type) where
  | floats (xs : List F)
  | text (s : String)

section Anchor

variable {F : Type} (N : Floats F)

def vecLiteral (vec : List F) : String := "[" ++ ",".intercalate (vec.map N.repr) ++ "]"

def isBracket (c : Char) : Bool := c ∈ ['[', ']']

def parsePgvector (s : String) : Option (List F) :=
  let body := ((strip s).toList.dropWhile isBracket).rdropWhile isBracket
  ((body.splitOn ',').filter fun x => x ≠ []).mapM fun x => N.ofText (String.ofList x)

def anchorLiteral : AnchorVec F → Option String
  | .floats xs => some (vecLiteral N xs)
  | .text s => (parsePgvector N s).map (vecLiteral N)

end Anchor

def selectPart (cols : Cols) : String :=
  "\n    SELECT b." ++ cols.idCol ++
    " AS id, b.title, b.status, b.priority,\n           b.category," ++
  "\n           " ++ (if cols.serviceId = .incident then "b.service_name"
    else "NULL::text AS service_name") ++
  ",\n           " ++ (if cols.serviceId = .incident then "b.subcategory"
    else "NULL::text AS subcategory") ++
  ",\n           b.ci_id, b.assigned_to, b.assignment_group,\n           b." ++ cols.openedCol ++
  "    AS opened_at,\n           b." ++ cols.resolvedCol ++
  "  AS resolved_at,\n           1 - (e.embedding <=> "

def fromPart (cols : Cols) : String :=
  ") AS sem_score\n    FROM   " ++ cols.embTbl ++ " e\n    JOIN   " ++ cols.baseTbl ++
  " b\n      ON   b." ++ cols.idCol ++ " = e.entity_id AND b.tenant_id = e.tenant_id\n    WHERE  "

def orderPart : String := "\n    ORDER  BY e.embedding <=> "

def limitPart : String := "\n    LIMIT  "

def composeMainSql (cols : Cols) (conditions : List String) (vecParam limParam : String) : String :=
  selectPart cols ++ vecParam ++ fromPart cols ++ " AND ".intercalate conditions ++ orderPart ++
    vecParam ++ limitPart ++ limParam ++ "\n    "

/-- The value of a scope filter: that of the source ticket, if it has one. -/
def wantedValue (wanted : Bool) (value : Option String) : Option Param :=
  (value.filter fun v => wanted && v ≠ "").map .text

def statusCondition (preferStatus : String) : Option String :=
  if preferStatus = "open" then
    some "b.status IN ('open','new','in-progress','in_progress','assigned')"
  else if preferStatus = "resolved" then some "b.status IN ('resolved','closed','fulfilled')"
  else none

structure CandidateSql where
  sql : String
  params : List Param
  conditions : List String
  boundaryCol : String

def limitOf (overfetch maxResults : ℤ) : ℤ := max (maxResults * overfetch) (maxResults + 5)

def scopeBuilder (cols : Cols) (q : Scope) : Builder Param :=
  let b : Builder Param :=
    ⟨["e.tenant_id = $1", "e.chunk_type = 'symptom_anchor'"], [.text q.tenantId]⟩
  let b := b.bindOption "e.entity_id <> " (q.excludeEntityId.map .text) ""
  let b := b.text "b.tenant_id = $1"
  let b := b.bindOption "b.category = " (wantedValue q.sameCategoryOnly q.src.category) ""
  b.bindOption "b.service_name = "
    (wantedValue (q.sameServiceOnly && cols.serviceId = .incident) q.src.serviceName) ""

def assembleCandidateSql {F : Type} (T : Text) (N : Floats F) (overfetch : ℤ) (cols : Cols)
    (anchor : AnchorVec F) (q : Scope) : Except Raised CandidateSql := do
  let b := scopeBuilder cols q
  let (b, boundaryCol) ← appendTimePredicates b q.timeFilter cols.openedCol
  let b := match statusCondition q.preferStatus with
    | some condition => b.text condition
    | none => b
  let b ← appendRbac b (defaultRbac T q.role q.userId cols.serviceId)
  match anchorLiteral N anchor with
  | none => .error .valueError
  | some literal =>
    let params := b.params ++ [.text literal]
    let vecParam := param params.length ++ "::vector"
    let params := params ++ [.int (limitOf overfetch q.maxResults)]
    let limParam := param params.length
    .ok ⟨composeMainSql cols b.conditions vecParam limParam, params, b.conditions, boundaryCol⟩

def timeClauses (openedCol : String) : Option TimeFilter → List (Clause Param)
  | none => []
  | some t =>
    let col := "b." ++ boundaryCol openedCol t
    match t.relativeDays with
    | some n => [.bound (col ++ " >= NOW() - (") (.int n) "::int * INTERVAL '1 day')"]
    | none =>
      boundOption (col ++ " >= ") (t.startDate.map .date) "::date" ++
        boundOption (col ++ " < ") ((t.endDate.bind Date.nextDay).map .date) "::date"

def rbacClauses (T : Text) (role userId : String) (serviceId : ServiceId) : List (Clause Param) :=
  if T.lower (strip role) ∈ ownTicketRoles then
    [.bound ("b." ++ ownerCol serviceId ++ " = ") (.text userId) ""]
  else []

def scopeClauses (serviceId : ServiceId) (q : Scope) : List (Clause Param) :=
  [.bound "e.tenant_id = " (.text q.tenantId) "", .text "e.chunk_type = 'symptom_anchor'"] ++
    boundOption "e.entity_id <> " (q.excludeEntityId.map .text) "" ++
    [.bound "b.tenant_id = " (.text q.tenantId) ""] ++
    boundOption "b.category = " (wantedValue q.sameCategoryOnly q.src.category) "" ++
    boundOption "b.service_name = "
      (wantedValue (q.sameServiceOnly && serviceId = .incident) q.src.serviceName) ""

def predicates (T : Text) (serviceId : ServiceId) (q : Scope) : List (Clause Param) :=
  scopeClauses serviceId q ++ timeClauses (colsFor serviceId).openedCol q.timeFilter ++
    (statusCondition q.preferStatus).toList.map Clause.text ++
    rbacClauses T q.role q.userId serviceId

variable {b : Builder Param} {clauses : List (Clause Param)}

theorem plain_append {s t : String} : Plain (s ++ t) ↔ Plain s ∧ Plain t := by
  unfold Plain
  rw [String.toList_append, List.mem_append, not_or]

theorem ends_nil : Ends "".toList := by decide +kernel

theorem represents_start (tenantId : String) :
    Represents ⟨["e.tenant_id = $1", "e.chunk_type = 'symptom_anchor'"], [Param.text tenantId]⟩
      [.bound "e.tenant_id = " (.text tenantId) "", .text "e.chunk_type = 'symptom_anchor'"] where
  means := by
    refine List.Forall₂.cons ⟨1, Nat.le_refl 1, rfl, by decide +kernel⟩ ?_
    exact List.Forall₂.cons rfl List.Forall₂.nil
  covers n := by
    have hone : placeholders "e.tenant_id = $1".toList = [1] := by decide +kernel
    have hnone : placeholders "e.chunk_type = 'symptom_anchor'".toList = [] := by decide +kernel
    have hlen : [Param.text tenantId].length = 1 := rfl
    rw [hlen, List.exists_mem_cons_iff, List.exists_mem_cons_iff, hone, hnone, List.mem_singleton]
    simp
    omega

theorem represents_scope (serviceId : ServiceId) (q : Scope) :
    Represents (scopeBuilder (colsFor serviceId) q) (scopeClauses serviceId q) := by
  have hcols : (colsFor serviceId).serviceId = serviceId := by cases serviceId <;> rfl
  unfold scopeBuilder scopeClauses
  rw [hcols]
  refine Represents.bindOption
    (Represents.bindOption ?_ (by decide +kernel) (by decide +kernel) ends_nil)
    (by decide +kernel) (by decide +kernel) ends_nil
  refine Represents.add (Represents.bindOption (represents_start q.tenantId) (by decide +kernel)
    (by decide +kernel) ends_nil) ?_ ?_
  · refine ⟨1, Nat.le_refl 1, ?_, by decide +kernel⟩
    cases q.excludeEntityId <;> rfl
  · have hone : placeholders "b.tenant_id = $1".toList = [1] := by decide +kernel
    intro n hn
    rw [hone, List.mem_singleton] at hn
    subst hn
    refine ⟨Nat.le_refl 1, ?_⟩
    cases q.excludeEntityId with
    | none => exact Nat.le_refl 1
    | some id => exact Nat.le_add_left 1 1

theorem plain_boundaryCol {openedCol : String} (h : Plain openedCol) (t : TimeFilter) :
    Plain (boundaryCol openedCol t) := by
  unfold boundaryCol
  split_ifs
  · exact h
  · cases t.boundary <;> decide +kernel

theorem endDateInclusive_ok {t : TimeFilter} {d : Option Date} (h : endDateInclusive t = .ok d) :
    d = t.endDate.bind Date.nextDay := by
  unfold endDateInclusive at h
  cases he : t.endDate with
  | none =>
    rw [he] at h
    cases h
    rfl
  | some e =>
    rw [he] at h
    dsimp only at h
    rw [Option.bind_some]
    cases hn : e.nextDay with
    | none =>
      rw [hn] at h
      cases h
    | some d' =>
      rw [hn] at h
      cases h
      rfl

theorem represents_time {openedCol boundary : String} {timeFilter : Option TimeFilter}
    {b' : Builder Param} (h : Represents b clauses) (hcol : Plain openedCol)
    (ht : appendTimePredicates b timeFilter openedCol = .ok (b', boundary)) :
    Represents b' (clauses ++ timeClauses openedCol timeFilter) := by
  unfold appendTimePredicates at ht
  unfold timeClauses
  cases timeFilter with
  | none =>
    cases ht
    rw [List.append_nil]
    exact h
  | some t =>
    have hplain : Plain ("b." ++ boundaryCol openedCol t) :=
      plain_append.mpr ⟨by decide +kernel, plain_boundaryCol hcol t⟩
    have hdate : Ends "::date".toList := by decide +kernel
    dsimp only at ht ⊢
    split_ifs at ht with hempty
    · cases ht
      simp only [TimeFilter.isEmpty, Bool.and_eq_true, Option.isNone_iff_eq_none] at hempty
      rw [hempty.1.1, hempty.1.2, hempty.2]
      simpa [boundOption] using h
    · cases hr : t.relativeDays with
      | some n =>
        rw [hr] at ht
        cases ht
        exact h.bind (plain_append.mpr ⟨hplain, by decide +kernel⟩) (by decide +kernel)
          (by decide +kernel)
      | none =>
        rw [hr] at ht
        dsimp only at ht ⊢
        cases he : endDateInclusive t with
        | error e =>
          rw [he] at ht
          cases ht
        | ok d =>
          rw [he] at ht
          cases ht
          rw [← List.append_assoc, ← endDateInclusive_ok he]
          refine Represents.bindOption (h.bindOption ?_ (by decide +kernel) hdate) ?_
            (by decide +kernel) hdate
          · exact plain_append.mpr ⟨hplain, by decide +kernel⟩
          · exact plain_append.mpr ⟨hplain, by decide +kernel⟩

theorem percent_last {xs : List Char} {n : ℕ} (h : '%' ∉ xs) :
    percent (xs ++ ['%', 'd']) [n] = some (xs ++ (toString n).toList) := by
  induction xs with
  | nil => simp [percent]
  | cons x xs ih =>
    rw [List.mem_cons, not_or] at h
    have hx : x ≠ '%' := Ne.symm h.1
    rw [List.cons_append, percent.eq_3 _ _ _ hx, ih h.2]
    · rfl
    · exact fun _ _ _ _ heq => absurd heq hx

theorem appendRbac_eq (T : Text) (role userId : String) (s : ServiceId) :
    appendRbac b (defaultRbac T role userId s) =
      .ok (if T.lower (strip role) ∈ ownTicketRoles then
        b.bind ("b." ++ ownerCol s ++ " = ") (.text userId) "" else b) := by
  unfold defaultRbac
  split_ifs with hrole
  · have hpercent : '%' ∉ (ownerCol s ++ " = $").toList := by cases s <;> decide +kernel
    have hformat : (ownerCol s ++ " = $%d").toList =
        (ownerCol s ++ " = $").toList ++ ['%', 'd'] := by
      cases s <;> decide +kernel
    have hother : ownerCol s ++ " = $%d" ≠ "TRUE" := by cases s <;> decide +kernel
    unfold appendRbac
    dsimp only
    rw [if_pos hother, hformat]
    have hrange : List.range' (b.params.length + 1) [Param.text userId].length =
        [b.params.length + 1] := rfl
    have htext : "b." ++ String.ofList ((ownerCol s ++ " = $").toList ++
        (toString (b.params.length + 1)).toList) =
          "b." ++ ownerCol s ++ " = " ++ param (b.params ++ [Param.text userId]).length ++ "" := by
      have hdollar : " = $" = " = " ++ "$" := by decide +kernel
      rw [String.ofList_append, String.ofList_toList, String.ofList_toList, hdollar, param,
        List.length_append, String.append_empty]
      simp only [String.append_assoc]
      rfl
    rw [hrange, percent_last hpercent]
    dsimp only
    rw [htext]
    rfl
  · rfl

theorem represents_rbac (h : Represents b clauses) (T : Text) (role userId : String)
    (s : ServiceId) {b' : Builder Param}
    (hb : appendRbac b (defaultRbac T role userId s) = .ok b') :
    Represents b' (clauses ++ rbacClauses T role userId s) := by
  rw [appendRbac_eq] at hb
  cases hb
  unfold rbacClauses
  split_ifs
  · refine h.bind ?_ (by decide +kernel) ends_nil
    cases s <;> decide +kernel
  · rw [List.append_nil]
    exact h

theorem represents_status (h : Represents b clauses) (preferStatus : String) :
    Represents (match statusCondition preferStatus with
      | some condition => b.text condition
      | none => b) (clauses ++ (statusCondition preferStatus).toList.map Clause.text) := by
  unfold statusCondition
  split_ifs
  · exact h.text (by decide +kernel)
  · exact h.text (by decide +kernel)
  · rw [Option.toList_none, List.map_nil, List.append_nil]
    exact h

/-- A window that ends on the last day of the calendar has no day to end before. -/
def EndsLastDay (timeFilter : Option TimeFilter) : Prop :=
  ∃ t ∈ timeFilter, t.relativeDays = none ∧ ∃ d ∈ t.endDate, d.year = 9999 ∧
    d.month = 12 ∧ d.day = 31

theorem endDateInclusive_isOk {t : TimeFilter} :
    (∃ d, endDateInclusive t = .ok d) ↔
      ¬ ∃ d ∈ t.endDate, d.year = 9999 ∧ d.month = 12 ∧ d.day = 31 := by
  unfold endDateInclusive
  cases t.endDate with
  | none => simp
  | some d =>
    simp only [Option.mem_some_iff, exists_eq_left', ← nextDay_eq_none]
    cases d.nextDay with
    | none => simp
    | some d' => simp

theorem appendTimePredicates_isOk {timeFilter : Option TimeFilter} {openedCol : String} :
    (∃ r, appendTimePredicates b timeFilter openedCol = .ok r) ↔ ¬ EndsLastDay timeFilter := by
  unfold appendTimePredicates EndsLastDay
  cases timeFilter with
  | none => simp
  | some t =>
    simp only [Option.mem_some_iff, exists_eq_left']
    split_ifs with hempty
    · simp only [TimeFilter.isEmpty, Bool.and_eq_true, Option.isNone_iff_eq_none] at hempty
      simp [hempty.2]
    · cases hr : t.relativeDays with
      | some n => simp
      | none =>
        simp only [true_and, ← endDateInclusive_isOk]
        cases endDateInclusive t with
        | error e => simp [bind, Except.bind]
        | ok d => simp [bind, Except.bind]

theorem assembleCandidateSql_isOk {F : Type} {T : Text} {N : Floats F} {overfetch : ℤ}
    {cols : Cols} {anchor : AnchorVec F} {q : Scope} :
    (∃ r, assembleCandidateSql T N overfetch cols anchor q = .ok r) ↔
      ¬ EndsLastDay q.timeFilter ∧ (anchorLiteral N anchor).isSome := by
  unfold assembleCandidateSql
  rw [← @appendTimePredicates_isOk (scopeBuilder cols q) q.timeFilter cols.openedCol]
  constructor
  · rintro ⟨r, h⟩
    obtain ⟨timed, ht, h⟩ := bind_eq_ok.mp h
    obtain ⟨b', _, h⟩ := bind_eq_ok.mp h
    refine ⟨⟨timed, ht⟩, ?_⟩
    cases hl : anchorLiteral N anchor with
    | none =>
      rw [hl] at h
      cases h
    | some literal => rfl
  · rintro ⟨⟨timed, ht⟩, hl⟩
    obtain ⟨literal, hl⟩ := Option.isSome_iff_exists.mp hl
    simp only [ht, hl, appendRbac_eq, bind, Except.bind]
    exact ⟨_, rfl⟩

theorem assemble_ok {F : Type} {T : Text} {N : Floats F} {overfetch : ℤ} {serviceId : ServiceId}
    {anchor : AnchorVec F} {q : Scope} {r : CandidateSql}
    (h : assembleCandidateSql T N overfetch (colsFor serviceId) anchor q = .ok r) :
    ∃ (b : Builder Param) (literal : String), Represents b (predicates T serviceId q) ∧
      anchorLiteral N anchor = some literal ∧ r.conditions = b.conditions ∧
      r.params = b.params ++ [.text literal, .int (limitOf overfetch q.maxResults)] ∧
      r.sql = composeMainSql (colsFor serviceId) r.conditions
        (param (b.params.length + 1) ++ "::vector") (param (b.params.length + 2)) := by
  have hcols : (colsFor serviceId).serviceId = serviceId := by cases serviceId <;> rfl
  have hplain : Plain (colsFor serviceId).openedCol := by cases serviceId <;> decide +kernel
  unfold assembleCandidateSql at h
  rw [hcols] at h
  obtain ⟨⟨b, boundary⟩, ht, h⟩ := bind_eq_ok.mp h
  obtain ⟨b', hr, h⟩ := bind_eq_ok.mp h
  have hstatus := represents_status
    (represents_time (represents_scope serviceId q) hplain ht) q.preferStatus
  have hall := represents_rbac hstatus T q.role q.userId serviceId hr
  cases hl : anchorLiteral N anchor with
  | none =>
    rw [hl] at h
    cases h
  | some literal =>
    rw [hl] at h
    dsimp only at h
    obtain rfl := Except.ok.inj h
    refine ⟨b', literal, hall, rfl, rfl, ?_, ?_⟩
    · simp
    · simp

theorem plain_selectPart (s : ServiceId) : Plain (selectPart (colsFor s)) := by
  unfold selectPart
  simp only [plain_append, and_assoc]
  cases s <;> refine ⟨?_, ?_, ?_, ?_, ?_, ?_, ?_, ?_, ?_, ?_, ?_, ?_⟩ <;> decide +kernel

theorem plain_fromPart (s : ServiceId) : Plain (fromPart (colsFor s)) := by
  unfold fromPart
  simp only [plain_append, and_assoc]
  cases s <;> refine ⟨?_, ?_, ?_, ?_, ?_, ?_, ?_⟩ <;> decide +kernel

/-- The composed text mentions the two numbers it is given and those of its conditions. -/
theorem mem_placeholders_main {s : ServiceId} {conditions : List String} {k l n : ℕ} :
    n ∈ placeholders (composeMainSql (colsFor s) conditions (param k ++ "::vector")
        (param l)).toList ↔
      n = k ∨ (∃ c ∈ conditions, n ∈ placeholders c.toList) ∨ n = l := by
  have hcast : Plain "::vector" := by decide +kernel
  have hcastEnds : ∀ rest, Ends ("::vector".toList ++ rest) :=
    fun rest => ends_append (by decide +kernel) (by decide +kernel)
  have horder : Plain orderPart := by decide +kernel
  have horderEnds : ∀ rest, Ends (orderPart.toList ++ rest) :=
    fun rest => ends_append (by decide +kernel) (by decide +kernel)
  have hlimit : Plain limitPart := by decide +kernel
  have htext : (composeMainSql (colsFor s) conditions (param k ++ "::vector") (param l)).toList =
      (selectPart (colsFor s)).toList ++ ((param k).toList ++ ("::vector".toList ++
        ((fromPart (colsFor s)).toList ++ ((" AND ".intercalate conditions).toList ++
          (orderPart.toList ++ ((param k).toList ++ ("::vector".toList ++ (limitPart.toList ++
            ((param l).toList ++ "\n    ".toList))))))))) := by
    simp only [composeMainSql, String.toList_append, List.append_assoc]
  have hjoin := @mem_placeholders_intercalate " AND " conditions n (by decide +kernel)
      (by decide +kernel)
    (by decide +kernel)
  have hlast : placeholders "\n    ".toList = [] := placeholders_eq_nil (by decide +kernel)
  rw [htext, placeholders_plain_append (plain_selectPart s), placeholders_append (hcastEnds _),
    placeholders_param, placeholders_plain_append hcast,
    placeholders_plain_append (plain_fromPart s), placeholders_append (horderEnds _),
    placeholders_plain_append horder, placeholders_append (hcastEnds _), placeholders_param,
    placeholders_plain_append hcast, placeholders_plain_append hlimit,
    placeholders_append (by decide +kernel), placeholders_param, hlast]
  simp only [List.mem_append, List.mem_singleton, List.append_nil, hjoin]
  constructor
  · rintro (hk | hc | hk | hl)
    · exact Or.inl hk
    · exact Or.inr (Or.inl hc)
    · exact Or.inl hk
    · exact Or.inr (Or.inr hl)
  · rintro (hk | hc | hl)
    · exact Or.inl hk
    · exact Or.inr (Or.inl hc)
    · exact Or.inr (Or.inr (Or.inr hl))

/-- A predicate with a value at its end stands in the query with the place of that value. -/
theorem bound_condition {F : Type} {T : Text} {N : Floats F} {overfetch : ℤ}
    {serviceId : ServiceId} {anchor : AnchorVec F} {q : Scope} {r : CandidateSql}
    (h : assembleCandidateSql T N overfetch (colsFor serviceId) anchor q = .ok r) {before : String}
    {value : Param} (hc : .bound before value "" ∈ predicates T serviceId q) :
    ∃ n, 1 ≤ n ∧ r.params[n - 1]? = some value ∧ before ++ param n ∈ r.conditions := by
  obtain ⟨b, literal, hb, _, hconditions, hparams, _⟩ := assemble_ok h
  obtain ⟨condition, hmem, n, hn, hv, rfl⟩ := hb.condition hc
  refine ⟨n, hn, ?_, ?_⟩
  · obtain ⟨hlt, _⟩ := List.getElem?_eq_some_iff.mp hv
    rw [hparams, List.getElem?_append_left hlt, hv]
  · rw [hconditions, ← @String.append_empty (before ++ param n)]
    exact hmem

theorem own_role {T : Text} {role userId : String} {s : ServiceId}
    (h : (defaultRbac T role userId s).1 ≠ "TRUE") : T.lower (strip role) ∈ ownTicketRoles := by
  by_contra hother
  exact h (by rw [defaultRbac, if_neg hother])

def wholeFloats : Floats ℕ where
  repr n := toString n ++ ".0"
  ofText s := [0, 1, 2].find? fun n => toString n ++ ".0" = s

def lastWeek : TimeFilter where
  relativeDays := some 7
  startDate := none
  endDate := none
  label := some "last week"
  boundary := .createdAt
  daysIn n hn := by
    cases hn
    decide
  labelShort s hs := by
    cases hs
    decide

/-- An end user asks for tickets of the last week that are like one of hers. -/
def annScope : Scope :=
  ⟨"t1", ⟨some "Network", some "VPN"⟩, some "INC0001", 5, some lastWeek, true, true, "open",
    " End_User", "ann"⟩

end SimilarTicketsQuery
