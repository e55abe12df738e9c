import Mathlib.Data.List.Infix
import Mathlib.Data.List.Sort
import OneOps.ExceptLoops
import OneOps.PythonFloat
import OneOps.PythonText

/-! The knowledge-base articles that are linked to a ticket: a relevance gate over the linked
rows and a composer that writes the answer around those that pass it. -/
namespace LinkedArticles

open ExceptLoops
open PythonFloat
open PythonText (strip)

/-- An article as a dict of the store; a missing text is empty. The scores are keys that some
path of the search adds. -/
structure Hit where
  kbId : String
  title : String
  summary : String
  content : String
  category : String
  tags : List String
  relevanceScore : Option ℤ
  relevanceCosine : Option PyFloat
  cosineFull : Option PyFloat
  rerankRelevance : Option PyFloat
  deriving DecidableEq

/-- The non-empty fields of a result list. -/
structure Preview where
  kbId : Option String
  title : Option String
  summary : Option String
  content : Option String
  category : Option String
  tags : Option (List String)
  relevanceScore : Option ℤ
  deriving DecidableEq

inductive Outcome where
  | found | noMatch | invalidRequest
  deriving DecidableEq, Repr

structure KbSearchResult where
  outcome : Outcome
  message : String
  articles : List Preview
  deriving DecidableEq

/-- What escapes from a search: the store fails, or a score is no number. -/
inductive Raised where
  | storeError | conversionError
  deriving DecidableEq, Repr

/-- The settings, the store, and what may be wired: `none` of a call is an exception. -/
structure Env where
  minScore : PyFloat
  topK : ℤ
  forceRenderMinScore : PyFloat
  rerankMinRelevance : PyFloat
  linkedTo : String → String → String → Except Raised (List Hit)
  focusTitle : String → String → String
  ticketSymptomText : String → String → String
  kbSearchText : String → String
  searchKb : String → KbSearchResult
  scorer : Option (String → List String → Option (List (Option PyFloat)))
  composer : Option (String → List Hit → Option String)

structure Arguments where
  ticketId : String
  userMessage : String
  query : String

structure Context where
  tenantId : String
  role : String

/-- Python's `a or b` on texts. -/
def orText (a b : String) : String := if a = "" then b else a

def given (s : String) : Option String := if s = "" then none else some s

def preview (h : Hit) : Preview where
  kbId := given h.kbId
  title := given h.title
  summary := given h.summary
  content := given h.content
  category := given h.category
  tags := if h.tags = [] then none else some h.tags
  relevanceScore := h.relevanceScore

def noMatchSignature : String := "No matching knowledge-base article was found"

def saidNoMatch (text : String) : Bool :=
  strip text = "" ∨ noMatchSignature.toList <:+: (strip text).toList

def deterministicText (articles : List Hit) : String :=
  match articles with
  | [] =>
    "I couldn't find a knowledge-base article matching that query. " ++
      "Try rephrasing it with different terms, or contact your IT support team for help."
  | first :: _ =>
    let ids := ", ".intercalate ((articles.map fun a => a.kbId).filter fun id => id ≠ "")
    let head := if first.title ≠ "" then "\"" ++ first.title ++ "\"" else ids
    if first.summary ≠ "" then head ++ ": " ++ first.summary ++ " (Source: " ++ first.kbId ++ ")"
    else "Found " ++ toString articles.length ++ " matching article(s): " ++ ids ++ "."

def grounded (E : Env) (query : String) (hits : List Hit) (forceDeterministic : Bool) : String :=
  match forceDeterministic, E.composer with
  | false, some compose => (compose query hits).getD ""
  | _, _ => deterministicText hits

def zero : PyFloat := .finite 0

def below (x y : PyFloat) : Bool := x.le y && !y.le x

/-- The scores of an article under which a no-match of the composer is overruled. -/
def trusted (E : Env) (top : Hit) : Bool :=
  let topCosine := top.cosineFull.getD zero
  let topRerank := top.rerankRelevance.getD (.finite (-1))
  (zero.le topRerank && E.rerankMinRelevance.le topRerank) ||
    (below topRerank zero && E.forceRenderMinScore.le topCosine)

def noPublished : String := "No published knowledge-base article matched that query."

def composeKbAnswer (E : Env) (query : String) (hits : List Hit) (forceDeterministic : Bool)
    (foundFallback : String) : KbSearchResult :=
  let text := grounded E query hits forceDeterministic
  match hits with
  | [] => ⟨.noMatch, orText text noPublished, []⟩
  | top :: _ =>
    let found (text : String) : KbSearchResult :=
      ⟨.found, orText text (orText foundFallback
        ("Found " ++ toString hits.length ++ " knowledge-base article(s).")), hits.map preview⟩
    if saidNoMatch text then
      if forceDeterministic || trusted E top then found (deterministicText hits)
      else ⟨.noMatch, orText text noPublished, []⟩
    else found text

def docText (h : Hit) : String :=
  strip (" ".intercalate
    ([h.title, h.summary, String.ofList (h.content.toList.take 1500)].filter fun s => s ≠ ""))

def scored : List Hit → List (Option PyFloat) → Except Raised (List Hit)
  | h :: hs, some s :: ss => do
    let rest ← scored hs ss
    .ok ({ h with relevanceCosine := some s } :: rest)
  | _ :: _, none :: _ => .error .conversionError
  | _, _ => .ok []

def cosine (h : Hit) : PyFloat := h.relevanceCosine.getD zero

def scoreLinkedHits (E : Env) (hits : List Hit) (ticketId tenantId userQuery : String) :
    Except Raised (List Hit × Option KbSearchResult) :=
  match E.scorer with
  | none => .ok (hits, none)
  | some scorer =>
    let relQuery := orText (E.focusTitle ticketId tenantId) userQuery
    let scores := (scorer relQuery (hits.map docText)).getD []
    if scores = [] ∨ scores.length ≠ hits.length then .ok (hits, none)
    else do
      let hits ← scored hits scores
      let passing := ((hits.filter fun h => E.minScore.le (cosine h)).insertionSort
        fun a b => (cosine b).le (cosine a)).take (max 1 E.topK).toNat
      if passing = [] then
        .ok ([], some ⟨.noMatch, "No knowledge-base article linked to " ++ ticketId ++
          " is topically relevant to this record. Try a topic search instead.", []⟩)
      else .ok (passing, none)

def symptomFallback (E : Env) (ticketId tenantId userQuery : String) : KbSearchResult :=
  let contentQ := orText (E.ticketSymptomText ticketId tenantId) (E.kbSearchText userQuery)
  let fb := E.searchKb contentQ
  if contentQ ≠ "" ∧ fb.outcome = .found then fb
  else ⟨.noMatch, "No knowledge-base article matches the symptoms of " ++ ticketId ++ ".", []⟩

def searchKbByTicketImpl (E : Env) (ticketId tenantId userQuery role : String) :
    Except Raised KbSearchResult := do
  let hits ← E.linkedTo ticketId tenantId role
  if hits.isEmpty then .ok (symptomFallback E ticketId tenantId userQuery)
  else
    match ← scoreLinkedHits E hits ticketId tenantId userQuery with
    | (_, some noMatch) => .ok noMatch
    | (hits, none) =>
      .ok (composeKbAnswer E userQuery hits false
        ("Found " ++ toString hits.length ++ " knowledge-base article(s) linked to " ++
          ticketId ++ "."))

def userQueryOf (args : Arguments) : String :=
  orText (strip args.userMessage) (orText (strip args.query)
    ("knowledge articles linked to " ++ strip args.ticketId))

def searchKbByTicket (E : Env) (args : Arguments) (ctx : Context) : Except Raised KbSearchResult :=
  if strip args.ticketId = "" then
    .ok ⟨.invalidRequest, "A ticket or CI id is required to find linked articles.", []⟩
  else if strip ctx.tenantId = "" then
    .ok ⟨.invalidRequest, "No tenant scope was supplied for this request.", []⟩
  else searchKbByTicketImpl E (strip args.ticketId) (strip ctx.tenantId) (userQueryOf args) ctx.role

def Surfaces (kept : List Hit) (answer : Except Raised KbSearchResult) : Prop :=
  ∃ message, answer = .ok ⟨.found, message, kept.map preview⟩

variable {E : Env}

theorem compose_surfaces {query fallback : String} {kept : List Hit} (hne : kept ≠ []) :
    Surfaces kept (.ok (composeKbAnswer E query kept false fallback)) ↔
      saidNoMatch (grounded E query kept false) = false ∨ ∃ top ∈ kept.head?, trusted E top := by
  obtain ⟨top, rest, rfl⟩ := List.exists_cons_of_ne_nil hne
  unfold composeKbAnswer Surfaces
  dsimp only
  rw [List.head?_cons, Bool.false_or]
  cases hs : saidNoMatch (grounded E query (top :: rest) false) with
  | false => exact iff_of_true ⟨_, rfl⟩ (Or.inl rfl)
  | true =>
    cases ht : trusted E top with
    | true => exact iff_of_true ⟨_, rfl⟩ (Or.inr ⟨top, rfl, ht⟩)
    | false =>
      refine iff_of_false ?_ ?_
      · rintro ⟨message, h⟩
        cases h
      · rintro (h | ⟨top', htop, h⟩)
        · cases h
        · cases htop
          rw [ht] at h
          cases h

theorem gate_kept {hits kept : List Hit} {ticketId tenantId userQuery : String}
    {answer : Option KbSearchResult}
    (h : scoreLinkedHits E hits ticketId tenantId userQuery = .ok (kept, answer))
    (hne : kept ≠ []) : answer = none := by
  unfold scoreLinkedHits at h
  cases hscorer : E.scorer with
  | none =>
    rw [hscorer] at h
    cases h
    rfl
  | some scorer =>
    rw [hscorer] at h
    dsimp only at h
    split_ifs at h with hshape
    · cases h
      rfl
    · obtain ⟨scoredHits, _, h⟩ := bind_eq_ok.mp h
      split_ifs at h with hempty
      · cases h
        exact absurd rfl hne
      · cases h
        rfl

/-- The articles that the gate keeps are surfaced exactly when the composer writes something other
than a no-match, or the first of them has scores that overrule it. -/
theorem linked_surfaced_iff {args : Arguments} {ctx : Context} {rows kept : List Hit}
    {answer : Option KbSearchResult} (hticket : strip args.ticketId ≠ "")
    (htenant : strip ctx.tenantId ≠ "")
    (hrows : E.linkedTo (strip args.ticketId) (strip ctx.tenantId) ctx.role = .ok rows)
    (hsome : rows ≠ [])
    (hgate : scoreLinkedHits E rows (strip args.ticketId) (strip ctx.tenantId) (userQueryOf args) =
      .ok (kept, answer))
    (hkept : kept ≠ []) :
    Surfaces kept (searchKbByTicket E args ctx) ↔
      saidNoMatch (grounded E (userQueryOf args) kept false) = false ∨
        ∃ top ∈ kept.head?, trusted E top := by
  have hanswer := gate_kept hgate hkept
  subst hanswer
  have hfilled : rows.isEmpty = false := by
    rw [List.isEmpty_eq_false_iff]
    exact hsome
  rw [← @compose_surfaces E _ ("Found " ++ toString kept.length ++
    " knowledge-base article(s) linked to " ++ strip args.ticketId ++ ".") kept hkept]
  unfold searchKbByTicket searchKbByTicketImpl
  rw [if_neg hticket, if_neg htenant, hrows]
  simp only [bind, Except.bind, hfilled, hgate, Bool.false_eq_true, if_false]

def vpnArticle : Hit :=
  ⟨"KB0000001", "VPN drops", "Renew the certificate.", "", "Network", [], none, none, none, none⟩

def mailArticle : Hit :=
  ⟨"KB0000002", "Mail quota", "Archive old mail.", "", "Mail", [], none, none, none, none⟩

/-- The reranker has seen this one. -/
def certificateArticle : Hit :=
  ⟨"KB0000003", "Certificates", "How to renew one.", "", "Network", [], none, none, none,
    some (.finite (4 / 5))⟩

/-- The settings have their defaults. -/
def vpnEnv (linked : List Hit) (compose : String → List Hit → Option String) : Env where
  minScore := .finite (1 / 2)
  topK := 3
  forceRenderMinScore := .finite (9 / 20)
  rerankMinRelevance := .finite (1 / 2)
  linkedTo ticketId tenantId _ :=
    if ticketId = "INC0001" ∧ tenantId = "t1" then .ok linked else .ok []
  focusTitle _ _ := ""
  ticketSymptomText _ _ := ""
  kbSearchText query := query
  searchKb _ := ⟨.noMatch, "", []⟩
  scorer := none
  composer := some compose

def similarity (doc : String) : PyFloat :=
  if "VPN".toList <+: doc.toList then .finite (7 / 10)
  else if "Cert".toList <+: doc.toList then .finite (9 / 10)
  else .finite (1 / 10)

def vpnRequest : Arguments := ⟨"INC0001", "", ""⟩

def viewer : Context := ⟨"t1", "viewer"⟩

/-- Three articles are linked, and the composer finds none of them. -/
def denies : Env :=
  { vpnEnv [vpnArticle, mailArticle, certificateArticle] fun _ _ => some noMatchSignature with
    scorer := some fun _ docs => some (docs.map fun doc => some (similarity doc)) }

def rated (h : Hit) (x : ℚ) : Hit := { h with relevanceCosine := some (.finite x) }

theorem denies_linked : denies.linkedTo (strip vpnRequest.ticketId) (strip viewer.tenantId)
    viewer.role = .ok [vpnArticle, mailArticle, certificateArticle] := by decide +kernel

theorem denies_gate : scoreLinkedHits denies [vpnArticle, mailArticle, certificateArticle]
    (strip vpnRequest.ticketId) (strip viewer.tenantId) (userQueryOf vpnRequest) =
      .ok ([rated certificateArticle (9 / 10), rated vpnArticle (7 / 10)], none) := by
  decide +kernel

/-- Two articles pass the gate. What the reranker says of the first overrules the composer. -/
theorem overruled_composer_surfaces :
    Surfaces [rated certificateArticle (9 / 10), rated vpnArticle (7 / 10)]
      (searchKbByTicket denies vpnRequest viewer) :=
  (linked_surfaced_iff (by decide) (by decide) denies_linked (by simp) denies_gate (by simp)).mpr
    (Or.inr ⟨_, rfl, by decide +kernel⟩)

/-- A composer that raises turns the only article into no match. -/
def raises : Env := vpnEnv [vpnArticle] fun _ _ => none

theorem failed_composer_hides_article :
    scoreLinkedHits raises [vpnArticle] "INC0001" "t1" (userQueryOf vpnRequest) =
        .ok ([vpnArticle], none) ∧
      searchKbByTicket raises vpnRequest viewer = .ok ⟨.noMatch, noPublished, []⟩ := by
  exact ⟨rfl, by decide +kernel⟩

end LinkedArticles
