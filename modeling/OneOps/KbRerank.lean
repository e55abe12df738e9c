import Mathlib.Data.List.Sort
import Mathlib.Data.String.Basic
import OneOps.AnswerCache
import OneOps.ExceptLoops
import OneOps.PythonFloat
import OneOps.PythonJson
import OneOps.PythonText

/-! The listwise reranker of knowledge-base articles. The model's reply is read into one label
for each article, and a cache keeps the labels under a key that forgets the order of the
articles. -/
namespace KbRerank

open AnswerCache
open ExceptLoops
open PythonFloat
open PythonJson
open PythonText (strip split)
open RowMerge

inductive Raised where
  | valueError | typeError | overflowError | recursionError
  deriving DecidableEq, Repr

/-- What the reading of a reply rests on: the decoder of JSON texts, the value of a float by its
`repr`, `float` of a text, `str` of what is no text, `str.lower` and the digest of a key. -/
structure Python where
  decode : String → Except Raised Doc
  floatValue : String → PyFloat
  parseFloat : String → Option PyFloat
  render : Value → Except Raised String
  lower : String → String
  sha256 : String → String

/-- A field of an article as a row of the database has it. -/
inductive Field where
  | missing
  | none
  | text (s : String)
  deriving DecidableEq

def Field.orEmpty : Field → String
  | .text s => s
  | _ => ""

/-- `article.get(name, "")` within an f-string. -/
def Field.formatted : Field → String
  | .missing => ""
  | .none => "None"
  | .text s => s

structure Article where
  kbId : Field
  title : Field
  summary : Field
  content : Field

structure RerankResult where
  kbId : String
  relevance : ℚ
  rawLabel : ℤ
  deriving DecidableEq

def maxLabel : ℤ := 3

section Parsing

variable (P : Python)

def truthy : Value → Bool
  | .null => false
  | .bool b => b
  | .int n => n ≠ 0
  | .float repr => repr ≠ "0.0" ∧ repr ≠ "-0.0"
  | .str s => s ≠ ""
  | .list xs => !xs.isEmpty
  | .tuple xs => !xs.isEmpty
  | .dict items => !items.isEmpty
  | .object _ => true

def get (items : List (Key × Value)) (name : String) : Option Value :=
  (items.find? fun e => e.1 = .str name).map Prod.snd

def str : Value → Except Raised String
  | .str s => .ok s
  | v => P.render v

/-- `float(v)`. The rounding of large integers does not reach the labels. -/
def floatOf : Value → Except Raised PyFloat
  | .int n => if TooLarge n then .error .overflowError else .ok (.finite n)
  | .bool b => .ok (.finite (if b then 1 else 0))
  | .float repr => .ok (P.floatValue repr)
  | .str s =>
    match P.parseFloat s with
    | some x => .ok x
    | none => .error .valueError
  | _ => .error .typeError

def roundInt : PyFloat → Except Raised ℤ
  | .finite q => .ok (roundHalfEven q)
  | .infinite _ => .error .overflowError
  | .nan => .error .valueError

/-- The label of a row, zero where the conversion raises what the code expects. -/
def labelOf (v : Value) : Except Raised ℤ :=
  match floatOf P v >>= roundInt with
  | .ok n => .ok n
  | .error .typeError => .ok 0
  | .error .valueError => .ok 0
  | .error e => .error e

def idValue (items : List (Key × Value)) : Value :=
  match (get items "id").filter fun v => truthy v with
  | some v => v
  | none => ((get items "kb_id").filter fun v => truthy v).getD (.str "")

def relevanceValue (items : List (Key × Value)) : Value := (get items "relevance").getD (.int 0)

def clamp (label : ℤ) : ℤ := max 0 (min maxLabel label)

def collect : List Value → List (String × ℤ) → Except Raised (List (String × ℤ))
  | [], byId => .ok byId
  | .dict items :: rows, byId => do
    let rid ← str P (idValue items)
    let label ← labelOf P (relevanceValue items)
    collect rows (if strip rid ≠ "" then upsert Prod.fst byId (strip rid, clamp label) else byId)
  | _ :: rows, byId => collect rows byId

def fence : List Char := ['\x60', '\x60', '\x60']

def fromBrace (raw : List Char) : List Char := raw.dropWhile fun c => c ≠ '\x7b'

def unfenced (raw : List Char) : List Char :=
  if fence.isPrefixOf raw then
    let inner := (raw.dropWhile fun c => c = '\x60').rdropWhile fun c => c = '\x60'
    if '\x7b' ∈ inner then fromBrace inner else inner
  else raw

/-- `raw[raw.find("{"): raw.rfind("}") + 1] or raw`; a missing brace counts as minus one. -/
def jsonPart (raw : List Char) : List Char :=
  let start := if '\x7b' ∈ raw then raw.length - (fromBrace raw).length else raw.length - 1
  let stop := raw.length - (raw.reverse.takeWhile fun c => c ≠ '\x7d').length
  let part := (raw.take stop).drop start
  if part = [] then raw else part

def replyText (text : String) : String :=
  String.ofList (jsonPart (unfenced (strip text).toList))

/-- The rows of a decoded reply; `none` is a reply of another form. -/
def rowsOf (doc : Doc) : Option (List Value) :=
  match loads doc with
  | .dict items =>
    match get items "rankings" with
    | some (.list rows) => some rows
    | _ => none
  | _ => none

def resultFor (byId : List (String × ℤ)) (a : Article) : RerankResult :=
  let label := ((byId.find? fun e => e.1 = a.kbId.orEmpty).map Prod.snd).getD 0
  ⟨a.kbId.orEmpty, label / maxLabel, label⟩

def parseRankings (text : String) (articles : List Article) :
    Except Raised (Option (List RerankResult)) :=
  match P.decode (replyText text) with
  | .error .valueError => .ok none
  | .error e => .error e
  | .ok doc =>
    match rowsOf doc with
    | none => .ok none
    | some rows => do
      let byId ← collect P rows []
      if byId = [] then .ok none else .ok (some (articles.map (resultFor byId)))

end Parsing

def excerptLimit : ℕ := 700

def excerpt (a : Article) : String :=
  let title := strip a.title.orEmpty
  let summary := strip a.summary.orEmpty
  let content := strip a.content.orEmpty
  let content := if excerptLimit < content.length then
    String.ofList (content.toList.take excerptLimit) ++ "…" else content
  "id: " ++ a.kbId.orEmpty ++ "\nTitle: " ++ title ++
    (if summary ≠ "" then "\nSummary: " ++ summary else "") ++
    if content ≠ "" then "\nContent: " ++ content else ""

def hexdigest (P : Python) (s : String) (n : ℕ) : String :=
  String.ofList ((P.sha256 s).toList.take n)

def candidateFingerprint (P : Python) (articles : List Article) : String :=
  let parts := (articles.map fun a => a.kbId.formatted ++ "\x1f" ++ excerpt a).insertionSort (· ≤ ·)
  hexdigest P ("\x1e".intercalate parts) 24

/-- A call of a reranker, with the model's reply if the gateway gives one and whether the cache
can be read and written. -/
structure Call where
  tenantId : String
  model : String
  query : String
  articles : List Article
  reply : Option String
  readable : Bool
  writable : Bool

def rerankCacheKey (P : Python) (c : Call) : String :=
  let q := " ".intercalate (split (P.lower (strip c.query)))
  "oneops:uc03:rerank:" ++ c.tenantId ++ ":" ++ c.model ++ ":" ++
    hexdigest P (q ++ "\x1f" ++ candidateFingerprint P c.articles) 32

/-- The stored results, and the call that each of them comes from. The cache itself does not have
the latter. -/
structure World where
  rows : String → Option (List RerankResult)
  origins : String → Option Call

def asks (c : Call) : Bool := c.query ≠ "" && !c.articles.isEmpty && c.tenantId ≠ ""

def served (P : Python) (w : World) (c : Call) : Option (List RerankResult) :=
  if asks c && c.readable then w.rows (rerankCacheKey P c) else none

def judged (P : Python) (c : Call) : Option (List RerankResult) :=
  match c.reply with
  | none => none
  | some text =>
    match parseRankings P (strip text) c.articles with
    | .ok results => results
    | .error _ => none

def World.store (P : Python) (w : World) (c : Call) (results : List RerankResult) : World :=
  ⟨Function.update w.rows (rerankCacheKey P c) (some results),
    Function.update w.origins (rerankCacheKey P c) (some c)⟩

def rerank (P : Python) (w : World) (c : Call) :
    Except Raised (Option (List RerankResult)) × World :=
  if asks c then
    match served P w c with
    | some results => (.ok (some results), w)
    | none =>
      match c.reply with
      | none => (.ok none, w)
      | some text =>
        match parseRankings P (strip text) c.articles with
        | .error e => (.error e, w)
        | .ok none => (.ok none, w)
        | .ok (some results) => (.ok (some results), if c.writable then w.store P c results else w)
  else (.ok none, w)

inductive Event where
  | call (c : Call)
  | expire (key : String)

def step (P : Python) (w : World) : Event → World
  | .call c => (rerank P w c).2
  | .expire key => ⟨Function.update w.rows key none, Function.update w.origins key none⟩

def run (P : Python) (es : List Event) : World := es.foldl (step P) ⟨fun _ => none, fun _ => none⟩

def kbIds (articles : List Article) : List String := articles.map fun a => a.kbId.orEmpty

/-- One result for each article, in their order, with a label in the range. -/
structure Aligned (articles : List Article) (results : List RerankResult) : Prop where
  ids : results.map (·.kbId) = kbIds articles
  labels : ∀ r ∈ results, 0 ≤ r.rawLabel ∧ r.rawLabel ≤ maxLabel

/-- What `float` gives for the value is not infinite, if it gives anything. -/
def FiniteValue (P : Python) : Value → Prop
  | .int n => ¬ TooLarge n
  | .float repr => ∀ negative, P.floatValue repr ≠ .infinite negative
  | .str s => ∀ negative, P.parseFloat s ≠ some (.infinite negative)
  | _ => True

/-- The reply is no JSON for the decoder, or every row in it has a printable id and a relevance
that is not infinite. -/
structure Harmless (P : Python) (text : String) : Prop where
  decoded : ∀ e, P.decode (replyText text) = .error e → e = .valueError
  printable : ∀ doc rows items, P.decode (replyText text) = .ok doc → rowsOf doc = some rows →
    .dict items ∈ rows → ∃ s, str P (idValue items) = .ok s
  finite : ∀ doc rows items, P.decode (replyText text) = .ok doc → rowsOf doc = some rows →
    .dict items ∈ rows → FiniteValue P (relevanceValue items)

def ServedAligned (P : Python) (es : List Event) : Prop :=
  ∀ before c after, es = before ++ .call c :: after →
    ∀ results, served P (run P before) c = some results → Aligned c.articles results

def SameOrder (P : Python) (es : List Event) : Prop :=
  ∀ before c after, es = before ++ .call c :: after → asks c → c.readable →
    ∀ j, (run P before).origins (rerankCacheKey P c) = some j →
      kbIds j.articles = kbIds c.articles

variable {P : Python}

theorem labelOf_of_float {v : Value} {x : PyFloat} (h : floatOf P v = .ok x) :
    (∃ n, labelOf P v = .ok n) ↔ ∀ negative, x ≠ .infinite negative := by
  unfold labelOf
  rw [h]
  cases x with
  | finite q => simp [bind, Except.bind, roundInt]
  | infinite negative => simp [bind, Except.bind, roundInt]
  | nan => simp [bind, Except.bind, roundInt]

theorem labelOf_of_caught {v : Value} {e : Raised} (h : floatOf P v = .error e)
    (he : e = .typeError ∨ e = .valueError) : ∃ n, labelOf P v = .ok n := by
  unfold labelOf
  rw [h]
  rcases he with rfl | rfl
  · exact ⟨0, rfl⟩
  · exact ⟨0, rfl⟩

theorem labelOf_isOk {v : Value} : (∃ n, labelOf P v = .ok n) ↔ FiniteValue P v := by
  cases v with
  | int n =>
    unfold FiniteValue
    by_cases hn : TooLarge n
    · have hf : floatOf P (.int n) = .error .overflowError := by rw [floatOf, if_pos hn]
      have hlabel : labelOf P (.int n) = .error .overflowError := by
        unfold labelOf
        rw [hf]
        rfl
      rw [hlabel]
      constructor
      · rintro ⟨_, h⟩
        cases h
      · exact fun h => absurd hn h
    · have hf : floatOf P (.int n) = .ok (.finite n) := by rw [floatOf, if_neg hn]
      rw [labelOf_of_float hf]
      exact iff_of_true (fun _ h => by cases h) hn
  | float repr => exact labelOf_of_float rfl
  | str s =>
    unfold FiniteValue
    cases hs : P.parseFloat s with
    | none =>
      have hf : floatOf P (.str s) = .error .valueError := by rw [floatOf, hs]
      refine iff_of_true (labelOf_of_caught hf (Or.inr rfl)) fun negative h => ?_
      rw [hs] at h
      cases h
    | some x =>
      have hf : floatOf P (.str s) = .ok x := by rw [floatOf, hs]
      rw [labelOf_of_float hf]
      simp only [hs, ne_eq, Option.some.injEq]
  | bool b => exact iff_of_true ⟨_, rfl⟩ trivial
  | null => exact iff_of_true ⟨0, rfl⟩ trivial
  | list xs => exact iff_of_true ⟨0, rfl⟩ trivial
  | tuple xs => exact iff_of_true ⟨0, rfl⟩ trivial
  | dict items => exact iff_of_true ⟨0, rfl⟩ trivial
  | object text => exact iff_of_true ⟨0, rfl⟩ trivial

theorem collect_isOk {rows : List Value} {byId : List (String × ℤ)} :
    (∃ found, collect P rows byId = .ok found) ↔ ∀ items, .dict items ∈ rows →
      (∃ s, str P (idValue items) = .ok s) ∧ FiniteValue P (relevanceValue items) := by
  induction rows generalizing byId with
  | nil => simp [collect]
  | cons row rows ih =>
    cases row with
    | dict items =>
      constructor
      · rintro ⟨found, h⟩
        obtain ⟨rid, hrid, h⟩ := bind_eq_ok.mp h
        obtain ⟨label, hlabel, h⟩ := bind_eq_ok.mp h
        intro items' hmem
        rcases List.mem_cons.mp hmem with heq | hrest
        · cases heq
          exact ⟨⟨rid, hrid⟩, labelOf_isOk.mp ⟨label, hlabel⟩⟩
        · exact ih.mp ⟨found, h⟩ items' hrest
      · intro hall
        obtain ⟨⟨rid, hrid⟩, hfinite⟩ := hall items List.mem_cons_self
        obtain ⟨label, hlabel⟩ := labelOf_isOk.mpr hfinite
        obtain ⟨found, hfound⟩ :=
          ih.mpr fun items' hmem => hall items' (List.mem_cons_of_mem _ hmem)
        exact ⟨found, bind_eq_ok.mpr ⟨rid, hrid, bind_eq_ok.mpr ⟨label, hlabel, hfound⟩⟩⟩
    | _ =>
      rw [collect]
      · rw [ih]
        simp
      · intro items h
        cases h

/-- The labels in the table of a list of rows are in the range. -/
theorem collect_labels {rows : List Value} {byId found : List (String × ℤ)}
    (h : collect P rows byId = .ok found) (hb : ∀ e ∈ byId, 0 ≤ e.2 ∧ e.2 ≤ maxLabel) :
    ∀ e ∈ found, 0 ≤ e.2 ∧ e.2 ≤ maxLabel := by
  induction rows generalizing byId with
  | nil =>
    cases h
    exact hb
  | cons row rows ih =>
    cases row with
    | dict items =>
      obtain ⟨rid, _, h⟩ := bind_eq_ok.mp h
      obtain ⟨label, _, h⟩ := bind_eq_ok.mp h
      refine ih h ?_
      split_ifs
      · intro e he
        rcases mem_upsert.mp he with rfl | ⟨he, _⟩
        · unfold clamp maxLabel
          omega
        · exact hb e he
      · exact hb
    | _ => exact ih h hb

theorem resultFor_label {byId : List (String × ℤ)} (h : ∀ e ∈ byId, 0 ≤ e.2 ∧ e.2 ≤ maxLabel)
    (a : Article) : 0 ≤ (resultFor byId a).rawLabel ∧ (resultFor byId a).rawLabel ≤ maxLabel := by
  unfold resultFor
  cases hf : byId.find? fun e => e.1 = a.kbId.orEmpty with
  | none =>
    have hmax : (0 : ℤ) ≤ maxLabel := by decide
    exact ⟨Int.le_refl 0, hmax⟩
  | some e => exact h e (List.mem_of_find?_eq_some hf)

theorem parseRankings_aligned {text : String} {articles : List Article}
    {results : List RerankResult} (h : parseRankings P text articles = .ok (some results)) :
    Aligned articles results := by
  unfold parseRankings at h
  cases hd : P.decode (replyText text) with
  | error e =>
    rw [hd] at h
    cases e <;> cases h
  | ok doc =>
    rw [hd] at h
    dsimp only at h
    cases hr : rowsOf doc with
    | none =>
      rw [hr] at h
      cases h
    | some rows =>
      rw [hr] at h
      obtain ⟨byId, hc, h⟩ := bind_eq_ok.mp h
      split_ifs at h with hempty
      · cases h
      · cases h
        have hlabels := collect_labels hc fun e he => by cases he
        refine ⟨List.map_map, fun r hr => ?_⟩
        obtain ⟨a, _, rfl⟩ := List.mem_map.mp hr
        exact resultFor_label hlabels a

theorem harmless_of_error {text : String} {e : Raised}
    (h : P.decode (replyText text) = .error e) : Harmless P text ↔ e = .valueError := by
  constructor
  · exact fun hh => hh.decoded e h
  · rintro rfl
    refine ⟨fun e he => ?_, fun _ _ _ hok => ?_, fun _ _ _ hok => ?_⟩
    · rw [h] at he
      exact (Except.error.inj he).symm
    · rw [h] at hok
      cases hok
    · rw [h] at hok
      cases hok

theorem harmless_of_ok {text : String} {doc : Doc} (h : P.decode (replyText text) = .ok doc) :
    Harmless P text ↔ ∀ rows items, rowsOf doc = some rows → .dict items ∈ rows →
      (∃ s, str P (idValue items) = .ok s) ∧ FiniteValue P (relevanceValue items) := by
  constructor
  · exact fun hh rows items hrows hmem =>
      ⟨hh.printable doc rows items h hrows hmem, hh.finite doc rows items h hrows hmem⟩
  · intro hall
    refine ⟨fun e he => ?_, fun doc' rows items hok hrows hmem => ?_,
      fun doc' rows items hok hrows hmem => ?_⟩
    · rw [h] at he
      cases he
    · rw [h] at hok
      cases hok
      exact (hall rows items hrows hmem).1
    · rw [h] at hok
      cases hok
      exact (hall rows items hrows hmem).2

theorem parseRankings_isOk {text : String} {articles : List Article} :
    (∃ r, parseRankings P text articles = .ok r) ↔ Harmless P text := by
  unfold parseRankings
  cases hd : P.decode (replyText text) with
  | error e =>
    rw [harmless_of_error hd]
    cases e <;> simp
  | ok doc =>
    rw [harmless_of_ok hd]
    dsimp only
    cases hr : rowsOf doc with
    | none => exact iff_of_true ⟨none, rfl⟩ fun _ _ hrows => by cases hrows
    | some rows =>
      have hcollect := @collect_isOk P rows []
      constructor
      · rintro ⟨r, h⟩ rows' items hrows hmem
        obtain ⟨found, hfound, _⟩ := bind_eq_ok.mp h
        cases hrows
        exact hcollect.mp ⟨found, hfound⟩ items hmem
      · intro hall
        obtain ⟨found, hfound⟩ := hcollect.mpr fun items hmem => hall rows items rfl hmem
        by_cases hempty : found = []
        · exact ⟨none, bind_eq_ok.mpr ⟨found, hfound, if_pos hempty⟩⟩
        · exact ⟨_, bind_eq_ok.mpr ⟨found, hfound, if_neg hempty⟩⟩

theorem run_append (es : List Event) (e : Event) : run P (es ++ [e]) = step P (run P es) e := by
  unfold run
  rw [List.foldl_append]
  rfl

/-- Each row in the cache was read from the reply of the call that it comes from. -/
theorem run_traced (es : List Event) :
    Traced (rerankCacheKey P) (judged P) (run P es).rows (run P es).origins := by
  induction es using List.reverseRecOn with
  | nil => exact traced_empty
  | append_singleton es e ih =>
    rw [run_append]
    cases e with
    | expire key => exact ih.drop key
    | call c =>
      show Traced _ _ (rerank P (run P es) c).2.rows (rerank P (run P es) c).2.origins
      unfold rerank
      split
      · split
        · exact ih
        · split
          · exact ih
          · next text hreply =>
            split
            · exact ih
            · exact ih
            · next results hresults =>
              have hjudged : judged P c = some results := by
                unfold judged
                rw [hreply]
                dsimp only
                rw [hresults]
              split_ifs
              · exact ih.store hjudged
              · exact ih
      · exact ih

/-- A call that finds nothing stores what it reads of its reply. -/
theorem rerank_stores {w : World} {c : Call} {text : String} {results : List RerankResult}
    (hasks : asks c) (hnone : served P w c = none) (hreply : c.reply = some text)
    (hparse : parseRankings P (strip text) c.articles = .ok (some results))
    (hwritable : c.writable) : (rerank P w c).2 = w.store P c results := by
  unfold rerank
  rw [if_pos hasks, hnone, hreply]
  dsimp only
  rw [hparse]
  exact if_pos hwritable

theorem judged_aligned {c : Call} {results : List RerankResult} (h : judged P c = some results) :
    Aligned c.articles results := by
  unfold judged at h
  cases hreply : c.reply with
  | none =>
    rw [hreply] at h
    cases h
  | some text =>
    rw [hreply] at h
    dsimp only at h
    cases hparse : parseRankings P (strip text) c.articles with
    | error e =>
      rw [hparse] at h
      cases h
    | ok r =>
      rw [hparse] at h
      dsimp only at h
      rw [h] at hparse
      exact parseRankings_aligned hparse

theorem served_origin {es : List Event} {c : Call} {results : List RerankResult}
    (h : served P (run P es) c = some results) :
    ∃ j, (run P es).origins (rerankCacheKey P c) = some j ∧ Aligned j.articles results := by
  unfold served at h
  split_ifs at h
  obtain ⟨j, hj, _, hjudged⟩ := (run_traced es).origin h
  exact ⟨j, hj, judged_aligned hjudged⟩

theorem Aligned.transfer {articles articles' : List Article} {results : List RerankResult}
    (h : Aligned articles results) :
    Aligned articles' results ↔ kbIds articles = kbIds articles' := by
  constructor
  · exact fun h' => h.ids.symm.trans h'.ids
  · exact fun heq => ⟨h.ids.trans heq, h.labels⟩

theorem servedAligned_iff (es : List Event) : ServedAligned P es ↔ SameOrder P es := by
  constructor
  · intro h before c after hes hasks hreadable j hj
    obtain ⟨_, hrow, hne⟩ := (run_traced before).stored _ j hj
    obtain ⟨results, hjudged⟩ := Option.ne_none_iff_exists'.mp hne
    have hserved : served P (run P before) c = some results := by
      unfold served
      rw [hasks, hreadable, Bool.and_self, if_pos rfl, hrow, hjudged]
    exact (judged_aligned hjudged).transfer.mp (h before c after hes results hserved)
  · intro h before c after hes results hserved
    obtain ⟨j, hj, haligned⟩ := served_origin hserved
    have hgate : asks c = true ∧ c.readable = true := by
      unfold served at hserved
      split_ifs at hserved with hcond
      rwa [Bool.and_eq_true] at hcond
    exact haligned.transfer.mpr (h before c after hes hgate.1 hgate.2 j hj)

/-- Reading a reply raises nothing and gives a result for each article, exactly when the reply is
harmless; and in a run every served result is aligned exactly when each call lists its articles
in the order of the call whose row it finds. -/
theorem rerank_aligned_iff (P : Python) :
    (∀ text articles, (∃ r, parseRankings P text articles = .ok r ∧
        ∀ results ∈ r, Aligned articles results) ↔ Harmless P text) ∧
      ∀ es, ServedAligned P es ↔ SameOrder P es := by
  refine ⟨fun text articles => ?_, servedAligned_iff⟩
  rw [← @parseRankings_isOk P text articles]
  constructor
  · rintro ⟨r, h, _⟩
    exact ⟨r, h⟩
  · rintro ⟨r, h⟩
    refine ⟨r, h, fun results hr => ?_⟩
    rw [hr] at h
    exact parseRankings_aligned h

theorem fingerprint_perm {articles articles' : List Article} (h : articles.Perm articles') :
    candidateFingerprint P articles = candidateFingerprint P articles' := by
  have hsort : ∀ parts parts' : List String, parts.Perm parts' →
      parts.insertionSort (· ≤ ·) = parts'.insertionSort (· ≤ ·) := by
    intro parts parts' hp
    refine List.Perm.eq_of_pairwise' (r := (· ≤ ·)) (List.pairwise_insertionSort _ _)
      (List.pairwise_insertionSort _ _) ?_
    exact (List.perm_insertionSort _ _).trans (hp.trans (List.perm_insertionSort _ _).symm)
  unfold candidateFingerprint
  rw [hsort _ _ (h.map _)]

def infiniteReply : String :=
  "\x7b\"rankings\": [\x7b\"id\": \"KB1\", \"relevance\": 1e400\x7d]\x7d"

def infiniteDoc : Doc :=
  .obj [("rankings", .arr [.obj [("id", .str "KB1"), ("relevance", .float "inf")]])]

def bestReply : String := "\x7b\"rankings\": [\x7b\"id\": \"KB1\", \"relevance\": 3\x7d]\x7d"

def bestDoc : Doc :=
  .obj [("rankings", .arr [.obj [("id", .str "KB1"), ("relevance", .int 3)]])]

def twoReplies (lower sha256 : String → String) : Python where
  decode s := if s = infiniteReply then .ok infiniteDoc
    else if s = bestReply then .ok bestDoc
    else .error .valueError
  floatValue repr := if repr = "inf" then .infinite false else .nan
  parseFloat _ := none
  render _ := .error .recursionError
  lower := lower
  sha256 := sha256

def plainArticle (id : String) : Article := ⟨.text id, .text id, .missing, .missing⟩

def askAbout (ids : List String) (reply : Option String) : Call :=
  ⟨"t1", "gpt-4o", "vpn", ids.map plainArticle, reply, true, true⟩

theorem twoReplies_best (lower sha256 : String → String) :
    (twoReplies lower sha256).decode (replyText (strip bestReply)) = .ok bestDoc := by
  have htext : replyText (strip bestReply) = bestReply := by decide +kernel
  have hother : bestReply ≠ infiniteReply := by decide +kernel
  rw [htext]
  simp [twoReplies, hother]

theorem bestReply_parsed (lower sha256 : String → String) :
    parseRankings (twoReplies lower sha256) (strip bestReply)
        [plainArticle "KB1", plainArticle "KB2"] = .ok (some [⟨"KB1", 1, 3⟩, ⟨"KB2", 0, 0⟩]) := by
  have hsmall : ¬ TooLarge 3 := by decide +kernel
  have hround : roundInt (.finite ((3 : ℤ) : ℚ)) = .ok 3 := by decide +kernel
  have hlabel : labelOf (twoReplies lower sha256) (.int 3) = .ok 3 := by
    have hfloat : floatOf (twoReplies lower sha256) (.int 3) = .ok (.finite ((3 : ℤ) : ℚ)) := by
      rw [floatOf, if_neg hsmall]
    unfold labelOf
    rw [hfloat]
    simp only [bind, Except.bind]
    rw [hround]
  have hrows : rowsOf bestDoc =
      some [.dict [(.str "id", .str "KB1"), (.str "relevance", .int 3)]] := by
    rfl
  have hid : strip "KB1" = "KB1" := by decide +kernel
  have hcollect : collect (twoReplies lower sha256)
      [.dict [(.str "id", .str "KB1"), (.str "relevance", .int 3)]] [] = .ok [("KB1", 3)] := by
    have hkey : idValue [(.str "id", .str "KB1"), (.str "relevance", .int 3)] = .str "KB1" := rfl
    have hrelevance : relevanceValue [(.str "id", .str "KB1"), (.str "relevance", .int 3)] =
        .int 3 :=
      rfl
    rw [collect, hkey, hrelevance, hlabel]
    simp [str, bind, Except.bind, hid, upsert, clamp, maxLabel, collect]
  unfold parseRankings
  rw [twoReplies_best]
  dsimp only
  rw [hrows]
  dsimp only
  rw [hcollect]
  simp [bind, Except.bind, resultFor, plainArticle, Field.orEmpty, maxLabel]

theorem infiniteReply_raises (lower sha256 : String → String) :
    parseRankings (twoReplies lower sha256) infiniteReply [plainArticle "KB1"] =
      .error .overflowError := by
  have htext : replyText infiniteReply = infiniteReply := by decide +kernel
  have hdecode : (twoReplies lower sha256).decode (replyText infiniteReply) = .ok infiniteDoc := by
    rw [htext]
    simp [twoReplies]
  have hrows : rowsOf infiniteDoc =
      some [.dict [(.str "id", .str "KB1"), (.str "relevance", .float "inf")]] := rfl
  have hlabel : labelOf (twoReplies lower sha256) (.float "inf") = .error .overflowError := rfl
  have hkey : idValue [(.str "id", .str "KB1"), (.str "relevance", .float "inf")] =
      .str "KB1" := rfl
  have hrelevance : relevanceValue [(.str "id", .str "KB1"), (.str "relevance", .float "inf")] =
      .float "inf" := rfl
  unfold parseRankings
  rw [hdecode]
  dsimp only
  rw [hrows]
  dsimp only
  rw [collect, hkey, hrelevance, hlabel]
  rfl

theorem order_forgotten :
    (∀ lower sha256, parseRankings (twoReplies lower sha256) infiniteReply [plainArticle "KB1"] =
        .error .overflowError) ∧
      (∀ lower sha256, served (twoReplies lower sha256)
          (run (twoReplies lower sha256) [.call (askAbout ["KB1", "KB2"] (some bestReply))])
          (askAbout ["KB2", "KB1"] none) = some [⟨"KB1", 1, 3⟩, ⟨"KB2", 0, 0⟩]) ∧
      ¬ Aligned (askAbout ["KB2", "KB1"] none).articles [⟨"KB1", 1, 3⟩, ⟨"KB2", 0, 0⟩] := by
  refine ⟨infiniteReply_raises, fun lower sha256 => ?_, fun h => absurd h.ids (by decide)⟩
  have hkey : rerankCacheKey (twoReplies lower sha256) (askAbout ["KB2", "KB1"] none) =
      rerankCacheKey (twoReplies lower sha256) (askAbout ["KB1", "KB2"] (some bestReply)) := by
    have hprint := @fingerprint_perm (twoReplies lower sha256)
      (askAbout ["KB2", "KB1"] none).articles (askAbout ["KB1", "KB2"] (some bestReply)).articles
      (List.Perm.swap _ _ _)
    unfold rerankCacheKey
    rw [hprint]
    rfl
  have hrun : run (twoReplies lower sha256) [.call (askAbout ["KB1", "KB2"] (some bestReply))] =
      World.store (twoReplies lower sha256) ⟨fun _ => none, fun _ => none⟩
        (askAbout ["KB1", "KB2"] (some bestReply)) [⟨"KB1", 1, 3⟩, ⟨"KB2", 0, 0⟩] :=
    rerank_stores rfl rfl rfl (bestReply_parsed lower sha256) rfl
  unfold served
  rw [hkey, hrun]
  exact Function.update_self _ _ _

end KbRerank
