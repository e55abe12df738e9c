import OneOps.SimilarTicketsConfinement

/-! The order of the answer for a stored ticket. Candidates are scored in the order of the
query, the first of that order are held against the diagnosis trail, and only then are they
sorted by their composite score. -/
namespace SimilarTicketsRanking

open SimilarTickets

section Stages

variable {F V : Type} [Add F] [Sub F] [Mul F] [Div F] [LT F] [DecidableLT F] [OfScientific F]

deriving instance DecidableEq for Candidate, Scored

structure Ranking (F : Type) where
  scored : List (Scored F)
  top : List (Scored F)
  deriving DecidableEq

def rankingStages (E : Env F V) (db : Db V) (q : Search F V) (src : Option Ticket)
    (diag : Option V) (rows : List (Candidate F)) : Except Raised (Ranking F) := do
  let scored ← rerankCandidates E src q.minSimilarityScore rows
  let scored := confirmed E db q diag scored
  pure ⟨scored, sliceTo (sortByComposite scored) q.maxResults⟩

theorem rank_eq_rankingStages (E : Env F V) (db : Db V) (q : Search F V) (src : Option Ticket)
    (anchor : V) (diag : Option V) :
    rank E db q src anchor diag none = (do
      let rows ← candidates E db q src anchor
      let ranking ← rankingStages E db q src diag rows
      pure (rows.length, ranking.top)) := by
  unfold rank rankingStages
  cases candidates E db q src anchor with
  | error e => rfl
  | ok rows =>
    cases hscored : rerankCandidates E src q.minSimilarityScore rows with
    | error e => simp only [bind, Except.bind, hscored]
    | ok scored => simp only [bind, Except.bind, hscored, pure, Except.pure, Option.elim_none]

def semanticScore (c : Candidate F) : F := clamp ((1.0 : F) - c.distance)

def rated (E : Env F V) (src : Option Ticket) (c : Candidate F) : Scored F :=
  let sem := semanticScore c
  let signal : F × List String := metadataSignal src c.ticket
  let trust := semTrust sem
  { ticket := c.ticket
    sem := sem
    trust := trust
    composite := 0.60 * sem + 0.25 * signal.1 * trust +
      0.15 * recencyDecay E c.ticket.openedAt * trust
    why := if E.text.lower (c.ticket.status.getD "") ∈ resolvedStatuses
      then signal.2 ++ ["resolved"] else signal.2 }

def Survives (E : Env F V) (src : Option Ticket) (minScore : F) (c : Candidate F) : Prop :=
  ¬ semanticScore c < 0.10 ∧ ¬ (rated E src c).composite < minScore

instance (E : Env F V) (src : Option Ticket) (minScore : F) :
    DecidablePred (Survives E src minScore) :=
  fun _ => inferInstanceAs (Decidable (_ ∧ _))

def survivors (E : Env F V) (src : Option Ticket) (minScore : F) (rows : List (Candidate F)) :
    List (Scored F) :=
  (rows.filter fun c => Survives E src minScore c).map (rated E src)

def trailOf (db : Db V) (q : Search F V) (id : String) : Option (Embedding V) :=
  (db.embeddings.filter fun e => e.tenantId = q.tenantId ∧ e.serviceId = q.serviceId ∧
    e.chunkType = .diagnosisTrail).reverse.find? fun e => e.entityId = id

def Confirms (E : Env F V) (db : Db V) (q : Search F V) (diag : V) (d : Scored F) : Prop :=
  ∃ e, trailOf db q d.ticket.id = some e ∧
    ¬ (1.0 : F) - E.distance e.embedding diag < E.diagThreshold

instance (E : Env F V) (db : Db V) (q : Search F V) (diag : V) (d : Scored F) :
    Decidable (Confirms E db q diag d) :=
  match h : trailOf db q d.ticket.id with
  | none => isFalse fun ⟨_, he, _⟩ => Option.some_ne_none _ (he.symm.trans h)
  | some e =>
    if hlt : (1.0 : F) - E.distance e.embedding diag < E.diagThreshold then
      isFalse fun ⟨_, he, hge⟩ => hge (Option.some.inj (h.symm.trans he) ▸ hlt)
    else isTrue ⟨e, h, hlt⟩

def boost (E : Env F V) (d : Scored F) : Scored F :=
  { d with
    composite := d.composite + E.diagBoost * d.trust
    why := d.why ++ ["diagnosis_match"] }

/-- The places of the `n` candidates with the highest composite score; equal scores keep the
order of the query, as they do in the final sort. -/
def bestPlaces (n : ℤ) (scored : List (Scored F)) : List ℕ :=
  (sliceTo (scored.zipIdx.insertionSort fun a b => ¬ a.1.composite < b.1.composite) n).map
    Prod.snd

def confirmBest (E : Env F V) (db : Db V) (q : Search F V) (diag : Option V)
    (scored : List (Scored F)) : List (Scored F) :=
  match diag with
  | none => scored
  | some v => scored.zipIdx.map fun p =>
      if p.2 ∈ bestPlaces q.maxResults scored ∧ Confirms E db q v p.1 then boost E p.1 else p.1

/-- Nothing is raised, the confirmed ones of the best candidates are nudged and no others, and
the answer is the head of all survivors by composite score. -/
def RanksByComposite (E : Env F V) (db : Db V) (q : Search F V) (src : Option Ticket)
    (diag : Option V) (rows : List (Candidate F)) : Prop :=
  let scored := confirmBest E db q diag (survivors E src q.minSimilarityScore rows)
  rankingStages E db q src diag rows =
    .ok ⟨scored, sliceTo (sortByComposite scored) q.maxResults⟩

instance [DecidableEq F] (E : Env F V) (db : Db V) (q : Search F V) (src : Option Ticket)
    (diag : Option V) (rows : List (Candidate F)) :
    Decidable (RanksByComposite E db q src diag rows) :=
  inferInstanceAs (Decidable (_ = _))

def firstIds (q : Search F V) (scored : List (Scored F)) : List String :=
  (sliceTo scored q.maxResults).map fun d => d.ticket.id

/-- Every row over the floor has a status, and of the confirmed survivors those among the
first of the query are those with the best composite scores. -/
structure OrdersAgree (E : Env F V) (db : Db V) (q : Search F V) (src : Option Ticket)
    (diag : Option V) (rows : List (Candidate F)) : Prop where
  status : ∀ c ∈ rows, ¬ semanticScore c < 0.10 → c.ticket.status ≠ none
  chosen : ∀ v, diag = some v →
    ∀ p ∈ (survivors E src q.minSimilarityScore rows).zipIdx, Confirms E db q v p.1 →
      (p.1.ticket.id ∈ firstIds q (survivors E src q.minSimilarityScore rows) ↔
        p.2 ∈ bestPlaces q.maxResults (survivors E src q.minSimilarityScore rows))

variable {E : Env F V} {db : Db V} {q : Search F V} {src : Option Ticket} {m : F}

theorem rerankOne_eq_error {c : Candidate F} (hsem : ¬ semanticScore c < 0.10)
    (hstatus : c.ticket.status = none) : rerankOne E src m c = .error .attributeError := by
  unfold semanticScore at hsem
  unfold rerankOne
  dsimp only
  rw [if_neg hsem, hstatus]

theorem rerankOne_eq_ok {c : Candidate F}
    (hstatus : ¬ semanticScore c < 0.10 → c.ticket.status ≠ none) :
    rerankOne E src m c = .ok (if Survives E src m c then some (rated E src c) else none) := by
  unfold rerankOne
  dsimp only
  split
  · next hlt =>
    have hdrop : ¬ Survives E src m c := fun h => h.1 hlt
    rw [if_neg hdrop]
  · next hge =>
    obtain ⟨status, hs⟩ := Option.ne_none_iff_exists'.mp (hstatus hge)
    have hrated : rated E src c =
        { ticket := c.ticket
          sem := semanticScore c
          trust := semTrust (semanticScore c)
          composite := 0.60 * semanticScore c +
            0.25 * (metadataSignal src c.ticket : F × List String).1 * semTrust (semanticScore c) +
            0.15 * recencyDecay E c.ticket.openedAt * semTrust (semanticScore c)
          why := if E.text.lower status ∈ resolvedStatuses
            then (metadataSignal src c.ticket : F × List String).2 ++ ["resolved"]
            else (metadataSignal src c.ticket : F × List String).2 } := by
      simp only [rated, hs, Option.getD_some]
    rw [hs]
    dsimp only
    split
    · next hlt =>
      have hdrop : ¬ Survives E src m c := fun h => h.2 (by rw [hrated]; exact hlt)
      rw [if_neg hdrop]
    · next hle =>
      have hkeep : Survives E src m c := ⟨hge, by rw [hrated]; exact hle⟩
      rw [if_pos hkeep, hrated]
      rfl

theorem rerankCandidates_eq_ok {rows : List (Candidate F)}
    (h : ∀ c ∈ rows, ¬ semanticScore c < 0.10 → c.ticket.status ≠ none) :
    rerankCandidates E src m rows = .ok (survivors E src m rows) := by
  induction rows with
  | nil => rfl
  | cons c cs ih =>
    obtain ⟨hc, hcs⟩ := List.forall_mem_cons.mp h
    have hsplit : survivors E src m (c :: cs) =
        (if Survives E src m c then some (rated E src c) else none).toList ++
          survivors E src m cs := by
      unfold survivors
      rw [List.filter_cons]
      by_cases hk : Survives E src m c
      · simp [hk]
      · simp [hk]
    rw [rerankCandidates, rerankOne_eq_ok hc, ih hcs, hsplit]
    rfl

theorem status_of_rerankCandidates_ok {rows : List (Candidate F)} {scored : List (Scored F)}
    (h : rerankCandidates E src m rows = .ok scored) :
    ∀ c ∈ rows, ¬ semanticScore c < 0.10 → c.ticket.status ≠ none := by
  induction rows generalizing scored with
  | nil =>
    intro c hc
    cases hc
  | cons c cs ih =>
    rw [rerankCandidates] at h
    obtain ⟨kept, hkept, h⟩ := ExceptLoops.bind_eq_ok.mp h
    obtain ⟨rest, hrest, -⟩ := ExceptLoops.bind_eq_ok.mp h
    refine List.forall_mem_cons.mpr ⟨?_, ih hrest⟩
    intro hsem hstatus
    rw [rerankOne_eq_error hsem hstatus] at hkept
    cases hkept

omit [Add F] [Sub F] [Mul F] [Div F] [LT F] [DecidableLT F] [OfScientific F] in
theorem find?_asked (ids : List String) (id : String) :
    (db.embeddings.filter fun e => e.tenantId = q.tenantId ∧ e.serviceId = q.serviceId ∧
        e.chunkType = .diagnosisTrail ∧ e.entityId ∈ ids).reverse.find?
      (fun e => e.entityId = id) = if id ∈ ids then trailOf db q id else none := by
  unfold trailOf
  rw [← List.filter_reverse, ← List.filter_reverse, List.find?_filter, List.find?_filter]
  split
  · next hin =>
    congr 1
    funext e
    rw [Bool.eq_iff_iff]
    simp only [decide_eq_true_eq]
    grind
  · next hout =>
    rw [List.find?_eq_none]
    intro e _
    simp only [decide_eq_true_eq]
    grind

omit [Div F] in
theorem confirmWithDiagnosis_eq (v : V) (scored : List (Scored F)) :
    confirmWithDiagnosis E db q v scored = scored.map fun d =>
      if d.ticket.id ∈ firstIds q scored ∧ Confirms E db q v d then boost E d else d := by
  unfold confirmWithDiagnosis
  dsimp only
  refine List.map_congr_left ?_
  intro d _
  rw [find?_asked ((sliceTo scored q.maxResults).map fun d => d.ticket.id)]
  by_cases hin : d.ticket.id ∈ firstIds q scored
  · rw [if_pos (show d.ticket.id ∈ (sliceTo scored q.maxResults).map fun d => d.ticket.id from hin)]
    cases htrail : trailOf db q d.ticket.id with
    | none =>
      have hno : ¬ Confirms E db q v d := by
        rintro ⟨e, he, -⟩
        rw [htrail] at he
        cases he
      rw [if_neg fun h => hno h.2]
    | some e =>
      have hyes : Confirms E db q v d ↔
          ¬ (1.0 : F) - E.distance e.embedding v < E.diagThreshold := by
        constructor
        · rintro ⟨e', he', hge⟩
          rw [htrail] at he'
          cases he'
          exact hge
        · exact fun hge => ⟨e, htrail, hge⟩
      dsimp only
      split
      · next hlt => rw [if_neg fun h => hyes.mp h.2 hlt]
      · next hge => rw [if_pos ⟨hin, hyes.mpr hge⟩, boost]
  · rw [if_neg (show d.ticket.id ∉ (sliceTo scored q.maxResults).map fun d => d.ticket.id from hin),
      if_neg fun h => hin h.1]

omit [Sub F] [Div F] [LT F] [DecidableLT F] [OfScientific F] in
theorem boost_ne (d : Scored F) : boost E d ≠ d := by
  intro h
  have hlen := congrArg (fun x => x.why.length) h
  simp [boost] at hlen

theorem map_zipIdx_fst {α β : Type} (f : α → β) (xs : List α) :
    xs.map f = xs.zipIdx.map fun p => f p.1 := by
  calc xs.map f = (xs.zipIdx.map Prod.fst).map f := by rw [List.zipIdx_map_fst]
    _ = xs.zipIdx.map fun p => f p.1 := List.map_map

omit [Sub F] [Div F] [LT F] [DecidableLT F] [OfScientific F] in
/-- Two ways of nudging give the same list exactly when they choose the same confirmed
places. -/
theorem map_boost_eq_iff {scored : List (Scored F)} {A : Scored F × ℕ → Prop} [DecidablePred A]
    {B : Scored F × ℕ → Prop} [DecidablePred B] :
    scored.zipIdx.map (fun p => if A p then boost E p.1 else p.1) =
        scored.zipIdx.map (fun p => if B p then boost E p.1 else p.1) ↔
      ∀ p ∈ scored.zipIdx, A p ↔ B p := by
  rw [List.map_inj_left]
  constructor
  · intro h p hp
    have hsame := h p hp
    by_cases ha : A p
    · by_cases hb : B p
      · exact iff_of_true ha hb
      · rw [if_pos ha, if_neg hb] at hsame
        exact absurd hsame (boost_ne p.1)
    · by_cases hb : B p
      · rw [if_neg ha, if_pos hb] at hsame
        exact absurd hsame.symm (boost_ne p.1)
      · exact iff_of_false ha hb
  · intro h p hp
    by_cases ha : A p
    · rw [if_pos ha, if_pos ((h p hp).mp ha)]
    · rw [if_neg ha, if_neg fun hb => ha ((h p hp).mpr hb)]

omit [Div F] in
theorem confirmed_eq_confirmBest_iff (diag : Option V) (scored : List (Scored F)) :
    confirmed E db q diag scored = confirmBest E db q diag scored ↔
      ∀ v, diag = some v → ∀ p ∈ scored.zipIdx, Confirms E db q v p.1 →
        (p.1.ticket.id ∈ firstIds q scored ↔ p.2 ∈ bestPlaces q.maxResults scored) := by
  cases diag with
  | none => simp [confirmed, confirmBest]
  | some v =>
    have hplaces : confirmWithDiagnosis E db q v scored = scored.zipIdx.map fun p =>
        if p.1.ticket.id ∈ firstIds q scored ∧ Confirms E db q v p.1 then boost E p.1 else p.1 := by
      rw [confirmWithDiagnosis_eq, map_zipIdx_fst]
    simp only [confirmed, confirmBest]
    rw [hplaces, map_boost_eq_iff]
    constructor
    · rintro h _ ⟨⟩ p hp hc
      have := h p hp
      tauto
    · intro h p hp
      have := h v rfl p hp
      tauto

end Stages

open SimilarTicketsConfinement (nearEnv incidentOf asciiText)

def lineEnv : Env ℚ ℕ :=
  { nearEnv asciiText with distance := fun v w => ((v - w : ℕ) + (w - v : ℕ) : ℚ) / 100 }

def vpnIncident (id : String) (status ciId : Option String) : Ticket :=
  { incidentOf "t" id none with status := status, ciId := ciId }

def vpnSource : Ticket := vpnIncident "INC0000001" (some "open") (some "CI0000001")

theorem vpnTickets_keys (status : Option String) :
    ([vpnSource, vpnIncident "INC0000002" (some "open") none,
      vpnIncident "INC0000003" status (some "CI0000001")].map Ticket.key).Nodup := by
  have hkeys : [vpnSource, vpnIncident "INC0000002" (some "open") none,
      vpnIncident "INC0000003" status (some "CI0000001")].map Ticket.key =
      [("t", .incident, "INC0000001"), ("t", .incident, "INC0000002"),
        ("t", .incident, "INC0000003")] := rfl
  rw [hkeys]
  decide

/-- The source, a nearer ticket, and a farther one on the same configuration item; both have
the diagnosis of the source. -/
def vpnDb (status : Option String) : Db ℕ where
  tickets := [vpnSource, vpnIncident "INC0000002" (some "open") none,
    vpnIncident "INC0000003" status (some "CI0000001")]
  embeddings := [⟨"t", .incident, "INC0000001", .symptomAnchor, 0, none⟩,
    ⟨"t", .incident, "INC0000002", .symptomAnchor, 10, none⟩,
    ⟨"t", .incident, "INC0000003", .symptomAnchor, 14, none⟩,
    ⟨"t", .incident, "INC0000001", .diagnosisTrail, 500, none⟩,
    ⟨"t", .incident, "INC0000002", .diagnosisTrail, 500, none⟩,
    ⟨"t", .incident, "INC0000003", .diagnosisTrail, 500, none⟩]
  keys := vpnTickets_keys status

def vpnSearch : Search ℚ ℕ :=
  ⟨"t", .incident, "INC0000001", "ann", "service_desk_agent", 1, none, false, false, "any", 1/2,
    true⟩

def vpnRows (status : Option String) : List (Candidate ℚ) :=
  [⟨vpnIncident "INC0000002" (some "open") none, 10 / 100⟩,
    ⟨vpnIncident "INC0000003" status (some "CI0000001"), 14 / 100⟩]

end SimilarTicketsRanking
