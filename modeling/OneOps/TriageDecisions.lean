import OneOps.TriageService

/-! Triage decisions are applied once. The lock on a ticket is its category and the lock on
a proposal is its cache entry. Both are read before they are taken, so that the results
hold in runs where a write takes the lock it was admitted by, and where a proposal read a
second time, before the first decision has ended, is only ever agreed to. -/
namespace TriageDecisions

open ProcessPool
open TriageService

/-- The decision of a call that can still return an outcome, or has returned one without
evicting the proposal. -/
def openOn : Call → Option Decision
  | .dispatched d => some d
  | .updating d _ _ _ => some d
  | .returning d _ _ _ => some d
  | .replying d (.ok _) => some d
  | .lost d => some d
  | _ => none

def settledOn : Call → Option Decision
  | .replying d (.ok _) => some d
  | .lost d => some d
  | _ => none

def committed : Call → List TicketKey
  | .returning d _ _ _ => [d.key]
  | _ => []

theorem openOn_of_settledOn {c : Call} {d : Decision} (h : settledOn c = some d) :
    openOn c = some d := by
  cases c with
  | replying d' reply =>
    cases reply with
    | error f => cases h
    | ok o => exact h
  | lost d' => exact h
  | _ => cases h

/-- The checks that a decide call passes before it acts on the cached proposal. -/
def admitted (py : Python) (w : World) (who : Principal) (payload : DecideRequest) : Bool :=
  (refusal py who).isNone &&
    match w.proposalCache payload.proposalId with
    | none => false
    | some p => p.tenantId = who.tenantId && badKeys p.serviceId payload.finalValues = [] &&
        who.userId.length ≤ 128

def Entry : Call → Prop
  | .propose _ _ _ => True
  | .decide _ _ => True
  | _ => False

def Fresh (w : World) : Input → Option Call → Prop
  | .proposal p, some (.proposing _ _ _) => ∀ q ∈ w.issued, q.proposalId ≠ p.proposalId
  | _, _ => True

/-- Calls start at their beginning, proposal ids are drawn fresh, and nobody clears the
category of a ticket that triage has written. -/
def Plausible (s : Pool World Call) : Event Call Input Edit → Prop
  | .spawn c => Entry c
  | .env e => e.key ∈ s.shared.writes → ∀ row ∈ e.row, row.fields .category ≠ none
  | .act i inp => Fresh s.shared inp s.procs[i]?

def Locks (w : World) (d : Decision) (values : Values) : Prop :=
  match encode d.proposal.serviceId values, w.tickets d.key with
  | some texts, some row =>
    row.fields .category = none → row.closed = false ∧ texts .category ≠ none
  | _, _ => True

/-- A proposal that another decision is open on is read only for a second yes. -/
def Agreed (s : Pool World Call) (payload : DecideRequest) : Prop :=
  ∀ c ∈ s.procs, ∀ d ∈ openOn c, d.proposalId = payload.proposalId →
    d.choice = .yes ∧ payload.choice = .yes

def Careful (py : Python) (s : Pool World Call) : Option Call → Prop
  | some (.updating d values _ _) => Locks s.shared d values
  | some (.decide who payload) => admitted py s.shared who payload = true → Agreed s payload
  | _ => True

def Orderly (py : Python) (s : Pool World Call) : Event Call Input Edit → Prop
  | .act i (.resume _) => Careful py s s.procs[i]?
  | _ => True

def Guard (py : Python) (s : Pool World Call) (e : Event Call Input Edit) : Prop :=
  Plausible s e ∧ Orderly py s e

def outcomesOf (w : World) (proposalId : String) : ℕ :=
  w.outcomes.countP fun r => r.2.proposalId = proposalId

def appliedTo (w : World) (key : TicketKey) : ℕ :=
  w.outcomes.countP fun r => r.1.key = key ∧ r.2.outcome = .applied

def Decided (issued : List Proposal) (ps : List Call) : Prop :=
  ∀ c ∈ ps, ∀ d ∈ openOn c, d.proposal ∈ issued ∧ d.proposal.proposalId = d.proposalId

def Apart (ps : List Call) : Prop :=
  ∀ (j k : ℕ) (x y : Call) (dx dy : Decision), j ≠ k → ps[j]? = some x → ps[k]? = some y →
    dx ∈ openOn x → dy ∈ openOn y → dx.proposalId = dy.proposalId → dx.choice = .yes

def Agrees (o : Outcome) (c : Call) : Prop :=
  ∀ d ∈ openOn c, d.proposalId = o.proposalId →
    match o.outcome with
    | .applied => d.choice = .yes
    | .discarded => settledOn c = some d ∧ d.choice = .no

def SettledFor (proposalId : String) (c : Call) : Prop :=
  ∃ d ∈ settledOn c, d.proposalId = proposalId

structure Once (s : Pool World Call) : Prop where
  ids : (s.shared.issued.map Proposal.proposalId).Nodup
  cached : ∀ id p, s.shared.proposalCache id = some p → p ∈ s.shared.issued ∧ p.proposalId = id
  recorded : ∀ r ∈ s.shared.outcomes, r.1 ∈ s.shared.issued ∧ r.1.proposalId = r.2.proposalId
  locked : ∀ key ∈ s.shared.writes, ∀ row, s.shared.tickets key = some row →
    row.fields .category ≠ none
  written : s.shared.writes.Nodup
  counted : ∀ key, appliedTo s.shared key + (held committed s.procs).count key ≤
    s.shared.writes.count key
  single : ∀ id, outcomesOf s.shared id ≤ 1
  decided : Decided s.shared.issued s.procs
  apart : Apart s.procs
  agrees : ∀ r ∈ s.shared.outcomes, ∀ c ∈ s.procs, Agrees r.2 c
  /-- A proposal with an outcome is gone from the cache, or will be, or is stuck with a
  decision whose route gave up. -/
  evicted : ∀ r ∈ s.shared.outcomes, s.shared.proposalCache r.2.proposalId = none ∨
    ∃ c ∈ s.procs, SettledFor r.2.proposalId c

/-- The same decision, whether or not its route still waits. -/
structure Like (d d' : Decision) : Prop where
  proposal : d'.proposal = d.proposal
  proposalId : d'.proposalId = d.proposalId
  choice : d'.choice = d.choice

theorem Like.refl (d : Decision) : Like d d := ⟨rfl, rfl, rfl⟩

theorem Like.giveUp (d : Decision) : Like d d.giveUp := by
  unfold Decision.giveUp
  split
  · exact Like.refl d
  · exact ⟨rfl, rfl, rfl⟩

def Narrows (c c' : Call) : Prop := ∀ d' ∈ openOn c', ∃ d ∈ openOn c, Like d d'

structure Kept (c c' : Call) : Prop where
  narrows : Narrows c c'
  settled : ∀ d ∈ settledOn c, ∃ d' ∈ settledOn c', Like d d'

theorem narrows_closed {c c' : Call} (h : openOn c' = none) : Narrows c c' := by
  intro d' hd'
  rw [h] at hd'
  cases hd'

theorem kept_closed {c c' : Call} (h : openOn c' = none) (hs : settledOn c = none) :
    Kept c c' := by
  refine ⟨narrows_closed h, fun d hd => ?_⟩
  rw [hs] at hd
  cases hd

theorem kept_same {c c' : Call} {d d' : Decision} (ho : openOn c = some d)
    (ho' : openOn c' = some d') (hl : Like d d') (hs : settledOn c = none ∨
      settledOn c' = some d') : Kept c c' := by
  refine ⟨fun x hx => ?_, fun x hx => ?_⟩
  · rw [ho'] at hx
    cases hx
    exact ⟨d, ho, hl⟩
  · rcases hs with hs | hs
    · rw [hs] at hx
      cases hx
    · have hxo := openOn_of_settledOn hx
      rw [ho] at hxo
      cases hxo
      exact ⟨d', hs, hl⟩

theorem kept_on {c c' : Call} (d : Decision) (ho : openOn c = some d) (ho' : openOn c' = some d)
    (hs : settledOn c = none ∨ settledOn c' = some d) : Kept c c' :=
  kept_same ho ho' (Like.refl d) hs

theorem Kept.refl (c : Call) : Kept c c :=
  ⟨fun d hd => ⟨d, hd, Like.refl d⟩, fun d hd => ⟨d, hd, Like.refl d⟩⟩

theorem Kept.agrees {c c' : Call} {o : Outcome} (hk : Kept c c') (h : Agrees o c) :
    Agrees o c' := by
  intro d' hd' hid
  obtain ⟨d, hd, hl⟩ := hk.narrows d' hd'
  have hc := h d hd (hl.proposalId ▸ hid)
  cases ho : o.outcome with
  | applied =>
    rw [ho] at hc
    exact hl.choice.trans hc
  | discarded =>
    rw [ho] at hc
    obtain ⟨d'', hs, -⟩ := hk.settled d hc.1
    have hsame : d'' = d' := Option.some.inj ((openOn_of_settledOn hs).symm.trans hd')
    exact ⟨hsame ▸ hs, hl.choice.trans hc.2⟩

theorem Kept.settledFor {c c' : Call} {id : String} (hk : Kept c c') (h : SettledFor id c) :
    SettledFor id c' := by
  obtain ⟨d, hd, hid⟩ := h
  obtain ⟨d', hd', hl⟩ := hk.settled d hd
  exact ⟨d', hd', hl.proposalId.trans hid⟩

section Calls

variable {w : World} {ps : List Call} {i : ℕ} {c c' : Call} {issued : List Proposal}

theorem decided_set (hi : ps[i]? = some c) (hn : Narrows c c') (h : Decided issued ps) :
    Decided issued (ps.set i c') := by
  intro x hx d hd
  rcases List.mem_or_eq_of_mem_set hx with hx | rfl
  · exact h x hx d hd
  · obtain ⟨d₀, hd₀, hl⟩ := hn d hd
    have h₀ := h c (List.mem_of_getElem? hi) d₀ hd₀
    rw [hl.proposal, hl.proposalId]
    exact h₀

theorem apart_set (hi : ps[i]? = some c) (hn : Narrows c c') (h : Apart ps) :
    Apart (ps.set i c') := by
  intro j k x y dx dy hjk hx hy hdx hdy hid
  rcases getElem?_set_cases hx with ⟨rfl, rfl⟩ | ⟨-, hx'⟩
  · rcases getElem?_set_cases hy with ⟨rfl, -⟩ | ⟨-, hy'⟩
    · exact absurd rfl hjk
    · obtain ⟨d₀, hd₀, hl⟩ := hn dx hdx
      exact hl.choice.trans (h i k c y d₀ dy hjk hi hy' hd₀ hdy (hl.proposalId ▸ hid))
  · rcases getElem?_set_cases hy with ⟨rfl, rfl⟩ | ⟨-, hy'⟩
    · obtain ⟨d₀, hd₀, hl⟩ := hn dy hdy
      exact h j i x c dx d₀ hjk hx' hi hdx hd₀ (hl.proposalId ▸ hid)
    · exact h j k x y dx dy hjk hx' hy' hdx hdy hid

theorem agrees_set {o : Outcome} (hi : ps[i]? = some c) (hk : Kept c c')
    (h : ∀ x ∈ ps, Agrees o x) : ∀ x ∈ ps.set i c', Agrees o x := by
  intro x hx
  rcases List.mem_or_eq_of_mem_set hx with hx | rfl
  · exact h x hx
  · exact hk.agrees (h c (List.mem_of_getElem? hi))

/-- The new call still holds the decision, or has dropped one that gave no outcome. -/
theorem Once.keep (hi : ps[i]? = some c) (hk : Kept c c')
    (hc : ∀ key, (committed c').count key ≤ (committed c).count key) (h : Once ⟨w, ps⟩) :
    Once ⟨w, ps.set i c'⟩ where
  ids := h.ids
  cached := h.cached
  recorded := h.recorded
  locked := h.locked
  written := h.written
  single := h.single
  counted key := by
    have hcount := count_held_set committed key hi c'
    have hle := hc key
    have hold := h.counted key
    dsimp only at hold ⊢
    omega
  decided := decided_set hi hk.narrows h.decided
  apart := apart_set hi hk.narrows h.apart
  agrees r hr := agrees_set hi hk (h.agrees r hr)
  evicted r hr := (h.evicted r hr).imp_right (exists_mem_set hi hk.settledFor)

theorem Once.read {d : Decision} {who : Principal} {payload : DecideRequest}
    (hi : ps[i]? = some (.decide who payload))
    (hp : w.proposalCache payload.proposalId = some d.proposal)
    (hid : d.proposalId = payload.proposalId) (hc : d.choice = payload.choice)
    (hg : Agreed ⟨w, ps⟩ payload) (h : Once ⟨w, ps⟩) :
    Once ⟨w, ps.set i (.dispatched d)⟩ where
  ids := h.ids
  cached := h.cached
  recorded := h.recorded
  locked := h.locked
  written := h.written
  single := h.single
  counted key := by
    have hcount := count_held_set committed key hi (.dispatched d)
    have hold := h.counted key
    simp only [committed, List.count_nil] at hcount
    dsimp only at hold ⊢
    omega
  decided x hx dx hdx := by
    rcases List.mem_or_eq_of_mem_set hx with hx | rfl
    · exact h.decided x hx dx hdx
    · cases hdx
      have hcached := h.cached _ _ hp
      exact ⟨hcached.1, hcached.2.trans hid.symm⟩
  apart j k x y dx dy hjk hx hy hdx hdy hxy := by
    rcases getElem?_set_cases hx with ⟨rfl, rfl⟩ | ⟨-, hx'⟩
    · rcases getElem?_set_cases hy with ⟨rfl, -⟩ | ⟨-, hy'⟩
      · exact absurd rfl hjk
      · cases hdx
        exact hc.trans (hg y (List.mem_of_getElem? hy') dy hdy (hxy.symm.trans hid)).2
    · rcases getElem?_set_cases hy with ⟨rfl, rfl⟩ | ⟨-, hy'⟩
      · cases hdy
        exact (hg x (List.mem_of_getElem? hx') dx hdx (hxy.trans hid)).1
      · exact h.apart j k x y dx dy hjk hx' hy' hdx hdy hxy
  agrees r hr x hx := by
    rcases List.mem_or_eq_of_mem_set hx with hx | rfl
    · exact h.agrees r hr x hx
    · intro dx hdx hxr
      cases hdx
      -- The entry is still cached, so whoever gave the outcome is open on the proposal.
      rcases h.evicted r hr with hnone | ⟨y, hy, dy, hdy, hyr⟩
      · rw [← hid, hxr, hnone] at hp
        cases hp
      · have hopen := openOn_of_settledOn hdy
        have hyes := hg y hy dy hopen (hyr.trans (hxr.symm.trans hid))
        have hy' := h.agrees r hr y hy dy hopen hyr
        cases ho : r.2.outcome with
        | applied => exact hc.trans hyes.2
        | discarded =>
          rw [ho] at hy'
          rw [hy'.2] at hyes
          cases hyes.1
  evicted r hr := by
    refine (h.evicted r hr).imp_right (exists_mem_set hi ?_)
    rintro ⟨dx, hdx, -⟩
    cases hdx

theorem Once.write {d : Decision} {values : Values} {due now : ℤ} {row row' : Ticket}
    (hi : ps[i]? = some (.updating d values due now)) (hrow : w.tickets d.key = some row)
    (hnull : row.fields .category = none) (hset : row'.fields .category ≠ none)
    (h : Once ⟨w, ps⟩) :
    Once ⟨{ w with
        tickets := Function.update w.tickets d.key (some row')
        writes := w.writes ++ [d.key] },
      ps.set i (.returning d values due now)⟩ := by
  have hk : Kept (.updating d values due now) (.returning d values due now) :=
    kept_on d rfl rfl (.inl rfl)
  have hfresh : d.key ∉ w.writes := fun hmem => h.locked d.key hmem row hrow hnull
  refine ⟨h.ids, h.cached, h.recorded, ?_, ?_, ?_, h.single, decided_set hi hk.narrows h.decided,
    apart_set hi hk.narrows h.apart, fun r hr => agrees_set hi hk (h.agrees r hr),
    fun r hr => (h.evicted r hr).imp_right (exists_mem_set hi hk.settledFor)⟩
  · intro key hkey t ht
    by_cases heq : key = d.key
    · subst heq
      have ht' : row' = t := by simpa using ht
      exact ht' ▸ hset
    · have ht' : w.tickets key = some t := by simpa [Function.update_of_ne heq] using ht
      have hmem : key ∈ w.writes := by simpa [heq] using hkey
      exact h.locked key hmem t ht'
  · exact h.written.append (List.nodup_singleton _) (by simpa using hfresh)
  · intro key
    have hcount := count_held_set committed key hi (.returning d values due now)
    have hold := h.counted key
    simp only [committed, List.count_nil] at hcount
    simp only [appliedTo, List.count_append] at hold ⊢
    omega

/-- No outcome has been returned on a proposal by the time an open decision returns one. -/
theorem Once.undecided {d : Decision} (hi : ps[i]? = some c) (hd : openOn c = some d)
    (hs : settledOn c = none) (hc : d.choice = .yes → committed c = [d.key]) (h : Once ⟨w, ps⟩) :
    ∀ r ∈ w.outcomes, r.2.proposalId ≠ d.proposalId := by
  intro r hr hid
  have hmem := List.mem_of_getElem? hi
  have hag := h.agrees r hr c hmem d hd hid.symm
  cases ho : r.2.outcome with
  | discarded =>
    rw [ho, hs] at hag
    cases hag.1
  | applied =>
    rw [ho] at hag
    have hkey : r.1.key = d.key := by
      have hr' := h.recorded r hr
      have hd' := h.decided c hmem d hd
      have hsame : r.1 = d.proposal := List.inj_on_of_nodup_map h.ids hr'.1 hd'.1
        (hr'.2.trans (hid.trans hd'.2.symm))
      rw [hsame]
      rfl
    have hone : 0 < appliedTo w d.key :=
      List.countP_pos_iff.mpr ⟨r, hr, by simp [hkey, ho]⟩
    have htwo : 0 < (held committed ps).count d.key :=
      Nat.lt_of_lt_of_le (by simp [hc hag]) (count_le_held committed d.key hmem)
    have hcount := h.counted d.key
    have hnodup := List.nodup_iff_count_le_one.mp h.written d.key
    dsimp only at hcount hnodup
    omega

/-- The outcome an open decision returns, and what its call has committed. -/
inductive Returns (c : Call) (d : Decision) (o : Outcome) : Prop
  | discarded (hc : d.choice = .no) (ho : o.outcome = .discarded) (hw : committed c = [])
  | applied (hc : d.choice = .yes) (ho : o.outcome = .applied) (hw : committed c = [d.key])

theorem Once.record {d : Decision} {o : Outcome} (hi : ps[i]? = some c) (hd : openOn c = some d)
    (hs : settledOn c = none) (hr : Returns c d o) (hid : o.proposalId = d.proposalId)
    (h : Once ⟨w, ps⟩) : Once ⟨w.record d.proposal o, ps.set i (.replying d (.ok o))⟩ := by
  have hk : Kept c (.replying d (.ok o)) :=
    kept_on d hd rfl (.inl hs)
  have hmem := List.mem_of_getElem? hi
  have hlt := (List.getElem?_eq_some_iff.mp hi).1
  have hfresh : ∀ r ∈ w.outcomes, r.2.proposalId ≠ d.proposalId := by
    refine h.undecided hi hd hs fun hyes => ?_
    cases hr with
    | discarded hc ho hw => rw [hc] at hyes; cases hyes
    | applied hc ho hw => exact hw
  refine ⟨h.ids, h.cached, ?_, h.locked, h.written, ?_, ?_, decided_set hi hk.narrows h.decided,
    apart_set hi hk.narrows h.apart, ?_, ?_⟩
  · intro r hr'
    rcases List.mem_append.mp hr' with hr' | hr'
    · exact h.recorded r hr'
    · rw [List.mem_singleton.mp hr']
      have hdec := h.decided c hmem d hd
      exact ⟨hdec.1, hdec.2.trans hid.symm⟩
  · intro key
    have hcount := count_held_set committed key hi (.replying d (.ok o))
    have hold := h.counted key
    have hdone : committed (.replying d (.ok o)) = [] := rfl
    rw [hdone, List.count_nil] at hcount
    cases hr with
    | discarded hc ho hw =>
      have hlog : appliedTo (w.record d.proposal o) key = appliedTo w key := by
        simp [appliedTo, World.record, List.countP_append, ho]
      rw [hw, List.count_nil] at hcount
      rw [hlog]
      dsimp only [World.record] at hold ⊢
      omega
    | applied hc ho hw =>
      have hlog : appliedTo (w.record d.proposal o) key = appliedTo w key + [d.key].count key := by
        by_cases hkey : d.proposal.key = key
        · simp [appliedTo, World.record, List.countP_append, Decision.key, ho, hkey]
        · simp [appliedTo, World.record, List.countP_append, Decision.key, hkey]
      rw [hw] at hcount
      rw [hlog]
      dsimp only [World.record] at hold ⊢
      omega
  · intro id
    have hlog : outcomesOf (w.record d.proposal o) id =
        outcomesOf w id + (if d.proposalId = id then 1 else 0) := by
      simp [outcomesOf, World.record, List.countP_append, List.countP_cons, hid]
    rw [hlog]
    split
    · next heq =>
      have hzero : outcomesOf w id = 0 := by
        refine List.countP_eq_zero.mpr fun r hr' => ?_
        simpa [heq] using hfresh r hr'
      omega
    · exact h.single id
  · intro r hr' x hx
    rcases List.mem_append.mp hr' with hr' | hr'
    · exact agrees_set hi hk (h.agrees r hr') x hx
    · rw [List.mem_singleton.mp hr']
      obtain ⟨j, hj⟩ := List.mem_iff_getElem?.mp hx
      intro dx hdx hxo
      rcases getElem?_set_cases hj with ⟨-, rfl⟩ | ⟨hij, hj'⟩
      · cases hdx
        cases hr with
        | discarded hc ho hw => rw [ho]; exact ⟨rfl, hc⟩
        | applied hc ho hw => rw [ho]; exact hc
      · have hxd : dx.proposalId = d.proposalId := hxo.trans hid
        cases hr with
        | discarded hc ho hw =>
          have hyes := h.apart i j c x d dx hij hi hj' hd hdx hxd.symm
          rw [hc] at hyes
          cases hyes
        | applied hc ho hw =>
          rw [ho]
          exact h.apart j i x c dx d (Ne.symm hij) hj' hi hdx hd hxd
  · intro r hr'
    rcases List.mem_append.mp hr' with hr' | hr'
    · exact (h.evicted r hr').imp_right (exists_mem_set hi hk.settledFor)
    · rw [List.mem_singleton.mp hr']
      exact .inr ⟨_, List.mem_set hlt _, d, rfl, hid.symm⟩

theorem Once.evict {d : Decision} {a : Answer} (hi : ps[i]? = some c) (hd : settledOn c = some d)
    (h : Once ⟨w, ps⟩) : Once ⟨w.evict d.proposalId, ps.set i (.done a)⟩ := by
  have hn : Narrows c (.done a) := narrows_closed rfl
  refine ⟨h.ids, ?_, h.recorded, h.locked, h.written, ?_, h.single, decided_set hi hn h.decided,
    apart_set hi hn h.apart, ?_, ?_⟩
  · intro id p hp
    by_cases heq : id = d.proposalId
    · subst heq
      simp [World.evict] at hp
    · exact h.cached id p (by simpa [World.evict, Function.update_of_ne heq] using hp)
  · intro key
    have hcount := count_held_set committed key hi (.done a)
    have hold := h.counted key
    simp only [committed, List.count_nil] at hcount
    dsimp only [World.evict, appliedTo] at hold ⊢
    omega
  · intro r hr x hx
    rcases List.mem_or_eq_of_mem_set hx with hx | rfl
    · exact h.agrees r hr x hx
    · intro dx hdx
      cases hdx
  · intro r hr
    by_cases heq : r.2.proposalId = d.proposalId
    · exact .inl (by simp [World.evict, heq])
    · refine (h.evicted r hr).imp (fun hnone => ?_) (exists_mem_set hi ?_)
      · simpa [World.evict, Function.update_of_ne heq] using hnone
      · rintro ⟨dx, hdx, hxr⟩
        have hsame : dx = d := Option.some.inj (hdx.symm.trans hd)
        exact absurd (hsame ▸ hxr.symm) heq

theorem Once.issue {p : Proposal} {a : Answer} (hi : ps[i]? = some c) (ho : openOn c = none)
    (hc : committed c = []) (hp : ∀ q ∈ w.issued, q.proposalId ≠ p.proposalId)
    (h : Once ⟨w, ps⟩) :
    Once ⟨{ w with
        proposalCache := Function.update w.proposalCache p.proposalId (some p)
        issued := w.issued ++ [p] }, ps.set i (.done a)⟩ := by
  have hk : Kept c (.done a) := by
    refine kept_closed rfl ?_
    cases hs : settledOn c with
    | none => rfl
    | some d => rw [openOn_of_settledOn hs] at ho; cases ho
  refine ⟨?_, ?_, ?_, h.locked, h.written, ?_, h.single, ?_, apart_set hi hk.narrows h.apart,
    fun r hr => agrees_set hi hk (h.agrees r hr), ?_⟩
  · rw [List.map_append]
    refine h.ids.append (List.nodup_singleton _) ?_
    simpa using hp
  · intro id q hq
    by_cases heq : id = p.proposalId
    · subst heq
      have hqp : p = q := by simpa using hq
      exact hqp ▸ ⟨List.mem_append_right _ (List.mem_singleton.mpr rfl), rfl⟩
    · have hold := h.cached id q (by simpa [Function.update_of_ne heq] using hq)
      exact ⟨List.mem_append_left _ hold.1, hold.2⟩
  · intro r hr
    have hold := h.recorded r hr
    exact ⟨List.mem_append_left _ hold.1, hold.2⟩
  · intro key
    have hcount := count_held_set committed key hi (.done a)
    have hold := h.counted key
    rw [hc] at hcount
    simp only [committed, List.count_nil] at hcount
    dsimp only [appliedTo] at hold ⊢
    omega
  · intro x hx d hd
    have hold := decided_set hi hk.narrows h.decided x hx d hd
    exact ⟨List.mem_append_left _ hold.1, hold.2⟩
  · intro r hr
    have hne : r.2.proposalId ≠ p.proposalId := by
      have hold := h.recorded r hr
      exact hold.2 ▸ hp r.1 hold.1
    refine (h.evicted r hr).imp (fun hnone => ?_) (exists_mem_set hi hk.settledFor)
    simpa [Function.update_of_ne hne] using hnone

theorem openOn_fail (d : Decision) (f : Failure) : openOn (fail d f) = none := by
  unfold fail
  split <;> rfl

theorem committed_fail (d : Decision) (f : Failure) : committed (fail d f) = [] := by
  unfold fail
  split <;> rfl

/-- A call that has returned no outcome ends without one. -/
theorem Once.close (hi : ps[i]? = some c) (ho : openOn c' = none) (hs : settledOn c = none)
    (hc : committed c' = []) (h : Once ⟨w, ps⟩) : Once ⟨w, ps.set i c'⟩ := by
  refine h.keep hi (kept_closed ho hs) fun key => ?_
  rw [hc, List.count_nil]
  exact Nat.zero_le _

theorem Once.failed {d : Decision} {f : Failure} (hi : ps[i]? = some c) (hs : settledOn c = none)
    (h : Once ⟨w, ps⟩) : Once ⟨w, ps.set i (fail d f)⟩ :=
  h.close hi (openOn_fail d f) hs (committed_fail d f)

theorem Once.finish {d : Decision} {o : Outcome} (hi : ps[i]? = some c) (hd : openOn c = some d)
    (hs : settledOn c = none) (hr : Returns c d o) (hid : o.proposalId = d.proposalId)
    (h : Once ⟨w, ps⟩) : Once ⟨(finish w d o).1, ps.set i (finish w d o).2⟩ := by
  have hrec := h.record hi hd hs hr hid
  unfold TriageService.finish
  cases d.route with
  | nats waiting => exact hrec
  | inProcess =>
    have hev := hrec.evict (d := d) (a := .outcome o) (getElem?_set_at hi _) rfl
    rw [List.set_set] at hev
    exact hev

theorem Once.applied_or_discarded {d : Decision} (now : ℤ) (hi : ps[i]? = some (.dispatched d))
    (h : Once ⟨w, ps⟩) :
    Once ⟨(applyTriageDecision now w d).1, ps.set i (applyTriageDecision now w d).2⟩ := by
  unfold applyTriageDecision
  cases hc : d.choice with
  | no => exact h.finish hi rfl rfl (.discarded hc rfl rfl) rfl
  | yes =>
    dsimp only
    split
    · exact h.failed hi rfl
    · split
      · exact h.failed hi rfl
      · exact h.keep hi (kept_on d rfl rfl (.inl rfl))
          fun key => le_refl _

theorem Once.stored {d : Decision} {values : Values} {due now : ℤ}
    (hi : ps[i]? = some (.updating d values due now)) (hg : Locks w d values) (h : Once ⟨w, ps⟩) :
    Once ⟨(storeApply w d values due now).1, ps.set i (storeApply w d values due now).2⟩ := by
  unfold storeApply
  split
  · exact h.failed hi rfl
  · next texts htexts =>
    split
    · exact h.close hi rfl rfl rfl
    · next row hrow =>
      split
      · next hnull =>
        simp only [Locks, htexts, hrow] at hg
        have hset := (hg hnull).2
        refine h.write hi hrow hnull ?_
        cases ht : texts .category with
        | none => exact absurd ht hset
        | some v => simp [Ticket.assign, ht]
      · exact h.close hi rfl rfl rfl

theorem Once.rechecked {d : Decision} (hi : ps[i]? = some (.checking d)) (h : Once ⟨w, ps⟩) :
    Once ⟨w, ps.set i (recheck w d)⟩ := by
  unfold recheck
  split
  · exact h.failed hi rfl
  · exact h.failed hi rfl

theorem Once.replied {py : Python} {d : Decision} {reply : Except Failure Outcome}
    (hi : ps[i]? = some (.replying d reply)) (h : Once ⟨w, ps⟩) :
    Once ⟨(replyStep py w d reply).1, ps.set i (replyStep py w d reply).2⟩ := by
  unfold replyStep
  cases reply with
  | error f => exact h.close hi rfl rfl rfl
  | ok o =>
    dsimp only
    split
    · exact h.keep hi (kept_on d rfl rfl (.inr rfl))
        fun key => le_refl _
    · exact h.evict hi rfl

theorem Once.proposed {py : Python} {who : Principal} {ticketId : String} {serviceId : ServiceId}
    (hi : ps[i]? = some (.propose who ticketId serviceId)) (h : Once ⟨w, ps⟩) :
    Once ⟨w, ps.set i (proposeStep py w who ticketId serviceId)⟩ := by
  unfold proposeStep
  split
  · exact h.close hi rfl rfl rfl
  · split
    · exact h.close hi rfl rfl rfl
    · split
      · exact h.close hi rfl rfl rfl
      · exact h.close hi rfl rfl rfl

/-- A decide call is refused, or goes on with the cached proposal. -/
theorem decideStep_cases (py : Python) (dispatcher : Bool) (now : ℤ) (w : World)
    (who : Principal) (payload : DecideRequest) :
    (∃ a, decideStep py dispatcher now w who payload = (w, .done a)) ∨
    ∃ d : Decision, admitted py w who payload = true ∧
      w.proposalCache payload.proposalId = some d.proposal ∧
      d.proposalId = payload.proposalId ∧ d.choice = payload.choice ∧
      (decideStep py dispatcher now w who payload = (w, .dispatched d) ∨
        decideStep py dispatcher now w who payload = applyTriageDecision now w d) := by
  unfold decideStep
  split
  · next a _ => exact .inl ⟨a, rfl⟩
  · next hwho =>
    split
    · exact .inl ⟨_, rfl⟩
    · next p hp =>
      split
      · exact .inl ⟨_, rfl⟩
      · next ht =>
        dsimp only
        split
        · exact .inl ⟨_, rfl⟩
        · next hb =>
          split
          · exact .inl ⟨_, rfl⟩
          · next hu =>
            have ha : admitted py w who payload = true := by
              simp [admitted, hwho, hp, not_not.mp ht, not_not.mp hb, Nat.le_of_not_lt hu]
            split
            · exact .inr ⟨⟨p, _, _, _, _, .nats true⟩, ha, hp, rfl, rfl, .inl rfl⟩
            · exact .inr ⟨⟨p, _, _, _, _, .inProcess⟩, ha, hp, rfl, rfl, .inr rfl⟩

theorem Once.decideStep {py : Python} {dispatcher : Bool} {now : ℤ} {who : Principal}
    {payload : DecideRequest} (hi : ps[i]? = some (.decide who payload))
    (hg : admitted py w who payload = true → Agreed ⟨w, ps⟩ payload) (h : Once ⟨w, ps⟩) :
    Once ⟨(decideStep py dispatcher now w who payload).1,
      ps.set i (decideStep py dispatcher now w who payload).2⟩ := by
  rcases decideStep_cases py dispatcher now w who payload with ⟨a, ha⟩ | ⟨d, ha, hp, hid, hc, hstep⟩
  · rw [ha]
    exact h.close hi rfl rfl rfl
  · have hread := h.read hi hp hid hc (hg ha)
    rcases hstep with hstep | hstep
    · rw [hstep]
      exact hread
    · have happ := hread.applied_or_discarded now (getElem?_set_at hi _)
      rw [List.set_set] at happ
      rw [hstep]
      exact happ

theorem Once.interrupted (error message : String) (hi : ps[i]? = some c) (h : Once ⟨w, ps⟩) :
    Once ⟨w, ps.set i (interrupt error message c)⟩ := by
  cases c with
  | propose who t s => exact h.close hi rfl rfl rfl
  | proposing who t s => exact h.close hi rfl rfl rfl
  | decide who payload => exact h.close hi rfl rfl rfl
  | dispatched d => exact h.close hi rfl rfl rfl
  | updating d values due now => exact h.failed hi rfl
  | checking d => exact h.failed hi rfl
  | returning d values due now => exact h.failed hi rfl
  | replying d reply =>
    cases reply with
    | error f => exact h.close hi rfl rfl rfl
    | ok o =>
      exact h.keep hi (kept_on d rfl rfl (.inr rfl))
        fun key => le_refl _
  | lost d => exact h.keep hi (Kept.refl _) fun key => le_refl _
  | done a => exact h.close hi rfl rfl rfl

theorem key_giveUp (d : Decision) : d.giveUp.key = d.key := by
  unfold Decision.key
  rw [(Like.giveUp d).proposal]

theorem Once.givenUp (hi : ps[i]? = some c) (h : Once ⟨w, ps⟩) :
    Once ⟨w, ps.set i (giveUp c)⟩ := by
  cases c with
  | propose who t s => exact h.close hi rfl rfl rfl
  | proposing who t s => exact h.close hi rfl rfl rfl
  | decide who payload => exact h.close hi rfl rfl rfl
  | checking d => exact h.close hi rfl rfl rfl
  | done a => exact h.close hi rfl rfl rfl
  | lost d => exact h.keep hi (Kept.refl _) fun key => le_refl _
  | dispatched d =>
    exact h.keep hi (kept_same rfl rfl (Like.giveUp d) (.inl rfl)) fun key => le_refl _
  | updating d values due now =>
    exact h.keep hi (kept_same rfl rfl (Like.giveUp d) (.inl rfl)) fun key => le_refl _
  | returning d values due now =>
    refine h.keep hi (kept_same rfl rfl (Like.giveUp d) (.inl rfl)) fun key => ?_
    simp only [giveUp, committed, key_giveUp]
    exact le_refl _
  | replying d reply =>
    cases reply with
    | error f => exact h.close hi rfl rfl rfl
    | ok o => exact h.keep hi (kept_same rfl rfl (Like.giveUp d) (.inr rfl)) fun key => le_refl _

end Calls

def Chosen : Call → Prop
  | .updating d _ _ _ => d.choice = .yes
  | .returning d _ _ _ => d.choice = .yes
  | _ => True

theorem chosen_fail (d : Decision) (f : Failure) : Chosen (fail d f) := by
  unfold fail
  split <;> trivial

theorem chosen_finish (w : World) (d : Decision) (o : Outcome) : Chosen (finish w d o).2 := by
  unfold finish
  split <;> trivial

theorem chosen_applyTriageDecision (now : ℤ) (w : World) (d : Decision) :
    Chosen (applyTriageDecision now w d).2 := by
  unfold applyTriageDecision
  cases hc : d.choice with
  | no => exact chosen_finish w d _
  | yes =>
    dsimp only
    split
    · exact chosen_fail d _
    · split
      · exact chosen_fail d _
      · exact hc

theorem chosen_storeApply {w : World} {d : Decision} {values : Values} {due now : ℤ}
    (hc : d.choice = .yes) : Chosen (storeApply w d values due now).2 := by
  unfold storeApply
  split
  · exact chosen_fail d _
  · split
    · trivial
    · split
      · exact hc
      · trivial

theorem chosen_resume {py : Python} {dispatcher : Bool} {now : ℤ} {w : World} {c : Call}
    (h : Chosen c) : Chosen (resume py dispatcher now w c).2 := by
  cases c with
  | propose who t sv =>
    unfold resume proposeStep
    dsimp only
    split
    · trivial
    · split
      · trivial
      · split <;> trivial
  | decide who payload =>
    rcases decideStep_cases py dispatcher now w who payload with ⟨a, ha⟩ | ⟨d, -, -, -, -, hd | hd⟩
    · simp only [resume, ha, Chosen]
    · simp only [resume, hd, Chosen]
    · simp only [resume, hd]
      exact chosen_applyTriageDecision now w d
  | dispatched d => exact chosen_applyTriageDecision now w d
  | updating d values due at' => exact chosen_storeApply h
  | checking d =>
    unfold resume recheck
    dsimp only
    split <;> exact chosen_fail d _
  | returning d values due at' => exact chosen_finish w d _
  | replying d reply =>
    unfold resume replyStep
    cases reply with
    | error f => trivial
    | ok o =>
      dsimp only
      split <;> trivial
  | proposing who t sv => exact h
  | lost d => exact h
  | done a => exact h

theorem chosen_step {py : Python} {dispatcher : Bool} {inp : Input} {w : World} {c : Call}
    (h : Chosen c) : Chosen (step py dispatcher inp w c).2 := by
  cases inp with
  | resume now => exact chosen_resume h
  | proposal p =>
    cases c with
    | proposing who t sv => trivial
    | _ => exact h
  | error e m =>
    cases c with
    | updating d values due now => exact chosen_fail d _
    | checking d => exact chosen_fail d _
    | returning d values due now => exact chosen_fail d _
    | replying d reply => cases reply <;> trivial
    | _ => trivial
  | timeout =>
    cases c with
    | updating d values due now => exact (Like.giveUp d).choice.trans h
    | returning d values due now => exact (Like.giveUp d).choice.trans h
    | _ => trivial

theorem chosen_relyGuarantee (py : Python) (dispatcher : Bool) :
    RelyGuarantee (service py dispatcher) (Guard py) (fun _ => True) (fun _ _ => True)
      fun _ c => Chosen c where
  act _ _ _ _ _ _ _ hc := ⟨trivial, chosen_step hc⟩
  env _ _ _ _ := trivial
  spawn _ c hg _ := by
    cases c with
    | updating d values due now => cases hg.1
    | returning d values due now => cases hg.1
    | _ => trivial
  stable _ _ _ _ hc := hc
  refl _ := trivial

theorem once_act {py : Python} {dispatcher : Bool} {s : Pool World Call} {i : ℕ} {inp : Input}
    {c : Call} (hi : s.procs[i]? = some c) (hg : Guard py s (.act i inp)) (hc : Chosen c)
    (h : Once s) :
    Once ⟨(step py dispatcher inp s.shared c).1,
      s.procs.set i (step py dispatcher inp s.shared c).2⟩ := by
  cases inp with
  | timeout => exact h.givenUp hi
  | error e m => exact h.interrupted e m hi
  | proposal p =>
    cases c with
    | proposing who t sv =>
      have hfresh := hg.1
      simp only [Plausible, hi, Fresh] at hfresh
      exact h.issue hi rfl rfl hfresh
    | _ => exact h.keep hi (Kept.refl _) fun key => le_refl _
  | resume now =>
    have ho := hg.2
    simp only [Orderly, Careful, hi] at ho
    cases c with
    | propose who t sv => exact h.proposed hi
    | decide who payload => exact h.decideStep hi ho
    | dispatched d => exact h.applied_or_discarded now hi
    | updating d values due at' => exact h.stored hi ho
    | checking d => exact h.rechecked hi
    | returning d values due at' => exact h.finish hi rfl rfl (.applied hc rfl rfl) rfl
    | replying d reply => exact h.replied hi
    | proposing who t sv => exact h.keep hi (Kept.refl _) fun key => le_refl _
    | lost d => exact h.keep hi (Kept.refl _) fun key => le_refl _
    | done a => exact h.keep hi (Kept.refl _) fun key => le_refl _

theorem entry_closed {c : Call} (h : Entry c) : openOn c = none ∧ committed c = [] := by
  cases c with
  | propose who t sv => exact ⟨rfl, rfl⟩
  | decide who payload => exact ⟨rfl, rfl⟩
  | _ => cases h

theorem once_spawn {s : Pool World Call} {c : Call} (hc : Entry c) (h : Once s) :
    Once { s with procs := s.procs ++ [c] } := by
  obtain ⟨ho, hw⟩ := entry_closed hc
  have hopen : ∀ x ∈ s.procs ++ [c], ∀ d ∈ openOn x, x ∈ s.procs := by
    intro x hx d hd
    rcases List.mem_append.mp hx with hx | hx
    · exact hx
    · rw [List.mem_singleton.mp hx, ho] at hd
      cases hd
  have hat : ∀ (j : ℕ) (x : Call) (d : Decision), (s.procs ++ [c])[j]? = some x → d ∈ openOn x →
      s.procs[j]? = some x := by
    intro j x d hx hd
    by_cases hj : j < s.procs.length
    · rwa [List.getElem?_append_left hj] at hx
    · rw [List.getElem?_append_right (Nat.le_of_not_lt hj)] at hx
      have hxc : x = c := List.mem_singleton.mp (List.mem_of_getElem? hx)
      rw [hxc, ho] at hd
      cases hd
  refine ⟨h.ids, h.cached, h.recorded, h.locked, h.written, ?_, h.single, ?_, ?_, ?_, ?_⟩
  · intro key
    have hold := h.counted key
    have hcount := count_held_append committed key s.procs c
    rw [hw, List.count_nil] at hcount
    dsimp only at hold ⊢
    omega
  · exact fun x hx d hd => h.decided x (hopen x hx d hd) d hd
  · intro j k x y dx dy hjk hx hy hdx hdy hid
    exact h.apart j k x y dx dy hjk (hat j x dx hx hdx) (hat k y dy hy hdy) hdx hdy hid
  · exact fun r hr x hx d hd hid => h.agrees r hr x (hopen x hx d hd) d hd hid
  · intro r hr
    refine (h.evicted r hr).imp_right ?_
    rintro ⟨x, hx, hs⟩
    exact ⟨x, List.mem_append_left _ hx, hs⟩

theorem once_env {py : Python} {dispatcher : Bool} {s : Pool World Call} {e : Edit}
    (hg : Plausible s (.env e)) (h : Once s) :
    Once { s with shared := (service py dispatcher).env e s.shared } where
  ids := h.ids
  cached := h.cached
  recorded := h.recorded
  written := h.written
  counted := h.counted
  single := h.single
  decided := h.decided
  apart := h.apart
  agrees := h.agrees
  evicted := h.evicted
  locked key hkey row hrow := by
    by_cases heq : key = e.key
    · subst heq
      exact hg hkey row (by simpa [service] using hrow)
    · exact h.locked key hkey row (by simpa [service, Function.update_of_ne heq] using hrow)

theorem once_next {py : Python} {dispatcher : Bool} {s : Pool World Call}
    {e : Event Call Input Edit} (hg : Guard py s e) (hc : Holds (fun _ c => Chosen c) s)
    (h : Once s) : Once (next (service py dispatcher) s e) := by
  cases e with
  | spawn c => exact once_spawn hg.1 h
  | env e => exact once_env hg.1 h
  | act i inp =>
    cases hi : s.procs[i]? with
    | none =>
      rw [next_idle hi]
      exact h
    | some c =>
      rw [next_act hi]
      exact once_act hi hg (hc c (List.mem_of_getElem? hi)) h

/-- Any rows, no proposals and no calls yet. -/
def start (tickets : TicketKey → Option Ticket) : Pool World Call :=
  ⟨⟨tickets, fun _ => none, [], [], []⟩, []⟩

theorem once_start (tickets : TicketKey → Option Ticket) : Once (start tickets) where
  ids := List.nodup_nil
  cached _ _ h := by cases h
  recorded _ h := by cases h
  locked _ h := by cases h
  written := List.nodup_nil
  counted _ := le_refl _
  single _ := Nat.zero_le _
  decided _ h := by cases h
  apart _ _ _ _ _ _ _ h := by cases h
  agrees _ h := by cases h
  evicted _ h := by cases h

structure TriageInvariant (s : Pool World Call) : Prop where
  once : Once s
  chosen : Holds (fun _ c => Chosen c) s

theorem start_triageInvariant (tickets : TicketKey → Option Ticket) :
    TriageInvariant (start tickets) where
  once := once_start tickets
  chosen _ h := by cases h

theorem next_triageInvariant {py : Python} {dispatcher : Bool} {s : Pool World Call}
    {e : Event Call Input Edit} (hg : Guard py s e) (h : TriageInvariant s) :
    TriageInvariant (next (service py dispatcher) s e) where
  once := once_next hg h.chosen h.once
  chosen := (chosen_relyGuarantee py dispatcher).next_holds hg trivial h.chosen

theorem run_triageInvariant {py : Python} {dispatcher : Bool}
    {tickets : TicketKey → Option Ticket} {s : Pool World Call}
    (hr : Run (service py dispatcher) (Guard py) (start tickets) s) : TriageInvariant s :=
  hr.invariant (start_triageInvariant tickets) fun _ _ => next_triageInvariant

def KeepsClosed (w w' : World) : Prop :=
  ∀ key row, w.tickets key = some row → row.closed = true → w'.tickets key = some row

theorem finish_tickets (w : World) (d : Decision) (o : Outcome) :
    (finish w d o).1.tickets = w.tickets := by
  unfold finish
  split <;> rfl

theorem applyTriageDecision_tickets (now : ℤ) (w : World) (d : Decision) :
    (applyTriageDecision now w d).1.tickets = w.tickets := by
  unfold applyTriageDecision
  split
  · exact finish_tickets w d _
  · dsimp only
    split
    · rfl
    · split <;> rfl

/-- Only the UPDATE touches a row. -/
theorem step_tickets {py : Python} {dispatcher : Bool} {inp : Input} {w : World} {c : Call}
    (h : ∀ d values due at' now, inp = .resume now → c ≠ .updating d values due at') :
    (step py dispatcher inp w c).1.tickets = w.tickets := by
  cases inp with
  | timeout => rfl
  | error e m => rfl
  | proposal p => cases c <;> rfl
  | resume now =>
    cases c with
    | updating d values due at' => exact absurd rfl (h d values due at' now rfl)
    | decide who payload =>
      rcases decideStep_cases py dispatcher now w who payload with
        ⟨a, ha⟩ | ⟨d, -, -, -, -, hd | hd⟩
      · simp only [step, resume, ha]
      · simp only [step, resume, hd]
      · simp only [step, resume, hd]
        exact applyTriageDecision_tickets now w d
    | dispatched d => exact applyTriageDecision_tickets now w d
    | returning d values due at' => exact finish_tickets w d _
    | replying d reply =>
      simp only [step, resume, replyStep]
      split
      · split <;> rfl
      · rfl
    | _ => rfl

theorem storeApply_keepsClosed {w : World} {d : Decision} {values : Values} {due now : ℤ}
    (hg : Locks w d values) : KeepsClosed w (storeApply w d values due now).1 := by
  intro key row hrow hclosed
  unfold storeApply
  split
  · exact hrow
  · next texts htexts =>
    split
    · exact hrow
    · next row' hrow' =>
      split
      · next hnull =>
        simp only [Locks, htexts, hrow'] at hg
        have hopen := (hg hnull).1
        have hne : key ≠ d.key := by
          rintro rfl
          have hsame : row = row' := Option.some.inj (hrow.symm.trans hrow')
          rw [hsame, hopen] at hclosed
          cases hclosed
        exact (Function.update_of_ne hne _ _).trans hrow
      · exact hrow

theorem act_keepsClosed {py : Python} {dispatcher : Bool} {s : Pool World Call} {i : ℕ}
    {inp : Input} (hg : Orderly py s (.act i inp)) :
    KeepsClosed s.shared (next (service py dispatcher) s (.act i inp)).shared := by
  cases hi : s.procs[i]? with
  | none =>
    rw [next_idle hi]
    exact fun _ _ h _ => h
  | some c =>
    rw [next_act hi]
    by_cases hu : ∀ d values due at' now, inp = .resume now → c ≠ .updating d values due at'
    · intro key row hrow _
      exact (congrFun (step_tickets hu) key).trans hrow
    · push Not at hu
      obtain ⟨d, values, due, at', now, rfl, rfl⟩ := hu
      simp only [Orderly, Careful, hi] at hg
      exact storeApply_keepsClosed hg

/-- Over every run of propose and decide calls by any users, whether in process or through
the agent, with routes that give up and statements that fail. -/
theorem triage_applied_once (py : Python) (dispatcher : Bool)
    (tickets : TicketKey → Option Ticket) (s : Pool World Call)
    (hr : Run (service py dispatcher) (Guard py) (start tickets) s) :
    (∀ key, appliedTo s.shared key ≤ 1) ∧ (∀ id, outcomesOf s.shared id ≤ 1) ∧
    ∀ i inp, Guard py s (.act i inp) →
      KeepsClosed s.shared (next (service py dispatcher) s (.act i inp)).shared := by
  have h := (run_triageInvariant hr).once
  refine ⟨fun key => ?_, h.single, fun i inp hg => act_keepsClosed hg.2⟩
  have hcount := h.counted key
  have hone := List.nodup_iff_count_le_one.mp h.written key
  omega

def plainPython : Python := ⟨Char.isWhitespace, fun s => "'" ++ s ++ "'"⟩

def incidentKey : TicketKey := ⟨"t", .incident, "INC1"⟩

def untriaged (status : String) : Ticket := ⟨fun _ => none, some status, none, none⟩

def oneIncident (status : String) : Pool World Call :=
  start fun key => if key = incidentKey then some (untriaged status) else none

def proposalOf (id : String) (category : Option String) : Proposal :=
  ⟨id, "INC1", .incident, "t", category, none, none, none, .onUsers, .high, .high, some "Network"⟩

def ann : Principal := ⟨"t", "ann", "triage_desk"⟩

def bob : Principal := ⟨"t", "bob", "triage_desk"⟩

def proposes (i : ℕ) (p : Proposal) : List (Event Call Input Edit) :=
  [.spawn (.propose ann "INC1" .incident), .act i (.resume 0), .act i (.proposal p)]

def decides (i : ℕ) (who : Principal) (id : String) (choice : DecisionChoice) :
    List (Event Call Input Edit) :=
  [.spawn (.decide who ⟨id, choice, none⟩), .act i (.resume 1), .act i (.resume 2),
    .act i (.resume 3)]

def approval : List (Event Call Input Edit) :=
  proposes 0 (proposalOf "p-1" (some "Network")) ++ decides 1 ann "p-1" .yes ++
    decides 2 bob "p-1" .no

def approved : Pool World Call := play (service plainPython false) (oneIncident "new") approval

/-- Ann's yes is applied and evicts the proposal, which Bob's no then does not find. -/
theorem approval_admits : Admits (service plainPython false) (Guard plainPython)
    (oneIncident "new") approval := by
  refine ⟨⟨trivial, trivial⟩, ⟨trivial, trivial⟩, ⟨?_, trivial⟩, ⟨trivial, trivial⟩,
    ⟨trivial, ?_⟩, ⟨trivial, ?_⟩, ⟨trivial, trivial⟩, ⟨trivial, trivial⟩, ⟨trivial, ?_⟩,
    ⟨trivial, trivial⟩, ⟨trivial, trivial⟩, trivial⟩
  · intro q hq
    cases hq
  · intro _
    unfold Agreed
    decide
  · intro _
    decide
  · intro h
    cases h

theorem approval_applied_once :
    appliedTo approved.shared incidentKey = 1 ∧ appliedTo approved.shared incidentKey ≤ 1 ∧
    outcomesOf approved.shared "p-1" ≤ 1 := by
  have h := triage_applied_once plainPython false _ approved (run_play approval approval_admits)
  exact ⟨by decide, h.1 incidentKey, h.2.1 "p-1"⟩

/-- Neither proposal has a category, so that the first UPDATE leaves the ticket as it was
for the second. -/
def bothApply : List (Event Call Input Edit) :=
  proposes 0 (proposalOf "p-1" none) ++ proposes 1 (proposalOf "p-2" none) ++
    decides 2 ann "p-1" .yes ++ decides 3 bob "p-2" .yes

/-- Bob discards the proposal while Ann's UPDATE is under way. -/
def crossed : List (Event Call Input Edit) :=
  proposes 0 (proposalOf "p-1" (some "Network")) ++
    [.spawn (.decide ann ⟨"p-1", .yes, none⟩), .act 1 (.resume 1),
      .spawn (.decide bob ⟨"p-1", .no, none⟩), .act 2 (.resume 2), .act 1 (.resume 3),
      .act 1 (.resume 4)]

def resolved : List (Event Call Input Edit) :=
  proposes 0 (proposalOf "p-1" (some "Network")) ++
    [.env ⟨incidentKey, some (untriaged "resolved")⟩,
      .spawn (.decide ann ⟨"p-1", .yes, none⟩), .act 1 (.resume 1)]

def after (es : List (Event Call Input Edit)) : Pool World Call :=
  play (service plainPython false) (oneIncident "new") es

theorem bothApply_admits : Admits (service plainPython false) Plausible (oneIncident "new")
    bothApply := by
  refine ⟨trivial, trivial, ?_, trivial, trivial, ?_, trivial, trivial, trivial, trivial, trivial,
    trivial, trivial, trivial, trivial⟩
  · intro q hq
    cases hq
  · change ∀ q ∈ [proposalOf "p-1" none], q.proposalId ≠ "p-2"
    decide

theorem crossed_admits : Admits (service plainPython false) Plausible (oneIncident "new")
    crossed := by
  refine ⟨trivial, trivial, ?_, trivial, trivial, trivial, trivial, trivial, trivial, trivial⟩
  intro q hq
  cases hq

theorem resolved_admits : Admits (service plainPython false) Plausible (oneIncident "new")
    resolved := by
  refine ⟨trivial, trivial, ?_, ?_, trivial, trivial, trivial⟩
  · intro q hq
    cases hq
  · intro h
    cases h

/-- Two decisions are applied to one ticket, one proposal is both discarded and applied, and
a resolved ticket is written and opened again. -/
theorem decided_twice_and_reopened :
    (Run (service plainPython false) Plausible (oneIncident "new") (after bothApply) ∧
      appliedTo (after bothApply).shared incidentKey = 2) ∧
    (Run (service plainPython false) Plausible (oneIncident "new") (after crossed) ∧
      (after crossed).shared.outcomes.map (fun r => (r.2.proposalId, r.2.outcome)) =
        [("p-1", .discarded), ("p-1", .applied)]) ∧
    Run (service plainPython false) Plausible (oneIncident "new") (after resolved) ∧
    ((after resolved).shared.tickets incidentKey).map Ticket.closed = some true ∧
    ((next (service plainPython false) (after resolved) (.act 1 (.resume 2))).shared.tickets
      incidentKey).map Ticket.status = some (some "assigned") :=
  ⟨⟨run_play bothApply bothApply_admits, by decide⟩,
    ⟨run_play crossed crossed_admits, by decide⟩, run_play resolved resolved_admits, by decide,
    by decide⟩

end TriageDecisions
