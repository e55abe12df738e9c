import OneOps.SessionLifecycle
import Mathlib.Data.String.Basic

/-! The recent sessions of a user. The index is scanned newest first and cut at the limit
before the ids are looked up, so an id whose session is gone takes a place in the answer. -/
namespace SessionListing

open RowMerge
open ListSplit
open SessionLifecycle

def Newer (a b : String × ℕ) : Prop := b.2 < a.2 ∨ (b.2 = a.2 ∧ b.1 ≤ a.1)

instance (a b : String × ℕ) : Decidable (Newer a b) := inferInstanceAs (Decidable (_ ∨ _))

def ranked (s : Store) (userId : String) : List (String × ℕ) :=
  (s.index userId).insertionSort Newer

def lookup (s : Store) (now : String → ℕ) (sid : String) : Option (String × SessionMeta) :=
  (get s sid (now sid)).map fun m => (sid, m)

def ownLive (s : Store) (userId : String) (now : String → ℕ) (sid : String) :
    Option (String × SessionMeta) :=
  (lookup s now sid).filter fun e => e.2.userId = userId

def recentLive (s : Store) (userId : String) (now : String → ℕ) : List (String × SessionMeta) :=
  ((s.index userId).map Prod.fst).filterMap (ownLive s userId now)

/-- `out` holds the `limit` most recently active of `sessions`, or all of them, the most
recently active first; sessions of one instant may stand in any order. -/
structure MostRecent (sessions : List (String × SessionMeta)) (limit : ℕ)
    (out : List (String × SessionMeta)) : Prop where
  split : ∃ rest, (out ++ rest).Perm sessions ∧
    ∀ e ∈ out, ∀ e' ∈ rest, e'.2.lastActiveAtUnixMs ≤ e.2.lastActiveAtUnixMs
  length : out.length = min limit sessions.length
  newest : out.Pairwise fun e e' => e'.2.lastActiveAtUnixMs ≤ e.2.lastActiveAtUnixMs

section Ranking

variable {s : Store} {userId : String} {now : String → ℕ}

theorem newer_total (a b : String × ℕ) : Newer a b ∨ Newer b a := by
  unfold Newer
  rcases Nat.lt_trichotomy a.2 b.2 with h | h | h
  · exact .inr (.inl h)
  · rcases le_total a.1 b.1 with h' | h'
    · exact .inr (.inr ⟨h, h'⟩)
    · exact .inl (.inr ⟨h.symm, h'⟩)
  · exact .inl (.inl h)

theorem newer_trans {a b c : String × ℕ} (hab : Newer a b) (hbc : Newer b c) : Newer a c := by
  unfold Newer at *
  rcases hab with h | ⟨h, h'⟩ <;> rcases hbc with k | ⟨k, k'⟩
  · exact .inl (k.trans h)
  · exact .inl (k ▸ h)
  · exact .inl (h ▸ k)
  · exact .inr ⟨k.trans h, k'.trans h'⟩

instance : Std.Total Newer := ⟨newer_total⟩

instance : IsTrans (String × ℕ) Newer := ⟨fun _ _ _ => newer_trans⟩

theorem ranked_newest_first : (ranked s userId).Pairwise Newer :=
  List.pairwise_insertionSort _ _

theorem ownLive_some {sid : String} {e : String × SessionMeta} :
    ownLive s userId now sid = some e ↔
      e.1 = sid ∧ get s sid (now sid) = some e.2 ∧ e.2.userId = userId := by
  rw [ownLive, Option.filter_eq_some_iff, decide_eq_true_eq, lookup, Option.map_eq_some_iff]
  constructor
  · rintro ⟨⟨m, hm, rfl⟩, hu⟩
    exact ⟨rfl, hm, hu⟩
  · rintro ⟨rfl, hm, hu⟩
    exact ⟨⟨e.2, hm, rfl⟩, hu⟩

theorem ranked_perm : (((ranked s userId).map Prod.fst).filterMap (ownLive s userId now)).Perm
    (recentLive s userId now) :=
  ((List.perm_insertionSort _ _).map Prod.fst).filterMap _

end Ranking

def Scored (s : Store) : Prop :=
  ∀ userId sid score m, (sid, score) ∈ s.index userId → s.metadata sid = some m →
    m.userId = userId → score = m.lastActiveAtUnixMs

section Scores

variable {s : Store}

theorem mem_zadd {userId sid other : String} {score : ℕ} {e : String × ℕ} :
    e ∈ zadd s userId sid score other ↔
      if other = userId then e = (sid, score) ∨ (e ∈ s.index other ∧ e.1 ≠ sid)
      else e ∈ s.index other := by
  by_cases h : other = userId
  · subst h
    rw [if_pos rfl, zadd, Function.update_self, mem_upsert]
  · rw [if_neg h, zadd, Function.update_of_ne h]

theorem Scored.write (h : Scored s) {sid userId : String} {m : SessionMeta} {now : ℕ}
    (hu : m.userId = userId) (hl : m.lastActiveAtUnixMs = now) :
    Scored ⟨Function.update s.metadata sid (some m), zadd s userId sid now⟩ := by
  intro other x score m' hin hm' hown
  have hin := mem_zadd.mp hin
  by_cases hx : x = sid
  · subst hx
    simp only [Function.update_self, Option.some.injEq] at hm'
    subst hm'
    rw [if_pos (hown.symm.trans hu)] at hin
    rcases hin with he | ⟨_, hne⟩
    · cases he
      exact hl.symm
    · exact absurd rfl hne
  · simp only [Function.update_of_ne hx] at hm'
    refine h other x score m' ?_ hm' hown
    split at hin
    · rcases hin with he | ⟨hin, _⟩
      · cases he
        exact absurd rfl hx
      · exact hin
    · exact hin

theorem Scored.forget {s' : Store} (h : Scored s)
    (hm : ∀ sid m, s'.metadata sid = some m → s.metadata sid = some m)
    (hi : ∀ userId, (s'.index userId).Sublist (s.index userId)) : Scored s' := by
  intro userId sid score m hin hs hown
  exact h userId sid score m ((hi userId).subset hin) (hm sid m hs) hown

theorem update_none {metadata : String → Option SessionMeta} {sid x : String} {m : SessionMeta}
    (h : Function.update metadata sid none x = some m) : metadata x = some m := by
  by_cases hx : x = sid
  · subst hx
    rw [Function.update_self] at h
    cases h
  · rwa [Function.update_of_ne hx] at h

theorem Scored.create (h : Scored s) {idleSeconds now : ℕ} {userId title minted : String}
    {sessionId : Option String} :
    Scored (create idleSeconds s userId title sessionId minted now) := by
  unfold SessionLifecycle.create
  split
  · exact h
  · exact h.write rfl rfl

theorem Scored.touch (h : Scored s) {idleSeconds now : ℕ} {sid userId title minted : String}
    {bump : Bool} : Scored (touch idleSeconds s sid userId title bump minted now) := by
  unfold SessionLifecycle.touch
  split
  · exact h
  · split
    · exact h.create
    · split
      · exact h
      · exact h.write rfl rfl

theorem Scored.delete (h : Scored s) {sid : String} : Scored (delete s sid) := by
  unfold SessionLifecycle.delete
  split
  · exact h
  · refine h.forget (fun _ _ => update_none) fun userId => ?_
    cases s.metadata sid with
    | none => exact List.Sublist.refl _
    | some m => exact sublist_update List.filter_sublist userId

theorem Scored.listForUser (h : Scored s) {userId : String} {limit : ℤ} {now : String → ℕ} :
    Scored (listForUser s userId limit now).2 := by
  unfold SessionLifecycle.listForUser
  split
  · exact h
  · exact h.forget (fun _ _ hm => hm) (sublist_update List.filter_sublist)

theorem Scored.step (h : Scored s) (idleSeconds : ℕ) (a : Call) :
    Scored (step idleSeconds s a) := by
  cases a with
  | create userId title sessionId minted now => exact h.create
  | touch sid userId title bump minted now => exact h.touch
  | delete sid => exact h.delete
  | listForUser userId limit now => exact h.listForUser
  | expireMetadata sid => exact h.forget (fun _ _ => update_none) fun _ => List.Sublist.refl _
  | expireIndex userId =>
    exact h.forget (fun _ _ hm => hm) (sublist_update (List.nil_sublist _))

theorem scored_after (idleSeconds : ℕ) (calls : List Call) : Scored (after idleSeconds calls) := by
  induction calls using List.reverseRecOn with
  | nil =>
    intro userId sid score m hin
    cases hin
  | append_singleton calls a ih =>
    rw [after_snoc]
    exact ih.step idleSeconds a

end Scores

/-- Every live session among the first `limit` of the index is the user's own. -/
def ScansOwn (s : Store) (userId : String) (limit : ℕ) (now : String → ℕ) : Prop :=
  ∀ e ∈ (ranked s userId).take limit, ∀ m, get s e.1 (now e.1) = some m → m.userId = userId

/-- Beyond that, no dead id among them keeps a live own session behind them out. Under the
empty user id nothing is read at all. -/
def Unobstructed (s : Store) (userId : String) (limit : ℕ) (now : String → ℕ) : Prop :=
  (userId = "" ∧ recentLive s userId now = []) ∨
    (userId ≠ "" ∧ ScansOwn s userId limit now ∧
      ((∀ e ∈ (ranked s userId).take limit, (get s e.1 (now e.1)).isSome) ∨
        ∀ e ∈ (ranked s userId).drop limit, ownLive s userId now e.1 = none))

theorem listForUser_eq {s : Store} {userId : String} (hu : userId ≠ "") {limit : ℤ}
    (hl : 1 ≤ limit) (now : String → ℕ) :
    (listForUser s userId limit now).1 =
      (((ranked s userId).map Prod.fst).take limit.toNat).filterMap (lookup s now) := by
  have hcut : (max 0 (limit - 1)).toNat + 1 = limit.toNat := by omega
  rw [listForUser, if_neg hu, zrevrange, hcut]
  rfl

section Listing

variable {s : Store} {userId : String} {now : String → ℕ}

/-- In the order of the index the user's own live sessions stand by last activity. -/
theorem ranked_newest (h : Scored s) :
    (((ranked s userId).map Prod.fst).filterMap (ownLive s userId now)).Pairwise
      fun e e' => e'.2.lastActiveAtUnixMs ≤ e.2.lastActiveAtUnixMs := by
  have hscore : ∀ e ∈ ranked s userId, ∀ b, ownLive s userId now e.1 = some b →
      e.2 = b.2.lastActiveAtUnixMs := by
    intro e he b hb
    obtain ⟨_, hget, hown⟩ := ownLive_some.mp hb
    exact h userId e.1 e.2 b.2 ((List.perm_insertionSort _ _).subset he) (get_eq_some hget) hown
  rw [List.filterMap_map, List.pairwise_filterMap]
  refine ranked_newest_first.imp_of_mem fun {e e'} he he' hnewer b hb b' hb' => ?_
  rw [← hscore e he b hb, ← hscore e' he' b' hb']
  rcases hnewer with hlt | ⟨heq, _⟩
  · exact Nat.le_of_lt hlt
  · exact Nat.le_of_eq heq

theorem mostRecent_take {sessions ordered : List (String × SessionMeta)} (limit : ℕ)
    (hp : ordered.Perm sessions)
    (ho : ordered.Pairwise fun e e' => e'.2.lastActiveAtUnixMs ≤ e.2.lastActiveAtUnixMs) :
    MostRecent sessions limit (ordered.take limit) := by
  have hsplit := List.take_append_drop limit ordered
  rw [← hsplit] at ho
  obtain ⟨htake, _, hacross⟩ := List.pairwise_append.mp ho
  exact ⟨⟨ordered.drop limit, by rw [hsplit]; exact hp, hacross⟩,
    by rw [List.length_take, hp.length_eq], htake⟩

theorem ownLive_of_own {sid : String}
    (hown : ∀ m, get s sid (now sid) = some m → m.userId = userId) :
    ownLive s userId now sid = lookup s now sid := by
  rw [ownLive, lookup]
  cases hm : get s sid (now sid) with
  | none => rfl
  | some m => simp [Option.filter_some, hown m hm]

theorem scan_own {limit : ℕ} (hown : ScansOwn s userId limit now) :
    (((ranked s userId).map Prod.fst).take limit).filterMap (lookup s now) =
      (((ranked s userId).map Prod.fst).take limit).filterMap (ownLive s userId now) := by
  refine List.filterMap_congr fun sid hsid => ?_
  rw [← List.map_take] at hsid
  obtain ⟨e, he, rfl⟩ := List.mem_map.mp hsid
  exact (ownLive_of_own (hown e he)).symm

/-- The scan finds what a list of all own live sessions would begin with. -/
theorem scan_cut_iff {limit : ℕ} (hown : ScansOwn s userId limit now) :
    (((ranked s userId).map Prod.fst).take limit).filterMap (lookup s now) =
        (((ranked s userId).map Prod.fst).filterMap (ownLive s userId now)).take limit ↔
      (∀ e ∈ (ranked s userId).take limit, (get s e.1 (now e.1)).isSome) ∨
        ∀ e ∈ (ranked s userId).drop limit, ownLive s userId now e.1 = none := by
  rw [scan_own hown, filterMap_take_eq_iff, ← List.map_take, ← List.map_drop, List.forall_mem_map,
    List.forall_mem_map]
  refine or_congr_left (forall₂_congr fun e he => ?_)
  rw [ownLive_of_own (hown e he), lookup, Option.isSome_map]

/-- A scan that is most recent shows no other user's session. -/
theorem scansOwn_of_recent {limit : ℕ} (h : MostRecent (recentLive s userId now) limit
    ((((ranked s userId).map Prod.fst).take limit).filterMap (lookup s now))) :
    ScansOwn s userId limit now := by
  intro e he m hm
  obtain ⟨rest, hrest, _⟩ := h.split
  have hout : (e.1, m) ∈ (((ranked s userId).map Prod.fst).take limit).filterMap
      (lookup s now) := by
    rw [← List.map_take]
    exact List.mem_filterMap.mpr ⟨e.1, List.mem_map_of_mem he, by rw [lookup, hm]; rfl⟩
  obtain ⟨sid, _, hsid⟩ := List.mem_filterMap.mp (hrest.subset (List.mem_append_left rest hout))
  exact (ownLive_some.mp hsid).2.2

theorem scanned_recent_iff (h : Scored s) (limit : ℕ) :
    MostRecent (recentLive s userId now) limit
        ((((ranked s userId).map Prod.fst).take limit).filterMap (lookup s now)) ↔
      ScansOwn s userId limit now ∧
        ((∀ e ∈ (ranked s userId).take limit, (get s e.1 (now e.1)).isSome) ∨
          ∀ e ∈ (ranked s userId).drop limit, ownLive s userId now e.1 = none) := by
  have hperm : (((ranked s userId).map Prod.fst).filterMap (ownLive s userId now)).Perm
      (recentLive s userId now) := ranked_perm
  constructor
  · intro hrec
    have hown := scansOwn_of_recent hrec
    refine ⟨hown, (scan_cut_iff hown).mp ?_⟩
    -- both are beginnings of the same list, and as long as each other
    have hpre : ((((ranked s userId).map Prod.fst).take limit).filterMap (lookup s now)) <+:
        ((ranked s userId).map Prod.fst).filterMap (ownLive s userId now) := by
      rw [scan_own hown]
      exact (List.take_prefix _ _).filterMap _
    rw [List.prefix_iff_eq_take.mp hpre, hrec.length, hperm.length_eq.symm]
    rcases Nat.le_total limit (((ranked s userId).map Prod.fst).filterMap
      (ownLive s userId now)).length with hle | hle
    · rw [Nat.min_eq_left hle]
    · rw [Nat.min_eq_right hle, List.take_length, List.take_of_length_le hle]
  · rintro ⟨hown, hcond⟩
    rw [(scan_cut_iff hown).mpr hcond]
    exact mostRecent_take limit hperm (ranked_newest h)

end Listing

/-- In every state that calls and expiries lead to, `list_for_user` returns the user's most
recently active live sessions, as many as there are up to the limit, exactly when the scanned
part of the index is not obstructed. -/
theorem listing_recent_iff (idleSeconds : ℕ) (calls : List Call) (userId : String) (limit : ℤ)
    (hl : 1 ≤ limit) (now : String → ℕ) :
    MostRecent (recentLive (after idleSeconds calls) userId now) limit.toNat
        (listForUser (after idleSeconds calls) userId limit now).1 ↔
      Unobstructed (after idleSeconds calls) userId limit.toNat now := by
  by_cases hu : userId = ""
  · have hpos : limit.toNat ≠ 0 := by omega
    have hnil : (listForUser (after idleSeconds calls) userId limit now).1 = [] := by
      rw [listForUser, if_pos hu]
    rw [hnil]
    constructor
    · intro h
      have hlen := h.length
      exact .inl ⟨hu, List.eq_nil_of_length_eq_zero (by simp only [List.length_nil] at hlen; omega)⟩
    · rintro (⟨_, hnone⟩ | ⟨hne, _⟩)
      · rw [hnone]
        exact ⟨⟨[], List.Perm.refl _, by simp⟩, by simp, .nil⟩
      · exact absurd hu hne
  · rw [listForUser_eq hu hl, scanned_recent_iff (scored_after idleSeconds calls)]
    simp [Unobstructed, hu]

def recentUse : List Call :=
  [.create "ann" "vpn" (some "sess_a") "0" 0, .create "ann" "mail" (some "sess_b") "1" 5,
    .touch "sess_a" "ann" "" true "2" 7, .create "ann" "print" (some "sess_c") "3" 8,
    .expireMetadata "sess_b"]

theorem recentUse_listed :
    (listForUser (after 1800 recentUse) "ann" 2 fun _ => 9).1.map Prod.fst = ["sess_c", "sess_a"] ∧
      MostRecent (recentLive (after 1800 recentUse) "ann" fun _ => 9) 2
        (listForUser (after 1800 recentUse) "ann" 2 fun _ => 9).1 := by
  refine ⟨by decide +kernel, ?_⟩
  refine (listing_recent_iff 1800 recentUse "ann" 2 (by decide) fun _ => 9).mpr ?_
  refine .inr ⟨by decide, ?_, .inl ?_⟩
  · unfold ScansOwn
    decide +kernel
  · decide +kernel

def adoptedAndDeleted : List Call :=
  [.create "ann" "vpn" (some "sess_a") "0" 0, .create "ann" "mail" (some "sess_b") "1" 5,
    .create "bob" "" (some "sess_b") "2" 6, .delete "sess_b"]

def adopted : List Call :=
  [.create "ann" "vpn" (some "sess_a") "0" 0, .create "ann" "mail" (some "sess_b") "1" 5,
    .create "bob" "" (some "sess_a") "2" 6]

/-- The newest id is dead and takes the only place, so Ann's live session is not listed; and a
session that is Bob's by now is listed as Ann's. -/
theorem dead_id_takes_place :
    ((listForUser (after 1800 adoptedAndDeleted) "ann" 1 fun _ => 7).1 = [] ∧
      (recentLive (after 1800 adoptedAndDeleted) "ann" fun _ => 7).map Prod.fst = ["sess_a"] ∧
      ¬ MostRecent (recentLive (after 1800 adoptedAndDeleted) "ann" fun _ => 7) 1
        (listForUser (after 1800 adoptedAndDeleted) "ann" 1 fun _ => 7).1) ∧
    (listForUser (after 1800 adopted) "ann" 20 fun _ => 7).1.map (fun e => (e.1, e.2.userId)) =
      [("sess_b", "ann"), ("sess_a", "bob")] ∧
    ¬ MostRecent (recentLive (after 1800 adopted) "ann" fun _ => 7) 20
      (listForUser (after 1800 adopted) "ann" 20 fun _ => 7).1 := by
  refine ⟨⟨by decide +kernel, by decide +kernel, fun h => ?_⟩, by decide +kernel, fun h => ?_⟩
  · have hlen := h.length
    revert hlen
    decide +kernel
  · have hlen := h.length
    revert hlen
    decide +kernel

end SessionListing
