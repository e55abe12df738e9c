import OneOps.RowMerge
import OneOps.ListSplit
import Mathlib.Data.List.Sort
import Mathlib.Data.List.Induction
import Mathlib.Logic.Function.Basic

/-! The lifecycle store of one tenant: a metadata hash for each session and a sorted set of
session ids for each user, two keys with lifetimes of their own. `create` adopts any safe
id that the client sends and writes both without looking at what is there. -/
namespace SessionLifecycle

open RowMerge
open ListSplit

inductive SessionState where
  | active | closed
  deriving DecidableEq, Repr

structure SessionMeta where
  userId : String
  createdAtUnixMs : ℕ
  lastActiveAtUnixMs : ℕ
  expiresAtUnixMs : ℕ
  state : SessionState
  title : String
  turnCount : ℕ
  deriving DecidableEq, Repr

def isExpired (m : SessionMeta) (now : ℕ) : Bool := m.expiresAtUnixMs ≤ now

/-- `metadata` is the hash of each session id; `index` has each user's ids with their scores. -/
structure Store where
  metadata : String → Option SessionMeta
  index : String → List (String × ℕ)

def isIdChar (c : Char) : Bool := c.isAlphanum || c = '_' || c = '-'

/-- `$` also matches before a final line break. -/
def isSafeClientSessionId (sid : String) : Bool :=
  let body := if sid.toList.getLast? = some '\n' then sid.toList.dropLast else sid.toList
  0 < body.length && body.length ≤ 64 && body.all isIdChar

def zadd (s : Store) (userId sid : String) (score : ℕ) : String → List (String × ℕ) :=
  Function.update s.index userId (upsert Prod.fst (s.index userId) (sid, score))

def zrem (s : Store) (userId sid : String) : String → List (String × ℕ) :=
  Function.update s.index userId ((s.index userId).filter fun e => e.1 ≠ sid)

/-- The id that `create` writes under: the client's if it is safe, else a minted one. -/
def createdId (sessionId : Option String) (minted : String) : String :=
  match sessionId with
  | some sid => if isSafeClientSessionId sid then sid else "sess_" ++ minted
  | none => "sess_" ++ minted

def writeSession (idleSeconds : ℕ) (s : Store) (userId title sid : String) (now : ℕ) : Store where
  metadata := Function.update s.metadata sid
    (some ⟨userId, now, now, now + idleSeconds * 1000, .active, title, 0⟩)
  index := zadd s userId sid now

def create (idleSeconds : ℕ) (s : Store) (userId title : String) (sessionId : Option String)
    (minted : String) (now : ℕ) : Store :=
  if userId = "" then s
  else writeSession idleSeconds s userId title (createdId sessionId minted) now

def get (s : Store) (sid : String) (now : ℕ) : Option SessionMeta :=
  if sid = "" then none
  else (s.metadata sid).filter fun m => !isExpired m now

def touch (idleSeconds : ℕ) (s : Store) (sid userId title : String) (bumpTurnCount : Bool)
    (minted : String) (now : ℕ) : Store :=
  if sid = "" then s
  else
    match s.metadata sid with
    | none => create idleSeconds s userId title none minted now
    | some m =>
      if m.state = .closed then s
      else
        { metadata := Function.update s.metadata sid (some
            { m with
              lastActiveAtUnixMs := now
              expiresAtUnixMs := now + idleSeconds * 1000
              title := if m.title = "" then title else m.title
              turnCount := m.turnCount + if bumpTurnCount then 1 else 0 })
          index := zadd s m.userId sid now }

def delete (s : Store) (sid : String) : Store :=
  if sid = "" then s
  else
    { metadata := Function.update s.metadata sid none
      index := match s.metadata sid with
        | some m => zrem s m.userId sid
        | none => s.index }

/-- The newest ids first, at most `limit` of them and at least one. -/
def zrevrange (s : Store) (userId : String) (limit : ℤ) : List String :=
  (((s.index userId).insertionSort fun a b => b.2 < a.2 ∨ (b.2 = a.2 ∧ b.1 ≤ a.1)).map
    Prod.fst).take ((max 0 (limit - 1)).toNat + 1)

/-- Ids whose session is gone are dropped from the index. `now` is the time of each lookup. -/
def listForUser (s : Store) (userId : String) (limit : ℤ) (now : String → ℕ) :
    List (String × SessionMeta) × Store :=
  if userId = "" then ([], s)
  else
    let sids := zrevrange s userId limit
    (sids.filterMap fun sid => (get s sid (now sid)).map fun m => (sid, m),
      { s with
        index := Function.update s.index userId
          ((s.index userId).filter fun e => ¬ (e.1 ∈ sids ∧ get s e.1 (now e.1) = none)) })

inductive Call where
  | create (userId title : String) (sessionId : Option String) (minted : String) (now : ℕ)
  | touch (sid userId title : String) (bumpTurnCount : Bool) (minted : String) (now : ℕ)
  | delete (sid : String)
  | listForUser (userId : String) (limit : ℤ) (now : String → ℕ)
  | expireMetadata (sid : String)
  | expireIndex (userId : String)

def step (idleSeconds : ℕ) (s : Store) : Call → Store
  | .create userId title sessionId minted now =>
    create idleSeconds s userId title sessionId minted now
  | .touch sid userId title bump minted now => touch idleSeconds s sid userId title bump minted now
  | .delete sid => delete s sid
  | .listForUser userId limit now => (listForUser s userId limit now).2
  | .expireMetadata sid => { s with metadata := Function.update s.metadata sid none }
  | .expireIndex userId => { s with index := Function.update s.index userId [] }

def after (idleSeconds : ℕ) (calls : List Call) : Store :=
  calls.foldl (step idleSeconds) ⟨fun _ => none, fun _ => []⟩

def Indexed (s : Store) (userId sid : String) : Prop := sid ∈ (s.index userId).map Prod.fst

def Owned (s : Store) : Prop :=
  ∀ userId sid m, Indexed s userId sid → s.metadata sid = some m → m.userId = userId

def OwnersKept (s s' : Store) : Prop :=
  ∀ sid m m', s.metadata sid = some m → s'.metadata sid = some m' → m'.userId = m.userId

def ListsOwn (s : Store) : Call → Prop
  | .listForUser userId limit now => ∀ e ∈ (listForUser s userId limit now).1, e.2.userId = userId
  | _ => True

def creates (s : Store) : Call → Option (String × String)
  | .create userId _ sessionId minted _ =>
    if userId = "" then none else some (userId, createdId sessionId minted)
  | .touch sid userId _ _ minted _ =>
    if sid = "" ∨ (s.metadata sid).isSome ∨ userId = "" then none
    else some (userId, createdId none minted)
  | _ => none

def Unclaimed (s : Store) (a : Call) : Prop :=
  ∀ userId sid, creates s a = some (userId, sid) →
    (∀ other, other ≠ userId → ¬ Indexed s other sid) ∧
      ∀ m, s.metadata sid = some m → m.userId = userId

section Calls

variable {s s' : Store}

theorem indexed_zadd {userId sid other x : String} {score : ℕ} :
    x ∈ (zadd s userId sid score other).map Prod.fst ↔
      Indexed s other x ∨ (other = userId ∧ x = sid) := by
  by_cases h : other = userId
  · subst h
    rw [zadd, Function.update_self, mem_keys_upsert]
    simp [Indexed]
  · rw [zadd, Function.update_of_ne h]
    simp [Indexed, h]

/-- Writing a session keeps ownership in order exactly when nobody else has its id. -/
theorem writeSession_iff (h : Owned s) {idleSeconds now : ℕ} {userId title sid : String} :
    (Owned (writeSession idleSeconds s userId title sid now) ∧
        OwnersKept s (writeSession idleSeconds s userId title sid now)) ↔
      (∀ other, other ≠ userId → ¬ Indexed s other sid) ∧
        ∀ m, s.metadata sid = some m → m.userId = userId := by
  have hnew : (writeSession idleSeconds s userId title sid now).metadata sid =
      some ⟨userId, now, now, now + idleSeconds * 1000, .active, title, 0⟩ :=
    Function.update_self _ _ _
  have hold : ∀ x, x ≠ sid →
      (writeSession idleSeconds s userId title sid now).metadata x = s.metadata x :=
    fun x hx => Function.update_of_ne hx _ _
  constructor
  · rintro ⟨ho, hk⟩
    constructor
    · intro other hne hin
      exact hne (ho other sid _ (indexed_zadd.mpr (.inl hin)) hnew).symm
    · intro m hm
      exact (hk sid m _ hm hnew).symm
  · rintro ⟨hfree, hmine⟩
    constructor
    · intro other x m hin hm
      by_cases hx : x = sid
      · subst hx
        rw [hnew] at hm
        cases hm
        rcases indexed_zadd.mp hin with hin | ⟨rfl, _⟩
        · by_contra hne
          exact hfree other (Ne.symm hne) hin
        · rfl
      · rw [hold x hx] at hm
        rcases indexed_zadd.mp hin with hin | ⟨_, rfl⟩
        · exact h other x m hin hm
        · exact absurd rfl hx
    · intro x m m' hm hm'
      by_cases hx : x = sid
      · subst hx
        rw [hnew] at hm'
        cases hm'
        exact (hmine m hm).symm
      · rw [hold x hx, hm] at hm'
        cases hm'
        rfl

/-- A change that writes no new owner and indexes a session under its owner only. -/
structure Tame (s s' : Store) : Prop where
  owners : ∀ sid m', s'.metadata sid = some m' →
    ∃ m, s.metadata sid = some m ∧ m'.userId = m.userId
  entries : ∀ userId sid, Indexed s' userId sid →
    Indexed s userId sid ∨ ∃ m, s.metadata sid = some m ∧ m.userId = userId

theorem Tame.refl (s : Store) : Tame s s :=
  ⟨fun _ m hm => ⟨m, hm, rfl⟩, fun _ _ h => .inl h⟩

theorem Tame.owned (ht : Tame s s') (h : Owned s) : Owned s' := by
  intro userId sid m' hin hm'
  obtain ⟨m, hm, he⟩ := ht.owners sid m' hm'
  rw [he]
  rcases ht.entries userId sid hin with hin | ⟨k, hk, hku⟩
  · exact h userId sid m hin hm
  · rw [hm] at hk
    cases hk
    exact hku

theorem Tame.kept (ht : Tame s s') : OwnersKept s s' := by
  intro sid m m' hm hm'
  obtain ⟨k, hk, he⟩ := ht.owners sid m' hm'
  rw [hm] at hk
  cases hk
  exact he

theorem tame_forget {sid : String} {index : String → List (String × ℕ)}
    (hi : ∀ userId, (index userId).Sublist (s.index userId)) :
    Tame s ⟨Function.update s.metadata sid none, index⟩ := by
  constructor
  · intro x m' hm'
    by_cases hx : x = sid
    · subst hx
      simp only [Function.update_self] at hm'
      cases hm'
    · simp only [Function.update_of_ne hx] at hm'
      exact ⟨m', hm', rfl⟩
  · intro userId x hin
    exact .inl (((hi userId).map _).subset hin)

theorem sublist_update {index : String → List (String × ℕ)} {userId : String}
    {rows : List (String × ℕ)} (h : rows.Sublist (index userId)) (other : String) :
    (Function.update index userId rows other).Sublist (index other) := by
  by_cases ho : other = userId
  · subst ho
    rwa [Function.update_self]
  · rw [Function.update_of_ne ho]

theorem tame_delete (s : Store) (sid : String) : Tame s (delete s sid) := by
  unfold delete
  by_cases h : sid = ""
  · rw [if_pos h]
    exact Tame.refl s
  rw [if_neg h]
  apply tame_forget
  intro userId
  cases s.metadata sid with
  | none => exact List.Sublist.refl _
  | some m => exact sublist_update List.filter_sublist userId

theorem tame_index {index : String → List (String × ℕ)}
    (hi : ∀ userId, (index userId).Sublist (s.index userId)) :
    Tame s { s with index := index } :=
  ⟨fun _ m hm => ⟨m, hm, rfl⟩, fun userId _ hin => .inl (((hi userId).map _).subset hin)⟩

theorem tame_list (s : Store) (userId : String) (limit : ℤ) (now : String → ℕ) :
    Tame s (listForUser s userId limit now).2 := by
  unfold listForUser
  by_cases h : userId = ""
  · rw [if_pos h]
    exact Tame.refl s
  · rw [if_neg h]
    exact tame_index (sublist_update List.filter_sublist)

theorem tame_touch {idleSeconds now : ℕ} {sid userId title minted : String} {bump : Bool}
    {m : SessionMeta} (hm : s.metadata sid = some m) :
    Tame s (touch idleSeconds s sid userId title bump minted now) := by
  unfold touch
  by_cases h : sid = ""
  · rw [if_pos h]
    exact Tame.refl s
  rw [if_neg h]
  simp only [hm]
  by_cases hc : m.state = .closed
  · rw [if_pos hc]
    exact Tame.refl s
  rw [if_neg hc]
  constructor
  · intro x m' hm'
    by_cases hx : x = sid
    · subst hx
      simp only [Function.update_self] at hm'
      cases hm'
      exact ⟨m, hm, rfl⟩
    · simp only [Function.update_of_ne hx] at hm'
      exact ⟨m', hm', rfl⟩
  · intro other x hin
    rcases indexed_zadd.mp hin with hin | ⟨rfl, rfl⟩
    · exact .inl hin
    · exact .inr ⟨m, hm, rfl⟩

theorem step_cases (idleSeconds : ℕ) (s : Store) (a : Call) :
    (∃ userId title sid now, creates s a = some (userId, sid) ∧
      step idleSeconds s a = writeSession idleSeconds s userId title sid now) ∨
    (creates s a = none ∧ Tame s (step idleSeconds s a)) := by
  cases a with
  | create userId title sessionId minted now =>
    by_cases h : userId = ""
    · exact .inr ⟨if_pos h, by rw [step, create, if_pos h]; exact Tame.refl s⟩
    · exact .inl ⟨userId, title, _, now, if_neg h, if_neg h⟩
  | touch sid userId title bump minted now =>
    cases hm : s.metadata sid with
    | some m => exact .inr ⟨if_pos (.inr (.inl (by rw [hm]; rfl))), tame_touch hm⟩
    | none =>
      by_cases h : sid = "" ∨ userId = ""
      · refine .inr ⟨if_pos (h.imp_right .inr), ?_⟩
        have hs : step idleSeconds s (.touch sid userId title bump minted now) = s := by
          rcases h with h | h
          · exact if_pos h
          · simp only [step, touch, hm, create, h, if_true, ite_self]
        rw [hs]
        exact Tame.refl s
      · rw [not_or] at h
        refine .inl ⟨userId, title, _, now, if_neg (by simp [h, hm]), ?_⟩
        simp only [step, touch, hm, create, h.1, h.2, if_false]
  | delete sid => exact .inr ⟨rfl, tame_delete s sid⟩
  | listForUser userId limit now => exact .inr ⟨rfl, tame_list s userId limit now⟩
  | expireMetadata sid => exact .inr ⟨rfl, tame_forget fun _ => List.Sublist.refl _⟩
  | expireIndex userId => exact .inr ⟨rfl, tame_index (sublist_update (List.nil_sublist _))⟩

theorem get_eq_some {sid : String} {now : ℕ} {m : SessionMeta} (h : get s sid now = some m) :
    s.metadata sid = some m := by
  unfold get at h
  split at h
  · cases h
  · exact (Option.filter_eq_some_iff.mp h).1

theorem Owned.listsOwn (h : Owned s) (a : Call) : ListsOwn s a := by
  cases a with
  | listForUser userId limit now =>
    intro e he
    unfold listForUser at he
    by_cases hu : userId = ""
    · simp [hu] at he
    rw [if_neg hu] at he
    obtain ⟨sid, hsid, he⟩ := List.mem_filterMap.mp he
    obtain ⟨m, hm, rfl⟩ := Option.map_eq_some_iff.mp he
    refine h userId sid m ?_ (get_eq_some hm)
    have hmem := List.mem_of_mem_take hsid
    exact ((List.perm_insertionSort _ _).map Prod.fst).subset hmem
  | _ => trivial

theorem Owned.step_iff (h : Owned s) (idleSeconds : ℕ) (a : Call) :
    (Owned (step idleSeconds s a) ∧ OwnersKept s (step idleSeconds s a) ∧ ListsOwn s a) ↔
      Unclaimed s a := by
  rcases step_cases idleSeconds s a with ⟨userId, title, sid, now, hc, hs⟩ | ⟨hc, ht⟩
  · rw [hs, ← and_assoc, and_iff_left (h.listsOwn a), writeSession_iff h]
    constructor
    · intro hfree u x hcx
      rw [hc] at hcx
      cases hcx
      exact hfree
    · intro hu
      exact hu userId sid hc
  · refine ⟨fun _ u x hcx => ?_, fun _ => ⟨ht.owned h, ht.kept, h.listsOwn a⟩⟩
    rw [hc] at hcx
    cases hcx

end Calls

theorem after_snoc (idleSeconds : ℕ) (calls : List Call) (a : Call) :
    after idleSeconds (calls ++ [a]) = step idleSeconds (after idleSeconds calls) a := by
  simp [after]

/-- In every sequence of calls and expiries, the indexes name only their users' sessions,
listings return only those and no live session changes hands, exactly when every session
is created under an id that no other user has. -/
theorem session_ownership_iff (idleSeconds : ℕ) (calls : List Call) :
    AtEach (fun before a => Owned (after idleSeconds (before ++ [a])) ∧
        OwnersKept (after idleSeconds before) (after idleSeconds (before ++ [a])) ∧
        ListsOwn (after idleSeconds before) a) calls ↔
      AtEach (fun before a => Unclaimed (after idleSeconds before) a) calls := by
  apply atEach_congr (I := fun before => Owned (after idleSeconds before))
  · intro userId sid m hin
    cases hin
  · intro before a h
    rw [after_snoc]
    exact h.step_iff idleSeconds a
  · intro before a _ h
    exact h.1

def takeover : List Call :=
  [.create "ann" "vpn" (some "sess_a") "0" 0, .create "bob" "" (some "sess_a") "1" 5]

/-- Ann's session is Bob's now, and Ann's listing shows it. -/
theorem takeover_changes_owner :
    let s := after 1800 [.create "ann" "vpn" (some "sess_a") "0" 0]
    let s' := after 1800 takeover
    (s.metadata "sess_a").map SessionMeta.userId = some "ann" ∧
      (s'.metadata "sess_a").map SessionMeta.userId = some "bob" ∧
      (listForUser s' "ann" 20 fun _ => 6).1.map (fun e => (e.1, e.2.userId)) =
        [("sess_a", "bob")] := by
  decide +kernel

end SessionLifecycle
