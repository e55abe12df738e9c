import OneOps.ExecutorNodes
import OneOps.StableRanking

/-! The policy engine: rules are data, the matching rule of highest priority decides, and
where no rule matches everything is allowed. Rules can be loaded again at any time. -/
namespace PolicyEngine

open StableRanking

inductive PolicyEffect where
  | allow | deny | canned
  deriving DecidableEq, Repr

structure PolicyQuery where
  tenantId : String
  role : Option String
  action : Option String
  dataClassification : Option String
  surface : Option String
  intent : Option String
  deriving DecidableEq, Repr

structure PolicyMatch where
  roles : List String
  actions : List String
  dataClassifications : List String
  surfaces : List String
  intents : List String
  deriving DecidableEq, Repr

def ok (accepted : List String) (value : Option String) : Bool :=
  accepted.isEmpty || value.any fun v => v ∈ accepted

def PolicyMatch.matches (m : PolicyMatch) (q : PolicyQuery) : Bool :=
  ok m.roles q.role && ok m.actions q.action && ok m.dataClassifications q.dataClassification &&
    ok m.surfaces q.surface && ok m.intents q.intent

/-- `__post_init__` refuses a canned effect without a response. -/
structure PolicyRule where
  id : String
  scope : PolicyMatch
  effect : PolicyEffect
  reason : String
  cannedResponse : String
  priority : ℤ
  canned : effect = .canned → cannedResponse ≠ ""
  deriving DecidableEq

structure PolicyDecision where
  effect : PolicyEffect
  reason : String
  cannedResponse : String
  matchedRuleId : String
  policyVersion : String
  deriving DecidableEq, Repr

structure Engine where
  rules : List PolicyRule
  version : String

def Engine.ofRules (rules : List PolicyRule) (version : String) : Engine :=
  ⟨byDescending PolicyRule.priority rules, version⟩

def Engine.evaluate (e : Engine) (q : PolicyQuery) : PolicyDecision :=
  match e.rules.find? fun r => r.scope.matches q with
  | some r => ⟨r.effect, r.reason, r.cannedResponse, r.id, e.version⟩
  | none => ⟨.allow, "no rule restricts this", "", "", e.version⟩

/-- A policy file as it is found: unreadable and malformed ones raise before anything changes. -/
structure PolicyFile where
  rules : List PolicyRule
  version : String

def Engine.reload (e : Engine) : Option PolicyFile → Engine
  | none => e
  | some file => Engine.ofRules file.rules file.version

def afterReloads (file : PolicyFile) (files : List (Option PolicyFile)) : Engine :=
  files.foldl Engine.reload (Engine.ofRules file.rules file.version)

/-- The rule decides a query: it matches, rules before it in the file that match have lower
priority, and those after it no higher one. -/
def Decides (rules : List PolicyRule) (q : PolicyQuery) (r : PolicyRule) : Prop :=
  ∃ before after, rules = before ++ r :: after ∧ r.scope.matches q = true ∧
    (∀ x ∈ before, x.scope.matches q = true → x.priority < r.priority) ∧
    ∀ x ∈ after, x.scope.matches q = true → x.priority ≤ r.priority

theorem find?_orderedInsert {α β : Type*} [LinearOrder β] {f : α → β} {p : α → Bool} {a : α}
    {l : List α} (hl : l.Pairwise fun x y => f y ≤ f x) :
    (l.orderedInsert (fun x y => f y ≤ f x) a).find? p =
      if p a = true ∧ ∀ x ∈ l.find? p, f x ≤ f a then some a else l.find? p := by
  induction l with
  | nil => by_cases hp : p a = true <;> simp [hp]
  | cons b l ih =>
    rw [List.pairwise_cons] at hl
    rw [List.orderedInsert]
    by_cases hab : f b ≤ f a
    · rw [if_pos hab, List.find?_cons]
      by_cases hp : p a = true
      · have hall : ∀ x ∈ (b :: l).find? p, f x ≤ f a := by
          intro x hx
          rcases List.mem_cons.mp (List.mem_of_find?_eq_some hx) with rfl | hm
          · exact hab
          · exact (hl.1 x hm).trans hab
        rw [if_pos ⟨hp, hall⟩, hp]
      · have hfalse : p a = false := Bool.not_eq_true _ ▸ hp
        rw [if_neg (fun h => hp h.1), hfalse]
    · rw [if_neg hab, List.find?_cons, List.find?_cons, ih hl.2]
      by_cases hb : p b = true
      · simp only [hb]
        rw [if_neg]
        rintro ⟨-, hall⟩
        exact hab (hall b rfl)
      · have hfalse : p b = false := Bool.not_eq_true _ ▸ hb
        simp only [hfalse]

theorem Decides.mem {rules : List PolicyRule} {q : PolicyQuery} {r : PolicyRule}
    (h : Decides rules q r) : r ∈ rules ∧ r.scope.matches q = true := by
  obtain ⟨before, after, rfl, hm, -⟩ := h
  exact ⟨List.mem_append_right _ List.mem_cons_self, hm⟩

theorem Decides.highest {rules : List PolicyRule} {q : PolicyQuery} {r : PolicyRule}
    (h : Decides rules q r) {x : PolicyRule} (hx : x ∈ rules) (hm : x.scope.matches q = true) :
    x.priority ≤ r.priority := by
  obtain ⟨before, after, rfl, -, hbefore, hafter⟩ := h
  rcases List.mem_append.mp hx with hx | hx
  · exact (hbefore x hx hm).le
  · rcases List.mem_cons.mp hx with rfl | hx
    · exact le_rfl
    · exact hafter x hx hm

theorem decides_cons {a r : PolicyRule} {rules : List PolicyRule} {q : PolicyQuery} :
    Decides (a :: rules) q r ↔
      (r = a ∧ a.scope.matches q = true ∧
        ∀ x ∈ rules, x.scope.matches q = true → x.priority ≤ a.priority) ∨
      (Decides rules q r ∧ (a.scope.matches q = true → a.priority < r.priority)) := by
  constructor
  · rintro ⟨before, after, heq, hm, hbefore, hafter⟩
    cases before with
    | nil =>
      obtain ⟨rfl, rfl⟩ := List.cons.inj heq
      exact .inl ⟨rfl, hm, hafter⟩
    | cons b before =>
      obtain ⟨rfl, rfl⟩ := List.cons.inj heq
      refine .inr ⟨⟨before, after, rfl, hm, fun x hx => ?_, hafter⟩, hbefore a List.mem_cons_self⟩
      exact hbefore x (List.mem_cons_of_mem a hx)
  · rintro (⟨rfl, hm, hafter⟩ | ⟨⟨before, after, rfl, hm, hbefore, hafter⟩, ha⟩)
    · exact ⟨[], rules, rfl, hm, nofun, hafter⟩
    · refine ⟨a :: before, after, rfl, hm, fun x hx hxm => ?_, hafter⟩
      rcases List.mem_cons.mp hx with rfl | hx
      · exact ha hxm
      · exact hbefore x hx hxm

/-- Sorting by priority does not lose the order of the file. -/
theorem find?_byDescending {rules : List PolicyRule} {q : PolicyQuery} {r : PolicyRule} :
    (byDescending PolicyRule.priority rules).find? (fun x => x.scope.matches q) = some r ↔
      Decides rules q r := by
  induction rules generalizing r with
  | nil => simp [byDescending, Decides]
  | cons a rules ih =>
    have hinsert : byDescending PolicyRule.priority (a :: rules) =
        (byDescending PolicyRule.priority rules).orderedInsert
          (fun x y => y.priority ≤ x.priority) a := rfl
    rw [hinsert, find?_orderedInsert (byDescending_pairwise PolicyRule.priority rules),
      decides_cons]
    split
    · next ha =>
      obtain ⟨hmatch, hbest⟩ := ha
      -- the best of the rest is no better, so no matching rule of the rest is
      have hall : ∀ x ∈ rules, x.scope.matches q = true → x.priority ≤ a.priority := by
        intro x hx hm
        cases hfind : (byDescending PolicyRule.priority rules).find?
            fun x => x.scope.matches q with
        | none =>
          exact absurd hm (List.find?_eq_none.mp hfind x (mem_byDescending.mpr hx))
        | some m => exact ((ih.mp hfind).highest hx hm).trans (hbest m hfind)
      constructor
      · intro heq
        obtain rfl := Option.some.inj heq
        exact .inl ⟨rfl, hmatch, hall⟩
      · rintro (⟨rfl, -, -⟩ | ⟨hd, hlt⟩)
        · rfl
        · exact absurd (hall r hd.mem.1 hd.mem.2) (not_le.mpr (hlt hmatch))
    · next hno =>
      rw [ih]
      constructor
      · intro hd
        refine .inr ⟨hd, fun hmatch => ?_⟩
        by_contra hle
        refine hno ⟨hmatch, fun x hx => ?_⟩
        obtain rfl := Option.some.inj (hx.symm.trans (ih.mpr hd))
        exact not_lt.mp hle
      · rintro (⟨rfl, hmatch, hall⟩ | ⟨hd, -⟩)
        · refine absurd ⟨hmatch, fun x hx => ?_⟩ hno
          obtain ⟨hm, hxm⟩ := (ih.mp hx).mem
          exact hall x hm hxm
        · exact hd

theorem evaluate_eq (rules : List PolicyRule) (version : String) (q : PolicyQuery) :
    (∃ r, Decides rules q r ∧ (Engine.ofRules rules version).evaluate q =
      ⟨r.effect, r.reason, r.cannedResponse, r.id, version⟩) ∨
    ((∀ r ∈ rules, r.scope.matches q = false) ∧ (Engine.ofRules rules version).evaluate q =
      ⟨.allow, "no rule restricts this", "", "", version⟩) := by
  unfold Engine.evaluate Engine.ofRules
  cases hfind : (byDescending PolicyRule.priority rules).find? fun x => x.scope.matches q with
  | some r => exact .inl ⟨r, find?_byDescending.mp hfind, rfl⟩
  | none =>
    refine .inr ⟨fun r hr => ?_, rfl⟩
    have := List.find?_eq_none.mp hfind r (mem_byDescending.mpr hr)
    exact (Bool.not_eq_true _).mp this

def inForce (file : PolicyFile) (files : List (Option PolicyFile)) : PolicyFile :=
  files.foldl (fun f g => g.getD f) file

theorem afterReloads_eq (file : PolicyFile) (files : List (Option PolicyFile)) :
    afterReloads file files =
      Engine.ofRules (inForce file files).rules (inForce file files).version := by
  unfold afterReloads inForce
  induction files generalizing file with
  | nil => rfl
  | cons f files ih =>
    cases f with
    | none => exact ih file
    | some g => exact ih g

theorem Decides.unique {rules : List PolicyRule} {q : PolicyQuery} {r r' : PolicyRule}
    (h : Decides rules q r) (h' : Decides rules q r') : r = r' :=
  Option.some.inj ((find?_byDescending.mpr h).symm.trans (find?_byDescending.mpr h'))

theorem evaluate_of_decides (file : PolicyFile) (files : List (Option PolicyFile))
    {q : PolicyQuery} {r : PolicyRule} (h : Decides (inForce file files).rules q r) :
    ((afterReloads file files).evaluate q).effect = r.effect := by
  rw [afterReloads_eq]
  rcases evaluate_eq (inForce file files).rules (inForce file files).version q with
    ⟨r', h', heq⟩ | ⟨hnone, -⟩
  · rw [heq, h.unique h']
  · exact absurd h.mem.2 (by simp [hnone r h.mem.1])

/-- After any reloads, decisions are those of the last file that could be read: a matching rule
of highest priority decides, of several the first in the file, and its effect, reason and
response are the decision; where no rule matches everything is allowed. -/
theorem reloaded_policy_decides (file : PolicyFile) (files : List (Option PolicyFile))
    (q : PolicyQuery) :
    (∃ r, Decides (inForce file files).rules q r ∧ (afterReloads file files).evaluate q =
      ⟨r.effect, r.reason, r.cannedResponse, r.id, (inForce file files).version⟩) ∨
    ((∀ r ∈ (inForce file files).rules, r.scope.matches q = false) ∧
      (afterReloads file files).evaluate q =
        ⟨.allow, "no rule restricts this", "", "", (inForce file files).version⟩) := by
  rw [afterReloads_eq]
  exact evaluate_eq _ _ q

end PolicyEngine
