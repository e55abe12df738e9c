import Mathlib.Data.List.Forall2

/-! Strong Kleene logic. A truth value may be unknown, and a value refines another one if it
keeps what was known. The connectives are monotone in that order, so what is settled with
some values unknown stays settled. -/
namespace KleeneLogic

inductive Truth where
  | yes | no | unknown
  deriving DecidableEq, Repr

def neg : Truth → Truth
  | .yes => .no
  | .no => .yes
  | .unknown => .unknown

def conj : Truth → Truth → Truth
  | .no, _ => .no
  | _, .no => .no
  | .yes, .yes => .yes
  | _, _ => .unknown

def disj : Truth → Truth → Truth
  | .yes, _ => .yes
  | _, .yes => .yes
  | .no, .no => .no
  | _, _ => .unknown

def all (vs : List Truth) : Truth := vs.foldr conj .yes

def any (vs : List Truth) : Truth := vs.foldr disj .no

def ofBool (b : Bool) : Truth := if b then .yes else .no

/-- `v` has what is known of `u`. -/
def Refines (u v : Truth) : Prop := u = .unknown ∨ u = v

instance (u v : Truth) : Decidable (Refines u v) := inferInstanceAs (Decidable (_ ∨ _))

@[simp] theorem all_nil : all [] = .yes := rfl

@[simp] theorem all_cons (v : Truth) (vs : List Truth) : all (v :: vs) = conj v (all vs) := rfl

@[simp] theorem any_nil : any [] = .no := rfl

@[simp] theorem any_cons (v : Truth) (vs : List Truth) : any (v :: vs) = disj v (any vs) := rfl

@[simp] theorem neg_neg (v : Truth) : neg (neg v) = v := by cases v <;> rfl

theorem neg_eq_self {v : Truth} : neg v = v ↔ v = .unknown := by
  cases v <;> decide

theorem neg_conj (u v : Truth) : neg (conj u v) = disj (neg u) (neg v) := by
  cases u <;> cases v <;> rfl

theorem neg_disj (u v : Truth) : neg (disj u v) = conj (neg u) (neg v) := by
  cases u <;> cases v <;> rfl

theorem neg_all (vs : List Truth) : neg (all vs) = any (vs.map neg) := by
  induction vs with
  | nil => rfl
  | cons v vs ih => rw [all_cons, neg_conj, ih, List.map_cons, any_cons]

theorem neg_any (vs : List Truth) : neg (any vs) = all (vs.map neg) := by
  induction vs with
  | nil => rfl
  | cons v vs ih => rw [any_cons, neg_disj, ih, List.map_cons, all_cons]

theorem all_eq_no {vs : List Truth} : all vs = .no ↔ .no ∈ vs := by
  induction vs with
  | nil => decide
  | cons v vs ih =>
    rw [all_cons, List.mem_cons, ← ih]
    cases v <;> cases all vs <;> decide

theorem all_eq_yes {vs : List Truth} : all vs = .yes ↔ ∀ v ∈ vs, v = .yes := by
  induction vs with
  | nil => simp
  | cons v vs ih =>
    rw [all_cons, List.forall_mem_cons, ← ih]
    cases v <;> cases all vs <;> decide

theorem any_eq_yes {vs : List Truth} : any vs = .yes ↔ .yes ∈ vs := by
  induction vs with
  | nil => decide
  | cons v vs ih =>
    rw [any_cons, List.mem_cons, ← ih]
    cases v <;> cases any vs <;> decide

theorem any_eq_no {vs : List Truth} : any vs = .no ↔ ∀ v ∈ vs, v = .no := by
  induction vs with
  | nil => simp
  | cons v vs ih =>
    rw [any_cons, List.forall_mem_cons, ← ih]
    cases v <;> cases any vs <;> decide

theorem all_known {vs : List Truth} (h : ∀ v ∈ vs, v ≠ .unknown) : all vs ≠ .unknown := by
  induction vs with
  | nil => decide
  | cons v vs ih =>
    have hv := h v List.mem_cons_self
    have hvs := ih fun u hu => h u (List.mem_cons_of_mem _ hu)
    rw [all_cons]
    revert hv hvs
    cases v <;> cases all vs <;> decide

theorem any_known {vs : List Truth} (h : ∀ v ∈ vs, v ≠ .unknown) : any vs ≠ .unknown := by
  rw [← neg_neg (any vs), neg_any]
  have hall : all (vs.map neg) ≠ .unknown := by
    apply all_known
    intro v hv
    obtain ⟨u, hu, rfl⟩ := List.mem_map.mp hv
    have := h u hu
    revert this
    cases u <;> decide
  revert hall
  cases all (vs.map neg) <;> decide

theorem Refines.refl (v : Truth) : Refines v v := .inr rfl

theorem Refines.neg {u v : Truth} (h : Refines u v) : Refines (neg u) (neg v) := by
  revert h
  cases u <;> cases v <;> decide

theorem Refines.conj {u v u' v' : Truth} (h : Refines u v) (h' : Refines u' v') :
    Refines (conj u u') (conj v v') := by
  revert h h'
  cases u <;> cases v <;> cases u' <;> cases v' <;> decide

theorem Refines.disj {u v u' v' : Truth} (h : Refines u v) (h' : Refines u' v') :
    Refines (disj u u') (disj v v') := by
  revert h h'
  cases u <;> cases v <;> cases u' <;> cases v' <;> decide

theorem Refines.all {us vs : List Truth} (h : List.Forall₂ Refines us vs) :
    Refines (all us) (all vs) := by
  induction h with
  | nil => exact .refl _
  | cons hv _ ih => exact hv.conj ih

theorem Refines.any {us vs : List Truth} (h : List.Forall₂ Refines us vs) :
    Refines (any us) (any vs) := by
  induction h with
  | nil => exact .refl _
  | cons hv _ ih => exact hv.disj ih

end KleeneLogic
