import OneOps.PythonFormat
import OneOps.FulfillmentPlanning

/-! Substitution of request variables into an input template, with `str.format` spelled
out. The walk visits the template in document order and stops at the first node nested too
deep or the first leaf whose fields raise an exception that the walk does not catch. -/
namespace FulfillmentSubstitution

open PythonFormat (Objects Error TextRenders TextRaises Piece pieces rootOf)
open FulfillmentContracts
open FulfillmentPlanning

section Format

variable (py : Objects) (ofJson : Json → py.Obj)

def keywordArgs (vars : JsonObject) : List (String × py.Obj) :=
  vars.map fun kv => (kv.1, ofJson kv.2)

def formatError : Error → FormatError
  | .keyError => .keyError
  | .indexError => .indexError
  | .valueError => .valueError
  | .other message => .other message

def formatLeaf (s : String) (vars : JsonObject) : Except FormatError String :=
  match PythonFormat.strFormat py (keywordArgs py ofJson vars) s with
  | .ok t => .ok t
  | .error e => .error (formatError e)

mutual

def nesting : Json → ℕ
  | .arr xs => nestingItems xs
  | .obj fields => nestingFields fields
  | _ => 0

def nestingItems : List Json → ℕ
  | [] => 0
  | x :: xs => max (nesting x + 1) (nestingItems xs)

def nestingFields : List (String × Json) → ℕ
  | [] => 0
  | (_, x) :: xs => max (nesting x + 1) (nestingFields xs)

end

mutual

/-- Equal keys, lengths and leaves, up to `L` on string leaves. -/
inductive SameShape (L : String → String → Prop) : Json → Json → Prop where
  | null : SameShape L .null .null
  | bool (b : Bool) : SameShape L (.bool b) (.bool b)
  | num (q : ℚ) : SameShape L (.num q) (.num q)
  | str {s t : String} (h : L s t) : SameShape L (.str s) (.str t)
  | arr {xs ys : List Json} (h : SameItems L xs ys) : SameShape L (.arr xs) (.arr ys)
  | obj {xs ys : List (String × Json)} (h : SameFields L xs ys) : SameShape L (.obj xs) (.obj ys)

inductive SameItems (L : String → String → Prop) : List Json → List Json → Prop where
  | nil : SameItems L [] []
  | cons {x y : Json} {xs ys : List Json} (h : SameShape L x y) (hs : SameItems L xs ys) :
      SameItems L (x :: xs) (y :: ys)

inductive SameFields (L : String → String → Prop) :
    List (String × Json) → List (String × Json) → Prop where
  | nil : SameFields L [] []
  | cons {k : String} {x y : Json} {xs ys : List (String × Json)} (h : SameShape L x y)
      (hs : SameFields L xs ys) : SameFields L ((k, x) :: xs) ((k, y) :: ys)

end

/-- The placeholders of the leaf are replaced, and each starts at a safe-named variable. -/
def Replaced (vars : JsonObject) (s t : String) : Prop :=
  TextRenders (keywordArgs py ofJson (sanitiseVariables vars)) 2 s.toList t ∧
    ∀ f, Piece.field f ∈ pieces s.toList →
      safeVarKey (String.ofList (rootOf f.name)) = true ∧
        ∃ v, (String.ofList (rootOf f.name), v) ∈ vars

def LeafOk (vars : JsonObject) (s t : String) : Prop := t = s ∨ Replaced py ofJson vars s t

def LeafRaises (vars : JsonObject) (s message : String) : Prop :=
  TextRaises (keywordArgs py ofJson (sanitiseVariables vars)) 2 s.toList message

inductive Visit where
  | leaf (s : String)
  | tooDeep

mutual

/-- The string leaves and the nodes beyond the depth bound, in document order. -/
def visits (depth : ℕ) (v : Json) : List Visit :=
  if maxTemplateDepth < depth then [.tooDeep]
  else
    match v with
    | .str s => [.leaf s]
    | .obj fields => visitsFields (depth + 1) fields
    | .arr xs => visitsItems (depth + 1) xs
    | _ => []

def visitsItems (depth : ℕ) : List Json → List Visit
  | [] => []
  | x :: xs => visits depth x ++ visitsItems depth xs

def visitsFields (depth : ℕ) : List (String × Json) → List Visit
  | [] => []
  | (_, x) :: xs => visits depth x ++ visitsFields depth xs

end

def tooDeepError : FulfillmentError :=
  ⟨.invalidTemplate, "catalog template nested beyond max depth 16"⟩

def visitError (vars : JsonObject) : Visit → Option FulfillmentError
  | .tooDeep => some tooDeepError
  | .leaf s =>
    match formatLeaf py ofJson s (sanitiseVariables vars) with
    | .error (.other message) => some ⟨.other, message⟩
    | _ => none

def trouble (vars : JsonObject) (vs : List Visit) : Option FulfillmentError :=
  vs.findSome? (visitError py ofJson vars)

/-- No leaf raises before the first node that is nested too deep. -/
def Shielded (vars : JsonObject) (vs : List Visit) : Prop :=
  ∀ before s after, vs = before ++ .leaf s :: after → (∃ m, LeafRaises py ofJson vars s m) →
    .tooDeep ∈ before

end Format

section Leaves

variable {py : Objects} {ofJson : Json → py.Obj} {vars : JsonObject}

theorem lookup_keywordArgs {k : String} {o : py.Obj} :
    ∀ {vs : JsonObject}, (keywordArgs py ofJson vs).lookup k = some o →
      ∃ v, (k, v) ∈ vs := by
  intro vs
  induction vs with
  | nil =>
    intro h
    cases h
  | cons kv vs ih =>
    intro h
    simp only [keywordArgs, List.map_cons, List.lookup_cons] at h
    split at h
    · rename_i hk
      rw [beq_iff_eq] at hk
      exact ⟨kv.2, by simp [hk]⟩
    · obtain ⟨v, hv⟩ := ih h
      exact ⟨v, List.mem_cons_of_mem _ hv⟩

theorem formatLeaf_ok {s t : String}
    (h : formatLeaf py ofJson s (sanitiseVariables vars) = .ok t) :
    Replaced py ofJson vars s t := by
  unfold formatLeaf at h
  split at h
  · rename_i t' ht
    cases h
    have hr := (PythonFormat.build_ok_iff 2 s.toList t).mp ht
    refine ⟨hr, fun f hf => ?_⟩
    obtain ⟨o, ho⟩ := PythonFormat.Renders.roots hr hf
    obtain ⟨v, hv⟩ := lookup_keywordArgs ho
    rw [sanitiseVariables, List.mem_filter] at hv
    exact ⟨hv.2, v, hv.1⟩
  · cases h

theorem formatLeaf_other_iff {s m : String} :
    formatLeaf py ofJson s (sanitiseVariables vars) = .error (.other m) ↔
      LeafRaises py ofJson vars s m := by
  rw [LeafRaises, ← PythonFormat.build_other_iff]
  unfold formatLeaf PythonFormat.strFormat
  split
  · rename_i t ht
    simp [ht]
  · rename_i e he
    rw [he]
    cases e <;> simp [formatError]

theorem visitError_leaf {s : String} {e : FulfillmentError} :
    visitError py ofJson vars (.leaf s) = some e ↔
      ∃ m, LeafRaises py ofJson vars s m ∧ e = ⟨.other, m⟩ := by
  simp only [← formatLeaf_other_iff, visitError]
  split
  · rename_i m hm
    simp [hm, eq_comm]
  · rename_i hne
    constructor
    · intro h
      cases h
    · rintro ⟨m, hm, _⟩
      exact absurd hm (hne m)

end Leaves

section Walk

variable {py : Objects} {ofJson : Json → py.Obj} {vars : JsonObject}

theorem trouble_append (vs ws : List Visit) : trouble py ofJson vars (vs ++ ws) =
    (trouble py ofJson vars vs).or (trouble py ofJson vars ws) :=
  List.findSome?_append

/-- The result of a part of the walk: the first trouble, or a value of the same shape. -/
def Walked {α : Type} (py : Objects) (ofJson : Json → py.Obj) (vars : JsonObject)
    (vs : List Visit) (same : α → Prop) (r : Except FulfillmentError α) : Prop :=
  (∀ e, trouble py ofJson vars vs = some e → r = .error e) ∧
    (trouble py ofJson vars vs = none → ∃ out, r = .ok out ∧ same out)

theorem walked_ok {α : Type} {same : α → Prop} {out : α} (h : same out) :
    Walked py ofJson vars [] same (.ok out) := by
  constructor
  · intro e he
    cases he
  · intro _
    exact ⟨out, rfl, h⟩

theorem walked_leaf (s : String) :
    Walked py ofJson vars [.leaf s] (SameShape (LeafOk py ofJson vars) (.str s))
      (match formatLeaf py ofJson s (sanitiseVariables vars) with
        | .ok t => .ok (.str t)
        | .error (.other message) => .error ⟨.other, message⟩
        | .error _ => .ok (.str s)) := by
  have hkeep : SameShape (LeafOk py ofJson vars) (.str s) (.str s) := .str (.inl rfl)
  simp only [Walked, trouble, List.findSome?_cons, List.findSome?_nil, visitError]
  cases hf : formatLeaf py ofJson s (sanitiseVariables vars) with
  | ok t => exact ⟨by simp, fun _ => ⟨_, rfl, .str (.inr (formatLeaf_ok hf))⟩⟩
  | error e =>
    cases e with
    | other m => simp
    | keyError => exact ⟨by simp, fun _ => ⟨_, rfl, hkeep⟩⟩
    | indexError => exact ⟨by simp, fun _ => ⟨_, rfl, hkeep⟩⟩
    | valueError => exact ⟨by simp, fun _ => ⟨_, rfl, hkeep⟩⟩

theorem Walked.map {α β : Type} {vs : List Visit} {same : α → Prop} {same' : β → Prop}
    {r : Except FulfillmentError α} {f : α → β}
    (h : Walked py ofJson vars vs same r) (hf : ∀ a, same a → same' (f a)) :
    Walked py ofJson vars vs same' (r.map f) := by
  constructor
  · intro e he
    rw [h.1 e he]
    rfl
  · intro hn
    obtain ⟨out, hr, hs⟩ := h.2 hn
    exact ⟨f out, by rw [hr]; rfl, hf out hs⟩

/-- The head is walked first; its trouble is the trouble of the whole. -/
theorem Walked.cons {α β γ : Type} {vs ws : List Visit} {same : α → Prop} {same' : β → Prop}
    {same'' : γ → Prop} {r : Except FulfillmentError α} {r' : Except FulfillmentError β}
    {f : α → β → γ} (h : Walked py ofJson vars vs same r)
    (h' : Walked py ofJson vars ws same' r')
    (hf : ∀ a b, same a → same' b → same'' (f a b)) :
    Walked py ofJson vars (vs ++ ws) same''
      (do let a ← r; let b ← r'; return f a b) := by
  simp only [Walked, trouble_append, bind, Except.bind, pure, Except.pure]
  cases ht : trouble py ofJson vars vs with
  | some e =>
    simp only [Option.some_or, Option.some.injEq, reduceCtorEq, false_implies, and_true]
    rintro e' rfl
    rw [h.1 _ ht]
  | none =>
    obtain ⟨a, rfl, ha⟩ := h.2 ht
    simp only [Option.none_or]
    constructor
    · intro e he
      rw [h'.1 e he]
    · intro hn
      obtain ⟨b, rfl, hb⟩ := h'.2 hn
      exact ⟨f a b, rfl, hf a b ha hb⟩

mutual

theorem walk_walked (depth : ℕ) (v : Json) :
    Walked py ofJson vars (visits depth v)
      (SameShape (LeafOk py ofJson vars) v)
      (walk (formatLeaf py ofJson) (sanitiseVariables vars) depth v) := by
  unfold walk visits
  split_ifs with hd
  · exact ⟨fun e he => congrArg Except.error (Option.some.inj he), fun h => by cases h⟩
  · cases v with
    | str s => exact walked_leaf s
    | obj fields => exact (walkFields_walked (depth + 1) fields).map fun _ h => .obj h
    | arr xs => exact (walkItems_walked (depth + 1) xs).map fun _ h => .arr h
    | null => exact walked_ok .null
    | bool b => exact walked_ok (.bool b)
    | num q => exact walked_ok (.num q)

theorem walkItems_walked (depth : ℕ) (xs : List Json) :
    Walked py ofJson vars (visitsItems depth xs)
      (SameItems (LeafOk py ofJson vars) xs)
      (walkItems (formatLeaf py ofJson) (sanitiseVariables vars) depth xs) := by
  cases xs with
  | nil => exact walked_ok .nil
  | cons x xs =>
    exact (walk_walked depth x).cons (walkItems_walked depth xs) fun _ _ h hs => .cons h hs

theorem walkFields_walked (depth : ℕ) (xs : List (String × Json)) :
    Walked py ofJson vars (visitsFields depth xs)
      (SameFields (LeafOk py ofJson vars) xs)
      (walkFields (formatLeaf py ofJson) (sanitiseVariables vars) depth xs) := by
  cases xs with
  | nil => exact walked_ok .nil
  | cons kx xs =>
    obtain ⟨k, x⟩ := kx
    exact (walk_walked depth x).cons (walkFields_walked depth xs) fun _ _ h hs => .cons h hs

end

mutual

theorem tooDeep_mem_visits {depth : ℕ} (v : Json) :
    Visit.tooDeep ∈ visits depth v ↔ maxTemplateDepth < depth + nesting v := by
  unfold visits
  split_ifs with hd
  · simp only [List.mem_singleton, true_iff]
    omega
  · cases v with
    | obj fields => simpa [nesting] using tooDeep_mem_visitsFields (Nat.le_of_not_lt hd) fields
    | arr xs => simpa [nesting] using tooDeep_mem_visitsItems (Nat.le_of_not_lt hd) xs
    | null => simpa [nesting] using hd
    | bool b => simpa [nesting] using hd
    | num q => simpa [nesting] using hd
    | str s => simpa [nesting] using hd

theorem tooDeep_mem_visitsItems {depth : ℕ} (hd : depth ≤ maxTemplateDepth) (xs : List Json) :
    Visit.tooDeep ∈ visitsItems (depth + 1) xs ↔ maxTemplateDepth < depth + nestingItems xs := by
  cases xs with
  | nil =>
    simp only [visitsItems, List.not_mem_nil, nestingItems, false_iff]
    omega
  | cons x xs =>
    simp only [visitsItems, List.mem_append, nestingItems, tooDeep_mem_visits x,
      tooDeep_mem_visitsItems hd xs]
    omega

theorem tooDeep_mem_visitsFields {depth : ℕ} (hd : depth ≤ maxTemplateDepth)
    (xs : List (String × Json)) :
    Visit.tooDeep ∈ visitsFields (depth + 1) xs ↔ maxTemplateDepth < depth + nestingFields xs := by
  cases xs with
  | nil =>
    simp only [visitsFields, List.not_mem_nil, nestingFields, false_iff]
    omega
  | cons kx xs =>
    simp only [visitsFields, List.mem_append, nestingFields, tooDeep_mem_visits kx.2,
      tooDeep_mem_visitsFields hd xs]
    omega

end

/-- The first trouble is a foreign exception unless every raising leaf is shielded. -/
theorem shielded_iff : ∀ vs : List Visit, Shielded py ofJson vars vs ↔
    ∀ e, trouble py ofJson vars vs = some e → e = tooDeepError ∧ .tooDeep ∈ vs := by
  intro vs
  induction vs with
  | nil =>
    constructor
    · intro _ e he
      cases he
    · intro _ before s after h
      simp at h
  | cons v vs ih =>
    cases v with
    | tooDeep =>
      constructor
      · intro _ e he
        exact ⟨(Option.some.inj he).symm, List.mem_cons_self⟩
      · intro _ before s after h _
        cases before with
        | nil => cases h
        | cons b bs =>
          cases h
          exact List.mem_cons_self
    | leaf s =>
      constructor
      · intro h e he
        have hquiet : visitError py ofJson vars (.leaf s) = none := by
          cases hv : visitError py ofJson vars (.leaf s) with
          | none => rfl
          | some e' =>
            obtain ⟨m, hm, _⟩ := visitError_leaf.mp hv
            cases h [] s vs rfl ⟨m, hm⟩
        have hrest : Shielded py ofJson vars vs := by
          intro before s' after heq hr
          have := h (.leaf s :: before) s' after (by rw [heq]; rfl) hr
          simpa using this
        rw [trouble, List.findSome?_cons, hquiet] at he
        obtain ⟨hte, hmem⟩ := ih.mp hrest e he
        exact ⟨hte, List.mem_cons_of_mem _ hmem⟩
      · intro h before s' after heq hr
        obtain ⟨m, hm⟩ := hr
        cases before with
        | nil =>
          cases heq
          have he := visitError_leaf.mpr ⟨m, hm, rfl⟩
          have := (h ⟨.other, m⟩ (by rw [trouble, List.findSome?_cons, he])).1
          cases this
        | cons b bs =>
          cases heq
          refine List.mem_cons_of_mem _ (ih.mpr ?_ bs s' after rfl ⟨m, hm⟩)
          intro e he
          cases hv : visitError py ofJson vars (.leaf s) with
          | none =>
            have := h e (by rw [trouble, List.findSome?_cons, hv]; exact he)
            simpa using this
          | some e' =>
            have hfirst := (h e' (by rw [trouble, List.findSome?_cons, hv])).1
            obtain ⟨m', _, rfl⟩ := visitError_leaf.mp hv
            cases hfirst

end Walk

/-- Substitution refuses templates nested beyond the bound and keeps the shape of all
others. -/
def Total (py : Objects) (ofJson : Json → py.Obj) (template vars : JsonObject)
    (r : Except FulfillmentError JsonObject) : Prop :=
  (maxTemplateDepth < nestingFields template ∧ r = .error tooDeepError) ∨
    ∃ out, r = .ok out ∧ SameFields (LeafOk py ofJson vars) template out

/-- For every template and every variables: substitution is total and keeps the shape
exactly when, before the first node nested too deep, no replacement field raises anything
but a lookup or value error. -/
theorem substitution_total_iff (py : Objects) (ofJson : Json → py.Obj)
    (template vars : JsonObject) :
    Total py ofJson template vars
        (substituteInputTemplate (formatLeaf py ofJson) template vars) ↔
      Shielded py ofJson vars (visitsFields 1 template) := by
  have hw : Walked py ofJson vars (visitsFields 1 template)
      (SameFields (LeafOk py ofJson vars) template)
      (walkFields (formatLeaf py ofJson) (sanitiseVariables vars) 1 template) :=
    walkFields_walked 1 template
  have hr : substituteInputTemplate (formatLeaf py ofJson) template vars =
      walkFields (formatLeaf py ofJson) (sanitiseVariables vars) 1 template := by
    unfold substituteInputTemplate
    cases template <;> rfl
  have hdeep := tooDeep_mem_visitsFields (Nat.zero_le maxTemplateDepth) template
  rw [Nat.zero_add, Nat.zero_add] at hdeep
  rw [hr, shielded_iff]
  constructor
  · rintro (⟨hn, he⟩ | ⟨out, hok, _⟩) e hte
    · have := hw.1 e hte
      rw [he, Except.error.injEq] at this
      exact ⟨this.symm, hdeep.mpr hn⟩
    · rw [hw.1 e hte] at hok
      cases hok
  · intro h
    cases ht : trouble py ofJson vars (visitsFields 1 template) with
    | some e =>
      obtain ⟨rfl, hmem⟩ := h e ht
      exact .inl ⟨hdeep.mp hmem, hw.1 _ ht⟩
    | none => exact .inr (hw.2 ht)

def textObjects : Objects where
  Obj := String
  getattr _ name := .error (.other ("'str' object has no attribute '" ++ name ++ "'"))
  getindex s i :=
    match s.toList[i]? with
    | some c => .ok (String.singleton c)
    | none => .error .indexError
  getkey _ _ := .error (.other "string indices must be integers, not 'str'")
  convert c s := .ok (if c = 's' then s else "'" ++ s ++ "'")
  formatWith s spec := if spec = "" then .ok s else .error .valueError
  decimal c := if c.isDigit then some (c.toNat - 48) else none

def textOf : Json → textObjects.Obj
  | .str s => s
  | _ => ("" : String)

def firstNameTemplate : JsonObject := [("name", .str "\x7bemployee.first\x7d")]

def employeeVars : JsonObject := [("employee", .str "Ann")]

theorem attribute_access_escapes :
    substituteInputTemplate (formatLeaf textObjects textOf) firstNameTemplate employeeVars =
      .error ⟨.other, "'str' object has no attribute 'first'"⟩ ∧
    ¬ Total textObjects textOf firstNameTemplate employeeVars
      (substituteInputTemplate (formatLeaf textObjects textOf) firstNameTemplate employeeVars) := by
  have he : substituteInputTemplate (formatLeaf textObjects textOf) firstNameTemplate
      employeeVars = .error ⟨.other, "'str' object has no attribute 'first'"⟩ := by rfl
  refine ⟨he, ?_⟩
  rw [he]
  rintro (⟨_, h⟩ | ⟨out, h, _⟩)
  · cases h
  · cases h

end FulfillmentSubstitution
