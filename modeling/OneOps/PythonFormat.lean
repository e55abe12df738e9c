import Mathlib.Tactic.Common
import OneOps.ExceptLoops

/-! Python's `str.format` without positional arguments. A template is scanned into literal
text and replacement fields; a field names a keyword argument, follows attributes and
indices from it, converts the result and formats it under a spec that may itself hold
fields. Objects are a parameter: what an attribute, an index or a spec does to them is
theirs. Scanning and evaluation interleave, so the first problem in the text wins. -/
namespace PythonFormat

open ExceptLoops

inductive Error where
  | keyError | indexError | valueError
  | other (message : String)
  deriving DecidableEq, Repr

/-- The operations of Python objects that a replacement field can reach. -/
structure Objects where
  Obj : Type
  getattr : Obj → String → Except Error Obj
  getindex : Obj → ℕ → Except Error Obj
  getkey : Obj → String → Except Error Obj
  /-- `repr`, `str` or `ascii`, by the conversion letter. -/
  convert : Char → Obj → Except Error Obj
  formatWith : Obj → String → Except Error String
  /-- The value of a Unicode decimal digit. -/
  decimal : Char → Option ℕ

structure Field where
  name : List Char
  conversion : Option Char
  spec : List Char
  /-- The spec holds a brace and is formatted itself. -/
  nested : Bool
  deriving DecidableEq

inductive Piece where
  | text (cs : List Char)
  | field (f : Field)
  | malformed

/-- Where the scanner stands. `text` is the literal read so far, `name` the field name. -/
inductive Mode where
  | literal (text : List Char)
  | opened (text : List Char)
  | closed (text : List Char)
  | name (text name : List Char)
  | index (text name : List Char)
  | bang (text name : List Char)
  | converted (text name : List Char) (c : Char)
  | spec (text name : List Char) (conversion : Option Char) (spec : List Char) (depth : ℕ)
      (nested : Bool)

/-- One character: the next mode, with the pieces it completes; `none` is malformed. -/
def nameStep (text name : List Char) (c : Char) : Option (List Piece × Mode) :=
  if c = '\x7b' then none
  else if c = '[' then some ([], .index text (name ++ [c]))
  else if c = '\x7d' then some ([.text text, .field ⟨name, none, [], false⟩], .literal [])
  else if c = ':' then some ([], .spec text name none [] 0 false)
  else if c = '!' then some ([], .bang text name)
  else some ([], .name text (name ++ [c]))

def step (c : Char) : Mode → Option (List Piece × Mode)
  | .literal text =>
    if c = '\x7b' then some ([], .opened text)
    else if c = '\x7d' then some ([], .closed text)
    else some ([], .literal (text ++ [c]))
  | .opened text => if c = '\x7b' then some ([], .literal (text ++ [c])) else nameStep text [] c
  | .closed text => if c = '\x7d' then some ([], .literal (text ++ [c])) else none
  | .name text name => nameStep text name c
  | .index text name =>
    some ([], if c = ']' then .name text (name ++ [c]) else .index text (name ++ [c]))
  | .bang text name => some ([], .converted text name c)
  | .converted text name conv =>
    if c = '\x7d' then some ([.text text, .field ⟨name, some conv, [], false⟩], .literal [])
    else if c = ':' then some ([], .spec text name (some conv) [] 0 false)
    else none
  | .spec text name conv spec depth nested =>
    if c = '\x7b' then some ([], .spec text name conv (spec ++ [c]) (depth + 1) true)
    else if c = '\x7d' then
      match depth with
      | 0 => some ([.text text, .field ⟨name, conv, spec, nested⟩], .literal [])
      | d + 1 => some ([], .spec text name conv (spec ++ [c]) d nested)
    else some ([], .spec text name conv (spec ++ [c]) depth nested)

def scan : Mode → List Char → List Piece
  | .literal text, [] => [.text text]
  | _, [] => [.malformed]
  | m, c :: cs =>
    match step c m with
    | none => [.malformed]
    | some (done, m') => done ++ scan m' cs

def pieces (text : List Char) : List Piece := scan (.literal []) text

inductive Access where
  | attr (name : List Char)
  | item (name : List Char)
  | malformed

def rootOf (name : List Char) : List Char := name.takeWhile fun c => c ≠ '.' ∧ c ≠ '['

def accessorsOf (name : List Char) : List Char := name.dropWhile fun c => c ≠ '.' ∧ c ≠ '['

inductive AccessMode where
  | start
  | attr (name : List Char)
  | item (name : List Char)

def named (make : List Char → Access) : List Char → List Access → List Access
  | [], _ => [.malformed]
  | name, rest => make name :: rest

def accesses : AccessMode → List Char → List Access
  | .start, [] => []
  | .start, c :: cs =>
    if c = '.' then accesses (.attr []) cs
    else if c = '[' then accesses (.item []) cs
    else [.malformed]
  | .attr name, [] => named .attr name []
  | .attr name, c :: cs =>
    if c = '.' then named .attr name (accesses (.attr []) cs)
    else if c = '[' then named .attr name (accesses (.item []) cs)
    else accesses (.attr (name ++ [c])) cs
  | .item _, [] => [.malformed]
  | .item name, c :: cs =>
    if c = ']' then named .item name (accesses .start cs)
    else accesses (.item (name ++ [c])) cs

section Evaluation

variable (py : Objects)

def ssizeMax : ℕ := 9223372036854775807

/-- `none` when a character is no digit; too large a number raises before that. -/
def getInteger : List Char → ℕ → Except Error (Option ℕ)
  | [], acc => .ok (some acc)
  | c :: cs, acc =>
    match py.decimal c with
    | none => .ok none
    | some d =>
      if acc > (ssizeMax - d) / 10 then .error .valueError
      else getInteger cs (acc * 10 + d)

def getRoot (vars : List (String × py.Obj)) (root : List Char) : Except Error py.Obj :=
  if root = [] then .error .indexError
  else
    match getInteger py root 0 with
    | .error e => .error e
    | .ok (some _) => .error .indexError
    | .ok none =>
      match vars.lookup (String.ofList root) with
      | none => .error .keyError
      | some v => .ok v

def follow (o : py.Obj) : Access → Except Error py.Obj
  | .attr name => py.getattr o (String.ofList name)
  | .item name =>
    match getInteger py name 0 with
    | .error e => .error e
    | .ok (some i) => py.getindex o i
    | .ok none => py.getkey o (String.ofList name)
  | .malformed => .error .valueError

def followAll (o : py.Obj) : List Access → Except Error py.Obj
  | [] => .ok o
  | a :: rest =>
    match follow py o a with
    | .error e => .error e
    | .ok o' => followAll o' rest

def convertBy (o : py.Obj) : Option Char → Except Error py.Obj
  | none => .ok o
  | some c => if c = 'r' ∨ c = 's' ∨ c = 'a' then py.convert c o else .error .valueError

def specOf (expand : List Char → Except Error String) (f : Field) : Except Error String :=
  if f.nested then expand f.spec else .ok (String.ofList f.spec)

def renderField (expand : List Char → Except Error String) (vars : List (String × py.Obj))
    (f : Field) : Except Error String := do
  let root ← getRoot py vars (rootOf f.name)
  let o ← followAll py root (accesses .start (accessorsOf f.name))
  let o ← convertBy py o f.conversion
  let spec ← specOf expand f
  py.formatWith o spec

def render (expand : List Char → Except Error String) (vars : List (String × py.Obj)) :
    List Piece → Except Error String
  | [] => .ok ""
  | .text cs :: ps => do
    let rest ← render expand vars ps
    return String.ofList cs ++ rest
  | .field f :: ps => do
    let x ← renderField py expand vars f
    let rest ← render expand vars ps
    return x ++ rest
  | .malformed :: _ => .error .valueError

def build (vars : List (String × py.Obj)) : ℕ → List Char → Except Error String
  | 0, _ => .error .valueError
  | d + 1, text => render py (build vars d) vars (pieces text)

def strFormat (vars : List (String × py.Obj)) (text : String) : Except Error String :=
  build py vars 2 text.toList

end Evaluation

section Meaning

variable {py : Objects}

def Refers (vars : List (String × py.Obj)) (f : Field) (o : py.Obj) : Prop :=
  ∃ v, getRoot py vars (rootOf f.name) = .ok v ∧
    followAll py v (accesses .start (accessorsOf f.name)) = .ok o

def SpecIs (S : List Char → String → Prop) (f : Field) (spec : String) : Prop :=
  if f.nested then S f.spec spec else spec = String.ofList f.spec

def FieldRenders (S : List Char → String → Prop) (vars : List (String × py.Obj)) (f : Field)
    (out : String) : Prop :=
  ∃ o o' spec, Refers vars f o ∧ convertBy py o f.conversion = .ok o' ∧ SpecIs S f spec ∧
    py.formatWith o' spec = .ok out

/-- The replacement fields in order, between the literal text. -/
inductive Renders (S : List Char → String → Prop) (vars : List (String × py.Obj)) :
    List Piece → String → Prop where
  | nil : Renders S vars [] ""
  | text {cs ps out} (h : Renders S vars ps out) :
      Renders S vars (.text cs :: ps) (String.ofList cs ++ out)
  | field {f ps x out} (hf : FieldRenders S vars f x) (h : Renders S vars ps out) :
      Renders S vars (.field f :: ps) (x ++ out)

def TextRenders (vars : List (String × py.Obj)) : ℕ → List Char → String → Prop
  | 0, _, _ => False
  | d + 1, text, out => Renders (TextRenders vars d) vars (pieces text) out

/-- A field over a keyword argument raises an exception that is neither a lookup nor a
value error. -/
inductive FieldRaises (S R : List Char → String → Prop) (vars : List (String × py.Obj)) (f : Field)
    (message : String) : Prop where
  | access {v} (hv : getRoot py vars (rootOf f.name) = .ok v)
      (h : followAll py v (accesses .start (accessorsOf f.name)) = .error (.other message))
  | convert {o} (ho : Refers vars f o) (h : convertBy py o f.conversion = .error (.other message))
  | spec {o o'} (ho : Refers vars f o) (hc : convertBy py o f.conversion = .ok o')
      (hn : f.nested = true) (h : R f.spec message)
  | format {o o' spec} (ho : Refers vars f o) (hc : convertBy py o f.conversion = .ok o')
      (hs : SpecIs S f spec) (h : py.formatWith o' spec = .error (.other message))

/-- The first field that does not render raises it. -/
inductive Raises (S R : List Char → String → Prop) (vars : List (String × py.Obj)) :
    List Piece → String → Prop where
  | text {cs ps m} (h : Raises S R vars ps m) : Raises S R vars (.text cs :: ps) m
  | here {f ps m} (h : FieldRaises S R vars f m) : Raises S R vars (.field f :: ps) m
  | later {f ps x m} (hf : FieldRenders S vars f x) (h : Raises S R vars ps m) :
      Raises S R vars (.field f :: ps) m

def TextRaises (vars : List (String × py.Obj)) : ℕ → List Char → String → Prop
  | 0, _, _ => False
  | d + 1, text, m => Raises (TextRenders vars d) (TextRaises vars d) vars (pieces text) m

theorem getInteger_ne_other {m : String} :
    ∀ (cs : List Char) (acc : ℕ), getInteger py cs acc ≠ .error (.other m) := by
  intro cs
  induction cs with
  | nil =>
    intro acc h
    cases h
  | cons c cs ih =>
    intro acc h
    unfold getInteger at h
    split at h
    · cases h
    · split_ifs at h
      · cases h
      · exact ih _ h

theorem getRoot_ne_other {vars : List (String × py.Obj)} {root : List Char} {m : String} :
    getRoot py vars root ≠ .error (.other m) := by
  intro h
  unfold getRoot at h
  split_ifs at h
  · cases h
  · split at h
    · rename_i e he
      cases h
      exact getInteger_ne_other root 0 he
    · cases h
    · split at h <;> cases h

theorem lookup_of_getRoot {vars : List (String × py.Obj)} {root : List Char} {v : py.Obj}
    (h : getRoot py vars root = .ok v) : vars.lookup (String.ofList root) = some v := by
  unfold getRoot at h
  split_ifs at h
  split at h
  · cases h
  · cases h
  · split at h
    · cases h
    · rename_i hv
      cases h
      exact hv

variable {expand : List Char → Except Error String} {S R : List Char → String → Prop}
  {vars : List (String × py.Obj)}

theorem specIs_iff (hS : ∀ t out, expand t = .ok out ↔ S t out) (f : Field) (spec : String) :
    specOf expand f = .ok spec ↔ SpecIs S f spec := by
  unfold SpecIs specOf
  split_ifs
  · exact hS f.spec spec
  · rw [Except.ok.injEq]
    exact eq_comm

theorem renderField_ok_iff (hS : ∀ t out, expand t = .ok out ↔ S t out) (f : Field)
    (out : String) : renderField py expand vars f = .ok out ↔ FieldRenders S vars f out := by
  simp only [renderField, bind_eq_ok]
  constructor
  · rintro ⟨v, hv, o, ho, o', hc, spec, hs, h⟩
    exact ⟨o, o', spec, ⟨v, hv, ho⟩, hc, (specIs_iff hS f spec).mp hs, h⟩
  · rintro ⟨o, o', spec, ⟨v, hv, ho⟩, hc, hs, h⟩
    exact ⟨v, hv, o, ho, o', hc, spec, (specIs_iff hS f spec).mpr hs, h⟩

theorem renderField_other_iff (hS : ∀ t out, expand t = .ok out ↔ S t out)
    (hR : ∀ t m, expand t = .error (.other m) ↔ R t m) (f : Field) (m : String) :
    renderField py expand vars f = .error (.other m) ↔ FieldRaises S R vars f m := by
  simp only [renderField, bind_eq_error]
  constructor
  · rintro (he | ⟨v, hv, he | ⟨o, ho, he | ⟨o', hc, he | ⟨spec, hs, h⟩⟩⟩⟩)
    · exact absurd he getRoot_ne_other
    · exact .access hv he
    · exact .convert ⟨v, hv, ho⟩ he
    · unfold specOf at he
      split_ifs at he with hn
      exact .spec ⟨v, hv, ho⟩ hc hn ((hR _ _).mp he)
    · exact .format ⟨v, hv, ho⟩ hc ((specIs_iff hS f spec).mp hs) h
  · intro h
    cases h with
    | access hv h => exact .inr ⟨_, hv, .inl h⟩
    | convert ho h =>
      obtain ⟨v, hv, ho⟩ := ho
      exact .inr ⟨v, hv, .inr ⟨_, ho, .inl h⟩⟩
    | spec ho hc hn h =>
      obtain ⟨v, hv, ho⟩ := ho
      have hs : specOf expand f = .error (.other m) := by
        rw [specOf, if_pos hn]
        exact (hR _ _).mpr h
      exact .inr ⟨v, hv, .inr ⟨_, ho, .inr ⟨_, hc, .inl hs⟩⟩⟩
    | format ho hc hs h =>
      obtain ⟨v, hv, ho⟩ := ho
      exact .inr ⟨v, hv, .inr ⟨_, ho, .inr ⟨_, hc, .inr ⟨_, (specIs_iff hS f _).mpr hs, h⟩⟩⟩⟩

theorem render_ok_iff (hS : ∀ t out, expand t = .ok out ↔ S t out) :
    ∀ (ps : List Piece) (out : String), render py expand vars ps = .ok out ↔
      Renders S vars ps out := by
  intro ps
  induction ps with
  | nil =>
    intro out
    constructor
    · intro h
      cases h
      exact .nil
    · intro h
      cases h
      rfl
  | cons p ps ih =>
    intro out
    cases p with
    | text cs =>
      rw [render, bind_eq_ok]
      constructor
      · rintro ⟨rest, hrest, h⟩
        cases h
        exact .text ((ih rest).mp hrest)
      · intro h
        cases h with
        | text h => exact ⟨_, (ih _).mpr h, rfl⟩
    | field f =>
      simp only [render, bind_eq_ok]
      constructor
      · rintro ⟨x, hx, rest, hrest, h⟩
        cases h
        exact .field ((renderField_ok_iff hS f x).mp hx) ((ih rest).mp hrest)
      · intro h
        cases h with
        | field hf h => exact ⟨_, (renderField_ok_iff hS f _).mpr hf, _, (ih _).mpr h, rfl⟩
    | malformed =>
      constructor
      · intro h
        cases h
      · intro h
        cases h

theorem render_other_iff (hS : ∀ t out, expand t = .ok out ↔ S t out)
    (hR : ∀ t m, expand t = .error (.other m) ↔ R t m) (m : String) :
    ∀ ps : List Piece, render py expand vars ps = .error (.other m) ↔ Raises S R vars ps m := by
  intro ps
  induction ps with
  | nil =>
    constructor
    · intro h
      cases h
    · intro h
      cases h
  | cons p ps ih =>
    cases p with
    | text cs =>
      rw [render, bind_eq_error]
      constructor
      · rintro (he | ⟨rest, _, h⟩)
        · exact .text (ih.mp he)
        · cases h
      · intro h
        cases h with
        | text h => exact .inl (ih.mpr h)
    | field f =>
      simp only [render, bind_eq_error]
      constructor
      · rintro (he | ⟨x, hx, he | ⟨rest, _, h⟩⟩)
        · exact .here ((renderField_other_iff hS hR f m).mp he)
        · exact .later ((renderField_ok_iff hS f x).mp hx) (ih.mp he)
        · cases h
      · intro h
        cases h with
        | here h => exact .inl ((renderField_other_iff hS hR f m).mpr h)
        | later hf h => exact .inr ⟨_, (renderField_ok_iff hS f _).mpr hf, .inl (ih.mpr h)⟩
    | malformed =>
      constructor
      · intro h
        cases h
      · intro h
        cases h

/-- By induction on the depth left for nested specs. -/
theorem build_ok_iff : ∀ (d : ℕ) (text : List Char) (out : String),
    build py vars d text = .ok out ↔ TextRenders vars d text out := by
  intro d
  induction d with
  | zero =>
    intro text out
    constructor
    · intro h
      cases h
    · exact False.elim
  | succ d ih => exact fun text out => render_ok_iff ih (pieces text) out

theorem build_other_iff : ∀ (d : ℕ) (text : List Char) (m : String),
    build py vars d text = .error (.other m) ↔ TextRaises vars d text m := by
  intro d
  induction d with
  | zero =>
    intro text m
    constructor
    · intro h
      cases h
    · exact False.elim
  | succ d ih => exact fun text m => render_other_iff (build_ok_iff d) ih m (pieces text)

/-- Rendered text only has fields that start at a keyword argument. -/
theorem Renders.roots {ps : List Piece} {out : String} (h : Renders S vars ps out) {f : Field}
    (hf : Piece.field f ∈ ps) : ∃ v, vars.lookup (String.ofList (rootOf f.name)) = some v := by
  induction h with
  | nil => cases hf
  | text _ ih =>
    rcases List.mem_cons.mp hf with hf | hf
    · cases hf
    · exact ih hf
  | field hx _ ih =>
    rcases List.mem_cons.mp hf with hf | hf
    · cases hf
      obtain ⟨_, _, _, ⟨v, hv, _⟩, _⟩ := hx
      exact ⟨v, lookup_of_getRoot hv⟩
    · exact ih hf

end Meaning

end PythonFormat
