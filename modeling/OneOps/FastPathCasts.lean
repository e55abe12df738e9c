import OneOps.PythonNumbers
import Mathlib.Data.List.Sort

/-! The casts of the fast path: a JSON value is cast to the declared type of its field and
written into the plan as text, which the same cast reads back as the same value. Numbers that
are too large raise errors that the casts do not translate. -/
namespace FastPathCasts

open PythonNumbers
open PythonText (strip)

/-- JSON values, as Python has them. -/
inductive Value (F : Type) where
  | null
  | bool (b : Bool)
  | int (n : ℤ)
  | float (x : F)
  | str (s : String)
  | list (xs : List (Value F))
  | dict (items : List (String × Value F))

/-- What `int` does with a float. -/
inductive Trunc where
  | nan
  | infinite
  | whole (n : ℤ)
  deriving DecidableEq

/-- Floats and text, as Python treats them. A float is read back as it was written, and its
whole part is not long. -/
structure Python (F : Type) extends PythonText.Lowering where
  decimals : Decimals
  quoted : String → String
  zero : F
  one : F
  isZero : F → Bool
  trunc : F → Trunc
  trunc_short : ∀ x n, trunc x = .whole n → ¬Long n
  ofInt : ℤ → Option F
  ofStr : String → Option F
  reprFloat : F → String
  ofStr_repr : ∀ x, ofStr (reprFloat x) = some x

variable {F : Type}

inductive Raised where
  | fastPath (message : String)
  | typeError
  | valueError
  | overflowError
  deriving DecidableEq

def typeName : Value F → String
  | .null => "NoneType"
  | .bool _ => "bool"
  | .int _ => "int"
  | .float _ => "float"
  | .str _ => "str"
  | .list _ => "list"
  | .dict _ => "dict"

def truthy (P : Python F) : Value F → Bool
  | .null => false
  | .bool b => b
  | .int n => n ≠ 0
  | .float x => !P.isZero x
  | .str s => s ≠ ""
  | .list xs => !xs.isEmpty
  | .dict items => !items.isEmpty

section Texts

variable (P : Python F)

mutual

/-- `repr`, with `none` where it raises a `ValueError`. -/
def repr : Value F → Option String
  | .null => some "None"
  | .bool b => some (if b then "True" else "False")
  | .int n => strInt n
  | .float x => some (P.reprFloat x)
  | .str s => some (P.quoted s)
  | .list xs => (reprAll xs).map fun ts => "[" ++ ", ".intercalate ts ++ "]"
  | .dict items => (reprItems items).map fun ts => "\x7b" ++ ", ".intercalate ts ++ "\x7d"

def reprAll : List (Value F) → Option (List String)
  | [] => some []
  | v :: vs => (repr v).bind fun t => (reprAll vs).map fun ts => t :: ts

def reprItems : List (String × Value F) → Option (List String)
  | [] => some []
  | (k, v) :: items =>
    (repr v).bind fun t => (reprItems items).map fun ts => (P.quoted k ++ ": " ++ t) :: ts

end

def str : Value F → Option String
  | .str s => some s
  | v => repr P v

/-- `sorted(names)` in a message. -/
def quotedList (names : List String) : String :=
  "[" ++ ", ".intercalate ((names.insertionSort (· ≤ ·)).map P.quoted) ++ "]"

end Texts

structure FastPathInputField where
  name : String
  type : String
  required : Bool
  autoDeriveFrom : Option String
  deriving DecidableEq

section Casts

variable (P : Python F)

def castInt : Value F → Except Raised (Value F)
  | .bool b => .ok (.int (if b then 1 else 0))
  | .int n => .ok (.int n)
  | .float x =>
    match P.trunc x with
    | .nan => .error .valueError
    | .infinite => .error .overflowError
    | .whole n => .ok (.int n)
  | .str s =>
    match intOf P.decimals s with
    | none => .error .valueError
    | some n => .ok (.int n)
  | _ => .error .typeError

def castFloat : Value F → Except Raised (Value F)
  | .bool b => .ok (.float (if b then P.one else P.zero))
  | .int n =>
    match P.ofInt n with
    | none => .error .overflowError
    | some x => .ok (.float x)
  | .float x => .ok (.float x)
  | .str s =>
    match P.ofStr s with
    | none => .error .valueError
    | some x => .ok (.float x)
  | _ => .error .typeError

def notNumeric (field : FastPathInputField) (expected : String) (v : Value F) : Raised :=
  .fastPath ("field " ++ P.quoted field.name ++ " expects a" ++
    (if expected = "int" then "n" else "") ++ " " ++ expected ++ ", got " ++ typeName v)

def coerceNumeric (field : FastPathInputField) (cast : Value F → Except Raised (Value F))
    (expected : String) (v : Value F) : Except Raised (Value F) :=
  match cast v with
  | .error .typeError => .error (notNumeric P field expected v)
  | .error .valueError => .error (notNumeric P field expected v)
  | result => result

def boolOf (s : String) : Option Bool :=
  let v := P.lower (strip s)
  if v ∈ ["true", "1", "yes"] then some true
  else if v ∈ ["false", "0", "no"] then some false
  else none

def notBool (field : FastPathInputField) (v : Value F) : Raised :=
  match repr P v with
  | none => .valueError
  | some text => .fastPath ("field " ++ P.quoted field.name ++ " expects a bool, got " ++ text)

def coerceBool (field : FastPathInputField) : Value F → Except Raised (Value F)
  | .bool b => .ok (.bool b)
  | .str s =>
    match boolOf P s with
    | some b => .ok (.bool b)
    | none => .error (notBool P field (.str s))
  | v => .error (notBool P field v)

def coerceStr (v : Value F) : Except Raised (Value F) :=
  match str P v with
  | none => .error .valueError
  | some s => .ok (.str s)

def coerce (field : FastPathInputField) (v : Value F) : Except Raised (Value F) :=
  match v with
  | .null => .ok .null
  | v =>
    if field.type = "str" then coerceStr P v
    else if field.type = "int" then coerceNumeric P field (castInt P) "int" v
    else if field.type = "float" then coerceNumeric P field (castFloat P) "float" v
    else if field.type = "bool" then coerceBool P field v
    else .error (.fastPath ("field " ++ P.quoted field.name ++ " declares unsupported type " ++
      P.quoted field.type ++ "; supported: str|int|bool|float"))

mutual

def HoldsLong : Value F → Prop
  | .int n => Long n
  | .list xs => AnyLong xs
  | .dict items => ItemLong items
  | _ => False

def AnyLong : List (Value F) → Prop
  | [] => False
  | v :: vs => HoldsLong v ∨ AnyLong vs

def ItemLong : List (String × Value F) → Prop
  | [] => False
  | (_, v) :: items => HoldsLong v ∨ ItemLong items

end

/-- An infinity for an integer, an integer beyond the floats for a float, and a long integer
in what is written out. -/
def Overflows (type : String) (v : Value F) : Prop :=
  (type = "int" ∧ ∃ x, v = .float x ∧ P.trunc x = .infinite) ∨
    (type = "float" ∧ ∃ n, v = .int n ∧ P.ofInt n = none) ∨
    ((type = "str" ∨ type = "bool") ∧ HoldsLong v)

def Readable (type : String) (v : Value F) : Prop :=
  (type = "str" ∧ ¬HoldsLong v) ∨
    (type = "int" ∧ ((∃ b, v = .bool b) ∨ (∃ n, v = .int n) ∨
      (∃ x n, v = .float x ∧ P.trunc x = .whole n) ∨
      ∃ s n, v = .str s ∧ intOf P.decimals s = some n)) ∨
    (type = "float" ∧ ((∃ b, v = .bool b) ∨ (∃ n x, v = .int n ∧ P.ofInt n = some x) ∨
      (∃ x, v = .float x) ∨ ∃ s x, v = .str s ∧ P.ofStr s = some x)) ∨
    (type = "bool" ∧ ((∃ b, v = .bool b) ∨ ∃ s b, v = .str s ∧ boolOf P s = some b))

def HasType (type : String) (v : Value F) : Prop :=
  (type = "str" ∧ ∃ s, v = .str s) ∨ (type = "int" ∧ ∃ n, v = .int n) ∨
    (type = "float" ∧ ∃ x, v = .float x) ∨ (type = "bool" ∧ ∃ b, v = .bool b)

variable {P}

mutual

theorem repr_eq_none : ∀ v : Value F, repr P v = none ↔ HoldsLong v
  | .null => by simp [repr, HoldsLong]
  | .bool b => by simp [repr, HoldsLong]
  | .int n => by simp [repr, HoldsLong, strInt]
  | .float x => by simp [repr, HoldsLong]
  | .str s => by simp [repr, HoldsLong]
  | .list xs => by
    rw [repr, Option.map_eq_none_iff, HoldsLong]
    exact reprAll_eq_none xs
  | .dict items => by
    rw [repr, Option.map_eq_none_iff, HoldsLong]
    exact reprItems_eq_none items

theorem reprAll_eq_none : ∀ vs : List (Value F), reprAll P vs = none ↔ AnyLong vs
  | [] => by simp [reprAll, AnyLong]
  | v :: vs => by
    rw [reprAll, AnyLong, ← repr_eq_none v, ← reprAll_eq_none vs]
    cases repr P v <;> simp

theorem reprItems_eq_none : ∀ items : List (String × Value F),
    reprItems P items = none ↔ ItemLong items
  | [] => by simp [reprItems, ItemLong]
  | (k, v) :: items => by
    rw [reprItems, ItemLong, ← repr_eq_none v, ← reprItems_eq_none items]
    cases repr P v <;> simp

end

theorem str_eq_none {v : Value F} : str P v = none ↔ HoldsLong v := by
  cases v with
  | str s => simp [str, HoldsLong]
  | _ => exact repr_eq_none _

theorem HoldsLong.truthy {v : Value F} (h : HoldsLong v) : truthy P v = true := by
  cases v with
  | int n =>
    have hn : n ≠ 0 := by
      rintro rfl
      rw [HoldsLong] at h
      exact absurd h (by decide +kernel)
    simpa [FastPathCasts.truthy] using hn
  | list xs =>
    cases xs with
    | nil => simp [HoldsLong, AnyLong] at h
    | cons x xs => rfl
  | dict items =>
    cases items with
    | nil => simp [HoldsLong, ItemLong] at h
    | cons x items => rfl
  | _ => simp [HoldsLong] at h

def Escapes {α : Type} (r : Except Raised α) : Prop := ∃ e, r = .error e ∧ ∀ m, e ≠ .fastPath m

@[simp] theorem not_escapes_ok {α : Type} (a : α) : ¬Escapes (.ok a) := by
  rintro ⟨e, he, -⟩
  cases he

@[simp] theorem not_escapes_fastPath {α : Type} (m : String) :
    ¬Escapes (.error (.fastPath m) : Except Raised α) := by
  rintro ⟨e, he, hne⟩
  cases he
  exact hne m rfl

@[simp] theorem escapes_valueError {α : Type} : Escapes (.error .valueError : Except Raised α) :=
  ⟨_, rfl, fun m h => by cases h⟩

@[simp] theorem escapes_overflowError {α : Type} :
    Escapes (.error .overflowError : Except Raised α) := ⟨_, rfl, fun m h => by cases h⟩

theorem escapes_bind {α β : Type} {r : Except Raised α} {f : α → Except Raised β} :
    Escapes (r >>= f) ↔ Escapes r ∨ ∃ a, r = .ok a ∧ Escapes (f a) := by
  cases r with
  | error e => simp [Escapes, bind, Except.bind]
  | ok a => simp [Escapes, bind, Except.bind]

theorem escapes_map {α β : Type} {r : Except Raised α} {f : α → β} :
    Escapes (r.map f) ↔ Escapes r := by
  cases r with
  | error e => simp [Escapes, Except.map]
  | ok a => simp [Escapes, Except.map]

theorem errors_iff {α : Type} {r : Except Raised α} :
    (∀ e, r = .error e → ∃ m, e = .fastPath m) ↔ ¬Escapes r := by
  constructor
  · rintro h ⟨e, he, hne⟩
    obtain ⟨m, hm⟩ := h e he
    exact hne m hm
  · intro h e he
    by_contra hno
    exact h ⟨e, he, fun m hm => hno ⟨m, hm⟩⟩

theorem castInt_overflow {v : Value F} :
    castInt P v = .error .overflowError ↔ ∃ x, v = .float x ∧ P.trunc x = .infinite := by
  cases v with
  | float x => cases hx : P.trunc x <;> simp [castInt, hx]
  | str s => cases hs : intOf P.decimals s <;> simp [castInt, hs]
  | _ => simp [castInt]

theorem castFloat_overflow {v : Value F} :
    castFloat P v = .error .overflowError ↔ ∃ n, v = .int n ∧ P.ofInt n = none := by
  cases v with
  | int n => cases hn : P.ofInt n <;> simp [castFloat, hn]
  | str s => cases hs : P.ofStr s <;> simp [castFloat, hs]
  | _ => simp [castFloat]

theorem castInt_ok {v : Value F} : (∃ w, castInt P v = .ok w) ↔
    (∃ b, v = .bool b) ∨ (∃ n, v = .int n) ∨ (∃ x n, v = .float x ∧ P.trunc x = .whole n) ∨
      ∃ s n, v = .str s ∧ intOf P.decimals s = some n := by
  cases v with
  | float x => cases hx : P.trunc x <;> simp [castInt, hx]
  | str s => cases hs : intOf P.decimals s <;> simp [castInt, hs]
  | _ => simp [castInt]

theorem castFloat_ok {v : Value F} : (∃ w, castFloat P v = .ok w) ↔
    (∃ b, v = .bool b) ∨ (∃ n x, v = .int n ∧ P.ofInt n = some x) ∨ (∃ x, v = .float x) ∨
      ∃ s x, v = .str s ∧ P.ofStr s = some x := by
  cases v with
  | int n => cases hn : P.ofInt n <;> simp [castFloat, hn]
  | str s => cases hs : P.ofStr s <;> simp [castFloat, hs]
  | _ => simp [castFloat]

theorem coerceNumeric_escapes {field : FastPathInputField}
    {cast : Value F → Except Raised (Value F)} {expected : String} {v : Value F} :
    Escapes (coerceNumeric P field cast expected v) ↔ cast v = .error .overflowError := by
  unfold coerceNumeric
  cases hc : cast v with
  | ok w => simp
  | error e => cases e <;> simp [notNumeric]

theorem coerceNumeric_ok {field : FastPathInputField}
    {cast : Value F → Except Raised (Value F)} {expected : String} {v w : Value F} :
    coerceNumeric P field cast expected v = .ok w ↔ cast v = .ok w := by
  unfold coerceNumeric
  cases hc : cast v with
  | ok w => simp
  | error e => cases e <;> simp [notNumeric]

theorem notBool_escapes {field : FastPathInputField} {v : Value F} :
    Escapes (.error (notBool P field v) : Except Raised (Value F)) ↔ HoldsLong v := by
  rw [notBool, ← repr_eq_none (P := P)]
  cases repr P v <;> simp

theorem coerceBool_escapes {field : FastPathInputField} {v : Value F} :
    Escapes (coerceBool P field v) ↔ HoldsLong v := by
  cases v with
  | bool b => simp [coerceBool, HoldsLong]
  | str s =>
    cases hs : boolOf P s with
    | some b => simp [coerceBool, hs, HoldsLong]
    | none =>
      rw [coerceBool, hs]
      exact notBool_escapes
  | _ => exact notBool_escapes

theorem coerceBool_ok {field : FastPathInputField} {v : Value F} :
    (∃ w, coerceBool P field v = .ok w) ↔
      (∃ b, v = .bool b) ∨ ∃ s b, v = .str s ∧ boolOf P s = some b := by
  cases v with
  | str s => cases hs : boolOf P s <;> simp [coerceBool, hs]
  | _ => simp [coerceBool]

theorem coerceStr_escapes {v : Value F} : Escapes (coerceStr P v) ↔ HoldsLong v := by
  rw [coerceStr, ← str_eq_none (P := P)]
  cases str P v <;> simp

theorem coerceStr_ok {v : Value F} : (∃ w, coerceStr P v = .ok w) ↔ ¬HoldsLong v := by
  rw [coerceStr, ← str_eq_none (P := P)]
  cases str P v <;> simp

theorem coerce_of_ne_null {field : FastPathInputField} {v : Value F} (hv : v ≠ .null) :
    coerce P field v =
      if field.type = "str" then coerceStr P v
      else if field.type = "int" then coerceNumeric P field (castInt P) "int" v
      else if field.type = "float" then coerceNumeric P field (castFloat P) "float" v
      else if field.type = "bool" then coerceBool P field v
      else .error (.fastPath ("field " ++ P.quoted field.name ++ " declares unsupported type " ++
        P.quoted field.type ++ "; supported: str|int|bool|float")) := by
  cases v with
  | null => exact absurd rfl hv
  | _ => rfl

theorem coerce_escapes {field : FastPathInputField} {v : Value F} (hv : v ≠ .null) :
    Escapes (coerce P field v) ↔ Overflows P field.type v := by
  rw [coerce_of_ne_null hv, Overflows]
  by_cases hs : field.type = "str"
  · simp [hs, coerceStr_escapes]
  · by_cases hi : field.type = "int"
    · simp [hi, coerceNumeric_escapes, castInt_overflow]
    · by_cases hf : field.type = "float"
      · simp [hf, coerceNumeric_escapes, castFloat_overflow]
      · by_cases hb : field.type = "bool"
        · simp [hb, coerceBool_escapes]
        · simp [hs, hi, hf, hb]

theorem coerce_ok {field : FastPathInputField} {v : Value F} (hv : v ≠ .null) :
    (∃ w, coerce P field v = .ok w) ↔ Readable P field.type v := by
  rw [coerce_of_ne_null hv, Readable]
  by_cases hs : field.type = "str"
  · simp [hs, coerceStr_ok]
  · by_cases hi : field.type = "int"
    · simp [hi, coerceNumeric_ok, castInt_ok]
    · by_cases hf : field.type = "float"
      · simp [hf, coerceNumeric_ok, castFloat_ok]
      · by_cases hb : field.type = "bool"
        · simp [hb, coerceBool_ok]
        · simp [hs, hi, hf, hb]

theorem castInt_int {v w : Value F} (h : castInt P v = .ok w) :
    ∃ n, w = .int n ∧ (Long n → v = .int n) := by
  cases v with
  | bool b =>
    cases h
    refine ⟨_, rfl, ?_⟩
    intro hl
    cases b <;> exact absurd hl (by decide +kernel)
  | int n =>
    cases h
    exact ⟨n, rfl, fun _ => rfl⟩
  | float x =>
    cases hx : P.trunc x with
    | whole n =>
      simp only [castInt, hx, Except.ok.injEq] at h
      exact ⟨n, h.symm, fun hl => absurd hl (P.trunc_short x n hx)⟩
    | _ => simp [castInt, hx] at h
  | str s =>
    cases hs : intOf P.decimals s with
    | none => simp [castInt, hs] at h
    | some n =>
      simp only [castInt, hs, Except.ok.injEq] at h
      exact ⟨n, h.symm, fun hl => absurd hl (intOf_short hs)⟩
  | _ => simp [castInt] at h

theorem castFloat_float {v w : Value F} (h : castFloat P v = .ok w) : ∃ x, w = .float x := by
  cases v with
  | bool b =>
    cases h
    exact ⟨_, rfl⟩
  | int n =>
    cases hn : P.ofInt n with
    | none => simp [castFloat, hn] at h
    | some x =>
      simp only [castFloat, hn, Except.ok.injEq] at h
      exact ⟨x, h.symm⟩
  | float x =>
    cases h
    exact ⟨x, rfl⟩
  | str s =>
    cases hs : P.ofStr s with
    | none => simp [castFloat, hs] at h
    | some x =>
      simp only [castFloat, hs, Except.ok.injEq] at h
      exact ⟨x, h.symm⟩
  | _ => simp [castFloat] at h

theorem coerceBool_bool {field : FastPathInputField} {v w : Value F}
    (h : coerceBool P field v = .ok w) : ∃ b, w = .bool b := by
  cases v with
  | bool b =>
    cases h
    exact ⟨b, rfl⟩
  | str s =>
    cases hs : boolOf P s with
    | none => simp [coerceBool, hs] at h
    | some b =>
      simp only [coerceBool, hs, Except.ok.injEq] at h
      exact ⟨b, h.symm⟩
  | _ => simp [coerceBool] at h

theorem coerceStr_str {v w : Value F} (h : coerceStr P v = .ok w) : ∃ s, w = .str s := by
  unfold coerceStr at h
  cases hs : str P v with
  | none => simp [hs] at h
  | some s =>
    simp only [hs, Except.ok.injEq] at h
    exact ⟨s, h.symm⟩

theorem boolOf_text (b : Bool) : boolOf P (if b then "True" else "False") = some b := by
  have htrue : P.lower "True" = "true" := P.lower_ascii "True" (by simp)
  have hfalse : P.lower "False" = "false" := P.lower_ascii "False" (by simp)
  have hst : strip "True" = "True" := by decide +kernel
  have hsf : strip "False" = "False" := by decide +kernel
  cases b with
  | true => simp [boolOf, hst, htrue]
  | false => simp [boolOf, hsf, hfalse]

/-- A cast value has the declared type and is read back from its text. It has none only if it
is a long integer, which was given as it is. -/
theorem coerce_faithful {field : FastPathInputField} {v w : Value F} (hv : v ≠ .null)
    (h : coerce P field v = .ok w) :
    HasType field.type w ∧ (∀ t, str P w = some t → coerce P field (.str t) = .ok w) ∧
      (HoldsLong w → field.type = "int" ∧ v = w) := by
  have hread : ∀ t, (Value.str t : Value F) ≠ .null := fun t ht => by cases ht
  rw [coerce_of_ne_null hv] at h
  by_cases hs : field.type = "str"
  · rw [if_pos hs] at h
    obtain ⟨s, rfl⟩ := coerceStr_str h
    refine ⟨.inl ⟨hs, s, rfl⟩, ?_, fun hl => by simp [HoldsLong] at hl⟩
    intro t ht
    cases ht
    rw [coerce_of_ne_null (hread s), if_pos hs]
    rfl
  · rw [if_neg hs] at h
    by_cases hi : field.type = "int"
    · rw [if_pos hi, coerceNumeric_ok] at h
      obtain ⟨n, rfl, hlong⟩ := castInt_int h
      refine ⟨.inr (.inl ⟨hi, n, rfl⟩), ?_, fun hl => ⟨hi, hlong hl⟩⟩
      intro t ht
      have hshort : ¬Long n := fun hl => by simp [str, repr, strInt, hl] at ht
      have ht : toString n = t := by simpa [str, repr, strInt, hshort] using ht
      rw [coerce_of_ne_null (hread t), if_neg hs, if_pos hi, coerceNumeric_ok, ← ht]
      simp only [castInt, intOf_toString hshort]
    · rw [if_neg hi] at h
      by_cases hf : field.type = "float"
      · rw [if_pos hf, coerceNumeric_ok] at h
        obtain ⟨x, rfl⟩ := castFloat_float h
        refine ⟨.inr (.inr (.inl ⟨hf, x, rfl⟩)), ?_, fun hl => by simp [HoldsLong] at hl⟩
        intro t ht
        have ht : P.reprFloat x = t := by simpa [str, repr] using ht
        rw [coerce_of_ne_null (hread t), if_neg hs, if_neg hi, if_pos hf, coerceNumeric_ok, ← ht]
        simp only [castFloat, P.ofStr_repr]
      · rw [if_neg hf] at h
        by_cases hb : field.type = "bool"
        · rw [if_pos hb] at h
          obtain ⟨b, rfl⟩ := coerceBool_bool h
          refine ⟨.inr (.inr (.inr ⟨hb, b, rfl⟩)), ?_, fun hl => by simp [HoldsLong] at hl⟩
          intro t ht
          have ht : (if b then "True" else "False") = t := by simpa [str, repr] using ht
          rw [coerce_of_ne_null (hread t), if_neg hs, if_neg hi, if_neg hf, if_pos hb, ← ht]
          simp only [coerceBool, boolOf_text]
        · rw [if_neg hb] at h
          cases h

end Casts

end FastPathCasts
