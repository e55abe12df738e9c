import Mathlib.Algebra.Order.Group.Nat
import OneOps.RowMerge

/-! Python values, the JSON documents that `json.dumps` makes of them and the values
that `json.loads` reads back. A float stands by its `repr`, which determines it. The
round trip is the identity on plain values only: a tuple comes back as a list, a key
comes back as a string, and other objects are refused. -/
namespace PythonJson

open RowMerge

inductive Key where
  | str (s : String)
  | int (n : ℤ)
  | float (repr : String)
  | bool (b : Bool)
  | null
  /-- A hashable object of another type, with its `str`. -/
  | other (text : String)
  deriving DecidableEq, Repr

inductive Value where
  | null
  | bool (b : Bool)
  | int (n : ℤ)
  | float (repr : String)
  | str (s : String)
  | list (xs : List Value)
  | tuple (xs : List Value)
  | dict (items : List (Key × Value))
  /-- An object of any other type, with its `str`. -/
  | object (text : String)

inductive Doc where
  | null
  | bool (b : Bool)
  | int (n : ℤ)
  | float (repr : String)
  | str (s : String)
  | arr (xs : List Doc)
  | obj (members : List (String × Doc))

def Key.name : Key → Option String
  | .str s => some s
  | .int n => some (toString n)
  | .float repr => some repr
  | .bool b => some (if b then "true" else "false")
  | .null => some "null"
  | .other _ => none

mutual

/-- The document of a value, or `none` where the encoder raises. With `default=str` an
object of an unknown type is written as its `str`; keys get no such treatment. -/
def dumps (defaultStr : Bool) : Value → Option Doc
  | .null => some .null
  | .bool b => some (.bool b)
  | .int n => some (.int n)
  | .float repr => some (.float repr)
  | .str s => some (.str s)
  | .list xs => (dumpsAll defaultStr xs).map .arr
  | .tuple xs => (dumpsAll defaultStr xs).map .arr
  | .dict items => (dumpsItems defaultStr items).map .obj
  | .object text => if defaultStr then some (.str text) else none

def dumpsAll (defaultStr : Bool) : List Value → Option (List Doc)
  | [] => some []
  | x :: xs => do
    let d ← dumps defaultStr x
    let ds ← dumpsAll defaultStr xs
    some (d :: ds)

def dumpsItems (defaultStr : Bool) : List (Key × Value) → Option (List (String × Doc))
  | [] => some []
  | (k, x) :: items => do
    let name ← k.name
    let d ← dumps defaultStr x
    let ds ← dumpsItems defaultStr items
    some ((name, d) :: ds)

end

mutual

/-- Of two members of one name the last one wins. -/
def loads : Doc → Value
  | .null => .null
  | .bool b => .bool b
  | .int n => .int n
  | .float repr => .float repr
  | .str s => .str s
  | .arr xs => .list (loadsAll xs)
  | .obj members => .dict ((loadsMembers members).foldl (upsert Prod.fst) [])

def loadsAll : List Doc → List Value
  | [] => []
  | d :: ds => loads d :: loadsAll ds

def loadsMembers : List (String × Doc) → List (Key × Value)
  | [] => []
  | (name, d) :: members => (.str name, loads d) :: loadsMembers members

end

def hexDigits (n : ℕ) : List Char :=
  [n / 4096 % 16, n / 256 % 16, n / 16 % 16, n % 16].map Nat.digitChar

/-- A character within a string of the default, all-ASCII output. -/
def escape (c : Char) : List Char :=
  if c = '"' then ['\\', '"']
  else if c = '\\' then ['\\', '\\']
  else if c = '\n' then ['\\', 'n']
  else if c = '\r' then ['\\', 'r']
  else if c = '\t' then ['\\', 't']
  else if c = '\x0c' then ['\\', 'f']
  else if c = '\x08' then ['\\', 'b']
  else if ' ' ≤ c ∧ c ≤ '~' then [c]
  else if c.toNat < 0x10000 then '\\' :: 'u' :: hexDigits c.toNat
  else
    let n := c.toNat - 0x10000
    '\\' :: 'u' :: hexDigits (0xd800 + n / 0x400) ++ '\\' :: 'u' :: hexDigits (0xdc00 + n % 0x400)

def quoted (s : String) : List Char := '"' :: s.toList.flatMap escape ++ ['"']

mutual

def Doc.text : Doc → List Char
  | .null => "null".toList
  | .bool b => (if b then "true" else "false").toList
  | .int n => (toString n).toList
  | .float repr => repr.toList
  | .str s => quoted s
  | .arr xs => '[' :: textAll xs ++ [']']
  | .obj members => '\x7b' :: textMembers members ++ ['\x7d']

def textAll : List Doc → List Char
  | [] => []
  | [d] => d.text
  | d :: ds => d.text ++ ", ".toList ++ textAll ds

def textMembers : List (String × Doc) → List Char
  | [] => []
  | [(name, d)] => quoted name ++ ": ".toList ++ d.text
  | (name, d) :: members =>
    quoted name ++ ": ".toList ++ d.text ++ ", ".toList ++ textMembers members

end

mutual

/-- A value made of what JSON has: no tuple, no foreign object, and string keys, which
are distinct as in every dict. -/
def Plain : Value → Prop
  | .list xs => PlainAll xs
  | .dict items => PlainItems items ∧ (items.map Prod.fst).Nodup
  | .tuple _ => False
  | .object _ => False
  | _ => True

def PlainAll : List Value → Prop
  | [] => True
  | x :: xs => Plain x ∧ PlainAll xs

def PlainItems : List (Key × Value) → Prop
  | [] => True
  | (k, x) :: items => (∃ s, k = .str s) ∧ Plain x ∧ PlainItems items

end

theorem plainItems_iff {items : List (Key × Value)} :
    PlainItems items ↔ ∀ e ∈ items, (∃ s, e.1 = .str s) ∧ Plain e.2 := by
  induction items with
  | nil => simp [PlainItems]
  | cons e items ih =>
    obtain ⟨k, x⟩ := e
    simp [PlainItems, ih, and_assoc]

/-- Folding members into a dict keeps them plain and makes their keys distinct. -/
theorem plain_fold {members dict : List (Key × Value)} (hm : PlainItems members)
    (hd : Plain (.dict dict)) : Plain (.dict (members.foldl (upsert Prod.fst) dict)) := by
  induction members generalizing dict with
  | nil => exact hd
  | cons e members ih =>
    rw [plainItems_iff, List.forall_mem_cons] at hm
    apply ih (plainItems_iff.mpr hm.2)
    rw [Plain, plainItems_iff] at hd ⊢
    refine ⟨?_, upsert_nodup hd.2⟩
    intro x hx
    rcases mem_upsert.mp hx with rfl | ⟨hx, _⟩
    · exact hm.1
    · exact hd.1 x hx

mutual

theorem plain_loads : ∀ d : Doc, Plain (loads d)
  | .null | .bool _ | .int _ | .float _ | .str _ => by simp [loads, Plain]
  | .arr xs => by
    rw [loads, Plain]
    exact plain_loadsAll xs
  | .obj members => by
    rw [loads]
    exact plain_fold (plain_loadsMembers members) (by simp [Plain, PlainItems])

theorem plain_loadsAll : ∀ ds : List Doc, PlainAll (loadsAll ds)
  | [] => by simp [loadsAll, PlainAll]
  | d :: ds => by
    rw [loadsAll, PlainAll]
    exact ⟨plain_loads d, plain_loadsAll ds⟩

theorem plain_loadsMembers : ∀ members : List (String × Doc), PlainItems (loadsMembers members)
  | [] => by simp [loadsMembers, PlainItems]
  | (name, d) :: members => by
    rw [loadsMembers, PlainItems]
    exact ⟨⟨name, rfl⟩, plain_loads d, plain_loadsMembers members⟩

end

mutual

theorem loads_of_plain (defaultStr : Bool) :
    ∀ v : Value, Plain v → ∃ d, dumps defaultStr v = some d ∧ loads d = v
  | .null, _ | .bool _, _ | .int _, _ | .float _, _ | .str _, _ => by simp [dumps, loads]
  | .tuple _, h | .object _, h => by
    rw [Plain] at h
    exact h.elim
  | .list xs, h => by
    rw [Plain] at h
    obtain ⟨ds, hd, hl⟩ := loadsAll_of_plain defaultStr xs h
    exact ⟨.arr ds, by simp [dumps, hd], by rw [loads, hl]⟩
  | .dict items, h => by
    rw [Plain] at h
    obtain ⟨ds, hd, hl⟩ := loadsMembers_of_plain defaultStr items h.1
    refine ⟨.obj ds, by simp [dumps, hd], ?_⟩
    rw [loads, hl, foldl_fresh upsert_new h.2, List.nil_append]

theorem loadsAll_of_plain (defaultStr : Bool) :
    ∀ xs : List Value, PlainAll xs → ∃ ds, dumpsAll defaultStr xs = some ds ∧ loadsAll ds = xs
  | [], _ => ⟨[], by simp [dumpsAll], by simp [loadsAll]⟩
  | x :: xs, h => by
    rw [PlainAll] at h
    obtain ⟨d, hd, hx⟩ := loads_of_plain defaultStr x h.1
    obtain ⟨ds, hds, hxs⟩ := loadsAll_of_plain defaultStr xs h.2
    exact ⟨d :: ds, by simp [dumpsAll, hd, hds], by rw [loadsAll, hx, hxs]⟩

theorem loadsMembers_of_plain (defaultStr : Bool) :
    ∀ items : List (Key × Value), PlainItems items →
      ∃ ds, dumpsItems defaultStr items = some ds ∧ loadsMembers ds = items
  | [], _ => ⟨[], by simp [dumpsItems], by simp [loadsMembers]⟩
  | (k, x) :: items, h => by
    rw [PlainItems] at h
    obtain ⟨⟨s, rfl⟩, hx, hitems⟩ := h
    obtain ⟨d, hd, hx⟩ := loads_of_plain defaultStr x hx
    obtain ⟨ds, hds, hitems⟩ := loadsMembers_of_plain defaultStr items hitems
    exact ⟨(s, d) :: ds, by simp [dumpsItems, Key.name, hd, hds], by rw [loadsMembers, hx, hitems]⟩

end

/-- The plain values are exactly those that survive the round trip. -/
theorem roundTrip_iff {v : Value} :
    (∃ d, dumps false v = some d ∧ loads d = v) ↔ Plain v := by
  constructor
  · rintro ⟨d, _, rfl⟩
    exact plain_loads d
  · exact loads_of_plain false v

end PythonJson
