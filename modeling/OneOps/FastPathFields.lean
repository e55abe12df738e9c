import OneOps.ExceptLoops
import OneOps.EntityIds
import OneOps.FastPathCasts
import OneOps.ListSplit
import OneOps.RowMerge

/-! The fields that an agent declares for its fast path, read one after the other: each takes
the value that the caller gives, or one that is derived from the ticket id. -/
namespace FastPathFields

open FastPathCasts
open PythonText (strip)
open RowMerge (upsert)
open EntityIds (EntityIdNormalizer)

variable {F : Type}

section Fields

variable (P : Python F)

variable (normalizer : EntityIdNormalizer)

def deriveServiceIdFromTicket (source : Value F) : Except Raised (Option String) :=
  if truthy P source then
    match str P source with
    | none => .error .valueError
    | some token => .ok ((normalizer.normalize token).entity.map fun e => e.serviceId)
  else .ok none

def deriveField (target sourceField : String) (source : Value F) :
    Except Raised (Option String) :=
  if (target, sourceField) = ("service_id", "ticket_id") then
    deriveServiceIdFromTicket P normalizer source
  else
    .error (.fastPath ("no derivation rule for (" ++ P.quoted target ++ " ⇐ " ++
      P.quoted sourceField ++ "); either remove auto_derive_from from the registry or register " ++
      "a derivation in fast_path._DERIVATIONS"))

abbrev Inputs (F : Type) := List (String × Value F)

def input (inputs : Inputs F) (name : String) : Value F :=
  ((inputs.find? fun e => e.1 = name).map Prod.snd).getD .null

/-- `None` and blank text mean that nothing is supplied. -/
def supplied : Value F → Bool
  | .null => false
  | .str s => strip s ≠ ""
  | _ => true

inductive Outcome (F : Type) where
  | set (v : Value F)
  | missing
  | skip

def unsupplied (field : FastPathInputField) : Outcome F :=
  if field.required then .missing else .skip

def resolveFieldValue (inputs : Inputs F) (field : FastPathInputField) :
    Except Raised (Outcome F) :=
  if supplied (input inputs field.name) then
    (coerce P field (input inputs field.name)).map .set
  else
    match field.autoDeriveFrom.filter (· ≠ "") with
    | none => .ok (unsupplied field)
    | some sourceField => do
      let derived ← deriveField P normalizer field.name sourceField (input inputs sourceField)
      match derived with
      | none => pure (unsupplied field)
      | some s => (coerce P field (.str s)).map .set

abbrev Parameters (F : Type) := List (String × Value F)

/-- The loop of `_coerce_inputs` over the fields, with the names of the missing ones. -/
def readFields (inputs : Inputs F) : List FastPathInputField → Parameters F × List String →
    Except Raised (Parameters F × List String)
  | [], read => .ok read
  | field :: fields, (params, missing) => do
    match ← resolveFieldValue P normalizer inputs field with
    | .set v => readFields inputs fields (upsert Prod.fst params (field.name, v), missing)
    | .missing => readFields inputs fields (params, missing ++ [field.name])
    | .skip => readFields inputs fields (params, missing)

def Derives (field : FastPathInputField) : Prop :=
  field.name = "service_id" ∧ field.autoDeriveFrom = some "ticket_id"

def ServiceOf (source : Value F) (service : String) : Prop :=
  truthy P source = true ∧ ∃ token e, str P source = some token ∧
    (normalizer.normalize token).entity = some e ∧ e.serviceId = service

def Takes (inputs : Inputs F) (field : FastPathInputField) (v : Value F) : Prop :=
  (supplied (input inputs field.name) = true ∧ v = input inputs field.name) ∨
    (supplied (input inputs field.name) = false ∧ Derives field ∧
      ∃ s, ServiceOf P normalizer (input inputs "ticket_id") s ∧ v = .str s)

def FieldOverflows (inputs : Inputs F) (field : FastPathInputField) : Prop :=
  Overflows P field.type (input inputs field.name) ∨
    (supplied (input inputs field.name) = false ∧ Derives field ∧
      HoldsLong (input inputs "ticket_id"))

/-- What the field takes is readable, and if it takes nothing there is nothing to derive it
from or the derivation finds nothing. -/
def Passes (inputs : Inputs F) (field : FastPathInputField) : Prop :=
  (∀ v, Takes P normalizer inputs field v → Readable P field.type v) ∧
    (supplied (input inputs field.name) = false →
      field.autoDeriveFrom = none ∨ field.autoDeriveFrom = some "" ∨
        (Derives field ∧ ¬HoldsLong (input inputs "ticket_id")))

def Misses (inputs : Inputs F) (field : FastPathInputField) : Prop :=
  field.required = true ∧ ∀ v, ¬Takes P normalizer inputs field v

variable {P normalizer}

theorem supplied_of_long {v : Value F} (h : HoldsLong v) : supplied v = true := by
  cases v with
  | null => simp [HoldsLong] at h
  | str s => simp [HoldsLong] at h
  | _ => rfl

theorem ne_null_of_supplied {v : Value F} (h : supplied v = true) : v ≠ .null := by
  rintro rfl
  cases h

theorem Takes.ne_null {inputs : Inputs F} {field : FastPathInputField} {v : Value F}
    (h : Takes P normalizer inputs field v) : v ≠ .null := by
  rcases h with ⟨hs, rfl⟩ | ⟨-, -, s, -, rfl⟩
  · exact ne_null_of_supplied hs
  · exact fun hn => by cases hn

theorem deriveServiceId_long {source : Value F} (h : HoldsLong source) :
    deriveServiceIdFromTicket P normalizer source = .error .valueError := by
  rw [deriveServiceIdFromTicket, if_pos h.truthy, str_eq_none.mpr h]

theorem deriveServiceId_short {source : Value F} (h : ¬HoldsLong source) :
    ∃ d, deriveServiceIdFromTicket P normalizer source = .ok d ∧
      ∀ s, ServiceOf P normalizer source s ↔ d = some s := by
  unfold deriveServiceIdFromTicket ServiceOf
  by_cases ht : FastPathCasts.truthy P source
  · cases hs : str P source with
    | none => exact absurd (str_eq_none.mp hs) h
    | some token =>
      refine ⟨_, by rw [if_pos ht], ?_⟩
      intro s
      simp [ht, Option.map_eq_some_iff]
  · refine ⟨none, by rw [if_neg ht], ?_⟩
    intro s
    simp [ht]

/-- What becomes of a field. -/
theorem resolve_cases (inputs : Inputs F) (field : FastPathInputField) :
    (supplied (input inputs field.name) = true ∧ resolveFieldValue P normalizer inputs field =
        (coerce P field (input inputs field.name)).map .set) ∨
    (supplied (input inputs field.name) = false ∧
      (((field.autoDeriveFrom = none ∨ field.autoDeriveFrom = some "") ∧
          resolveFieldValue P normalizer inputs field = .ok (unsupplied field)) ∨
        (¬(field.autoDeriveFrom = none ∨ field.autoDeriveFrom = some "") ∧ ¬Derives field ∧
          ∃ m, resolveFieldValue P normalizer inputs field = .error (.fastPath m)) ∨
        (Derives field ∧ HoldsLong (input inputs "ticket_id") ∧
          resolveFieldValue P normalizer inputs field = .error .valueError) ∨
        (Derives field ∧ ¬HoldsLong (input inputs "ticket_id") ∧
          (∀ s, ¬ServiceOf P normalizer (input inputs "ticket_id") s) ∧
          resolveFieldValue P normalizer inputs field = .ok (unsupplied field)) ∨
        (Derives field ∧ ¬HoldsLong (input inputs "ticket_id") ∧
          ∃ s, (∀ s', ServiceOf P normalizer (input inputs "ticket_id") s' ↔ s' = s) ∧
            resolveFieldValue P normalizer inputs field =
              (coerce P field (.str s)).map .set))) := by
  unfold resolveFieldValue
  cases hsup : supplied (input inputs field.name) with
  | true => exact .inl ⟨rfl, if_pos rfl⟩
  | false =>
    refine .inr ⟨rfl, ?_⟩
    simp only [Bool.false_eq_true, if_false]
    cases hd : field.autoDeriveFrom with
    | none => exact .inl ⟨.inl rfl, rfl⟩
    | some source =>
      by_cases hempty : source = ""
      · subst hempty
        exact .inl ⟨.inr rfl, rfl⟩
      have hfilter : (some source).filter (fun s => decide (s ≠ "")) = some source := by
        simp [hempty]
      have hsource : ¬((some source : Option String) = none ∨ some source = some "") := by
        simp [hempty]
      rw [hfilter]
      dsimp only
      by_cases hpair : (field.name, source) = ("service_id", "ticket_id")
      · obtain ⟨hname, rfl⟩ := Prod.mk.inj hpair
        have hderives : Derives field := ⟨hname, hd⟩
        rw [deriveField, if_pos hpair]
        by_cases hl : HoldsLong (input inputs "ticket_id")
        · rw [deriveServiceId_long hl]
          exact .inr (.inr (.inl ⟨hderives, hl, rfl⟩))
        · obtain ⟨d, heq, hd⟩ := @deriveServiceId_short F P normalizer _ hl
          rw [heq]
          cases d with
          | none =>
            refine .inr (.inr (.inr (.inl ⟨hderives, hl, ?_, rfl⟩)))
            exact fun s hs => by cases (hd s).mp hs
          | some s =>
            refine .inr (.inr (.inr (.inr ⟨hderives, hl, s, ?_, rfl⟩)))
            intro s'
            rw [hd, Option.some.injEq, eq_comm]
      · have hnot : ¬Derives field := by
          rintro ⟨hname, hsrc⟩
          rw [hd] at hsrc
          exact hpair (by rw [hname, Option.some.inj hsrc])
        rw [deriveField, if_neg hpair]
        exact .inr (.inl ⟨hsource, hnot, _, rfl⟩)

theorem not_overflows_str {type s : String} : ¬Overflows P type (.str s) := by
  simp [Overflows, HoldsLong]

theorem supplied_of_overflows {type : String} {v : Value F} (h : Overflows P type v) :
    supplied v = true := by
  rcases h with ⟨-, x, rfl, -⟩ | ⟨-, n, rfl, -⟩ | ⟨-, h⟩
  · rfl
  · rfl
  · exact supplied_of_long h

theorem takes_supplied {inputs : Inputs F} {field : FastPathInputField}
    (h : supplied (input inputs field.name) = true) {v : Value F} :
    Takes P normalizer inputs field v ↔ v = input inputs field.name := by
  simp [Takes, h]

theorem takes_unsupplied {inputs : Inputs F} {field : FastPathInputField}
    (h : supplied (input inputs field.name) = false) {v : Value F} :
    Takes P normalizer inputs field v ↔
      Derives field ∧ ∃ s, ServiceOf P normalizer (input inputs "ticket_id") s ∧ v = .str s := by
  simp [Takes, h]

theorem not_derives {field : FastPathInputField}
    (h : field.autoDeriveFrom = none ∨ field.autoDeriveFrom = some "") : ¬Derives field := by
  rintro ⟨-, hd⟩
  rcases h with h | h <;> simp [hd] at h

theorem unsupplied_ne_set {field : FastPathInputField} {w : Value F} :
    (unsupplied field : Outcome F) ≠ .set w := by
  unfold unsupplied
  split <;> exact fun h => by cases h

theorem unsupplied_eq_missing {field : FastPathInputField} :
    (unsupplied field : Outcome F) = .missing ↔ field.required = true := by
  unfold unsupplied
  cases field.required <;> simp

theorem resolve_escapes {inputs : Inputs F} {field : FastPathInputField} :
    Escapes (resolveFieldValue P normalizer inputs field) ↔ FieldOverflows P inputs field := by
  unfold FieldOverflows
  rcases @resolve_cases F P normalizer inputs field with
    ⟨hs, heq⟩ | ⟨hs, hcase⟩
  · rw [heq, escapes_map, coerce_escapes (ne_null_of_supplied hs)]
    simp [hs]
  · have hno : ¬Overflows P field.type (input inputs field.name) := by
      intro h
      rw [supplied_of_overflows h] at hs
      cases hs
    rcases hcase with ⟨hn, heq⟩ | ⟨-, hn, m, heq⟩ | ⟨hd, hl, heq⟩ | ⟨-, hl, -, heq⟩ |
      ⟨-, hl, s, -, heq⟩
    · simp [heq, hno, not_derives hn]
    · simp [heq, hno, hn]
    · simp [heq, hs, hd, hl]
    · simp [heq, hno, hl]
    · have hstr : (Value.str s : Value F) ≠ .null := fun h => by cases h
      rw [heq, escapes_map, coerce_escapes hstr]
      simp [hno, hl, not_overflows_str]

theorem map_isOk {α β : Type} {r : Except Raised α} {f : α → β} :
    (∃ b, r.map f = .ok b) ↔ ∃ a, r = .ok a := by
  cases r <;> simp [Except.map]

theorem resolve_ok {inputs : Inputs F} {field : FastPathInputField} :
    (∃ o, resolveFieldValue P normalizer inputs field = .ok o) ↔
      Passes P normalizer inputs field := by
  unfold Passes
  rcases @resolve_cases F P normalizer inputs field with
    ⟨hs, heq⟩ | ⟨hs, hcase⟩
  · rw [heq, map_isOk, coerce_ok (ne_null_of_supplied hs)]
    simp [takes_supplied hs, hs]
  · simp only [takes_unsupplied hs]
    rcases hcase with ⟨hn, heq⟩ | ⟨hn, hd, m, heq⟩ | ⟨hd, hl, heq⟩ | ⟨hd, hl, hno, heq⟩ |
      ⟨hd, hl, s, hs', heq⟩
    · have := not_derives hn
      rcases hn with hn | hn <;> simp [heq, hn, this]
    · rw [not_or] at hn
      simp [heq, hn, hd, hs]
    · have hne : ¬(field.autoDeriveFrom = none ∨ field.autoDeriveFrom = some "") :=
        fun h => not_derives h hd
      rw [not_or] at hne
      simp [heq, hne, hl, hs]
    · simp [heq, hno, hd, hl]
    · have hstr : (Value.str s : Value F) ≠ .null := fun h => by cases h
      rw [heq, map_isOk, coerce_ok hstr]
      simp [hs', hd, hl]

/-- A value that is set is one that the field takes, cast. -/
theorem resolve_set {inputs : Inputs F} {field : FastPathInputField} {w : Value F} :
    resolveFieldValue P normalizer inputs field = .ok (.set w) ↔
      Passes P normalizer inputs field ∧
        ∃ v, Takes P normalizer inputs field v ∧ coerce P field v = .ok w := by
  rw [← resolve_ok]
  have hmap : ∀ r : Except Raised (Value F), r.map Outcome.set = .ok (.set w) ↔ r = .ok w := by
    intro r
    cases r <;> simp [Except.map]
  rcases @resolve_cases F P normalizer inputs field with
    ⟨hs, heq⟩ | ⟨hs, hcase⟩
  · rw [heq, hmap]
    simp only [map_isOk, takes_supplied hs, exists_eq_left]
    exact ⟨fun h => ⟨⟨w, h⟩, h⟩, fun h => h.2⟩
  · simp only [takes_unsupplied hs]
    rcases hcase with ⟨hn, heq⟩ | ⟨-, -, m, heq⟩ | ⟨-, -, heq⟩ | ⟨-, -, hno, heq⟩ |
      ⟨hd, -, s, hs', heq⟩
    · simp [heq, unsupplied_ne_set, not_derives hn]
    · simp [heq]
    · simp [heq]
    · simp [heq, unsupplied_ne_set, hno]
    · rw [heq, hmap]
      simp only [map_isOk, hs', hd, true_and, exists_eq_left]
      exact ⟨fun h => ⟨⟨w, h⟩, h⟩, fun h => h.2⟩

theorem resolve_missing {inputs : Inputs F} {field : FastPathInputField} :
    resolveFieldValue P normalizer inputs field = .ok .missing ↔
      Passes P normalizer inputs field ∧ Misses P normalizer inputs field := by
  rw [← resolve_ok]
  unfold Misses
  have hmap : ∀ r : Except Raised (Value F), r.map Outcome.set ≠ .ok .missing := by
    intro r h
    cases r <;> cases h
  rcases @resolve_cases F P normalizer inputs field with
    ⟨hs, heq⟩ | ⟨hs, hcase⟩
  · simp [heq, hmap, takes_supplied hs]
  · simp only [takes_unsupplied hs]
    rcases hcase with ⟨hn, heq⟩ | ⟨-, -, m, heq⟩ | ⟨-, -, heq⟩ | ⟨-, -, hno, heq⟩ |
      ⟨hd, -, s, hs', heq⟩
    · simp [heq, unsupplied_eq_missing, not_derives hn]
    · simp [heq]
    · simp [heq]
    · simp [heq, unsupplied_eq_missing, hno]
    · simp [heq, hmap, hs', hd]

def readField (read : Parameters F × List String) (field : FastPathInputField) :
    Outcome F → Parameters F × List String
  | .set v => (upsert Prod.fst read.1 (field.name, v), read.2)
  | .missing => (read.1, read.2 ++ [field.name])
  | .skip => read

theorem readFields_cons (inputs : Inputs F) (field : FastPathInputField)
    (fields : List FastPathInputField) (read : Parameters F × List String) :
    readFields P normalizer inputs (field :: fields) read =
      resolveFieldValue P normalizer inputs field >>= fun o =>
        readFields P normalizer inputs fields (readField read field o) := by
  rw [readFields]
  congr 1
  funext o
  cases o <;> rfl

/-- The loop is left by an overflow where no field before was refused. -/
theorem readFields_escapes {inputs : Inputs F} {fields : List FastPathInputField}
    {read : Parameters F × List String} :
    Escapes (readFields P normalizer inputs fields read) ↔
      ∃ before field later, fields = before ++ field :: later ∧
        (∀ g ∈ before, Passes P normalizer inputs g) ∧ FieldOverflows P inputs field := by
  induction fields generalizing read with
  | nil => simp [readFields]
  | cons field fields ih =>
    rw [readFields_cons, escapes_bind, resolve_escapes, ListSplit.exists_split_cons, ← resolve_ok]
    simp only [ih, exists_and_right]

theorem mem_readField {field : FastPathInputField} {read : Parameters F × List String}
    (hnew : field.name ∉ read.1.map Prod.fst) {o : Outcome F} {p : String × Value F} :
    p ∈ (readField read field o).1 ↔ p ∈ read.1 ∨ (field.name = p.1 ∧ o = .set p.2) := by
  cases o with
  | set v =>
    have hfresh : upsert Prod.fst read.1 (field.name, v) = read.1 ++ [(field.name, v)] :=
      RowMerge.upsert_new hnew
    simp only [readField, hfresh, List.mem_append, List.mem_singleton, Outcome.set.injEq]
    refine or_congr_right ⟨?_, ?_⟩
    · rintro rfl
      exact ⟨rfl, rfl⟩
    · rintro ⟨hk, hv⟩
      exact Prod.ext hk.symm hv.symm
  | missing => simp [readField]
  | skip => simp [readField]

/-- What the loop has read when it is through. -/
structure ReadsAll (P : Python F) (normalizer : EntityIdNormalizer) (inputs : Inputs F)
    (fields : List FastPathInputField) (start read : Parameters F × List String) : Prop where
  passes : ∀ field ∈ fields, Passes P normalizer inputs field
  params : ∀ p, p ∈ read.1 ↔ p ∈ start.1 ∨ ∃ field ∈ fields,
    field.name = p.1 ∧ resolveFieldValue P normalizer inputs field = .ok (.set p.2)
  missing : read.2 = [] ↔ start.2 = [] ∧
    ∀ field ∈ fields, ¬Misses P normalizer inputs field

theorem readFields_ok {inputs : Inputs F} {fields : List FastPathInputField}
    {start read : Parameters F × List String}
    (h : readFields P normalizer inputs fields start = .ok read)
    (hn : (fields.map FastPathInputField.name).Nodup)
    (hnew : ∀ field ∈ fields, field.name ∉ start.1.map Prod.fst) :
    ReadsAll P normalizer inputs fields start read := by
  induction fields generalizing start with
  | nil =>
    cases h
    exact ⟨List.forall_mem_nil _, by simp, by simp⟩
  | cons field fields ih =>
    rw [readFields_cons] at h
    obtain ⟨o, ho, h⟩ := ExceptLoops.bind_eq_ok.mp h
    obtain ⟨hfield, hn⟩ := List.nodup_cons.mp hn
    obtain ⟨hnew₀, hnew⟩ := List.forall_mem_cons.mp hnew
    have hpass : Passes P normalizer inputs field := resolve_ok.mp ⟨o, ho⟩
    have hnext : ∀ g ∈ fields, g.name ∉ (readField start field o).1.map Prod.fst := by
      intro g hg hmem
      obtain ⟨p, hp, hname⟩ := List.mem_map.mp hmem
      rcases (mem_readField hnew₀).mp hp with hp | ⟨hk, -⟩
      · exact hnew g hg (List.mem_map.mpr ⟨p, hp, hname⟩)
      · exact hfield (List.mem_map.mpr ⟨g, hg, (hk.trans hname).symm⟩)
    have hrest := ih h hn hnext
    refine ⟨List.forall_mem_cons.mpr ⟨hpass, hrest.passes⟩, ?_, ?_⟩
    · intro p
      rw [hrest.params, mem_readField hnew₀, or_assoc]
      simp only [List.mem_cons, exists_eq_or_imp, ho, Except.ok.injEq]
    · have hmissing : (readField start field o).2 = [] ↔
          start.2 = [] ∧ ¬Misses P normalizer inputs field := by
        have hiff : o = .missing ↔ Misses P normalizer inputs field := by
          have := @resolve_missing F P normalizer inputs field
          rw [ho, Except.ok.injEq] at this
          exact this.trans (and_iff_right hpass)
        rw [← hiff]
        cases o <;> simp [readField]
      rw [hrest.missing, hmissing, List.forall_mem_cons, and_assoc]

theorem readFields_isOk {inputs : Inputs F} {fields : List FastPathInputField}
    {start : Parameters F × List String} :
    (∃ read, readFields P normalizer inputs fields start = .ok read) ↔
      ∀ g ∈ fields, Passes P normalizer inputs g := by
  induction fields generalizing start with
  | nil => simp [readFields]
  | cons field fields ih =>
    rw [List.forall_mem_cons, ← resolve_ok, readFields_cons]
    constructor
    · rintro ⟨read, h⟩
      obtain ⟨o, ho, h⟩ := ExceptLoops.bind_eq_ok.mp h
      exact ⟨⟨o, ho⟩, ih.mp ⟨read, h⟩⟩
    · rintro ⟨⟨o, ho⟩, hrest⟩
      obtain ⟨read, h⟩ := ih.mpr hrest
      exact ⟨read, ExceptLoops.bind_eq_ok.mpr ⟨o, ho, h⟩⟩

end Fields

end FastPathFields
