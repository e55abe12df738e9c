import Mathlib.Algebra.Order.Ring.Nat
import Mathlib.Data.Int.Notation
import Mathlib.Data.Nat.Notation
import Mathlib.Order.Basic
import Mathlib.Tactic.Common

/-! `datetime.date`: the days of the proleptic Gregorian calendar in the years 1 to 9999, their
ordinals and the operations on them that may leave the calendar. -/
namespace PythonDate

def isLeap (year : ℕ) : Bool := year % 4 = 0 && (year % 100 ≠ 0 || year % 400 = 0)

def daysInMonth (year month : ℕ) : ℕ :=
  if month = 2 then if isLeap year then 29 else 28
  else if month ∈ [4, 6, 9, 11] then 30
  else 31

structure ValidDate (year month day : ℕ) : Prop where
  yearIn : 1 ≤ year ∧ year ≤ 9999
  monthIn : 1 ≤ month ∧ month ≤ 12
  dayIn : 1 ≤ day ∧ day ≤ daysInMonth year month

instance (year month day : ℕ) : Decidable (ValidDate year month day) :=
  decidable_of_iff ((1 ≤ year ∧ year ≤ 9999) ∧ (1 ≤ month ∧ month ≤ 12) ∧
    1 ≤ day ∧ day ≤ daysInMonth year month)
    ⟨fun h => ⟨h.1, h.2.1, h.2.2⟩, fun h => ⟨h.yearIn, h.monthIn, h.dayIn⟩⟩

@[ext] structure Date where
  year : ℕ
  month : ℕ
  day : ℕ
  valid : ValidDate year month day
  deriving DecidableEq

/-- The constructor raises a `ValueError` on anything that is no date. -/
def mkDate (year month day : ℕ) : Option Date :=
  if h : ValidDate year month day then some ⟨year, month, day, h⟩ else none

def Date.before (d e : Date) : Prop :=
  d.year < e.year ∨ d.year = e.year ∧ (d.month < e.month ∨ d.month = e.month ∧ d.day < e.day)

instance (d e : Date) : Decidable (d.before e) := inferInstanceAs (Decidable (_ ∨ _))

def daysBeforeYear (year : ℕ) : ℕ :=
  (year - 1) * 365 + (year - 1) / 4 - (year - 1) / 100 + (year - 1) / 400

def daysBeforeMonth (year month : ℕ) : ℕ :=
  ((List.range' 1 (month - 1)).map (daysInMonth year)).sum

/-- `toordinal()`: the first of January of the year 1 is day 1. -/
def Date.ordinal (d : Date) : ℕ := daysBeforeYear d.year + daysBeforeMonth d.year d.month + d.day

def Date.daysAfter (d e : Date) : ℤ := (d.ordinal : ℤ) - e.ordinal

def Date.lastYear (d : Date) : Option Date := mkDate (d.year - 1) d.month d.day

/-- `d + timedelta(days=1)`, which overflows on the last day of the calendar. -/
def Date.nextDay (d : Date) : Option Date :=
  if d.day < daysInMonth d.year d.month then mkDate d.year d.month (d.day + 1)
  else if d.month < 12 then mkDate d.year (d.month + 1) 1
  else mkDate (d.year + 1) 1 1

theorem daysInMonth_pos (year month : ℕ) : 1 ≤ daysInMonth year month := by
  unfold daysInMonth
  split_ifs <;> decide

/-- Only the last day of the calendar has no next one. -/
theorem nextDay_eq_none {d : Date} :
    d.nextDay = none ↔ d.year = 9999 ∧ d.month = 12 ∧ d.day = 31 := by
  obtain ⟨year, month, day, hy, hm, hd⟩ := d
  have hdec : daysInMonth year 12 = 31 := by simp [daysInMonth]
  have hjan : daysInMonth (year + 1) 1 = 31 := by simp [daysInMonth]
  have hpos := daysInMonth_pos year (month + 1)
  unfold Date.nextDay mkDate
  dsimp only
  split_ifs with h₁ h₂ h₃ h₄ h₅
  · constructor
    · intro h
      cases h
    · rintro ⟨-, rfl, rfl⟩
      omega
  · exact absurd ⟨hy, hm, by omega, by omega⟩ h₂
  · constructor
    · intro h
      cases h
    · rintro ⟨-, rfl, -⟩
      omega
  · exact absurd ⟨hy, by omega, Nat.le_refl 1, hpos⟩ h₄
  · constructor
    · intro h
      cases h
    · rintro ⟨rfl, -, -⟩
      have hyear := h₅.yearIn
      omega
  · have hmonth : month = 12 := by omega
    subst hmonth
    refine iff_of_true rfl ⟨?_, rfl, by omega⟩
    by_contra hne
    exact ‹¬ ValidDate (year + 1) 1 1› ⟨by omega, by decide, Nat.le_refl 1, by omega⟩

end PythonDate
