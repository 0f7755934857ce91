import Mathlib.Data.List.MinMax
import Mathlib.Algebra.Order.Ring.Int
import Mathlib.Tactic.IntervalCases

/-!
# Days of the Gregorian calendar

A date is its number of days from the beginning of 1970, for years of any sign. The years with
their lengths, the dates of a year, and the dates with the same month and day in other years.
-/

namespace Calendar

def isLeap (year : Int) : Bool := year % 4 = 0 ∧ (year % 100 ≠ 0 ∨ year % 400 = 0)

/-- The first day of a year. -/
def newYear (year : Int) : Int :=
  365 * (year - 1970) + (year - 1) / 4 - (year - 1) / 100 + (year - 1) / 400 - 477

def yearLength (year : Int) : Int := if isLeap year then 366 else 365

theorem newYear_succ (year : Int) : newYear (year + 1) = newYear year + yearLength year := by
  unfold newYear yearLength isLeap
  split_ifs with h <;> simp only [decide_eq_true_eq] at h <;> omega

/-- The year of a day: the mean length of a year leads to it or to one beside it. -/
def yearOf (day : Int) : Int :=
  let near := 1970 + day * 400 / 146097
  if day < newYear near then near - 1 else if newYear (near + 1) ≤ day then near + 1 else near

/-- A year begins near the place that the mean length gives it. -/
theorem newYear_near (year : Int) :
    146097 * (year - 1970) - 800 ≤ 400 * newYear year ∧
      400 * newYear year ≤ 146097 * (year - 1970) + 800 := by
  unfold newYear
  omega

theorem yearOf_spec (day : Int) : newYear (yearOf day) ≤ day ∧ day < newYear (yearOf day + 1) := by
  have hnear := Int.mul_ediv_self_le (x := day * 400) (by decide : (146097 : Int) ≠ 0)
  have hnear' := Int.lt_mul_ediv_self_add (x := day * 400) (by decide : (0 : Int) < 146097)
  unfold yearOf
  generalize day * 400 / 146097 = years at hnear hnear' ⊢
  simp only
  have hbefore := newYear_near (1970 + years - 1)
  have hbehind := newYear_near (1970 + years + 1 + 1)
  split_ifs with hfirst hlast
  · rw [Int.sub_add_cancel]
    omega
  · omega
  · omega

/-- Days of a year before a month. -/
def daysBefore (year : Int) (month : Nat) : Nat :=
  [0, 31, 59, 90, 120, 151, 181, 212, 243, 273, 304, 334].getD (month - 1) 0 +
    if 2 < month ∧ isLeap year then 1 else 0

def monthLength (year : Int) (month : Nat) : Nat :=
  if month = 2 then if isLeap year then 29 else 28
  else if month ∈ [4, 6, 9, 11] then 30
  else 31

/-- A date that exists. -/
def ofDate (year : Int) (month day : Nat) : Option Int :=
  if 1 ≤ month ∧ month ≤ 12 ∧ 1 ≤ day ∧ day ≤ monthLength year month then
    some (newYear year + daysBefore year month + day - 1)
  else none

theorem ofDate_eq_some {year : Int} {month day : Nat} {date : Int} :
    ofDate year month day = some date ↔
      (1 ≤ month ∧ month ≤ 12 ∧ 1 ≤ day ∧ day ≤ monthLength year month) ∧
        date = newYear year + daysBefore year month + day - 1 := by
  unfold ofDate
  split_ifs with h
  · exact ⟨fun heq => ⟨h, (Option.some.inj heq).symm⟩, fun heq => congrArg some heq.2.symm⟩
  · exact ⟨nofun, fun heq => absurd heq.1 h⟩

theorem daysBefore_add_le {month : Nat} (year : Int) (hpos : 1 ≤ month) (hle : month ≤ 12) :
    (daysBefore year month + monthLength year month : Int) ≤ yearLength year := by
  unfold daysBefore monthLength yearLength
  interval_cases month <;> cases isLeap year <;> decide

/-- A date lies in its year. -/
theorem ofDate_mem_year {year : Int} {month day : Nat} {date : Int}
    (h : ofDate year month day = some date) : newYear year ≤ date ∧ date < newYear (year + 1) := by
  obtain ⟨⟨hpos, hle, hday, hday'⟩, rfl⟩ := ofDate_eq_some.mp h
  have hmonth := daysBefore_add_le year hpos hle
  rw [newYear_succ]
  omega

/-- All but the 29th of February are dates of every year. -/
theorem ofDate_isSome {year : Int} {month day : Nat} {date : Int} (other : Int)
    (h : ofDate year month day = some date) (hleap : ¬(month = 2 ∧ day = 29)) :
    ∃ date, ofDate other month day = some date := by
  obtain ⟨⟨hpos, hle, hday, hday'⟩, -⟩ := ofDate_eq_some.mp h
  refine ⟨_, ofDate_eq_some.mpr ⟨⟨hpos, hle, hday, ?_⟩, rfl⟩⟩
  unfold monthLength at hday' ⊢
  split_ifs at hday' ⊢ <;> omega

/-- From a date to the same one a year later. -/
theorem ofDate_succ {year : Int} {month day : Nat} {date next : Int}
    (h : ofDate year month day = some date) (hnext : ofDate (year + 1) month day = some next) :
    date + 365 ≤ next ∧ next ≤ date + 366 := by
  obtain ⟨-, rfl⟩ := ofDate_eq_some.mp h
  obtain ⟨-, rfl⟩ := ofDate_eq_some.mp hnext
  rw [newYear_succ]
  unfold yearLength daysBefore
  split_ifs <;> grind

/-- The number of days between two days. -/
def distance (day other : Int) : Nat := (day - other).natAbs

/-- A date that is not the 29th of February comes at most 183 days before or behind any day. -/
theorem exists_near_date {month day : Nat} {year date : Int} (reference : Int)
    (h : ofDate year month day = some date) (hleap : ¬(month = 2 ∧ day = 29)) :
    ∃ near ∈ [yearOf reference - 1, yearOf reference, yearOf reference + 1],
      ∃ date, ofDate near month day = some date ∧ distance date reference ≤ 183 := by
  obtain ⟨hfrom, huntil⟩ := yearOf_spec reference
  obtain ⟨before, hbefore⟩ := ofDate_isSome (yearOf reference - 1) h hleap
  obtain ⟨same, hsame⟩ := ofDate_isSome (yearOf reference) h hleap
  obtain ⟨behind, hbehind⟩ := ofDate_isSome (yearOf reference + 1) h hleap
  have hsame' := (Int.sub_add_cancel (yearOf reference) 1).symm ▸ hsame
  have hfirst := ofDate_succ hbefore hsame'
  have hsecond := ofDate_succ hsame hbehind
  have hyear := (ofDate_mem_year hbefore).2
  rw [Int.sub_add_cancel] at hyear
  have hyear' := (ofDate_mem_year hbehind).1
  have hnear : distance before reference ≤ 183 ∨ distance same reference ≤ 183 ∨
      distance behind reference ≤ 183 := by
    unfold distance
    omega
  rcases hnear with hnear | hnear | hnear
  · exact ⟨_, List.mem_cons_self, before, hbefore, hnear⟩
  · exact ⟨_, List.mem_cons_of_mem _ List.mem_cons_self, same, hsame, hnear⟩
  · exact ⟨_, by simp, behind, hbehind, hnear⟩

end Calendar
