/-!
# The calendar

Days are counted from the first of January of the year 1, in the proleptic Gregorian calendar.
-/

namespace Pathway.Calendar

def isLeap (year : Nat) : Bool :=
  year % 4 == 0 && (year % 100 != 0 || year % 400 == 0)

def daysInMonth (year month : Nat) : Nat :=
  match month with
  | 2 => if isLeap year then 29 else 28
  | 4 | 6 | 9 | 11 => 30
  | _ => 31

def daysBeforeYear (year : Nat) : Nat :=
  let y := year - 1
  y * 365 + y / 4 - y / 100 + y / 400

def daysBeforeMonth (year month : Nat) : Nat :=
  (List.range (month - 1)).foldl (fun n m => n + daysInMonth year (m + 1)) 0

structure Day where
  year : Nat
  month : Nat
  day : Nat
deriving DecidableEq, Repr, Inhabited

/-- Days from the first of January of the year 1. -/
def Day.toNat (d : Day) : Nat :=
  daysBeforeYear d.year + daysBeforeMonth d.year d.month + (d.day - 1)

/-- A day is possible in the years 1 to 9999. -/
def Day.isPossible (d : Day) : Bool :=
  1 ≤ d.year && d.year ≤ 9999 && 1 ≤ d.month && d.month ≤ 12
    && 1 ≤ d.day && d.day ≤ daysInMonth d.year d.month

/-- The month of a day of the year counted from zero, looked for from the given month on. -/
def monthOf (year month : Nat) (rest : Nat) : Nat → Day
  | 0 => ⟨year, month, rest + 1⟩
  | fuel + 1 =>
    if rest < daysInMonth year month then ⟨year, month, rest + 1⟩
    else monthOf year (month + 1) (rest - daysInMonth year month) fuel

def Day.ofNat (n : Nat) : Day :=
  let guess := n / 366 + 1
  let year := guess + ((List.range 30).filter fun k => daysBeforeYear (guess + k + 1) ≤ n).length
  monthOf year 1 (n - daysBeforeYear year) 11

end Pathway.Calendar
