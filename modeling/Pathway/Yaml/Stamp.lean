import Pathway.Number.Reading
import Pathway.Time.Instant
import Pathway.Document
import Pathway.Yaml.Fault

/-!
# Stamps

A stamp is a moment as a scalar writes it: a date, and perhaps a clock with an offset from UTC. The
form admits dates and clocks that do not exist; `Stamp.document` names the first part that is wrong.
-/

namespace Pathway.Yaml

open Number

/-- A time of day and the offset in minutes, if one is given. -/
structure Clock where
  time : TimeOfDay
  offset : Option Int
deriving DecidableEq, Repr

structure Stamp where
  day : Calendar.Day
  clock : Option Clock
deriving DecidableEq, Repr

namespace Stamp

/-! ## Reading -/

/-- A number of so many digits at least and at most, and what follows it. -/
def field? (least most : Nat) (cs : List Char) : Option (Nat × List Char) :=
  let digits := cs.takeWhile Char.isDigit
  if least ≤ digits.length && digits.length ≤ most then
    some (ofDigits digits, cs.drop digits.length)
  else none

def mark? (c : Char) : List Char → Option (List Char)
  | d :: rest => if d = c then some rest else none
  | [] => none

def isGap (c : Char) : Bool := c == ' ' || c == '\t'

/-- Between a date and a clock stands a letter or a run of blanks. -/
def separator? : List Char → Option (List Char)
  | [] => none
  | c :: rest =>
    if c = 'T' ∨ c = 't' then some rest
    else if isGap c then some (rest.dropWhile isGap)
    else none

/-- A fraction of a second in microseconds; places past the sixth are dropped. -/
def fraction : List Char → Nat × List Char
  | '.' :: rest =>
    let (digits, rest) := spanDigits rest
    (ofDigits (digits.take 6 ++ List.replicate (6 - digits.length) '0'), rest)
  | cs => (0, cs)

/-- `H`, `HH` or either with `:MM`, in minutes. -/
def shift? (cs : List Char) : Option Int := do
  let (hours, rest) ← field? 1 2 cs
  match rest with
  | [] => return hours * 60
  | ':' :: rest => do
    let (minutes, rest) ← field? 2 2 rest
    if rest.isEmpty then return hours * 60 + minutes else none
  | _ => none

/-- The rest of a stamp after its clock. -/
def offset? (cs : List Char) : Option (Option Int) :=
  if cs.isEmpty then some none
  else
    match cs.dropWhile isGap with
    | ['Z'] => some (some 0)
    | '+' :: rest => (shift? rest).map some
    | '-' :: rest => (shift? rest).map fun m => some (-m)
    | _ => none

def clock? (cs : List Char) : Option Clock := do
  let (hour, cs) ← field? 1 2 cs
  let (minute, cs) ← field? 2 2 (← mark? ':' cs)
  let (second, cs) ← field? 2 2 (← mark? ':' cs)
  let (micros, cs) := fraction cs
  return ⟨⟨hour, minute, second, micros⟩, ← offset? cs⟩

def read? (cs : List Char) : Option Stamp := do
  let (year, cs) ← field? 4 4 cs
  let (month, cs) ← field? 1 2 (← mark? '-' cs)
  let (day, cs) ← field? 1 2 (← mark? '-' cs)
  if cs.isEmpty then return ⟨⟨year, month, day⟩, none⟩
  else return ⟨⟨year, month, day⟩, some (← clock? (← separator? cs))⟩

/-! ## Meaning -/

def checkDay (d : Calendar.Day) : Except Fault Unit :=
  if d.year = 0 then .error .badYear
  else if d.month = 0 ∨ 12 < d.month then .error .badMonth
  else if d.isPossible then .ok ()
  else .error .badDay

def checkTime (t : TimeOfDay) : Except Fault Unit :=
  if 23 < t.hour then .error .badHour
  else if 59 < t.minute then .error .badMinute
  else if 59 < t.second then .error .badSecond
  else .ok ()

/-- An offset is less than a day. -/
def checkOffset : Option Int → Except Fault Unit
  | some m => if m.natAbs < 1440 then .ok () else .error (.oversizedOffset m)
  | none => .ok ()

/-- The date or the moment; of several wrong parts the offset counts first, then the greatest. -/
def document (s : Stamp) : Except Fault Document := do
  match s.clock with
  | none => do
    checkDay s.day
    return .date s.day
  | some c => do
    checkOffset c.offset
    checkDay s.day
    checkTime c.time
    return .timestamp ⟨wallOf s.day c.time, c.offset⟩

end Stamp

end Pathway.Yaml
