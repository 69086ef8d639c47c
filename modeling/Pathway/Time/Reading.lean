import Pathway.Number.Reading
import Pathway.Time.Instant

/-!
# Reading timestamps

A timestamp is a calendar date, a date with a time of day, or a count of Unix seconds. Counts
beyond `millisecondsFrom` are milliseconds. A count names a moment of UTC; a date or a time may
come without an offset.
-/

namespace Pathway.Timestamp

open Number

/-- Why a text or a number is no timestamp. -/
inductive Fault where
  | unreadable
  /-- A good form, for a moment outside the supported years. -/
  | outOfRange
deriving DecidableEq, Repr

/-! ## Fields of fixed width -/

/-- A number of exactly so many digits, and what follows it. -/
def fixed? (width : Nat) (cs : List Char) : Option (Nat × List Char) :=
  let digits := cs.take width
  if digits.length = width && digits.all Char.isDigit then some (ofDigits digits, cs.drop width)
  else none

def literal? (c : Char) : List Char → Option (List Char)
  | d :: rest => if d = c then some rest else none
  | [] => none

/-- `YYYY-MM-DD`. -/
def date? (cs : List Char) : Option (Calendar.Day × List Char) := do
  let (year, cs) ← fixed? 4 cs
  let cs ← literal? '-' cs
  let (month, cs) ← fixed? 2 cs
  let cs ← literal? '-' cs
  let (day, cs) ← fixed? 2 cs
  return (⟨year, month, day⟩, cs)

/-- The fraction of a second in microseconds; places past the sixth are dropped. -/
def fraction? : List Char → Option (Nat × List Char)
  | c :: cs =>
    if c = '.' || c = ',' then
      let (digits, rest) := spanDigits cs
      if digits.isEmpty then none
      else some (ofDigits (digits.take 6 ++ List.replicate (6 - digits.length) '0'), rest)
    else some (0, c :: cs)
  | [] => some (0, [])

/-- `HH:MM`, with seconds and a fraction of them if they follow. -/
def time? (cs : List Char) : Option (TimeOfDay × List Char) := do
  let (hour, cs) ← fixed? 2 cs
  let cs ← literal? ':' cs
  let (minute, cs) ← fixed? 2 cs
  match cs with
  | ':' :: cs => do
    let (second, cs) ← fixed? 2 cs
    let (micros, cs) ← fraction? cs
    return (⟨hour, minute, second, micros⟩, cs)
  | _ => return (⟨hour, minute, 0, 0⟩, cs)

/-- `HH:MM` or `HHMM`, in minutes. -/
def hoursAndMinutes? (cs : List Char) : Option Int := do
  let (hours, cs) ← fixed? 2 cs
  let (minutes, cs) ← fixed? 2 (match cs with | ':' :: rest => rest | _ => cs)
  if cs.isEmpty && hours ≤ 23 && minutes ≤ 59 then some (hours * 60 + minutes) else none

/-- The whole rest of the text: nothing, `Z`, or a signed offset. -/
def offset? : List Char → Option (Option Int)
  | [] => some none
  | ['Z'] | ['z'] => some (some 0)
  | '+' :: cs => (hoursAndMinutes? cs).map some
  | '-' :: cs | '−' :: cs => (hoursAndMinutes? cs).map fun m => some (-m)
  | _ => none

/-! ## Counts of seconds -/

/-- A count with a greater magnitude is in milliseconds. -/
def millisecondsFrom : Nat := 20000000000

/-- The seconds of a count are those of the years 1600 to 9999. -/
def firstSecond : Int := -11676096000

def lastSecond : Int := 253402300799

def epoch : Int := wallOf ⟨1970, 1, 1⟩ ⟨0, 0, 0, 0⟩

/-- The moment of a whole count and some microseconds more. -/
def ofCount (count : Int) (micros : Nat) : Except Fault Timestamp :=
  let (seconds, extra) :=
    if count.natAbs ≤ millisecondsFrom then (count, 0)
    else (count / 1000, (count % 1000).toNat * 1000)
  let total := micros + extra
  let seconds := seconds + (total / 1000000 : Nat)
  if firstSecond ≤ seconds ∧ seconds ≤ lastSecond then
    .ok ⟨epoch + seconds * 1000000 + (total % 1000000 : Nat), some 0⟩
  else .error .outOfRange

/-- The floor of the count, and the magnitude of its fraction to the nearest microsecond. -/
def ofNumber : Binary64 → Except Fault Timestamp
  | .finite negative units =>
    let whole := units / Binary64.one
    let part := units % Binary64.one
    let floor : Int := if negative then (if part = 0 then -whole else -whole - 1) else whole
    let micros := Binary64.ofUnits false (part * 1000000) 1
    ofCount floor (match micros with
      | .finite _ u => (u + Binary64.one / 2) / Binary64.one
      | _ => 0)
  | _ => .error .outOfRange

/-- The digits after a point added one by one, each divided by its power of ten. -/
def addFraction (whole : Binary64) : Nat → List Char → Binary64
  | _, [] => whole
  | place, c :: cs =>
    let part := (Binary64.ofNat (ofDigits [c])).shrink (Nat.pow 10 place)
    addFraction (whole.add part) (place + 1) cs

/-- A text that is wholly a number. -/
def count? (cs : List Char) : Option (Except Fault Timestamp) :=
  let (negative, body) := spanSign cs
  let (digits, rest) := spanDigits body
  if digits.isEmpty then none
  else
    let value := ofDigits digits
    match rest with
    | [] => some (ofCount (if negative then -value else value) 0)
    | '.' :: places =>
      if places.all Char.isDigit then
        let x := addFraction (.ofNat value) 1 places
        some (ofNumber (if negative then x.neg else x))
      else none
    | _ => none

/-! ## Texts -/

/-- The year zero is readable, and outside the supported years. -/
def ofParts (day : Calendar.Day) (time : TimeOfDay) (offset : Option Int) :
    Except Fault Timestamp :=
  let stand : Calendar.Day := if day.year = 0 then { day with year := 2000 } else day
  if !stand.isPossible || !time.isPossible then .error .unreadable
  else if day.year = 0 then .error .outOfRange
  else .ok ⟨wallOf day time, offset⟩

def isSeparator (c : Char) : Bool := c == 'T' || c == 't' || c == ' ' || c == '_'

def calendar? (cs : List Char) : Option (Except Fault Timestamp) := do
  let (day, rest) ← date? cs
  match rest with
  | [] => return ofParts day ⟨0, 0, 0, 0⟩ none
  | c :: rest =>
    if isSeparator c then
      let (time, rest) ← time? rest
      let offset ← offset? rest
      return ofParts day time offset
    else none

def read (s : String) : Except Fault Timestamp :=
  match calendar? s.toList with
  | some answer => answer
  | none =>
    match count? s.toList with
    | some (.ok t) => .ok t
    | _ => .error .unreadable

end Pathway.Timestamp
