import Pathway.Time.Calendar

/-!
# Instants

An instant is a wall clock reading with its offset from UTC. Two instants compare by the moment
they name, so the same moment may be read on several clocks. A timestamp may lack the offset;
it is then read as UTC.
-/

namespace Pathway

/-- Microseconds since midnight of the first of January of the year 1, on the local clock, and the
clock's minutes east of UTC. -/
structure Instant where
  wall : Int
  offset : Int
deriving DecidableEq, Repr, Inhabited

/-- A wall clock reading that may lack its offset. -/
structure Timestamp where
  wall : Int
  offset : Option Int
deriving DecidableEq, Repr, Inhabited

namespace Instant

def microsPerMinute : Int := 60000000

def microsPerDay : Int := 86400000000

/-- The moment, in microseconds of UTC. -/
def moment (i : Instant) : Int := i.wall - i.offset * microsPerMinute

def before (i j : Instant) : Bool := decide (i.moment < j.moment)

/-- The same moment, on whatever clock. -/
def same (i j : Instant) : Bool := decide (i.moment = j.moment)

theorem same_refl (i : Instant) : i.same i = true := decide_eq_true rfl

end Instant

/-- A reading without an offset is UTC. -/
def Timestamp.toInstant (t : Timestamp) : Instant := ⟨t.wall, t.offset.getD 0⟩

def Instant.toTimestamp (i : Instant) : Timestamp := ⟨i.wall, some i.offset⟩

theorem Instant.toInstant_toTimestamp (i : Instant) : i.toTimestamp.toInstant = i := rfl

/-! ## Parts of a reading -/

structure TimeOfDay where
  hour : Nat
  minute : Nat
  second : Nat
  micros : Nat
deriving DecidableEq, Repr, Inhabited

def TimeOfDay.isPossible (t : TimeOfDay) : Bool :=
  t.hour ≤ 23 && t.minute ≤ 59 && t.second ≤ 59

def TimeOfDay.toMicros (t : TimeOfDay) : Nat :=
  ((t.hour * 60 + t.minute) * 60 + t.second) * 1000000 + t.micros

def wallOf (d : Calendar.Day) (t : TimeOfDay) : Int :=
  (d.toNat : Int) * Instant.microsPerDay + t.toMicros

def dayOfWall (wall : Int) : Calendar.Day :=
  Calendar.Day.ofNat (wall / Instant.microsPerDay).toNat

def timeOfWall (wall : Int) : TimeOfDay :=
  let micros := (wall % Instant.microsPerDay).toNat
  let seconds := micros / 1000000
  ⟨seconds / 3600, seconds / 60 % 60, seconds % 60, micros % 1000000⟩

/-! ## Text -/

/-- A number with leading zeros up to the given width. -/
def padded (width n : Nat) : String :=
  let digits := toString n
  String.ofList (List.replicate (width - digits.length) '0') ++ digits

/-- `YYYY-MM-DDTHH:MM:SS`. -/
def secondsText (wall : Int) : String :=
  let d := dayOfWall wall
  let t := timeOfWall wall
  s!"{padded 4 d.year}-{padded 2 d.month}-{padded 2 d.day}T"
    ++ s!"{padded 2 t.hour}:{padded 2 t.minute}:{padded 2 t.second}"

def wallText (wall : Int) : String :=
  let micros := (timeOfWall wall).micros
  secondsText wall ++ (if micros = 0 then "" else "." ++ padded 6 micros)

def offsetText (minutes : Int) : String :=
  let n := minutes.natAbs
  (if minutes < 0 then "-" else "+") ++ padded 2 (n / 60) ++ ":" ++ padded 2 (n % 60)

def Instant.text (i : Instant) : String := wallText i.wall ++ offsetText i.offset

/-- As `text`, with `Z` for UTC. -/
def Instant.zuluText (i : Instant) : String :=
  wallText i.wall ++ (if i.offset = 0 then "Z" else offsetText i.offset)

def Timestamp.text (t : Timestamp) : String :=
  wallText t.wall ++ (match t.offset with | some m => offsetText m | none => "")

end Pathway
