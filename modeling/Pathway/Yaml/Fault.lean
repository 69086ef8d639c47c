import Pathway.Number.Reading
import Pathway.Text.Basic

/-!
# Faults

Why a text is not read. Most faults are of the form of the text; the others are scalars that have
the form of a value and name none.
-/

namespace Pathway.Yaml

inductive Fault where
  /-- The text is no YAML document of the supported kinds. -/
  | malformed
  | badCodePoint
  | oversizedCodePoint
  | badYear
  | badMonth
  | badDay
  | badHour
  | badMinute
  | badSecond
  /-- An offset of a day or more, in minutes. -/
  | oversizedOffset (minutes : Int)
  | badWhole (base : Nat) (text : String)
  | badReal (text : String)
  | emptyNumber
  | oversizedInteger (digits : Nat)
  | badFlag (text : String)
  | badTimestamp
deriving DecidableEq, Repr, Inhabited

namespace Fault

/-- The scalar was read as a value, and there is none like it. -/
def isValue : Fault → Bool
  | malformed | oversizedCodePoint | emptyNumber | badFlag _ | badTimestamp => false
  | _ => true

/-- A length of time in whole days and the seconds after them. -/
def duration (minutes : Int) : String :=
  let days := minutes / 1440
  let seconds := minutes % 1440 * 60
  let parts := [("days", days), ("seconds", seconds)].filter (·.2 != 0)
  ", ".intercalate (parts.map fun p => p.1 ++ "=" ++ toString p.2)

/-- What is said about a fault; one of form has no words of its own. -/
def message : Fault → String
  | malformed => ""
  | badCodePoint => "chr() arg not in range(0x110000)"
  | oversizedCodePoint => "Python int too large to convert to C int"
  | badYear => "year 0 is out of range"
  | badMonth => "month must be in 1..12"
  | badDay => "day is out of range for month"
  | badHour => "hour must be in 0..23"
  | badMinute => "minute must be in 0..59"
  | badSecond => "second must be in 0..59"
  | oversizedOffset minutes =>
    "offset must be a timedelta strictly between -timedelta(hours=24) and timedelta(hours=24), "
      ++ "not datetime.timedelta(" ++ duration minutes ++ ")."
  | badWhole base text =>
    "invalid literal for int() with base " ++ toString base ++ ": " ++ Text.quoted text
  | badReal text => "could not convert string to float: " ++ Text.quoted text
  | emptyNumber => "string index out of range"
  | oversizedInteger digits => Number.tooManyDigits digits
  | badFlag text => Text.quoted text
  | badTimestamp => "'NoneType' object has no attribute 'groupdict'"

end Fault

end Pathway.Yaml
