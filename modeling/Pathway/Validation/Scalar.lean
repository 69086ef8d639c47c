import Pathway.Number.Reading
import Pathway.Text.Utf8
import Pathway.Time.Reading
import Pathway.Validation.Checked

/-!
# Scalars

Reading is lax: a whole number may come as a text or as a number without a fraction, a flag as one
of the usual words, a moment as a date, a text or a count of seconds. Each check says which kinds
of document it takes, and which fault stands for the others.
-/

namespace Pathway.Check

open Number

/-! ## Texts -/

def text : Check String
  | .text s => .valid s
  | .bytes b => match Text.decode? b with
    | some s => .valid s
    | none => .fail .undecodedText
  | _ => .fail .notText

def nonEmptyText (d : Document) : Checked String :=
  (text d).andThen fun s => if s.isEmpty then .fail .emptyText else .valid s

/-- Binary scalars are read as the text they encode. -/
def asText (d : Document) : Document :=
  match d with
  | .bytes b => match Text.decode? b with
    | some s => .text s
    | none => d
  | _ => d

/-! ## Whole numbers -/

/-- Numbers with a fraction point are taken as whole within 64 bits, the least word left out. -/
def wholeOfReal (x : Binary64) : Checked Int :=
  match x with
  | .finite .. => match x.toInt? with
    | some i => if i.natAbs < signedLimit then .valid i else .fail .oversizedWhole
    | none => .fail .fractional
  | _ => .fail .notFinite

/-- A text of more characters is not converted. -/
def wholeTextLimit : Nat := 4300

def wholeOfText (s : String) : Checked Int :=
  match laxWhole? s with
  | some i => if wholeTextLimit < s.length then .fail .oversizedWhole else .valid i
  | none => .fail .unreadableWhole

def whole (d : Document) : Checked Int :=
  match asText d with
  | .int i => .valid i
  | .bool b => .valid (if b then 1 else 0)
  | .real x => wholeOfReal x
  | .text s => wholeOfText s
  | .bytes _ => .fail .unreadableWhole
  | _ => .fail .notWhole

def wholeFrom (bound : Nat) (d : Document) : Checked Nat :=
  (whole d).andThen fun i => if (bound : Int) ≤ i then .valid i.toNat else .fail .belowMinimum

/-! ## Numbers -/

/-- An integer too large for the format is not a number of it. -/
def realOfInt (i : Int) : Checked Binary64 :=
  let x := Binary64.ofInt i
  if x.isFinite then .valid x else .fail .notReal

def real (d : Document) : Checked Binary64 :=
  match asText d with
  | .real x => .valid x
  | .int i => realOfInt i
  | .bool b => .valid (.ofNat (if b then 1 else 0))
  | .text s => match laxDecimal? s with
    | some x => .valid x
    | none => .fail .unreadableReal
  | .bytes _ => .fail .unreadableReal
  | _ => .fail .notReal

def realFromZero (d : Document) : Checked Binary64 :=
  (real d).andThen fun x => if Binary64.zero.le x then .valid x else .fail .belowMinimum

/-! ## Flags -/

def trueWords : List String := ["1", "true", "t", "yes", "y", "on"]

def falseWords : List String := ["0", "false", "f", "no", "n", "off"]

def flagOfText (s : String) : Checked Bool :=
  let word := String.ofList (s.toList.map Char.toLower)
  if word ∈ trueWords then .valid true
  else if word ∈ falseWords then .valid false
  else .fail .unreadableFlag

def flagOfInt (i : Int) : Checked Bool :=
  if i = 1 then .valid true else if i = 0 then .valid false else .fail .unreadableFlag

def flag (d : Document) : Checked Bool :=
  match asText d with
  | .bool b => .valid b
  | .int i => flagOfInt i
  | .real x => match x.toInt? with
    | some i => flagOfInt i
    | none => .fail .notFlag
  | .text s => flagOfText s
  | .bytes _ => .fail .unreadableFlag
  | _ => .fail .notFlag

/-! ## Members and moments -/

/-- One of the names of an enumeration, exactly as written. -/
def member {α : Type} (ofName? : String → Option α) : Check α
  | .text s => match ofName? s with
    | some a => .valid a
    | none => .fail .notMember
  | _ => .fail .notMember

def momentOfNumber : Except Timestamp.Fault Timestamp → Checked Instant
  | .ok t => .valid t.toInstant
  | .error _ => .fail .momentOutOfRange

def momentOfText (s : String) : Checked Instant :=
  match Timestamp.read s with
  | .ok t => .valid t.toInstant
  | .error .unreadable => .fail .unreadableMoment
  | .error .outOfRange => .fail .momentOutOfRange

/-- A moment; a reading without an offset is UTC. -/
def moment (d : Document) : Checked Instant :=
  match asText d with
  | .timestamp t => .valid t.toInstant
  | .date day => .valid (Timestamp.toInstant ⟨wallOf day ⟨0, 0, 0, 0⟩, none⟩)
  | .int i => momentOfNumber (Timestamp.ofCount i 0)
  | .real x => momentOfNumber (Timestamp.ofNumber x)
  | .text s => momentOfText s
  | .bytes _ => .fail .unreadableMoment
  | _ => .fail .notMoment

end Pathway.Check
