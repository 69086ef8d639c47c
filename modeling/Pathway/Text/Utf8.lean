import Pathway.Text.Basic

/-!
# UTF-8

Strict decoding of bytes, for files and binary scalars, and the first place where bytes are no
UTF-8.
-/

namespace Pathway.Text

/-- The text the bytes encode, if they are well-formed UTF-8. -/
def decode? (bytes : List UInt8) : Option String :=
  String.fromUTF8? ⟨bytes.toArray⟩

/-! ## Faults -/

inductive DecodeReason where
  | badStart
  | badContinuation
  | cutOff
deriving DecidableEq, Repr, Inhabited

def DecodeReason.text : DecodeReason → String
  | .badStart => "invalid start byte"
  | .badContinuation => "invalid continuation byte"
  | .cutOff => "unexpected end of data"

/-- Where and why bytes are no UTF-8: the first of so many bytes that encode nothing. -/
structure DecodeFault where
  start : Nat
  count : Nat
  byte : UInt8
  reason : DecodeReason
deriving DecidableEq, Repr, Inhabited

def DecodeFault.message (f : DecodeFault) : String :=
  let what :=
    if f.count = 1 then s!"byte 0x{hex 2 f.byte.toNat} in position {f.start}"
    else s!"bytes in position {f.start}-{f.start + f.count - 1}"
  s!"'utf-8' codec can't decode {what}: {f.reason.text}"

/-- The length of the sequence that a byte starts, or nothing. -/
def sequenceLength? (b : UInt8) : Option Nat :=
  if b < 0x80 then some 1
  else if b < 0xC2 then none
  else if b < 0xE0 then some 2
  else if b < 0xF0 then some 3
  else if b < 0xF5 then some 4
  else none

/-- What may follow the first byte; some first bytes allow a part of the continuations only. -/
def isSecond (first b : UInt8) : Bool :=
  let least : UInt8 := if first = 0xE0 then 0xA0 else if first = 0xF0 then 0x90 else 0x80
  let most : UInt8 := if first = 0xED then 0x9F else if first = 0xF4 then 0x8F else 0xBF
  least ≤ b && b ≤ most

def isContinuation (b : UInt8) : Bool := 0x80 ≤ b && b ≤ 0xBF

/-- How many bytes behind the first one continue it. -/
def continuations (first : UInt8) (rest : List UInt8) : Nat :=
  match rest with
  | [] => 0
  | b :: more => if isSecond first b then 1 + (more.takeWhile isContinuation).length else 0

/-- The fault of bytes from a place on. -/
def faultFrom : Nat → Nat → List UInt8 → Option DecodeFault
  | 0, _, _ => none
  | _ + 1, _, [] => none
  | fuel + 1, start, b :: rest =>
    match sequenceLength? b with
    | none => some ⟨start, 1, b, .badStart⟩
    | some n =>
      let behind := min (continuations b (rest.take (n - 1))) (n - 1)
      if behind + 1 = n then faultFrom fuel (start + n) (rest.drop (n - 1))
      else if behind = rest.length then some ⟨start, behind + 1, b, .cutOff⟩
      else some ⟨start, behind + 1, b, .badContinuation⟩

def decodeFault? (bytes : List UInt8) : Option DecodeFault :=
  faultFrom bytes.length 0 bytes

def decode (bytes : List UInt8) : Except DecodeFault String :=
  match decode? bytes with
  | some s => .ok s
  | none => .error ((decodeFault? bytes).getD default)

end Pathway.Text
