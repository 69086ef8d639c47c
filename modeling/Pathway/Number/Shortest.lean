import Pathway.Number.Binary64

/-!
# Shortest decimal digits

`shortest` gives the fewest digits that read back as the same number, and of those the nearest
to it. `text` writes them: positional from 1e-4 up to below 1e16, with an exponent elsewhere.
-/

namespace Pathway.Binary64

/-! ## The interval of a number -/

/-- What rounds to a number: all between two bounds, in quarters of a step. -/
structure Interval where
  low : Nat
  high : Nat
  closed : Bool

/-- The bounds lie half way to the neighbours, and belong to the number if its last bit is even. -/
def interval (units : Nat) : Interval :=
  let step := if units < Nat.pow 2 53 then 1 else Nat.pow 2 (units.log2 - 52)
  let below := if 1 < step ∧ units = Nat.pow 2 units.log2 then step else 2 * step
  ⟨4 * units - below, 4 * units + 2 * step, (units / step) % 2 == 0⟩

def Interval.contains (i : Interval) (digits : Nat) (exponent : Int) : Bool :=
  let up := Nat.pow 10 exponent.toNat
  let down := Nat.pow 10 (-exponent).toNat
  let x := digits * up * 4 * one
  let low := i.low * down
  let high := i.high * down
  if i.closed then low ≤ x && x ≤ high else low < x && x < high

/-! ## The digits -/

/-- The power of ten of the leading digit of a positive number of steps. -/
def leadingPower (units : Nat) : Int :=
  (digitCount (units * Nat.pow 10 400 / one) : Int) - 401

/-- Of the two neighbours on the grid of `10 ^ exponent`, the nearer that lies in the interval. -/
def onGrid (units : Nat) (exponent : Int) : Option Nat :=
  let num := units * Nat.pow 10 (-exponent).toNat
  let den := one * Nat.pow 10 exponent.toNat
  let q := num / den
  let i := interval units
  match i.contains q exponent, i.contains (q + 1) exponent with
  | true, true => some (roundDiv num den)
  | true, false => some q
  | false, true => some (q + 1)
  | false, false => none

/-- The first grid, from coarse to fine, with a hit. -/
def firstHit (units : Nat) (exponent : Int) : Nat → Nat × Int
  | 0 => (units / one, 0)
  | fuel + 1 =>
    match onGrid units exponent with
    | some digits => (digits, exponent)
    | none => firstHit units (exponent - 1) fuel

/-- The shortest digits of a positive number of steps, with their power of ten. -/
def shortest (units : Nat) : Nat × Int := firstHit units (leadingPower units) 18

/-! ## The text -/

def dropTrailingZeros (digits : List Char) : List Char :=
  (digits.reverse.dropWhile (· == '0')).reverse

/-- Digits with the decimal point after the first `point` of them. -/
def positional (digits : List Char) (point : Int) : String :=
  if point ≤ 0 then
    "0." ++ String.ofList (List.replicate (-point).toNat '0' ++ digits)
  else
    let whole := digits.take point.toNat
    let zeros := List.replicate (point.toNat - digits.length) '0'
    let fraction := digits.drop point.toNat
    String.ofList (whole ++ zeros) ++ "."
      ++ (if fraction.isEmpty then "0" else String.ofList fraction)

def scientific (digits : List Char) (power : Int) : String :=
  let mantissa := match digits with
    | [d] => String.ofList [d]
    | d :: rest => String.ofList (d :: '.' :: rest)
    | [] => "0"
  let exponent := toString power.natAbs
  let padded := if exponent.length < 2 then "0" ++ exponent else exponent
  mantissa ++ "e" ++ (if power < 0 then "-" else "+") ++ padded

def unsignedText (units : Nat) : String :=
  if units = 0 then "0.0"
  else
    let (value, exponent) := shortest units
    let all := Nat.toDigits 10 value
    let power := exponent + all.length - 1
    let digits := dropTrailingZeros all
    if -4 ≤ power ∧ power < 16 then positional digits (power + 1) else scientific digits power

/-- The shortest text that reads back as the number. -/
def text : Binary64 → String
  | .finite negative units => (if negative then "-" else "") ++ unsignedText units
  | .infinite negative => if negative then "-inf" else "inf"
  | .nan => "nan"

/-- The value with so many decimal places, a half to the even neighbour. -/
def fixedText (places : Nat) : Binary64 → String
  | .finite negative units =>
    let digits := toString (decimals places units)
    let padded := String.ofList (List.replicate (places + 1 - digits.length) '0') ++ digits
    let chars := padded.toList
    let whole := String.ofList (chars.take (chars.length - places))
    let fraction := String.ofList (chars.drop (chars.length - places))
    (if negative then "-" else "") ++ whole ++ (if places = 0 then "" else "." ++ fraction)
  | x => x.text

end Pathway.Binary64
