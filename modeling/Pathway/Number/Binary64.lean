/-!
# Binary64 numbers

Scores and rates are IEEE 754 binary64 numbers. A finite one is a whole number of the least
positive step, two to the power -1074, so its order is the order of the integers, and every
inexact result comes out of the one rounding function `ofUnits`.
-/

namespace Pathway

/-- A binary64 number. `finite negative units` is `units` steps from zero; zero keeps its sign. -/
inductive Binary64 where
  | finite (negative : Bool) (units : Nat)
  | infinite (negative : Bool)
  | nan
deriving DecidableEq, Repr, Inhabited

namespace Binary64

/-! ## Rounding -/

def roundDiv (num den : Nat) : Nat :=
  let q := num / den
  let r := num % den
  if 2 * r < den then q
  else if den < 2 * r then q + 1
  else if q % 2 = 0 then q else q + 1

/-- The number of steps in one. -/
def one : Nat := Nat.pow 2 1074

/-- From here on a magnitude has no finite form. -/
def overflow : Nat := Nat.pow 2 2098

/-- The nearest number to `num / den` steps: 53 significant bits, and no finer than one step. -/
def ofUnits (negative : Bool) (num den : Nat) : Binary64 :=
  let q := num / den
  let step := if q < Nat.pow 2 53 then 1 else Nat.pow 2 (q.log2 - 52)
  let units := roundDiv num (den * step) * step
  if units < overflow then .finite negative units else .infinite negative

def ofRatio (negative : Bool) (num den : Nat) : Binary64 :=
  ofUnits negative (num * one) den

def ofNat (n : Nat) : Binary64 := ofRatio false n 1

def ofInt (i : Int) : Binary64 := ofRatio (decide (i < 0)) i.natAbs 1

def zero : Binary64 := .finite false 0

def digitCount (n : Nat) : Nat := (Nat.toDigits 10 n).length

/-- The nearest number to `digits · 10 ^ exponent`. Powers far outside the format are not formed. -/
def ofDecimal (negative : Bool) (digits : Nat) (exponent : Int) : Binary64 :=
  if digits = 0 then .finite negative 0
  else
    let leading := exponent + digitCount digits
    if leading > 400 then .infinite negative
    else if leading < -400 then .finite negative 0
    else if 0 ≤ exponent then ofRatio negative (digits * Nat.pow 10 exponent.toNat) 1
    else ofRatio negative digits (Nat.pow 10 (-exponent).toNat)

/-! ## Order -/

def signed (negative : Bool) (units : Nat) : Int := if negative then -units else units

/-- Numeric order. A number that is not a number is in no order with any. -/
def le : Binary64 → Binary64 → Bool
  | .nan, _ => false
  | _, .nan => false
  | .infinite true, _ => true
  | _, .infinite false => true
  | .infinite false, _ => false
  | _, .infinite true => false
  | .finite m a, .finite n b => decide (signed m a ≤ signed n b)

/-- The same number: both zeros are one, and `nan` is itself. -/
def same : Binary64 → Binary64 → Bool
  | .finite m a, .finite n b => decide (signed m a = signed n b)
  | .infinite m, .infinite n => m == n
  | .nan, .nan => true
  | _, _ => false

theorem same_refl (x : Binary64) : x.same x = true := by
  cases x <;> simp [same]

def isFinite : Binary64 → Bool
  | .finite .. => true
  | _ => false

/-- The same number, with zero in its form without a sign. -/
def dropZeroSign : Binary64 → Binary64
  | .finite true 0 => .finite false 0
  | x => x

/-! ## Arithmetic -/

def neg : Binary64 → Binary64
  | .finite n u => .finite (!n) u
  | .infinite n => .infinite (!n)
  | .nan => .nan

def add : Binary64 → Binary64 → Binary64
  | .finite m a, .finite n b =>
    let s := signed m a + signed n b
    if s = 0 then .finite (m && n) 0 else ofUnits (decide (s < 0)) s.natAbs 1
  | .infinite m, .infinite n => if m = n then .infinite m else .nan
  | .infinite m, .finite .. => .infinite m
  | .finite .., .infinite n => .infinite n
  | _, _ => .nan

def scale (x : Binary64) (n : Nat) : Binary64 :=
  match x with
  | .finite m a => ofUnits m (a * n) 1
  | .infinite m => if n = 0 then .nan else .infinite m
  | .nan => .nan

def shrink (x : Binary64) (n : Nat) : Binary64 :=
  match x with
  | .finite m a => ofUnits m a n
  | y => y

/-- The integer a finite number equals, if there is one. -/
def toInt? : Binary64 → Option Int
  | .finite n u => if u % one = 0 then some (signed n (u / one)) else none
  | _ => none

/-- The magnitude of a finite number in units of `10 ^ -places`, to the nearest, a half to even. -/
def decimals (places units : Nat) : Nat := roundDiv (units * Nat.pow 10 places) one

/-- The nearest number to the value rounded to so many decimal places. -/
def roundTo (places : Nat) : Binary64 → Binary64
  | .finite n u => ofRatio n (decimals places u) (Nat.pow 10 places)
  | y => y

def roundWhole (x : Binary64) : Binary64 := x.roundTo 0

end Binary64

namespace Number

/-! ## Words

The ranges of integers with 64 bits.
-/

/-- Signed words are below this bound, and not below its negative. -/
def signedLimit : Nat := Nat.pow 2 63

def unsignedLimit : Nat := Nat.pow 2 64

def isSignedWord (i : Int) : Bool := decide (-(signedLimit : Int) ≤ i) && decide (i < signedLimit)

def isUnsignedWord (i : Int) : Bool := decide (0 ≤ i) && decide (i < unsignedLimit)

end Number

end Pathway
