import Pathway.Number.Reading
import Pathway.Yaml.Tag

/-!
# Values of scalars

What the text of a scalar means under its tag. A tag may be written where the text does not have
the form, so every reading can fail.
-/

namespace Pathway.Yaml

open Number

namespace Value

def dropGaps (text : String) : List Char := text.toList.filter (· != '_')

/-- The part of a mixed number after the groups of sixty before it. -/
def inSixties (parts : List Int) : Int := parts.foldl (fun n part => n * 60 + part) 0

/-! ## Integers -/

def digit? (base : Nat) (c : Char) : Option Nat :=
  let n :=
    if c.isDigit then c.toNat - '0'.toNat
    else if 'a' ≤ c ∧ c ≤ 'z' then c.toNat - 'a'.toNat + 10
    else if 'A' ≤ c ∧ c ≤ 'Z' then c.toNat - 'A'.toNat + 10
    else base
  if n < base then some n else none

/-- The mark of a base may stand before its digits. -/
def dropBaseMark (base : Nat) (cs : List Char) : List Char :=
  let mark := match base with
    | 2 => 'b'
    | 8 => 'o'
    | _ => 'x'
  match cs with
  | '0' :: m :: digits => if base ≠ 10 ∧ m.toLower = mark then digits else cs
  | _ => cs

/-- An integer to a base, in blanks and with a sign of its own. -/
def whole (base : Nat) (cs : List Char) : Except Fault Int :=
  let (negative, body) := spanSign (Text.trimBy Text.isSpace cs)
  let digits := dropBaseMark base body
  match digits.mapM (digit? base) with
  | none | some [] => .error (.badWhole base (String.ofList cs))
  | some ns =>
    if base = 10 ∧ maxDigits < ns.length then .error (.oversizedInteger ns.length)
    else
      let n := ns.foldl (fun n d => n * base + d) 0
      .ok (if negative then -(n : Int) else n)

/-- The magnitude, by the mark it starts with. -/
def magnitude (cs : List Char) : Except Fault Int :=
  match cs with
  | [] => .error .emptyNumber
  | ['0'] => .ok 0
  | '0' :: 'b' :: digits => whole 2 digits
  | '0' :: 'x' :: digits => whole 16 digits
  | '0' :: _ => whole 8 cs
  | _ =>
    if cs.contains ':' then inSixties <$> (cs.splitOn ':').mapM (whole 10) else whole 10 cs

def int (text : String) : Except Fault Document := do
  let cs := dropGaps text
  if cs.isEmpty then throw .emptyNumber
  let (negative, body) := spanSign cs
  let n ← magnitude body
  return .int (if negative then -n else n)

/-! ## Other numbers -/

def decimal (cs : List Char) : Except Fault Binary64 :=
  match plainDecimal? (String.ofList cs) with
  | some x => .ok x
  | none => .error (.badReal (String.ofList cs))

/-- The sum of the parts, each times its power of sixty, from the last part on. -/
def realInSixties (parts : List Binary64) : Binary64 :=
  (parts.reverse.foldl (fun (sum, base) x => (sum.add (x.scale base), base * 60))
    (Binary64.zero, 1)).1

def unsigned (cs : List Char) : Except Fault Binary64 :=
  if cs = ".inf".toList then .ok (.infinite false)
  else if cs = ".nan".toList then .ok .nan
  else if cs.contains ':' then realInSixties <$> (cs.splitOn ':').mapM decimal
  else decimal cs

def float (text : String) : Except Fault Document := do
  let cs := (dropGaps text).map Char.toLower
  if cs.isEmpty then throw .emptyNumber
  let (negative, body) := spanSign cs
  let x ← unsigned body
  return .real (if negative then x.neg else x)

/-! ## Truth values, moments and bytes -/

def bool (text : String) : Except Fault Document :=
  let word := String.ofList (text.toList.map Char.toLower)
  if word ∈ Tag.trueWords then .ok (.bool true)
  else if word ∈ Tag.falseWords then .ok (.bool false)
  else .error (.badFlag word)

def timestamp (text : String) : Except Fault Document :=
  let cs := text.toList
  match Stamp.read? (if cs.getLast? = some '\n' then cs.dropLast else cs) with
  | some s => s.document
  | none => .error .badTimestamp

def sixBits? (c : Char) : Option Nat :=
  if 'A' ≤ c ∧ c ≤ 'Z' then some (c.toNat - 'A'.toNat)
  else if 'a' ≤ c ∧ c ≤ 'z' then some (c.toNat - 'a'.toNat + 26)
  else if c.isDigit then some (c.toNat - '0'.toNat + 52)
  else if c = '+' then some 62
  else if c = '/' then some 63
  else none

/-- Bytes in base 64. `count` is the place in the group of four, `bits` what is left of the last
character and `pads` the run of fill marks. Other characters are skipped. -/
def base64 : List Char → (count bits pads : Nat) → List UInt8 → Except Fault (List UInt8)
  | [], count, _, _, done => if count = 0 then .ok done.reverse else .error .malformed
  | '=' :: rest, count, bits, pads, done =>
    if 2 ≤ count ∧ 4 ≤ count + pads + 1 then .ok done.reverse
    else base64 rest count bits (if 2 ≤ count then pads + 1 else pads) done
  | c :: rest, count, bits, pads, done =>
    match sixBits? c with
    | none => base64 rest count bits pads done
    | some n =>
      match count with
      | 0 => base64 rest 1 n 0 done
      | 1 => base64 rest 2 (n % 16) 0 ((bits * 4 + n / 16).toUInt8 :: done)
      | 2 => base64 rest 3 (n % 4) 0 ((bits * 16 + n / 4).toUInt8 :: done)
      | _ => base64 rest 0 0 0 ((bits * 64 + n).toUInt8 :: done)

def binary (text : String) : Except Fault Document :=
  if text.toList.all (·.toNat < 128) then Document.bytes <$> base64 text.toList 0 0 0 []
  else .error .malformed

/-- The value of a scalar under a tag that is not one of collections. -/
def ofScalar (tag : Tag) (text : String) : Except Fault Document :=
  match tag with
  | .null => .ok .null
  | .bool => bool text
  | .int => int text
  | .float => float text
  | .binary => binary text
  | .timestamp => timestamp text
  | .str => .ok (.text text)
  | _ => .error .malformed

end Value

end Pathway.Yaml
