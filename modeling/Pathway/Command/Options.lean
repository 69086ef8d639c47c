import Pathway.Number.Reading
import Pathway.Text.Basic

/-!
# Options

The words after the name of a command are options and their values. An option may be shortened as
long as only one has its start, and its value may follow it as the next word or behind an equals
sign. Two dashes end the options.
-/

namespace Pathway.Options

inductive Kind where
  | flag
  | text
  | whole
  | number
  | choice (names : List String)
  /-- The options are asked for. -/
  | help
deriving DecidableEq, Repr

/-- An option that a command knows, by its name with the dashes. -/
structure Known where
  name : String
  kind : Kind
  required : Bool
deriving DecidableEq, Repr

inductive Value where
  | present
  | text (s : String)
  | whole (i : Int)
  | number (x : Binary64)
deriving DecidableEq, Repr

abbrev Given := List (String × Value)

/-! ## Faults -/

inductive Fault where
  | ambiguous (word : String) (names : List String)
  | noValue (name : String)
  | unwantedValue (name value : String)
  | noWhole (name value : String)
  | noNumber (name value : String)
  | noChoice (name value : String) (choices : List String)
  | missing (names : List String)
  | unknown (words : List String)
  /-- A rule of the command itself. -/
  | rule (text : String)
  /-- No fault, but nothing to do either: the options are asked for. -/
  | helpAsked
deriving DecidableEq, Repr

def Fault.message : Fault → String
  | .ambiguous word names =>
    s!"ambiguous option: {word} could match " ++ ", ".intercalate names
  | .noValue name => s!"argument {name}: expected one argument"
  | .unwantedValue name value =>
    s!"argument {name}: ignored explicit argument " ++ Text.quoted value
  | .noWhole name value => s!"argument {name}: invalid int value: " ++ Text.quoted value
  | .noNumber name value => s!"argument {name}: invalid float value: " ++ Text.quoted value
  | .noChoice name value choices =>
    s!"argument {name}: invalid choice: " ++ Text.quoted value ++ " (choose from "
      ++ ", ".intercalate (choices.map Text.quoted) ++ ")"
  | .missing names => "the following arguments are required: " ++ ", ".intercalate names
  | .unknown words => "unrecognized arguments: " ++ " ".intercalate words
  | .rule text => text
  | .helpAsked => ""

/-! ## Words -/

inductive Word where
  | plain (text : String)
  | option (known : Known) (value : Option String)
  /-- A word that is neither an option nor the value of one. -/
  | stray (text : String)
deriving DecidableEq, Repr

def helpOptions : List Known := [⟨"-h", .help, false⟩, ⟨"--help", .help, false⟩]

/-- A number below zero is no option. -/
def isNegativeNumber (cs : List Char) : Bool :=
  match cs with
  | '-' :: body =>
    let digits := body.takeWhile Char.isDigit
    match body.dropWhile Char.isDigit with
    | [] => !digits.isEmpty
    | '.' :: places => !places.isEmpty && places.all Char.isDigit
    | _ => false
  | _ => false

def splitValue (w : String) : String × Option String :=
  let cs := w.toList
  match cs.dropWhile (· != '=') with
  | _ :: value => (String.ofList (cs.takeWhile (· != '=')), some (String.ofList value))
  | [] => (w, none)

/-- The options that a shortened word may stand for, each with the value behind it. -/
def candidates (known : List Known) (w : String) : List (Known × Option String) :=
  let (stem, value) := splitValue w
  if w.startsWith "--" then
    (known.filter fun k => stem.toList.isPrefixOf k.name.toList).map (·, value)
  else
    let short := String.ofList (w.toList.take 2)
    (known.filter (·.name == short)).map (·, some (String.ofList (w.toList.drop 2)))

def wordOf (known : List Known) (w : String) : Except Fault Word :=
  let exact (name : String) := known.find? (·.name == name)
  let (stem, value) := splitValue w
  if !w.startsWith "-" || w == "-" then .ok (.plain w)
  else
    match exact w, value.bind fun _ => exact stem with
    | some k, _ => .ok (.option k none)
    | none, some k => .ok (.option k value)
    | none, none =>
      match candidates known w with
      | [(k, v)] => .ok (.option k v)
      | [] => .ok (if isNegativeNumber w.toList || w.contains ' ' then .plain w else .stray w)
      | ks => .error (.ambiguous w (ks.map (·.1.name)))

/-- The words as they are meant. Behind two dashes all are plain. -/
def wordsOf (known : List Known) : List String → Except Fault (List Word)
  | [] => .ok []
  | w :: rest =>
    if w == "--" then .ok (.stray w :: rest.map .plain)
    else do
      let word ← wordOf known w
      return word :: (← wordsOf known rest)

/-! ## Reading -/

/-- The value that a word gives an option; what follows a short option is more of its kind. -/
def valueOf (k : Known) (s : String) : Except Fault Value :=
  match k.kind with
  | .text => .ok (.text s)
  | .whole =>
    match Number.plainWhole? s with
    | some i =>
      if Number.maxDigits < (s.toList.filter Char.isDigit).length then .error (.noWhole k.name s)
      else .ok (.whole i)
    | none => .error (.noWhole k.name s)
  | .number =>
    match Number.plainDecimal? s with
    | some x => .ok (.number x)
    | none => .error (.noNumber k.name s)
  | .choice names => if s ∈ names then .ok (.text s) else .error (.noChoice k.name s names)
  | .flag => .error (.unwantedValue k.name s)
  | .help => .error (if k.name == "-h" then .helpAsked else .unwantedValue "-h/--help" s)

/-- The options with their values, and the words that are neither. -/
def pairUp : List Word → Except Fault (Given × List String)
  | [] => .ok ([], [])
  | .plain s :: rest | .stray s :: rest => do
    let (given, others) ← pairUp rest
    return (given, s :: others)
  | .option k (some s) :: rest => do
    let v ← valueOf k s
    let (given, others) ← pairUp rest
    return ((k.name, v) :: given, others)
  | .option k none :: rest =>
    if k.kind = .help then .error .helpAsked
    else if k.kind = .flag then do
      let (given, others) ← pairUp rest
      return ((k.name, .present) :: given, others)
    else
      match rest with
      | .plain s :: rest => do
        let v ← valueOf k s
        let (given, others) ← pairUp rest
        return ((k.name, v) :: given, others)
      | _ => .error (.noValue k.name)

def read (known : List Known) (words : List String) : Except Fault Given := do
  let (given, others) ← pairUp (← wordsOf (helpOptions ++ known) words)
  let missing := known.filter fun k => k.required && (given.lookup k.name).isNone
  if !missing.isEmpty then throw (.missing (missing.map (·.name)))
  if !others.isEmpty then throw (.unknown others)
  return given

/-! ## Values -/

namespace Given

def has (g : Given) (name : String) : Bool := g.any (·.1 == name)

def values (g : Given) (name : String) : List Value := (g.filter (·.1 == name)).map (·.2)

def texts (g : Given) (name : String) : List String :=
  (g.values name).filterMap fun v =>
    match v with
    | .text s => some s
    | _ => none

def text? (g : Given) (name : String) : Option String := (g.texts name).getLast?

/-- As `text?`, but an empty text does not count. -/
def word? (g : Given) (name : String) : Option String := (g.text? name).filter (· != "")

def whole? (g : Given) (name : String) : Option Int :=
  match (g.values name).getLast? with
  | some (.whole i) => some i
  | _ => none

def number? (g : Given) (name : String) : Option Binary64 :=
  match (g.values name).getLast? with
  | some (.number x) => some x
  | _ => none

end Given

end Pathway.Options
