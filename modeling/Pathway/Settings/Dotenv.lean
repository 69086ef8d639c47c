import Pathway.Text.Basic

/-!
# Environment files

A file of lines `NAME=value`. A line may start with `export`, a value may stand in quotes, and `#`
starts a comment. A name without a value sets nothing. A line that has no such form is passed over.
In a value, `$` with a name in braces stands for the value of a variable.
-/

namespace Pathway.Dotenv

open Text

/-! ## Blanks and line ends -/

/-- A blank that does not end a line. -/
def isInline (c : Char) : Bool := isSpace c && c != '\n' && c != '\r'

def skipInline (cs : List Char) : List Char := cs.dropWhile isInline

def isLineEnd (c : Char) : Bool := c == '\n' || c == '\r'

def skipLineEnd : List Char → List Char
  | '\r' :: '\n' :: rest => rest
  | '\n' :: rest => rest
  | '\r' :: rest => rest
  | cs => cs

def skipLine (cs : List Char) : List Char := skipLineEnd (cs.dropWhile (!isLineEnd ·))

/-- Nothing but a comment may stand between here and the line end. -/
def endOfLine? (cs : List Char) : Option (List Char) :=
  let rest := match skipInline cs with
    | '#' :: more => more.dropWhile (!isLineEnd ·)
    | _ => cs
  match skipInline rest with
  | [] => some []
  | c :: more => if isLineEnd c then some (skipLineEnd (c :: more)) else none

/-! ## Values -/

/-- The text up to the closing quote, in which an escaped quote does not close. If only escaped
quotes follow, the last of them closes. -/
def spanQuoted (quote : Char) :
    List Char → List Char → Option (List Char × List Char) → Option (List Char × List Char)
  | done, '\\' :: c :: rest, last =>
    if c = quote then
      spanQuoted quote (c :: '\\' :: done) rest (some (('\\' :: done).reverse, rest))
    else spanQuoted quote ('\\' :: done) (c :: rest) last
  | done, c :: rest, last =>
    if c = quote then some (done.reverse, rest) else spanQuoted quote (c :: done) rest last
  | _, [], last => last
termination_by _ cs => cs.length

def escapes : List (Char × Char) :=
  [('\\', '\\'), ('\'', '\''), ('"', '"'), ('a', '\x07'), ('b', '\x08'), ('f', '\x0c'),
    ('n', '\n'), ('r', '\r'), ('t', '\t'), ('v', '\x0b')]

/-- In single quotes only the backslash and the quote can be escaped. -/
def singleEscapes : List (Char × Char) := [('\\', '\\'), ('\'', '\'')]

def unescape (table : List (Char × Char)) : List Char → List Char
  | '\\' :: c :: rest =>
    match table.lookup c with
    | some d => d :: unescape table rest
    | none => '\\' :: unescape table (c :: rest)
  | c :: rest => c :: unescape table rest
  | [] => []

/-- The text before a `#` that follows a blank. -/
def dropComment : List Char → List Char
  | c :: '#' :: rest => if isSpace c then [] else c :: dropComment ('#' :: rest)
  | c :: rest => c :: dropComment rest
  | [] => []

def bareValue (cs : List Char) : String :=
  String.ofList (dropEndWhile isSpace (dropComment (cs.takeWhile (!isLineEnd ·))))

def value? (cs : List Char) : Option (String × List Char) :=
  match cs with
  | '\'' :: rest =>
    (spanQuoted '\'' [] rest none).map fun p => (String.ofList (unescape singleEscapes p.1), p.2)
  | '"' :: rest =>
    (spanQuoted '"' [] rest none).map fun p => (String.ofList (unescape escapes p.1), p.2)
  | _ => some (bareValue cs, cs.dropWhile (!isLineEnd ·))

/-! ## Bindings -/

structure Binding where
  name : String
  value : Option String
deriving DecidableEq, Repr

/-- The word `export` counts only with a blank behind it. -/
def skipExport (cs : List Char) : List Char :=
  if "export".toList.isPrefixOf cs && ((cs.drop 6).head?.any isInline) then
    skipInline (cs.drop 6)
  else cs

/-- A name, bare or in single quotes, and what follows it; or where the reading stopped. -/
def name? (cs : List Char) : Option (String × List Char) :=
  match cs with
  | '\'' :: rest =>
    let name := rest.takeWhile (· != '\'')
    match rest.dropWhile (· != '\'') with
    | _ :: after => if name.isEmpty then none else some (String.ofList name, after)
    | [] => none
  | _ =>
    let ends (c : Char) := c == '=' || c == '#' || isSpace c
    let name := cs.takeWhile (!ends ·)
    if name.isEmpty then none else some (String.ofList name, cs.dropWhile (!ends ·))

/-- The binding on the current line, if it has the form of one, and the text after it. -/
def binding (cs : List Char) : Option Binding × List Char :=
  let start := skipExport cs
  if start.head? = some '#' then (none, skipLine start)
  else
    match name? start with
    | none => (none, skipLine start)
    | some (name, rest) =>
      match skipInline rest with
      | '=' :: rest =>
        let rest := skipInline rest
        match value? rest with
        | none => (none, skipLine rest)
        | some (value, after) =>
          match endOfLine? after with
          | some next => (some ⟨name, some value⟩, next)
          | none => (none, skipLine after)
      | rest =>
        match endOfLine? rest with
        | some next => (some ⟨name, none⟩, next)
        | none => (none, skipLine rest)

def bindingsFrom : Nat → List Char → List Binding
  | 0, _ => []
  | fuel + 1, cs =>
    match cs.dropWhile isSpace with
    | [] => []
    | c :: rest =>
      let (b, next) := binding (c :: rest)
      b.toList ++ bindingsFrom fuel next

def bindings (text : String) : List Binding :=
  bindingsFrom (text.length + 1) text.toList

/-! ## Variables -/

abbrev Variables := List (String × String)

/-- A reference after its opening brace: a name, and a default behind `:-`. -/
def reference? (cs : List Char) : Option ((String × String) × List Char) :=
  let isEnd (c : Char) := c == '}' || c == ':'
  let name := String.ofList (cs.takeWhile (!isEnd ·))
  match cs.dropWhile (!isEnd ·) with
  | '}' :: rest => some ((name, ""), rest)
  | ':' :: '-' :: rest =>
    match rest.dropWhile (· != '}') with
    | _ :: after => some ((name, String.ofList (rest.takeWhile (· != '}'))), after)
    | [] => none
  | _ => none

def substitute (lookup : String → Option String) : Nat → List Char → String
  | 0, _ => ""
  | _ + 1, [] => ""
  | fuel + 1, c :: rest =>
    match c, rest with
    | '$', '\x7b' :: body =>
      match reference? body with
      | some ((name, default), after) =>
        (lookup name).getD default ++ substitute lookup fuel after
      | none => String.singleton c ++ substitute lookup fuel rest
    | _, _ => String.singleton c ++ substitute lookup fuel rest

/-- The last value of a variable; a name that was set to nothing counts as empty. -/
def lookup (environment : Variables) (earlier : List Binding) (name : String) : Option String :=
  match environment.lookup name with
  | some v => some v
  | none => (earlier.reverse.find? (·.name == name)).map fun b => b.value.getD ""

/-- The bindings with their references replaced, each by what is set before it. -/
def resolve (environment : Variables) (bs : List Binding) : List Binding :=
  bs.foldl
    (fun done b =>
      done ++ [{ b with
        value := b.value.map fun v =>
          substitute (lookup environment done) (v.length + 1) v.toList }])
    []

/-- The environment with what the file sets. What the environment has already, it keeps. -/
def extend (environment : Variables) (text : String) : Variables :=
  let bs := resolve environment (bindings text)
  let last (name : String) := (bs.reverse.find? (·.name == name)).bind (·.value)
  let names := (bs.map (·.name)).eraseDups.filter fun n => (environment.lookup n).isNone
  environment ++ names.filterMap fun n => (last n).map (n, ·)

end Pathway.Dotenv
