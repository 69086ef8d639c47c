/-!
# Paths

A path is a root and the parts below it. Repeated slashes and single dots vanish when a path is
read; double dots stay. Two leading slashes are a root of their own.
-/

namespace Pathway

structure Path where
  /-- Empty, one slash or two. -/
  root : String
  parts : List String
deriving DecidableEq, Repr, Inhabited

namespace Path

def rootOf (cs : List Char) : String :=
  match (cs.takeWhile (· == '/')).length with
  | 0 => ""
  | 2 => "//"
  | _ => "/"

def splitSlashes (cs : List Char) : List String :=
  (cs.splitOn '/').map String.ofList

def ofString (s : String) : Path :=
  ⟨rootOf s.toList, (splitSlashes s.toList).filter fun p => p != "" && p != "."⟩

def toString (p : Path) : String :=
  if p.root = "" ∧ p.parts = [] then "." else p.root ++ "/".intercalate p.parts

instance : ToString Path := ⟨toString⟩

def isAbsolute (p : Path) : Bool := p.root != ""

/-- The path of a name inside a directory; an absolute one stands alone. -/
def join (p q : Path) : Path :=
  if q.isAbsolute then q else ⟨p.root, p.parts ++ q.parts⟩

def child (p : Path) (name : String) : Path := ⟨p.root, p.parts ++ [name]⟩

def parent (p : Path) : Path := ⟨p.root, p.parts.dropLast⟩

/-- A path from which only double dots lead upwards. -/
def isRelativeTop (p : Path) : Bool := p.root == "" && p.parts.all (· == "..")

def name (p : Path) : String := p.parts.getLast?.getD ""

/-- The last dot of the name and what follows, if something stands on both sides of the dot. -/
def suffix (p : Path) : String :=
  let cs := p.name.toList
  let tail := (cs.reverse.takeWhile (· != '.')).reverse
  let stem := cs.length - tail.length - 1
  if tail.length = cs.length || tail.isEmpty || stem = 0 then "" else String.ofList ('.' :: tail)

end Path

end Pathway
