import Pathway.Files.Path
import Pathway.Store.Basic

/-!
# File trees

The files a command can see, by path. A directory is there if it is listed, or if something in it
is. Double dots lead back to the directory before, which has to be there.
-/

namespace Pathway

inductive FileEntry where
  | directory
  | file (bytes : List UInt8)
  | database (store : Store)

structure FileTree where
  /-- The files by path; of two entries with one path the first counts. -/
  entries : List (Path × FileEntry)

namespace FileTree

def empty : FileTree := ⟨[]⟩

/-- What stands at a path without double dots. -/
def entryAt (t : FileTree) (p : Path) : Option FileEntry :=
  match t.entries.find? (·.1 == p) with
  | some (_, entry) => some entry
  | none =>
    let holds (q : Path) : Bool := q.root == p.root && p.parts.isPrefixOf q.parts
    if p.parts.isEmpty || t.entries.any (holds ·.1) then some .directory else none

/-- The path without its double dots, if every directory on the way is there. -/
def resolve (t : FileTree) (p : Path) : Option Path :=
  p.parts.foldlM
    (fun q part =>
      match t.entryAt q, part with
      | some .directory, ".." => some (if q.isRelativeTop then q.child ".." else q.parent)
      | some .directory, _ => some (q.child part)
      | _, _ => none)
    ⟨p.root, []⟩

def find? (t : FileTree) (p : Path) : Option FileEntry := (t.resolve p).bind t.entryAt

def contains (t : FileTree) (p : Path) : Bool := (t.find? p).isSome

def put (t : FileTree) (p : Path) (entry : FileEntry) : FileTree :=
  let p := (t.resolve p).getD p
  ⟨(p, entry) :: t.entries.filter (·.1 != p)⟩

def namesIn (t : FileTree) (p : Path) : List String :=
  let p := (t.resolve p).getD p
  let names := t.entries.filterMap fun (q, _) =>
    if q.root == p.root && p.parts.isPrefixOf q.parts then q.parts[p.parts.length]? else none
  names.eraseDups.mergeSort fun a b => decide (a ≤ b)

def filesIn (t : FileTree) (p : Path) : List (String × List UInt8) :=
  (t.namesIn p).filterMap fun name =>
    match t.find? (p.child name) with
    | some (.file bytes) => some (name, bytes)
    | _ => none

def removeDirectory (t : FileTree) (p : Path) : FileTree :=
  let p := (t.resolve p).getD p
  ⟨t.entries.filter fun (q, _) => !(q.root == p.root && p.parts.isPrefixOf q.parts)⟩

end FileTree

end Pathway
