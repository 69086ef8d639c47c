import Pathway.Yaml.Value

/-!
# Nodes

A node is a scalar, a sequence or a mapping, and keeps what it means: its document, or the fault
that stands for it. Documents are built level by level, so of several faults the least deep one
counts, and of equally deep ones the first. Since the meaning is kept, a node that is referred to
many times is worked out once.
-/

namespace Pathway.Yaml

/-- What a node means. -/
structure Meaning where
  document : Document
  /-- A fault inside and how deep it lies. -/
  fault : Option (Nat × Fault)
  /-- The text that the node stands for as a scalar. -/
  text : Option String
deriving Inhabited

inductive Node where
  | scalar (tag : Tag) (text : String)
  | sequence (tag : Tag) (items : List Node) (meaning : Meaning)
  /-- `merged` holds the entries with those taken over from other mappings, unless one of them is no
  mapping. -/
  | mapping (tag : Tag) (entries : List (Node × Node)) (merged : Option (List (Node × Node)))
      (meaning : Meaning)
deriving Inhabited

/-! ## Faults -/

namespace Meaning

def ofFault (depth : Nat) (f : Fault) : Meaning := ⟨.null, some (depth, f), none⟩

def ofDocument (d : Document) : Meaning := ⟨d, none, none⟩

/-- The least deep fault; the first of equally deep ones. -/
def earliest (ms : List Meaning) : Option (Nat × Fault) :=
  ms.foldl (fun found m =>
    match found, m.fault with
    | some f, some g => if g.1 < f.1 then some g else some f
    | none, g => g
    | f, none => f) none

/-- A collection of documents, one level above them. -/
def around (parts : List Meaning) (d : Document) : Meaning :=
  ⟨d, (earliest parts).map fun f => (f.1 + 1, f.2), none⟩

end Meaning

namespace Node

def tag : Node → Tag
  | scalar t _ => t
  | sequence t .. => t
  | mapping t .. => t

/-! ## Meaning -/

/-- The faults of a node whose tag says another kind. -/
def mismatch (t : Tag) : Meaning := .ofFault (if t.isCollection then 1 else 0) .malformed

def scalarMeaning (t : Tag) (text : String) : Meaning :=
  if t.isCollection then mismatch t
  else
    match Value.ofScalar t text with
    | .ok d => ⟨d, none, some text⟩
    | .error f => ⟨.null, some (0, f), some text⟩

def meaning : Node → Meaning
  | scalar t text => scalarMeaning t text
  | sequence _ _ m => m
  | mapping _ _ _ m => m

/-- A key has to be a scalar; the mark of default values is a key like any other. -/
def keyMeaning (n : Node) : Meaning :=
  if n.tag.isCollection then .ofFault 0 .malformed
  else if n.tag = .value then
    match n.meaning.text with
    | some s => .ofDocument (.text s)
    | none => .ofFault 0 .malformed
  else n.meaning

/-- The one pair that a mapping holds. -/
def pairMeanings : Node → List Meaning
  | mapping _ [(k, v)] _ _ => [k.meaning, v.meaning]
  | _ => [.ofFault 0 .malformed]

def pairDocument (n : Node) : Document := .list (n.pairMeanings.map (·.document))

/-- The meaning of a mapping by its entries. -/
def entriesMeaning (make : List (Document × Document) → Document) :
    Option (List (Node × Node)) → Meaning
  | none => .ofFault 1 .malformed
  | some es =>
    let parts := es.map fun (k, v) => (k.keyMeaning, v.meaning)
    .around (parts.flatMap fun (k, v) => [k, v])
      (make (parts.map fun (k, v) => (k.document, v.document)))

/-! ## Making nodes -/

/-- A plain scalar, a quoted one, or one with a tag; the bare tag asks for the tag of the text. -/
def ofText (tagName : Option String) (plain : Bool) (text : String) : Node :=
  match tagName with
  | none => scalar (if plain then .ofText text else .str) text
  | some "!" => scalar (.ofText text) text
  | some name => scalar (.ofName name) text

def empty : Node := scalar .null ""

/-- The tag of a collection; without a name it is that of its kind. -/
def collectionTag (kind : Tag) : Option String → Tag
  | none => kind
  | some "!" => kind
  | some name => .ofName name

def ofItems (tagName : Option String) (items : List Node) : Node :=
  let t := collectionTag .seq tagName
  sequence t items <|
    match t with
    | .seq => .around (items.map meaning) (.list (items.map (·.meaning.document)))
    | .omap | .pairs => .around (items.flatMap pairMeanings) (.list (items.map pairDocument))
    | _ => mismatch t

def mergedEntries : Node → Option (List (Node × Node))
  | mapping _ _ merged _ => merged
  | _ => none

/-- The entries a mapping takes over from the value of a merge key. Of several mappings the first
has the last word. -/
def taken : Node → Option (List (Node × Node))
  | sequence _ items _ =>
    (items.mapM mergedEntries).map fun (lists : List (List (Node × Node))) => lists.reverse.flatten
  | n => n.mergedEntries

/-- What is taken over stands before a mapping's own entries, which thus have the last word. -/
def merge (entries : List (Node × Node)) : Option (List (Node × Node)) :=
  let (merges, own) := entries.partition fun e => e.1.tag = .merge
  (merges.mapM fun (e : Node × Node) => e.2.taken).map fun (lists : List (List (Node × Node))) =>
    lists.flatten ++ own

/-- The text of the entry with the mark of default values. -/
def defaultText (entries : List (Node × Node)) : Option String :=
  (entries.find? fun e => e.1.tag = .value).bind fun e => e.2.meaning.text

def ofEntries (tagName : Option String) (entries : List (Node × Node)) : Node :=
  let t := collectionTag .map tagName
  let merged := merge entries
  let text := defaultText entries
  let m := match t with
    | .map => entriesMeaning .map merged
    | .set => entriesMeaning (fun es => .list (es.map Prod.fst)) merged
    | _ =>
      match text with
      | some s => scalarMeaning t s
      | none => mismatch t
  mapping t entries merged { m with text }

/-- The document of a node, or the fault inside it that counts. -/
def document (n : Node) : Except Fault Document :=
  match n.meaning.fault with
  | some (_, f) => .error f
  | none => .ok n.meaning.document

end Node

end Pathway.Yaml
