import Pathway.Yaml.Fault

/-!
# Tokens

The marks and scalars of a YAML text, in the order in which they stand. The ends of block
collections, which the text shows by indentation only, are tokens too.
-/

namespace Pathway.Yaml

/-- A tag as written: a handle, if it has one, and what follows. -/
structure TagText where
  handle : Option String
  suffix : String
deriving DecidableEq, Repr

inductive Token where
  | versionDirective (major : Nat)
  | tagDirective (handle start : String)
  | otherDirective
  | documentStart
  | documentEnd
  | blockSequenceStart
  | blockMappingStart
  | blockEnd
  | flowSequenceStart
  | flowSequenceEnd
  | flowMappingStart
  | flowMappingEnd
  | entry
  | flowEntry
  | key
  | value
  | alias (name : String)
  | anchor (name : String)
  | tag (text : TagText)
  | scalar (text : String) (plain : Bool)
  | textEnd
  /-- The place from which on the text has no tokens. -/
  | broken (fault : Fault)
deriving DecidableEq, Repr

end Pathway.Yaml
