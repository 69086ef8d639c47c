import Pathway.Course.Module
import Pathway.Table

/-!
# The prerequisite graph

An edge leads from a prerequisite to the module that requires it. Prerequisites that name no module
of the graph give no edge.
-/

namespace Pathway

/-- Modules and the edges between them, both in the order in which they were added. -/
structure Graph where
  nodes : List ModuleId
  positions : Table Int
  successors : Table (List ModuleId)
  predecessors : Table (List ModuleId)

namespace Graph

def empty : Graph := ⟨[], ∅, ∅, ∅⟩

/-- A module added again keeps its first place and takes the new position. -/
def addNode (g : Graph) (m : Module) : Graph :=
  { g with
    nodes := if g.positions.contains m.id then g.nodes else g.nodes ++ [m.id]
    positions := g.positions.insert m.id m.position }

def dependents (g : Graph) (id : ModuleId) : List ModuleId := g.successors.getD id []

def requirementsOf (g : Graph) (id : ModuleId) : List ModuleId := g.predecessors.getD id []

def hasEdge (g : Graph) (u v : ModuleId) : Bool := (g.dependents u).contains v

def addEdge (g : Graph) (u v : ModuleId) : Graph :=
  if g.hasEdge u v then g
  else
    { g with
      successors := g.successors.insert u (g.dependents u ++ [v])
      predecessors := g.predecessors.insert v (g.requirementsOf v ++ [u]) }

def place (g : Graph) (id : ModuleId) : Place := (g.positions.getD id 0, id)

def knownIds (ms : List Module) : IdSet := Std.ExtTreeSet.ofList (ms.map (·.id))

def ofModules (ms : List Module) : Graph :=
  let known := knownIds ms
  ms.foldl
    (fun g m => (m.prerequisites.filter known.contains).foldl (fun g p => g.addEdge p m.id) g)
    (ms.foldl addNode empty)

/-- Each module with a prerequisite that names none of them, in the order of listing. -/
def unknownPrerequisites (ms : List Module) : List (ModuleId × ModuleId) :=
  let known := knownIds ms
  ms.flatMap fun m => (m.prerequisites.filter (!known.contains ·)).map (m.id, ·)

/-- The edges by their first end. -/
def edges (g : Graph) : List (ModuleId × ModuleId) :=
  g.nodes.flatMap fun u => (g.dependents u).map (u, ·)

end Graph

end Pathway
