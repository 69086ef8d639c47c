import Pathway.Prerequisites.Graph
import Pathway.Prerequisites.Reach
import Pathway.Prerequisites.Rounds

/-!
# Generations

Modules that require each other in a circle form one component; any other module is a component of
its own. A generation holds the components whose prerequisites all lie in earlier generations, so
evaluating generation by generation meets every prerequisite first.
-/

namespace Pathway.Graph

/-- Modules that are evaluated together, in walking order. -/
abbrev Component := List ModuleId

/-! ## Components -/

/-- The nodes as tasks that wait on their prerequisites. -/
def nodeTasks (g : Graph) : List Task := g.nodes.map fun v => ⟨v, g.requirementsOf v⟩

/-- The nodes from which and to which the given one can be reached inside the pool. -/
def classOf (g : Graph) (pool : IdSet) (v : ModuleId) : IdSet :=
  let behind := reach g.requirementsOf pool v
  (reach g.dependents pool v).filter behind.contains

/-- The classes of mutual reach among the given nodes. -/
def classes (g : Graph) (pool : IdSet) : List ModuleId → List Component
  | [] => []
  | v :: rest =>
    let mates := g.classOf pool v
    (v :: rest.filter mates.contains) :: classes g pool (rest.filter fun u => !mates.contains u)
termination_by vs => vs.length
decreasing_by
  simp only [List.length_cons, List.unattach_filter, List.unattach_attach]
  exact Nat.lt_succ_of_le (List.length_filter_le _ _)

/-- All components. Nodes behind no circle come off in rounds; the others are sorted by reach. -/
def components (g : Graph) : List Component :=
  let (settled, stuck) := Task.rounds g.nodeTasks
  let rest := stuck.map (·.id)
  (settled.flatten.map ([·]) ++ g.classes (Std.ExtTreeSet.ofList rest) rest).map
    (sortByPlace g.place)

/-- More than one module, or one that requires itself. -/
def isCyclic (g : Graph) (c : Component) : Bool :=
  1 < c.length || c.any fun v => g.hasEdge v v

/-! ## Generations -/

/-- The first member, which stands for the component. -/
def leader (c : Component) : ModuleId := c.head?.getD ""

/-- The leader of each node's component. -/
def leaders (cs : List Component) : Table ModuleId :=
  Std.ExtTreeMap.ofList (cs.flatMap fun c => c.map (·, leader c))

/-- The components as tasks that wait on the components of their prerequisites. -/
def componentTasks (g : Graph) (cs : List Component) : List Task :=
  let leaderOf := leaders cs
  cs.map fun c =>
    let needed := (c.flatMap g.requirementsOf).map fun u => leaderOf.getD u u
    ⟨leader c, (needed.filter (· != leader c)).eraseDups⟩

/-- Components by generation, each generation in walking order of the leaders. -/
def generations (g : Graph) : List (List Component) :=
  let cs := g.components
  let byLeader : Table Component := Std.ExtTreeMap.ofList (cs.map fun c => (leader c, c))
  (Task.rounds (g.componentTasks cs)).1.map fun round =>
    (sortByPlace g.place round).map fun l => byLeader.getD l [l]

end Pathway.Graph
