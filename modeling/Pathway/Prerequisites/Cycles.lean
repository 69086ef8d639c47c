import Pathway.Prerequisites.Generations

/-!
# Prerequisite cycles

`circleIn` finds one circle through a component, to report it. `elementaryCycles` lists every
circle that passes no module twice. Wherever a circle was entered, it is turned to its smallest id,
and closed by writing that id again.
-/

namespace Pathway.Graph

/-! ## Writing a circle -/

def least (ids : List ModuleId) : ModuleId :=
  match ids with
  | [] => ""
  | i :: rest => rest.foldl (fun a b => if b < a then b else a) i

/-- The same circle from its smallest id on. -/
def rotate (circle : List ModuleId) : List ModuleId :=
  let start := least circle
  circle.dropWhile (· != start) ++ circle.takeWhile (· != start)

/-- The circle with its first id again at the end. -/
def close (circle : List ModuleId) : List ModuleId := circle ++ circle.take 1

/-! ## One circle -/

/-- A node of the current path, and the edges of it that are still to be tried. -/
abbrev Frame := ModuleId × List ModuleId

def frameWork : List Frame → Nat
  | [] => 0
  | f :: fs => f.2.length + 1 + frameWork fs

/-- Depth first along the edges, until one leads back to the path. The pool holds what the search
has not met yet; the path is given from its end. -/
def search (next : ModuleId → List ModuleId) (pool : IdSet) : List Frame → Option (List ModuleId)
  | [] => none
  | (_, []) :: path => search next pool path
  | (v, w :: ws) :: path =>
    let onPath := v :: path.map (·.1)
    if onPath.contains w then some ((onPath.takeWhile (· != w)) ++ [w]).reverse
    else if pool.contains w then
      search next (pool.erase w) ((w, next w) :: (v, ws) :: path)
    else search next pool ((v, ws) :: path)
termination_by fs => (pool.size, frameWork fs)
decreasing_by
  · exact Prod.Lex.right _ (by simp [frameWork])
  · rename_i h
    exact Prod.Lex.left _ _ (IdSet.size_erase_lt h)
  · exact Prod.Lex.right _ (by simp [frameWork])

/-- One circle of a cyclic component, found from its first member on. -/
def circleIn (g : Graph) (c : Component) : List ModuleId :=
  let start := leader c
  let pool : IdSet := (Std.ExtTreeSet.ofList c).erase start
  match search g.dependents pool [(start, g.dependents start)] with
  | some circle => close (rotate circle)
  | none => close [start]

/-! ## Every circle -/

/-- The circles that go on from a path, given from its end, back to its start. -/
def circlesOn (next : ModuleId → List ModuleId) (start : ModuleId) (pool : IdSet) :
    Nat → List ModuleId → List (List ModuleId)
  | 0, _ => []
  | fuel + 1, path =>
    (path.head?.elim [] next).flatMap fun w =>
      if w == start then [path.reverse]
      else if pool.contains w && !path.contains w then circlesOn next start pool fuel (w :: path)
      else []

/-- The circles on some of the nodes, each from the first of its nodes on. -/
def circlesAmong (g : Graph) : List ModuleId → List (List ModuleId)
  | [] => []
  | start :: later =>
    let pool := g.classOf (Std.ExtTreeSet.ofList (start :: later)) start
    circlesOn g.dependents start pool g.nodes.length [start] ++ circlesAmong g later

def idsLe : List ModuleId → List ModuleId → Bool
  | [], _ => true
  | _ :: _, [] => false
  | a :: as, b :: bs => decide (a < b) || (a == b && idsLe as bs)

/-- Shorter lists first, then by the ids in order. -/
def circleLe (a b : List ModuleId) : Bool :=
  a.length < b.length || (a.length == b.length && idsLe a b)

/-- Every circle that passes no module twice. -/
def elementaryCycles (g : Graph) : List (List ModuleId) :=
  (((g.circlesAmong g.nodes).map rotate).mergeSort circleLe).map close

end Pathway.Graph
