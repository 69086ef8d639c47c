import Pathway.Evaluation.Evaluator
import Pathway.Navigation.Availability

/-!
# Navigation

What a learner can open next, and what stands in the way. Every answer rests on progressions that
are evaluated for it.
-/

namespace Pathway

/-- A module between a learner and what the learner asked for. -/
structure PendingModule where
  module : ModuleId
  name : String
  locked : Bool
  requirements : List Pending
deriving DecidableEq, Repr

/-- Whether the way is barred, and by what. -/
structure GateReport where
  locked : Bool
  modules : List PendingModule
deriving DecidableEq, Repr

structure NavigationModule where
  module : Module
  progression : Progression
  items : List (Item × Availability)
deriving DecidableEq, Repr

structure Summary where
  total : Nat
  counts : List (ModuleState × Nat)
  /-- The completed part of a hundred, if there is a module. -/
  percent : Option Binary64
  /-- The first module in reach that is not completed. -/
  recommended : Option ModuleId
deriving DecidableEq, Repr

/-! ## The prerequisite chain -/

/-- The modules of the pool that are reached from the ids on the stack, the last id first. -/
def chainFrom (pool : Table StoredModule) : List ModuleId → Except Failure (List Module)
  | [] => .ok []
  | id :: stack =>
    match _h : pool[id]? with
    | none => chainFrom pool stack
    | some stored =>
      match stored.definition.read with
      | .error e => .error e
      | .ok m => (chainFrom (pool.erase id) (m.prerequisites.reverse ++ stack)).map (m :: ·)
termination_by stack => (pool.size, stack.length)
decreasing_by
  · exact Prod.Lex.right _ (by simp)
  · refine Prod.Lex.left _ _ ?_
    have hmem : id ∈ pool := Std.ExtTreeMap.mem_iff_isSome_getElem?.2 (by rw [_h]; rfl)
    have hpos : pool.size ≠ 0 := fun h0 => by
      rw [Std.ExtTreeMap.eq_empty_iff_size_eq_zero.2 h0] at hmem
      exact Std.ExtTreeMap.not_mem_empty hmem
    rw [Std.ExtTreeMap.size_erase, if_pos (Std.ExtTreeMap.mem_iff_contains.1 hmem)]
    omega

/-- What a module requires, directly or through others, in walking order and without itself. -/
def prerequisiteChain (s : Store) (m : Module) : Except Failure (List Module) :=
  (chainFrom (s.modules.erase m.id) m.prerequisites.reverse).map (sortByPlace Module.place)

namespace Evaluator

variable (e : Evaluator) (now : Instant)

/-! ## Gates -/

/-- The modules of a chain that are not completed, each with what it still requires. -/
def unfinished (chain : List Module) (progressions : List (ModuleId × Progression)) :
    List PendingModule :=
  chain.filterMap fun m =>
    match progressions.lookup m.id with
    | some p => if p.isCompleted then none else some ⟨m.id, m.name, p.isLocked, m.pending p⟩
    | none => none

/-- What bars a module, or an item in it. A locked module is barred by the unfinished modules of
its chain, an item of a sequential module by what its own module still requires up to it. -/
def gateReport (learner : LearnerId) (id : ModuleId) (item : Option ItemId) :
    Action GateReport := do
  let m ← Action.askOrFail (·.getModule id)
  let p ← e.evaluate now learner id
  if p.isLocked then
    let chain ← Action.askOrFail fun s => prerequisiteChain s m
    let progressions ← e.evaluateAll now learner (chain.map (·.id))
    return ⟨true, unfinished chain progressions⟩
  match item with
  | none => return ⟨false, []⟩
  | some itemId =>
    if !m.sequential then return ⟨false, []⟩
    let i ← Action.ofExcept (m.itemOrFail itemId)
    if m.isReachable p i then return ⟨false, []⟩
    let requirements ← Action.ofExcept (m.pendingBefore p itemId)
    return ⟨true, [⟨m.id, m.name, false, requirements⟩]⟩

/-! ## Items -/

def itemAvailability (learner : LearnerId) (id : ModuleId) (item : ItemId) :
    Action Availability := do
  let m ← Action.askOrFail (·.getModule id)
  let i ← Action.ofExcept (m.itemOrFail item)
  let p ← e.evaluate now learner id
  return m.availability p i

def setCollapsed (learner : LearnerId) (id : ModuleId) (collapsed : Bool) :
    Action Progression := do
  let p ← e.evaluate now learner id
  if p.collapsed = collapsed then return p
  let p := { p with collapsed }
  Action.saveProgression learner id p
  return p

def setAllCollapsed (learner : LearnerId) (collapsed : Bool) : Action (List Progression) := do
  let ids ← Action.ask (·.moduleIds none)
  ids.mapM fun id => e.setCollapsed now learner id collapsed

/-- Opens an item as a learner does who follows a link to it. If the item looks locked, all modules
are evaluated again first; a collapsed module is unfolded. -/
def openItem (learner : LearnerId) (id : ModuleId) (item : ItemId) :
    Action (Progression × Availability) := do
  let mut availability ← e.itemAvailability now learner id item
  if availability = .locked then
    let _ ← e.evaluateEvery now learner
    availability ← e.itemAvailability now learner id item
  let p ← e.evaluate now learner id
  if p.collapsed then
    return (← e.setCollapsed now learner id false, availability)
  return (p, availability)

/-! ## Overviews -/

def navigationModule (m : Module) (p : Progression) : NavigationModule :=
  ⟨m, p, m.items.map fun i => (i, m.availability p i)⟩

def tree (learner : LearnerId) : Action (List NavigationModule) := do
  let progressions ← e.evaluateEvery now learner
  progressions.mapM fun (id, p) => do
    let m ← Action.askOrFail (·.getModule id)
    return navigationModule m p

end Evaluator

def percentOf (part total : Nat) : Binary64 :=
  ((Binary64.ofRatio false part total).scale 100).roundTo 1

def Summary.of (progressions : List (ModuleId × Progression)) : Summary :=
  let total := progressions.length
  let count (s : ModuleState) := progressions.countP fun q => q.2.state == s
  { total
    counts := ModuleState.all.map fun s => (s, count s)
    percent := if total = 0 then none else some (percentOf (count .completed) total)
    recommended := (progressions.find? fun q =>
      q.2.state == .started || q.2.state == .unlocked).map (·.1) }

def Evaluator.summary (e : Evaluator) (now : Instant) (learner : LearnerId) : Action Summary := do
  return Summary.of (← e.evaluateEvery now learner)

end Pathway
