/-!
# Rounds

Tasks wait on each other. In each round, all that wait on nothing any more are done, and are struck
from the lists of the others. Tasks that wait on each other in a circle stay stuck.
-/

namespace Pathway

structure Task where
  id : String
  awaits : List String

namespace Task

def isReady (t : Task) : Bool := t.awaits.isEmpty

def strike (done : List String) (t : Task) : Task :=
  { t with awaits := t.awaits.filter (!done.contains ·) }

def ready (ts : List Task) : List String := (ts.filter isReady).map (·.id)

def waiting (ts : List Task) : List Task :=
  (ts.filter (!·.isReady)).map (strike (ready ts))

theorem length_waiting_lt {ts : List Task} (h : ts.any isReady = true) :
    (waiting ts).length < ts.length := by
  obtain ⟨t, ht, hr⟩ := List.any_eq_true.1 h
  rw [waiting, List.length_map]
  exact List.length_filter_lt_length_iff_exists.2 ⟨t, ht, by simp [hr]⟩

/-- The tasks of each round, and the tasks that stay stuck. -/
def rounds (ts : List Task) : List (List String) × List Task :=
  if ts.any isReady then
    let (later, stuck) := rounds (waiting ts)
    (ready ts :: later, stuck)
  else ([], ts)
termination_by ts.length
decreasing_by
  rename_i h
  exact length_waiting_lt h

end Task

end Pathway
