import Mathlib.Data.List.Flatten
import Mathlib.Data.List.Nodup
import Pathway.Prerequisites.Rounds

/-!
# What rounds do

Every task is done in one round or stays stuck. A task is done one round after the last of what it
waits on, and it stays stuck only on another that is never done.
-/

namespace Pathway.Task

variable {ts : List Task} {t : Task} {id u : String} {d : Nat}

def DoneIn (ts : List Task) (d : Nat) (id : String) : Prop :=
  ∃ round, (rounds ts).1[d]? = some round ∧ id ∈ round

/-! ## One round -/

theorem rounds_of_ready (h : ts.any isReady = true) :
    rounds ts = (ready ts :: (rounds (waiting ts)).1, (rounds (waiting ts)).2) := by
  rw [rounds, if_pos h]

theorem rounds_of_not_ready (h : ts.any isReady = false) : rounds ts = ([], ts) := by
  rw [rounds, if_neg (by simp [h])]

theorem mem_ready : id ∈ ready ts ↔ ∃ t ∈ ts, t.awaits = [] ∧ t.id = id := by
  simp [ready, isReady, and_assoc]

theorem mem_waiting : t ∈ waiting ts ↔ ∃ t' ∈ ts, t'.awaits ≠ [] ∧ strike (ready ts) t' = t := by
  simp [waiting, isReady, and_assoc]

theorem any_ready_of_doneIn (h : DoneIn ts d id) : ts.any isReady = true := by
  by_contra hn
  obtain ⟨round, hr, -⟩ := h
  rw [rounds_of_not_ready (by simpa using hn)] at hr
  cases hr

theorem doneIn_zero (h : ts.any isReady = true) : DoneIn ts 0 id ↔ id ∈ ready ts := by
  simp [DoneIn, rounds_of_ready h]

theorem doneIn_succ (h : ts.any isReady = true) :
    DoneIn ts (d + 1) id ↔ DoneIn (waiting ts) d id := by
  simp [DoneIn, rounds_of_ready h]

/-! ## Every task once -/

theorem perm_ready_waiting (ts : List Task) :
    (ready ts ++ (waiting ts).map (·.id)).Perm (ts.map (·.id)) := by
  have h : (waiting ts).map (·.id) = (ts.filter fun t => !t.isReady).map (·.id) := by
    simp [waiting, strike, Function.comp_def]
  rw [h, ready, ← List.map_append]
  exact (List.filter_append_perm isReady ts).map _

theorem perm_rounds (ts : List Task) :
    ((rounds ts).1.flatten ++ (rounds ts).2.map (·.id)).Perm (ts.map (·.id)) := by
  fun_induction rounds ts with
  | case1 ts h later stuck he ih =>
    rw [he] at ih
    rw [List.flatten_cons, List.append_assoc]
    exact (ih.append_left _).trans (perm_ready_waiting ts)
  | case2 ts h => simp

theorem mem_flatten_rounds : id ∈ (rounds ts).1.flatten ↔ ∃ d, DoneIn ts d id := by
  rw [List.mem_flatten]
  constructor
  · rintro ⟨round, hr, hm⟩
    obtain ⟨d, hd⟩ := List.mem_iff_getElem?.1 hr
    exact ⟨d, round, hd, hm⟩
  · rintro ⟨d, round, hd, hm⟩
    exact ⟨round, List.mem_of_getElem? hd, hm⟩

theorem mem_ids_of_doneIn (h : DoneIn ts d id) : id ∈ ts.map (·.id) := by
  apply (perm_rounds ts).subset
  exact List.mem_append_left _ (mem_flatten_rounds.2 ⟨d, h⟩)

theorem nodup_waiting (h : (ts.map (·.id)).Nodup) : ((waiting ts).map (·.id)).Nodup := by
  have := (perm_ready_waiting ts).nodup_iff.2 h
  exact (List.nodup_append.1 this).2.1

theorem not_mem_ready (hn : (ts.map (·.id)).Nodup) (ht : t ∈ ts) (hw : t.awaits ≠ []) :
    t.id ∉ ready ts := by
  intro h
  obtain ⟨t', ht', hr, he⟩ := mem_ready.1 h
  rw [List.inj_on_of_nodup_map hn ht' ht he] at hr
  exact hw hr

theorem doneIn_unique (hn : (ts.map (·.id)).Nodup) {d' : Nat} (h : DoneIn ts d id)
    (h' : DoneIn ts d' id) : d = d' := by
  induction d generalizing ts d' with
  | zero =>
    have hr := any_ready_of_doneIn h
    rw [doneIn_zero hr] at h
    cases d' with
    | zero => rfl
    | succ d' =>
      rw [doneIn_succ hr] at h'
      have := (perm_ready_waiting ts).nodup_iff.2 hn
      exact absurd rfl ((List.nodup_append.1 this).2.2 _ h _ (mem_ids_of_doneIn h'))
  | succ d ih =>
    have hr := any_ready_of_doneIn h
    rw [doneIn_succ hr] at h
    cases d' with
    | zero =>
      rw [doneIn_zero hr] at h'
      have := (perm_ready_waiting ts).nodup_iff.2 hn
      exact absurd rfl ((List.nodup_append.1 this).2.2 _ h' _ (mem_ids_of_doneIn h))
    | succ d' =>
      rw [doneIn_succ hr] at h'
      rw [ih (nodup_waiting hn) h h']

/-! ## The order of rounds -/

theorem mem_strike {done : List String} : u ∈ (strike done t).awaits ↔ u ∈ t.awaits ∧ u ∉ done := by
  simp [strike]

theorem doneIn_lt_of_awaits (hn : (ts.map (·.id)).Nodup) (ht : t ∈ ts) (h : DoneIn ts d t.id)
    (hu : u ∈ t.awaits) : ∃ d' < d, DoneIn ts d' u := by
  have hw : t.awaits ≠ [] := List.ne_nil_of_mem hu
  have hr := any_ready_of_doneIn h
  induction d generalizing ts t with
  | zero => exact absurd ((doneIn_zero hr).1 h) (not_mem_ready hn ht hw)
  | succ d ih =>
    rw [doneIn_succ hr] at h
    by_cases hd : u ∈ ready ts
    · exact ⟨0, by omega, (doneIn_zero hr).2 hd⟩
    · have hs : u ∈ (strike (ready ts) t).awaits := mem_strike.2 ⟨hu, hd⟩
      obtain ⟨d', hlt, hd'⟩ := ih (nodup_waiting hn) (mem_waiting.2 ⟨t, ht, hw, rfl⟩) h hs
        (List.ne_nil_of_mem hs) (any_ready_of_doneIn h)
      exact ⟨d' + 1, by omega, (doneIn_succ hr).2 hd'⟩

theorem awaits_ne_nil (hn : (ts.map (·.id)).Nodup) (ht : t ∈ ts) (h : DoneIn ts (d + 1) t.id) :
    t.awaits ≠ [] := by
  intro hw
  have h0 : DoneIn ts 0 t.id :=
    (doneIn_zero (any_ready_of_doneIn h)).2 (mem_ready.2 ⟨t, ht, hw, rfl⟩)
  cases doneIn_unique hn h h0

/-- A task that is not done in the first round waits on one of the round before its own. -/
theorem exists_awaits_doneIn (hn : (ts.map (·.id)).Nodup) (ht : t ∈ ts)
    (h : DoneIn ts (d + 1) t.id) : ∃ u ∈ t.awaits, DoneIn ts d u := by
  have hr := any_ready_of_doneIn h
  have hw := awaits_ne_nil hn ht h
  have hm : strike (ready ts) t ∈ waiting ts := mem_waiting.2 ⟨t, ht, hw, rfl⟩
  rw [doneIn_succ hr] at h
  induction d generalizing ts t with
  | zero =>
    -- struck, the task waits on nothing, so whatever it waits on is ready
    rw [doneIn_zero (any_ready_of_doneIn h)] at h
    obtain ⟨t', ht', he, hid⟩ := mem_ready.1 h
    rw [List.inj_on_of_nodup_map (nodup_waiting hn) ht' hm hid] at he
    obtain ⟨u, hu⟩ := List.exists_mem_of_ne_nil _ hw
    refine ⟨u, hu, (doneIn_zero hr).2 ?_⟩
    by_contra hd
    exact List.not_mem_nil (he ▸ mem_strike.2 ⟨hu, hd⟩)
  | succ d ih =>
    have hr' := any_ready_of_doneIn h
    have hw' := awaits_ne_nil (nodup_waiting hn) hm h
    obtain ⟨u, hu, hd⟩ := ih (nodup_waiting hn) hm ((doneIn_succ hr').1 h) hr' hw'
      (mem_waiting.2 ⟨_, hm, hw', rfl⟩)
    exact ⟨u, (mem_strike.1 hu).1, (doneIn_succ hr).2 hd⟩

/-- A task that is never done waits on another that is never done. -/
theorem exists_awaits_never_done (hn : (ts.map (·.id)).Nodup) (ht : t ∈ ts)
    (h : ∀ d, ¬ DoneIn ts d t.id) : ∃ u ∈ t.awaits, ∀ d, ¬ DoneIn ts d u := by
  fun_induction rounds ts generalizing t with
  | case1 ts hr later stuck he ih =>
    have hw : t.awaits ≠ [] := fun hw =>
      h 0 ((doneIn_zero hr).2 (mem_ready.2 ⟨t, ht, hw, rfl⟩))
    obtain ⟨u, hu, hd⟩ := ih (nodup_waiting hn) (mem_waiting.2 ⟨t, ht, hw, rfl⟩)
      fun d hd => h (d + 1) ((doneIn_succ hr).2 hd)
    obtain ⟨hu, hnot⟩ := mem_strike.1 hu
    refine ⟨u, hu, fun d => ?_⟩
    cases d with
    | zero => exact fun h0 => hnot ((doneIn_zero hr).1 h0)
    | succ d => exact fun hs => hd d ((doneIn_succ hr).1 hs)
  | case2 ts hr =>
    have hw : t.awaits ≠ [] := fun hw =>
      hr (List.any_eq_true.2 ⟨t, ht, by simp [isReady, hw]⟩)
    obtain ⟨u, hu⟩ := List.exists_mem_of_ne_nil _ hw
    exact ⟨u, hu, fun d hd => hr (any_ready_of_doneIn hd)⟩

end Pathway.Task
