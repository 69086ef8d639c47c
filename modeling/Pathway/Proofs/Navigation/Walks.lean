import Mathlib.Data.Finset.Card
import Mathlib.Logic.Relation
import Pathway.Proofs.Evaluation.Agreement
import Pathway.Proofs.Navigation.Chain

/-!
# Walks along prerequisites

A closure and a chain are each gathered by a loop, one step after the other. The one loop reads a
module when it comes upon its id, and looks into it later; the other one stacks up ids, and reads a
module when it takes its id off. In no store does either go on forever, and each comes to the one
end that the closure or the chain is taken from.
-/

open Relation

namespace Pathway

variable {s : Store} {id origin : ModuleId} {ids pending : List ModuleId} {m : Module}
  {found new later stack all ms chain : List Module} {pool rest : Table StoredModule} {f : Failure}

/-! ## Coming to an end -/

/-- However far a way from `x` has come, it leads on to `y` and stops there. -/
structure ComesTo {α : Type} (r : α → α → Prop) (x y : α) : Prop where
  stops : ∀ z, ¬ r y z
  leads : ∀ z, ReflTransGen r x z → ReflTransGen r z y

theorem comesTo_of_rightUnique {α : Type} {r : α → α → Prop} {x y : α} (hu : Relator.RightUnique r)
    (h : ReflTransGen r x y) (hs : ∀ z, ¬ r y z) : ComesTo r x y where
  stops := hs
  leads z hz := by
    rcases h.total_of_right_unique hu hz with hyz | hzy
    · rcases ReflTransGen.cases_head hyz with rfl | ⟨w, hw, -⟩
      · exact .refl
      · exact absurd hw (hs w)
    · exact hzy

theorem ComesTo.unique {α : Type} {r : α → α → Prop} {x y z : α} (hy : ComesTo r x y)
    (hz : ComesTo r x z) : y = z := by
  rcases ReflTransGen.cases_head (hz.leads y (hy.leads x .refl)) with h | ⟨w, hw, -⟩
  · exact h
  · exact absurd hw (hy.stops w)

/-! ## What has not been found yet -/

/-- How many modules the store knows besides those that are found. -/
def Store.unseen (s : Store) (found : List Module) : Nat :=
  (s.modules.keys.toFinset.filter (· ∉ found.map (·.id))).card

theorem unseen_append_lt (hid : m.id ∉ found.map (·.id)) (hm : s.getModule m.id = .ok m) :
    s.unseen (found ++ [m]) < s.unseen found := by
  refine Finset.card_lt_card (Finset.ssubset_iff_of_subset ?_ |>.2 ⟨m.id, ?_, ?_⟩)
  · intro i hi
    rw [Finset.mem_filter] at hi ⊢
    refine ⟨hi.1, fun h => hi.2 ?_⟩
    rw [List.map_append]
    exact List.mem_append_left _ h
  · have hkey : m.id ∈ s.modules.keys :=
      Std.ExtTreeMap.mem_keys.2 (Store.mem_modules.2 (Store.hasModule_of_getModule hm))
    exact Finset.mem_filter.2 ⟨List.mem_toFinset.2 hkey, hid⟩
  · simp

/-- The pool holds what the store holds, but for the ids that were taken. -/
def Store.Without (s : Store) (taken : List ModuleId) (pool : Table StoredModule) : Prop :=
  ∀ id, pool[id]? = if id ∈ taken then none else s.modules[id]?

namespace Store.Without

variable {taken : List ModuleId} {stored : StoredModule}

theorem nil (s : Store) : s.Without [] s.modules := fun _ => (if_neg List.not_mem_nil).symm

theorem erase (h : s.Without taken pool) (id : ModuleId) :
    s.Without (taken ++ [id]) (pool.erase id) := by
  intro i
  rw [Table.getElem?_erase, h i]
  simp only [List.mem_append, List.mem_singleton]
  grind

theorem foldl_erase (h : s.Without taken pool) (ms : List Module) :
    s.Without (taken ++ ms.map (·.id)) (ms.foldl (fun t m => t.erase m.id) pool) := by
  induction ms generalizing taken pool with
  | nil => simpa using h
  | cons m ms ih => simpa using ih (h.erase m.id)

theorem passed (h : s.Without taken pool) (hn : pool[id]? = none) :
    id ∈ taken ∨ s.hasModule id = false := by
  rw [h id] at hn
  split at hn
  · next hid => exact Or.inl hid
  · rw [← Option.not_isSome_iff_eq_none, Std.ExtTreeMap.isSome_getElem?_eq_contains,
      ← Store.hasModule_eq] at hn
    exact Or.inr (Bool.eq_false_iff.2 hn)

theorem known (h : s.Without taken pool) (hs : pool[id]? = some stored) :
    id ∉ taken ∧ s.hasModule id = true ∧ s.getModule id = stored.definition.read := by
  rw [h id] at hs
  split at hs
  · cases hs
  · next hid => exact ⟨hid, Store.hasModule_iff_stored.2 ⟨stored, hs⟩, Store.getModule_of_stored hs⟩

end Store.Without

theorem not_passed (hid : id ∉ ids) (hk : s.hasModule id = true) :
    ¬ (id ∈ ids ∨ s.hasModule id = false) := by
  rintro (h | h)
  · exact hid h
  · cases h.symm.trans hk

/-! ## Gathering a closure -/

/-- The modules found so far, the ids that are left of the module looked into, and the modules that
are still to be looked into, the next one first. -/
structure Gathering where
  found : List Module
  ids : List ModuleId
  pending : List Module

/-- An id that is found already or not known is passed over. A module that is found is to be looked
into, the one found last before the others. -/
inductive Store.Gathers (s : Store) : Gathering → Gathering → Prop
  | pass {id : ModuleId} {ids : List ModuleId} {found pending : List Module} :
      id ∈ found.map (·.id) ∨ s.hasModule id = false →
      s.Gathers ⟨found, id :: ids, pending⟩ ⟨found, ids, pending⟩
  | find {id : ModuleId} {ids : List ModuleId} {found pending : List Module} {m : Module} :
      id ∉ found.map (·.id) → s.getModule id = .ok m →
      s.Gathers ⟨found, id :: ids, pending⟩ ⟨found ++ [m], ids, m :: pending⟩
  | look {found pending : List Module} {m : Module} :
      s.Gathers ⟨found, [], m :: pending⟩ ⟨found, m.prerequisites, pending⟩

/-- An id has come up that is neither found nor can be read. -/
def Gathering.StuckAt (s : Store) (f : Failure) (x : Gathering) : Prop :=
  ∃ id ids, x.ids = id :: ids ∧ id ∉ x.found.map (·.id) ∧ s.hasModule id = true ∧
    s.getModule id = .error f

/-- A step finds a module, or takes one off those to be looked into, or passes over an id. -/
theorem wellFounded_gathers (s : Store) : WellFounded fun y x => s.Gathers x y := by
  refine Subrelation.wf (r := InvImage (Prod.Lex (· < ·) (Prod.Lex (· < ·) (· < ·)))
    fun x : Gathering => (s.unseen x.found, x.pending.length, x.ids.length)) ?_
    (InvImage.wf _ (WellFounded.prod_lex Nat.lt_wfRel.wf
      (WellFounded.prod_lex Nat.lt_wfRel.wf Nat.lt_wfRel.wf)))
  intro y x h
  cases h with
  | pass => exact .right _ (.right _ (Nat.lt_succ_self _))
  | find hid hm =>
    obtain rfl := Store.id_of_getModule hm
    exact .left _ _ (unseen_append_lt hid hm)
  | look => exact .right _ (.left _ _ (Nat.lt_succ_self _))

theorem rightUnique_gathers (s : Store) : Relator.RightUnique s.Gathers := by
  intro x y z hy hz
  cases hy with
  | pass h =>
    cases hz with
    | pass _ => rfl
    | find hid hm => exact absurd h (not_passed hid (Store.hasModule_of_getModule hm))
  | find hid hm =>
    cases hz with
    | pass h => exact absurd h (not_passed hid (Store.hasModule_of_getModule hm))
    | find _ hm' =>
      cases hm.symm.trans hm'
      rfl
  | look =>
    cases hz
    rfl

theorem not_gathers_end {y : Gathering} : ¬ s.Gathers ⟨found, [], []⟩ y := nofun

theorem not_gathers_stuck {x y : Gathering} (h : x.StuckAt s f) : ¬ s.Gathers x y := by
  obtain ⟨id, ids, hids, hnew, hk, hf⟩ := h
  intro hxy
  cases hxy with
  | pass h =>
    cases hids
    exact not_passed hnew hk h
  | find _ hm =>
    cases hids
    cases hm.symm.trans hf
  | look => cases hids

/-! ### The loop and the closure -/

theorem gathers_of_draw (stack : List Module) (hp : s.Without (found.map (·.id)) pool)
    (h : draw pool ids = .ok (new, rest)) :
    ReflTransGen s.Gathers ⟨found, ids, stack⟩ ⟨found ++ new, [], new.reverse ++ stack⟩ ∧
      s.Without ((found ++ new).map (·.id)) rest := by
  fun_induction draw pool ids generalizing found stack new rest with
  | case1 pool =>
    cases h
    rw [List.append_nil]
    exact ⟨.refl, hp⟩
  | case2 pool id ids hn ih =>
    obtain ⟨hsteps, hrest⟩ := ih stack hp h
    exact ⟨.head (.pass (hp.passed hn)) hsteps, hrest⟩
  | case3 => cases h
  | case4 => cases h
  | case5 pool id ids stored hs m hm new' rest' hd ih =>
    cases h
    obtain ⟨hid, -, hread⟩ := hp.known hs
    rw [hm] at hread
    obtain rfl := Store.id_of_getModule hread
    have hp' : s.Without ((found ++ [m]).map (·.id)) (pool.erase m.id) := by
      rw [List.map_append]
      exact hp.erase m.id
    obtain ⟨hsteps, hrest⟩ := ih (m :: stack) hp' hd
    rw [List.append_cons found, List.reverse_cons, List.append_assoc new'.reverse]
    exact ⟨.head (.find hid hread) hsteps, hrest⟩

theorem stuck_of_draw (stack : List Module) (hp : s.Without (found.map (·.id)) pool)
    (h : draw pool ids = .error f) :
    ∃ x, ReflTransGen s.Gathers ⟨found, ids, stack⟩ x ∧ x.StuckAt s f := by
  fun_induction draw pool ids generalizing found stack with
  | case1 => cases h
  | case2 pool id ids hn ih =>
    obtain ⟨x, hsteps, hx⟩ := ih stack hp h
    exact ⟨x, .head (.pass (hp.passed hn)) hsteps, hx⟩
  | case3 pool id ids stored hs e he =>
    cases h
    obtain ⟨hid, hk, hread⟩ := hp.known hs
    exact ⟨_, .refl, id, ids, rfl, hid, hk, hread.trans he⟩
  | case4 pool id ids stored hs m hm e he ih =>
    cases h
    obtain ⟨hid, -, hread⟩ := hp.known hs
    rw [hm] at hread
    obtain rfl := Store.id_of_getModule hread
    have hp' : s.Without ((found ++ [m]).map (·.id)) (pool.erase m.id) := by
      rw [List.map_append]
      exact hp.erase m.id
    obtain ⟨x, hsteps, hx⟩ := ih (m :: stack) hp' he
    exact ⟨x, .head (.find hid hread) hsteps, hx⟩
  | case5 => cases h

theorem gathers_of_requiredBy (hp : s.Without (found.map (·.id)) pool)
    (h : requiredBy pool stack = .ok later) :
    ReflTransGen s.Gathers ⟨found, [], stack⟩ ⟨found ++ later, [], []⟩ := by
  fun_induction requiredBy pool stack generalizing found later with
  | case1 =>
    cases h
    rw [List.append_nil]
  | case2 => cases h
  | case3 => cases h
  | case4 pool m stack new rest hd later' hr ih =>
    cases h
    obtain ⟨hsteps, hrest⟩ := gathers_of_draw stack hp hd
    rw [← List.append_assoc]
    exact .head .look (hsteps.trans (ih hrest hr))

theorem stuck_of_requiredBy (hp : s.Without (found.map (·.id)) pool)
    (h : requiredBy pool stack = .error f) :
    ∃ x, ReflTransGen s.Gathers ⟨found, [], stack⟩ x ∧ x.StuckAt s f := by
  fun_induction requiredBy pool stack generalizing found with
  | case1 => cases h
  | case2 pool m stack e he =>
    cases h
    obtain ⟨x, hsteps, hx⟩ := stuck_of_draw stack hp he
    exact ⟨x, .head .look hsteps, hx⟩
  | case3 pool m stack new rest hd e he ih =>
    cases h
    obtain ⟨hsteps, hrest⟩ := gathers_of_draw stack hp hd
    obtain ⟨x, hsteps', hx⟩ := ih hrest he
    exact ⟨x, .head .look (hsteps.trans hsteps'), hx⟩
  | case4 => cases h

/-- The loop as it begins: what was asked for is found, and the last of it is looked into first. -/
def Gathering.start (ms : List Module) : Gathering := ⟨ms, [], ms.reverse⟩

theorem comesTo_of_closure (h : closure s ms = .ok all) :
    ComesTo s.Gathers (.start ms) ⟨all, [], []⟩ := by
  obtain ⟨later, hl, rfl⟩ := closure_eq_ok.1 h
  exact comesTo_of_rightUnique (rightUnique_gathers s)
    (gathers_of_requiredBy ((Store.Without.nil s).foldl_erase ms) hl) fun _ => not_gathers_end

theorem stuck_of_closure (h : closure s ms = .error f) :
    ∃ x, ComesTo s.Gathers (.start ms) x ∧ x.StuckAt s f := by
  obtain ⟨x, hsteps, hx⟩ :=
    stuck_of_requiredBy ((Store.Without.nil s).foldl_erase ms) (closure_eq_error.1 h)
  exact ⟨x, comesTo_of_rightUnique (rightUnique_gathers s) hsteps fun _ => not_gathers_stuck hx, hx⟩

/-- Wherever the loop gets stuck, the closure fails just so. -/
theorem closure_of_stuck {x : Gathering} (hsteps : ReflTransGen s.Gathers (.start ms) x)
    (hx : x.StuckAt s f) : closure s ms = .error f := by
  have hcomes := comesTo_of_rightUnique (rightUnique_gathers s) hsteps fun _ => not_gathers_stuck hx
  obtain ⟨id, ids, hids, -, -, hf⟩ := hx
  cases h : closure s ms with
  | ok all =>
    obtain rfl := hcomes.unique (comesTo_of_closure h)
    cases hids
  | error g =>
    obtain ⟨y, hy, id', ids', hids', -, -, hg⟩ := stuck_of_closure h
    obtain rfl := hcomes.unique hy
    cases hids.symm.trans hids'
    exact congrArg Except.error (Except.error.inj (hg.symm.trans hf))

/-! ## Following a chain -/

/-- The modules found so far, and the ids on the stack, the next one first. -/
structure Following where
  found : List Module
  pending : List ModuleId

/-- An id may stand on the stack more than once. It is passed over if it is the one that the walk
started from, or is found already or not known. -/
inductive Store.Follows (s : Store) (origin : ModuleId) : Following → Following → Prop
  | pass {id : ModuleId} {pending : List ModuleId} {found : List Module} :
      id ∈ origin :: found.map (·.id) ∨ s.hasModule id = false →
      s.Follows origin ⟨found, id :: pending⟩ ⟨found, pending⟩
  | find {id : ModuleId} {pending : List ModuleId} {found : List Module} {m : Module} :
      id ∉ origin :: found.map (·.id) → s.getModule id = .ok m →
      s.Follows origin ⟨found, id :: pending⟩ ⟨found ++ [m], m.prerequisites.reverse ++ pending⟩

def Following.StuckAt (s : Store) (origin : ModuleId) (f : Failure) (x : Following) : Prop :=
  ∃ id pending, x.pending = id :: pending ∧ id ∉ origin :: x.found.map (·.id) ∧
    s.hasModule id = true ∧ s.getModule id = .error f

/-- The stack may grow, but only when a module is found. -/
theorem wellFounded_follows (s : Store) (origin : ModuleId) :
    WellFounded fun y x => s.Follows origin x y := by
  refine Subrelation.wf (r := InvImage (Prod.Lex (· < ·) (· < ·))
    fun x : Following => (s.unseen x.found, x.pending.length)) ?_
    (InvImage.wf _ (WellFounded.prod_lex Nat.lt_wfRel.wf Nat.lt_wfRel.wf))
  intro y x h
  cases h with
  | pass => exact .right _ (Nat.lt_succ_self _)
  | find hid hm =>
    obtain rfl := Store.id_of_getModule hm
    exact .left _ _ (unseen_append_lt (fun h => hid (List.mem_cons_of_mem _ h)) hm)

theorem rightUnique_follows (s : Store) (origin : ModuleId) :
    Relator.RightUnique (s.Follows origin) := by
  intro x y z hy hz
  cases hy with
  | pass h =>
    cases hz with
    | pass _ => rfl
    | find hid hm => exact absurd h (not_passed hid (Store.hasModule_of_getModule hm))
  | find hid hm =>
    cases hz with
    | pass h => exact absurd h (not_passed hid (Store.hasModule_of_getModule hm))
    | find _ hm' =>
      cases hm.symm.trans hm'
      rfl

theorem not_follows_end {y : Following} : ¬ s.Follows origin ⟨found, []⟩ y := nofun

theorem not_follows_stuck {x y : Following} (h : x.StuckAt s origin f) :
    ¬ s.Follows origin x y := by
  obtain ⟨id, pending, hids, hnew, hk, hf⟩ := h
  intro hxy
  cases hxy with
  | pass h =>
    cases hids
    exact not_passed hnew hk h
  | find _ hm =>
    cases hids
    cases hm.symm.trans hf

/-! ### The loop and the chain -/

theorem follows_of_chainFrom (hp : s.Without (origin :: found.map (·.id)) pool)
    (h : chainFrom pool pending = .ok later) :
    ReflTransGen (s.Follows origin) ⟨found, pending⟩ ⟨found ++ later, []⟩ := by
  fun_induction chainFrom pool pending generalizing found later with
  | case1 =>
    cases h
    rw [List.append_nil]
  | case2 pool id pending hn ih => exact .head (.pass (hp.passed hn)) (ih hp h)
  | case3 => cases h
  | case4 pool id pending stored hs m hm ih =>
    obtain ⟨hid, -, hread⟩ := hp.known hs
    rw [hm] at hread
    obtain rfl := Store.id_of_getModule hread
    have hp' : s.Without (origin :: (found ++ [m]).map (·.id)) (pool.erase m.id) := by
      rw [List.map_append]
      exact hp.erase m.id
    cases hrest : chainFrom (pool.erase m.id) (m.prerequisites.reverse ++ pending) with
    | error e =>
      rw [hrest] at h
      cases h
    | ok later' =>
      rw [hrest] at h
      cases h
      rw [List.append_cons]
      exact .head (.find hid hread) (ih hp' hrest)

theorem stuck_of_chainFrom (hp : s.Without (origin :: found.map (·.id)) pool)
    (h : chainFrom pool pending = .error f) :
    ∃ x, ReflTransGen (s.Follows origin) ⟨found, pending⟩ x ∧ x.StuckAt s origin f := by
  fun_induction chainFrom pool pending generalizing found with
  | case1 => cases h
  | case2 pool id pending hn ih =>
    obtain ⟨x, hsteps, hx⟩ := ih hp h
    exact ⟨x, .head (.pass (hp.passed hn)) hsteps, hx⟩
  | case3 pool id pending stored hs e he =>
    cases h
    obtain ⟨hid, hk, hread⟩ := hp.known hs
    exact ⟨_, .refl, id, pending, rfl, hid, hk, hread.trans he⟩
  | case4 pool id pending stored hs m hm ih =>
    obtain ⟨hid, -, hread⟩ := hp.known hs
    rw [hm] at hread
    obtain rfl := Store.id_of_getModule hread
    have hp' : s.Without (origin :: (found ++ [m]).map (·.id)) (pool.erase m.id) := by
      rw [List.map_append]
      exact hp.erase m.id
    cases hrest : chainFrom (pool.erase m.id) (m.prerequisites.reverse ++ pending) with
    | ok later' =>
      rw [hrest] at h
      cases h
    | error e =>
      rw [hrest] at h
      cases h
      obtain ⟨x, hsteps, hx⟩ := ih hp' hrest
      exact ⟨x, .head (.find hid hread) hsteps, hx⟩

/-- The loop as it begins: the module is read, and the last id that it lists is taken first. -/
def Following.start (m : Module) : Following := ⟨[], m.prerequisites.reverse⟩

theorem comesTo_of_prerequisiteChain (h : prerequisiteChain s m = .ok chain) :
    ∃ found, ComesTo (s.Follows m.id) (.start m) ⟨found, []⟩ ∧
      chain = sortByPlace Module.place found := by
  unfold prerequisiteChain at h
  cases hc : chainFrom (s.modules.erase m.id) m.prerequisites.reverse with
  | error e =>
    rw [hc] at h
    cases h
  | ok found =>
    rw [hc] at h
    cases h
    exact ⟨found, comesTo_of_rightUnique (rightUnique_follows s m.id)
      (follows_of_chainFrom ((Store.Without.nil s).erase m.id) hc) fun _ => not_follows_end, rfl⟩

theorem stuck_of_prerequisiteChain (h : prerequisiteChain s m = .error f) :
    ∃ x, ComesTo (s.Follows m.id) (.start m) x ∧ x.StuckAt s m.id f := by
  unfold prerequisiteChain at h
  cases hc : chainFrom (s.modules.erase m.id) m.prerequisites.reverse with
  | ok found =>
    rw [hc] at h
    cases h
  | error e =>
    rw [hc] at h
    cases h
    have hp : s.Without (m.id :: [].map Module.id) _ := (Store.Without.nil s).erase m.id
    obtain ⟨x, hsteps, hx⟩ := stuck_of_chainFrom hp hc
    exact ⟨x, comesTo_of_rightUnique (rightUnique_follows s m.id) hsteps
      fun _ => not_follows_stuck hx, hx⟩

theorem prerequisiteChain_of_stuck {x : Following}
    (hsteps : ReflTransGen (s.Follows m.id) (.start m) x) (hx : x.StuckAt s m.id f) :
    prerequisiteChain s m = .error f := by
  have hcomes :=
    comesTo_of_rightUnique (rightUnique_follows s m.id) hsteps fun _ => not_follows_stuck hx
  obtain ⟨id, pending, hids, -, -, hf⟩ := hx
  cases h : prerequisiteChain s m with
  | ok chain =>
    obtain ⟨found, hfound, -⟩ := comesTo_of_prerequisiteChain h
    obtain rfl := hcomes.unique hfound
    cases hids
  | error g =>
    obtain ⟨y, hy, id', pending', hids', -, -, hg⟩ := stuck_of_prerequisiteChain h
    obtain rfl := hcomes.unique hy
    cases hids.symm.trans hids'
    exact congrArg Except.error (Except.error.inj (hg.symm.trans hf))

end Pathway
