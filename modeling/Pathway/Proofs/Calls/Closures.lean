import Mathlib.Order.Bounds.Basic
import Pathway.Proofs.Calls.CircleReports
import Pathway.Proofs.Navigation.Walks

/-!
# What the walks come to

A closure is the least set that holds what was asked for and whatever a module in it lists and the
store knows. A chain is the closure of its module without the module itself. In what order a module
lists its prerequisites makes no difference to either. Both are found unless a module in the closure
cannot be read, and then the walk stops at such a module.
-/

open Relation

namespace Pathway

variable {s t : Store} {ids : List ModuleId} {id a b : ModuleId} {m n x y : Module} {f : Failure}
  {ms ms' all all' chain chain' : List Module} {rs : List Request}

/-! ## Least sets -/

/-- The sets that hold the ids and all that the store knows of what their modules list. -/
def Store.ClosedSets (s : Store) (ids : List ModuleId) : Set (Set ModuleId) :=
  {S | (∀ id ∈ ids, id ∈ S) ∧ ∀ a ∈ S, ∀ b, s.Requires a b → b ∈ S}

theorem Store.isLeast_inClosure (s : Store) (ids : List ModuleId) :
    IsLeast (s.ClosedSets ids) {id | s.InClosure ids id} := by
  refine ⟨⟨fun id hid => ⟨id, hid, .refl⟩, fun a ha b hab => ha.tail hab⟩, ?_⟩
  rintro S ⟨hids, hstep⟩ id ⟨a, ha, hreach⟩
  induction hreach with
  | refl => exact hids a ha
  | tail _ hbc ih => exact hstep _ ih _ hbc

/-- The loop comes to these modules: each once and as the store reads it, and together the least set
that the ids lead to. -/
structure GathersClosure (s : Store) (ids : List ModuleId) (ms all : List Module) : Prop where
  walk : ComesTo s.Gathers (.start ms) ⟨all, [], []⟩
  nodup : (all.map (·.id)).Nodup
  read : ∀ m ∈ all, s.getModule m.id = .ok m
  least : IsLeast (s.ClosedSets ids) {id | id ∈ all.map (·.id)}

/-- The loop comes to the modules of a closure but for the one that it started from, and then they
are put into walking order. -/
structure FollowsChain (s : Store) (m : Module) (all chain : List Module) : Prop where
  walk : ∃ found, ComesTo (s.Follows m.id) (.start m) ⟨found, []⟩ ∧ chain.Perm found
  nodup : (chain.map (·.id)).Nodup
  mem : ∀ x, x ∈ chain ↔ x ∈ all ∧ x.id ≠ m.id
  sorted : chain.Pairwise fun x y => x.place.le y.place = true

/-! ## Reading what is asked for -/

/-- Every module that the ids lead to can be read. -/
def Store.ReadsAll (s : Store) (ids : List ModuleId) : Prop :=
  ∀ id, s.InClosure ids id → ∃ m, s.getModule id = .ok m

theorem requested_of_mapM (h : ids.eraseDups.mapM s.getModule = .ok ms) :
    (ms.map (·.id)).Nodup ∧ (∀ m ∈ ms, s.getModule m.id = .ok m) ∧
      ∀ id, id ∈ ms.map (·.id) ↔ id ∈ ids := by
  obtain ⟨hids, hread⟩ := forall₂_getModule (forall₂_of_mapM h)
  rw [hids]
  exact ⟨nodup_eraseDups ids, hread, fun _ => List.mem_eraseDups⟩

/-! ## Closures -/

theorem gathersClosure_of_closure (hms : ids.eraseDups.mapM s.getModule = .ok ms)
    (h : closure s ms = .ok all) : GathersClosure s ids ms all := by
  obtain ⟨hn, hread, hids⟩ := requested_of_mapM hms
  have hc := (closed_of_closure hread hn h).of_mem_iff hids
  refine ⟨comesTo_of_closure h, hc.nodup, hc.read, ?_⟩
  have hset : {id | id ∈ all.map (·.id)} = {id | s.InClosure ids id} := Set.ext hc.mem
  rw [hset]
  exact s.isLeast_inClosure ids

theorem exists_closure (h : s.ReadsAll ids) :
    ∃ ms all, ids.eraseDups.mapM s.getModule = .ok ms ∧ closure s ms = .ok all ∧
      GathersClosure s ids ms all := by
  obtain ⟨ms, hms⟩ := exists_mapM (l := ids.eraseDups) fun id hid =>
    h id ⟨id, List.mem_eraseDups.1 hid, .refl⟩
  cases hall : closure s ms with
  | ok all => exact ⟨ms, all, hms, hall, gathersClosure_of_closure hms hall⟩
  | error f =>
    obtain ⟨-, hread, hids⟩ := requested_of_mapM hms
    obtain ⟨id, ⟨a, ha, hreach⟩, hf⟩ := exists_of_closure_error hread hall
    obtain ⟨m, hm⟩ := h id ⟨a, (hids a).1 ha, hreach⟩
    cases hm.symm.trans hf

theorem exists_stuck_closure (hms : ids.eraseDups.mapM s.getModule = .ok ms)
    (h : ¬ s.ReadsAll ids) :
    ∃ f x, closure s ms = .error f ∧ ComesTo s.Gathers (.start ms) x ∧ x.StuckAt s f := by
  cases hall : closure s ms with
  | ok all =>
    obtain ⟨hn, hread, hids⟩ := requested_of_mapM hms
    have hc := (closed_of_closure hread hn hall).of_mem_iff hids
    refine absurd (fun id hid => ?_) h
    obtain ⟨m, -, -, hm⟩ := hc.exists_module hid
    exact ⟨m, hm⟩
  | error f =>
    obtain ⟨x, hx, hstuck⟩ := stuck_of_closure hall
    exact ⟨f, x, rfl, hx, hstuck⟩

/-! ## Chains -/

theorem eraseDups_singleton (id : ModuleId) : [id].eraseDups = [id] := rfl

theorem mapM_single (hm : s.getModule m.id = .ok m) :
    [m.id].eraseDups.mapM s.getModule = .ok [m] := by
  rw [eraseDups_singleton, List.mapM_cons, hm]
  rfl

theorem followsChain (hm : s.getModule m.id = .ok m) (hall : closure s [m] = .ok all)
    (h : prerequisiteChain s m = .ok chain) : FollowsChain s m all chain := by
  have hchain := chainOf_of_prerequisiteChain hm h
  have hclosed : Closed s [m.id] all :=
    closed_of_closure (List.forall_mem_singleton.2 hm) (List.nodup_singleton m.id) hall
  refine ⟨?_, hchain.nodup, fun x => ?_, hchain.inOrder⟩
  · obtain ⟨found, hwalk, rfl⟩ := comesTo_of_prerequisiteChain h
    exact ⟨found, hwalk, sortByPlace_perm _ _⟩
  constructor
  · intro hx
    obtain ⟨hreach, hne⟩ := (hchain.mem x.id).1 (List.mem_map_of_mem hx)
    obtain ⟨y, hy, -, hread⟩ :=
      hclosed.exists_module ⟨m.id, List.mem_singleton.2 rfl, hreach.to_reflTransGen⟩
    cases (hchain.read x hx).symm.trans hread
    exact ⟨hy, hne⟩
  · rintro ⟨hx, hne⟩
    obtain ⟨a, ha, hreach⟩ := hclosed.inClosure hx
    obtain rfl := List.mem_singleton.1 ha
    have hreach' : TransGen s.Requires m.id x.id :=
      (reflTransGen_iff_eq_or_transGen.1 hreach).resolve_left hne
    obtain ⟨y, hy, hyx⟩ := List.mem_map.1 ((hchain.mem x.id).2 ⟨hreach', hne⟩)
    have hread := hchain.read y hy
    rw [hyx, hclosed.read x hx] at hread
    cases hread
    exact hy

theorem exists_followsChain (hm : s.getModule m.id = .ok m) (h : s.ReadsAll [m.id]) :
    ∃ all chain, closure s [m] = .ok all ∧ prerequisiteChain s m = .ok chain ∧
      FollowsChain s m all chain := by
  obtain ⟨ms, all, hms, hall, -⟩ := exists_closure h
  cases (mapM_single hm).symm.trans hms
  obtain ⟨chain, hchain, -⟩ := exists_chain hm fun id hid =>
    h id ⟨m.id, List.mem_singleton.2 rfl, hid.to_reflTransGen⟩
  exact ⟨all, chain, hall, hchain, followsChain hm hall hchain⟩

theorem exists_stuck_chain (hm : s.getModule m.id = .ok m) (h : ¬ s.ReadsAll [m.id]) :
    ∃ f x, prerequisiteChain s m = .error f ∧ ComesTo (s.Follows m.id) (.start m) x ∧
      x.StuckAt s m.id f := by
  cases hchain : prerequisiteChain s m with
  | ok chain =>
    have hc := chainOf_of_prerequisiteChain hm hchain
    refine absurd (fun id hid => ?_) h
    obtain ⟨a, ha, hreach⟩ := hid
    obtain rfl := List.mem_singleton.1 ha
    by_cases hne : id = m.id
    · exact ⟨m, hne ▸ hm⟩
    · have hreach' := (reflTransGen_iff_eq_or_transGen.1 hreach).resolve_left hne
      obtain ⟨x, hx, rfl⟩ := List.mem_map.1 ((hc.mem id).2 ⟨hreach', hne⟩)
      exact ⟨x, hc.read x hx⟩
  | error f =>
    obtain ⟨x, hx, hstuck⟩ := stuck_of_prerequisiteChain hchain
    exact ⟨f, x, rfl, hx, hstuck⟩

/-! ## The order of prerequisites -/

/-- The modules differ in nothing but the order in which they list prerequisites, and how often they
list one. -/
def Module.Reorders (m n : Module) : Prop :=
  ∃ l, (∀ id, id ∈ l ↔ id ∈ m.prerequisites) ∧ n = { m with prerequisites := l }

/-- The stores read the same, up to the order in which modules list prerequisites. -/
structure Store.Reorders (s t : Store) : Prop where
  read : ∀ {id m}, s.getModule id = .ok m → ∃ n, t.getModule id = .ok n ∧ m.Reorders n
  fail : ∀ {id f}, s.getModule id = .error f → t.getModule id = .error f

namespace Store.Reorders

theorem hasModule (h : s.Reorders t) (id : ModuleId) : t.hasModule id = s.hasModule id := by
  rw [Bool.eq_iff_iff, Store.hasModule_iff, Store.hasModule_iff]
  cases hs : s.getModule id with
  | ok m =>
    obtain ⟨n, hn, -⟩ := h.read hs
    rw [hn]
    exact iff_of_true nofun nofun
  | error f => rw [h.fail hs]

theorem requires (h : s.Reorders t) : t.Requires = s.Requires := by
  funext a b
  rw [Store.Requires, Store.Requires, h.hasModule]
  refine congrArg (· ∧ _) (propext ?_)
  cases hs : s.getModule a with
  | ok m =>
    obtain ⟨n, hn, l, hl, rfl⟩ := h.read hs
    rw [hn]
    simp only [Except.ok.injEq, exists_eq_left', hl]
  | error f => rw [h.fail hs]

theorem closedSets (h : s.Reorders t) : t.ClosedSets ids = s.ClosedSets ids := by
  rw [Store.ClosedSets, Store.ClosedSets, h.requires]

theorem readsAll (h : s.Reorders t) (hr : s.ReadsAll ids) : t.ReadsAll ids := by
  intro id hid
  rw [Store.InClosure, h.requires] at hid
  obtain ⟨m, hm⟩ := hr id hid
  obtain ⟨n, hn, -⟩ := h.read hm
  exact ⟨n, hn⟩

theorem perm_closure (h : s.Reorders t) (hs : GathersClosure s ids ms all)
    (ht : GathersClosure t ids ms' all') : (all.map (·.id)).Perm (all'.map (·.id)) := by
  have hsets := hs.least.unique (h.closedSets ▸ ht.least)
  exact (List.perm_ext_iff_of_nodup hs.nodup ht.nodup).2 fun id => Set.ext_iff.1 hsets id

end Store.Reorders

theorem ids_of_places (h : chain.map Module.place = chain'.map Module.place) :
    chain.map (·.id) = chain'.map (·.id) := by
  have hids := congrArg (List.map Prod.snd) h
  rwa [List.map_map, List.map_map] at hids

theorem Store.Reorders.chain_eq (h : s.Reorders t) (hs : ChainOf s m chain)
    (ht : ChainOf t n chain') (hid : n.id = m.id) : chain.map (·.id) = chain'.map (·.id) := by
  have hmem : ∀ id, id ∈ chain.map (·.id) ↔ id ∈ chain'.map (·.id) := fun id => by
    rw [hs.mem, ht.mem, h.requires, hid]
  have hplaces : ∀ {l : List Module}, (l.map (·.id)).Nodup → (l.map Module.place).Nodup := by
    intro l hl
    refine List.Nodup.of_map Prod.snd ?_
    rwa [List.map_map]
  have hsame : ∀ {x y : Module}, x ∈ chain → y ∈ chain' → y.id = x.id → y.place = x.place := by
    intro x y hx hy hyx
    obtain ⟨z, hz, l, -, rfl⟩ := h.read (hs.read x hx)
    cases (hyx ▸ ht.read y hy).symm.trans hz
    rfl
  have hperm : (chain.map Module.place).Perm (chain'.map Module.place) := by
    refine (List.perm_ext_iff_of_nodup (hplaces hs.nodup) (hplaces ht.nodup)).2 fun p => ?_
    constructor
    · intro hp
      obtain ⟨x, hx, rfl⟩ := List.mem_map.1 hp
      obtain ⟨y, hy, hyx⟩ := List.mem_map.1 ((hmem x.id).1 (List.mem_map_of_mem hx))
      exact hsame hx hy hyx ▸ List.mem_map_of_mem hy
    · intro hp
      obtain ⟨y, hy, rfl⟩ := List.mem_map.1 hp
      obtain ⟨x, hx, hxy⟩ := List.mem_map.1 ((hmem y.id).2 (List.mem_map_of_mem hy))
      exact hsame hx hy hxy.symm ▸ List.mem_map_of_mem hx
  exact ids_of_places (hperm.eq_of_pairwise (fun _ _ _ _ => Place.le_antisymm)
    (List.pairwise_map.2 hs.inOrder) (List.pairwise_map.2 ht.inOrder))

/-! ## Both walks -/

/-- Both walks come to an end. It is the closure, and the chain, unless a module of the closure
cannot be read. -/
structure Store.WalksEnd (s : Store) : Prop where
  closureStops : WellFounded fun y x => s.Gathers x y
  chainStops : ∀ origin, WellFounded fun y x => s.Follows origin x y
  closureFound : ∀ {ids}, s.ReadsAll ids → ∃ ms all,
    ids.eraseDups.mapM s.getModule = .ok ms ∧ closure s ms = .ok all ∧ GathersClosure s ids ms all
  chainFound : ∀ {m}, s.getModule m.id = .ok m → s.ReadsAll [m.id] → ∃ all chain,
    closure s [m] = .ok all ∧ prerequisiteChain s m = .ok chain ∧ FollowsChain s m all chain
  closureUnread : ∀ {ids ms}, ids.eraseDups.mapM s.getModule = .ok ms → ¬ s.ReadsAll ids →
    ∃ f x, closure s ms = .error f ∧ ComesTo s.Gathers (.start ms) x ∧ x.StuckAt s f
  chainUnread : ∀ {m}, s.getModule m.id = .ok m → ¬ s.ReadsAll [m.id] → ∃ f x,
    prerequisiteChain s m = .error f ∧ ComesTo (s.Follows m.id) (.start m) x ∧ x.StuckAt s m.id f
  closureOrder : ∀ {t ids}, s.Reorders t → s.ReadsAll ids → ∃ ms all ms' all',
    ids.eraseDups.mapM s.getModule = .ok ms ∧ closure s ms = .ok all ∧
      ids.eraseDups.mapM t.getModule = .ok ms' ∧ closure t ms' = .ok all' ∧
        (all.map (·.id)).Perm (all'.map (·.id))
  chainOrder : ∀ {t m n}, s.Reorders t → s.getModule m.id = .ok m → t.getModule m.id = .ok n →
    s.ReadsAll [m.id] → ∃ chain chain', prerequisiteChain s m = .ok chain ∧
      prerequisiteChain t n = .ok chain' ∧ chain.map (·.id) = chain'.map (·.id)

theorem Store.Reorders.exists_closures (h : s.Reorders t) (hr : s.ReadsAll ids) :
    ∃ ms all ms' all', ids.eraseDups.mapM s.getModule = .ok ms ∧ closure s ms = .ok all ∧
      ids.eraseDups.mapM t.getModule = .ok ms' ∧ closure t ms' = .ok all' ∧
        (all.map (·.id)).Perm (all'.map (·.id)) := by
  obtain ⟨ms, all, hms, hall, hs⟩ := exists_closure hr
  obtain ⟨ms', all', hms', hall', ht⟩ := exists_closure (h.readsAll hr)
  exact ⟨ms, all, ms', all', hms, hall, hms', hall', h.perm_closure hs ht⟩

theorem Store.Reorders.exists_chains (h : s.Reorders t) (hm : s.getModule m.id = .ok m)
    (hn : t.getModule m.id = .ok n) (hr : s.ReadsAll [m.id]) :
    ∃ chain chain', prerequisiteChain s m = .ok chain ∧ prerequisiteChain t n = .ok chain' ∧
      chain.map (·.id) = chain'.map (·.id) := by
  have hid : n.id = m.id := Store.id_of_getModule hn
  rw [← hid] at hn
  obtain ⟨-, chain, -, hchain, -⟩ := exists_followsChain hm hr
  obtain ⟨-, chain', -, hchain', -⟩ := exists_followsChain hn (hid ▸ h.readsAll hr)
  exact ⟨chain, chain', hchain, hchain', h.chain_eq (chainOf_of_prerequisiteChain hm hchain)
    (chainOf_of_prerequisiteChain hn hchain') hid⟩

theorem Store.walksEnd (s : Store) : s.WalksEnd where
  closureStops := wellFounded_gathers s
  chainStops := wellFounded_follows s
  closureFound := exists_closure
  chainFound := exists_followsChain
  closureUnread := exists_stuck_closure
  chainUnread := exists_stuck_chain
  closureOrder := Store.Reorders.exists_closures
  chainOrder := Store.Reorders.exists_chains

theorem Store.Reads.readsAll (h : s.Reads fun x => ∃ m, x = .ok m)
    (hids : ∀ id ∈ ids, s.hasModule id = true) : s.ReadsAll ids :=
  fun _ hid => Store.exists_module_of_inClosure h hids hid

/-- In every store the walks come to an end and find the closure and the chain, whatever circles and
unknown ids there are, unless a module cannot be read. In memory each can be read, and in a database
each whose thresholds were finite. -/
theorem walks_find_closures (s : Store) (rs : List Request) (ids : List ModuleId) :
    s.WalksEnd ∧
    ((∀ id ∈ ids, ((Session.ofStore (.empty .memory)).after rs).store.hasModule id = true) →
      ((Session.ofStore (.empty .memory)).after rs).store.ReadsAll ids) ∧
    ((∀ r ∈ rs, ∀ m ∈ r.call.puts, m.WellFormed ∧ m.FiniteThresholds) →
      (∀ id ∈ ids, ((Session.ofStore (.empty .database)).after rs).store.hasModule id = true) →
      ((Session.ofStore (.empty .database)).after rs).store.ReadsAll ids) := by
  refine ⟨s.walksEnd, ?_, fun hputs => ?_⟩
  · exact Store.Reads.readsAll (reads_after fun _ _ m _ => ⟨m, rfl⟩)
  · exact Store.Reads.readsAll (reads_after_database hputs)

namespace Sample

/-- A database with a module behind one that no score is good enough for. -/
def behindHopeless : Store :=
  ((Session.ofStore (.empty .database)).after
    [⟨⟨1, none⟩, ⟨0, 0⟩, .putModule hopeless none⟩,
      ⟨⟨1, none⟩, ⟨0, 0⟩, .putModule (bare "after" 1 ["hopeless"]) none⟩]).store

end Sample

theorem sample_walks_find_closures :
    ∃ chain, prerequisiteChain Sample.crossed.store (Sample.bare "b" 1 ["a"]) = .ok chain ∧
      FollowsChain Sample.crossed.store (Sample.bare "b" 1 ["a"])
        [Sample.bare "b" 1 ["a"], Sample.bare "a" 0 ["b", "c"], Sample.bare "c" 2 ["a"]] chain := by
  have hknown : ∀ id ∈ ["b"], Sample.crossed.store.hasModule id = true := by
    intro id hid
    rw [List.mem_singleton.1 hid]
    rfl
  obtain ⟨hwalks, hmemory, -⟩ := walks_find_closures Sample.crossed.store _ ["b"]
  obtain ⟨all, chain, hall, hchain, h⟩ := hwalks.chainFound
    (m := Sample.bare "b" 1 ["a"]) rfl (hmemory hknown)
  have hclosure : closure Sample.crossed.store [Sample.bare "b" 1 ["a"]] =
      .ok [Sample.bare "b" 1 ["a"], Sample.bare "a" 0 ["b", "c"], Sample.bare "c" 2 ["a"]] :=
    closure_by_way rfl rfl rfl
  cases hclosure.symm.trans hall
  exact ⟨chain, hchain, h⟩

/-- A module that was taken but cannot be read stops both walks of a module that lists it. -/
theorem unreadable_module_stops_walks :
    Sample.hopeless.WellFormed ∧ Sample.behindHopeless.hasModule "hopeless" = true ∧
    Sample.behindHopeless.getModule "after" = .ok (Sample.bare "after" 1 ["hopeless"]) ∧
    ∃ faults,
      closure Sample.behindHopeless [Sample.bare "after" 1 ["hopeless"]] =
        .error (.invalid .module faults) ∧
      prerequisiteChain Sample.behindHopeless (Sample.bare "after" 1 ["hopeless"]) =
        .error (.invalid .module faults) := by
  have hm : Sample.hopeless.WellFormed := by
    refine ⟨by decide, by decide, fun i hi t ht => ?_, by decide, ?_, by decide⟩
    · obtain rfl := List.mem_singleton.1 hi
      cases ht
      rfl
    · exact List.pairwise_singleton _ _
  have hafter : (Sample.bare "after" 1 ["hopeless"]).WellFormed :=
    ⟨by decide, nofun, nofun, .nil, .nil, by decide⟩
  have hread : Sample.behindHopeless.getModule "after" = .ok (Sample.bare "after" 1 ["hopeless"]) :=
    congrArg (Checked.orFail .module) (Module.ofDocument_document hafter nofun)
  obtain ⟨faults, hfaults⟩ : ∃ faults,
      Sample.behindHopeless.getModule "hopeless" = .error (.invalid .module faults) := ⟨_, rfl⟩
  refine ⟨hm, rfl, hread, faults, ?_, ?_⟩
  · exact closure_of_stuck (.single .look)
      ⟨"hopeless", [], rfl, by decide, rfl, hfaults⟩
  · exact prerequisiteChain_of_stuck .refl ⟨"hopeless", [], rfl, by decide, rfl, hfaults⟩

end Pathway
