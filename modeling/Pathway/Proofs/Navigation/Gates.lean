import Pathway.Proofs.Evaluation.CatchUp
import Pathway.Proofs.Evaluation.Gating
import Pathway.Proofs.Navigation.Availability
import Pathway.Proofs.Navigation.Chain
import Pathway.Proofs.Sample

/-!
# Gate reports

The report on a locked module names just the modules of its chain that are not completed, and where
nothing is closed one of them can be worked on.
-/

open Relation

namespace Pathway

variable {s : Store} {e : Evaluator} {learner : LearnerId} {now : Instant} {limit : Option Nat}
  {a b : ModuleId} {m : Module} {p : Progression} {chain : List Module} {σ σ' : Session}
  {results : List (ModuleId × Progression)} {report : GateReport}

/-! ## The modules of the report -/

/-- The entry of a module in the report, if it has one. -/
def Module.pendingModule? (x : Module) (p : Progression) : Option PendingModule :=
  if p.isCompleted then none else some ⟨x.id, x.name, p.isLocked, x.pending p⟩

theorem Module.pendingModule?_eq_some {x : Module} {y : PendingModule} :
    x.pendingModule? p = some y ↔
      p.isCompleted = false ∧ y = ⟨x.id, x.name, p.isLocked, x.pending p⟩ := by
  unfold pendingModule?
  cases p.isCompleted <;> simp [eq_comm]

theorem unfinished_eq (chain : List Module) (results : List (ModuleId × Progression)) :
    Evaluator.unfinished chain results =
      chain.filterMap fun x => (results.lookup x.id).bind x.pendingModule? := by
  refine List.filterMap_congr fun x _ => ?_
  cases results.lookup x.id <;> rfl

theorem unfinished_ids_sublist (chain : List Module) (results : List (ModuleId × Progression)) :
    ((Evaluator.unfinished chain results).map (·.module)).Sublist (chain.map (·.id)) := by
  rw [unfinished_eq]
  induction chain with
  | nil => exact List.Sublist.refl _
  | cons x chain ih =>
    rw [List.filterMap_cons]
    cases hx : (results.lookup x.id).bind x.pendingModule? with
    | none => exact ih.cons _
    | some y =>
      obtain ⟨q, -, hy⟩ := Option.bind_eq_some_iff.1 hx
      obtain ⟨-, rfl⟩ := Module.pendingModule?_eq_some.1 hy
      exact ih.cons_cons _

theorem ChainOf.inWalkingOrder (h : ChainOf s m chain) : s.InWalkingOrder (chain.map (·.id)) := by
  refine List.pairwise_map.2 (h.inOrder.imp_of_mem fun {x y} hx hy hxy u v hu hv => ?_)
  cases (h.read x hx).symm.trans hu
  cases (h.read y hy).symm.trans hv
  exact hxy

theorem mem_unfinished (hc : ChainOf s m chain)
    (h : Answered s learner now limit (chain.map (·.id)) results) {x : PendingModule} :
    x ∈ Evaluator.unfinished chain results ↔
      ∃ n q, s.getModule n.id = .ok n ∧ TransGen s.Requires m.id n.id ∧ n.id ≠ m.id ∧
        reference s learner now limit n.id = some q ∧ q.isCompleted = false ∧
        x = ⟨n.id, n.name, q.isLocked, n.pending q⟩ := by
  rw [unfinished_eq, List.mem_filterMap]
  constructor
  · rintro ⟨n, hn, hx⟩
    have hid : n.id ∈ chain.map (·.id) := List.mem_map_of_mem hn
    obtain ⟨q, hq, hx⟩ := Option.bind_eq_some_iff.1 hx
    obtain ⟨hnot, rfl⟩ := Module.pendingModule?_eq_some.1 hx
    obtain ⟨hreq, hne⟩ := (hc.mem n.id).1 hid
    exact ⟨n, q, hc.read n hn, hreq, hne, (h.lookup hid).symm.trans hq, hnot, rfl⟩
  · rintro ⟨n, q, hread, hreq, hne, hq, hnot, rfl⟩
    have hid := (hc.mem n.id).2 ⟨hreq, hne⟩
    obtain ⟨n', hn', he⟩ := List.mem_map.1 hid
    have hn : n' = n := Except.ok.inj ((hc.read n' hn').symm.trans (he ▸ hread))
    refine ⟨n, hn ▸ hn', ?_⟩
    rw [h.lookup hid, hq, Option.bind_some, Module.pendingModule?_eq_some]
    exact ⟨hnot, rfl⟩

/-! ## One report -/

/-- What is reported on an open module, and on an item in it. -/
def Module.openReport (m : Module) (p : Progression) : Option Item → GateReport
  | none => ⟨false, []⟩
  | some i =>
    if m.isReachable p i then ⟨false, []⟩
    else ⟨true, [⟨m.id, m.name, false, m.pendingUpTo p (some i.place)⟩]⟩

/-- The report rests on the result of the module, and if it is locked on those of its chain. -/
structure Reported (s : Store) (learner : LearnerId) (now : Instant) (limit : Option Nat)
    (m : Module) (item : Option Item) (p : Progression) (report : GateReport) : Prop where
  result : Answered s learner now limit [m.id] [(m.id, p)]
  locked : p.isLocked = true → ∃ chain results, ChainOf s m chain ∧
    Answered s learner now limit (chain.map (·.id)) results ∧
    report = ⟨true, Evaluator.unfinished chain results⟩
  unlocked : p.isLocked = false → report = m.openReport p item

theorem ends_gateReport (h : s.CaughtUp learner now e.depthLimit σ.store)
    (hm : s.getModule m.id = .ok m) (item : Option Item)
    (hitem : ∀ i ∈ item, m.itemOrFail i.id = .ok i) :
    (e.gateReport now learner m.id (item.map (·.id))).Ends σ
      (fun report σ' => s.CaughtUp learner now e.depthLimit σ'.store ∧
        ∃ p, Reported s learner now e.depthLimit m item p report)
      (Refusal s learner now e.depthLimit [m.id]) := by
  unfold Evaluator.gateReport
  have hread : σ.store.getModule m.id = .ok m := (h.getModule m.id).trans hm
  refine Action.ends_askOrFail (fun m' hm' => ?_) fun f hf => by cases hread.symm.trans hf
  cases hread.symm.trans hm'
  refine (ends_evaluate_caughtUp h m.id).bind ?_
  rintro p σ' ⟨hone, hcaught⟩
  split
  · next hl =>
    obtain ⟨chain, hchain, hof⟩ := exists_chain hm fun c hc =>
      hone.read c ⟨m.id, List.mem_cons_self, hc.to_reflTransGen⟩
    rw [← hcaught.prerequisiteChain] at hchain
    refine Action.ends_askOrFail (fun c hc => ?_) fun f hf => by cases hchain.symm.trans hf
    cases hchain.symm.trans hc
    -- What is asked for on the way is part of what was asked for first.
    refine ((ends_evaluateAll_caughtUp hcaught (chain.map Module.id)).imp (fun _ _ h => h)
      fun f hf => hf.of_inClosure fun x hx =>
        ⟨m.id, List.mem_cons_self, ((hof.mem x).1 hx).1.to_reflTransGen⟩).bind ?_
    rintro results σ'' ⟨hans, hcaught'⟩
    exact Action.ends_pure ⟨hcaught', p, hone, fun _ => ⟨chain, results, hof, hans, rfl⟩,
      by simp [hl]⟩
  next hl =>
  rw [Bool.not_eq_true] at hl
  have hopen : ∀ report, report = m.openReport p item →
      s.CaughtUp learner now e.depthLimit σ'.store ∧
        ∃ p, Reported s learner now e.depthLimit m item p report :=
    fun report hreport => ⟨hcaught, p, hone, by simp [hl], fun _ => hreport⟩
  cases item with
  | none => exact Action.ends_pure (hopen _ rfl)
  | some i =>
    have hi := hitem i rfl
    dsimp only [Option.map_some]
    split
    · next hs =>
      rw [Bool.not_eq_true'] at hs
      refine Action.ends_pure (hopen _ ?_)
      rw [Module.openReport, if_pos (Module.isReachable_of_not_sequential hl hs i)]
    refine Action.ends_ofExcept hi ?_
    split
    · next hreach => exact Action.ends_pure (hopen _ (by rw [Module.openReport, if_pos hreach]))
    · next hreach =>
      have hpending : m.pendingBefore p i.id = .ok (m.pendingUpTo p (some i.place)) := by
        rw [Module.pendingBefore, hi]
        rfl
      refine Action.ends_ofExcept hpending (Action.ends_pure (hopen _ ?_))
      rw [Module.openReport, if_neg hreach]

theorem finds_of_gateReport {item : Option ItemId} (hm : σ.store.getModule m.id = .ok m)
    (h : e.gateReport now learner m.id item σ = .ok report σ')
    (hp : reference σ.store learner now e.depthLimit m.id = some p) :
    e.Finds now learner σ m.id p := by
  unfold Evaluator.gateReport at h
  rw [Action.bind_of_ok (Action.askOrFail_of_ok hm)] at h
  obtain ⟨q, τ, hq, -⟩ := Action.bind_eq_ok.1 h
  have hfinds : e.Finds now learner σ m.id q := ⟨τ, hq⟩
  obtain rfl := Option.some.inj (hfinds.reference.symm.trans hp)
  exact hfinds

/-! ## Why a module is locked -/

/-- A module that is locked neither by a date nor by itself nor by the limit is locked by another
one that is not completed. -/
theorem exists_unfinished (hm : s.getModule m.id = .ok m)
    (hread : ∀ c, TransGen s.Requires m.id c → ∃ n, s.getModule c = .ok n)
    (hp : reference s learner now limit m.id = some p) (hl : p.isLocked = true)
    (hdate : m.toBeUnlocked now = false) (hself : ¬ s.Requires m.id m.id)
    (hdepth : ¬ ∃ n ∈ limit, Chain s.Requires n m.id) :
    ∃ c q, TransGen s.Requires m.id c ∧ c ≠ m.id ∧
      reference s learner now limit c = some q ∧ q.isCompleted = false := by
  -- In either case a direct prerequisite is not completed.
  suffices h : ∃ c, s.Requires m.id c ∧ ∀ q, reference s learner now limit c = some q →
      q.isCompleted = false by
    obtain ⟨c, hc, hnot⟩ := h
    obtain ⟨n, hn⟩ := hread c (.single hc)
    obtain rfl := Store.id_of_getModule hn
    obtain ⟨q, hq⟩ := exists_reference learner now limit hn
    refine ⟨n.id, q, .single hc, fun he => hself (he ▸ hc), hq, hnot q hq⟩
  by_cases hcircle : OnCircle s.Requires m.id
  · obtain ⟨c, hc, hmutual⟩ := hcircle.exists_mutual
    refine ⟨c, hc, fun q hq => ?_⟩
    rw [← Bool.not_eq_true]
    intro hcompl
    have hopen := accessible_of_not_isLocked hq (not_isLocked_of_isCompleted hcompl)
    exact hopen.1 (hmutual.symm.onCircle_of_onCircle hcircle)
  · by_contra hall
    push Not at hall
    have hreach : Reachable s learner now limit m := by
      refine ⟨fun hb => hb.elim hcircle hdepth, fun c hc hk => ?_⟩
      obtain ⟨q, hq, hcompl⟩ := hall c ⟨⟨m, hm, hc⟩, hk⟩
      rw [hq, Option.any_some]
      simpa using hcompl
    have hopen := not_isLocked_of_reachable hm hp hreach hdate
    simp [hl] at hopen

theorem exists_available_of_reference {n : Module} (hn : s.getModule n.id = .ok n)
    (hwf : n.WellFormed) (hp : reference s learner now limit n.id = some p)
    (hl : p.isLocked = false) (hc : p.isCompleted = false) :
    ∃ x ∈ n.pending p, x.available = true := by
  obtain ⟨n', met, hn', -, rfl⟩ := exists_assessment hp
  cases hn.symm.trans hn'
  exact Assessment.exists_available hwf hl hc

/-! ## The report -/

/-- The report lists what a module requires besides itself and what is not completed, each once and
in walking order, and marks what is locked. -/
structure GateReport.Explains (report : GateReport) (e : Evaluator) (now : Instant)
    (learner : LearnerId) (σ : Session) (id : ModuleId) : Prop where
  locked : report.locked = true
  listed : ∀ x, x ∈ report.modules.map (·.module) ↔ TransGen σ.store.Requires id x ∧ x ≠ id ∧
    ∃ q, e.Finds now learner σ x q ∧ q.isCompleted = false
  once : (report.modules.map (·.module)).Nodup
  ordered : σ.store.InWalkingOrder (report.modules.map (·.module))
  flagged : ∀ x ∈ report.modules, ∃ q, e.Finds now learner σ x.module q ∧ x.locked = q.isLocked

/-- The report names something to do: where it lists modules that are not locked, these have
requirements that can be met now, and where nothing is closed it lists such a module. -/
structure GateReport.Actionable (report : GateReport) (e : Evaluator) (now : Instant) (s : Store)
    (m : Module) : Prop where
  empty : report.modules = [] → m.toBeUnlocked now = true ∨ s.Requires m.id m.id ∨
    ∃ n ∈ e.depthLimit, Chain s.Requires n m.id
  unlocked : e.depthLimit = none → (∀ c, ReflTransGen s.Requires m.id c → s.Accessible now c) →
    ∃ x ∈ report.modules, x.locked = false
  available : ∀ x ∈ report.modules, x.locked = false → ∃ r ∈ x.requirements, r.available = true

section Locked

variable {id : ModuleId} (hm : σ.store.getModule m.id = .ok m) (hp : e.Finds now learner σ m.id p)
  (hl : p.isLocked = true) (hchain : ChainOf σ.store m chain)
  (hans : Answered σ.store learner now e.depthLimit (chain.map (·.id)) results)

include hp hchain hans

theorem explains_unfinished :
    GateReport.Explains ⟨true, Evaluator.unfinished chain results⟩ e now learner σ m.id where
  locked := rfl
  listed x := by
    rw [List.mem_map]
    constructor
    · rintro ⟨y, hy, rfl⟩
      obtain ⟨n, q, hread, hreq, hne, hq, hnot, rfl⟩ := (mem_unfinished hchain hans).1 hy
      exact ⟨hreq, hne, q, (finds_iff hp.not_refusal
        ⟨m.id, List.mem_cons_self, hreq.to_reflTransGen⟩).2 hq, hnot⟩
    · rintro ⟨hreq, hne, q, hq, hnot⟩
      obtain ⟨n, hn, rfl⟩ := List.mem_map.1 ((hchain.mem x).2 ⟨hreq, hne⟩)
      exact ⟨_, (mem_unfinished hchain hans).2
        ⟨n, q, hchain.read n hn, hreq, hne, hq.reference, hnot, rfl⟩, rfl⟩
  once := hchain.nodup.sublist (unfinished_ids_sublist chain results)
  ordered := hchain.inWalkingOrder.sublist (unfinished_ids_sublist chain results)
  flagged x hx := by
    obtain ⟨n, q, hread, hreq, hne, hq, hnot, rfl⟩ := (mem_unfinished hchain hans).1 hx
    exact ⟨q, (finds_iff hp.not_refusal ⟨m.id, List.mem_cons_self, hreq.to_reflTransGen⟩).2 hq, rfl⟩

include hm hl

theorem actionable_unfinished
    (hread : ∀ c, ReflTransGen σ.store.Requires m.id c → ∃ n, σ.store.getModule c = .ok n)
    (hwf : ∀ id n, σ.store.getModule id = .ok n → n.WellFormed) :
    GateReport.Actionable ⟨true, Evaluator.unfinished chain results⟩ e now σ.store m where
  empty hempty := by
    by_contra hno
    push Not at hno
    obtain ⟨hdate, hself, hdepth⟩ := hno
    obtain ⟨c, q, hreq, hne, hq, hnot⟩ := exists_unfinished hm
      (fun c hc => hread c hc.to_reflTransGen) hp.reference hl (by simpa using hdate) hself
      (by simpa using hdepth)
    obtain ⟨n, hn, rfl⟩ := List.mem_map.1 ((hchain.mem c).2 ⟨hreq, hne⟩)
    have hmem := (mem_unfinished hchain hans).2
      ⟨n, q, hchain.read n hn, hreq, hne, hq, hnot, rfl⟩
    simp [show Evaluator.unfinished chain results = [] from hempty] at hmem
  unlocked hlimit hopen := by
    have hfound := hp.reference
    rw [hlimit] at hans hfound
    obtain ⟨c, q, hc, hq, hunlocked, hnot⟩ := exists_underway hread hopen hfound (by
      cases hcompl : p.isCompleted with
      | false => rfl
      | true => simp [not_isLocked_of_isCompleted hcompl] at hl)
    have hne : c ≠ m.id := by
      rintro rfl
      obtain rfl := Option.some.inj (hfound.symm.trans hq)
      simp [hl] at hunlocked
    have hreq := (reflTransGen_iff_eq_or_transGen.1 hc).resolve_left hne
    obtain ⟨n, hn, rfl⟩ := List.mem_map.1 ((hchain.mem c).2 ⟨hreq, hne⟩)
    exact ⟨_, (mem_unfinished hchain hans).2
      ⟨n, q, hchain.read n hn, hreq, hne, hq, hnot, rfl⟩, hunlocked⟩
  available x hx hunlocked := by
    obtain ⟨n, q, hn, -, -, hq, hnot, rfl⟩ := (mem_unfinished hchain hans).1 hx
    exact exists_available_of_reference hn (hwf n.id n hn) hq hunlocked hnot

end Locked

/-- The report on a locked module is complete and names something to do. It fails just when the
evaluation of the module is refused. -/
theorem gateReport_of_locked (e : Evaluator) (now : Instant) (learner : LearnerId) (id : ModuleId)
    (σ : Session) (hwf : ∀ id n, σ.store.getModule id = .ok n → n.WellFormed) :
    (e.gateReport now learner id none).Ends σ
      (fun report _ => ∃ m p, σ.store.getModule id = .ok m ∧ e.Finds now learner σ id p ∧
        (p.isLocked = true → report.Explains e now learner σ id ∧
          report.Actionable e now σ.store m))
      (Refusal σ.store learner now e.depthLimit [id]) := by
  cases hm : σ.store.getModule id with
  | error f =>
    unfold Evaluator.gateReport
    refine Action.ends_askOrFail (fun m hm' => by cases hm.symm.trans hm') fun f hf => ?_
    exact .module (Evaluated.inClosure_of_mem List.mem_cons_self) hf
  | ok m =>
    obtain rfl := Store.id_of_getModule hm
    refine (ends_gateReport (.refl σ.store) hm none nofun).imp_ok fun report σ' h => ?_
    obtain ⟨-, p, hreported⟩ := (ends_gateReport (.refl σ.store) hm none nofun).of_ok h
    have hp := finds_of_gateReport hm h (hreported.result.result _ List.mem_cons_self)
    refine ⟨m, p, rfl, hp, fun hl => ?_⟩
    obtain ⟨chain, results, hchain, hans, rfl⟩ := hreported.locked hl
    have hread : ∀ c, ReflTransGen σ.store.Requires m.id c → ∃ n, σ.store.getModule c = .ok n :=
      fun c hc => hreported.result.read c ⟨m.id, List.mem_cons_self, hc⟩
    exact ⟨explains_unfinished hp hchain hans, actionable_unfinished hm hp hl hchain hans hread hwf⟩

theorem sample_gateReport_of_locked :
    ∃ report σ', Evaluator.gateReport ⟨1, none⟩ ⟨0, 0⟩ "ada" "cells" none
        (.ofStore Sample.store) = .ok report σ' ∧
      report.Explains ⟨1, none⟩ ⟨0, 0⟩ "ada" (.ofStore Sample.store) "cells" ∧
      ∃ x ∈ report.modules, x.locked = false ∧ ∃ r ∈ x.requirements, r.available = true := by
  have hall := gateReport_of_locked ⟨1, none⟩ ⟨0, 0⟩ "ada" "cells" (.ofStore Sample.store)
    fun _ _ => Sample.wellFormed_store
  have hstored : ∀ id ∈ ["cells"], Sample.store.hasModule id = true := by decide
  obtain ⟨report, σ', hreport, m, p, -, hp, himp⟩ :=
    hall.exists_ok fun f => Sample.not_refusal_store hstored
  obtain ⟨hexplains, hactionable⟩ := himp (Sample.isLocked_cells hp.reference)
  obtain ⟨x, hx, hunlocked⟩ := hactionable.unlocked rfl fun c _ => Sample.accessible_store _ c
  exact ⟨report, σ', hreport, hexplains, x, hx, hunlocked, hactionable.available x hx hunlocked⟩

end Pathway
