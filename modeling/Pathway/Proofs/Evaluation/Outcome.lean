import Pathway.Proofs.Evaluation.Plan

/-!
# The outcome of an evaluation

Module by module, component by component and generation by generation, the memo comes to hold the
reference results and the store what it takes of them. An evaluation that fails has met a refusal.
-/

open Relation

namespace Pathway

open Evaluation

/-! ## What a store keeps -/

namespace Store

variable {s t : Store} {learner l : LearnerId} {id i : ModuleId} {p : Progression} {f : Failure}

/-- What the store holds of a module after an evaluation found the progression for it. -/
def heldAfter (s : Store) (learner : LearnerId) (id : ModuleId) (p : Progression) :
    Option Progression :=
  if (s.loadProgression learner id).any p.same then s.loadProgression learner id
  else some (s.keepProgression learner id p)

end Store

/-! ## What has been found so far -/

variable {s₀ s : Store} {e : Evaluator} {learner : LearnerId} {now : Instant}
  {limit : Option Nat} {ids : List ModuleId} {all : List Module} {m : Module} {id u v : ModuleId}
  {c : Graph.Component} {cs : List Graph.Component} {gs : List (List Graph.Component)} {d : Nat}
  {σ : Session} {memo : Memo} {done : Set ModuleId} {met : Bool}

/-- The memo holds the reference results of some modules and nothing else, and the store differs
from the one at the start just in what it took of these results. -/
structure Found (s₀ : Store) (learner : LearnerId) (now : Instant) (limit : Option Nat)
    (done : Set ModuleId) (memo : Memo) (s : Store) : Prop where
  read : ∀ id ∈ done, ∃ m, s₀.getModule id = .ok m
  result : ∀ id ∈ done, memo[id]? = reference s₀ learner now limit id
  nothing : ∀ id, id ∉ done → memo[id]? = none
  accepted : ∀ id ∈ done, ∀ p, reference s₀ learner now limit id = some p →
    (s₀.loadProgression learner id).any p.same = false →
      ∀ f, s₀.saveProgression learner id p ≠ .error f
  base : s₀.SameBase s
  held : ∀ id ∈ done, ∀ p, reference s₀ learner now limit id = some p →
    s.loadProgression learner id = s₀.heldAfter learner id p
  untouched : ∀ l id, l ≠ learner ∨ id ∉ done → s.loadProgression l id = s₀.loadProgression l id

namespace Found

theorem start (s : Store) : Found s learner now limit ∅ ∅ s where
  read _ h := h.elim
  result _ h := h.elim
  nothing _ _ := Std.ExtTreeMap.getElem?_empty
  accepted _ h := h.elim
  base := .refl s
  held _ h := h.elim
  untouched _ _ _ := rfl

theorem insert {p : Progression} {t : Store} (h : Found s₀ learner now limit done memo s)
    (hnew : id ∉ done) (hm : s₀.getModule id = .ok m)
    (hp : reference s₀ learner now limit id = some p)
    (hacc : (s₀.loadProgression learner id).any p.same = false →
      ∀ f, s₀.saveProgression learner id p ≠ .error f)
    (hbase : s.SameBase t)
    (hheld : t.loadProgression learner id = s₀.heldAfter learner id p)
    (hrest : ∀ l i, l ≠ learner ∨ i ≠ id → t.loadProgression l i = s.loadProgression l i) :
    Found s₀ learner now limit (Insert.insert id done) (memo.insert id p) t where
  read i hi := by
    rcases hi with rfl | hi
    · exact ⟨m, hm⟩
    · exact h.read i hi
  result i hi := by
    rw [Table.getElem?_insert]
    split
    · next he => rw [← he, hp]
    · next hne => exact h.result i (hi.resolve_left fun he => hne he.symm)
  nothing i hi := by
    rw [Table.getElem?_insert, if_neg fun he => hi (Or.inl he.symm)]
    exact h.nothing i fun hd => hi (Or.inr hd)
  accepted i hi q hq := by
    rcases hi with rfl | hi
    · cases hp.symm.trans hq
      exact hacc
    · exact h.accepted i hi q hq
  base := h.base.trans hbase
  held i hi q hq := by
    by_cases he : i = id
    · subst he
      cases hp.symm.trans hq
      exact hheld
    · rw [hrest _ _ (Or.inr he)]
      exact h.held i (hi.resolve_left he) q hq
  untouched l i hli := by
    have hli' : l ≠ learner ∨ i ≠ id :=
      hli.imp_right fun hi he => hi (Or.inl he)
    rw [hrest l i hli']
    exact h.untouched l i (hli.imp_right fun hi hd => hi (Or.inr hd))

theorem kept {p : Progression} (h : Found s₀ learner now limit done memo s) (hnew : id ∉ done)
    (hm : s₀.getModule id = .ok m) (hp : reference s₀ learner now limit id = some p)
    (hsame : (s₀.loadProgression learner id).any p.same = true) :
    Found s₀ learner now limit (Insert.insert id done) (memo.insert id p) s := by
  refine h.insert hnew hm hp (fun hne => ?_) (.refl s) ?_ fun _ _ _ => rfl
  · cases hsame.symm.trans hne
  · exact (h.untouched learner id (Or.inr hnew)).trans (if_pos hsame).symm

theorem saved {p : Progression} (h : Found s₀ learner now limit done memo s) (hnew : id ∉ done)
    (hm : s₀.getModule id = .ok m) (hp : reference s₀ learner now limit id = some p)
    (hsame : ¬ (s₀.loadProgression learner id).any p.same = true)
    (hok : s₀.checkProgression p = .ok ()) :
    Found s₀ learner now limit (Insert.insert id done) (memo.insert id p)
      (s.putProgression learner id p) := by
  refine h.insert hnew hm hp (fun _ f hf => ?_) (s.sameBase_putProgression _ _ _) ?_
    fun l i hli => ?_
  · cases (Store.saveProgression_eq_error.1 hf).symm.trans hok
  · rw [Store.loadProgression_putProgression, Store.heldAfter, if_neg hsame,
      Store.keepProgression_congr h.base.backing]
    exact if_pos ⟨rfl, rfl⟩
  · rw [Store.loadProgression_putProgression, if_neg]
    rintro ⟨rfl, rfl⟩
    exact hli.elim (· rfl) (· rfl)

theorem not_refusal {f : Failure} (hl : s₀.hasLearner learner = true)
    (h : Found s₀ learner now limit {v | s₀.InClosure ids v} memo s) :
    ¬ Refusal s₀ learner now limit ids f := by
  rintro (hl' | ⟨hin, hf⟩ | ⟨hin, hp, hne, hf⟩)
  · cases hl.symm.trans hl'
  · obtain ⟨m, hm⟩ := h.read _ hin
    cases hm.symm.trans hf
  · exact h.accepted _ hin _ hp hne _ hf

/-- Each module of the closure has a reference result, and the memo holds it. -/
theorem exists_result (h : Found s₀ learner now limit done memo s) (hid : id ∈ done) :
    ∃ p, reference s₀ learner now limit id = some p ∧ memo[id]? = some p := by
  obtain ⟨m, hm⟩ := h.read id hid
  obtain rfl := Store.id_of_getModule hm
  obtain ⟨p, hp⟩ := exists_reference learner now limit hm
  exact ⟨p, hp, (h.result _ hid).trans hp⟩

end Found

/-! ## One module -/

theorem progressionIn_eq (h : Found s₀ learner now limit done memo s) (hid : m.id ∉ done) :
    progressionIn (runOf e learner now all) s m met =
      Assessment.progression (s₀.itemFacts learner) learner now m met
        (s₀.loadProgression learner m.id) := by
  have hload := h.untouched learner m.id (Or.inr hid)
  simp only [progressionIn, runOf, h.base.itemFacts, hload]

theorem ends_evaluateModule (h : Found s₀ learner now e.depthLimit done memo σ.store)
    (hin : s₀.InClosure ids m.id) (hm : s₀.getModule m.id = .ok m) (hnew : m.id ∉ done)
    (hmet : met = true ↔ Reachable s₀ learner now e.depthLimit m) :
    (evaluateModule (runOf e learner now all) m met memo).Ends σ
      (fun memo' σ' => Found s₀ learner now e.depthLimit (insert m.id done) memo' σ'.store)
      (Refusal s₀ learner now e.depthLimit ids) := by
  unfold evaluateModule
  refine Action.ends_ask (Action.ends_reportAll ?_)
  have hload : σ.store.loadProgression (runOf e learner now all).learner m.id =
      s₀.loadProgression learner m.id := h.untouched learner m.id (Or.inr hnew)
  have hp := reference_eq hm hmet
  rw [← progressionIn_eq h hnew] at hp
  dsimp only [id]
  generalize progressionIn (runOf e learner now all) σ.store m met = p at hp ⊢
  split
  · next hsame =>
    rw [hload] at hsame
    refine Action.ends_note (Action.ends_pure ?_)
    rw [Session.store_note, Session.store_reportAll]
    exact h.kept hnew hm hp hsame
  · next hsame =>
    rw [hload] at hsame
    have hcheck := Store.checkProgression_congr (p := p) h.base.backing
    refine Action.ends_saveProgression (fun t ht => ?_) fun f hf => ?_
    · rw [Session.store_reportAll] at ht
      obtain ⟨hok, rfl⟩ := Store.saveProgression_eq_ok.1 ht
      refine Action.ends_note (Action.ends_pure ?_)
      rw [Session.store_note]
      exact h.saved hnew hm hp hsame (hcheck.symm.trans hok)
    · rw [Session.store_reportAll] at hf
      refine .progression hin hp (Bool.eq_false_iff.2 hsame) ?_
      rw [Store.saveProgression_eq_error, hcheck] at hf
      exact Store.saveProgression_eq_error.2 hf

/-! ## One component -/

theorem met_iff (hc : Closed s₀ ids all) (h : Found s₀ learner now e.depthLimit done memo s)
    (hm : m ∈ all) {barred : Bool} (hb : barred = true ↔ s₀.Barred e.depthLimit m.id)
    (hbelow : ∀ u, s₀.InClosure ids u →
      (Graph.ofModules all).level u < (Graph.ofModules all).level m.id → u ∈ done) :
    (!barred && m.prerequisites.all (prerequisiteMet memo)) = true ↔
      Reachable s₀ learner now e.depthLimit m := by
  rw [Bool.and_eq_true, Bool.not_eq_true', ← Bool.not_eq_true, hb, List.all_eq_true, Reachable]
  refine and_congr_right fun hnb => forall₂_congr fun u hu => ?_
  unfold prerequisiteMet
  by_cases hk : s₀.hasModule u = true
  · -- A known prerequisite stands in an earlier generation, so the memo holds its result.
    have hreq : s₀.Requires m.id u := ⟨⟨m, hc.read m hm, hu⟩, hk⟩
    have hlt := hc.level_lt_of_requires (hc.inClosure hm) hreq fun ho => hnb (Or.inl ho)
    have hin := (hc.inClosure hm).tail hreq
    obtain ⟨n, -, rfl, hn⟩ := hc.exists_module hin
    obtain ⟨q, hq, hmemo⟩ := h.exists_result (hbelow _ hin hlt)
    rw [hmemo, hq]
    simp only [hk, forall_const, Option.any_some]
  · -- Of one that the store does not know the memo holds nothing.
    have hnone : memo[u]? = none := h.nothing u fun hd =>
      (h.read u hd).elim fun _ hn => hk (Store.hasModule_of_getModule hn)
    rw [hnone]
    exact iff_of_true rfl fun hk' => absurd hk' hk

theorem ends_evaluateMembers (hc : Closed s₀ ids all)
    (h : Found s₀ learner now e.depthLimit done memo σ.store) {barred : Bool}
    (hn : c.Nodup) (hin : ∀ v ∈ c, s₀.InClosure ids v ∧ v ∉ done)
    (hb : ∀ v ∈ c, barred = true ↔ s₀.Barred e.depthLimit v)
    (hbelow : ∀ v ∈ c, ∀ u, s₀.InClosure ids u →
      (Graph.ofModules all).level u < (Graph.ofModules all).level v → u ∈ done) :
    (evaluateMembers (runOf e learner now all) barred c memo).Ends σ
      (fun memo' σ' => Found s₀ learner now e.depthLimit (done ∪ {v | v ∈ c}) memo' σ'.store)
      (Refusal s₀ learner now e.depthLimit ids) := by
  induction c generalizing done memo σ with
  | nil =>
    refine Action.ends_pure ?_
    simpa using h
  | cons v c ih =>
    obtain ⟨hvc, hn'⟩ := List.nodup_cons.1 hn
    obtain ⟨hv, hnew⟩ := hin v List.mem_cons_self
    obtain ⟨m, hm, rfl, hread⟩ := hc.exists_module hv
    have hget : (runOf e learner now all).modules[m.id]? = some m := hc.getElem?_tableOf hm
    unfold evaluateMembers
    rw [hget]
    refine (ends_evaluateModule h hv hread hnew (met_iff hc h hm (hb _ List.mem_cons_self)
      (hbelow _ List.mem_cons_self))).bind fun memo' σ' h' => ?_
    refine (ih h' hn' (fun u hu => ⟨(hin u (List.mem_cons_of_mem _ hu)).1, ?_⟩)
      (fun u hu => hb u (List.mem_cons_of_mem _ hu))
      fun u hu w hw hlt => Or.inr (hbelow u (List.mem_cons_of_mem _ hu) w hw hlt)).imp ?_
      fun _ hf => hf
    · rintro (rfl | hd)
      · exact hvc hu
      · exact (hin u (List.mem_cons_of_mem _ hu)).2 hd
    · intro memo'' σ'' h''
      refine Eq.mp (congrArg (fun t => Found s₀ learner now e.depthLimit t memo'' σ''.store) ?_) h''
      ext u
      simp only [Set.mem_union, Set.mem_insert_iff, Set.mem_ofPred_eq, List.mem_cons]
      tauto

theorem ends_evaluateComponent (hc : Closed s₀ ids all)
    (h : Found s₀ learner now e.depthLimit done memo σ.store)
    (hgen : (Graph.ofModules all).InGeneration d c) (hnew : ∀ v ∈ c, v ∉ done)
    (hbelow : ∀ u, s₀.InClosure ids u → (Graph.ofModules all).level u < d → u ∈ done) :
    (evaluateComponent (runOf e learner now all) d c memo).Ends σ
      (fun memo' σ' => Found s₀ learner now e.depthLimit (done ∪ {v | v ∈ c}) memo' σ'.store)
      (Refusal s₀ learner now e.depthLimit ids) := by
  have hg := Graph.wellFormed_ofModules all
  have hn := Graph.nodup_component hg (Graph.mem_components_of_inGeneration hg hgen)
  have members : ∀ {σ' : Session}, σ'.store = σ.store →
      (evaluateMembers (runOf e learner now all) ((Graph.ofModules all).isCyclic c ||
        decide ((runOf e learner now all).limit ≤ d)) c memo).Ends σ'
        (fun memo' σ' => Found s₀ learner now e.depthLimit (done ∪ {v | v ∈ c}) memo' σ'.store)
        (Refusal s₀ learner now e.depthLimit ids) := by
    intro σ' hσ
    refine ends_evaluateMembers hc (hσ ▸ h) hn
      (fun v hv => ⟨hc.inClosure_of_inGeneration hgen hv, hnew v hv⟩)
      (fun v hv => hc.barred_iff hgen hv) fun v hv u hu hlt => hbelow u hu ?_
    rwa [Graph.level_eq hg hgen hv] at hlt
  unfold evaluateComponent
  dsimp only
  split
  · exact Action.ends_report (members (Session.store_report _))
  · split
    · exact Action.ends_note (members rfl)
    · exact members rfl

/-! ## One generation -/

theorem ends_evaluateInTurn (hc : Closed s₀ ids all)
    (h : Found s₀ learner now e.depthLimit done memo σ.store)
    (hgen : ∀ c ∈ cs, (Graph.ofModules all).InGeneration d c) (hn : cs.flatten.Nodup)
    (hnew : ∀ v ∈ cs.flatten, v ∉ done)
    (hbelow : ∀ u, s₀.InClosure ids u → (Graph.ofModules all).level u < d → u ∈ done) :
    (evaluateInTurn (runOf e learner now all) d cs memo).Ends σ
      (fun memo' σ' =>
        Found s₀ learner now e.depthLimit (done ∪ {v | v ∈ cs.flatten}) memo' σ'.store)
      (Refusal s₀ learner now e.depthLimit ids) := by
  induction cs generalizing done memo σ with
  | nil =>
    refine Action.ends_pure ?_
    simpa using h
  | cons c cs ih =>
    unfold evaluateInTurn
    rw [List.flatten_cons, List.nodup_append'] at hn
    simp only [List.flatten_cons, List.mem_append] at hnew
    refine (ends_evaluateComponent hc h (hgen c List.mem_cons_self)
      (fun v hv => hnew v (Or.inl hv)) hbelow).bind fun memo' σ' h' => ?_
    refine (ih h' (fun c' hc' => hgen c' (List.mem_cons_of_mem _ hc')) hn.2.1 (fun v hv => ?_)
      fun u hu hlt => Or.inl (hbelow u hu hlt)).imp (fun memo'' σ'' h'' => ?_) fun _ hf => hf
    · rintro (hd | hvc)
      · exact hnew v (Or.inr hv) hd
      · exact hn.2.2 hvc hv
    · refine Eq.mp (congrArg (fun t => Found s₀ learner now e.depthLimit t memo'' σ''.store) ?_) h''
      ext u
      simp only [Set.mem_union, Set.mem_ofPred_eq, List.flatten_cons, List.mem_append, or_assoc]

theorem ends_evaluateTogether {run : Run} {P : Memo → Session → Prop} {E : Failure → Prop}
    (h : (evaluateInTurn run d cs memo).Ends σ P E) :
    (evaluateTogether run d cs memo).Ends σ P E := by
  induction cs generalizing memo σ with
  | nil => exact h
  | cons c cs ih =>
    unfold evaluateTogether
    unfold evaluateInTurn at h
    cases hx : evaluateComponent run d c memo σ with
    | ok memo' σ' =>
      have h' : (evaluateInTurn run d cs memo').Ends σ' P E := by
        simpa only [Action.Ends, Bind.bind, EStateM.bind, hx] using h
      simpa only [Action.Ends, Bind.bind, EStateM.bind, Action.attempt, hx] using ih h'
    | error f σ' =>
      have h' : E f := by
        simpa only [Action.Ends, Bind.bind, EStateM.bind, hx] using h
      simp only [Action.Ends, Bind.bind, EStateM.bind, Action.attempt, hx]
      cases evaluateTogether run d cs memo σ' <;> exact h'

theorem evaluateTogether_eq_ok {run : Run} {σ' : Session} {memo' : Memo} :
    evaluateTogether run d cs memo σ = .ok memo' σ' ↔
      evaluateInTurn run d cs memo σ = .ok memo' σ' := by
  induction cs generalizing memo σ with
  | nil => rfl
  | cons c cs ih =>
    unfold evaluateTogether evaluateInTurn
    cases hx : evaluateComponent run d c memo σ with
    | ok n τ => simpa only [Bind.bind, EStateM.bind, Action.attempt, hx] using ih
    | error f τ =>
      simp only [Bind.bind, EStateM.bind, Action.attempt, hx]
      cases evaluateTogether run d cs memo τ <;> exact iff_of_false nofun nofun

/-! ## All generations -/

/-- The modules of the closure below some generation. -/
def below (s₀ : Store) (ids : List ModuleId) (all : List Module) (d : Nat) : Set ModuleId :=
  {v | s₀.InClosure ids v ∧ (Graph.ofModules all).level v < d}

theorem below_succ (hc : Closed s₀ ids all) {gen : List Graph.Component}
    (hgen : (Graph.ofModules all).generations[d]? = some gen) :
    below s₀ ids all d ∪ {v | v ∈ gen.flatten} = below s₀ ids all (d + 1) := by
  have hg := Graph.wellFormed_ofModules all
  ext v
  simp only [below, Set.mem_union, Set.mem_ofPred_eq, List.mem_flatten]
  constructor
  · rintro (⟨hv, hlt⟩ | ⟨c, hcg, hvc⟩)
    · exact ⟨hv, Nat.lt_succ_of_lt hlt⟩
    · have hin : (Graph.ofModules all).InGeneration d c := ⟨gen, hgen, hcg⟩
      exact ⟨hc.inClosure_of_inGeneration hin hvc, by rw [Graph.level_eq hg hin hvc]; omega⟩
  · rintro ⟨hv, hlt⟩
    rcases Nat.lt_succ_iff_lt_or_eq.1 hlt with hlt | rfl
    · exact Or.inl ⟨hv, hlt⟩
    · obtain ⟨c, hvc, gen', hgen', hcg⟩ :=
        Graph.exists_inGeneration_level hg (hc.mem_nodes_iff.2 hv)
      cases hgen.symm.trans hgen'
      exact Or.inr ⟨c, hcg, hvc⟩

theorem ends_evaluateGenerations (hc : Closed s₀ ids all)
    (hgs : (Graph.ofModules all).generations.drop d = gs)
    (h : Found s₀ learner now e.depthLimit (below s₀ ids all d) memo σ.store) :
    (evaluateGenerations e (runOf e learner now all) d gs memo).Ends σ
      (fun memo' σ' =>
        Found s₀ learner now e.depthLimit {v | s₀.InClosure ids v} memo' σ'.store)
      (Refusal s₀ learner now e.depthLimit ids) := by
  have hg := Graph.wellFormed_ofModules all
  induction gs generalizing d memo σ with
  | nil =>
    refine Action.ends_pure ?_
    have hall : below s₀ ids all d = {v | s₀.InClosure ids v} := by
      ext v
      refine and_iff_left_of_imp fun hv => ?_
      obtain ⟨c, -, gen, hgen, -⟩ := Graph.exists_inGeneration_level hg (hc.mem_nodes_iff.2 hv)
      have := (List.getElem?_eq_some_iff.1 hgen).1
      have := List.drop_eq_nil_iff.1 hgs
      omega
    exact hall ▸ h
  | cons gen gs ih =>
    obtain ⟨hgen, hdrop⟩ := Graph.generation_of_drop hgs
    have hin : ∀ c ∈ gen, (Graph.ofModules all).InGeneration d c := fun c hcg => ⟨gen, hgen, hcg⟩
    have hturn := ends_evaluateInTurn hc h hin (Graph.nodup_generation hg hgen)
      (fun v hv hd => ?_) fun u hu hlt => ⟨hu, hlt⟩
    · unfold evaluateGenerations
      dsimp only
      split
      · exact (ends_evaluateTogether hturn).bind fun _ _ h' => ih hdrop (below_succ hc hgen ▸ h')
      · exact hturn.bind fun _ _ h' => ih hdrop (below_succ hc hgen ▸ h')
    · obtain ⟨c, hcg, hvc⟩ := List.mem_flatten.1 hv
      exact hd.2.ne (Graph.level_eq hg (hin c hcg) hvc)

/-! ## The whole evaluation -/

/-- An evaluation finds the reference results of the whole closure, or has met a refusal. -/
theorem ends_evaluateClosure (e : Evaluator) (now : Instant) (learner : LearnerId)
    (ids : List ModuleId) (σ : Session) :
    (e.evaluateClosure now learner ids).Ends σ
      (fun memo σ' => σ.store.hasLearner learner = true ∧
        Found σ.store learner now e.depthLimit {v | σ.store.InClosure ids v} memo σ'.store)
      (Refusal σ.store learner now e.depthLimit ids) := by
  unfold Evaluator.evaluateClosure
  refine (ends_plan e now learner ids σ).bind ?_
  rintro run σ' ⟨hl, ⟨all, hc, rfl⟩, hstore, -⟩
  have hzero : below σ.store ids all 0 = ∅ := by
    ext v
    simp [below]
  refine (ends_evaluateGenerations hc rfl ?_).imp (fun memo σ'' h => ⟨hl, h⟩) fun _ hf => hf
  rw [hstore, hzero]
  exact Found.start _

end Pathway
