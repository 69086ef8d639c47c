import Mathlib.Data.Set.Finite.Lattice
import Mathlib.Order.SuccPred.Archimedean
import Pathway.Proofs.Evaluation.Requests
import Pathway.Proofs.Evaluation.Steps
import Pathway.Proofs.Sample

/-!
# The limit on chains

A limit on chains locks the modules at the end of longer ones and changes nothing else. A limit as
large as the closure locks nothing.
-/

open Relation

namespace Pathway

open Evaluation

variable {s : Store} {e : Evaluator} {learner : LearnerId} {now : Instant} {limit : Option Nat}
  {ids : List ModuleId} {id : ModuleId} {m : Module} {run : Run} {met : Bool} {memo : Memo}
  {c : Graph.Component} {cs : List Graph.Component} {gs : List (List Graph.Component)}
  {d k n workers : Nat} {f : Failure} {σ τ : Session}

/-! ## The longest chain -/

theorem Store.finite_inClosure (s : Store) (ids : List ModuleId) :
    {id | s.InClosure ids id}.Finite := by
  refine (Set.Finite.biUnion ids.finite_toSet fun a _ => s.finite_reach a).subset ?_
  rintro id ⟨a, ha, hr⟩
  exact Set.mem_biUnion ha hr

theorem Store.InClosure.lt_ncard (h : s.InClosure ids id) (hc : Chain s.Requires n id) :
    n < {id | s.InClosure ids id}.ncard := by
  obtain ⟨a, ha, hr⟩ := h
  refine (hc.lt_ncard s.finite_reach).trans_le (Set.ncard_le_ncard ?_ (s.finite_inClosure ids))
  exact fun x hx => ⟨a, ha, hr.trans hx⟩

/-- The length of the longest chain that leads to the module. -/
def Store.LongestChain (s : Store) (id : ModuleId) (d : Nat) : Prop :=
  IsGreatest {n | Chain s.Requires n id} d

theorem Store.exists_longestChain (s : Store) (id : ModuleId) : ∃ d, s.LongestChain id d :=
  BddAbove.exists_isGreatest_of_nonempty
    ⟨_, fun _ h => (Chain.lt_ncard h s.finite_reach).le⟩ ⟨0, .start id⟩

theorem Store.LongestChain.chain_iff (h : s.LongestChain id d) :
    Chain s.Requires n id ↔ n ≤ d :=
  ⟨fun hn => h.2 hn, fun hn => h.1.of_le hn⟩

/-! ## Short chains and long ones -/

theorem Store.barred_of_not_chain (hk : ¬ Chain s.Requires k id) :
    s.Barred (some k) id ↔ s.Barred none id := by
  simp [Store.Barred, hk]

/-- A module at the end of a short chain requires only such modules, so the limit never tells. -/
theorem reference_of_not_chain (hk : ¬ Chain s.Requires k id) :
    reference s learner now (some k) id = reference s learner now none id := by
  induction id using s.prerequisite_induction none with
  | step id ih =>
    cases hm : s.getModule id with
    | error f => rw [reference_of_error hm, reference_of_error hm]
    | ok m =>
      obtain rfl := Store.id_of_getModule hm
      have hreach : Reachable s learner now (some k) m ↔ Reachable s learner now none m := by
        unfold Reachable
        rw [Store.barred_of_not_chain hk]
        refine and_congr_right fun hb => forall₂_congr fun p hp => imp_congr_right fun hknown => ?_
        have hreq : s.Requires m.id p := ⟨⟨m, hm, hp⟩, hknown⟩
        -- A chain that leads to a prerequisite leads on to the module.
        rw [ih hb p hreq fun hc => hk (hc.of_reach (.single hreq))]
      obtain ⟨met, hmet, hp⟩ := exists_met learner now none hm
      rw [hp, reference_eq hm (hmet.trans hreach.symm)]

theorem reference_of_chain (hm : s.getModule m.id = .ok m) (hk : Chain s.Requires k m.id) :
    reference s learner now (some k) m.id =
      some (Assessment.locked learner m (s.loadProgression learner m.id)) := by
  have hnot : ¬ Reachable s learner now (some k) m := fun h => h.1 (Or.inr ⟨k, rfl, hk⟩)
  exact reference_eq hm (iff_of_false Bool.false_ne_true hnot)

theorem Refusal.of_not_chain (hin : s.InClosure ids id) (hk : ¬ Chain s.Requires k id)
    (h : Refusal s learner now none [id] f) : Refusal s learner now (some k) ids f := by
  have hids : ∀ a ∈ [id], s.InClosure ids a := fun a ha => List.mem_singleton.1 ha ▸ hin
  rcases h with hl | ⟨hin', hf⟩ | ⟨hin', hp, hne, hf⟩
  · exact .learner hl
  · exact .module (hin'.trans hids) hf
  · refine .progression (hin'.trans hids) ?_ hne hf
    obtain ⟨a, ha, hr⟩ := hin'
    obtain rfl := List.mem_singleton.1 ha
    rw [reference_of_not_chain fun hc => hk (hc.of_reach hr), hp]

/-! ## Evaluations with a limit -/

/-- What an evaluation with a limit of `k` on chains has in its memo, against what an evaluation
without a limit would have. -/
structure Truncated (k : Nat) (now : Instant) (learner : LearnerId) (ids : List ModuleId)
    (σ : Session) (memo : Memo) : Prop where
  measured : ∀ id, σ.store.InClosure ids id → ∃ d, σ.store.LongestChain id d
  /-- The module has the progression that it would have without a limit, asked for alone or with
  the same others. -/
  short : ∀ id d, σ.store.InClosure ids id → σ.store.LongestChain id d → d < k → ∀ workers,
    ∃ p, memo[id]? = some p ∧
      (∃ τ, Evaluator.evaluate ⟨workers, none⟩ now learner id σ = .ok p τ) ∧
      ∀ memo' τ, Evaluator.evaluateClosure ⟨workers, none⟩ now learner ids σ = .ok memo' τ →
        memo'[id]? = some p
  long : ∀ id d, σ.store.InClosure ids id → σ.store.LongestChain id d → k ≤ d →
    ∃ m, σ.store.getModule id = .ok m ∧ memo[id]? = some
      { learner
        module := id
        state := .locked
        met := []
        unmet := []
        currentPosition := m.firstPosition?
        completedAt := none
        collapsed := (σ.store.loadProgression learner id).any (·.collapsed) }

theorem Evaluated.truncated (h : Evaluated ⟨workers, some k⟩ now learner ids σ memo τ) :
    Truncated k now learner ids σ memo := by
  refine ⟨fun id _ => σ.store.exists_longestChain id, fun id d hin hd hlt workers' => ?_,
    fun id d hin hd hle => ?_⟩
  · have hk : ¬ Chain σ.store.Requires k id := fun hc => hlt.not_ge (hd.chain_iff.1 hc)
    obtain ⟨p, hp, hmemo⟩ := h.exists_result hin
    have hfree : reference σ.store learner now none id = some p :=
      (reference_of_not_chain hk).symm.trans hp
    refine ⟨p, hmemo, ?_, fun memo' τ' hall => ?_⟩
    · have hno : ∀ f, ¬ Refusal σ.store learner now none [id] f := fun f hf =>
        h.found.not_refusal h.known (hf.of_not_chain hin hk)
      obtain ⟨q, τ', hone, memo', h', hq⟩ :=
        (ends_evaluate ⟨workers', none⟩ now learner id σ).exists_ok hno
      have hpq : some q = some p := (h'.reference_of_memo hq).2.symm.trans hfree
      exact ⟨τ', Option.some.inj hpq ▸ hone⟩
    · have h' := (ends_evaluated ⟨workers', none⟩ now learner ids σ).of_ok hall
      exact (h'.found.result id hin).trans hfree
  · obtain ⟨m, hm⟩ := h.found.read id hin
    obtain rfl := Store.id_of_getModule hm
    exact ⟨m, hm, (h.found.result m.id hin).trans (reference_of_chain hm (hd.chain_iff.2 hle))⟩

/-! ## Room for every chain -/

/-- All generations of the run stand below its limit. -/
def Evaluation.Run.HasRoom (run : Run) : Prop :=
  ∀ d c, run.graph.InGeneration d c → d < run.limit

/-- The evaluator has no limit, or one that is at least the size of the closure. -/
def Evaluator.Spares (e : Evaluator) (s : Store) (ids : List ModuleId) : Prop :=
  ∀ n ∈ e.depthLimit, {id | s.InClosure ids id}.ncard ≤ n

theorem Evaluator.Spares.hasRoom {all : List Module} (h : e.Spares s ids)
    (hc : Closed s ids all) : (runOf e learner now all).HasRoom := by
  intro d c hgen
  have hg := Graph.wellFormed_ofModules all
  have hv := Graph.leader_mem hg (Graph.mem_components_of_inGeneration hg hgen)
  have hin := hc.inClosure_of_inGeneration hgen hv
  by_contra hle
  rw [not_lt, ← Graph.level_eq hg hgen hv, hc.limit_le_iff hin] at hle
  obtain ⟨n, hn, hchain⟩ := hle
  exact (hin.lt_ncard hchain).not_ge (h n hn)

theorem Evaluator.Spares.ends_plan (h : e.Spares σ.store ids) :
    (e.plan now learner ids).Ends σ (fun run _ => run.HasRoom)
      (Refusal σ.store learner now e.depthLimit ids) := by
  refine (Pathway.ends_plan e now learner ids σ).imp ?_ fun _ hf => hf
  rintro run σ' ⟨-, ⟨all, hc, rfl⟩, -, -⟩
  exact h.hasRoom hc

/-! ## A limit out of reach -/

def Evaluation.Run.withLimit (run : Run) (n : Nat) : Run := { run with limit := n }

theorem evaluateMembers_withLimit {barred : Bool} :
    evaluateMembers (run.withLimit n) barred c memo = evaluateMembers run barred c memo := by
  induction c generalizing memo with
  | nil => rfl
  | cons id c ih =>
    unfold evaluateMembers
    have hmodules : (run.withLimit n).modules = run.modules := rfl
    rw [hmodules]
    cases run.modules[id]? with
    | none => exact ih
    | some m => exact congrArg (evaluateModule run m _ memo >>= ·) (funext fun _ => ih)

theorem evaluateComponent_withLimit (h : d < run.limit) (hn : d < n) :
    evaluateComponent (run.withLimit n) d c memo = evaluateComponent run d c memo := by
  have hshort : decide (run.limit ≤ d) = false := decide_eq_false h.not_ge
  have hshort' : decide ((run.withLimit n).limit ≤ d) = false := decide_eq_false hn.not_ge
  have hgraph : (run.withLimit n).graph = run.graph := rfl
  simp only [evaluateComponent, hshort, hshort', hgraph, evaluateMembers_withLimit,
    Bool.false_eq_true, if_false]

theorem evaluateInTurn_withLimit (h : ∀ c ∈ cs, d < run.limit ∧ d < n) :
    evaluateInTurn (run.withLimit n) d cs memo = evaluateInTurn run d cs memo := by
  induction cs generalizing memo with
  | nil => rfl
  | cons c cs ih =>
    obtain ⟨⟨hc, hn⟩, hcs⟩ := List.forall_mem_cons.1 h
    unfold evaluateInTurn
    rw [evaluateComponent_withLimit hc hn]
    exact congrArg (evaluateComponent run d c memo >>= ·) (funext fun _ => ih hcs)

theorem evaluateTogether_withLimit (h : ∀ c ∈ cs, d < run.limit ∧ d < n) :
    evaluateTogether (run.withLimit n) d cs memo = evaluateTogether run d cs memo := by
  induction cs generalizing memo with
  | nil => rfl
  | cons c cs ih =>
    obtain ⟨⟨hc, hn⟩, hcs⟩ := List.forall_mem_cons.1 h
    unfold evaluateTogether
    simp only [evaluateComponent_withLimit hc hn, ih hcs]

theorem evaluateGenerations_withLimit (hroom : run.HasRoom) (hroom' : (run.withLimit n).HasRoom)
    (hgs : run.graph.generations.drop d = gs) :
    evaluateGenerations ⟨workers, limit⟩ (run.withLimit n) d gs memo =
      evaluateGenerations ⟨workers, none⟩ run d gs memo := by
  induction gs generalizing d memo with
  | nil => rfl
  | cons gen gs ih =>
    -- What is left of the generations begins with the one of number `d`, which has room.
    obtain ⟨hgen, hdrop⟩ := Graph.generation_of_drop hgs
    have hlt : ∀ c ∈ gen, d < run.limit ∧ d < n := fun c hc =>
      ⟨hroom d c ⟨gen, hgen, hc⟩, hroom' d c ⟨gen, hgen, hc⟩⟩
    unfold evaluateGenerations
    simp only [evaluateInTurn_withLimit hlt, evaluateTogether_withLimit hlt, ih hdrop]

/-- With room for every chain, an evaluation does what it would do without a limit, step by step. -/
theorem Evaluator.Spares.evaluateClosure_eq (h : Evaluator.Spares ⟨workers, limit⟩ σ.store ids) :
    Evaluator.evaluateClosure ⟨workers, limit⟩ now learner ids σ =
      Evaluator.evaluateClosure ⟨workers, none⟩ now learner ids σ := by
  unfold Evaluator.evaluateClosure
  cases hall : σ.store.required learner ids with
  | error f =>
    rw [Action.bind_of_error (by rw [plan_apply, hall]),
      Action.bind_of_error (by rw [plan_apply, hall])]
  | ok all =>
    have hplan : ∀ limit, Evaluator.plan ⟨workers, limit⟩ now learner ids σ =
        .ok (runOf ⟨workers, limit⟩ learner now all) (σ.noteAll (unknownNotices all)) := by
      intro limit
      rw [plan_apply, hall]
    have hroom : ∀ limit, Evaluator.Spares ⟨workers, limit⟩ σ.store ids →
        (runOf ⟨workers, limit⟩ learner now all).HasRoom := fun limit h =>
      h.ends_plan.of_ok (hplan limit)
    have hrun : runOf ⟨workers, limit⟩ learner now all =
        (runOf ⟨workers, none⟩ learner now all).withLimit (limit.getD all.length) := rfl
    rw [Action.bind_of_ok (hplan limit), Action.bind_of_ok (hplan none)]
    have hfar := hroom limit h
    rw [hrun] at hfar ⊢
    exact congrFun (evaluateGenerations_withLimit (hroom none nofun) hfar rfl) _

/-! ## The whole evaluation -/

/-- A limit on chains locks the modules at the end of longer ones, and gives all others the
progressions that they have without it. No limit, or one as large as the closure, locks nothing. -/
theorem limit_truncates (workers : Nat) (now : Instant) (learner : LearnerId)
    (ids : List ModuleId) (σ : Session) :
    (∀ k, (Evaluator.evaluateAll ⟨workers, some k⟩ now learner ids).Ends σ
      (fun results τ => ∃ memo,
        Evaluator.evaluateClosure ⟨workers, some k⟩ now learner ids σ = .ok memo τ ∧
        (∀ r ∈ results, memo[r.1]? = some r.2) ∧ Truncated k now learner ids σ memo)
      (Refusal σ.store learner now (some k) ids)) ∧
    ∀ limit, Evaluator.Spares ⟨workers, limit⟩ σ.store ids →
      (Evaluator.plan ⟨workers, limit⟩ now learner ids).Ends σ (fun run _ => run.HasRoom)
        (Refusal σ.store learner now limit ids) ∧
      Evaluator.evaluateClosure ⟨workers, limit⟩ now learner ids σ =
        Evaluator.evaluateClosure ⟨workers, none⟩ now learner ids σ := by
  refine ⟨fun k => ?_, fun limit h => ⟨h.ends_plan, h.evaluateClosure_eq⟩⟩
  refine (ends_evaluateAll _ now learner ids σ).imp ?_ fun _ hf => hf
  rintro results τ ⟨memo, h, rfl⟩
  exact ⟨memo, h.ended, fun r hr => (mem_answers.1 hr).2, h.truncated⟩

namespace Sample

theorem ncard_inClosure_cells : {id | store.InClosure ["cells"] id}.ncard ≤ 2 := by
  have hsub : {id | store.InClosure ["cells"] id} ⊆ {"cells", "orientation"} := by
    rintro id ⟨a, ha, hr⟩
    obtain rfl := List.mem_singleton.1 ha
    rcases ReflTransGen.cases_tail hr with rfl | ⟨b, -, hb⟩
    · exact Or.inl rfl
    · exact Or.inr (requires_store hb).2
  calc {id | store.InClosure ["cells"] id}.ncard
      ≤ ({"cells", "orientation"} : Set ModuleId).ncard := Set.ncard_le_ncard hsub
    _ = 2 := Set.ncard_pair (by decide)

theorem limit_truncates_cells :
    Evaluator.Spares ⟨1, some 2⟩ store ["cells"] ∧
      Evaluator.evaluateClosure ⟨1, some 2⟩ ⟨0, 0⟩ "ada" ["cells"] (.ofStore store) =
        Evaluator.evaluateClosure ⟨1, none⟩ ⟨0, 0⟩ "ada" ["cells"] (.ofStore store) ∧
      ∃ memo, Truncated 1 ⟨0, 0⟩ "ada" ["cells"] (.ofStore store) memo := by
  have hspares : Evaluator.Spares ⟨1, some 2⟩ store ["cells"] := by
    rintro n ⟨⟩
    exact ncard_inClosure_cells
  obtain ⟨hcut, hspared⟩ := limit_truncates 1 ⟨0, 0⟩ "ada" ["cells"] (.ofStore store)
  have hids : ∀ id ∈ ["cells"], store.hasModule id = true := fun id hid => by
    rw [List.mem_singleton.1 hid]
    rfl
  obtain ⟨-, -, -, memo, -, -, htruncated⟩ := (hcut 1).exists_ok fun _ => not_refusal_store hids
  exact ⟨hspares, (hspared (some 2) hspares).2, memo, htruncated⟩

end Sample

end Pathway
