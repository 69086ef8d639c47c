import Pathway.Proofs.Evaluation.Parallel
import Pathway.Proofs.Sample

/-!
# What the memo holds when it is asked

Each result is written once. When a component begins, the results of all generations before it stand
in the memo for good, and what a module off every circle requires is among them. So a prerequisite
that the memo does not have is one that the store does not know.
-/

open Relation

namespace Pathway

namespace Evaluation

variable {r : Run} {m : Module} {met barred : Bool} {p p' next : Process} {c : Graph.Component}
  {gen : List Graph.Component} {gens : List (List Graph.Component)} {d : Nat} {e : Evaluator}
  {learner : LearnerId} {now : Instant} {ids l : List ModuleId} {all : List Module} {u v : ModuleId}
  {s₀ : Store} {σ τ : Session} {st st' : Shared} {memo : Memo} {x y : Config}

/-! ## What a process remembers -/

/-- The process writes results of these modules in this order, and of no others. If it fails, it may
leave some out. -/
def Process.Remembers : Process → List ModuleId → Prop
  | done, l => l = []
  | failed _, _ => True
  | ask _ next, l => ∀ a, (next a).Remembers l
  | act x next, l =>
    match x with
    | .remember id _ => ∃ rest, l = id :: rest ∧ next.Remembers rest
    | _ => next.Remembers l

theorem remembers_reportAll {is : List Issue} (h : next.Remembers l) :
    (Process.reportAll is next).Remembers l := by
  induction is with
  | nil => exact h
  | cons i is ih => exact ih

theorem remembers_askMet {ids : List ModuleId} {f : Bool → Process} (h : ∀ b, (f b).Remembers l) :
    (Process.askMet ids f).Remembers l := by
  induction ids with
  | nil => exact h true
  | cons id ids ih =>
    intro found
    dsimp only
    split
    · exact ih
    · exact h false

theorem remembers_settle {previous : Option Progression} {q : Progression} (h : next.Remembers l) :
    (Process.settle m previous q next).Remembers (m.id :: l) := by
  refine ⟨l, rfl, ?_⟩
  split <;> exact h

theorem remembers_ofModule (h : next.Remembers l) :
    (Process.ofModule r m met next).Remembers (m.id :: l) := by
  refine fun previous => remembers_reportAll ?_
  split
  · exact fun facts => remembers_reportAll (remembers_settle h)
  · exact remembers_settle h

theorem remembers_ofMembers (h : ∀ id ∈ c, ∃ m, r.modules[id]? = some m ∧ m.id = id) :
    (Process.ofMembers r barred c).Remembers c := by
  induction c with
  | nil => rfl
  | cons id ids ih =>
    obtain ⟨⟨m, hm, rfl⟩, hrest⟩ := List.forall_mem_cons.1 h
    unfold Process.ofMembers
    rw [hm]
    dsimp only
    split
    · exact remembers_ofModule (ih hrest)
    · exact remembers_askMet fun met => remembers_ofModule (ih hrest)

theorem remembers_ofComponent (h : ∀ id ∈ c, ∃ m, r.modules[id]? = some m ∧ m.id = id) :
    (Process.ofComponent r d c).Remembers c := by
  unfold Process.ofComponent
  dsimp only
  split
  · exact remembers_ofMembers h
  · split <;> exact remembers_ofMembers h

theorem remembers_step (hp : p.Remembers l) (h : p.step learner st = some (p', st')) :
    (st'.memo = st.memo ∧ p'.Remembers l) ∨
      ∃ id q rest, l = id :: rest ∧ st'.memo = st.memo.insert id q ∧ p'.Remembers rest := by
  cases p with
  | done => cases h
  | failed f => cases h
  | ask q next =>
    cases h
    exact Or.inl ⟨rfl, hp _⟩
  | act x next =>
    rw [Process.step] at h
    split at h
    · cases h
      cases x with
      | remember id q =>
        obtain ⟨rest, hl, hnext⟩ := hp
        exact Or.inr ⟨id, q, rest, hl, rfl, hnext⟩
      | save | report | note => exact Or.inl ⟨rfl, hp⟩
    · cases h
      exact Or.inl ⟨rfl, trivial⟩

/-- The process has still to write just what the memo does not hold of its component. -/
def Process.Owes (p : Process) (c : Graph.Component) (memo : Memo) : Prop :=
  ∃ l, p.Remembers l ∧ l.Nodup ∧ ∀ id, id ∈ l ↔ id ∈ c ∧ memo[id]? = none

theorem Process.Owes.congr {memo' : Memo} (h : p.Owes c memo)
    (hmemo : ∀ id ∈ c, memo'[id]? = memo[id]?) : p.Owes c memo' := by
  obtain ⟨l, hp, hn, hl⟩ := h
  refine ⟨l, hp, hn, fun id => (hl id).trans (and_congr_right fun hid => ?_)⟩
  rw [hmemo id hid]

theorem owes_step (hp : p.Owes c st.memo) (h : p.step learner st = some (p', st')) :
    p'.Owes c st'.memo ∧
      ∀ id, st'.memo[id]? = st.memo[id]? ∨ id ∈ c ∧ st.memo[id]? = none := by
  obtain ⟨l, hp, hn, hl⟩ := hp
  rcases remembers_step hp h with ⟨hmemo, hp'⟩ | ⟨i, q, rest, rfl, hmemo, hp'⟩
  · rw [hmemo]
    exact ⟨⟨l, hp', hn, hl⟩, fun _ => Or.inl rfl⟩
  · obtain ⟨hi, hn⟩ := List.nodup_cons.1 hn
    have hown := (hl i).1 List.mem_cons_self
    rw [hmemo]
    refine ⟨⟨rest, hp', hn, fun id => ?_⟩, fun id => ?_⟩
    · rw [Table.getElem?_insert]
      split
      · next he => exact iff_of_false (he ▸ hi) fun h => by cases h.2
      · next hne => rw [← hl id, List.mem_cons, or_iff_right fun he => hne he.symm]
    · rw [Table.getElem?_insert]
      split
      · next he => exact Or.inr (he ▸ hown)
      · exact Or.inl rfl

/-! ## What every step preserves -/

/-- The prerequisites that are checked for a component, of whose modules none is on a circle. -/
def checked (r : Run) (c : Graph.Component) : Set ModuleId :=
  {u | r.graph.isCyclic c = false ∧ ∃ v ∈ c, ∃ m, r.modules[v]? = some m ∧ u ∈ m.prerequisites}

namespace Config

def components (x : Config) : List Graph.Component := x.running.map Prod.fst

/-- Before the first of these generations, with nothing found yet. -/
def before (gens : List (List Graph.Component)) (σ : Session) : Config := ⟨[], 0, gens, ⟨∅, σ⟩⟩

/-- The components running are those of one generation, and each has still to write what the memo
does not hold of its modules. All that came before is in the memo, and nothing else is. -/
structure Tracked (r : Run) (s₀ : Store) (ids : List ModuleId) (all : List Module) (x : Config) :
    Prop where
  later : List.Forall₂ List.Perm ((Graph.ofModules all).generations.drop x.depth) x.later
  begun : ∀ c ∈ x.components, ∃ d, x.depth = d + 1 ∧ (Graph.ofModules all).InGeneration d c
  covers : ∀ v, s₀.InClosure ids v → (Graph.ofModules all).level v + 1 = x.depth →
    ∃ c ∈ x.components, v ∈ c
  apart : x.components.flatten.Nodup
  owes : ∀ y ∈ x.running, y.2.Owes y.1 x.shared.memo
  within : ∀ y ∈ x.running, y.2.Within (members y.1) (checked r y.1)
  earlier : ∀ v, s₀.InClosure ids v → (Graph.ofModules all).level v + 1 < x.depth →
    x.shared.memo[v]? ≠ none
  only : ∀ v, x.shared.memo[v]? ≠ none → v ∈ below s₀ ids all x.depth

end Config

theorem tracked_before
    (hgens : List.Forall₂ List.Perm (Graph.ofModules all).generations gens) :
    (Config.before gens σ).Tracked r s₀ ids all where
  later := hgens
  begun _ hc := by cases hc
  covers v _ hv := by cases hv
  apart := List.nodup_nil
  owes _ hy := by cases hy
  within _ hy := by cases hy
  earlier v _ hv := by cases hv
  only v hv := absurd Std.ExtTreeMap.getElem?_empty hv

section Steps

variable {ys zs : Running} {later : List (List Graph.Component)} (hc : Closed s₀ ids all)
include hc

theorem tracked_advance (hx : Config.Tracked r s₀ ids all ⟨ys ++ (c, p) :: zs, d, later, st⟩)
    (h : p.step r.learner st = some (p', st')) :
    Config.Tracked r s₀ ids all ⟨ys ++ (c, p') :: zs, d, later, st'⟩ := by
  have hcomponents : Config.components ⟨ys ++ (c, p') :: zs, d, later, st'⟩ =
      Config.components ⟨ys ++ (c, p) :: zs, d, later, st⟩ := by simp [Config.components]
  have hmem : (c, p) ∈ ys ++ (c, p) :: zs := by simp
  obtain ⟨howes, hmemo⟩ := owes_step (hx.owes _ hmem) h
  -- The components of the others are apart from this one, so nothing of theirs is written.
  have hothers : ∀ y ∈ ys ++ zs, ∀ id ∈ y.1, st'.memo[id]? = st.memo[id]? := by
    intro y hy id hid
    refine (hmemo id).resolve_right fun hown => ?_
    have hn := (List.nodup_flatten.1 hx.apart).2
    rw [Config.components, List.map_append, List.map_cons,
      List.pairwise_middle List.Disjoint.symm, List.pairwise_cons, ← List.map_append] at hn
    exact hn.1 y.1 (List.mem_map_of_mem hy) hown.1 hid
  have hsplit : ∀ {q : Process} {y}, y ∈ ys ++ (c, q) :: zs → y = (c, q) ∨ y ∈ ys ++ zs := by
    intro q y hy
    rcases List.mem_append.1 hy with hy | hy
    · exact Or.inr (List.mem_append_left _ hy)
    · exact (List.mem_cons.1 hy).imp_right (List.mem_append_right _)
  have hkept : ∀ y ∈ ys ++ zs, y ∈ ys ++ (c, p) :: zs := fun y hy =>
    (List.mem_append.1 hy).elim (List.mem_append_left _)
      fun hy => List.mem_append_right _ (List.mem_cons_of_mem _ hy)
  refine ⟨hx.later, hcomponents ▸ hx.begun, hcomponents ▸ hx.covers, hcomponents ▸ hx.apart,
    fun y hy => ?_, fun y hy => ?_, fun v hv hlt => ?_, fun v hv => ?_⟩
  · rcases hsplit hy with rfl | hy
    · exact howes
    · exact (hx.owes y (hkept y hy)).congr (hothers y hy)
  · rcases hsplit hy with rfl | hy
    · exact within_step (hx.within (c, p) hmem) h
    · exact hx.within y (hkept y hy)
  · rcases hmemo v with hsame | ⟨-, hnone⟩
    · exact hsame ▸ hx.earlier v hv hlt
    · exact absurd hnone (hx.earlier v hv hlt)
  · rcases hmemo v with hsame | ⟨hvc, -⟩
    · exact hx.only v (hsame ▸ hv)
    · obtain ⟨n, hn, hgen⟩ := hx.begun c (List.mem_map_of_mem hmem)
      refine ⟨hc.inClosure_of_inGeneration hgen hvc, ?_⟩
      rw [Graph.level_eq (Graph.wellFormed_ofModules all) hgen hvc]
      exact hn ▸ Nat.lt_succ_self n

theorem tracked_begin
    (hx : Config.Tracked (runOf e learner now all) s₀ ids all ⟨ys, d, gen :: later, st⟩)
    (hdone : ∀ y ∈ ys, y.2 = .done) :
    Config.Tracked (runOf e learner now all) s₀ ids all
      ⟨started (runOf e learner now all) d gen, d + 1, later, st⟩ := by
  have hg := Graph.wellFormed_ofModules all
  obtain ⟨first, rest, hfirst, hlater, hdrop⟩ := List.forall₂_cons_right_iff.1 hx.later
  obtain ⟨hgen, hrest⟩ := Graph.generation_of_drop hdrop
  have hin : ∀ c ∈ gen, (Graph.ofModules all).InGeneration d c := fun c hcg =>
    ⟨first, hgen, hfirst.mem_iff.2 hcg⟩
  have hcomponents : Config.components ⟨started (runOf e learner now all) d gen, d + 1, later, st⟩ =
      gen := (List.map_map ..).trans (List.map_id gen)
  have hmodule : ∀ c ∈ gen, ∀ v ∈ c, ∃ m, (tableOf all)[v]? = some m ∧ m.id = v := by
    intro c hcg v hv
    obtain ⟨m, hm, rfl, -⟩ := hc.exists_module (hc.inClosure_of_inGeneration (hin c hcg) hv)
    exact ⟨m, hc.getElem?_tableOf hm, rfl⟩
  refine ⟨hrest ▸ hlater, fun c hcg => ?_, fun v hv hlevel => ?_, ?_, fun y hy => ?_,
    fun y hy => ?_, fun v hv hlt => ?_, fun v hv => ?_⟩
  · exact ⟨d, rfl, hin c (hcomponents ▸ hcg)⟩
  · obtain ⟨c, hvc, gen', hgen', hcg⟩ := Graph.exists_inGeneration_level hg (hc.mem_nodes_iff.2 hv)
    rw [Nat.succ.inj hlevel, hgen] at hgen'
    cases hgen'
    rw [hcomponents]
    exact ⟨c, hfirst.mem_iff.1 hcg, hvc⟩
  · rw [hcomponents]
    exact hfirst.flatten.nodup_iff.1 (Graph.nodup_generation hg hgen)
  · obtain ⟨c, hcg, rfl⟩ := List.mem_map.1 hy
    refine ⟨c, remembers_ofComponent (hmodule c hcg),
      Graph.nodup_component hg (Graph.mem_components_of_inGeneration hg (hin c hcg)), fun v => ?_⟩
    -- What is in the memo stands in a generation before.
    refine iff_self_and.2 fun hv => by_contra fun hmemo => ?_
    have hlevel := (hx.only v hmemo).2
    rw [Graph.level_eq hg (hin c hcg) hv] at hlevel
    exact Nat.lt_irrefl d hlevel
  · obtain ⟨c, hcg, rfl⟩ := List.mem_map.1 hy
    refine within_ofComponent (fun v hv m hm => ?_) fun hbar v hv m hm u hu => ?_
    · obtain ⟨n, hn, rfl⟩ := hmodule c hcg v hv
      cases hn.symm.trans hm
      exact hv
    · exact ⟨(Bool.or_eq_false_iff.1 hbar).1, v, hv, m, hm, hu⟩
  · rcases Nat.lt_succ_iff_lt_or_eq.1 hlt with hlt | heq
    · exact hx.earlier v hv hlt
    · obtain ⟨c, hcg, hvc⟩ := hx.covers v hv heq
      obtain ⟨⟨c, p⟩, hy, rfl⟩ := List.mem_map.1 hcg
      obtain rfl : p = .done := hdone _ hy
      obtain ⟨l, rfl, -, hl⟩ := hx.owes _ hy
      exact fun hnone => List.not_mem_nil ((hl v).2 ⟨hvc, hnone⟩)
  · exact ⟨(hx.only v hv).1, Nat.lt_succ_of_lt (hx.only v hv).2⟩

theorem tracked_step (hx : x.Tracked (runOf e learner now all) s₀ ids all)
    (h : Step (runOf e learner now all) x y) : y.Tracked (runOf e learner now all) s₀ ids all := by
  cases h with
  | advance hstep => exact tracked_advance hc hx hstep
  | begin hdone => exact tracked_begin hc hx hdone

theorem tracked_of_reaches (hx : x.Tracked (runOf e learner now all) s₀ ids all)
    (h : ReflTransGen (Step (runOf e learner now all)) x y) :
    y.Tracked (runOf e learner now all) s₀ ids all := by
  induction h with
  | refl => exact hx
  | tail _ hstep ih => exact tracked_step hc ih hstep

theorem memo_of_reaches {q : Progression} (hx : x.Tracked (runOf e learner now all) s₀ ids all)
    (h : ReflTransGen (Step (runOf e learner now all)) x y) (hv : x.shared.memo[v]? = some q) :
    y.shared.memo[v]? = some q := by
  induction h with
  | refl => exact hv
  | tail hxy hstep ih =>
    have hy := tracked_of_reaches hc hx hxy
    cases hstep with
    | @advance ys zs c p p' depth later st st' hp =>
      rcases (owes_step (hy.owes (c, p) (by simp)) hp).2 v with hsame | ⟨-, hnone⟩
      · exact hsame.trans ih
      · cases hnone.symm.trans ih
    | begin => exact ih

end Steps

/-! ## Runs are interleavings -/

section Runs

variable {ys : Running} {later : List (List Graph.Component)}

theorem reaches_run (ys zs : Running) (p : Process) (st : Shared) :
    ∃ q st', ReflTransGen (Step r) ⟨ys ++ (c, p) :: zs, d, later, st⟩
        ⟨ys ++ (c, q) :: zs, d, later, st'⟩ ∧
      (q = .done ∧ p.run r.learner st = .ok st' ∨
        ∃ f, q = .failed f ∧ p.run r.learner st = .error f) := by
  induction p generalizing st with
  | done => exact ⟨.done, st, .refl, Or.inl ⟨rfl, rfl⟩⟩
  | failed f => exact ⟨.failed f, st, .refl, Or.inr ⟨f, rfl, rfl⟩⟩
  | ask q next ih =>
    obtain ⟨p', st', hsteps, hend⟩ := ih (q.answer r.learner st) st
    exact ⟨p', st', .head (.advance rfl) hsteps, hend⟩
  | act x next ih =>
    cases hcheck : x.check st with
    | ok _ =>
      obtain ⟨p', st', hsteps, hend⟩ := ih (x.change r.learner st)
      refine ⟨p', st', .head (.advance (by rw [Process.step, hcheck])) hsteps, ?_⟩
      rwa [Process.run_act_of_ok x hcheck]
    | error f =>
      exact ⟨.failed f, st, .single (.advance (by rw [Process.step, hcheck])),
        Or.inr ⟨f, rfl, Process.run_act_of_error x hcheck⟩⟩

theorem reaches_runAll (later : List (List Graph.Component)) (hys : ∀ y ∈ ys, y.2 = .done)
    (zs : Running) (st : Shared) :
    ∃ ys' st', ReflTransGen (Step r) ⟨ys ++ zs, d, later, st⟩ ⟨ys', d, later, st'⟩ ∧
      ((∀ y ∈ ys', y.2 = .done) ∧ runAll r.learner zs st = .ok st' ∨
        ∃ c f, (c, .failed f) ∈ ys' ∧ runAll r.learner zs st = .error f) := by
  induction zs generalizing ys st with
  | nil =>
    rw [List.append_nil]
    exact ⟨ys, st, .refl, Or.inl ⟨hys, rfl⟩⟩
  | cons z zs ih =>
    obtain ⟨c, p⟩ := z
    obtain ⟨q, st₁, hsteps, ⟨rfl, hrun⟩ | ⟨f, rfl, hrun⟩⟩ :=
      reaches_run ys zs p st
    · rw [List.append_cons ys (c, .done)] at hsteps
      have hys' : ∀ y ∈ ys ++ [(c, Process.done)], y.2 = .done :=
        List.forall_mem_append.2 ⟨hys, List.forall_mem_singleton.2 rfl⟩
      obtain ⟨ys', st', hsteps', hend⟩ := ih hys' st₁
      refine ⟨ys', st', hsteps.trans hsteps', ?_⟩
      rwa [runAll, hrun]
    · refine ⟨_, st₁, hsteps, Or.inr ⟨c, f, by simp, ?_⟩⟩
      rw [runAll, hrun]

theorem reaches_finishLater (hys : ∀ y ∈ ys, y.2 = .done) (gens : List (List Graph.Component))
    (st : Shared) :
    ∃ x, ReflTransGen (Step r) ⟨ys, d, gens, st⟩ x ∧
      (x.Ended ∧ finishLater r d gens st = .ok x.shared ∨
        ∃ c f, (c, .failed f) ∈ x.running ∧ finishLater r d gens st = .error f) := by
  induction gens generalizing ys d st with
  | nil => exact ⟨⟨ys, d, [], st⟩, .refl, Or.inl ⟨⟨rfl, hys⟩, rfl⟩⟩
  | cons gen gens ih =>
    have hnone : ∀ y ∈ ([] : Running), y.2 = .done := nofun
    obtain ⟨ys', st', hsteps, ⟨hys', hrun⟩ | ⟨c, f, hf, hrun⟩⟩ :=
      reaches_runAll (r := r) (d := d + 1) gens hnone (started r d gen) st
    · obtain ⟨x, hsteps', hend⟩ := ih (d := d + 1) hys' st'
      refine ⟨x, .head (.begin hys) (hsteps.trans hsteps'), ?_⟩
      rwa [finishLater, hrun]
    · refine ⟨_, .head (.begin hys) hsteps, Or.inr ⟨c, f, hf, ?_⟩⟩
      rw [finishLater, hrun]

end Runs

/-- What is true of the evaluation in turn is true of it with any number of workers. -/
theorem ends_evaluateGenerations_of_sequential {P : Memo → Session → Prop} {E : Failure → Prop}
    (workers : Nat) (limit : Option Nat)
    (h : (evaluateGenerations ⟨1, limit⟩ r d gens memo).Ends σ P E) :
    (evaluateGenerations ⟨workers, limit⟩ r d gens memo).Ends σ P E := by
  induction gens generalizing d memo σ with
  | nil => exact h
  | cons gen gens ih =>
    unfold evaluateGenerations at h ⊢
    dsimp only at h ⊢
    rw [if_neg (Nat.lt_irrefl 1)] at h
    have hturn := h.of_bind
    split
    · exact (ends_evaluateTogether hturn).bind fun _ _ h' => ih h'
    · exact hturn.bind fun _ _ h' => ih h'

/-- An evaluation does what one of the interleavings does, and fails as one of them fails. -/
theorem ends_evaluateGenerations_reaches (e : Evaluator) (r : Run)
    (gens : List (List Graph.Component)) (σ : Session) :
    (evaluateGenerations e r 0 gens ∅).Ends σ
      (fun memo σ' => ∃ x, ReflTransGen (Step r) (.before gens σ) x ∧ x.Ended ∧
        x.shared = ⟨memo, σ'⟩)
      fun f => ∃ x, ReflTransGen (Step r) (.before gens σ) x ∧ ∃ c, (c, .failed f) ∈ x.running := by
  refine ends_evaluateGenerations_of_sequential e.workers e.depthLimit ?_
  have hnone : ∀ y ∈ ([] : Running), y.2 = .done := nofun
  obtain ⟨x, hsteps, hend⟩ := reaches_finishLater (r := r) (d := 0) hnone gens ⟨∅, σ⟩
  rw [← outcome_evaluateGenerations e.depthLimit] at hend
  unfold Action.Ends
  cases hx : evaluateGenerations ⟨1, e.depthLimit⟩ r 0 gens ∅ σ with
  | ok memo σ' =>
    rw [hx] at hend
    rcases hend with ⟨hended, hshared⟩ | ⟨c, f, -, hf⟩
    · exact ⟨x, hsteps, hended, (Except.ok.inj hshared).symm⟩
    · cases hf
  | error f σ' =>
    rw [hx] at hend
    rcases hend with ⟨-, hok⟩ | ⟨c, f', hf, he⟩
    · cases hok
    · cases he
      exact ⟨x, hsteps, c, hf⟩

/-! ## Every interleaving -/

/-- What is asked of the memo are prerequisites of modules off every circle. Of these it holds
results that stay, and nothing just of those that the store does not know. -/
structure Config.MemoSound (r : Run) (s : Store) (x : Config) : Prop where
  asked : ∀ {c u next}, (c, .ask (.found u) next) ∈ x.running → u ∈ checked r c
  found : ∀ {c}, c ∈ x.components → ∀ u ∈ checked r c, s.hasModule u = true →
    ∃ q, x.shared.memo[u]? = some q ∧
      ∀ y, ReflTransGen (Step r) x y → y.shared.memo[u]? = some q
  missing : ∀ {c}, c ∈ x.components → ∀ u ∈ checked r c,
    x.shared.memo[u]? = none ↔ s.hasModule u = false
  skipped : ∀ {c}, c ∈ x.components → ∀ u ∈ checked r c, s.hasModule u = false →
    prerequisiteMet x.shared.memo u = true
  fresh : ∀ {c id q next}, (c, .act (.remember id q) next) ∈ x.running → x.shared.memo[id]? = none

section Sound

variable (hc : Closed s₀ ids all) (hx : x.Tracked (runOf e learner now all) s₀ ids all)
include hc hx

/-- A known prerequisite of a module off every circle was evaluated in an earlier generation. -/
theorem exists_result_of_checked (hcx : c ∈ x.components)
    (hu : u ∈ checked (runOf e learner now all) c) (hk : s₀.hasModule u = true) :
    ∃ q, x.shared.memo[u]? = some q := by
  obtain ⟨hcyclic, v, hv, m, hm, hum⟩ := hu
  obtain ⟨d, hd, hgen⟩ := hx.begun c hcx
  have hin := hc.inClosure_of_inGeneration hgen hv
  obtain ⟨hmem, rfl⟩ := hc.mem_of_tableOf hm
  have hreq : s₀.Requires m.id u := ⟨⟨m, hc.read m hmem, hum⟩, hk⟩
  have hoff : ¬ OnCircle s₀.Requires m.id := fun ho =>
    Bool.eq_false_iff.1 hcyclic ((hc.isCyclic_iff hgen hv hin).2 ho)
  have hlevel := hc.level_lt_of_requires hin hreq hoff
  rw [Graph.level_eq (Graph.wellFormed_ofModules all) hgen hv] at hlevel
  refine Option.ne_none_iff_exists'.1 (hx.earlier u (hin.tail hreq) ?_)
  rw [hd]
  exact Nat.succ_lt_succ hlevel

theorem memo_eq_none_of_unknown (hk : s₀.hasModule u = false) : x.shared.memo[u]? = none := by
  by_contra hmemo
  obtain ⟨m, -, rfl, hm⟩ := hc.exists_module (hx.only u hmemo).1
  cases hk.symm.trans (Store.hasModule_of_getModule hm)

theorem memoSound_of_tracked : x.MemoSound (runOf e learner now all) s₀ where
  asked h := (hx.within _ h).1
  found hcx u hu hk := by
    obtain ⟨q, hq⟩ := exists_result_of_checked hc hx hcx hu hk
    exact ⟨q, hq, fun y hy => memo_of_reaches hc hx hy hq⟩
  missing hcx u hu := by
    refine ⟨fun hnone => ?_, memo_eq_none_of_unknown hc hx⟩
    by_contra hk
    obtain ⟨q, hq⟩ := exists_result_of_checked hc hx hcx hu (Bool.not_eq_false _ ▸ hk)
    cases hnone.symm.trans hq
  skipped _ u _ hk := by rw [prerequisiteMet, memo_eq_none_of_unknown hc hx hk]
  fresh h := by
    obtain ⟨l, ⟨rest, rfl, -⟩, -, hl⟩ := hx.owes _ h
    exact ((hl _).1 List.mem_cons_self).2

end Sound

/-- Whatever the order of the components, and however they are interleaved, a prerequisite that is
checked is missing in the memo just if the store does not know it, and no result is written over.
An evaluation with any number of workers is one of these runs, also if it fails. -/
theorem memo_misses_unknown_only (hplan : e.plan now learner ids σ = .ok r τ)
    (hgens : List.Forall₂ List.Perm r.graph.generations gens) :
    (∀ x, ReflTransGen (Step r) (.before gens τ) x → x.MemoSound r σ.store) ∧
    (evaluateGenerations e r 0 gens ∅).Ends τ
      (fun memo τ' => ∃ x, ReflTransGen (Step r) (.before gens τ) x ∧ x.Ended ∧
        x.shared = ⟨memo, τ'⟩)
      fun f => ∃ x, ReflTransGen (Step r) (.before gens τ) x ∧
        ∃ c, (c, .failed f) ∈ x.running := by
  obtain ⟨-, ⟨all, hc, rfl⟩, -, -⟩ := (ends_plan e now learner ids σ).of_ok hplan
  refine ⟨fun x hx => ?_, ends_evaluateGenerations_reaches e _ gens τ⟩
  exact memoSound_of_tracked hc (tracked_of_reaches hc (tracked_before hgens) hx)

theorem sample_memo_misses_unknown_only : ∃ r τ,
    Evaluator.plan ⟨2, none⟩ ⟨0, 0⟩ "ada" ["cells"] (.ofStore Sample.store) = .ok r τ ∧
    ∀ x, ReflTransGen (Step r) (.before (r.graph.generations.map List.reverse) τ) x →
      x.MemoSound r Sample.store := by
  have hknown : ∀ id ∈ ["cells"], Sample.store.hasModule id = true := by
    intro id hid
    rw [List.mem_singleton.1 hid]
    rfl
  obtain ⟨r, τ, hplan, -⟩ := (ends_plan ⟨2, none⟩ ⟨0, 0⟩ "ada" ["cells"]
    (.ofStore Sample.store)).exists_ok fun f => Sample.not_refusal_store hknown
  have hgens : List.Forall₂ List.Perm r.graph.generations
      (r.graph.generations.map List.reverse) :=
    List.forall₂_map_right_iff.2 (List.forall₂_same.2 fun gen _ => (List.reverse_perm gen).symm)
  exact ⟨r, τ, hplan, (memo_misses_unknown_only hplan hgens).1⟩

end Evaluation

end Pathway
