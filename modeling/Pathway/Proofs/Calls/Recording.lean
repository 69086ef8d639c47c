import Pathway.Proofs.Calls.Changes
import Pathway.Proofs.Evaluation.Locality
import Pathway.Proofs.Evaluation.Monotone
import Pathway.Proofs.Evaluation.Plain

/-!
# Recording what a learner did

Requests that record or clear facts of an item touch nothing but the facts of that item. One that
records what a requirement asks for leaves a fact that meets the requirement, and that is no worse
than the one it replaces.
-/

open Relation

namespace Pathway

open Assessment

variable {s t : Store} {learner l : LearnerId} {item : ItemId} {i : Item} {σ : Session}
  {r : Request} {rs : List Request} {req : Requirement} {score : Option Store.Score}
  {kept : Option Binary64} {f : Fact}

/-! ## What meets a requirement -/

/-- The score is good enough for the requirement, if the requirement asks for one. -/
def Requirement.Reached : Requirement → Option Binary64 → Prop
  | .minScore threshold, score => ∃ x, score = some x ∧ threshold.le x = true
  | _, _ => True

/-- The call records what the requirement on the item asks of the learner. -/
def Call.Fulfils (learner : LearnerId) (item : ItemId) (req : Requirement) : Call → Prop
  | record l i kind score _ =>
    l = learner ∧ i = item ∧ kind = req.kind.name ∧ req.Reached (score.map (·.number))
  | recordScore l i score _ =>
    l = learner ∧ i = item ∧ req.kind = .minScore ∧ req.Reached (some score.number)
  | _ => False

theorem Store.exists_of_keptScore {x : Score} (h : s.keptScore (some x) = .ok kept)
    (hx : x.number ≠ .nan) :
    ∃ y, kept = some y ∧ (y = x.number ∨ y = x.number.dropZeroSign) := by
  unfold keptScore at h
  rw [Option.mapM_some] at h
  cases hread : x.read with
  | error f =>
    rw [hread] at h
    cases h
  | ok y =>
    obtain rfl := Score.number_of_read hread
    rw [hread] at h
    cases h
    cases s with
    | memory d => exact ⟨_, rfl, Or.inl rfl⟩
    | database r => exact ⟨_, if_neg hx, Or.inr rfl⟩

theorem reached_of_keptScore (h : req.Reached (score.map (·.number)))
    (hkept : s.keptScore score = .ok kept) : req.Reached kept := by
  cases req with
  | minScore threshold =>
    obtain ⟨x, hx, hle⟩ := h
    obtain ⟨y, rfl, rfl⟩ := Option.map_eq_some_iff.1 hx
    obtain ⟨z, rfl, rfl | rfl⟩ :=
      Store.exists_of_keptScore hkept (Binary64.ne_nan_of_le hle).2
    · exact ⟨_, rfl, hle⟩
    · exact ⟨_, rfl, (Binary64.le_dropZeroSign _ _).trans hle⟩
  | _ => trivial

theorem satisfied_set (hopen : i.contentLocked = false) (hkind : f.kind = req.kind)
    (hf : req.Reached f.score) (fs : ItemFacts) : satisfied (fs.set f) i req = true := by
  unfold satisfied ItemFacts.set
  cases req with
  | minScore threshold =>
    obtain ⟨x, hx, hle⟩ := hf
    simp [hopen, hkind, Requirement.kind, hx, hle]
  | _ => simp [hopen, hkind, Requirement.kind]

/-- Whatever left the requirement open is no better than what meets it. -/
theorem noWorseScore_of_open (hopen : i.contentLocked = false) (hkind : f.kind = req.kind)
    (hf : req.Reached f.score) {fs : ItemFacts} (hs : satisfied fs i req = false) (g : Fact)
    (hg : fs f.kind = some g) : NoWorseScore g.score f.score := by
  rw [hkind] at hg
  unfold satisfied at hs
  rw [hopen, Bool.not_false, Bool.true_and] at hs
  cases req with
  | minScore threshold =>
    obtain ⟨x, hx, hle⟩ := hf
    dsimp only at hs
    cases hscore : g.score with
    | none => trivial
    | some y =>
      rw [show fs .minScore = some g from hg, Option.bind_some, hscore] at hs
      by_cases hy : y = .nan
      · exact Or.inl hy
      · -- The old score is below the threshold, and the new one is not.
        have hbelow := (Binary64.le_total (Binary64.ne_nan_of_le hle).1 hy).resolve_left
          (Bool.eq_false_iff.1 hs)
        exact Or.inr ⟨x, hx, Binary64.le_trans hbelow hle⟩
  | _ => cases (congrArg Option.isSome hg).symm.trans hs

/-! ## Requests that act on an item -/

namespace Call

variable {c : Call} {i' : ItemId} {l' : LearnerId}

theorem puts_of_marks (h : c.Marks l item) : c.puts = [] := by
  cases c with
  | record | recordScore | clear => rfl
  | _ => exact h.elim

theorem not_evaluates_of_marks (h : c.Marks l item) : ¬ c.Evaluates := by
  cases c with
  | record | recordScore | clear => exact fun he => he
  | _ => exact h.elim

theorem marks_of_fulfils (h : c.Fulfils l item req) : c.Marks l item := by
  cases c with
  | record | recordScore => exact ⟨h.1, h.2.1⟩
  | _ => exact h.elim

theorem Marks.item_eq (h : c.Marks l item) (h' : c.Marks l' i') : i' = item := by
  cases c with
  | record | recordScore | clear => exact h'.2.symm.trans h.2
  | _ => exact h.elim

theorem Changes.actedOn (h : c.Changes s t) (hc : c.Marks l item) : s.ActedOn item t := by
  cases h with
  | facts hc' ht =>
    obtain rfl := hc.item_eq hc'
    refine ⟨ht.rest, fun l i hi => ?_⟩
    rw [ht.itemFacts, if_neg fun hli => hi hli.2.symm]
  | put hm _ =>
    rw [puts_of_marks hc] at hm
    cases hm
  | learners hc' | reset hc' | removal hc' | save hc' _ =>
    subst hc'
    exact hc.elim

end Call

theorem actedOn_next (hr : r.call.Marks l item) (σ : Session) :
    σ.store.ActedOn item (σ.next r).store :=
  Session.next_of_changes (I := fun t => σ.store.ActedOn item t)
    (Call.not_evaluates_of_marks hr) (.refl item σ.store) fun _ _ hs ht => hs.trans (ht.actedOn hr)

theorem actedOn_after (hrs : ∀ r ∈ rs, ∃ l, r.call.Marks l item) (σ : Session) :
    σ.store.ActedOn item (σ.after rs).store := by
  refine Session.after_of_next (I := fun τ => σ.store.ActedOn item τ.store) (.refl item σ.store) ?_
  intro r hr τ hτ
  obtain ⟨l, hmarks⟩ := hrs r hr
  exact hτ.trans (actedOn_next hmarks τ)

theorem exists_fact_of_record {satisfiedAt : Instant}
    (h : s.record learner item req.kind score satisfiedAt = .ok t)
    (hscore : req.Reached (score.map (·.number))) :
    ∃ f : Fact, f.kind = req.kind ∧ req.Reached f.score ∧
      s.FactsSet learner item ((s.itemFacts learner item).set f) t := by
  obtain ⟨kept, hk, hset⟩ := Store.factsSet_of_record h
  exact ⟨_, rfl, reached_of_keptScore hscore hk, hset⟩

theorem exists_fact_of_fulfils (hr : r.call.Fulfils learner item req)
    (h : σ.answer r = .ok .done) :
    ∃ f : Fact, f.kind = req.kind ∧ req.Reached f.score ∧
      σ.store.FactsSet learner item ((σ.store.itemFacts learner item).set f)
        (σ.next r).store := by
  obtain ⟨e, now, c⟩ := r
  cases c with
  | record l i name score satisfiedAt =>
    obtain ⟨rfl, rfl, rfl, hscore⟩ := hr
    refine exists_fact_of_record (updated_of_done
      (f := (·.record l i req.kind score (satisfiedAt.getD now))) ?_ h) hscore
    rw [Call.perform, Store.kindNamed_name]
    rfl
  | recordScore l i score satisfiedAt =>
    obtain ⟨rfl, rfl, hkind, hscore⟩ := hr
    refine exists_fact_of_record (updated_of_done
      (f := (·.record l i req.kind (some score) (satisfiedAt.getD now))) ?_ h) hscore
    rw [hkind]
    rfl
  | _ => exact hr.elim

end Pathway
