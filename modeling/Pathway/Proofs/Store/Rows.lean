import Mathlib.Data.List.Nodup
import Pathway.Proofs.Course.Modules
import Pathway.Proofs.Table
import Pathway.Store.Basic

/-!
# Rows

What is read of rows after others were written or deleted. A progression is read from its row as it
was, but for the ids of its key, and the facts on an item are as many as their rows.
-/

namespace Pathway

theorem RequirementKind.name_inj {k k' : RequirementKind} : k.name = k'.name ↔ k = k' := by
  refine ⟨fun h => ?_, congrArg name⟩
  have := congrArg ofName? h
  rw [ofName?_name, ofName?_name] at this
  exact Option.some.inj this

theorem RequirementKind.mem_all (k : RequirementKind) : k ∈ all := by
  cases k <;> simp [all]

theorem Column.check_eq_error {i : Int} {f : Failure} :
    check i = .error f ↔ f = .oversizedInteger ∧ Number.isSignedWord i = false := by
  unfold check
  cases Number.isSignedWord i <;> simp [eq_comm]

/-! ## Rows of progressions -/

theorem Met.ofDocument_document (m : Met) : Met.ofDocument m.document = .valid m := by
  obtain ⟨item, kind⟩ := m
  cases kind <;> rfl

theorem Unmet.ofDocument_document (u : Unmet) : Unmet.ofDocument u.document = .valid u := by
  obtain ⟨item, kind, threshold, score⟩ := u
  cases kind <;> cases threshold <;> cases score <;> rfl

theorem ProgressionRow.read_of (p : Progression) (learner : LearnerId) (id : ModuleId) :
    (of p).read learner id = some { p with learner := learner, module := id } := by
  have hmet : Check.list Met.ofDocument (.list (p.met.map Met.document)) = .valid p.met :=
    elementsFrom_map fun m _ => m.ofDocument_document
  have hunmet : Check.list Unmet.ofDocument (.list (p.unmet.map Unmet.document)) =
      .valid p.unmet := elementsFrom_map fun u _ => u.ofDocument_document
  have hmoment : p.completedAt.map (fun i => i.toTimestamp.toInstant) = p.completedAt := by
    simp only [Instant.toInstant_toTimestamp, Option.map_id']
  have hcollapsed : ((if p.collapsed then 1 else 0 : Int) != 0) = p.collapsed := by
    cases p.collapsed <;> rfl
  simp only [read, of, ModuleState.ofName?_name, hmet, hunmet, Checked.toOption, Option.map_map,
    Function.comp_def, hmoment, hcollapsed]
  rfl

namespace Rows

variable {r : Rows} {learner l : LearnerId} {id i : ModuleId} {p : Progression}

theorem loadProgression_insertProgression :
    (r.insertProgression learner id p).loadProgression l i =
      if learner = l ∧ id = i then some { p with learner := learner, module := id }
      else r.loadProgression l i := by
  simp only [loadProgression, insertProgression, Std.ExtTreeMap.getElem?_insert,
    Std.LawfulEqCmp.compare_eq_iff_eq, Prod.mk.injEq]
  split
  · next h =>
    obtain ⟨rfl, rfl⟩ := h
    exact ProgressionRow.read_of p _ _
  · rfl

theorem isSome_loadProgression (key : LearnerId × ModuleId) :
    (r.loadProgression key.1 key.2).isSome = r.progressions.contains key := by
  rw [← Std.ExtTreeMap.isSome_getElem?_eq_contains, loadProgression]
  cases hrow : r.progressions[key]? with
  | none => rfl
  | some row =>
    obtain ⟨_, p, rfl⟩ := row
    exact congrArg Option.isSome (ProgressionRow.read_of p key.1 key.2)

/-! ## Rows of facts -/

variable {item j : ItemId} {kind k : RequirementKind}

theorem itemFacts_record {score : Option Binary64} {satisfiedAt : Instant} :
    (r.record learner item kind score satisfiedAt).itemFacts l j =
      if learner = l ∧ item = j then
        (r.itemFacts learner item).set ⟨item, kind, satisfiedAt, score.bind Column.ofReal⟩
      else r.itemFacts l j := by
  funext k
  simp only [itemFacts, record, Std.ExtTreeMap.getElem?_insert,
    Std.LawfulEqCmp.compare_eq_iff_eq, Prod.mk.injEq, RequirementKind.name_inj]
  by_cases h : learner = l ∧ item = j
  · obtain ⟨rfl, rfl⟩ := h
    by_cases hk : kind = k
    · subst hk
      simp only [and_self, if_true, Option.map_some, ItemFacts.set]
      rfl
    · simp only [hk, Ne.symm hk, and_false, and_self, if_true, if_false, ItemFacts.set]
      rfl
  · rw [if_neg h, if_neg fun hl => h ⟨hl.1, hl.2.1⟩]
    rfl

theorem itemFacts_deleteFacts {q : String × String × String → Bool} :
    (r.deleteFacts q).1.itemFacts l j = fun k =>
      if q (l, j, k.name) = true then none else r.itemFacts l j k := by
  funext k
  simp only [itemFacts, deleteFacts, getElem?_filter_key r.facts fun key => !q key]
  cases q (l, j, k.name) <;> rfl

theorem size_facts (q : String → Bool) :
    (r.facts.filter fun key _ => key.1 == learner && key.2.1 == item && q key.2.2).size =
      RequirementKind.all.countP fun k => q k.name && (r.itemFacts learner item k).isSome := by
  let keys := (RequirementKind.all.filter fun k =>
    q k.name && (r.itemFacts learner item k).isSome).map fun k => (learner, item, k.name)
  have hkeys : keys.Nodup := by
    refine (List.Nodup.filter _ (by decide)).map fun a b hab => ?_
    exact RequirementKind.name_inj.1 (Prod.mk.inj (Prod.mk.inj hab).2).2
  have hperm : (r.facts.keys.filter fun key =>
      key.1 == learner && key.2.1 == item && q key.2.2).Perm keys := by
    refine (List.perm_ext_iff_of_nodup (.filter _ Std.ExtTreeMap.nodup_keys) hkeys).2 ?_
    rintro ⟨l, j, name⟩
    simp only [keys, List.mem_filter, List.mem_map, Std.ExtTreeMap.mem_keys, Bool.and_eq_true,
      beq_iff_eq, itemFacts, Option.isSome_map, Prod.mk.injEq]
    constructor
    · rintro ⟨hmem, ⟨rfl, rfl⟩, hq⟩
      obtain ⟨k, rfl⟩ := r.kinds _ (Std.ExtTreeMap.contains_iff_mem.2 hmem)
      exact ⟨k, ⟨k.mem_all, hq, Std.ExtTreeMap.mem_iff_isSome_getElem?.1 hmem⟩, rfl, rfl, rfl⟩
    · rintro ⟨k, ⟨-, hq, hsome⟩, rfl, rfl, rfl⟩
      exact ⟨Std.ExtTreeMap.mem_iff_isSome_getElem?.2 hsome, ⟨rfl, rfl⟩, hq⟩
  rw [← Std.ExtTreeMap.length_keys, Std.ExtTreeMap.keys_filter_key, hperm.length_eq,
    List.length_map, List.countP_eq_length_filter]

end Rows

end Pathway
