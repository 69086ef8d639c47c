import Mathlib.Algebra.BigOperators.Group.List.Lemmas
import Mathlib.Algebra.GroupWithZero.Nat
import Mathlib.Data.String.Basic
import Pathway.Proofs.Course.Canonical
import Pathway.Report.Table

/-!
# Every progression is counted once

The rows of a report are a sorted list of all progressions, with one row for each learner and
module. The summary counts them by module and state, and loses none on the way through groups,
columns and rows.
-/

namespace Pathway.Report

variable {ps : Progressions} {learner : LearnerId} {ms : List (ModuleId × Progression)}
  {rs : List Row} {module : ModuleId} {state : ModuleState} {a b c : Row × Nat}

/-- No learner stands twice, and no module twice for one learner. -/
structure IsMapping (ps : Progressions) : Prop where
  learners : (ps.map Prod.fst).Nodup
  modules : ∀ l ∈ ps, (l.2.map Prod.fst).Nodup

/-- All progressions as rows, in the order of the mapping. -/
def listed (ps : Progressions) : List Row :=
  ps.flatMap fun l => l.2.map fun x => rowOf l.1 x.1 x.2

/-! ## The order of rows -/

theorem rowLe_iff : rowLe a b = true ↔
    a.1.learner < b.1.learner ∨ a.1.learner = b.1.learner ∧ a.2 ≤ b.2 := by
  simp [rowLe]

theorem rowLe_trans (hab : rowLe a b = true) (hbc : rowLe b c = true) : rowLe a c = true := by
  rw [rowLe_iff] at *
  rcases hab with hab | ⟨hab, hab'⟩ <;> rcases hbc with hbc | ⟨hbc, hbc'⟩
  · exact Or.inl (lt_trans hab hbc)
  · exact Or.inl (hbc ▸ hab)
  · exact Or.inl (hab ▸ hbc)
  · exact Or.inr ⟨hab.trans hbc, hab'.trans hbc'⟩

theorem rowLe_total (a b : Row × Nat) : (rowLe a b || rowLe b a) = true := by
  rw [Bool.or_eq_true, rowLe_iff, rowLe_iff]
  rcases lt_trichotomy a.1.learner b.1.learner with h | h | h
  · exact Or.inl (Or.inl h)
  · exact (le_total a.2 b.2).imp (fun hle => Or.inr ⟨h, hle⟩) fun hle => Or.inr ⟨h.symm, hle⟩
  · exact Or.inr (Or.inl h)

/-- The rows of all learners, in the order of the mapping. -/
def numbered (ps : Progressions) : List (Row × Nat) := ps.flatMap fun l => numberedRows l.1 l.2

theorem map_fst_numberedRows :
    (numberedRows learner ms).map Prod.fst = ms.map fun x => rowOf learner x.1 x.2 := by
  have h : ms.map (fun x => rowOf learner x.1 x.2) =
      (ms.zipIdx.map Prod.fst).map fun x => rowOf learner x.1 x.2 := by rw [List.zipIdx_map_fst]
  rw [h, numberedRows, List.map_map, List.map_map]
  rfl

theorem map_fst_numbered : (numbered ps).map Prod.fst = listed ps := by
  simp only [numbered, listed, List.map_flatMap, map_fst_numberedRows]

theorem learner_of_numberedRows (ha : a ∈ numberedRows learner ms) : a.1.learner = learner := by
  obtain ⟨x, -, rfl⟩ := List.mem_map.1 ha
  rfl

theorem eq_of_place (ha : a ∈ numberedRows learner ms) (hb : b ∈ numberedRows learner ms)
    (h : a.2 = b.2) : a = b := by
  obtain ⟨⟨x, i⟩, hx, rfl⟩ := List.mem_map.1 ha
  obtain ⟨⟨y, j⟩, hy, rfl⟩ := List.mem_map.1 hb
  obtain rfl : i = j := h
  rw [List.mk_mem_zipIdx_iff_getElem?] at hx hy
  cases hx.symm.trans hy
  rfl

theorem sorted_numberedRows : (numberedRows learner ms).Pairwise fun a b => rowLe a b = true := by
  have hplaces : (ms.zipIdx.map Prod.snd).Pairwise (· < ·) := by
    rw [List.zipIdx_map_snd]
    exact List.pairwise_lt_range'
  refine List.pairwise_map.2 ((List.pairwise_map.1 hplaces).imp ?_)
  rintro ⟨x, i⟩ ⟨y, j⟩ h
  exact rowLe_iff.2 (Or.inr ⟨rfl, Nat.le_of_lt h⟩)

theorem filter_numberedRows (learner' : LearnerId) :
    (numberedRows learner ms).filter (·.1.learner == learner') =
      if learner = learner' then numberedRows learner ms else [] := by
  split
  · next h =>
    refine List.filter_eq_self.2 fun a ha => ?_
    rw [learner_of_numberedRows ha, h, beq_self_eq_true]
  · next h =>
    refine List.filter_eq_nil_iff.2 fun a ha => ?_
    rw [learner_of_numberedRows ha, beq_iff_eq]
    exact h

theorem filter_numbered (hn : (ps.map Prod.fst).Nodup) (hl : (learner, ms) ∈ ps) :
    (numbered ps).filter (·.1.learner == learner) = numberedRows learner ms := by
  induction ps with
  | nil => cases hl
  | cons l ps ih =>
    rw [List.map_cons, List.nodup_cons] at hn
    rw [numbered, List.flatMap_cons, List.filter_append, filter_numberedRows]
    rcases List.mem_cons.1 hl with rfl | hl
    · have hrest : (numbered ps).filter (·.1.learner == learner) = [] := by
        refine List.filter_eq_nil_iff.2 fun a ha => ?_
        obtain ⟨l', hl', ha⟩ := List.mem_flatMap.1 ha
        rw [learner_of_numberedRows ha, beq_iff_eq]
        rintro rfl
        exact hn.1 (List.mem_map.2 ⟨l', hl', rfl⟩)
      rw [if_pos rfl]
      exact (congrArg _ hrest).trans (List.append_nil _)
    · rw [if_neg, List.nil_append]
      · exact ih hn.2 hl
      · rintro rfl
        exact hn.1 (List.mem_map.2 ⟨_, hl, rfl⟩)

/-! ## Rows -/

/-- The rows are all progressions, by learner, and those of one learner in the given order. -/
structure Tabulates (ps : Progressions) (rs : List Row) : Prop where
  perm : rs.Perm (listed ps)
  once : (rs.map fun r => (r.learner, r.module)).Nodup
  sorted : rs.Pairwise fun a b => a.learner ≤ b.learner
  own : ∀ l ∈ ps, rs.filter (·.learner == l.1) = l.2.map fun x => rowOf l.1 x.1 x.2

theorem rows_eq : rows ps = ((numbered ps).mergeSort rowLe).map Prod.fst := rfl

theorem rows_perm : (rows ps).Perm (listed ps) := by
  rw [rows_eq, ← map_fst_numbered]
  exact (List.mergeSort_perm _ _).map _

theorem sorted_numbered (ps : Progressions) :
    ((numbered ps).mergeSort rowLe).Pairwise fun a b => rowLe a b = true := by
  have htrans : ∀ a b c, rowLe a b = true → rowLe b c = true → rowLe a c = true :=
    fun _ _ _ => rowLe_trans
  exact List.pairwise_mergeSort htrans rowLe_total (numbered ps)

theorem nodup_listed (h : IsMapping ps) :
    ((listed ps).map fun r => (r.learner, r.module)).Nodup := by
  have hkeys : (listed ps).map (fun r => (r.learner, r.module)) =
      ps.flatMap fun l => (l.2.map Prod.fst).map (Prod.mk l.1) := by
    simp only [listed, List.map_flatMap, List.map_map]
    rfl
  rw [hkeys, List.nodup_flatMap]
  refine ⟨fun l hl => (h.modules l hl).map fun _ _ he => (Prod.mk.inj he).2, ?_⟩
  refine (List.pairwise_map.1 h.learners).imp fun hne => ?_
  rintro ⟨learner, module⟩ hx hy
  obtain ⟨_, _, hx⟩ := List.mem_map.1 hx
  obtain ⟨_, _, hy⟩ := List.mem_map.1 hy
  exact hne ((Prod.mk.inj hx).1.trans (Prod.mk.inj hy).1.symm)

theorem tabulates_rows (h : IsMapping ps) : Tabulates ps (rows ps) where
  perm := rows_perm
  once := (rows_perm.map _).nodup_iff.2 (nodup_listed h)
  sorted := by
    rw [rows_eq]
    refine List.pairwise_map.2 ((sorted_numbered ps).imp fun hle => ?_)
    rcases rowLe_iff.1 hle with hlt | ⟨heq, -⟩
    · exact hlt.le
    · exact heq.le
  own l hl := by
    -- What is left of the sorted list and of the given one are sorted lists of the same rows.
    have hperm := (List.mergeSort_perm (numbered ps) rowLe).filter (·.1.learner == l.1)
    rw [filter_numbered h.learners hl] at hperm
    have hanti : ∀ a b, a ∈ ((numbered ps).mergeSort rowLe).filter (·.1.learner == l.1) →
        b ∈ numberedRows l.1 l.2 → rowLe a b = true → rowLe b a = true → a = b := by
      intro a b ha hb hab hba
      have ha' := hperm.mem_iff.1 ha
      have hlearner := (learner_of_numberedRows ha').trans (learner_of_numberedRows hb).symm
      refine eq_of_place ha' hb (le_antisymm ?_ ?_)
      · exact ((rowLe_iff.1 hab).resolve_left fun hlt => hlt.ne hlearner).2
      · exact ((rowLe_iff.1 hba).resolve_left fun hlt => hlt.ne hlearner.symm).2
    have heq := hperm.eq_of_pairwise hanti ((sorted_numbered ps).filter _) sorted_numberedRows
    rw [rows_eq, List.filter_map, ← map_fst_numberedRows, ← heq]
    rfl

/-! ## Counting -/

theorem lookup_map {α β : Type} [BEq α] [LawfulBEq α] (f : α → β) (l : List α) (a : α) :
    (l.map fun k => (k, f k)).lookup a = if a ∈ l then some (f a) else none := by
  induction l with
  | nil => rfl
  | cons k l ih =>
    rw [List.map_cons, List.lookup_cons, ih]
    by_cases h : a = k
    · subst h
      simp
    · simp [h, beq_false_of_ne h]

/-- How many of the rows are of the module and in the state. -/
def countOf (rs : List Row) (module : ModuleId) (state : ModuleState) : Nat :=
  rs.countP fun r => r.module == module && r.state == state

theorem cell_unstack : (Grid.unstack (groupSizes rs)).cell module state =
    countOf rs module state := by
  have hcount : (rs.map fun r => (r.module, r.state)).count (module, state) =
      countOf rs module state := by
    rw [List.count_eq_countP, List.countP_map]
    rfl
  rw [Grid.unstack, groupSizes]
  dsimp only
  rw [lookup_map]
  split
  · rw [Option.getD_some, hcount]
  · next h =>
    rw [List.mem_eraseDups] at h
    rw [Option.getD_none, ← hcount, List.count_eq_zero.2 h]

theorem mem_unstack {r : Row} (hr : r ∈ rs) :
    r.module ∈ (Grid.unstack (groupSizes rs)).modules ∧
      r.state ∈ (Grid.unstack (groupSizes rs)).states := by
  have hkey : ((r.module, r.state), (rs.map fun r => (r.module, r.state)).count
      (r.module, r.state)) ∈ groupSizes rs :=
    List.mem_map.2 ⟨_, List.mem_eraseDups.2 (List.mem_map.2 ⟨r, hr, rfl⟩), rfl⟩
  exact ⟨List.mem_eraseDups.2 (List.mem_map.2 ⟨_, hkey, rfl⟩),
    List.mem_eraseDups.2 (List.mem_map.2 ⟨_, hkey, rfl⟩)⟩

/-- Zeros stand only where there is nothing to count. -/
theorem cell_stateGrid : (stateGrid rs).cell module state = countOf rs module state := by
  unfold stateGrid Grid.reindex
  dsimp only
  split
  · exact cell_unstack
  · next hnew =>
    refine (List.countP_eq_zero.2 fun r hr hboth => hnew ?_).symm
    obtain ⟨hmodule, hstate⟩ := Bool.and_eq_true_iff.1 hboth
    rw [← eq_of_beq hmodule, ← eq_of_beq hstate]
    exact mem_unstack hr

theorem add_countOf (rs : List Row) (module : ModuleId) :
    countOf rs module .locked + countOf rs module .unlocked + countOf rs module .started +
      countOf rs module .completed = rs.countP (·.module == module) := by
  induction rs with
  | nil => rfl
  | cons r rs ih =>
    simp only [countOf, List.countP_cons] at ih ⊢
    cases r.module == module <;> cases r.state <;> simp at ih ⊢ <;> omega

theorem total_stateGrid : (stateGrid rs).total module = rs.countP (·.module == module) := by
  have htotal : (stateGrid rs).total module = countOf rs module .locked +
      (countOf rs module .unlocked + (countOf rs module .started +
        (countOf rs module .completed + 0))) := by
    rw [← cell_stateGrid, ← cell_stateGrid, ← cell_stateGrid, ← cell_stateGrid]
    rfl
  rw [htotal, ← add_countOf]
  omega

theorem countP_of_nodup (hn : (ms.map Prod.fst).Nodup) (q : Progression → Bool) :
    ms.countP (fun x => x.1 == module && q x.2) =
      if ms.any (fun x => x.1 == module && q x.2) then 1 else 0 := by
  induction ms with
  | nil => rfl
  | cons x ms ih =>
    rw [List.map_cons, List.nodup_cons] at hn
    rw [List.countP_cons, List.any_cons, ih hn.2]
    by_cases hx : (x.1 == module && q x.2) = true
    · -- The module does not come again.
      have hrest : ms.any (fun x => x.1 == module && q x.2) = false := by
        refine List.any_eq_false.2 fun y hy hboth => hn.1 ?_
        rw [eq_of_beq (Bool.and_eq_true_iff.1 hx).1, ← eq_of_beq (Bool.and_eq_true_iff.1 hboth).1]
        exact List.mem_map.2 ⟨y, hy, rfl⟩
      simp [hx, hrest]
    · rw [Bool.eq_false_iff.2 hx, Bool.false_or]
      rfl

theorem countP_listed (h : IsMapping ps) (module : ModuleId) (q : ModuleState → Bool) :
    (listed ps).countP (fun r => r.module == module && q r.state) =
      ps.countP fun l => l.2.any fun x => x.1 == module && q x.2.state := by
  obtain ⟨-, hmodules⟩ := h
  induction ps with
  | nil => rfl
  | cons l ps ih =>
    obtain ⟨hl, hrest⟩ := List.forall_mem_cons.1 hmodules
    rw [listed, List.flatMap_cons, List.countP_append, List.countP_map, List.countP_cons,
      ← ih hrest, Nat.add_comm]
    exact congrArg _ (countP_of_nodup hl fun p => q p.state)

/-! ## Summary -/

/-- There is one row for each module, in the order in which the modules first stand in the rows. It
counts the learners who have the module, by state. -/
structure Summarizes (ps : Progressions) (rs : List Row) (ss : List SummaryRow) : Prop where
  mem : ∀ id, id ∈ ss.map (·.module) ↔ id ∈ rs.map (·.module)
  inOrder : (ss.map (·.module)).Pairwise fun a b =>
    (rs.map (·.module)).idxOf a < (rs.map (·.module)).idxOf b
  count : ∀ r ∈ ss, ∀ state,
    r.count state = ps.countP fun l => l.2.any fun x => x.1 == r.module && x.2.state == state
  learners : ∀ r ∈ ss, r.learners = ps.countP fun l => l.2.any (·.1 == r.module)
  total : ∀ r ∈ ss,
    r.count .locked + r.count .unlocked + r.count .started + r.count .completed = r.learners
  all : (ss.map (·.learners)).sum = rs.length

theorem map_module_summary : (summary rs).map (·.module) = (rs.map (·.module)).eraseDups := by
  rw [summary, List.map_map]
  exact List.map_id _

theorem exists_of_summary {r : SummaryRow} (hr : r ∈ summary rs) :
    (∀ state, r.count state = countOf rs r.module state) ∧
      r.learners = rs.countP (·.module == r.module) := by
  obtain ⟨m, -, rfl⟩ := List.mem_map.1 hr
  exact ⟨fun state => cell_stateGrid, total_stateGrid⟩

theorem sum_learners : ((summary rs).map (·.learners)).sum = rs.length := by
  have hcounts : (summary rs).map (·.learners) =
      (rs.map (·.module)).eraseDups.map fun m => (rs.map (·.module)).count m := by
    rw [← map_module_summary, List.map_map]
    refine List.map_congr_left fun r hr => ?_
    rw [(exists_of_summary hr).2, Function.comp, List.count_eq_countP, List.countP_map]
    rfl
  have hdedup : (rs.map (·.module)).eraseDups.Perm (rs.map (·.module)).dedup :=
    (List.perm_ext_iff_of_nodup (nodup_eraseDups _) (List.nodup_dedup _)).2 fun m => by
      rw [List.mem_eraseDups, List.mem_dedup]
  rw [hcounts, (hdedup.map _).sum_eq, List.sum_map_count_dedup_eq_length, List.length_map]

theorem summarizes_summary (h : IsMapping ps) (hrs : rs.Perm (listed ps)) :
    Summarizes ps rs (summary rs) where
  mem id := by rw [map_module_summary, List.mem_eraseDups]
  inOrder := by
    rw [map_module_summary]
    exact pairwise_idxOf_eraseDups _
  count r hr state := by
    rw [(exists_of_summary hr).1, countOf, hrs.countP_eq]
    exact countP_listed h r.module (· == state)
  learners r hr := by
    have hlisted := countP_listed h r.module fun _ => true
    simp only [Bool.and_true] at hlisted
    rw [(exists_of_summary hr).2, hrs.countP_eq, hlisted]
  total r hr := by
    obtain ⟨hcount, hlearners⟩ := exists_of_summary hr
    rw [hlearners, ← add_countOf, hcount, hcount, hcount, hcount]
  all := sum_learners

end Pathway.Report

namespace Pathway.Sample

/-- Two learners who have seen different modules, the later one first. -/
def twoLearners : Report.Progressions :=
  [("eve", [("orientation", ⟨"eve", "orientation", .started, [], [], some 1, none, false⟩)]),
    ("ada", [("cells", ⟨"ada", "cells", .locked, [], [], none, none, false⟩),
      ("orientation", ⟨"ada", "orientation", .unlocked, [], [], some 1, none, false⟩)])]

theorem isMapping_twoLearners : Report.IsMapping twoLearners where
  learners := by decide
  modules l hl := by
    revert l
    decide

/-- Only one of the learners counts for the module that the other one has not seen. -/
example : (Report.summary (Report.rows twoLearners)).map (fun r => (r.module, r.learners)) =
    [("cells", 1), ("orientation", 2)] := by cbv

end Pathway.Sample
