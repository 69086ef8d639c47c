import Mathlib.Data.List.Nodup
import Pathway.Course.Reading

/-!
# Well-formed modules

Every module that is read from a document is well formed. A well-formed module is read back from the
document that is written of it, as it was, just if its thresholds are finite.
-/

namespace Pathway

open Check

/-- The items stand in walking order. -/
def Module.InOrder (m : Module) : Prop := m.items.Pairwise fun i j => i.place.le j.place = true

/-- What a document says of a module, whatever the module is. -/
structure Module.WellFormed (m : Module) : Prop where
  id : m.id ≠ ""
  itemIds : ∀ i ∈ m.items, i.id ≠ ""
  thresholds : ∀ i ∈ m.items, ∀ t, i.requirement = some (.minScore t) → Binary64.zero.le t = true
  distinct : (m.items.map (·.id)).Nodup
  inOrder : m.InOrder
  prerequisites : m.prerequisites.Nodup

/-- No threshold is infinite, which the least score may be. -/
def Module.FiniteThresholds (m : Module) : Prop :=
  ∀ i ∈ m.items, ∀ t, i.requirement = some (.minScore t) → t.isFinite = true

/-- A well-formed module that a database has a form for. -/
structure Module.Storable (m : Module) : Prop extends m.WellFormed where
  finite : ∀ i ∈ m.items, ∀ t, i.requirement = some (.minScore t) → t.isFinite = true
  position : Number.isSignedWord m.position = true
  positions : ∀ i ∈ m.items, Number.isSignedWord i.position = true

/-! ## Lists -/

section Lists

variable {α : Type} {check : Check α}

@[elab_as_elim]
theorem eraseDups_induction {motive : List String → Prop} (nil : motive [])
    (cons : ∀ a l, motive (l.filter fun b => !b == a) → motive (a :: l)) (l : List String) :
    motive l := by
  induction h : l.length using Nat.strongRecOn generalizing l with
  | ind n ih =>
    cases l with
    | nil => exact nil
    | cons a l =>
      refine cons a l (ih _ ?_ _ rfl)
      rw [← h, List.length_cons]
      exact Nat.lt_succ_of_le (List.length_filter_le _ _)

theorem nodup_eraseDups (l : List String) : l.eraseDups.Nodup := by
  induction l using eraseDups_induction with
  | nil => exact List.nodup_nil
  | cons a l ih =>
    rw [List.eraseDups_cons, List.nodup_cons, List.mem_eraseDups]
    exact ⟨by simp, ih⟩

theorem eraseDups_of_nodup {l : List String} (h : l.Nodup) : l.eraseDups = l := by
  induction l with
  | nil => rfl
  | cons a l ih =>
    obtain ⟨ha, hl⟩ := List.nodup_cons.1 h
    have hfilter : l.filter (fun b => !b == a) = l := by
      refine List.filter_eq_self.2 fun b hb => ?_
      rw [Bool.not_eq_true', beq_eq_false_iff_ne]
      rintro rfl
      exact ha hb
    rw [List.eraseDups_cons, hfilter, ih hl]

theorem find?_eraseDups (p : String → Bool) (l : List String) :
    l.eraseDups.find? p = l.find? p := by
  induction l using eraseDups_induction with
  | nil => rfl
  | cons a l ih =>
    rw [List.eraseDups_cons, List.find?_cons, List.find?_cons, ih]
    cases ha : p a with
    | true => rfl
    | false =>
      -- What is taken out would not be found.
      dsimp only
      rw [List.find?_filter]
      congr 1
      funext b
      by_cases hb : b = a
      · simp [hb, ha]
      · simp [hb]

theorem repeatedIds_of_nodup {l : List String} (h : l.Nodup) : repeatedIds l = [] := by
  have hfilter : l.filter (fun i => 1 < l.count i) = [] := by
    refine List.filter_eq_nil_iff.2 fun i _ => ?_
    have := List.nodup_iff_count_le_one.1 h i
    simpa using this
  rw [repeatedIds, hfilter, List.eraseDups_nil, sortIds, List.mergeSort_nil]

theorem elementsFrom_map {write : α → Document} {xs : List α} {n : Nat}
    (h : ∀ x ∈ xs, check (write x) = .valid x) :
    elementsFrom check n (xs.map write) = .valid xs := by
  induction xs generalizing n with
  | nil => rfl
  | cons x xs ih =>
    rw [List.map_cons, elementsFrom, h x List.mem_cons_self,
      ih fun y hy => h y (List.mem_cons_of_mem _ hy)]
    rfl

end Lists

/-! ## Reading back -/

variable {m : Module} {i : Item} {t : Binary64}

theorem realFromZero_real (h : Binary64.zero.le t = true) : realFromZero (.real t) = .valid t :=
  if_pos h

theorem nonEmptyText_text {s : String} (h : s ≠ "") : nonEmptyText (.text s) = .valid s := by
  have hne : s.isEmpty = false := by
    rw [← Bool.not_eq_true, String.isEmpty_iff]
    exact h
  simp only [nonEmptyText, text, Checked.andThen, hne]
  rfl

theorem Requirement.ofDocument_document {r : Requirement}
    (hle : ∀ t, r = .minScore t → Binary64.zero.le t = true)
    (hfin : ∀ t, r = .minScore t → t.isFinite = true) :
    Requirement.ofDocument r.document = .valid r := by
  cases r with
  | minScore t =>
    have ht : (Requirement.minScore t).document =
        .record [("type", .text "min_score"), ("min_score", .real t)] := by
      simp only [Requirement.document, threshold?, Option.map_some, Option.getD_some,
        Binary64.document, if_pos (hfin t rfl)]
      rfl
    have hscore : optional realFromZero (.real t) = .valid (some t) := by
      rw [Check.optional, realFromZero_real (hle t rfl)]
      · rfl
      · exact Document.noConfusion
    rw [ht]
    show (Prod.mk <$> _ <*> (optional realFromZero (.real t)).under _).andThen _ = _
    rw [hscore]
    rfl
  | _ => rfl

theorem Item.ofDocument_document (hid : i.id ≠ "")
    (hle : ∀ t, i.requirement = some (.minScore t) → Binary64.zero.le t = true)
    (hfin : ∀ t, i.requirement = some (.minScore t) → t.isFinite = true) :
    Item.ofDocument i.document = .valid i := by
  have hrequirement : optional Requirement.ofDocument
      ((i.requirement.map Requirement.document).getD .null) = .valid i.requirement := by
    cases hr : i.requirement with
    | none => rfl
    | some r =>
      have hread := Requirement.ofDocument_document (r := r)
        (fun t ht => hle t (hr.trans (congrArg some ht)))
        fun t ht => hfin t (hr.trans (congrArg some ht))
      rw [Option.map_some, Option.getD_some, Check.optional, hread]
      · rfl
      · exact Document.noConfusion
  show Item.mk <$> (nonEmptyText (.text i.id)).under _ <*> _ <*> _ <*>
    (optional Requirement.ofDocument
      ((i.requirement.map Requirement.document).getD .null)).under _ <*> _ = _
  rw [hrequirement, nonEmptyText_text hid]
  rfl

theorem itemsOf_document (h : m.WellFormed) (hfin : m.FiniteThresholds) :
    itemsOf (.list (m.items.map Item.document)) = .valid m.items := by
  have hlist : list Item.ofDocument (.list (m.items.map Item.document)) = .valid m.items :=
    elementsFrom_map fun i hi =>
      Item.ofDocument_document (h.itemIds i hi) (h.thresholds i hi) (hfin i hi)
  have hids : repeatedIds (m.items.map fun i => i.place.2) = [] := repeatedIds_of_nodup h.distinct
  rw [itemsOf, hlist]
  show inOrder _ _ m.items = _
  rw [inOrder, hids]
  exact congrArg Checked.valid (List.mergeSort_of_pairwise h.inOrder)

theorem prerequisitesOf_document (h : m.prerequisites.Nodup) :
    prerequisitesOf (.list (m.prerequisites.map .text)) = .valid m.prerequisites := by
  have hlist : list text (.list (m.prerequisites.map .text)) = .valid m.prerequisites :=
    elementsFrom_map fun _ _ => rfl
  rw [prerequisitesOf, hlist]
  exact congrArg Checked.valid (eraseDups_of_nodup h)

theorem Module.ofDocument_document (h : m.WellFormed) (hfin : m.FiniteThresholds) :
    Module.ofDocument m.document = .valid m := by
  have hopens : optional moment ((m.unlockAt.map Instant.document).getD .null) =
      .valid m.unlockAt := by
    cases m.unlockAt <;> rfl
  show Module.mk <$> (nonEmptyText (.text m.id)).under _ <*> _ <*> _ <*>
    (itemsOf (.list (m.items.map Item.document))).under _ <*>
    (prerequisitesOf (.list (m.prerequisites.map .text))).under _ <*> _ <*> _ <*>
    (optional moment ((m.unlockAt.map Instant.document).getD .null)).under _ = _
  rw [hopens, nonEmptyText_text h.id, itemsOf_document h hfin,
    prerequisitesOf_document h.prerequisites]
  rfl

/-! ## What is read is well formed -/

section Readers

variable {α : Type} {check : Check α} {fs : Fields} {name : String} {a default : α} {d : Document}

theorem exists_of_field (h : field name check fs = .valid a) : ∃ d, check d = .valid a := by
  unfold field at h
  split at h
  · next d _ => exact ⟨d, Checked.valid_of_under h⟩
  · cases h

theorem exists_of_fieldOr (h : fieldOr name default check fs = .valid a) :
    a = default ∨ ∃ d, check d = .valid a := by
  unfold fieldOr at h
  split at h
  · next d _ => exact Or.inr ⟨d, Checked.valid_of_under h⟩
  · exact Or.inl (Checked.valid.inj h).symm

theorem exists_of_optional {o : Option α} (h : Check.optional check d = .valid o) :
    ∀ a ∈ o, ∃ d, check d = .valid a := by
  unfold Check.optional at h
  split at h
  · cases h
    nofun
  · obtain ⟨a, ha, rfl⟩ := Checked.map_eq_valid h
    rintro _ ⟨⟩
    exact ⟨_, ha⟩

theorem exists_of_elementsFrom {ds : List Document} {n : Nat} {xs : List α}
    (h : elementsFrom check n ds = .valid xs) : ∀ x ∈ xs, ∃ d, check d = .valid x := by
  induction ds generalizing n xs with
  | nil =>
    cases h
    nofun
  | cons d ds ih =>
    obtain ⟨_, rest, hhead, hrest, rfl⟩ := Checked.seq_eq_valid h
    obtain ⟨x, hx, rfl⟩ := Checked.map_eq_valid hhead
    intro y hy
    rcases List.mem_cons.1 hy with rfl | hy
    · exact ⟨d, Checked.valid_of_under hx⟩
    · exact ih hrest y hy

theorem exists_of_list {xs : List α} (h : list check d = .valid xs) :
    ∀ x ∈ xs, ∃ d, check d = .valid x := by
  unfold list at h
  split at h
  · exact exists_of_elementsFrom h
  · cases h

theorem exists_of_andThen {β : Type} {x : Checked α} {f : α → Checked β} {b : β}
    (h : x.andThen f = .valid b) : ∃ a, x = .valid a ∧ f a = .valid b := by
  cases x with
  | valid a => exact ⟨a, rfl, h⟩
  | faulty fs => cases h

theorem exists_of_record {f : Fields → Checked α} (h : record f d = .valid a) :
    ∃ fs, f fs = .valid a := by
  unfold record at h
  split at h
  · exact ⟨_, h⟩
  · cases h

theorem ne_empty_of_nonEmptyText {s : String} (h : nonEmptyText d = .valid s) : s ≠ "" := by
  obtain ⟨s', -, hs⟩ := exists_of_andThen h
  split at hs
  · cases hs
  · next hne =>
    cases hs
    rintro rfl
    exact hne rfl

theorem zero_le_of_realFromZero (h : realFromZero d = .valid t) : Binary64.zero.le t = true := by
  obtain ⟨x, -, hx⟩ := exists_of_andThen h
  split at hx
  · next hle =>
    cases hx
    exact hle
  · cases hx

theorem nodup_of_repeatedIds {l : List String} (h : repeatedIds l = []) : l.Nodup := by
  refine List.nodup_iff_count_le_one.2 fun i => ?_
  by_contra hi
  have hmem : i ∈ repeatedIds l := by
    have hcount : 1 < l.count i := by omega
    refine (List.mergeSort_perm _ _).mem_iff.2 (List.mem_eraseDups.2 ?_)
    exact List.mem_filter.2 ⟨List.count_pos_iff.1 (by omega), decide_eq_true hcount⟩
  rw [h] at hmem
  cases hmem

theorem eq_of_inOrder {what : String} {place : α → Place} {xs ys : List α}
    (h : inOrder what place xs = .valid ys) :
    ys = sortByPlace place xs ∧ (xs.map fun x => (place x).2).Nodup := by
  unfold inOrder at h
  split at h
  · next hids => exact ⟨(Checked.valid.inj h).symm, nodup_of_repeatedIds hids⟩
  · cases h

theorem exists_of_elementsFrom_map {β : Type} {write : β → Document} {ys : List β} {n : Nat}
    {xs : List α} (h : elementsFrom check n (ys.map write) = .valid xs) :
    ∀ y ∈ ys, ∃ x, check (write y) = .valid x := by
  induction ys generalizing n xs with
  | nil => nofun
  | cons y ys ih =>
    obtain ⟨_, rest, hhead, hrest, -⟩ := Checked.seq_eq_valid h
    obtain ⟨x, hx, -⟩ := Checked.map_eq_valid hhead
    intro z hz
    rcases List.mem_cons.1 hz with rfl | hz
    · exact ⟨x, Checked.valid_of_under hx⟩
    · exact ih hrest z hz

end Readers

/-! ## Thresholds that are not read back -/

/-- A threshold that is not finite becomes null, and a least score does without none. -/
theorem Requirement.isFinite_of_ofDocument_document {r : Requirement}
    (h : Requirement.ofDocument (Requirement.minScore t).document = .valid r) :
    t.isFinite = true := by
  by_contra hfin
  have ht : (Requirement.minScore t).document =
      .record [("type", .text "min_score"), ("min_score", .null)] := by
    simp only [Requirement.document, threshold?, Option.map_some, Option.getD_some,
      Binary64.document, if_neg hfin]
    rfl
  rw [ht] at h
  cases h

theorem Item.isFinite_of_ofDocument_document {j : Item}
    (h : Item.ofDocument i.document = .valid j) (ht : i.requirement = some (.minScore t)) :
    t.isFinite = true := by
  obtain ⟨_, _, h₁, _, -⟩ := Checked.seq_eq_valid h
  obtain ⟨_, read, -, hrequirement, -⟩ := Checked.seq_eq_valid h₁
  have hread : optional Requirement.ofDocument
      ((i.requirement.map Requirement.document).getD .null) = .valid read :=
    Checked.valid_of_under hrequirement
  rw [ht, Option.map_some, Option.getD_some] at hread
  obtain ⟨r, hr, -⟩ := Checked.map_eq_valid hread
  exact Requirement.isFinite_of_ofDocument_document hr

theorem Module.finiteThresholds_of_ofDocument_document {n : Module}
    (h : Module.ofDocument m.document = .valid n) : m.FiniteThresholds := by
  obtain ⟨_, _, h₁, _, -⟩ := Checked.seq_eq_valid h
  obtain ⟨_, _, h₂, _, -⟩ := Checked.seq_eq_valid h₁
  obtain ⟨_, _, h₃, _, -⟩ := Checked.seq_eq_valid h₂
  obtain ⟨_, _, h₄, _, -⟩ := Checked.seq_eq_valid h₃
  obtain ⟨_, items, -, hitems, -⟩ := Checked.seq_eq_valid h₄
  have hread : itemsOf (.list (m.items.map Item.document)) = .valid items :=
    Checked.valid_of_under hitems
  obtain ⟨read, hlist, -⟩ := exists_of_andThen hread
  intro i hi t ht
  obtain ⟨j, hj⟩ := exists_of_elementsFrom_map hlist i hi
  exact Item.isFinite_of_ofDocument_document hj ht

theorem Requirement.eq_of_ofParts {kind : RequirementKind} {threshold : Option Binary64}
    (h : Requirement.ofParts kind threshold = .valid (.minScore t)) : threshold = some t := by
  unfold ofParts at h
  split at h
  · next r hr =>
    cases h
    cases kind <;> cases threshold <;> cases hr
    rfl
  · split at h <;> cases h

theorem Requirement.zero_le_of_ofDocument {d : Document}
    (h : Requirement.ofDocument d = .valid (.minScore t)) : Binary64.zero.le t = true := by
  obtain ⟨fs, hfs⟩ := exists_of_record h
  obtain ⟨⟨kind, threshold⟩, hparts, hof⟩ := exists_of_andThen hfs
  obtain rfl := Requirement.eq_of_ofParts hof
  obtain ⟨_, threshold, hkind, hthreshold, hpair⟩ := Checked.seq_eq_valid hparts
  obtain ⟨kind', -, rfl⟩ := Checked.map_eq_valid hkind
  obtain ⟨-, rfl⟩ := Prod.mk.inj hpair
  rcases exists_of_fieldOr hthreshold with hnone | ⟨_, hsome⟩
  · cases hnone
  · obtain ⟨d, hd⟩ := exists_of_optional hsome t rfl
    exact zero_le_of_realFromZero hd

theorem Item.wellFormed_of_ofDocument {d : Document} (h : Item.ofDocument d = .valid i) :
    i.id ≠ "" ∧ ∀ t, i.requirement = some (.minScore t) → Binary64.zero.le t = true := by
  obtain ⟨fs, hfs⟩ := exists_of_record h
  obtain ⟨_, locked, h₁, _, rfl⟩ := Checked.seq_eq_valid hfs
  obtain ⟨_, requirement, h₂, hrequirement, rfl⟩ := Checked.seq_eq_valid h₁
  obtain ⟨_, position, h₃, _, rfl⟩ := Checked.seq_eq_valid h₂
  obtain ⟨_, title, h₄, _, rfl⟩ := Checked.seq_eq_valid h₃
  obtain ⟨id, hid, rfl⟩ := Checked.map_eq_valid h₄
  obtain ⟨_, hid⟩ := exists_of_field hid
  refine ⟨ne_empty_of_nonEmptyText hid, ?_⟩
  rintro t rfl
  rcases exists_of_fieldOr hrequirement with hnone | ⟨_, hsome⟩
  · cases hnone
  · obtain ⟨d, hd⟩ := exists_of_optional hsome _ rfl
    exact Requirement.zero_le_of_ofDocument hd

theorem Module.wellFormed_of_ofDocument {d : Document} (h : Module.ofDocument d = .valid m) :
    m.WellFormed := by
  obtain ⟨fs, hfs⟩ := exists_of_record h
  obtain ⟨_, _, h₁, _, rfl⟩ := Checked.seq_eq_valid hfs
  obtain ⟨_, _, h₂, _, rfl⟩ := Checked.seq_eq_valid h₁
  obtain ⟨_, _, h₃, _, rfl⟩ := Checked.seq_eq_valid h₂
  obtain ⟨_, prerequisites, h₄, hprerequisites, rfl⟩ := Checked.seq_eq_valid h₃
  obtain ⟨_, items, h₅, hitems, rfl⟩ := Checked.seq_eq_valid h₄
  obtain ⟨_, _, h₆, _, rfl⟩ := Checked.seq_eq_valid h₅
  obtain ⟨_, _, h₇, _, rfl⟩ := Checked.seq_eq_valid h₆
  obtain ⟨id, hid, rfl⟩ := Checked.map_eq_valid h₇
  have hvalid : (∀ i ∈ items, i.id ≠ "" ∧
      ∀ t, i.requirement = some (.minScore t) → Binary64.zero.le t = true) ∧
      (items.map (·.id)).Nodup ∧ items.Pairwise fun i j => i.place.le j.place = true := by
    rcases exists_of_fieldOr hitems with rfl | ⟨_, hitems⟩
    · exact ⟨nofun, List.nodup_nil, .nil⟩
    · obtain ⟨read, hread, horder⟩ := exists_of_andThen hitems
      obtain ⟨rfl, hdistinct⟩ := eq_of_inOrder horder
      refine ⟨fun i hi => ?_, ?_, sortByPlace_pairwise _ _⟩
      · obtain ⟨d, hd⟩ := exists_of_list hread i ((mem_sortByPlace _ _).1 hi)
        exact Item.wellFormed_of_ofDocument hd
      · exact ((sortByPlace_perm Item.place read).map (·.id)).nodup_iff.2 hdistinct
  obtain ⟨_, hid⟩ := exists_of_field hid
  refine ⟨ne_empty_of_nonEmptyText hid, fun i hi => (hvalid.1 i hi).1,
    fun i hi => (hvalid.1 i hi).2, hvalid.2.1, hvalid.2.2, ?_⟩
  rcases exists_of_fieldOr hprerequisites with rfl | ⟨_, hpre⟩
  · exact List.nodup_nil
  · obtain ⟨read, -, rfl⟩ := Checked.map_eq_valid hpre
    exact nodup_eraseDups read

end Pathway
