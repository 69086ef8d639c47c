import Pathway.Proofs.Course.Canonical

/-!
# Validating courses

Drafts are equivalent if they differ in nothing that the canonical form keeps, and then they are
read alike. A draft is equivalent to each of its shuffles, and to what was read of it.
-/

namespace Pathway

/-! ## Drafts of one course -/

/-- Two drafts that differ in nothing that the form keeps. -/
structure ModuleDraft.Equivalent (m m' : ModuleDraft) : Prop where
  id : m'.id = m.id
  name : m'.name = m.name
  position : m'.position = m.position
  items : m.items.Perm m'.items
  prerequisites : m'.prerequisites.eraseDups = m.prerequisites.eraseDups
  sequential : m'.sequential = m.sequential
  requiredCount : m'.requiredCount = m.requiredCount
  unlockAt : m'.unlockAt.map Timestamp.toInstant = m.unlockAt.map Timestamp.toInstant

structure CourseDraft.Equivalent (d d' : CourseDraft) : Prop where
  id : d'.id = d.id
  name : d'.name = d.name
  modules : ∃ ms, List.Forall₂ ModuleDraft.Equivalent d.modules ms ∧ ms.Perm d'.modules

theorem sortByPlace_of_nodup {α : Type} {place : α → Place} {xs ys : List α} (h : xs.Perm ys)
    (hids : (xs.map fun x => (place x).2).Nodup) : sortByPlace place xs = sortByPlace place ys :=
  sortByPlace_of_perm place xs h fun _ ha _ hb hplace =>
    List.inj_on_of_nodup_map hids ha hb (congrArg Prod.snd hplace)

namespace ModuleDraft

variable {m m' : ModuleDraft} {ms ns : List ModuleDraft}

theorem Equivalent.acceptable_iff (h : m.Equivalent m') : m'.Acceptable ↔ m.Acceptable := by
  have hitems : (∀ i ∈ m'.items, i.Acceptable) ↔ ∀ i ∈ m.items, i.Acceptable :=
    forall_congr' fun i => imp_congr_left h.items.mem_iff.symm
  have hdistinct : (m'.items.map (·.id)).Nodup ↔ (m.items.map (·.id)).Nodup :=
    (h.items.map _).nodup_iff.symm
  exact ⟨fun hm => ⟨h.id ▸ hm.id, hitems.1 hm.items, hdistinct.1 hm.distinct,
      h.requiredCount ▸ hm.requiredCount⟩,
    fun hm => ⟨h.id.symm ▸ hm.id, hitems.2 hm.items, hdistinct.2 hm.distinct,
      h.requiredCount.symm ▸ hm.requiredCount⟩⟩

theorem Equivalent.module_eq (h : m.Equivalent m') (hm : m.Acceptable) :
    m'.module = m.module := by
  simp only [ModuleDraft.module, h.id, h.name, h.position, h.prerequisites, h.sequential,
    h.requiredCount, h.unlockAt, sortByPlace_of_nodup (h.items.map _) hm.nodup_ids]

theorem map_id_of_equivalent (h : List.Forall₂ Equivalent ms ns) :
    ns.map (·.id) = ms.map (·.id) := by
  induction h with
  | nil => rfl
  | cons hm _ ih => rw [List.map_cons, List.map_cons, hm.id, ih]

theorem forall_acceptable_iff (h : List.Forall₂ Equivalent ms ns) :
    (∀ n ∈ ns, n.Acceptable) ↔ ∀ m ∈ ms, m.Acceptable := by
  induction h with
  | nil => exact Iff.rfl
  | cons hm _ ih => rw [List.forall_mem_cons, List.forall_mem_cons, hm.acceptable_iff, ih]

theorem map_module_of_equivalent (h : List.Forall₂ Equivalent ms ns)
    (hms : ∀ m ∈ ms, m.Acceptable) : ns.map (·.module) = ms.map (·.module) := by
  induction h with
  | nil => rfl
  | cons hm _ ih =>
    obtain ⟨hhead, hrest⟩ := List.forall_mem_cons.1 hms
    rw [List.map_cons, List.map_cons, hm.module_eq hhead, ih hrest]

theorem equivalent_draft_module (h : m.Acceptable) : m.Equivalent m.module.draft where
  id := rfl
  name := rfl
  position := rfl
  items := (canonical_module h).items.symm
  prerequisites := eraseDups_of_nodup (nodup_eraseDups m.prerequisites)
  sequential := rfl
  requiredCount := (canonical_module h).requiredCount
  unlockAt := by
    show ((m.unlockAt.map Timestamp.toInstant).map (·.toTimestamp)).map Timestamp.toInstant = _
    cases m.unlockAt <;> rfl

/-- The same module with its items in another order. -/
def Shuffles (m m' : ModuleDraft) : Prop := ∃ is, m.items.Perm is ∧ m' = { m with items := is }

theorem Shuffles.equivalent (h : m.Shuffles m') : m.Equivalent m' := by
  obtain ⟨is, hperm, rfl⟩ := h
  exact ⟨rfl, rfl, rfl, hperm, rfl, rfl, rfl, rfl⟩

end ModuleDraft

namespace CourseDraft

variable {d d' : CourseDraft}

theorem Equivalent.acceptable_iff (h : d.Equivalent d') : d'.Acceptable ↔ d.Acceptable := by
  obtain ⟨ms, hms, hperm⟩ := h.modules
  have hmodules : (∀ m ∈ d'.modules, m.Acceptable) ↔ ∀ m ∈ d.modules, m.Acceptable :=
    (forall_congr' fun m => imp_congr_left hperm.mem_iff.symm).trans
      (ModuleDraft.forall_acceptable_iff hms)
  have hdistinct : (d'.modules.map (·.id)).Nodup ↔ (d.modules.map (·.id)).Nodup := by
    rw [← ModuleDraft.map_id_of_equivalent hms]
    exact (hperm.map _).nodup_iff.symm
  exact ⟨fun hd => ⟨h.id ▸ hd.id, hmodules.1 hd.modules, hdistinct.1 hd.distinct⟩,
    fun hd => ⟨h.id.symm ▸ hd.id, hmodules.2 hd.modules, hdistinct.2 hd.distinct⟩⟩

theorem Equivalent.course_eq (h : d.Equivalent d') (hd : d.Acceptable) :
    d'.course = d.course := by
  obtain ⟨ms, hms, hperm⟩ := h.modules
  -- Module by module the same is made of both, so that only the order differs.
  have hsame : (d.modules.map (·.module)).Perm (d'.modules.map (·.module)) := by
    rw [← ModuleDraft.map_module_of_equivalent hms hd.modules]
    exact hperm.map _
  simp only [CourseDraft.course, h.id, h.name, sortByPlace_of_nodup hsame hd.nodup_ids]

theorem equivalent_draft_course (h : d.Acceptable) : d.Equivalent d.course.draft where
  id := rfl
  name := rfl
  modules := by
    refine ⟨(d.modules.map (·.module)).map (·.draft), ?_, ?_⟩
    · -- Before they are put into order, the modules stand as their drafts do.
      rw [List.map_map]
      exact List.forall₂_map_right_iff.2
        (List.forall₂_same.2 fun m hm => ModuleDraft.equivalent_draft_module (h.modules m hm))
    · exact ((sortByPlace_perm Module.place _).map _).symm

/-- The same course with its modules in another order, and the items of each. -/
def Shuffles (d d' : CourseDraft) : Prop :=
  ∃ ms, List.Forall₂ ModuleDraft.Shuffles d.modules ms ∧
    ∃ ns, ms.Perm ns ∧ d' = { d with modules := ns }

theorem Shuffles.equivalent (h : d.Shuffles d') : d.Equivalent d' := by
  obtain ⟨ms, hms, ns, hperm, rfl⟩ := h
  exact ⟨rfl, rfl, ms, hms.imp fun _ _ => ModuleDraft.Shuffles.equivalent, hperm⟩

/-- Documents that tell equivalent drafts are read alike. -/
theorem Equivalent.ofDocument_iff {doc doc' : Document} {c : Course} (h : d.Equivalent d')
    (hdoc : CourseDraft.shape doc d) (hdoc' : CourseDraft.shape doc' d') :
    Course.ofDocument doc' = .valid c ↔ Course.ofDocument doc = .valid c := by
  rw [Course.reads_ofDocument doc' d' hdoc' c, Course.reads_ofDocument doc d hdoc c,
    h.acceptable_iff]
  exact and_congr_right fun hd => by rw [h.course_eq hd]

end CourseDraft

/-! ## Validation -/

/-- A document whose fields have the declared types is valid just if what it tells is acceptable,
and then it is read as the one canonical form of that. Every document that tells the course that was
read gives it back, and the order of modules and items makes no difference. -/
theorem validation_is_canonical {doc : Document} {d : CourseDraft} (h : CourseDraft.shape doc d) :
    ((∃ c, Course.ofDocument doc = .valid c) ↔ d.Acceptable) ∧
    (d.Acceptable → ∀ c, Course.ofDocument doc = .valid c ↔ d.Canonical c) ∧
    (∀ c, Course.ofDocument doc = .valid c →
      ∀ doc', CourseDraft.shape doc' c.draft → Course.ofDocument doc' = .valid c) ∧
    ∀ d' doc', d.Shuffles d' → CourseDraft.shape doc' d' →
      ∀ c, Course.ofDocument doc' = .valid c ↔ Course.ofDocument doc = .valid c := by
  have hread := Course.reads_ofDocument doc d h
  refine ⟨⟨?_, fun hd => ⟨d.course, hread.valid hd⟩⟩, fun hd c => ?_, fun c hc doc' h' => ?_,
    fun d' doc' hd' h' c => hd'.equivalent.ofDocument_iff h h'⟩
  · rintro ⟨c, hc⟩
    exact (hread.ok hc).1
  · have hform := CourseDraft.canonical_course hd
    refine ⟨fun hc => (hread.ok hc).2 ▸ hform, fun hc => ?_⟩
    rw [hc.unique hform]
    exact hread.valid hd
  · obtain ⟨hd, rfl⟩ := hread.ok hc
    exact ((CourseDraft.equivalent_draft_course hd).ofDocument_iff h h').2 hc

namespace Sample

def pageDraft : ItemDraft := ⟨"page", "Page", 1, some ⟨.view, none⟩, false⟩

def quizDraft : ItemDraft := ⟨"quiz", "Quiz", 1, some ⟨.minScore, some (.ofNat 70)⟩, false⟩

def openingDraft (items : List ItemDraft) : ModuleDraft :=
  ⟨"opening", "Opening", 1, items, ["far", "near", "far"], false, 1, some ⟨0, none⟩⟩

def closingDraft : ModuleDraft := ⟨"closing", "Closing", 1, [], ["opening"], false, 0, none⟩

/-- Nothing is in order, a prerequisite is named twice, and a moment lacks its offset. -/
def unordered : CourseDraft :=
  ⟨"biology", "Biology", [openingDraft [quizDraft, pageDraft], closingDraft]⟩

def shuffled : CourseDraft :=
  ⟨"biology", "Biology", [closingDraft, openingDraft [pageDraft, quizDraft]]⟩

theorem shuffles_unordered : unordered.Shuffles shuffled :=
  ⟨[openingDraft [pageDraft, quizDraft], closingDraft],
    .cons ⟨_, .swap pageDraft quizDraft [], rfl⟩ (.cons ⟨_, .refl _, rfl⟩ .nil), _,
    .swap closingDraft _ [], rfl⟩

theorem acceptable_pageDraft : pageDraft.Acceptable :=
  ⟨by decide, by rintro _ ⟨⟩; exact ⟨by decide, nofun⟩⟩

theorem acceptable_quizDraft : quizDraft.Acceptable := by
  refine ⟨by decide, fun r hr => ?_⟩
  rw [← Option.some.inj hr]
  refine ⟨by decide, fun t ht => ?_⟩
  rw [← Option.some.inj ht]
  decide +kernel

theorem acceptable_unordered : unordered.Acceptable := by
  have hitems : ∀ i ∈ [quizDraft, pageDraft], i.Acceptable :=
    List.forall_mem_cons.2 ⟨acceptable_quizDraft, List.forall_mem_singleton.2 acceptable_pageDraft⟩
  have hopening : (openingDraft [quizDraft, pageDraft]).Acceptable :=
    ⟨by decide, hitems, by decide, by decide⟩
  have hclosing : closingDraft.Acceptable := ⟨by decide, nofun, by decide, by decide⟩
  exact ⟨by decide, List.forall_mem_cons.2 ⟨hopening, List.forall_mem_singleton.2 hclosing⟩,
    by decide⟩

end Sample

theorem sample_validation :
    ∃ c, Course.ofDocument Sample.unordered.document = .valid c ∧ Sample.unordered.Canonical c ∧
      Course.ofDocument Sample.shuffled.document = .valid c ∧
      Course.ofDocument c.draft.document = .valid c := by
  obtain ⟨haccept, hform, hagain, hshuffle⟩ :=
    validation_is_canonical Sample.unordered.shape_document
  obtain ⟨c, hc⟩ := haccept.2 Sample.acceptable_unordered
  have hcanonical := (hform Sample.acceptable_unordered c).1 hc
  refine ⟨c, hc, hcanonical, ?_, hagain c hc _ (CourseDraft.shape_document _)⟩
  exact (hshuffle _ _ Sample.shuffles_unordered Sample.shuffled.shape_document c).2 hc

end Pathway
