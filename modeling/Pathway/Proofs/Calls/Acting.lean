import Pathway.Proofs.Calls.Boundary
import Pathway.Proofs.Calls.Recording
import Pathway.Proofs.Navigation.Views

/-!
# Acting on an item

What a learner is told of an item before acting on it, and where the learner stands afterwards. What
is available can be met, and what is locked behind an open requirement does not move the learner,
whatever is recorded of it.
-/

open Relation

namespace Pathway

open Assessment

variable {s t : Store} {e : Evaluator} {learner : LearnerId} {now : Instant} {limit : Option Nat}
  {item : ItemId} {m : Module} {i : Item} {p q : Progression} {a : Availability} {σ : Session}
  {r : Request} {req : Requirement} {facts : Facts} {previous : Option Progression}

/-! ## Asking again -/

theorem answer_evaluate (e : Evaluator) (now : Instant) (learner : LearnerId) (m : Module)
    (σ : Session) :
    (∃ p, σ.answer ⟨e, now, .evaluate learner m.id⟩ = .ok (.result p) ∧
        reference σ.store learner now e.depthLimit m.id = some p) ∨
      ∃ f, σ.answer ⟨e, now, .evaluate learner m.id⟩ = .error f ∧
        Refusal σ.store learner now e.depthLimit [m.id] f := by
  have hends : (e.evaluate now learner m.id).Ends σ _
      (Refusal σ.store learner now e.depthLimit [m.id]) :=
    ends_evaluate_caughtUp (.refl σ.store) m.id
  cases heval : e.evaluate now learner m.id σ with
  | ok p τ =>
    have hperform : σ.perform ⟨e, now, .evaluate learner m.id⟩ = .ok (.result p) τ :=
      Action.bind_of_ok heval
    have hanswered := (hends.of_ok heval).1
    exact Or.inl ⟨p, by rw [Session.answer, hperform], hanswered.result _ List.mem_cons_self⟩
  | error f τ =>
    have hperform : σ.perform ⟨e, now, .evaluate learner m.id⟩ = .error f τ :=
      Action.bind_of_error heval
    exact Or.inr ⟨f, by rw [Session.answer, hperform], hends.of_error heval⟩

/-! ## What is told of an item -/

section Acting

variable (hm : σ.store.getModule m.id = .ok m) (hwf : m.WellFormed) (hi : i ∈ m.items)
  (hp : reference σ.store learner now limit m.id = some p) (hl : p.isLocked = false)
include hm hwf hi hp hl

theorem met_of_fulfils (ha : m.availability p i = .available) (hcontent : i.contentLocked = false)
    (hreq : i.requirement = some req) (hr : r.call.Fulfils learner i.id req)
    (hdone : σ.answer r = .ok .done)
    (hq : reference (σ.next r).store learner now limit m.id = some q) :
    q.isLocked = false ∧ Module.isMet q i = true := by
  obtain ⟨f, hkind, hscore, hset⟩ := exists_fact_of_fulfils hr hdone
  obtain ⟨before, after, hitems⟩ := List.append_of_mem hi
  obtain ⟨met, -, hresult⟩ := exists_met learner now limit hm
  obtain rfl := Option.some.inj (hresult.symm.trans hp)
  rw [eq_unlocked hl] at ha
  obtain ⟨hway, hopen⟩ := way_of_available hwf hitems ha
  have hunmet : satisfied (σ.store.itemFacts learner i.id) i req = false := by
    simpa [passes, hreq] using hopen
  -- The fact takes the place of none or of a score that was too low, so nothing is lost elsewhere.
  have himproves : σ.store.Improves learner (σ.next r).store :=
    hset.improves (noWorseScore_of_open hcontent hkind hscore hunmet)
  have hnow : now.before now = false := by simp [Instant.before]
  have hlq := (reference_atMost himproves hnow hm hp hq).isLocked hl
  refine ⟨hlq, ?_⟩
  obtain ⟨met', -, hresult'⟩ := exists_met learner now limit ((himproves.modules m.id).trans hm)
  obtain rfl := Option.some.inj (hresult'.symm.trans hq)
  rw [eq_unlocked hlq, isMet_unlocked hwf hi, mem_metItems_iff hwf hitems]
  refine ⟨by rw [hreq]; rfl, ?_, fun hs j hj => passes_improved himproves.facts (hway hs j hj)⟩
  rw [passes, hreq, hset.itemFacts, if_pos ⟨rfl, rfl⟩]
  exact satisfied_set hcontent hkind hscore _

theorem unmoved_of_locked (ha : m.availability p i = .locked) (hno : σ.store.NotBehind m.id i.id)
    (ht : σ.store.ActedOn i.id t) (hq : reference t learner now limit m.id = some q) :
    p.Unmoved q := by
  refine ht.unmoved_reference hm hno ?_ hp hq
  obtain ⟨before, after, hitems⟩ := List.append_of_mem hi
  obtain ⟨met, -, hresult⟩ := exists_met learner now limit hm
  obtain rfl := Option.some.inj (hresult.symm.trans hp)
  rw [eq_unlocked hl] at ha
  obtain ⟨hs, hstop⟩ := stops_of_locked hwf hitems ha
  refine sameWay_of_stops hs hitems hstop fun j hj => ht.elsewhere learner j.id ?_
  have hdistinct := List.pairwise_map.1 hwf.distinct
  rw [hitems, List.pairwise_append] at hdistinct
  exact hdistinct.2.2 j hj i List.mem_cons_self

theorem not_refusal_of_locked (ha : m.availability p i = .locked)
    (hnb : σ.store.NotBehind m.id i.id) (ht : σ.store.ActedOn i.id t) (hacc : σ.store.Accepted)
    (hno : ∀ f, ¬ Refusal σ.store learner now limit [m.id] f) (f : Failure) :
    ¬ Refusal t learner now limit [m.id] f := by
  intro hf
  refine hno f (ht.refusal (hacc learner) (fun id q hin hq => ?_) hf)
  obtain ⟨b, hb, hreach⟩ := hin
  obtain rfl := List.mem_singleton.1 hb
  rcases reflTransGen_iff_eq_or_transGen.1 hreach with rfl | hreach
  · exact ⟨p, hp, (unmoved_of_locked hm hwf hi hp hl ha hnb ht hq).currentPosition⟩
  · have hsame : reference t learner now limit id = reference σ.store learner now limit id :=
      ht.reference_eq fun n hn hn' => hnb n hn (hreach.trans_left hn')
    exact ⟨q, hsame.symm.trans hq, rfl⟩

end Acting

/-- What a learner who is told of the availability of an item can count on. What is available can be
met: a fact that fulfils the requirement is followed by an evaluation that counts it, unless the
learner now stands at a position that has no column. What is locked leaves the learner in place,
whatever is recorded and cleared of it. -/
structure TellsTruth (e : Evaluator) (now : Instant) (learner : LearnerId) (σ : Session)
    (m : Module) (i : Item) (p : Progression) (a : Availability) : Prop where
  available : a = .available → i.contentLocked = false → ∀ req, i.requirement = some req →
    ∀ r : Request, r.call.Fulfils learner i.id req → σ.answer r = .ok .done →
      (∃ q, (σ.next r).answer ⟨e, now, .evaluate learner m.id⟩ = .ok (.result q) ∧
        q.isLocked = false ∧ Module.isMet q i = true) ∨
      ((σ.next r).answer ⟨e, now, .evaluate learner m.id⟩ = .error .oversizedInteger ∧
        (σ.next r).store.Overflows [m.id])
  locked : a = .locked → σ.store.NotBehind m.id i.id →
    ∀ rs : List Request, (∀ r ∈ rs, ∃ l, r.call.Marks l i.id) →
      ∃ q, (σ.after rs).answer ⟨e, now, .evaluate learner m.id⟩ = .ok (.result q) ∧ p.Unmoved q

theorem tellsTruth_availability (hacc : σ.store.Accepted) (hm : σ.store.getModule m.id = .ok m)
    (hwf : m.WellFormed) (hi : i ∈ m.items)
    (hp : reference σ.store learner now e.depthLimit m.id = some p) (hl : p.isLocked = false)
    (hno : ∀ f, ¬ Refusal σ.store learner now e.depthLimit [m.id] f) :
    TellsTruth e now learner σ m i p (m.availability p i) where
  available ha hcontent req hreq r hr hdone := by
    rcases answer_evaluate e now learner m (σ.next r) with ⟨q, hans, hq⟩ | ⟨f, hans, hf⟩
    · exact Or.inl ⟨q, hans, met_of_fulfils hm hwf hi hp hl ha hcontent hreq hr hdone hq⟩
    · obtain ⟨hlearner, hread⟩ := known_of_not_refusal hno
      have ht := actedOn_next (Call.marks_of_fulfils hr) σ
      obtain ⟨rfl, hover⟩ := hf.overflows ((ht.hasLearner learner).trans hlearner) fun id hin => by
        obtain ⟨n, hn⟩ := hread id (ht.sameModules.inClosure ▸ hin)
        exact ⟨n, (ht.sameModules id).trans hn⟩
      exact Or.inr ⟨hans, hover⟩
  locked ha hnb rs hrs := by
    have ht := actedOn_after hrs σ
    rcases answer_evaluate e now learner m (σ.after rs) with ⟨q, hans, hq⟩ | ⟨f, -, hf⟩
    · exact ⟨q, hans, unmoved_of_locked hm hwf hi hp hl ha hnb ht hq⟩
    · exact absurd hf (not_refusal_of_locked hm hwf hi hp hl ha hnb ht hacc hno f)

/-- A learner asks how an open module stands, and then whether one of its items is available. The
answer tells the truth about acting on the item. -/
theorem availability_tells_truth (σ : Session) (hσ : σ.FromEmpty) (e : Evaluator) (now : Instant)
    (learner : LearnerId) (m : Module) (i : Item) (p : Progression) (a : Availability)
    (hm : σ.store.getModule m.id = .ok m) (hi : i ∈ m.items)
    (hp : σ.answer ⟨e, now, .evaluate learner m.id⟩ = .ok (.result p)) (hl : p.isLocked = false)
    (ha : (σ.next ⟨e, now, .evaluate learner m.id⟩).answer
      ⟨e, now, .itemAvailability learner m.id i.id⟩ = .ok (.availability a)) :
    TellsTruth e now learner ((σ.next ⟨e, now, .evaluate learner m.id⟩).next
      ⟨e, now, .itemAvailability learner m.id i.id⟩) m i p a := by
  have hwf := hσ.wellFormed hm
  obtain ⟨q, heval, hq⟩ := Action.bind_pure_eq_ok.1 (Session.answer_eq_ok.1 hp)
  obtain rfl : q = p := Answer.result.inj hq
  obtain ⟨b, havail, hb⟩ := Action.bind_pure_eq_ok.1 (Session.answer_eq_ok.1 ha)
  obtain rfl : b = a := Answer.availability.inj hb
  have hfinds : e.Finds now learner σ m.id q := ⟨_, heval⟩
  have hcaught := ((ends_evaluate_caughtUp (.refl σ.store) m.id).of_ok heval).2
  -- The second question finds what the first one found.
  obtain ⟨hcaught, q', hans, rfl⟩ :=
    (ends_itemAvailability hcaught hm (hwf.itemOrFail hi)).of_ok havail
  obtain rfl : q' = q :=
    Option.some.inj ((hans.result _ List.mem_cons_self).symm.trans hfinds.reference)
  refine tellsTruth_availability ?_ ((hcaught.getModule m.id).trans hm) hwf hi
    ((reference_caughtUp hcaught m.id).trans hfinds.reference) hl
    fun f hf => hfinds.not_refusal f (hcaught.refusal hf)
  exact ((hσ.next (by simp [Call.puts])).next (by simp [Call.puts])).accepted

/-! ## A module whose second page is too far -/

theorem notBehind_of_no_prerequisites (hm : s.getModule m.id = .ok m) (h : m.prerequisites = []) :
    s.NotBehind m.id item := by
  intro n _ hreach
  obtain ⟨b, hb, -⟩ := TransGen.head'_iff.1 hreach
  exact absurd hb (not_requires_of_no_prerequisites hm h b)

theorem availability_answered (hm : σ.store.getModule m.id = .ok m) (hwf : m.WellFormed)
    (hi : i ∈ m.items) (hno : ∀ f, ¬ Refusal σ.store learner now e.depthLimit [m.id] f)
    (hp : reference σ.store learner now e.depthLimit m.id = some p) :
    σ.answer ⟨e, now, .evaluate learner m.id⟩ = .ok (.result p) ∧
      (σ.next ⟨e, now, .evaluate learner m.id⟩).answer
        ⟨e, now, .itemAvailability learner m.id i.id⟩ =
          .ok (.availability (m.availability p i)) := by
  obtain ⟨q, τ, heval, hans, hcaught⟩ :=
    (ends_evaluate_caughtUp (.refl σ.store) m.id).exists_ok hno
  obtain rfl : q = p := Option.some.inj ((hans.result _ List.mem_cons_self).symm.trans hp)
  have hperform : σ.perform ⟨e, now, .evaluate learner m.id⟩ = .ok (.result q) τ :=
    Action.bind_of_ok heval
  obtain ⟨b, τ', havail, -, q', hans', rfl⟩ :=
    (ends_itemAvailability hcaught hm (hwf.itemOrFail hi)).exists_ok hno
  obtain rfl : q' = q := Option.some.inj ((hans'.result _ List.mem_cons_self).symm.trans hp)
  have hperform' : τ.perform ⟨e, now, .itemAvailability learner m.id i.id⟩ =
      .ok (.availability (m.availability q' i)) τ' := Action.bind_of_ok havail
  rw [Session.answer, Session.next, hperform]
  exact ⟨rfl, by rw [Session.answer, hperform']⟩

namespace Sample

theorem passes_far_first (hfirst : facts "first" .view = none) :
    passes facts (Sample.item "first" "" 1 (some .view)) = false := by
  simp [passes, Sample.item, satisfied, Requirement.kind, hfirst]

theorem availability_far_first (hfirst : facts "first" .view = none) :
    far.availability (unlocked facts learner far previous)
      (Sample.item "first" "" 1 (some .view)) = .available := by
  have hitems : far.items = [] ++ Sample.item "first" "" 1 (some .view) ::
      [Sample.item "page" "" (2 ^ 63) (some .view)] := rfl
  have hreach : far.isReachable (unlocked facts learner far previous)
      (Sample.item "first" "" 1 (some .view)) = true :=
    (isReachable_unlocked_iff wellFormed_far hitems).2 (by simp)
  have hopen : ¬ Module.isMet (unlocked facts learner far previous)
      (Sample.item "first" "" 1 (some .view)) = true := by
    rw [isMet_unlocked wellFormed_far List.mem_cons_self,
      mem_metItems_iff wellFormed_far hitems, passes_far_first hfirst]
    simp
  rw [Module.availability, if_neg hopen, if_pos hreach]

theorem availability_far_page (hfirst : facts "first" .view = none) :
    far.availability (unlocked facts learner far previous)
      (Sample.item "page" "" (2 ^ 63) (some .view)) = .locked := by
  have hitems : far.items = [Sample.item "first" "" 1 (some .view)] ++
      Sample.item "page" "" (2 ^ 63) (some .view) :: [] := rfl
  have hstops : ¬ (far.sequential = true →
      ∀ j ∈ [Sample.item "first" "" 1 (some .view)], passes facts j = true) := by
    intro hall
    cases (passes_far_first hfirst).symm.trans (hall rfl _ List.mem_cons_self)
  have hreach : ¬ far.isReachable (unlocked facts learner far previous)
      (Sample.item "page" "" (2 ^ 63) (some .view)) = true :=
    fun hreach => hstops ((isReachable_unlocked_iff wellFormed_far hitems).1 hreach)
  have hopen : ¬ Module.isMet (unlocked facts learner far previous)
      (Sample.item "page" "" (2 ^ 63) (some .view)) = true := by
    rw [isMet_unlocked wellFormed_far (List.mem_cons_of_mem _ List.mem_cons_self),
      mem_metItems_iff wellFormed_far hitems]
    exact fun h => hstops h.2.2
  rw [Module.availability, if_neg hopen, if_neg hreach]

theorem not_refusal_far (hl : s.hasLearner "ada" = true) (hm : s.getModule far.id = .ok far)
    (hfirst : s.itemFacts "ada" "first" .view = none) (f : Failure) :
    ¬ Refusal s "ada" ⟨0, 0⟩ none [far.id] f := by
  rintro (hno | ⟨hin, hread⟩ | ⟨hin, hp, -, hsave⟩)
  · cases hl.symm.trans hno
  · obtain rfl := eq_of_inClosure_of_no_prerequisites hm rfl hin
    cases hm.symm.trans hread
  · obtain rfl := eq_of_inClosure_of_no_prerequisites hm rfl hin
    cases (reference_of_no_prerequisites hm rfl rfl).symm.trans hp
    obtain ⟨-, -, i, hi, hword⟩ :=
      Store.exists_of_checkProgression (Store.saveProgression_eq_error.1 hsave)
    have hposition : position? (s.itemFacts "ada") far = some 1 := by
      simp [position?, walk, far, Sample.item, passes, satisfied, Requirement.kind, hfirst]
    cases hposition.symm.trans hi
    cases hword

def asks : Request := ⟨⟨1, none⟩, ⟨0, 0⟩, .evaluate "ada" "far"⟩

def looks (item : ItemId) : Request := ⟨⟨1, none⟩, ⟨0, 0⟩, .itemAvailability "ada" "far" item⟩

/-- The learner is known, and the module is stored. -/
def beforeFar (backing : Backing) : Session :=
  (Session.ofStore (.empty backing)).after
    [⟨⟨1, none⟩, ⟨0, 0⟩, .addLearner "ada" "Ada"⟩, putsFar]

theorem fromEmpty_beforeFar (backing : Backing) : (beforeFar backing).FromEmpty := by
  refine ⟨backing, _, ?_, rfl⟩
  simp [putsFar, Call.puts, wellFormed_far]

theorem getModule_beforeFar (backing : Backing) :
    (beforeFar backing).store.getModule far.id = .ok far := by
  cases backing with
  | memory => rfl
  | database =>
    exact congrArg (Checked.orFail .module)
      (Module.ofDocument_document wellFormed_far finiteThresholds_far)

theorem answers_beforeFar (backing : Backing) : ∃ facts previous,
    facts "first" .view = none ∧
    (beforeFar backing).answer asks = .ok (.result (unlocked facts "ada" far previous)) ∧
    ∀ i ∈ far.items, ((beforeFar backing).next asks).answer (looks i.id) =
      .ok (.availability (far.availability (unlocked facts "ada" far previous) i)) := by
  have hfirst : (beforeFar backing).store.itemFacts "ada" "first" .view = none := by
    cases backing <;> rfl
  have hlearner : (beforeFar backing).store.hasLearner "ada" = true := by
    cases backing <;> rfl
  have hm := getModule_beforeFar backing
  have hanswered := fun i hi => availability_answered (e := ⟨1, none⟩) (i := i) hm wellFormed_far
    hi (not_refusal_far hlearner hm hfirst) (reference_of_no_prerequisites hm rfl rfl)
  exact ⟨_, _, hfirst, (hanswered _ List.mem_cons_self).1, fun i hi => (hanswered i hi).2⟩

theorem fulfils_readsFirst : readsFirst.call.Fulfils "ada" "first" .view :=
  ⟨rfl, rfl, rfl, trivial⟩

theorem answer_readsFirst (σ : Session) : σ.answer readsFirst = .ok .done := by
  have hrecord : σ.store.record "ada" "first" .view none ⟨0, 0⟩ =
      .ok (σ.store.putFact "ada" "first" .view none ⟨0, 0⟩) := Store.record_eq ..
  have hperform : σ.perform readsFirst = .ok .done _ :=
    Action.bind_of_ok (Action.updateOrFail_of_ok hrecord)
  rw [Session.answer, hperform]

def readsSecond : Request := ⟨⟨1, none⟩, ⟨0, 0⟩, .record "ada" "page" "must_view" none none⟩

theorem answer_after_readsFirst (hdb : σ.store.backing = .database)
    (hacc : (σ.next readsFirst).store.Accepted) (hl : σ.store.hasLearner "ada" = true)
    (hm : σ.store.getModule far.id = .ok far)
    (hpage : σ.store.itemFacts "ada" "page" .view = none) :
    (σ.next readsFirst).answer asks = .error .oversizedInteger := by
  obtain ⟨f, (hkind : f.kind = .view), -, hset⟩ :=
    exists_fact_of_fulfils fulfils_readsFirst (answer_readsFirst σ)
  have hacted := actedOn_next (Call.marks_of_fulfils fulfils_readsFirst) σ
  have hread : ((σ.next readsFirst).store.itemFacts "ada" "first" .view).isSome = true := by
    rw [hset.itemFacts, if_pos ⟨rfl, rfl⟩, ItemFacts.set, if_pos hkind.symm]
    rfl
  obtain ⟨τ, heval⟩ := evaluate_far (hacted.backing.trans hdb) hacc
    ((hacted.hasLearner "ada").trans hl) ((hacted.sameModules far.id).trans hm) hread
    ((congrFun (hacted.elsewhere "ada" "page" (by decide)) .view).trans hpage)
  have hperform : (σ.next readsFirst).perform asks = .error .oversizedInteger τ :=
    Action.bind_of_error heval
  rw [Session.answer, hperform]

end Sample

theorem sample_availability_tells_truth :
    (∃ q, ((((Sample.beforeFar .memory).next Sample.asks).next (Sample.looks "first")).next
        Sample.readsFirst).answer Sample.asks = .ok (.result q) ∧
      q.isLocked = false ∧ Module.isMet q (Sample.item "first" "" 1 (some .view)) = true) ∧
    ∃ p q, (Sample.beforeFar .memory).answer Sample.asks = .ok (.result p) ∧
      ((((Sample.beforeFar .memory).next Sample.asks).next (Sample.looks "page")).after
        [Sample.readsSecond]).answer Sample.asks = .ok (.result q) ∧ p.Unmoved q := by
  obtain ⟨facts, previous, hfirst, hp, ha⟩ := Sample.answers_beforeFar .memory
  have hfar := Sample.getModule_beforeFar .memory
  constructor
  · have hlook := ha (Sample.item "first" "" 1 (some .view)) List.mem_cons_self
    rw [Sample.availability_far_first hfirst] at hlook
    have htruth := availability_tells_truth (Sample.beforeFar .memory)
      (Sample.fromEmpty_beforeFar .memory) ⟨1, none⟩ ⟨0, 0⟩ "ada" Sample.far _ _ _ hfar
      List.mem_cons_self hp isLocked_unlocked hlook
    refine (htruth.available rfl rfl .view rfl _ Sample.fulfils_readsFirst
      (Sample.answer_readsFirst _)).resolve_right ?_
    rintro ⟨-, hdb, -⟩
    rw [backing_next, backing_next, backing_next, Sample.beforeFar, backing_after] at hdb
    cases hdb
  · have hpage : Sample.item "page" "" (2 ^ 63) (some .view) ∈ Sample.far.items :=
      List.mem_cons_of_mem _ List.mem_cons_self
    have hlook := ha _ hpage
    rw [Sample.availability_far_page hfirst] at hlook
    have htruth := availability_tells_truth (Sample.beforeFar .memory)
      (Sample.fromEmpty_beforeFar .memory) ⟨1, none⟩ ⟨0, 0⟩ "ada" Sample.far _ _ _ hfar hpage hp
      isLocked_unlocked hlook
    have hbase := (sameBase_next (r := Sample.asks) trivial (Sample.beforeFar .memory)).trans
      (sameBase_next (r := Sample.looks "page") trivial _)
    obtain ⟨q, hq, hunmoved⟩ := htruth.locked rfl
      (notBehind_of_no_prerequisites ((hbase.getModule _).trans hfar) rfl) [Sample.readsSecond]
      fun r hr => ⟨"ada", List.mem_singleton.1 hr ▸ ⟨rfl, rfl⟩⟩
    exact ⟨_, q, hp, hq, hunmoved⟩

/-- In a database, who is told that the first page is available and reads it cannot be evaluated any
more. -/
theorem available_but_not_evaluated : ∃ p, p.isLocked = false ∧
    (Sample.beforeFar .database).FromEmpty ∧
    (Sample.beforeFar .database).answer Sample.asks = .ok (.result p) ∧
    ((Sample.beforeFar .database).next Sample.asks).answer (Sample.looks "first") =
      .ok (.availability .available) ∧
    Sample.readsFirst.call.Fulfils "ada" "first" .view ∧
    (((Sample.beforeFar .database).next Sample.asks).next (Sample.looks "first")).answer
      Sample.readsFirst = .ok .done ∧
    ((((Sample.beforeFar .database).next Sample.asks).next (Sample.looks "first")).next
      Sample.readsFirst).answer Sample.asks = .error .oversizedInteger := by
  obtain ⟨facts, previous, hfirst, hp, ha⟩ := Sample.answers_beforeFar .database
  have hlook := ha (Sample.item "first" "" 1 (some .view)) List.mem_cons_self
  rw [Sample.availability_far_first hfirst] at hlook
  refine ⟨_, isLocked_unlocked, Sample.fromEmpty_beforeFar .database, hp, hlook,
    Sample.fulfils_readsFirst, Sample.answer_readsFirst _, ?_⟩
  have hbase := (sameBase_next (r := Sample.asks) trivial (Sample.beforeFar .database)).trans
    (sameBase_next (r := Sample.looks "first") trivial _)
  have hfrom := ((Sample.fromEmpty_beforeFar .database).next (r := Sample.asks)
    (by simp [Sample.asks, Call.puts])).next (r := Sample.looks "first")
    (by simp [Sample.looks, Call.puts])
  refine Sample.answer_after_readsFirst hbase.backing
    (hfrom.next (by simp [Sample.readsFirst, Call.puts])).accepted (hbase.hasLearner "ada")
    ((hbase.getModule _).trans (Sample.getModule_beforeFar .database)) ?_
  rw [hbase.itemFacts]
  rfl

end Pathway
