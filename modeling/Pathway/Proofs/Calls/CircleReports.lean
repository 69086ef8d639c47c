import Pathway.Proofs.Calls.Acting
import Pathway.Proofs.Calls.Totality
import Pathway.Proofs.Evaluation.Previous
import Pathway.Proofs.Evaluation.Reporting

/-!
# Which circles are reported

Requests for progressions, made one after the other, report circles of the stored modules. Two
requests may report different circles of one component, for a search goes along the prerequisites in
the order in which the request came upon them.
-/

open Relation

namespace Pathway

open Evaluation Pathway.Graph

variable {s t : Store} {learner learner' : LearnerId} {ids ids' : List ModuleId}
  {all : List Module} {u v w : ModuleId} {c : Component} {written written' : List ModuleId}
  {circle circle' : Cycle ModuleId} {σ τ : Session} {r : Request} {rs : List Request}

/-! ## Circles of stored modules -/

/-- An edge leads from the prerequisite `u` to `v`. -/
def Store.Leads (s : Store) (u v : ModuleId) : Prop := s.Requires v u

/-- The circle passes only modules that share a circle with `v`, and none of them twice. -/
structure Store.CircleOf (s : Store) (v : ModuleId) (circle : Cycle ModuleId) : Prop where
  elementary : Elementary s.Leads circle
  mates : ∀ u ∈ circle, Mutual s.Requires v u

theorem Store.CircleOf.of_mutual (h : s.CircleOf u circle) (hm : Mutual s.Requires v u) :
    s.CircleOf v circle :=
  ⟨h.elementary, fun w hw => hm.trans (h.mates w hw)⟩

theorem Store.CircleOf.hasModule (h : s.CircleOf v circle) (hu : u ∈ circle) :
    s.hasModule u = true := by
  obtain ⟨w, huw, -⟩ := TransGen.head'_iff.1 (h.elementary.transGen hu hu)
  exact huw.2

namespace Closed

variable (hc : Closed s ids all)
include hc

theorem inClosure_of_mem (hcomp : c ∈ (ofModules all).components) (hv : v ∈ c) :
    s.InClosure ids v :=
  hc.mem_nodes_iff.1 ((perm_components _).mem_iff.1 (List.mem_flatten.2 ⟨c, hcomp, hv⟩))

theorem leads_iff (hv : s.InClosure ids v) : (ofModules all).Leads u v ↔ s.Leads u v :=
  (wellFormed_ofModules all).leads_iff.trans (hc.agree.iff v u hv).symm

theorem mutual_iff (hcomp : c ∈ (ofModules all).components) (hv : v ∈ c) :
    u ∈ c ↔ Mutual s.Requires v u := by
  rw [mem_component_iff (wellFormed_ofModules all) hcomp hv]
  exact (hc.agree.mutual_iff (hc.inClosure_of_mem hcomp hv)).symm

theorem writes_circleIn (hcomp : c ∈ (ofModules all).components)
    (hcyclic : (ofModules all).isCyclic c = true) :
    ∃ circle, Writes ((ofModules all).circleIn c) circle ∧ (∀ u ∈ circle, u ∈ c) ∧
      ∀ v ∈ c, s.CircleOf v circle := by
  obtain ⟨circle, helem, hin, hwrites⟩ :=
    (findsCircle (wellFormed_ofModules all) hcomp hcyclic).genuine
  refine ⟨circle, hwrites, hin, fun v hv => ⟨helem.imp_of_mem fun x y _ hy hxy => ?_, ?_⟩⟩
  · exact (hc.leads_iff (hc.inClosure_of_mem hcomp (hin y hy))).1 hxy
  · exact fun u hu => (hc.mutual_iff hcomp hv).1 (hin u hu)

end Closed

theorem mem_circlesFor :
    written ∈ s.circlesFor learner ids ↔ ∃ all, s.required learner ids = .ok all ∧
      ∃ c ∈ (ofModules all).components, (ofModules all).isCyclic c = true ∧
        (ofModules all).circleIn c = written := by
  unfold Store.circlesFor reports
  cases h : s.required learner ids with
  | error f => simp
  | ok all =>
    simp only [List.mem_map, List.mem_filter, and_assoc, Except.ok.injEq, exists_eq_left',
      mem_flatten_generations (wellFormed_ofModules all)]

theorem exists_circleOf (h : written ∈ s.circlesFor learner ids) :
    ∃ v circle, s.CircleOf v circle ∧ Writes written circle ∧ ∀ u ∈ circle, s.InClosure ids u := by
  obtain ⟨all, hreq, c, hcomp, hcyclic, rfl⟩ := mem_circlesFor.1 h
  have hc := closed_of_required hreq
  obtain ⟨circle, hwrites, hin, hcircle⟩ := hc.writes_circleIn hcomp hcyclic
  exact ⟨leader c, circle, hcircle _ (leader_mem (wellFormed_ofModules all) hcomp), hwrites,
    fun u hu => hc.inClosure_of_mem hcomp (hin u hu)⟩

theorem exists_mem_circlesFor (hreq : s.required learner ids = .ok all)
    (hin : s.InClosure ids v) (hv : OnCircle s.Requires v) :
    ∃ written ∈ s.circlesFor learner ids, ∃ circle,
      s.CircleOf v circle ∧ Writes written circle := by
  have hc := closed_of_required hreq
  have hg := wellFormed_ofModules all
  obtain ⟨c, hcomp, hvc⟩ := exists_component (hc.mem_nodes_iff.2 hin)
  have hcyclic := (Graph.isCyclic_iff hg hcomp hvc).2 ((hc.agree.onCircle_iff hin).1 hv)
  obtain ⟨circle, hwrites, -, hcircle⟩ := hc.writes_circleIn hcomp hcyclic
  exact ⟨_, mem_circlesFor.2 ⟨all, hreq, c, hcomp, hcyclic, rfl⟩, circle, hcircle v hvc, hwrites⟩

theorem required_unique {all' : List Module} (h : s.required learner ids = .ok all)
    (h' : s.required learner' ids = .ok all') : all = all' := by
  unfold Store.required at h h'
  split at h
  · split at h'
    · exact Except.ok.inj (h.symm.trans h')
    · cases h'
  · cases h

theorem circlesFor_unique (h : written ∈ s.circlesFor learner ids)
    (h' : written' ∈ s.circlesFor learner' ids) (hu : u ∈ written) (hv : v ∈ written')
    (hm : Mutual s.Requires u v) : written = written' := by
  obtain ⟨all, hreq, c, hcomp, hcyclic, rfl⟩ := mem_circlesFor.1 h
  obtain ⟨all', hreq', c', hcomp', hcyclic', rfl⟩ := mem_circlesFor.1 h'
  obtain rfl := required_unique hreq hreq'
  have hc := closed_of_required hreq
  obtain ⟨circle, hwrites, hin, -⟩ := hc.writes_circleIn hcomp hcyclic
  obtain ⟨circle', hwrites', hin', -⟩ := hc.writes_circleIn hcomp' hcyclic'
  have huc : u ∈ c := hin u (hwrites.mem_iff.1 hu)
  have hvc' : v ∈ c' := hin' v (hwrites'.mem_iff.1 hv)
  have hvc : v ∈ c := (hc.mutual_iff hcomp huc).2 hm
  rw [component_unique (wellFormed_ofModules all) hcomp hcomp' hvc hvc']

/-! ## Requests -/

/-- The call asks for the progressions of the learner on the modules. -/
inductive Call.Asks (s : Store) : Call → LearnerId → List ModuleId → Prop
  | one {learner : LearnerId} {id : ModuleId} : Asks s (.evaluate learner id) learner [id]
  | several {learner : LearnerId} {ids : List ModuleId} :
      Asks s (.evaluateAll learner (some ids)) learner ids
  | every {learner : LearnerId} :
      Asks s (.evaluateAll learner none) learner (s.moduleIds none)

theorem Call.Asks.evaluates {c : Call} (h : c.Asks s learner ids) : c.Evaluates := by
  cases h <;> trivial

theorem Call.Asks.of_sameBase {c : Call} (h : c.Asks s learner ids) (hb : s.SameBase t) :
    c.Asks t learner ids := by
  cases h with
  | one => exact .one
  | several => exact .several
  | every =>
    rw [← hb.moduleIds]
    exact .every

theorem Call.Asks.unique {c : Call} (h : c.Asks s learner ids) (h' : c.Asks s learner' ids') :
    ids = ids' := by
  cases h <;> cases h' <;> rfl

/-- What the call answers when the evaluation of the modules has ended with the memo. -/
def Call.answerFrom (ids : List ModuleId) (memo : Memo) : Call → Option Answer
  | .evaluate _ id => memo[id]?.map .result
  | _ => some (.results (answers memo ids.eraseDups))

section Answers

variable {c : Call} {e : Evaluator} {now : Instant} {memo : Memo} {a : Answer}

theorem Call.Asks.ends (h : c.Asks σ.store learner ids) :
    (c.perform e now).Ends σ
      (fun a τ => ∃ memo, Evaluated e now learner ids σ memo τ ∧ c.answerFrom ids memo = some a)
      (Refusal σ.store learner now e.depthLimit ids) := by
  cases h with
  | @one _ id =>
    refine (ends_evaluate e now learner id σ).bind ?_
    rintro p τ ⟨memo, hev, hp⟩
    exact Action.ends_pure ⟨memo, hev, by rw [Call.answerFrom, hp]; rfl⟩
  | several =>
    refine (ends_evaluateAll e now learner ids σ).bind ?_
    rintro results τ ⟨memo, hev, rfl⟩
    exact Action.ends_pure ⟨memo, hev, rfl⟩
  | every =>
    refine (ends_evaluateEvery_evaluated e now learner σ).bind ?_
    rintro results τ ⟨memo, hev, rfl⟩
    exact Action.ends_pure ⟨memo, hev, rfl⟩

theorem Call.Asks.perform_eq_ok (h : c.Asks σ.store learner ids) :
    c.perform e now σ = .ok a τ ↔
      ∃ memo, Evaluated e now learner ids σ memo τ ∧ c.answerFrom ids memo = some a := by
  refine ⟨h.ends.of_ok, ?_⟩
  rintro ⟨memo, hev, ha⟩
  have hall : e.evaluateAll now learner ids σ = .ok (answers memo ids.eraseDups) τ :=
    Action.bind_pure_eq_ok.2 ⟨memo, hev.ended, rfl⟩
  cases h with
  | @one _ id =>
    obtain ⟨p, hp, rfl⟩ := Option.map_eq_some_iff.1 ha
    rw [answers_single hp] at hall
    exact Action.bind_pure_eq_ok.2 ⟨p, Action.bind_of_ok hall, rfl⟩
  | several =>
    cases ha
    exact Action.bind_pure_eq_ok.2 ⟨_, hall, rfl⟩
  | every =>
    cases ha
    exact Action.bind_pure_eq_ok.2 ⟨_, (evaluateEvery_apply hev.known).trans hall, rfl⟩

theorem Call.Asks.again (h : c.Asks σ.store learner ids) (ha : c.perform e now σ = .ok a τ) :
    c.Asks τ.store learner ids ∧ ∃ υ, c.perform e now τ = .ok a υ ∧ τ.Undisturbed υ := by
  obtain ⟨memo, hev, hmemo⟩ := h.perform_eq_ok.1 ha
  obtain ⟨hbase, υ, hagain, hund⟩ := evaluateClosure_again hev.ended
  have h' : c.Asks τ.store learner ids := h.of_sameBase hbase
  have hev' := (ends_evaluated e now learner ids τ).of_ok hagain
  exact ⟨h', υ, h'.perform_eq_ok.2 ⟨memo, hev', hmemo⟩, hund⟩

end Answers

theorem circlesFor_of_sameBase (hb : s.SameBase t) :
    t.circlesFor learner ids = s.circlesFor learner ids := by
  unfold Store.circlesFor
  rw [Store.required_congr hb]

theorem reports_perform (h : r.call.Asks σ.store learner ids) :
    (r.call.perform r.evaluator r.now).Reports (σ.store.circlesFor learner ids) σ := by
  obtain ⟨e, now, c⟩ := r
  rw [← List.append_nil (σ.store.circlesFor learner ids)]
  cases h with
  | one => exact reports_evaluate.bind fun _ _ _ => Action.reports_pure _
  | several => exact reports_evaluateAll.bind fun _ _ _ => Action.reports_pure _
  | every => exact reports_evaluateEvery.bind fun _ _ _ => Action.reports_pure _

theorem circles_next (h : r.call.Asks σ.store learner ids) :
    ∃ made, made.Sublist (σ.store.circlesFor learner ids) ∧
      (σ.next r).circles = addCircles σ.circles made ∧
      ∀ a, σ.answer r = .ok a → made = σ.store.circlesFor learner ids := by
  obtain ⟨made, hsub, hmade, hall⟩ := reports_perform h
  refine ⟨made, hsub, ?_, fun a ha => ?_⟩
  · rw [Session.next_eq_finish, hmade]
  · exact hall _ _ (Session.answer_eq_ok.1 ha)

/-! ## Runs -/

/-- The base of the store stays, and the session holds circles that the requests report. -/
structure Collected (s : Store) (rs : List Request) (σ : Session) : Prop where
  base : s.SameBase σ.store
  nodup : (σ.circles.map text).Nodup
  source : ∀ written ∈ σ.circles, ∃ r ∈ rs, ∃ learner ids, r.call.Asks s learner ids ∧
    written ∈ s.circlesFor learner ids

theorem Collected.next (h : Collected s rs σ) (hr : r ∈ rs) (hasks : r.call.Asks s learner ids) :
    Collected s rs (σ.next r) := by
  obtain ⟨made, hsub, hmade, -⟩ := circles_next (hasks.of_sameBase h.base)
  rw [circlesFor_of_sameBase h.base] at hsub
  refine ⟨h.base.trans (sameBase_next hasks.evaluates σ), ?_, fun written hw => ?_⟩
  · rw [hmade]
    exact nodup_text_addCircles h.nodup
  · rw [hmade] at hw
    rcases mem_addCircles hw with hw | hw
    · exact h.source written hw
    · exact ⟨r, hr, learner, ids, hasks, hsub.subset hw⟩

theorem collected_after (hnone : σ.circles = [])
    (hrs : ∀ r ∈ rs, ∃ learner ids, r.call.Asks σ.store learner ids) :
    Collected σ.store rs (σ.after rs) := by
  apply Session.after_of_next
  · exact ⟨.refl σ.store, by rw [hnone]; exact List.nodup_nil, by rw [hnone]; nofun⟩
  · intro r hr τ hτ
    obtain ⟨learner, ids, hasks⟩ := hrs r hr
    exact hτ.next hr hasks

theorem mem_text_after {x : String} (h : x ∈ σ.circles.map text)
    (hrs : ∀ r ∈ rs, ∃ learner ids, r.call.Asks σ.store learner ids) :
    x ∈ (σ.after rs).circles.map text := by
  have hkept : σ.store.SameBase (σ.after rs).store ∧ x ∈ (σ.after rs).circles.map text := by
    apply Session.after_of_next (I := fun τ => σ.store.SameBase τ.store ∧ x ∈ τ.circles.map text)
    · exact ⟨.refl σ.store, h⟩
    · rintro r hr τ ⟨hbase, hx⟩
      obtain ⟨learner, ids, hasks⟩ := hrs r hr
      obtain ⟨made, -, hmade, -⟩ := circles_next (hasks.of_sameBase hbase)
      refine ⟨hbase.trans (sameBase_next hasks.evaluates τ), ?_⟩
      rw [hmade]
      exact mem_text_addCircles.2 (Or.inl hx)
  exact hkept.2

theorem exists_required {a : Answer} (h : r.call.Asks σ.store learner ids)
    (ha : σ.answer r = .ok a) : ∃ all, σ.store.required learner ids = .ok all := by
  obtain ⟨memo, hev, -⟩ := h.perform_eq_ok.1 (Session.answer_eq_ok.1 ha)
  obtain ⟨run, ρ, hplan, -⟩ := Action.bind_eq_ok.1 hev.ended
  rw [plan_apply] at hplan
  split at hplan
  · next all hall => exact ⟨all, hall⟩
  · cases hplan

/-! ## What a run reports -/

/-- A request of the run led to the module, and was answered. -/
def LedTo (σ : Session) (rs : List Request) (v : ModuleId) : Prop :=
  ∃ before r after a learner ids, rs = before ++ r :: after ∧
    (σ.after before).answer r = .ok a ∧ r.call.Asks σ.store learner ids ∧
      σ.store.InClosure ids v

/-- The circle passes the component of `v`. -/
def Store.Concerns (s : Store) (v : ModuleId) (written : List ModuleId) : Prop :=
  ∃ u ∈ written, Mutual s.Requires v u

/-- All requests ask for the same modules, or the component of `v` has but one circle. -/
def Settled (s : Store) (rs : List Request) (v : ModuleId) : Prop :=
  (∃ ids, ∀ r ∈ rs, ∃ learner, r.call.Asks s learner ids) ∨
    ∀ circle circle', s.CircleOf v circle → s.CircleOf v circle' → circle = circle'

structure ReportsCircles (σ : Session) (rs : List Request) : Prop where
  /-- Every report is a circle of modules that one of the requests led to. -/
  genuine : ∀ written ∈ (σ.after rs).circles, ∃ v circle, σ.store.CircleOf v circle ∧
    Writes written circle ∧ ∃ r ∈ rs, ∃ learner ids, r.call.Asks σ.store learner ids ∧
      ∀ u ∈ circle, σ.store.InClosure ids u
  distinct : ((σ.after rs).circles.map text).Nodup
  /-- Of every cyclic component that was evaluated a circle is reported, by its text. -/
  told : ∀ v, LedTo σ rs v → OnCircle σ.store.Requires v → ∃ circle written,
    σ.store.CircleOf v circle ∧ Writes written circle ∧
      text written ∈ (σ.after rs).circles.map text
  once : ∀ v, Settled σ.store rs v → ∀ a ∈ (σ.after rs).circles, ∀ b ∈ (σ.after rs).circles,
    σ.store.Concerns v a → σ.store.Concerns v b → a = b
  exactly : (∀ id, σ.store.hasModule id = true → Plain id) → ∀ v, LedTo σ rs v →
    OnCircle σ.store.Requires v → Settled σ.store rs v →
      ∃! written, written ∈ (σ.after rs).circles ∧ σ.store.Concerns v written

section Run

variable (hnone : σ.circles = []) (hrs : ∀ r ∈ rs, ∃ learner ids, r.call.Asks σ.store learner ids)
include hnone hrs

theorem exists_source (h : written ∈ (σ.after rs).circles) :
    ∃ r ∈ rs, ∃ learner ids, r.call.Asks σ.store learner ids ∧
      written ∈ σ.store.circlesFor learner ids ∧
        ∃ v circle, σ.store.CircleOf v circle ∧ Writes written circle ∧
          ∀ u ∈ circle, σ.store.InClosure ids u := by
  obtain ⟨r, hr, learner, ids, hasks, hw⟩ := (collected_after hnone hrs).source written h
  exact ⟨r, hr, learner, ids, hasks, hw, exists_circleOf hw⟩

theorem told_of_ledTo (hled : LedTo σ rs v) (hv : OnCircle σ.store.Requires v) :
    ∃ circle written, σ.store.CircleOf v circle ∧ Writes written circle ∧
      text written ∈ (σ.after rs).circles.map text := by
  obtain ⟨before, r, after, a, learner, ids, rfl, hanswer, hasks, hin⟩ := hled
  obtain ⟨hbefore, hrest⟩ := List.forall_mem_append.1 hrs
  obtain ⟨hr, hafter⟩ := List.forall_mem_cons.1 hrest
  have hbase := (collected_after hnone hbefore).base
  have hasks' := hasks.of_sameBase hbase
  obtain ⟨all, hreq⟩ := exists_required hasks' hanswer
  rw [Store.required_congr hbase] at hreq
  obtain ⟨written, hw, circle, hcircle, hwrites⟩ := exists_mem_circlesFor hreq hin hv
  obtain ⟨made, -, hmade, hall⟩ := circles_next hasks'
  rw [hall a hanswer, circlesFor_of_sameBase hbase] at hmade
  refine ⟨circle, written, hcircle, hwrites, ?_⟩
  -- The text is there once the request is answered, and stays.
  have hthen : text written ∈ (((σ.after before).next r).circles).map text := by
    rw [hmade]
    exact mem_text_addCircles.2 (Or.inr (List.mem_map_of_mem hw))
  have hbase' := hbase.trans (sameBase_next hasks.evaluates (σ.after before))
  rw [Session.after, List.foldl_append, List.foldl_cons]
  refine mem_text_after hthen fun r' hr' => ?_
  obtain ⟨learner', ids', hasks''⟩ := hafter r' hr'
  exact ⟨learner', ids', hasks''.of_sameBase hbase'⟩

theorem eq_of_concerns (hsettled : Settled σ.store rs v) (ha : written ∈ (σ.after rs).circles)
    (hb : written' ∈ (σ.after rs).circles) (hva : σ.store.Concerns v written)
    (hvb : σ.store.Concerns v written') : written = written' := by
  obtain ⟨u, hu, hvu⟩ := hva
  obtain ⟨w, hw, hvw⟩ := hvb
  obtain ⟨r, hr, learner, ids, hasks, hfor, x, circle, hcircle, hwrites, -⟩ :=
    exists_source hnone hrs ha
  obtain ⟨r', hr', learner', ids', hasks', hfor', y, circle', hcircle', hwrites', -⟩ :=
    exists_source hnone hrs hb
  rcases hsettled with ⟨ids₀, halike⟩ | hsingle
  · obtain ⟨l, hl⟩ := halike r hr
    obtain ⟨l', hl'⟩ := halike r' hr'
    obtain rfl := hasks.unique hl
    obtain rfl := hasks'.unique hl'
    exact circlesFor_unique hfor hfor' hu hw (hvu.symm.trans hvw)
  · have hx := hcircle.mates u (hwrites.mem_iff.1 hu)
    have hy := hcircle'.mates w (hwrites'.mem_iff.1 hw)
    obtain rfl := hsingle circle circle' (hcircle.of_mutual (hvu.trans hx.symm))
      (hcircle'.of_mutual (hvw.trans hy.symm))
    exact hwrites.written_eq hwrites'

theorem plain_of_source (hplain : ∀ id, σ.store.hasModule id = true → Plain id)
    (h : written ∈ (σ.after rs).circles) : ∀ id ∈ written, Plain id := by
  obtain ⟨-, -, -, -, -, -, v, circle, hcircle, hwrites, -⟩ := exists_source hnone hrs h
  exact fun id hid => hplain id (hcircle.hasModule (hwrites.mem_iff.1 hid))

/-- Whatever was asked for and in whichever order, only circles are reported, each text once, and
each cyclic component that was evaluated has a circle among them. -/
theorem circles_reported : ReportsCircles σ rs where
  genuine written h := by
    obtain ⟨r, hr, learner, ids, hasks, hfor, -⟩ := exists_source hnone hrs h
    obtain ⟨v, circle, hcircle, hwrites, hin⟩ := exists_circleOf hfor
    exact ⟨v, circle, hcircle, hwrites, r, hr, learner, ids, hasks, hin⟩
  distinct := (collected_after hnone hrs).nodup
  told _ := told_of_ledTo hnone hrs
  once _ hsettled _ ha _ hb := eq_of_concerns hnone hrs hsettled ha hb
  exactly hplain v hled hv hsettled := by
    obtain ⟨circle, written, hcircle, hwrites, htext⟩ := told_of_ledTo hnone hrs hled hv
    obtain ⟨reported, hmem, htext⟩ := List.mem_map.1 htext
    obtain ⟨-, -, -, -, -, -, -, circle', -, hwrites', -⟩ := exists_source hnone hrs hmem
    have hplain' : ∀ id ∈ written, Plain id :=
      fun id hid => hplain id (hcircle.hasModule (hwrites.mem_iff.1 hid))
    obtain rfl := eq_of_text_eq (plain_of_source hnone hrs hplain hmem) hplain' hwrites'.ne_nil
      hwrites.ne_nil htext
    obtain ⟨u, hu⟩ := List.exists_mem_of_ne_nil reported hwrites.ne_nil
    have hconcerns : σ.store.Concerns v reported :=
      ⟨u, hu, hcircle.mates u (hwrites.mem_iff.1 hu)⟩
    exact ⟨reported, ⟨hmem, hconcerns⟩, fun other hother =>
      eq_of_concerns hnone hrs hsettled hother.1 hmem hother.2 hconcerns⟩

end Run

/-! ## Two circles of one component -/

theorem closure_by_way {x y z : Module} {pool pool' pool'' : Table StoredModule}
    (hx : draw (s.modules.erase x.id) x.prerequisites = .ok ([y], pool))
    (hy : draw pool y.prerequisites = .ok ([z], pool'))
    (hz : draw pool' z.prerequisites = .ok ([], pool'')) : closure s [x] = .ok [x, y, z] := by
  have hlast : requiredBy pool' [z] = .ok [] := by
    rw [requiredBy_of_ok hz, List.reverse_nil, List.nil_append, requiredBy]
    rfl
  have hsecond : requiredBy pool [y] = .ok [z] := by
    rw [requiredBy_of_ok hy, List.reverse_singleton, List.singleton_append, hlast]
    rfl
  unfold closure
  dsimp only [List.foldl_cons, List.foldl_nil]
  rw [List.reverse_singleton, requiredBy_of_ok hx, List.reverse_singleton, List.singleton_append,
    hsecond]
  rfl

namespace Sample

/-- A learner, and the modules of two circles that cross. -/
def crossed : Session :=
  (Session.ofStore (.empty .memory)).after
    (⟨⟨1, none⟩, ⟨0, 0⟩, .addLearner "ada" "Ada"⟩ ::
      crossing.map fun m => ⟨⟨1, none⟩, ⟨0, 0⟩, .putModule m none⟩)

def asksFor (id : ModuleId) : Request := ⟨⟨1, none⟩, ⟨0, 0⟩, .evaluate "ada" id⟩

theorem required_b : crossed.store.required "ada" ["b"] =
    .ok [bare "b" 1 ["a"], bare "a" 0 ["b", "c"], bare "c" 2 ["a"]] := closure_by_way rfl rfl rfl

theorem circlesFor_b : crossed.store.circlesFor "ada" ["b"] = [["a", "b", "a"]] := by
  rw [Store.circlesFor, required_b]
  cbv

theorem circlesFor_c : crossed.store.circlesFor "ada" ["c"] = [["a", "c", "a"]] := by
  have hreq : crossed.store.required "ada" ["c"] =
      .ok [bare "c" 2 ["a"], bare "a" 0 ["b", "c"], bare "b" 1 ["a"]] := closure_by_way rfl rfl rfl
  rw [Store.circlesFor, hreq]
  cbv

theorem plain_crossed {id : ModuleId} (h : crossed.store.hasModule id = true) : Plain id := by
  have hreads : crossed.store.Reads fun x => ∃ m ∈ crossing, x = .ok m := by
    refine reads_after fun r hr m hm => ?_
    rcases List.mem_cons.1 hr with rfl | hr
    · cases hm
    · obtain ⟨n, hn, rfl⟩ := List.mem_map.1 hr
      rw [List.mem_singleton.1 hm]
      exact ⟨n, hn, rfl⟩
  have hcrossing : ∀ m ∈ crossing, Plain m.id := by
    unfold Plain
    decide
  obtain ⟨m, hm, hread⟩ := hreads id h
  rw [← Store.id_of_getModule hread]
  exact hcrossing m hm

theorem exists_answer (id : ModuleId) (hbase : crossed.store.SameBase σ.store)
    (hid : crossed.store.hasModule id = true) : ∃ a, σ.answer (asksFor id) = .ok a := by
  have hread : ∀ i, σ.store.hasModule i = true → ∃ m, σ.store.getModule i = .ok m := by
    intro i hi
    rw [hbase.sameModules.hasModule] at hi
    obtain ⟨m, hm⟩ := (obliging_after_memory _).exists_module hi
    exact ⟨m, (hbase.getModule i).trans hm⟩
  have hasked : ∀ i ∈ [id], σ.store.hasModule i = true := by
    intro i hi
    rw [List.mem_singleton.1 hi, hbase.sameModules.hasModule]
    exact hid
  rcases answer_evaluate ⟨1, none⟩ ⟨0, 0⟩ "ada" (bare id 0 []) σ with ⟨p, h, -⟩ | ⟨f, -, hf⟩
  · exact ⟨_, h⟩
  · exact absurd hf (not_refusal_of_memory hbase.backing (hbase.hasLearner "ada") fun _ hin =>
      Store.exists_module_of_inClosure hread hasked hin)

theorem requires_crossed (id : ModuleId) (h : id = "b" ∨ id = "c") :
    crossed.store.Requires id "a" ∧ crossed.store.Requires "a" id := by
  rcases h with rfl | rfl
  · exact ⟨⟨⟨bare "b" 1 ["a"], rfl, by decide⟩, rfl⟩,
      ⟨bare "a" 0 ["b", "c"], rfl, by decide⟩, rfl⟩
  · exact ⟨⟨⟨bare "c" 2 ["a"], rfl, by decide⟩, rfl⟩,
      ⟨bare "a" 0 ["b", "c"], rfl, by decide⟩, rfl⟩

theorem exactly_one_circle_crossed :
    ∃! written, written ∈ (crossed.after [asksFor "b", asksFor "b"]).circles ∧
      crossed.store.Concerns "c" written := by
  obtain ⟨hba, hab⟩ := requires_crossed "b" (Or.inl rfl)
  obtain ⟨hca, hac⟩ := requires_crossed "c" (Or.inr rfl)
  have hasks : ∀ r ∈ [asksFor "b", asksFor "b"], r.call.Asks crossed.store "ada" ["b"] := by
    intro r hr
    have he : r = asksFor "b" := by simpa using hr
    rw [he]
    exact .one
  obtain ⟨a, ha⟩ := exists_answer "b" (.refl crossed.store) rfl
  have hled : LedTo crossed [asksFor "b", asksFor "b"] "c" :=
    ⟨[], asksFor "b", [asksFor "b"], a, "ada", ["b"], rfl, ha, .one, "b",
      List.mem_singleton.2 rfl, .tail (.single hba) hac⟩
  exact (circles_reported rfl fun r hr => ⟨"ada", ["b"], hasks r hr⟩).exactly
    (fun _ => plain_crossed) "c" hled (.head hca (.single hac))
    (Or.inl ⟨["b"], fun r hr => ⟨"ada", hasks r hr⟩⟩)

/-- Asking for one module and then for another one has two circles of one component reported. -/
theorem two_circles_crossed :
    crossed.circles = [] ∧
      (crossed.after [asksFor "b", asksFor "c"]).circles = [["a", "b", "a"], ["a", "c", "a"]] ∧
      Mutual crossed.store.Requires "a" "b" ∧ Mutual crossed.store.Requires "a" "c" := by
  obtain ⟨hba, hab⟩ := requires_crossed "b" (Or.inl rfl)
  obtain ⟨hca, hac⟩ := requires_crossed "c" (Or.inr rfl)
  have hbase : crossed.store.SameBase (crossed.next (asksFor "b")).store :=
    sameBase_next (r := asksFor "b") trivial crossed
  obtain ⟨a, ha⟩ := exists_answer "b" (.refl crossed.store) rfl
  obtain ⟨a', ha'⟩ := exists_answer "c" hbase rfl
  obtain ⟨made, -, hmade, hall⟩ := circles_next (σ := crossed) (r := asksFor "b") .one
  obtain ⟨made', -, hmade', hall'⟩ :=
    circles_next (σ := crossed.next (asksFor "b")) (r := asksFor "c") .one
  rw [hall a ha, circlesFor_b] at hmade
  rw [hall' a' ha', circlesFor_of_sameBase hbase, circlesFor_c, hmade] at hmade'
  refine ⟨rfl, ?_, ⟨.single hab, .single hba⟩, ⟨.single hac, .single hca⟩⟩
  refine hmade'.trans ?_
  decide

end Sample

end Pathway
