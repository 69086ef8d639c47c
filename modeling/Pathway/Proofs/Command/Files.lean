import Mathlib.Data.List.Induction
import Pathway.Command.Console
import Pathway.Proofs.Session

/-!
# Files and the databases in them

What is put at a path is found there, and a directory stays one when something is put into it. So a
database that has been opened is there when it is opened again.
-/

namespace Pathway

/-- Where a name leads from a directory. -/
def Path.enter (q : Path) (name : String) : Path :=
  if name = ".." then (if q.isRelativeTop then q.child ".." else q.parent) else q.child name

theorem Path.parent_child (p : Path) (name : String) : (p.child name).parent = p := by
  simp [Path.child, Path.parent]

theorem Path.child_parent {p : Path} (h : p.parts ≠ []) :
    p.parent.child (p.parts.getLast h) = p := by
  rw [Path.child, Path.parent, List.dropLast_concat_getLast]

theorem Path.parent_of_top {p : Path} (h : p.parts = []) : p.parent = p := by
  obtain ⟨root, parts⟩ := p
  obtain rfl : parts = [] := h
  rfl

namespace FileTree

variable {t u : FileTree} {p q r : Path} {name : String} {entry : FileEntry}

/-- At the top stand directories. -/
def Grounded (t : FileTree) : Prop := ∀ root, t.entryAt ⟨root, []⟩ = some .directory

/-! ## Finding -/

theorem resolve_child : t.resolve (p.child name) = some r ↔
    ∃ q, t.resolve p = some q ∧ t.entryAt q = some .directory ∧ q.enter name = r := by
  unfold resolve Path.child
  rw [List.foldlM_append]
  simp only [List.foldlM_cons, List.foldlM_nil, bind_pure, Option.bind_eq_bind,
    Option.bind_eq_some_iff]
  refine exists_congr fun q => and_congr_right fun _ => ?_
  unfold Path.enter
  split
  · next h => simp [h, Path.child]
  · next h hname => simp [h, Path.child, if_neg hname]
  · next hno _ => exact ⟨nofun, fun ⟨hdirectory, _⟩ => (hno hdirectory).elim⟩

theorem find?_child (h : t.find? (p.child name) = some entry) : t.find? p = some .directory := by
  obtain ⟨r, hr, -⟩ := Option.bind_eq_some_iff.1 h
  obtain ⟨q, hq, hdirectory, -⟩ := resolve_child.1 hr
  exact Option.bind_eq_some_iff.2 ⟨q, hq, hdirectory⟩

theorem find?_prefix {root : String} {ps : List String} (qs : List String)
    (h : t.find? ⟨root, ps ++ qs⟩ = some .directory) : t.find? ⟨root, ps⟩ = some .directory := by
  induction qs using List.reverseRecOn with
  | nil =>
    rw [List.append_nil] at h
    exact h
  | append_singleton qs name ih =>
    rw [← List.append_assoc] at h
    exact ih (find?_child (p := ⟨root, ps ++ qs⟩) h)

theorem resolve_mono (h : ∀ q, t.entryAt q = some .directory → u.entryAt q = some .directory)
    (hp : t.resolve p = some r) : u.resolve p = some r := by
  obtain ⟨root, parts⟩ := p
  induction parts using List.reverseRecOn generalizing r with
  | nil => exact hp
  | append_singleton parts name ih =>
    obtain ⟨q, hq, hdirectory, rfl⟩ := (resolve_child (p := ⟨root, parts⟩)).1 hp
    exact (resolve_child (p := ⟨root, parts⟩)).2 ⟨q, ih hq, h q hdirectory, rfl⟩

/-! ## Putting -/

section Put

variable (hr : t.resolve p = some r)
include hr

theorem entryAt_put : (t.put p entry).entryAt r = some entry := by
  simp [put, hr, entryAt]

theorem entryAt_put_directory (hq : q ≠ r) (h : t.entryAt q = some .directory) :
    (t.put p entry).entryAt q = some .directory := by
  have hne : (r == q) = false := beq_false_of_ne hq.symm
  have hfilter : (t.entries.filter (·.1 != r)).find? (·.1 == q) = t.entries.find? (·.1 == q) := by
    rw [List.find?_filter]
    congr 1
    funext x
    by_cases hx : x.1 = q
    · simp [hx, hq]
    · simp [hx]
  simp only [put, hr, Option.getD_some, entryAt, List.find?_cons, hne, hfilter] at h ⊢
  split
  · next hfound =>
    rw [hfound] at h
    exact h
  · next hnone =>
    rw [hnone] at h
    dsimp only at h
    split at h
    · next hholds =>
      -- What was below the place is still there, or makes way for what stands there now.
      refine if_pos ?_
      rw [Bool.or_eq_true] at hholds ⊢
      refine hholds.imp_right fun hany => ?_
      obtain ⟨x, hx, hbelow⟩ := List.any_eq_true.1 hany
      refine List.any_eq_true.2 ?_
      by_cases hxr : x.1 = r
      · exact ⟨(r, entry), List.mem_cons_self, hxr ▸ hbelow⟩
      · exact ⟨x, List.mem_cons_of_mem _ (List.mem_filter.2 ⟨hx, bne_iff_ne.2 hxr⟩), hbelow⟩
    · cases h

theorem find?_put (hfree : t.entryAt r ≠ some .directory) :
    (t.put p entry).find? p = some entry := by
  have hp : (t.put p entry).resolve p = some r :=
    resolve_mono (fun q h => entryAt_put_directory hr (by rintro rfl; exact hfree h) h) hr
  exact Option.bind_eq_some_iff.2 ⟨r, hp, entryAt_put hr⟩

end Put

theorem find?_put_of_parent (hp : t.find? p.parent = some .directory)
    (hfree : t.find? p ≠ some .directory) : (t.put p entry).find? p = some entry := by
  by_cases htop : p.parts = []
  · rw [Path.parent_of_top htop] at hp
    exact absurd hp hfree
  · obtain ⟨q, hq, hdirectory⟩ := Option.bind_eq_some_iff.1 hp
    have hr : t.resolve (p.parent.child (p.parts.getLast htop)) = some _ :=
      resolve_child.2 ⟨q, hq, hdirectory, rfl⟩
    rw [Path.child_parent] at hr
    refine find?_put hr fun hfound => hfree ?_
    exact Option.bind_eq_some_iff.2 ⟨_, hr, hfound⟩

end FileTree

namespace Command

open Pathway.Action

variable {c c' : Console} {p : Path} {s t : Store} {α : Type} {a : α} {x : Action α} {σ : Session}

/-! ## Directories -/

theorem ensureDirectory_of_find? {fault : FileFault} (h : c.files.find? p = some .directory) :
    ensureDirectory p fault c = .ok () c := by
  unfold ensureDirectory
  rw [get_bind, h]
  rfl

theorem makeDirectory_of_find? (h : c.files.find? p = some .directory) :
    makeDirectory p c = .ok () c := by
  refine forM_of_ok fun n _ => ensureDirectory_of_find? ?_
  refine FileTree.find?_prefix (p.parts.drop n) ?_
  rw [List.take_append_drop]
  exact h

theorem find?_of_ensureDirectory {fault : FileFault} {name : String}
    (hp : c.files.find? p = some .directory)
    (h : ensureDirectory (p.child name) fault c = .ok () c') :
    c'.files.find? (p.child name) = some .directory := by
  unfold ensureDirectory at h
  rw [get_bind] at h
  cases hfound : c.files.find? (p.child name) with
  | some entry =>
    rw [hfound] at h
    cases entry <;> cases h
    exact hfound
  | none =>
    rw [hfound] at h
    cases h
    refine FileTree.find?_put_of_parent ?_ (by rw [hfound]; nofun)
    rw [Path.parent_child]
    exact hp

theorem find?_of_makeDirectory (hroot : c.files.Grounded) (h : makeDirectory p c = .ok () c') :
    c'.files.find? p = some .directory := by
  -- The directories that lead to the path are made one after the other.
  have hmade : ∀ (m k : Nat) (c : Console), k + m = p.parts.length →
      c.files.find? ⟨p.root, p.parts.take k⟩ = some .directory →
      (List.range' (k + 1) m).forM (fun n => ensureDirectory ⟨p.root, p.parts.take n⟩
        (if n = p.parts.length then .exists else .notDirectory)) c = .ok () c' →
      c'.files.find? p = some .directory := by
    intro m
    induction m with
    | zero =>
      intro k c hk hc h
      cases h
      rwa [show k = p.parts.length from hk, List.take_length] at hc
    | succ m ih =>
      intro k c hk hc h
      rw [List.range'_succ, forM_cons] at h
      obtain ⟨_, d, hd, h⟩ := bind_eq_ok.1 h
      have hlt : k < p.parts.length := by omega
      have htake : (⟨p.root, p.parts.take (k + 1)⟩ : Path) =
          Path.child ⟨p.root, p.parts.take k⟩ p.parts[k] := by
        rw [Path.child, List.take_append_getElem]
      refine ih (k + 1) d (by omega) ?_ h
      rw [htake] at hd ⊢
      exact find?_of_ensureDirectory hc hd
  exact hmade p.parts.length 0 c (Nat.zero_add _) (hroot p.root) h

/-! ## Databases -/

theorem openStore_of_find? (h : c.files.find? p = some (.database s)) :
    openStore p c = .ok s c := by
  have hmake : makeDirectory p.parent c = .ok () c := by
    by_cases htop : p.parts = []
    · unfold makeDirectory
      rw [Path.parent_of_top htop, htop]
      rfl
    · refine makeDirectory_of_find? ?_
      rw [← Path.child_parent htop] at h
      exact FileTree.find?_child h
  unfold openStore
  rw [bind_of_ok hmake, get_bind, h]
  rfl

theorem find?_of_openStore (hroot : c.files.Grounded) (h : openStore p c = .ok s c') :
    c'.files.find? p = some (.database s) := by
  unfold openStore at h
  obtain ⟨_, d, hd, h⟩ := bind_eq_ok.1 h
  have hparent := find?_of_makeDirectory hroot hd
  rw [get_bind] at h
  have hput : d.files.find? p ≠ some .directory →
      (d.files.put p (.database (.empty .database))).find? p =
        some (.database (.empty .database)) := FileTree.find?_put_of_parent hparent
  cases hfound : d.files.find? p with
  | none =>
    rw [hfound] at h hput
    cases h
    exact hput nofun
  | some entry =>
    rw [hfound] at h hput
    cases entry with
    | directory => cases h
    | database t =>
      cases h
      exact hfound
    | file bytes =>
      cases bytes <;> cases h
      exact hput nofun

/-! ## Journals -/

section Journal

variable {j : Array Notice}

theorem ensureDirectory_journal {fault : FileFault} (h : ensureDirectory p fault c = .ok () c') :
    ensureDirectory p fault { c with journal := j } = .ok () { c' with journal := j } := by
  unfold ensureDirectory at h ⊢
  rw [get_bind] at h ⊢
  cases hfound : c.files.find? p with
  | none =>
    rw [hfound] at h
    cases h
    rfl
  | some entry =>
    rw [hfound] at h
    cases entry <;> cases h
    rfl

theorem makeDirectory_journal (h : makeDirectory p c = .ok () c') :
    makeDirectory p { c with journal := j } = .ok () { c' with journal := j } := by
  unfold makeDirectory at h ⊢
  generalize List.range' 1 p.parts.length = ns at h ⊢
  induction ns generalizing c with
  | nil =>
    cases h
    rfl
  | cons n ns ih =>
    rw [forM_cons] at h ⊢
    obtain ⟨_, d, hd, h⟩ := bind_eq_ok.1 h
    rw [bind_of_ok (ensureDirectory_journal hd)]
    exact ih h

theorem openStore_journal (h : openStore p c = .ok s c') :
    openStore p { c with journal := j } = .ok s { c' with journal := j } := by
  unfold openStore at h ⊢
  obtain ⟨_, d, hd, h⟩ := bind_eq_ok.1 h
  rw [bind_of_ok (makeDirectory_journal hd)]
  rw [get_bind] at h ⊢
  cases hfound : d.files.find? p with
  | none =>
    rw [hfound] at h
    cases h
    rfl
  | some entry =>
    rw [hfound] at h
    cases entry with
    | file bytes =>
      cases bytes <;> cases h
      rfl
    | _ =>
      cases h
      try rfl

end Journal

theorem onStore_of_ok (h : c.files.find? p = some (.database s))
    (hx : x { Session.ofStore s with journal := c.journal } = .ok a σ) :
    ∃ c', onStore p x c = .ok a c' ∧ c'.files.find? p = some (.database σ.store) := by
  refine ⟨{ c with files := c.files.put p (.database σ.store), journal := σ.journal },
    (bind_of_ok (openStore_of_find? h)).trans ?_, ?_⟩
  · simp only [hx]
  obtain ⟨r, hr, hentry⟩ := Option.bind_eq_some_iff.1 h
  exact FileTree.find?_put hr fun hdirectory => by cases hentry.symm.trans hdirectory

end Command

end Pathway
