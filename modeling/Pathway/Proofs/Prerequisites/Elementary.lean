import Mathlib.Data.List.Cycle
import Mathlib.Data.String.Basic
import Pathway.Prerequisites.Cycles
import Pathway.Proofs.Prerequisites.Chain

/-!
# Elementary circles

A circle that passes nothing twice has no beginning of its own, so it is a list up to rotation. It
is written from its smallest id on, with that id once more at the end.
-/

open Relation

namespace Pathway

section Relations

variable {α : Type} {r s : α → α → Prop} {circle : Cycle α} {a b : α}

/-- Each thing on the circle leads to the next, and none stands on it twice. -/
structure Elementary (r : α → α → Prop) (circle : Cycle α) : Prop where
  ne_nil : circle ≠ .nil
  nodup : circle.Nodup
  chain : circle.Chain r

theorem Elementary.exists_mem (hc : Elementary r circle) : ∃ a, a ∈ circle := by
  cases circle using Cycle.induction_on with
  | nil => exact absurd rfl hc.ne_nil
  | cons a l => exact ⟨a, List.mem_cons_self⟩

theorem Elementary.imp_of_mem (h : ∀ a b, a ∈ circle → b ∈ circle → r a b → s a b)
    (hc : Elementary r circle) : Elementary s circle := by
  obtain ⟨hne, hnodup, hchain⟩ := hc
  refine ⟨hne, hnodup, ?_⟩
  induction circle with
  | nil => exact absurd rfl hne
  | cons a l =>
    rw [Cycle.chain_coe_cons] at hchain ⊢
    have hmem : ∀ b ∈ a :: (l ++ [a]), b ∈ (↑(a :: l) : Cycle α) := by
      intro b hb
      rw [Cycle.mem_coe_iff]
      simpa [or_comm, or_left_comm] using hb
    exact hchain.imp_of_mem_imp fun x y hx hy => h x y (hmem x hx) (hmem y hy)

theorem exists_eq_coe_cons (h : a ∈ circle) : ∃ l : List α, circle = ↑(a :: l) := by
  induction circle with
  | nil => exact absurd h (Cycle.notMem_nil a)
  | cons b l =>
    obtain ⟨before, after, hl⟩ := List.append_of_mem (Cycle.mem_coe_iff.1 h)
    refine ⟨after ++ before, Cycle.coe_eq_coe.2 ?_⟩
    rw [hl]
    exact List.isRotated_append

theorem Elementary.transGen (hc : Elementary r circle) (ha : a ∈ circle) (hb : b ∈ circle) :
    TransGen r a b :=
  Cycle.chain_iff_pairwise.1 (hc.chain.imp fun _ _ => TransGen.single) a ha b hb

theorem exists_path (h : ReflTransGen r a b) :
    ∃ l, (a :: l).IsChain r ∧ (a :: l).Nodup ∧ (a :: l).getLast? = some b := by
  induction h using ReflTransGen.head_induction_on with
  | refl => exact ⟨[], by simp⟩
  | @head a c hac _ ih =>
    obtain ⟨l, hchain, hnodup, hlast⟩ := ih
    by_cases ha : a ∈ c :: l
    · -- The path comes back to where it would start: only its end is needed.
      obtain ⟨before, after, hl⟩ := List.append_of_mem ha
      rw [hl] at hchain hnodup hlast
      refine ⟨after, hchain.right_of_append, hnodup.of_append_right, ?_⟩
      rwa [List.getLast?_append_of_ne_nil _ (List.cons_ne_nil a after)] at hlast
    · exact ⟨c :: l, List.isChain_cons_cons.2 ⟨hac, hchain⟩, List.nodup_cons.2 ⟨ha, hnodup⟩,
        by rwa [List.getLast?_cons_cons]⟩

theorem exists_elementary (h : TransGen r a a) : ∃ circle, Elementary r circle ∧ a ∈ circle := by
  obtain ⟨b, hab, hba⟩ := TransGen.head'_iff.1 h
  obtain ⟨l, hchain, hnodup, hlast⟩ := exists_path hba
  refine ⟨↑(b :: l), ⟨by simp, Cycle.nodup_coe_iff.2 hnodup, ?_⟩, ?_⟩
  · have hclosed : ((b :: l) ++ [b]).IsChain r := by
      apply List.isChain_append.2
      refine ⟨hchain, List.isChain_singleton b, ?_⟩
      intro x hx y hy
      obtain rfl : a = x := by simpa [hlast] using hx
      obtain rfl : b = y := by simpa using hy
      exact hab
    exact hclosed
  · exact Cycle.mem_coe_iff.2 (List.mem_of_getLast? hlast)

end Relations

/-! ## Writing a circle -/

namespace Graph

variable {r : ModuleId → ModuleId → Prop} {ids nodes written written' : List ModuleId}
  {circle circle' : Cycle ModuleId} {i v : ModuleId}

/-- The circle stands there from its smallest id on, and that id again at the end. -/
def Writes (written : List ModuleId) (circle : Cycle ModuleId) : Prop :=
  ∃ i rest, written = i :: (rest ++ [i]) ∧ circle = ↑(i :: rest) ∧ ∀ v ∈ rest, i < v

theorem Writes.mem_iff (h : Writes written circle) : v ∈ written ↔ v ∈ circle := by
  obtain ⟨i, rest, rfl, rfl, -⟩ := h
  simp
  tauto

theorem Writes.ne_nil (h : Writes written circle) : written ≠ [] := by
  obtain ⟨i, rest, rfl, -⟩ := h
  exact List.cons_ne_nil _ _

theorem Writes.circle_eq (h : Writes written circle) (h' : Writes written circle') :
    circle = circle' := by
  obtain ⟨i, rest, rfl, rfl, -⟩ := h
  obtain ⟨j, rest', he, rfl, -⟩ := h'
  simp_all

theorem eq_of_isRotated_cons {rest rest' : List ModuleId} (h : (i :: rest) ~r (i :: rest'))
    (hi : i ∉ rest) : rest = rest' := by
  obtain ⟨n, hn, hrotate⟩ := List.isRotated_iff_mod.1 h
  rw [List.rotate_eq_drop_append_take hn] at hrotate
  cases n with
  | zero => simpa using hrotate
  | succ n =>
    rw [List.drop_succ_cons, List.take_succ_cons] at hrotate
    cases hd : rest.drop n with
    | nil =>
      rw [hd, List.nil_append, List.take_of_length_le (List.drop_eq_nil_iff.1 hd)] at hrotate
      exact (List.cons.inj hrotate).2
    | cons j after =>
      -- The first id would stand a second time.
      rw [hd] at hrotate
      obtain ⟨rfl, -⟩ := List.cons.inj hrotate
      exact absurd (List.mem_of_mem_drop (hd ▸ List.mem_cons_self)) hi

theorem Writes.written_eq (h : Writes written circle) (h' : Writes written' circle) :
    written = written' := by
  obtain ⟨i, rest, rfl, rfl, hi⟩ := h
  obtain ⟨j, rest', rfl, he, hj⟩ := h'
  have hrotated := Cycle.coe_eq_coe.1 he
  have hij : i = j := by
    by_contra hne
    have hj' : j ∈ rest := List.mem_of_ne_of_mem (Ne.symm hne)
      (hrotated.mem_iff.2 List.mem_cons_self)
    have hi' : i ∈ rest' := List.mem_of_ne_of_mem hne (hrotated.mem_iff.1 List.mem_cons_self)
    exact lt_asymm (hi j hj') (hj i hi')
  subst hij
  rw [eq_of_isRotated_cons hrotated fun hmem => lt_irrefl i (hi i hmem)]

/-! ## The smallest id -/

theorem foldl_least (rest : List ModuleId) (i : ModuleId) :
    rest.foldl (fun a b => if b < a then b else a) i ∈ i :: rest ∧
      ∀ v ∈ i :: rest, rest.foldl (fun a b => if b < a then b else a) i ≤ v := by
  induction rest generalizing i with
  | nil => simp
  | cons j rest ih =>
    obtain ⟨hmem, hle⟩ := ih (if j < i then j else i)
    obtain ⟨hfirst, hrest⟩ := List.forall_mem_cons.1 hle
    rw [List.foldl_cons]
    refine ⟨?_, fun v hv => ?_⟩
    · rcases List.mem_cons.1 hmem with h | h
      · rw [h]
        split <;> simp
      · exact List.mem_cons_of_mem i (List.mem_cons_of_mem j h)
    · rcases List.mem_cons.1 hv with rfl | hv
      · apply hfirst.trans
        split
        · next hlt => exact hlt.le
        · exact le_rfl
      rcases List.mem_cons.1 hv with rfl | hv
      · apply hfirst.trans
        split
        · exact le_rfl
        · next hge => exact not_lt.1 hge
      · exact hrest v hv

theorem least_mem (h : ids ≠ []) : least ids ∈ ids := by
  cases ids with
  | nil => exact absurd rfl h
  | cons i rest => exact (foldl_least rest i).1

theorem least_le (h : v ∈ ids) : least ids ≤ v := by
  cases ids with
  | nil => cases h
  | cons i rest => exact (foldl_least rest i).2 v h

theorem exists_rotate_eq (hc : Elementary r (nodes : Cycle ModuleId)) :
    ∃ i rest, rotate nodes = i :: rest ∧ nodes ~r (i :: rest) ∧ ∀ v ∈ rest, i < v := by
  obtain ⟨i, hi⟩ : ∃ i, least nodes = i := ⟨_, rfl⟩
  have hne : nodes ≠ [] := fun he => hc.ne_nil (he ▸ Cycle.coe_nil)
  obtain ⟨before, after, hnodes, hbefore⟩ := List.eq_append_cons_of_mem (hi ▸ least_mem hne)
  have hstop : ∀ v ∈ before, (v != i) = true := fun v hv =>
    bne_iff_ne.2 fun he => hbefore (he ▸ hv)
  have hrotate : rotate nodes = i :: (after ++ before) := by
    unfold rotate
    dsimp only
    rw [hi, hnodes, List.dropWhile_append_of_pos hstop, List.takeWhile_append_of_pos hstop]
    simp
  have hrotated : nodes ~r (i :: (after ++ before)) := by
    rw [hnodes]
    exact List.isRotated_append
  refine ⟨i, after ++ before, hrotate, hrotated, fun v hv => ?_⟩
  have hle : i ≤ v := hi ▸ least_le (hrotated.mem_iff.2 (List.mem_cons_of_mem i hv))
  have hiv : i ≠ v := fun he =>
    (List.nodup_cons.1 (hrotated.nodup_iff.1 hc.nodup)).1 (he ▸ hv)
  exact lt_of_le_of_ne hle hiv

theorem writes_close_rotate (hc : Elementary r (nodes : Cycle ModuleId)) :
    Writes (close (rotate nodes)) nodes := by
  obtain ⟨i, rest, hrotate, hrotated, hi⟩ := exists_rotate_eq hc
  exact ⟨i, rest, by simp [hrotate, close], Cycle.coe_eq_coe.2 hrotated, hi⟩

theorem exists_writes (hc : Elementary r circle) : ∃ written, Writes written circle := by
  obtain ⟨v, hv⟩ := hc.exists_mem
  obtain ⟨rest, rfl⟩ := exists_eq_coe_cons hv
  exact ⟨_, writes_close_rotate hc⟩

end Graph

end Pathway
