import Mathlib.Data.Set.Card
import Mathlib.Logic.Relation

/-!
# Chains

A relation says which thing requires which. What requires itself stands on a circle. A chain leads
to a thing through others, each strictly behind the next.
-/

open Relation

namespace Pathway

variable {α : Type} {r s : α → α → Prop} {P : α → Prop} {a b c : α} {n : Nat}

def OnCircle (r : α → α → Prop) (a : α) : Prop := TransGen r a a

/-- The same thing, or two that require each other. -/
def Mutual (r : α → α → Prop) (a b : α) : Prop := ReflTransGen r a b ∧ ReflTransGen r b a

/-- `a` requires `b`, and `b` does not require `a` in turn. -/
def Behind (r : α → α → Prop) (a b : α) : Prop := TransGen r a b ∧ ¬ TransGen r b a

/-- A chain of `n` others leads to a thing. -/
inductive Chain (r : α → α → Prop) : Nat → α → Prop
  | start (a : α) : Chain r 0 a
  | step {n : Nat} {a b : α} : Behind r a b → Chain r n b → Chain r (n + 1) a

theorem behind_of_not_onCircle (h : r a b) (ha : ¬ OnCircle r a) : Behind r a b :=
  ⟨.single h, fun hb => ha (.head h hb)⟩

theorem Mutual.refl (a : α) : Mutual r a a := ⟨.refl, .refl⟩

theorem Mutual.symm (h : Mutual r a b) : Mutual r b a := ⟨h.2, h.1⟩

theorem Mutual.trans (h : Mutual r a b) (g : Mutual r b c) : Mutual r a c :=
  ⟨h.1.trans g.1, g.2.trans h.2⟩

theorem Mutual.onCircle (h : Mutual r a b) (hne : a ≠ b) : OnCircle r a := by
  rcases reflTransGen_iff_eq_or_transGen.1 h.1 with rfl | hab
  · exact absurd rfl hne
  · exact hab.trans_left h.2

theorem Mutual.onCircle_of_onCircle (h : Mutual r a b) (hb : OnCircle r b) : OnCircle r a :=
  TransGen.trans_right h.1 (hb.trans_left h.2)

theorem OnCircle.exists_mutual (h : OnCircle r a) : ∃ b, r a b ∧ Mutual r a b := by
  obtain ⟨b, hab, hba⟩ := TransGen.head'_iff.1 h
  exact ⟨b, hab, .single hab, hba⟩

theorem Chain.of_reach (h : Chain r n b) (hab : ReflTransGen r a b) : Chain r n a := by
  cases h with
  | start => exact .start a
  | step hbc hc =>
    exact .step ⟨.trans_right hab hbc.1, fun hcb => hbc.2 (hcb.trans_left hab)⟩ hc

theorem Chain.of_le {k : Nat} (h : Chain r n a) (hk : k ≤ n) : Chain r k a := by
  induction h generalizing k with
  | start a => exact Nat.le_zero.1 hk ▸ .start a
  | step hab _ ih =>
    cases k with
    | zero => exact .start _
    | succ k => exact .step hab (ih (Nat.le_of_succ_le_succ hk))

/-! ## Finite relations -/

/-- Strictly behind a thing there is less to be reached. -/
theorem ncard_reach_lt (h : Behind r a b) (hfin : {x | ReflTransGen r a x}.Finite) :
    {x | ReflTransGen r b x}.ncard < {x | ReflTransGen r a x}.ncard := by
  obtain ⟨hab, hba⟩ := h
  apply Set.ncard_lt_ncard _ hfin
  refine ⟨fun x hx => hab.to_reflTransGen.trans hx, fun hsub => ?_⟩
  have hx : ReflTransGen r b a := hsub (ReflTransGen.refl : ReflTransGen r a a)
  rcases reflTransGen_iff_eq_or_transGen.1 hx with rfl | hx
  · exact hba hab
  · exact hba hx

theorem Chain.lt_ncard (h : Chain r n a) (hfin : ∀ a, {x | ReflTransGen r a x}.Finite) :
    n < {x | ReflTransGen r a x}.ncard := by
  induction h with
  | start a => exact (Set.ncard_pos (hfin a)).2 ⟨a, .refl⟩
  | step hb _ ih => exact Nat.lt_of_le_of_lt ih (ncard_reach_lt hb (hfin _))

/-! ## Levels -/

/-- If levels fall strictly behind a thing, and fall by one step at a time, then the level of a
thing is the length of the longest chain that leads to it. -/
theorem chain_iff_le {level : α → Nat} (hP : ∀ a b, P a → r a b → P b)
    (hlt : ∀ a b, P a → Behind r a b → level b < level a)
    (hstep : ∀ a, P a → 0 < level a → ∃ b, Behind r a b ∧ level a ≤ level b + 1) (ha : P a) :
    Chain r n a ↔ n ≤ level a := by
  have closed : ∀ a b, P a → Behind r a b → P b := by
    rintro a b ha ⟨h, -⟩
    induction h with
    | single h => exact hP _ _ ha h
    | tail _ h ih => exact hP _ _ ih h
  constructor
  · intro h
    induction h with
    | start => exact Nat.zero_le _
    | step hb _ ih =>
      have := ih (closed _ _ ha hb)
      have := hlt _ _ ha hb
      omega
  · intro h
    induction n generalizing a with
    | zero => exact .start a
    | succ n ih =>
      obtain ⟨b, hb, hle⟩ := hstep a ha (by omega)
      exact .step hb (ih (closed _ _ ha hb) (by omega))

/-! ## Smaller relations -/

theorem OnCircle.mono (h : ∀ a b, r a b → s a b) (hc : OnCircle r a) : OnCircle s a :=
  TransGen.mono h _ _ hc

/-- A smaller relation may break a circle into a chain, so its chains may be longer. Where nothing
that leads to a thing stands on a circle they are not. -/
theorem Chain.mono (h : ∀ a b, r a b → s a b) (hoff : ∀ b, ReflTransGen s a b → ¬ OnCircle s b)
    (hc : Chain r n a) : Chain s n a := by
  induction hc with
  | start => exact .start _
  | step hab _ ih =>
    have hs := TransGen.mono h _ _ hab.1
    refine .step ⟨hs, fun hba => hoff _ .refl (hs.trans hba)⟩ (ih fun c hc => ?_)
    exact hoff c (hs.to_reflTransGen.trans hc)

/-! ## Relations that agree -/

/-- Two relations say the same of the things of a set that neither leaves. -/
structure Agree (P : α → Prop) (r s : α → α → Prop) : Prop where
  iff : ∀ a b, P a → (r a b ↔ s a b)
  closed : ∀ a b, P a → r a b → P b

namespace Agree

theorem symm (h : Agree P r s) : Agree P s r :=
  ⟨fun a b ha => (h.iff a b ha).symm, fun a b ha hab => h.closed a b ha ((h.iff a b ha).2 hab)⟩

theorem transGen (h : Agree P r s) (ha : P a) (hab : TransGen r a b) : P b ∧ TransGen s a b := by
  induction hab with
  | single hab => exact ⟨h.closed _ _ ha hab, .single ((h.iff _ _ ha).1 hab)⟩
  | tail _ hbc ih => exact ⟨h.closed _ _ ih.1 hbc, .tail ih.2 ((h.iff _ _ ih.1).1 hbc)⟩

theorem onCircle_iff (h : Agree P r s) (ha : P a) : OnCircle r a ↔ OnCircle s a :=
  ⟨fun hc => (h.transGen ha hc).2, fun hc => (h.symm.transGen ha hc).2⟩

theorem mutual_iff (h : Agree P r s) (ha : P a) : Mutual r a b ↔ Mutual s a b := by
  have hthere : ∀ {r s : α → α → Prop}, Agree P r s → Mutual r a b → Mutual s a b := by
    rintro r s h ⟨hab, hba⟩
    rcases reflTransGen_iff_eq_or_transGen.1 hab with rfl | hab
    · exact .refl b
    · obtain ⟨hb, hab⟩ := h.transGen ha hab
      rcases reflTransGen_iff_eq_or_transGen.1 hba with rfl | hba
      · exact .refl a
      · exact ⟨hab.to_reflTransGen, (h.transGen hb hba).2.to_reflTransGen⟩
  exact ⟨hthere h, hthere h.symm⟩

theorem behind (h : Agree P r s) (ha : P a) (hab : Behind r a b) : P b ∧ Behind s a b := by
  obtain ⟨hb, hs⟩ := h.transGen ha hab.1
  exact ⟨hb, hs, fun hba => hab.2 (h.symm.transGen hb hba).2⟩

theorem chain (h : Agree P r s) (ha : P a) (hc : Chain r n a) : Chain s n a := by
  induction hc with
  | start => exact .start _
  | step hab _ ih =>
    obtain ⟨hb, hs⟩ := h.behind ha hab
    exact .step hs (ih hb)

theorem chain_iff (h : Agree P r s) (ha : P a) : Chain r n a ↔ Chain s n a :=
  ⟨h.chain ha, h.symm.chain ha⟩

end Agree

end Pathway
