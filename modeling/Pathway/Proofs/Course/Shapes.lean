import Mathlib.Data.List.Forall2
import Pathway.Proofs.Course.Modules

/-!
# Documents of a declared type

A shape says which documents are of a type, and what each of them tells. A check reads a shape if
it gives what is to be made of a document of that shape just where the document is acceptable. Each
way of putting checks together has its rule.
-/

namespace Pathway

/-! ## Valid just if -/

/-- The value is valid just if the condition holds, and then it is the one that is given. -/
def Checked.ValidIff {α : Type} (x : Checked α) (ok : Prop) (v : α) : Prop :=
  ∀ a, x = .valid a ↔ ok ∧ v = a

namespace Checked.ValidIff

variable {α β : Type} {x : Checked α} {y : Checked (α → β)} {f : α → β} {p q : Prop} {v w : α}

theorem pure (v : α) : (Checked.valid v).ValidIff True v :=
  fun _ => ⟨fun h => ⟨trivial, Checked.valid.inj h⟩, fun h => congrArg Checked.valid h.2⟩

theorem of_if {reason : Reason} [Decidable p] :
    (if p then Checked.valid v else .fail reason).ValidIff p v := by
  intro a
  split
  · next hp => exact ⟨fun h => ⟨hp, Checked.valid.inj h⟩, fun h => congrArg Checked.valid h.2⟩
  · next hp => exact ⟨nofun, fun h => absurd h.1 hp⟩

theorem congr (h : x.ValidIff p v) (hpq : q ↔ p) (hvw : p → w = v) : x.ValidIff q w :=
  fun a => (h a).trans ⟨fun ⟨hp, hv⟩ => ⟨hpq.2 hp, (hvw hp).trans hv⟩,
    fun ⟨hq, hw⟩ => ⟨hpq.1 hq, (hvw (hpq.1 hq)).symm.trans hw⟩⟩

theorem valid (h : x.ValidIff p v) (hp : p) : x = .valid v := (h v).2 ⟨hp, rfl⟩

theorem ok (h : x.ValidIff p v) {a : α} (hx : x = .valid a) : p ∧ v = a := (h a).1 hx

theorem map (f : α → β) (h : x.ValidIff p v) : (f <$> x).ValidIff p (f v) := by
  refine fun b => ⟨fun hx => ?_, ?_⟩
  · obtain ⟨a, ha, rfl⟩ := Checked.map_eq_valid hx
    obtain ⟨hp, rfl⟩ := h.ok ha
    exact ⟨hp, rfl⟩
  · rintro ⟨hp, rfl⟩
    rw [h.valid hp]
    rfl

theorem seq (hy : y.ValidIff p f) (h : x.ValidIff q v) : (y <*> x).ValidIff (p ∧ q) (f v) := by
  refine fun b => ⟨fun hx => ?_, ?_⟩
  · obtain ⟨g, a, hg, ha, rfl⟩ := Checked.seq_eq_valid hx
    obtain ⟨hp, rfl⟩ := hy.ok hg
    obtain ⟨hq, rfl⟩ := h.ok ha
    exact ⟨⟨hp, hq⟩, rfl⟩
  · rintro ⟨⟨hp, hq⟩, rfl⟩
    rw [hy.valid hp, h.valid hq]
    rfl

theorem andThen {k : α → Checked β} {u : β} (h : x.ValidIff p v) (hk : (k v).ValidIff q u) :
    (x.andThen k).ValidIff (p ∧ q) u := by
  refine fun b => ⟨fun hx => ?_, ?_⟩
  · obtain ⟨a, ha, hb⟩ := exists_of_andThen hx
    obtain ⟨hp, rfl⟩ := h.ok ha
    obtain ⟨hq, rfl⟩ := hk.ok hb
    exact ⟨⟨hp, hq⟩, rfl⟩
  · rintro ⟨⟨hp, hq⟩, rfl⟩
    rw [h.valid hp]
    exact hk.valid hq

theorem under (h : x.ValidIff p v) (step : PathStep) : (x.under step).ValidIff p v :=
  fun a => ⟨fun hx => h.ok (Checked.valid_of_under hx), fun hok => by rw [(h a).2 hok]; rfl⟩

end Checked.ValidIff

/-! ## Shapes -/

/-- Which documents are of a type, and what each of them tells. -/
abbrev Shape (α : Type) := Document → α → Prop

namespace Shape

variable {α : Type}

def text : Shape String := fun d s => d = .text s

def whole : Shape Int := fun d i => d = .int i

def flag : Shape Bool := fun d b => d = .bool b

def kind : Shape RequirementKind := fun d k => d = .text k.name

/-- A whole number is a number as well, unless it is too large for the format. -/
inductive Real : Shape Binary64
  | real (x : Binary64) : Real (.real x) x
  | whole {i : Int} {x : Binary64} (h : Binary64.ofInt i = x) (hfin : x.isFinite = true) :
      Real (.int i) x

/-- A file without timestamps of its own has their texts. -/
inductive Moment : Shape Timestamp
  | timestamp (t : Timestamp) : Moment (.timestamp t) t
  | text {s : String} {t : Timestamp} (h : Timestamp.read s = .ok t) : Moment (.text s) t

def optional (s : Shape α) : Shape (Option α)
  | d, none => d = .null
  | d, some a => d ≠ .null ∧ s d a

def list (s : Shape α) : Shape (List α) := fun d xs => ∃ ds, d = .list ds ∧ List.Forall₂ s ds xs

/-- The fields may stand in any order, and others may stand between them. -/
def record (tells : Check.Fields → α → Prop) : Shape α := fun d a => ∃ fs, d = .map fs ∧ tells fs a

def field (name : String) (s : Shape α) (fs : Check.Fields) (a : α) : Prop :=
  ∃ d, Document.field? name fs = some d ∧ s d a

/-- The field may be left out for the value that is taken then. -/
def fieldOr (name : String) (default : α) (s : Shape α) (fs : Check.Fields) (a : α) : Prop :=
  (Document.field? name fs = none ∧ a = default) ∨ s.field name fs a

end Shape

/-! ## Checks that read shapes -/

namespace Check

variable {α β : Type} {check : Check β} {s : Shape α} {ok : α → Prop} {f : α → β} {name : String}
  {fs : Fields} {a : α}

/-- The check takes documents of the shape just if they tell what is acceptable. -/
def Reads (check : Check β) (s : Shape α) (ok : α → Prop) (f : α → β) : Prop :=
  ∀ d a, s d a → (check d).ValidIff (ok a) (f a)

theorem reads_text : Reads text Shape.text (fun _ => True) id := by
  rintro _ s rfl
  exact .pure s

theorem reads_nonEmptyText : Reads nonEmptyText Shape.text (· ≠ "") id := by
  rintro _ s rfl a
  by_cases hs : s = ""
  · subst hs
    exact ⟨nofun, fun h => absurd rfl h.1⟩
  · rw [nonEmptyText_text hs]
    exact ((Checked.ValidIff.pure s).congr (iff_of_true hs trivial) fun _ => rfl) a

theorem reads_whole : Reads whole Shape.whole (fun _ => True) id := by
  rintro _ i rfl
  exact .pure i

theorem reads_wholeFrom : Reads (wholeFrom 0) Shape.whole (0 ≤ ·) Int.toNat := by
  rintro _ i rfl
  exact .of_if

theorem reads_flag : Reads flag Shape.flag (fun _ => True) id := by
  rintro _ b rfl
  exact .pure b

theorem reads_kindOf : Reads kindOf Shape.kind (fun _ => True) id := by
  rintro _ k rfl
  have hk : kindOf (.text k.name) = .valid k := by
    rw [kindOf, member, RequirementKind.ofName?_name]
  rw [hk]
  exact .pure k

theorem validIff_realFromZero {d : Document} {x : Binary64} (h : real d = .valid x) :
    (realFromZero d).ValidIff (Binary64.zero.le x = true) x := by
  rw [realFromZero, h]
  exact .of_if

theorem reads_realFromZero :
    Reads realFromZero Shape.Real (fun x => Binary64.zero.le x = true) id := by
  intro d x hd
  cases hd with
  | real x => exact validIff_realFromZero rfl
  | @whole i x hx hfin =>
    have hreal : real (.int i) = .valid x := by
      simp only [real, asText, realOfInt, hx, hfin, if_true]
    exact validIff_realFromZero hreal

theorem reads_moment : Reads moment Shape.Moment (fun _ => True) Timestamp.toInstant := by
  intro d t hd
  cases hd with
  | timestamp t => exact .pure t.toInstant
  | @text s t ht =>
    have hread : moment (.text s) = .valid t.toInstant := by
      show momentOfText s = _
      rw [momentOfText, ht]
    rw [hread]
    exact .pure t.toInstant

theorem Reads.optional (h : check.Reads s ok f) :
    (Check.optional check).Reads s.optional (fun o => ∀ a ∈ o, ok a) (Option.map f) := by
  rintro d (_ | a) hd
  · obtain rfl := hd
    exact (Checked.ValidIff.pure none).congr (iff_of_true nofun trivial) fun _ => rfl
  · obtain ⟨hnull, hd⟩ := hd
    have hsome : Check.optional check d = some <$> check d := by
      rw [Check.optional]
      · rfl
      · exact hnull
    rw [hsome]
    exact ((h d a hd).map some).congr (by simp) fun _ => rfl

theorem validIff_elementsFrom (h : check.Reads s ok f) {ds : List Document} {xs : List α}
    (hds : List.Forall₂ s ds xs) (n : Nat) :
    (elementsFrom check n ds).ValidIff (∀ x ∈ xs, ok x) (xs.map f) := by
  induction hds generalizing n with
  | nil => exact (Checked.ValidIff.pure []).congr (iff_of_true nofun trivial) fun _ => rfl
  | cons hd _ ih =>
    have hhead := ((h _ _ hd).under (.index n)).map List.cons
    exact (hhead.seq (ih (n + 1))).congr List.forall_mem_cons fun _ => rfl

theorem Reads.list (h : check.Reads s ok f) :
    (Check.list check).Reads s.list (fun xs => ∀ x ∈ xs, ok x) (List.map f) := by
  rintro _ xs ⟨ds, rfl, hds⟩
  exact validIff_elementsFrom h hds 0

theorem validIff_inOrder {what : String} {place : β → Place} {xs : List β} :
    (inOrder what place xs).ValidIff (xs.map fun x => (place x).2).Nodup
      (sortByPlace place xs) := by
  refine fun ys => ⟨fun h => ?_, ?_⟩
  · obtain ⟨rfl, hids⟩ := eq_of_inOrder h
    exact ⟨hids, rfl⟩
  · rintro ⟨hids, rfl⟩
    rw [inOrder, repeatedIds_of_nodup hids]

theorem Reads.inOrder {what : String} {place : β → Place} {key : α → String}
    (h : check.Reads s ok f) (hkey : ∀ a, (place (f a)).2 = key a) :
    Reads (fun d => (Check.list check d).andThen (Pathway.inOrder what place)) s.list
      (fun xs => (∀ x ∈ xs, ok x) ∧ (xs.map key).Nodup) fun xs => sortByPlace place (xs.map f) := by
  intro d xs hd
  have hids : (xs.map f).map (fun b => (place b).2) = xs.map key := by
    rw [List.map_map]
    exact List.map_congr_left fun a _ => hkey a
  refine ((h.list d xs hd).andThen validIff_inOrder).congr ?_ fun _ => rfl
  rw [hids]

theorem reads_record {tells : Fields → α → Prop} {body : Fields → Checked β}
    (h : ∀ fs a, tells fs a → (body fs).ValidIff (ok a) (f a)) :
    Reads (record body) (Shape.record tells) ok f := by
  rintro _ a ⟨fs, rfl, hfs⟩
  exact h fs a hfs

theorem Reads.field (h : check.Reads s ok f) (hfs : s.field name fs a) :
    (Check.field name check fs).ValidIff (ok a) (f a) := by
  obtain ⟨d, hd, hs⟩ := hfs
  rw [Check.field, hd]
  exact (h d a hs).under (.field name)

theorem Reads.fieldOr {default : α} {value : β} (h : check.Reads s ok f)
    (hfs : s.fieldOr name default fs a) (hok : ok default) (hvalue : f default = value) :
    (Check.fieldOr name value check fs).ValidIff (ok a) (f a) := by
  subst hvalue
  rcases hfs with ⟨hnone, rfl⟩ | ⟨d, hd, hs⟩
  · rw [Check.fieldOr, hnone]
    exact (Checked.ValidIff.pure (f a)).congr (iff_of_true hok trivial) fun _ => rfl
  · rw [Check.fieldOr, hd]
    exact (h d a hs).under (.field name)

end Check

end Pathway
