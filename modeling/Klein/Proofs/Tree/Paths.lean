import Mathlib.Data.List.Forall2
import Klein.Tree.Path

namespace Klein

/-- The parts hold related nodes: one each, or equally many. -/
inductive Part.Related (R : Node → Node → Prop) : Part → Part → Prop
  | one {node twin : Node} : R node twin → Part.Related R (.one node) (.one twin)
  | many {nodes twins : List Node} : List.Forall₂ R nodes twins →
      Part.Related R (.many nodes) (.many twins)

/-- Parts with the same names in the same order hold related nodes. -/
def PartsRelated (R : Node → Node → Prop) (parts others : List (String × Part)) : Prop :=
  List.Forall₂ (fun part other => part.1 = other.1 ∧ Part.Related R part.2 other.2) parts others

/-- Related nodes have related parts. -/
def Node.Hereditary (R : Node → Node → Prop) : Prop :=
  ∀ node twin, R node twin → PartsRelated R node.parts twin.parts

variable {R S : Node → Node → Prop}

theorem Part.Related.imp (h : ∀ node twin, R node twin → S node twin) {part other : Part}
    (hrelated : Part.Related R part other) : Part.Related S part other := by
  cases hrelated with
  | one hnode => exact .one (h _ _ hnode)
  | many hnodes => exact .many (hnodes.imp h)

theorem PartsRelated.imp (h : ∀ node twin, R node twin → S node twin)
    {parts others : List (String × Part)} (hparts : PartsRelated R parts others) :
    PartsRelated S parts others :=
  List.Forall₂.imp (fun _ _ hpart => ⟨hpart.1, hpart.2.imp h⟩) hparts

theorem PartsRelated.lookup {parts others : List (String × Part)} {name : String} {found : Part}
    (h : PartsRelated R parts others) (hlookup : others.lookup name = some found) :
    ∃ part, parts.lookup name = some part ∧ Part.Related R part found := by
  induction h with
  | nil => cases hlookup
  | @cons part other parts others hfirst _ ih =>
    obtain ⟨key, value⟩ := part
    obtain ⟨_, twin⟩ := other
    obtain ⟨rfl, hvalue⟩ := hfirst
    cases hname : name == key with
    | true =>
      simp only [List.lookup_cons, hname, Option.some.injEq] at hlookup ⊢
      exact ⟨value, rfl, hlookup ▸ hvalue⟩
    | false =>
      simp only [List.lookup_cons, hname] at hlookup ⊢
      exact ih hlookup

theorem elementAt_related {container indexName : String} {nodes twins : List Node} {index : Int}
    {found : Node} (h : List.Forall₂ R nodes twins)
    (hat : elementAt container indexName twins index = .ok found) :
    ∃ node, elementAt container indexName nodes index = .ok node ∧ R node found := by
  obtain ⟨hlength, hrelated⟩ := List.forall₂_iff_get.mp h
  unfold elementAt at hat ⊢
  rw [hlength]
  split at hat
  · cases hat
  · rename_i hsize
    rw [if_neg hsize]
    cases hindex : frontIndex? twins.length index with
    | none => simp [hindex] at hat
    | some i =>
      simp only [hindex, Option.bind_some] at hat ⊢
      split at hat
      · rename_i twin htwin
        obtain ⟨hi, rfl⟩ := List.getElem?_eq_some_iff.mp htwin
        cases hat
        rw [List.getElem?_eq_getElem (hlength ▸ hi)]
        exact ⟨_, rfl, hrelated i (hlength ▸ hi) hi⟩
      · cases hat

/-- A step that can be taken in a tree can be taken in the other one. -/
theorem Part.Related.step (hparts : Node.Hereditary R) {part twin next : Part} {step : PathStep}
    (h : Part.Related R part twin) (hstep : twin.step step = .ok next) :
    ∃ before, part.step step = .ok before ∧ Part.Related R before next := by
  cases h with
  | one h =>
    cases step with
    | index i => cases hstep
    | part name =>
      simp only [Part.step] at hstep ⊢
      split at hstep
      · rename_i found hlookup
        obtain ⟨before, hbefore, hrelated⟩ := (hparts _ _ h).lookup hlookup
        cases hstep
        exact ⟨before, by rw [hbefore], hrelated⟩
      · cases hstep
  | many h =>
    cases step with
    | part name => cases hstep
    | index i =>
      simp only [Part.step] at hstep ⊢
      split at hstep
      · rename_i found hat
        obtain ⟨before, hbefore, hrelated⟩ := elementAt_related h hat
        cases hstep
        exact ⟨.one before, by rw [hbefore], .one hrelated⟩
      · cases hstep

theorem Part.Related.steps (hparts : Node.Hereditary R) {part twin last : Part}
    {path : List PathStep} (h : Part.Related R part twin)
    (hsteps : path.foldlM Part.step twin = .ok last) :
    ∃ before, path.foldlM Part.step part = .ok before ∧ Part.Related R before last := by
  induction path generalizing part twin with
  | nil =>
    cases hsteps
    exact ⟨part, rfl, h⟩
  | cons step path ih =>
    rw [List.foldlM_cons] at hsteps ⊢
    cases hnext : twin.step step with
    | error e => rw [hnext] at hsteps; cases hsteps
    | ok next =>
      obtain ⟨before, hbefore, hrelated⟩ := h.step hparts hnext
      rw [hnext] at hsteps
      rw [hbefore]
      exact ih hrelated hsteps

/-- A path that leads to a node leads from a related node to a related one. -/
theorem follow_related (hparts : Node.Hereditary R) {node twin found : Node} {path : List PathStep}
    (h : R node twin) (hfollow : twin.follow path = .ok found) :
    ∃ before, node.follow path = .ok before ∧ R before found := by
  unfold Node.follow at hfollow ⊢
  cases hsteps : path.foldlM Part.step (.one twin) with
  | error e => rw [hsteps] at hfollow; cases hfollow
  | ok last =>
    obtain ⟨before, hbefore, hrelated⟩ := (Part.Related.one h).steps hparts hsteps
    rw [hsteps] at hfollow
    rw [hbefore]
    cases hrelated with
    | one hrelated =>
      cases hfollow
      exact ⟨_, rfl, hrelated⟩
    | many _ => cases hfollow

end Klein
