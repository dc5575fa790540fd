import Klein.Code
import Mathlib.Data.List.Forall2

namespace Klein

open Machine

/-- Where the making of something ends, from a layout: with a value and a layout that have a
    property, or with an error that has one. -/
def Making.Ends {α : Type} (x : Making α) (l : Layout) (Q : α → Layout → Prop)
    (E : CodeError → Prop) : Prop :=
  match x.run.run l with
  | (.ok a, after) => Q a after
  | (.error e, _) => E e

namespace Making

variable {α β : Type} {x : Making α} {f : α → Making β} {a : α} {l after : Layout}
variable {P P' : α → Layout → Prop} {Q : β → Layout → Prop} {E E' : CodeError → Prop}

theorem run_bind (x : Making α) (f : α → Making β) (l : Layout) :
    (x >>= f).run.run l =
      match x.run.run l with
      | (.ok a, after) => (f a).run.run after
      | (.error e, after) => (.error e, after) := by
  rw [ExceptT.run_bind, StateT.run_bind]
  cases hx : x.run.run l with
  | mk result after => cases result <;> rfl

theorem Ends.bind (hx : x.Ends l P E) (hf : ∀ a after, P a after → (f a).Ends after Q E) :
    (x >>= f).Ends l Q E := by
  rw [Ends] at hx ⊢
  rw [run_bind]
  split at hx
  · exact hf _ _ hx
  · exact hx

theorem Ends.mono (hx : x.Ends l P E) (hP : ∀ a after, P a after → P' a after)
    (hE : ∀ e, E e → E' e) : x.Ends l P' E' := by
  rw [Ends] at hx ⊢
  split at hx
  · exact hP _ _ hx
  · exact hE _ hx

theorem ends_pure (h : P a l) : (pure a : Making α).Ends l P E :=
  h

theorem ends_lift_bind {value : Except CodeError α} (hvalue : value = .ok a)
    (h : (f a).Ends l Q E) : ((liftM value : Making α) >>= f).Ends l Q E := by
  subst hvalue
  exact h

theorem ends_lift_error {value : Except CodeError α} {e : CodeError} (hvalue : value = .error e)
    (h : E e) : ((liftM value : Making α) >>= f).Ends l Q E := by
  subst hvalue
  exact h

theorem ends_lift {value : Except CodeError α} (hok : ∀ a, value = .ok a → (f a).Ends l Q E)
    (herror : ∀ e, value = .error e → E e) : ((liftM value : Making α) >>= f).Ends l Q E := by
  cases value with
  | ok a => exact ends_lift_bind rfl (hok a rfl)
  | error e => exact ends_lift_error rfl (herror e rfl)

/-- The making of something comes to one of its ends. -/
theorem Ends.cases (hx : x.Ends l P E) :
    (∃ a after, x.run.run l = (.ok a, after) ∧ P a after) ∨
      ∃ e after, x.run.run l = (.error e, after) ∧ E e := by
  rw [Ends] at hx
  split at hx
  · exact .inl ⟨_, _, by assumption, hx⟩
  · exact .inr ⟨_, _, by assumption, hx⟩

theorem Ends.of_run (hx : x.Ends l P E) (hrun : x.run.run l = (.ok a, after)) : P a after := by
  rwa [Ends, hrun] at hx

end Making

/-- Lines in which the commands have been numbered in the order of the lines, from a layout on. The
    commands are those of a block of instructions. -/
inductive MadeInOrder : Layout → List CodeLine → List Instruction → Layout → Prop
  | nil {l : Layout} : MadeInOrder l [] [] l
  | remark {l after : Layout} {lines : List CodeLine} {block : List Instruction} (text : String) :
      MadeInOrder l lines block after → MadeInOrder l (.remark text :: lines) block after
  | command {l after : Layout} {lines : List CodeLine} {block : List Instruction} (i : Instruction)
      (comment : Option String) : MadeInOrder (l.append i.command comment).2 lines block after →
      MadeInOrder l (.instruction l.next i comment :: lines) (i :: block) after

section

variable {α : Type} {l after next : Layout} {lines others : List CodeLine}
variable {block rest : List Instruction}

theorem MadeInOrder.append (h : MadeInOrder l lines block after)
    (hrest : MadeInOrder after others rest next) :
    MadeInOrder l (lines ++ others) (block ++ rest) next := by
  induction h with
  | nil => exact hrest
  | remark text _ ih => exact .remark text (ih hrest)
  | command i comment _ ih => exact .command i comment (ih hrest)

/-- Code that is made without an error, from every layout. Its commands are made in the order in
    which they are printed, and are those of a block. -/
def Code.Makes (code : Code) (block : List Instruction) : Prop :=
  ∀ l, code.Ends l (fun lines after => MadeInOrder l lines block after) fun _ => False

theorem Code.Makes.bind {code : Code} {f : List CodeLine → Making α} {Q : α → Layout → Prop}
    {E : CodeError → Prop} (h : code.Makes block)
    (hf : ∀ lines after, MadeInOrder l lines block after → (f lines).Ends after Q E) :
    (code >>= f).Ends l Q E :=
  Making.Ends.bind ((h l).mono (fun _ _ => id) fun _ => False.elim) hf

/-- A line that is made by itself. -/
theorem command_bind {i : Instruction} {comment : Option String} {f : CodeLine → Making α}
    {Q : α → Layout → Prop} {E : CodeError → Prop}
    (hf : ∀ line after, MadeInOrder l [line] [i] after → (f line).Ends after Q E) :
    (command i comment >>= f).Ends l Q E :=
  Making.Ends.bind (P := fun line after => MadeInOrder l [line] [i] after)
    (.command i comment .nil) hf

/-- If each piece of some code is made in the order in which it is printed, then so is all of it. -/
theorem ends_mapM {items : List α} {make : α → Code} {B : α → List Instruction → Prop}
    {E : CodeError → Prop}
    (h : ∀ a ∈ items, ∀ l,
      (make a).Ends l (fun lines after => ∃ block, B a block ∧ MadeInOrder l lines block after) E) :
    (items.mapM make).Ends l
      (fun pieces after => ∃ blocks, List.Forall₂ B items blocks ∧
        MadeInOrder l pieces.flatten blocks.flatten after) E := by
  induction items generalizing l with
  | nil => exact Making.ends_pure ⟨[], .nil, .nil⟩
  | cons a items ih =>
    rw [List.forall_mem_cons] at h
    rw [List.mapM_cons]
    refine (h.1 l).bind fun lines next ⟨block, hblock, hlines⟩ => ?_
    refine (ih h.2).bind fun pieces after ⟨blocks, hblocks, hpieces⟩ => ?_
    exact Making.ends_pure ⟨block :: blocks, .cons hblock hblocks, hlines.append hpieces⟩

theorem Code.Makes.mapM_bind {β : Type} {items : List β} {make : β → Code}
    {blocks : β → List Instruction} {f : List (List CodeLine) → Making α} {Q : α → Layout → Prop}
    {E : CodeError → Prop} (h : ∀ b ∈ items, (make b).Makes (blocks b))
    (hf : ∀ pieces after, MadeInOrder l pieces.flatten (items.flatMap blocks) after →
      (f pieces).Ends after Q E) :
    (items.mapM make >>= f).Ends l Q E := by
  have hpieces := @ends_mapM β l items make (fun b block => blocks b = block) E fun b hb m =>
    (h b hb m).mono (fun _ _ hlisted => ⟨_, rfl, hlisted⟩) fun _ => False.elim
  refine hpieces.bind fun pieces after ⟨found, hfound, hlisted⟩ => hf pieces after ?_
  have hblocks : items.map blocks = found := by
    rw [← List.forall₂_eq_eq_eq, List.forall₂_map_left_iff]
    exact hfound
  rwa [← hblocks, ← List.flatMap_def] at hlisted

/-- The instruction on a line of code, if the line is not a remark. -/
def CodeLine.instruction? : CodeLine → Option Instruction
  | remark _ => none
  | instruction _ i _ => some i

def instructions (lines : List CodeLine) : List Instruction :=
  lines.filterMap CodeLine.instruction?

/-- The number and the instruction of a line, if the line is not a remark. -/
def CodeLine.numbered? : CodeLine → Option (Int × Instruction)
  | remark _ => none
  | instruction number i _ => some (number, i)

namespace MadeInOrder

theorem instructions_eq (h : MadeInOrder l lines block after) : instructions lines = block := by
  induction h with
  | nil => rfl
  | remark _ _ ih => exact ih
  | command i _ _ ih => exact congrArg (i :: ·) ih

/-- Instructions have the numbers that follow each other from the next one on. -/
theorem numbered (h : MadeInOrder l lines block after) :
    lines.filterMap CodeLine.numbered? =
      (block.zipIdx l.next).map fun (i, number) => ((number : Int), i) := by
  induction h with
  | nil => rfl
  | remark _ _ ih => exact ih
  | command i _ _ ih => exact congrArg _ ih

theorem next_eq (h : MadeInOrder l lines block after) : after.next = l.next + block.length := by
  induction h with
  | nil => rfl
  | remark _ _ ih => exact ih
  | @command l after lines block i comment _ ih =>
    refine ih.trans ?_
    change l.next + 1 + block.length = l.next + (block.length + 1)
    omega

end MadeInOrder

end

namespace Code

/-- The error that ends the making of code from a new layout, if there is one. -/
def error (code : Code) : Option CodeError :=
  match (code.run.run {}).1 with
  | .ok _ => none
  | .error e => some e

/-- The lines of code that is made from a new layout without an error. -/
def lines (code : Code) : List CodeLine :=
  (code.run.run {}).1.toOption.getD []

theorem print_of_run {code : Code} {l after : Layout} {made : List CodeLine}
    (h : code.run.run l = (.ok made, after)) :
    code.print l = (.ok (listingText after (made.map CodeLine.line)), after) := by
  rw [print, h]

theorem exists_run_of_error {code : Code} (h : code.error = none) :
    ∃ after, code.run.run {} = (.ok code.lines, after) := by
  cases hrun : code.run.run {} with
  | mk result after =>
    cases result with
    | error e => simp [error, hrun] at h
    | ok made => exact ⟨after, by simp [lines, hrun, Except.toOption]⟩

theorem Makes.exists_run {code : Code} {block : List Instruction} (h : code.Makes block)
    (l : Layout) :
    ∃ lines after, code.run.run l = (.ok lines, after) ∧ MadeInOrder l lines block after := by
  obtain hmade | ⟨_, _, _, hfalse⟩ := (h l).cases
  · exact hmade
  · exact hfalse.elim

theorem Makes.block {code : Code} {block : List Instruction} (h : code.Makes block) :
    instructions code.lines = block := by
  obtain ⟨lines, after, hrun, hlisted⟩ := h.exists_run {}
  rw [Code.lines, hrun]
  exact hlisted.instructions_eq

end Code

end Klein
