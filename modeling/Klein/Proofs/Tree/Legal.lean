import Klein.Proofs.Scanner.Spelling
import Klein.Tree.Basic

namespace Klein

mutual

/-- An expression whose leaves can be written, and which does not call `print`. -/
def Expr.Legal : Expr → Prop
  | .integer _ text => IsNumeral text
  | .boolean _ text => text = "true" ∨ text = "false"
  | .identifier _ name => IsName name
  | .unary _ _ value => value.Legal
  | .binary _ _ left right => left.Legal ∧ right.Legal
  | .conditional _ condition consequent alternative =>
    condition.Legal ∧ consequent.Legal ∧ alternative.Legal
  | .call _ callee _ arguments => IsName callee ∧ arguments.Legal

def Arguments.Legal : Arguments → Prop
  | .nil => True
  | .cons _ value rest => value.Legal ∧ rest.Legal

end

/-- A call of `print` with one argument. -/
structure Call.IsPrint (c : Call) : Prop where
  callee : c.callee = "print"
  argument : ∃ tag value, c.arguments.items = .cons tag value .nil ∧ value.Legal

structure Body.Legal (b : Body) : Prop where
  prints : ∀ c ∈ b.prints, c.IsPrint
  result : b.result.Legal

structure Definition.Legal (d : Definition) : Prop where
  name : IsName d.name
  parameters : ∀ p ∈ d.parameters.items, IsName p.name
  body : d.body.Legal

def Program.Legal (p : Program) : Prop :=
  ∀ d ∈ p.definitions, d.Legal

theorem Arguments.legal_ofList {items : List Argument} (hitems : ∀ a ∈ items, a.value.Legal) :
    (Arguments.ofList items).Legal := by
  induction items with
  | nil => trivial
  | cons a items ih =>
    rw [ofList, Legal]
    exact ⟨hitems a (by simp), ih fun b hb => hitems b (by simp [hb])⟩

end Klein
