import Klein.Proofs.Analysis.Outcome

namespace Klein

open Analysis

/-- A use of a name in an expression: for its value, or as a function with some arguments. -/
inductive Mention
  | identifier (name : String)
  | call (callee : String) (arguments : Nat)
deriving DecidableEq, Repr

mutual

/-- The uses of names in an expression, those in the arguments of a call before the call. -/
def Expr.mentions : Expr → List Mention
  | .integer .. | .boolean .. => []
  | .identifier _ name => [.identifier name]
  | .unary _ _ value => value.mentions
  | .binary _ _ left right => left.mentions ++ right.mentions
  | .conditional _ condition consequent alternative =>
    condition.mentions ++ consequent.mentions ++ alternative.mentions
  | .call _ callee _ arguments => arguments.mentions ++ [.call callee arguments.toList.length]

def Arguments.mentions : Arguments → List Mention
  | .nil => []
  | .cons _ value rest => value.mentions ++ rest.mentions

end

def Body.mentions (b : Body) : List Mention :=
  (b.prints.flatMap fun c => c.toExpr.mentions) ++ b.result.mentions

namespace Analysis

/-- Something is collected from findings: it comes from the uses of names only, from each one by
    itself, and in their order. -/
structure Findings.Collects {β : Type} (env : Env) (collected : Findings → List β)
    (found : Mention → List β) : Prop where
  empty : collected {} = []
  append : ∀ {first second : Findings}, first.fault = none →
    collected (first ++ second) = collected first ++ collected second
  operands : ∀ form wanted result operands,
    collected (judgeOperands env.place form wanted result operands).findings = []
  identifier : ∀ name, collected (judgeIdentifier env name).findings = found (.identifier name)
  call : ∀ callee types,
    collected (judgeCall env callee types).findings = found (.call callee types.length)

section Collects

variable {β : Type} {env : Env} {collected : Findings → List β} {found : Mention → List β}

theorem Findings.Collects.unary (h : Findings.Collects env collected found) (op : UnaryOp)
    (value : Ty) : collected (judgeUnary env.place op value).findings = [] := by
  rw [judgeUnary_eq]
  exact h.operands ..

theorem Findings.Collects.binary (h : Findings.Collects env collected found) (op : BinaryOp)
    (left right : Ty) : collected (judgeBinary env.place op left right).findings = [] := by
  cases op with
  | equals => exact h.empty
  | _ => exact h.operands ..

variable (h : Findings.Collects env collected found) (hinside : env.inFunction = true)
include h hinside

mutual

/-- What is collected from an expression comes from the names that are used in it. -/
theorem collected_checkExpr :
    (e : Expr) → collected (checkExpr env e).findings = e.mentions.flatMap found
  | .integer .. | .boolean .. => h.empty
  | .identifier tag name => by
    rw [checkExpr_identifier hinside, h.identifier, Expr.mentions, List.flatMap_singleton]
  | .unary tag op value => by
    have hvalue := checkExpr_regular hinside value
    rw [checkExpr_unary hinside, h.append hvalue.fault, collected_checkExpr value, h.unary,
      List.append_nil, Expr.mentions]
  | .binary tag op left right => by
    have hleft := checkExpr_regular hinside left
    have hright := hleft.append (checkExpr_regular hinside right)
    rw [checkExpr_binary hinside, h.append hright.fault, h.append hleft.fault,
      collected_checkExpr left, collected_checkExpr right, h.binary, List.append_nil,
      Expr.mentions, List.flatMap_append]
  | .conditional tag condition consequent alternative => by
    have hcondition := checkExpr_regular hinside condition
    have hconsequent := hcondition.append (checkExpr_regular hinside consequent)
    have halternative := hconsequent.append (checkExpr_regular hinside alternative)
    rw [checkExpr_conditional hinside, h.append halternative.fault, h.append hconsequent.fault,
      h.append hcondition.fault, collected_checkExpr condition, collected_checkExpr consequent,
      collected_checkExpr alternative, judgeConditional, h.operands, List.append_nil,
      Expr.mentions, List.flatMap_append, List.flatMap_append]
  | .call tag callee listTag arguments => by
    have harguments := checkArguments_regular hinside arguments
    rw [checkExpr_call hinside, h.append harguments.fault, collected_checkArguments arguments,
      h.call, length_checkArguments hinside, Expr.mentions, List.flatMap_append,
      List.flatMap_singleton]

theorem collected_checkArguments :
    (arguments : Arguments) →
      collected (checkArguments env arguments).findings = arguments.mentions.flatMap found
  | .nil => h.empty
  | .cons tag value rest => by
    have hvalue := checkExpr_regular hinside value
    rw [checkArguments_cons hinside, h.append hvalue.fault, collected_checkExpr value,
      collected_checkArguments rest, Arguments.mentions, List.flatMap_append]

end

theorem collected_checkCalls (calls : List Call) :
    collected (checkCalls env calls).findings =
      (calls.flatMap fun c => c.toExpr.mentions).flatMap found := by
  induction calls with
  | nil => exact h.empty
  | cons c calls ih =>
    have hcall := checkExpr_regular hinside c.toExpr
    rw [checkCalls_cons hinside, (checkCall_eq c).2, h.append hcall.fault,
      collected_checkExpr h hinside, ih, List.flatMap_cons, List.flatMap_append]

theorem collected_checkBody (b : Body) :
    collected (checkBody env b).findings = b.mentions.flatMap found := by
  have hprints := checkCalls_regular hinside b.prints
  have hresult := hprints.append (checkExpr_regular hinside b.result)
  rw [checkBody_eq hinside, h.append hresult.fault, h.append hprints.fault, h.empty,
    List.append_nil, collected_checkCalls h hinside, collected_checkExpr h hinside, Body.mentions,
    List.flatMap_append]

end Collects

/-- To judge operands adds neither a call nor a use of a parameter. -/
theorem notes_judgeOperands (place : Option String) (form : Form) (wanted result : Ty)
    (operands : List (String × Ty)) :
    (judgeOperands place form wanted result operands).findings.calls = [] ∧
      (judgeOperands place form wanted result operands).findings.used = [] := by
  obtain hright | ⟨issue, -, hwrong⟩ := judgeOperands_cases place form wanted result operands
  · rw [hright]
    exact ⟨rfl, rfl⟩
  · rw [hwrong]
    exact ⟨rfl, rfl⟩

/-- To judge arguments adds neither. The call itself is noted before. -/
theorem notes_judgeArguments (place : Option String) (callee : String) (wanted types : List Ty)
    (result : Ty) :
    (judgeArguments place callee wanted types result).findings.calls = [] ∧
      (judgeArguments place callee wanted types result).findings.used = [] := by
  obtain hright | ⟨issue, -, hwrong⟩ := judgeArguments_cases place callee wanted types result
  · rw [hright]
    exact ⟨rfl, rfl⟩
  · rw [hwrong]
    exact ⟨rfl, rfl⟩

end Analysis

end Klein
