import Klein.Analysis.Program
import Klein.Proofs.Analysis.Typing
import Klein.Proofs.Tree.Legal
import Klein.Proofs.Tree.Printing

namespace Klein

/-- The annotation of a function. -/
def Signature.ty (signature : Signature) : Ty :=
  .function (signature.parameters.map BaseType.ty) signature.result.ty

/-- Names resolve to symbols with the types that were declared, and to none but `print` beside. -/
def Declared.Explains (names : Declared) (resolve : String → Option Symbol) : Prop :=
  ∀ name symbol, resolve name = some symbol →
    (∃ t, names.parameter name = some t ∧ symbol.type = t.ty) ∨
      (∃ signature, names.function name = some signature ∧ symbol.type = signature.ty) ∨
        name = "print"

namespace Analysis

/-- Findings without a fault or an error. -/
structure Findings.Clean (f : Findings) : Prop where
  fault : f.fault = none
  issues : ∀ issue ∈ f.issues, issue.isError = false

namespace Findings

@[simp]
theorem clean_append {first second : Findings} :
    (first ++ second).Clean ↔ first.Clean ∧ second.Clean := by
  change (first.append second).Clean ↔ _
  cases hfault : first.fault with
  | some fault =>
    have hsame : first.append second = first := by simp [append, hfault]
    rw [hsame]
    constructor
    · intro h
      simp [h.fault] at hfault
    · exact fun h => h.1
  | none =>
    have hboth : first.append second =
        { issues := first.issues ++ second.issues
          used := first.used ++ second.used
          calls := first.calls ++ second.calls
          fault := second.fault } := by simp [append, hfault]
    rw [hboth]
    constructor
    · rintro ⟨hnone, hissues⟩
      exact ⟨⟨hfault, fun i hi => hissues i (by simp [hi])⟩,
        ⟨hnone, fun i hi => hissues i (by simp [hi])⟩⟩
    · rintro ⟨hfirst, hsecond⟩
      refine ⟨hsecond.fault, fun i hi => ?_⟩
      rcases List.mem_append.mp hi with hi | hi
      · exact hfirst.issues i hi
      · exact hsecond.issues i hi

end Findings

variable {α : Type}

/-- What is concluded is clean if what was found before and the verdict are. -/
theorem clean_conclude {old : Tag} {build : Tag → α} {before : Findings} {verdict : Verdict} :
    (conclude old build before verdict).findings.Clean ↔
      before.Clean ∧ verdict.findings.Clean :=
  Findings.clean_append

theorem conclude_tree {old : Tag} {build : Tag → α} {before : Findings} {verdict : Verdict}
    (hclean : (conclude old build before verdict).findings.Clean) :
    (conclude old build before verdict).tree = build (some verdict.type) := by
  have hfault : (before ++ verdict.findings).fault = none := hclean.fault
  simp [conclude, hfault]

theorem conclude_type {old : Tag} {build : Tag → α} {before : Findings} {verdict : Verdict} :
    (conclude old build before verdict).type = verdict.type := rfl

theorem Checked.clean_after {checked : Checked α} {old : α} {before : Findings} :
    (checked.after old before).findings.Clean ↔ before.Clean ∧ checked.findings.Clean := by
  cases hfault : before.fault with
  | some fault =>
    have hdirty : ¬before.Clean := fun h => by simp [h.fault] at hfault
    simp [after, hfault, hdirty]
  | none => simp [after, hfault]

theorem Checked.after_tree {checked : Checked α} {old : α} {before : Findings}
    (hbefore : before.Clean) : (checked.after old before).tree = checked.tree := by
  simp [after, hbefore.fault]

theorem Checked.after_type {checked : Checked α} {old : α} {before : Findings} :
    (checked.after old before).type = checked.type := by
  unfold after
  split <;> rfl

/-- A verdict with an error is not clean. -/
theorem Verdict.not_clean_wrong {issue : Issue} (hissue : issue.isError = true) :
    ¬(Verdict.wrong issue).findings.Clean := by
  intro h
  have hnot := h.issues issue (by simp [wrong, Findings.ofIssue])
  simp [hissue] at hnot

/-- Operands that are judged without an error all have the type that is wanted. -/
theorem judgeOperands_clean {place : Option String} {form : Form} {t : BaseType} {result : Ty}
    {operands : List (String × Ty)}
    (hclean : (judgeOperands place form t.ty result operands).findings.Clean) :
    (judgeOperands place form t.ty result operands).type = result ∧
      ∀ operand ∈ operands, operand.2 = t.ty := by
  induction operands with
  | nil => exact ⟨rfl, by simp⟩
  | cons operand operands ih =>
    obtain ⟨name, found⟩ := operand
    rw [judgeOperands] at hclean ⊢
    split at hclean
    · rename_i hagrees
      rw [if_pos hagrees]
      obtain ⟨htype, hoperands⟩ := ih hclean
      refine ⟨htype, ?_⟩
      rintro operand (_ | ⟨_, hoperand⟩)
      · exact Ty.agrees_ty.mp hagrees
      · exact hoperands operand hoperand
    · exact absurd hclean (Verdict.not_clean_wrong rfl)

theorem judgeUnary_eq (place : Option String) (op : UnaryOp) (value : Ty) :
    judgeUnary place op value =
      judgeOperands place (.unaryOp op) op.type.ty op.type.ty [("value", value)] := by
  cases op <;> rfl

theorem judgeUnary_clean {place : Option String} {op : UnaryOp} {value : Ty}
    (hclean : (judgeUnary place op value).findings.Clean) :
    (judgeUnary place op value).type = op.type.ty ∧ value = op.type.ty := by
  rw [judgeUnary_eq] at hclean ⊢
  obtain ⟨htype, hoperands⟩ := judgeOperands_clean hclean
  exact ⟨htype, hoperands ("value", value) (by simp)⟩

theorem judgeBinary_eq {op : BinaryOp} {t : BaseType} (place : Option String)
    (htype : op.operandType = some t) (left right : Ty) :
    judgeBinary place op left right =
      judgeOperands place (.binaryOp op) t.ty op.resultType.ty
        [("left side", left), ("right side", right)] := by
  cases op <;> cases htype <;> rfl

theorem judgeBinary_clean {place : Option String} {op : BinaryOp} {t : BaseType} {left right : Ty}
    (htype : op.operandType = some t) (hclean : (judgeBinary place op left right).findings.Clean) :
    (judgeBinary place op left right).type = op.resultType.ty ∧ left = t.ty ∧ right = t.ty := by
  rw [judgeBinary_eq place htype] at hclean ⊢
  obtain ⟨hresult, hoperands⟩ := judgeOperands_clean hclean
  exact ⟨hresult, hoperands ("left side", left) (by simp),
    hoperands ("right side", right) (by simp)⟩

/-- An equation takes operands of any types. -/
theorem judgeBinary_equals {place : Option String} {left right : Ty}
    {types others : Finset BaseType} (hleft : left.Covers types) (hright : right.Covers others) :
    (judgeBinary place .equals left right).type = .boolean := by
  have hnot : ∀ {a : Ty} {types : Finset BaseType}, a.Covers types → a.agrees .error = false := by
    intro a types hcovers
    cases a with
    | integer | boolean | union => simp [Ty.agrees, Ty.agreesOr, Ty.simpleAgrees, Ty.sameSimple]
    | _ => exact absurd hcovers id
  simp [judgeBinary, hnot hleft, hnot hright]

/-- A conditional is judged by its condition, and takes its annotation from its branches. -/
theorem judgeConditional_clean {place : Option String} {condition consequent alternative : Ty}
    (hclean : (judgeConditional place condition consequent alternative).findings.Clean) :
    condition = .boolean ∧ (judgeConditional place condition consequent alternative).type =
      if consequent.agrees alternative then consequent else .union [consequent, alternative] := by
  obtain ⟨htype, hoperands⟩ := judgeOperands_clean (t := .boolean) hclean
  exact ⟨hoperands ("condition", condition) (by simp), htype⟩

/-- A name that is used as a value is a parameter. -/
theorem judgeIdentifier_clean {env : Env} {names : Declared} {name : String}
    (henv : names.Explains env.resolve) (hname : name ≠ "print")
    (hclean : (judgeIdentifier env name).findings.Clean) :
    ∃ t, names.parameter name = some t ∧ (judgeIdentifier env name).type = t.ty := by
  unfold judgeIdentifier at hclean ⊢
  cases hresolve : env.resolve name with
  | none =>
    simp only [hresolve] at hclean
    exact absurd hclean (Verdict.not_clean_wrong rfl)
  | some symbol =>
    simp only [hresolve] at hclean ⊢
    rcases henv name symbol hresolve with ⟨t, ht, htype⟩ | ⟨signature, -, htype⟩ | hprint
    · refine ⟨t, ht, ?_⟩
      cases t <;> simp only [htype, BaseType.ty] <;> split <;> rfl
    · simp only [htype, Signature.ty] at hclean
      exact absurd hclean (Verdict.not_clean_wrong rfl)
    · exact absurd hprint hname

/-- A list of annotations agrees with types only if it is the list of these types. -/
theorem agreeEach_types {found : List Ty} {types : List BaseType}
    (hagree : Ty.agreeEach false found (types.map BaseType.ty) = true) :
    found = types.map BaseType.ty := by
  induction found generalizing types with
  | nil =>
    cases types with
    | nil => rfl
    | cons t types => simp [Ty.agreeEach] at hagree
  | cons a found ih =>
    cases types with
    | nil => simp [Ty.agreeEach] at hagree
    | cons t types =>
      simp only [List.map_cons, Ty.agreeEach, Bool.and_eq_true] at hagree
      rw [Ty.agrees_ty.mp hagree.1, ih hagree.2, List.map_cons]

theorem judgeArguments_clean {place : Option String} {callee : String} {types : List BaseType}
    {found : List Ty} {result : Ty}
    (hclean : (judgeArguments place callee (types.map BaseType.ty) found result).findings.Clean) :
    found = types.map BaseType.ty ∧
      (judgeArguments place callee (types.map BaseType.ty) found result).type = result := by
  unfold judgeArguments at hclean ⊢
  split at hclean
  · rename_i hagrees
    rw [if_pos hagrees]
    exact ⟨agreeEach_types (by simpa [Ty.agrees, Ty.agreesOr] using hagrees), rfl⟩
  · split at hclean
    · exact absurd hclean (Verdict.not_clean_wrong rfl)
    · split at hclean
      · exact absurd hclean (Verdict.not_clean_wrong rfl)
      · exact absurd hclean (Verdict.not_clean_wrong rfl)

/-- A function that is called is defined, and the arguments have the types of its parameters. -/
theorem judgeCall_clean {env : Env} {names : Declared} {callee : String} {found : List Ty}
    (henv : names.Explains env.resolve) (hname : callee ≠ "print")
    (hclean : (judgeCall env callee found).findings.Clean) :
    ∃ signature, names.function callee = some signature ∧
      found = signature.parameters.map BaseType.ty ∧
      (judgeCall env callee found).type = signature.result.ty := by
  unfold judgeCall at hclean ⊢
  cases hresolve : env.resolve callee with
  | none =>
    simp only [hresolve] at hclean
    exact absurd hclean (Verdict.not_clean_wrong rfl)
  | some symbol =>
    simp only [hresolve] at hclean ⊢
    rcases henv callee symbol hresolve with ⟨t, -, htype⟩ | ⟨signature, hfunction, htype⟩ | hprint
    · cases t <;> simp only [htype, BaseType.ty] at hclean <;>
        exact absurd hclean (Verdict.not_clean_wrong rfl)
    · refine ⟨signature, hfunction, ?_⟩
      simp only [htype, Signature.ty] at hclean ⊢
      cases hinside : env.inFunction with
      | false =>
        simp only [hinside] at hclean
        exact absurd hclean.fault (by simp)
      | true =>
        simp only [hinside, if_true, Findings.clean_append] at hclean ⊢
        exact judgeArguments_clean hclean.2
    · exact absurd hprint hname

mutual

/-- An expression that the checker finds nothing wrong with is annotated by the typing rules. -/
theorem checkExpr_typed {env : Env} {names : Declared} (henv : names.Explains env.resolve) :
    (e : Expr) → e.Legal → (checkExpr env e).findings.Clean →
      Typed names (checkExpr env e).tree (checkExpr env e).type
  | .integer .., _, _ => .integer
  | .boolean .., _, _ => .boolean
  | .identifier tag name, hlegal, hclean => by
    simp only [checkExpr] at hclean ⊢
    obtain ⟨t, ht, htype⟩ := judgeIdentifier_clean henv (IsName.ne_print hlegal)
      (clean_conclude.mp hclean).2
    rw [conclude_tree hclean, conclude_type, htype]
    exact .identifier ht
  | .unary tag op value, hlegal, hclean => by
    simp only [checkExpr] at hclean ⊢
    obtain ⟨hvalue, hverdict⟩ := clean_conclude.mp hclean
    obtain ⟨htype, hoperand⟩ := judgeUnary_clean hverdict
    have htyped := checkExpr_typed henv value hlegal hvalue
    rw [conclude_tree hclean, conclude_type, htype]
    exact .unary (hoperand ▸ htyped)
  | .binary tag op left right, hlegal, hclean => by
    simp only [checkExpr] at hclean ⊢
    obtain ⟨hoperands, hverdict⟩ := clean_conclude.mp hclean
    obtain ⟨hleft, hright⟩ := Checked.clean_after.mp hoperands
    have hl := checkExpr_typed henv left hlegal.1 hleft
    have hr := checkExpr_typed henv right hlegal.2 hright
    rw [conclude_tree hclean, conclude_type, Checked.after_tree hleft]
    simp only [Checked.after_type] at hverdict ⊢
    cases htype : op.operandType with
    | some t =>
      obtain ⟨hresult, hlt, hrt⟩ := judgeBinary_clean htype hverdict
      rw [hresult]
      exact .operation htype (hlt ▸ hl) (hrt ▸ hr)
    | none =>
      -- only an equation takes operands of any type
      obtain rfl : op = .equals := by cases op <;> simp_all [BinaryOp.operandType]
      rw [judgeBinary_equals hl.covers hr.covers]
      exact .equation hl hr
  | .conditional tag condition consequent alternative, hlegal, hclean => by
    simp only [checkExpr] at hclean ⊢
    obtain ⟨hparts, hverdict⟩ := clean_conclude.mp hclean
    obtain ⟨hbranch, halternative⟩ := Checked.clean_after.mp hparts
    obtain ⟨hcondition, hconsequent⟩ := Checked.clean_after.mp hbranch
    have hc := checkExpr_typed henv condition hlegal.1 hcondition
    have ht := checkExpr_typed henv consequent hlegal.2.1 hconsequent
    have he := checkExpr_typed henv alternative hlegal.2.2 halternative
    rw [conclude_tree hclean, conclude_type, Checked.after_tree hcondition,
      Checked.after_tree hbranch]
    simp only [Checked.after_type] at hverdict ⊢
    obtain ⟨hboolean, hresult⟩ := judgeConditional_clean hverdict
    rw [hboolean] at hc
    rw [hresult]
    -- the two rules for conditionals are the two ways in which the branches compare
    split
    · rename_i hagrees
      exact .agreeing hc ht he hagrees
    · rename_i hdiffer
      exact .differing hc ht he (by simpa using hdiffer)
  | .call tag callee listTag arguments, hlegal, hclean => by
    simp only [checkExpr] at hclean ⊢
    obtain ⟨harguments, hverdict⟩ := clean_conclude.mp hclean
    obtain ⟨signature, hfunction, hfound, hresult⟩ :=
      judgeCall_clean henv (IsName.ne_print hlegal.1) hverdict
    have htyped := checkArguments_typed henv arguments hlegal.2 harguments _ hfound
    rw [conclude_tree hclean, conclude_type, hresult]
    exact .call hfunction htyped

theorem checkArguments_typed {env : Env} {names : Declared} (henv : names.Explains env.resolve) :
    (arguments : Arguments) → arguments.Legal → (checkArguments env arguments).findings.Clean →
      ∀ types : List BaseType, (checkArguments env arguments).types = types.map BaseType.ty →
        TypedArguments names (checkArguments env arguments).tree types
  | .nil, _, _, types, htypes => by
    obtain rfl : types = [] := by simpa [checkArguments] using htypes.symm
    exact .nil
  | .cons tag value rest, hlegal, hclean, types, htypes => by
    simp only [checkArguments] at hclean htypes ⊢
    split at hclean
    · rename_i hfault
      have hnone : (checkExpr env value).findings.fault = none := hclean.fault
      simp [hnone] at hfault
    · rename_i hnone
      rw [if_neg hnone] at htypes ⊢
      obtain ⟨hvalue, hrest⟩ := Findings.clean_append.mp hclean
      have hv := checkExpr_typed henv value hlegal.1 hvalue
      cases types with
      | nil => simp at htypes
      | cons t types =>
        obtain ⟨ht, hmore⟩ := List.cons.inj htypes
        exact .cons (ht ▸ hv) (checkArguments_typed henv rest hlegal.2 hrest types hmore)

end

/-- The arguments of `print` are annotated by the rules, whatever their annotations are. -/
theorem checkCalls_typed {env : Env} {names : Declared} (henv : names.Explains env.resolve)
    {calls : List Call} (hprints : ∀ c ∈ calls, c.IsPrint)
    (hclean : (checkCalls env calls).findings.Clean) :
    ∀ c ∈ (checkCalls env calls).tree, ∃ tag value type,
      c.arguments.items = .cons tag value .nil ∧ Typed names value type := by
  induction calls with
  | nil => simp [checkCalls]
  | cons c calls ih =>
    simp only [checkCalls] at hclean ⊢
    split at hclean
    · rename_i hfault
      have hnone : (checkCall env c).findings.fault = none := hclean.fault
      simp [hnone] at hfault
    · rename_i hnone
      rw [if_neg hnone]
      obtain ⟨hcall, hrest⟩ := Findings.clean_append.mp hclean
      rintro other (_ | ⟨_, hother⟩)
      · obtain ⟨tag, value, hitems, hlegal⟩ := (hprints c (by simp)).argument
        simp only [checkCall, hitems] at hcall ⊢
        rw [conclude_tree hcall]
        have harguments := (clean_conclude.mp hcall).1
        simp only [checkArguments] at harguments ⊢
        split at harguments
        · rename_i hfault
          have hnone : (checkExpr env value).findings.fault = none := harguments.fault
          simp [hnone] at hfault
        · rename_i hnone
          rw [if_neg hnone]
          exact ⟨_, _, _, rfl,
            checkExpr_typed henv value hlegal (Findings.clean_append.mp harguments).1⟩
      · exact ih (fun d hd => hprints d (by simp [hd])) hrest other hother

/-- The value of a body has an annotation by the rules, and so have the arguments of its output. -/
theorem checkBody_typed {env : Env} {names : Declared} {b : Body}
    (henv : names.Explains env.resolve)
    (hlegal : b.Legal) (hclean : (checkBody env b).findings.Clean) :
    Typed names (checkBody env b).tree.result (checkBody env b).type ∧
      ∀ c ∈ (checkBody env b).tree.prints, ∃ tag value type,
        c.arguments.items = .cons tag value .nil ∧ Typed names value type := by
  simp only [checkBody] at hclean ⊢
  obtain ⟨hprints, hresult⟩ := Checked.clean_after.mp (clean_conclude.mp hclean).1
  rw [conclude_tree hclean, conclude_type, Checked.after_type, Checked.after_tree hprints]
  exact ⟨checkExpr_typed henv b.result hlegal.result hresult,
    checkCalls_typed henv hlegal.prints hprints⟩

theorem Checked.after_bare {checked : Checked Expr} {old : Expr} (before : Findings)
    (hchecked : checked.tree.bare = old.bare) :
    (checked.after old before).tree.bare = old.bare := by
  unfold Checked.after
  split
  · rfl
  · exact hchecked

mutual

theorem checkExpr_bare (env : Env) : (e : Expr) → (checkExpr env e).tree.bare = e.bare
  | .integer .. | .boolean .. | .identifier .. => rfl
  | .unary tag op value => by
    simp only [checkExpr, conclude, Expr.bare, checkExpr_bare env value]
  | .binary tag op left right => by
    simp only [checkExpr, conclude, Expr.bare, checkExpr_bare env left,
      Checked.after_bare _ (checkExpr_bare env right)]
  | .conditional tag condition consequent alternative => by
    simp only [checkExpr, conclude, Expr.bare, checkExpr_bare env condition,
      Checked.after_bare _ (checkExpr_bare env consequent),
      Checked.after_bare _ (checkExpr_bare env alternative)]
  | .call tag callee listTag arguments => by
    simp only [checkExpr, conclude, Expr.bare, checkArguments_bare env arguments]

theorem checkArguments_bare (env : Env) :
    (arguments : Arguments) → (checkArguments env arguments).tree.bare = arguments.bare
  | .nil => rfl
  | .cons tag value rest => by
    simp only [checkArguments]
    split
    · simp only [Arguments.bare, checkExpr_bare env value]
    · simp only [Arguments.bare, checkExpr_bare env value, checkArguments_bare env rest]

end

theorem checkCalls_bare (env : Env) (calls : List Call) :
    (checkCalls env calls).tree.map Call.bare = calls.map Call.bare := by
  induction calls with
  | nil => rfl
  | cons c calls ih =>
    have hcall : (checkCall env c).tree.bare = c.bare := by
      simp only [checkCall, conclude, Call.bare, checkArguments_bare]
    simp only [checkCalls]
    split
    · simp [hcall]
    · simp [hcall, ih]

theorem checkBody_bare (env : Env) (b : Body) : (checkBody env b).tree.bare = b.bare := by
  simp only [checkBody, conclude, Body.bare, checkCalls_bare,
    Checked.after_bare _ (checkExpr_bare env b.result)]

theorem checkParametersFrom_bare (seen : List String) (s : State) (parameters : List Parameter) :
    (checkParametersFrom seen s parameters).tree.map Parameter.bare =
      parameters.map Parameter.bare := by
  have hparameter : ∀ p : Parameter, (checkParameter p).bare = p.bare := fun _ => rfl
  fun_induction checkParametersFrom seen s parameters with
  | case1 => rfl
  | case2 seen s p rest hseen others ih => simpa [hparameter] using ih
  | case3 seen s p rest hseen e hbind => simp [hparameter]
  | case4 seen s p rest hseen table hbind others ih => simpa [hparameter] using ih

theorem checkDefinition_bare (s : State) (d : Definition) :
    (checkDefinition s d).tree.bare = d.bare := by
  have hparameters : ∀ s, (checkParameters s d.parameters).tree.bare = d.parameters.bare := by
    intro s
    simp only [checkParameters, ParameterList.bare, checkParametersFrom_bare]
  unfold checkDefinition
  split
  · rfl
  · dsimp only
    split
    · simp only [Definition.bare, hparameters]
    · split
      · simp only [Definition.bare, hparameters, checkBody_bare]
        rfl
      · simp only [Definition.bare, hparameters, checkBody_bare]
        rfl

theorem checkDefinitions_bare (s : State) (definitions : List Definition) :
    (checkDefinitions s definitions).tree.map Definition.bare =
      definitions.map Definition.bare := by
  induction definitions generalizing s with
  | nil => rfl
  | cons d definitions ih =>
    simp only [checkDefinitions]
    split
    · simp [checkDefinition_bare]
    · simp [checkDefinition_bare, ih]

/-- An analysis only annotates the program. -/
theorem analyze_bare (p : Program) : (analyze p).program.bare = p.bare := by
  unfold analyze
  split
  · rfl
  · dsimp only
    split
    · simp only [Program.bare, checkDefinitions_bare]
    · split <;> simp only [Program.bare, checkDefinitions_bare]

end Analysis

end Klein
