import Klein.Proofs.Analysis.Outcome
import Klein.Proofs.Analysis.Soundness
import Klein.Proofs.Tree.Paths

namespace Klein

namespace Ty

mutual

/-- The annotation is the error annotation, or has it among its parts at any depth. -/
def hasError : Ty → Bool
  | error => true
  | sequence items => hasErrors items
  | union options => hasErrors options
  | function source result => hasErrors source || result.hasError
  | empty | integer | boolean => false

def hasErrors : List Ty → Bool
  | [] => false
  | a :: rest => a.hasError || hasErrors rest

end

theorem hasErrors_eq_true {items : List Ty} :
    hasErrors items = true ↔ ∃ a ∈ items, a.hasError = true := by
  induction items with
  | nil => simp [hasErrors]
  | cons a items ih => simp [hasErrors, ih]

@[simp]
theorem hasError_base (t : BaseType) : t.ty.hasError = false := by
  cases t <;> rfl

@[simp]
theorem hasErrors_parameterTypes (items : List Parameter) :
    hasErrors (Analysis.parameterTypes items) = false := by
  rw [← Bool.not_eq_true, hasErrors_eq_true]
  rintro ⟨a, ha, herror⟩
  obtain ⟨q, -, rfl⟩ := List.mem_map.mp ha
  simp at herror

theorem eq_error_of_agrees {a : Ty} (hagrees : a.agrees .error = true) : a = .error := by
  cases a <;> simp_all [agrees, agreesOr, simpleAgrees, sameSimple]

end Ty

namespace Analysis

/-- An error is among what was found. -/
def Findings.Reports (f : Findings) : Prop :=
  ∃ issue ∈ f.issues, issue.isError = true

namespace Findings

variable {first second : Findings}

theorem infix_append_left (hfault : first.fault = none) :
    first.issues <:+: (first ++ second).issues := by
  rw [issues_append hfault]
  exact List.infix_append' [] _ _

theorem infix_append_right (hfault : first.fault = none) :
    second.issues <:+: (first ++ second).issues := by
  rw [issues_append hfault]
  exact (List.suffix_append _ _).isInfix

theorem append_empty (f : Findings) : f ++ {} = f := by
  obtain ⟨issues, used, calls, fault⟩ := f
  change append _ {} = _
  cases fault <;> simp [append]

theorem Reports.of_part (h : first.Reports) (hpart : first.issues <:+: second.issues) :
    second.Reports := by
  obtain ⟨issue, hissue, herror⟩ := h
  exact ⟨issue, hpart.subset hissue, herror⟩

end Findings

/-- Names stand for symbols whose types hold no error. -/
def Env.Sound (env : Env) : Prop :=
  ∀ name symbol, env.resolve name = some symbol → symbol.type.hasError = false

theorem Verdict.reports_wrong {issue : Issue} (hissue : issue.isError = true) :
    (Verdict.wrong issue).findings.Reports :=
  ⟨issue, List.mem_singleton.mpr rfl, hissue⟩

/-- An operator gets an error annotation with a report, or because its result has one. -/
theorem judgeOperands_reports {place : Option String} {form : Form} {wanted result : Ty}
    {operands : List (String × Ty)}
    (herror : (judgeOperands place form wanted result operands).type.hasError = true) :
    result.hasError = true ∨
      (judgeOperands place form wanted result operands).findings.Reports := by
  obtain hright | ⟨issue, hissue, hwrong⟩ := judgeOperands_cases place form wanted result operands
  · rw [hright] at herror
    exact .inl herror
  · rw [hwrong]
    exact .inr (Verdict.reports_wrong hissue)

theorem judgeUnary_reports {place : Option String} {op : UnaryOp} {value : Ty}
    (herror : (judgeUnary place op value).type.hasError = true) :
    (judgeUnary place op value).findings.Reports := by
  rw [judgeUnary_eq] at herror ⊢
  exact (judgeOperands_reports herror).resolve_left (by simp)

/-- An equation hands on the error annotation of an operand without a report. -/
theorem judgeBinary_reports {place : Option String} {op : BinaryOp} {left right : Ty}
    (herror : (judgeBinary place op left right).type.hasError = true) :
    left.hasError = true ∨ right.hasError = true ∨
      (judgeBinary place op left right).findings.Reports := by
  cases htype : op.operandType with
  | some t =>
    rw [judgeBinary_eq place htype] at herror ⊢
    exact .inr (.inr ((judgeOperands_reports herror).resolve_left (by simp)))
  | none =>
    obtain rfl : op = .equals := by cases op <;> simp_all [BinaryOp.operandType]
    simp only [judgeBinary] at herror
    split at herror
    · rename_i hoperand
      rcases Bool.or_eq_true_iff.mp hoperand with hleft | hright
      · exact .inl (by rw [Ty.eq_error_of_agrees hleft]; rfl)
      · exact .inr (.inl (by rw [Ty.eq_error_of_agrees hright]; rfl))
    · cases herror

/-- A conditional hands on the error annotations of its branches, also as parts of a union. -/
theorem judgeConditional_reports {place : Option String} {condition consequent alternative : Ty}
    (herror : (judgeConditional place condition consequent alternative).type.hasError = true) :
    consequent.hasError = true ∨ alternative.hasError = true ∨
      (judgeConditional place condition consequent alternative).findings.Reports := by
  rcases judgeOperands_reports herror with hresult | hreports
  · split at hresult
    · exact .inl hresult
    · simp only [Ty.hasError, Ty.hasErrors, Bool.or_false, Bool.or_eq_true] at hresult
      exact hresult.imp_right .inl
  · exact .inr (.inr hreports)

variable {env : Env}

theorem judgeIdentifier_reports (hsound : env.Sound) (hinside : env.inFunction = true)
    {name : String} (herror : (judgeIdentifier env name).type.hasError = true) :
    (judgeIdentifier env name).findings.Reports := by
  obtain ⟨symbol, hresolve, hright⟩ | ⟨issue, hissue, hwrong⟩ := judgeIdentifier_cases hinside name
  · rw [hright, hsound name symbol hresolve] at herror
    cases herror
  · rw [hwrong]
    exact Verdict.reports_wrong hissue

theorem judgeCall_reports (hsound : env.Sound) (hinside : env.inFunction = true) {callee : String}
    {found : List Ty} (herror : (judgeCall env callee found).type.hasError = true) :
    (judgeCall env callee found).findings.Reports := by
  obtain ⟨symbol, wanted, result, hresolve, htype, hresult, hfindings⟩ | ⟨issue, hissue, hwrong⟩ :=
    judgeCall_cases hinside callee found
  · rw [hresult] at herror
    obtain hright | ⟨issue, hissue, hwrong⟩ :=
      judgeArguments_cases env.place callee wanted found result
    · -- the annotation is the result of a function, which holds no error
      have hplain := hsound callee symbol hresolve
      rw [htype, Ty.hasError, Bool.or_eq_false_iff] at hplain
      rw [hright, hplain.2] at herror
      cases herror
    · rw [hfindings, hwrong]
      exact (Verdict.reports_wrong hissue).of_part (Findings.infix_append_right rfl)
  · rw [hwrong]
    exact Verdict.reports_wrong hissue

end Analysis

/-- The expressions that an operation or a conditional is made of. -/
def Expr.operands : Expr → List Expr
  | .unary _ _ value => [value]
  | .binary _ _ left right => [left, right]
  | .conditional _ condition consequent alternative => [condition, consequent, alternative]
  | .integer .. | .boolean .. | .identifier .. | .call .. => []

namespace Analysis

variable {env : Env}

/-- The issues of an operand stand together among those of the expression. -/
theorem infix_operand (hinside : env.inFunction = true) {e operand : Expr}
    (hoperand : operand ∈ e.operands) :
    (checkExpr env operand).findings.issues <:+: (checkExpr env e).findings.issues := by
  cases e with
  | unary tag op value =>
    have hvalue := checkExpr_regular hinside value
    obtain rfl := List.mem_singleton.mp hoperand
    rw [checkExpr_unary hinside]
    exact Findings.infix_append_left hvalue.fault
  | binary tag op left right =>
    have hleft := checkExpr_regular hinside left
    have hright := hleft.append (checkExpr_regular hinside right)
    rw [checkExpr_binary hinside]
    refine List.IsInfix.trans ?_ (Findings.infix_append_left hright.fault)
    simp only [Expr.operands, List.mem_cons, List.not_mem_nil, or_false] at hoperand
    obtain rfl | rfl := hoperand
    · exact Findings.infix_append_left hleft.fault
    · exact Findings.infix_append_right hleft.fault
  | conditional tag condition consequent alternative =>
    have hcondition := checkExpr_regular hinside condition
    have hconsequent := hcondition.append (checkExpr_regular hinside consequent)
    have halternative := hconsequent.append (checkExpr_regular hinside alternative)
    rw [checkExpr_conditional hinside]
    refine List.IsInfix.trans ?_ (Findings.infix_append_left halternative.fault)
    simp only [Expr.operands, List.mem_cons, List.not_mem_nil, or_false] at hoperand
    obtain rfl | rfl | rfl := hoperand
    · exact (Findings.infix_append_left hcondition.fault).trans
        (Findings.infix_append_left hconsequent.fault)
    · exact (Findings.infix_append_right hcondition.fault).trans
        (Findings.infix_append_left hconsequent.fault)
    · exact Findings.infix_append_right hconsequent.fault
  | _ => cases hoperand

/-- An expression that gets an annotation with an error has an error below it that is reported. -/
theorem checkExpr_reports (hsound : env.Sound) (hinside : env.inFunction = true) :
    (e : Expr) → (checkExpr env e).type.hasError = true → (checkExpr env e).findings.Reports
  | .integer .., herror | .boolean .., herror => nomatch herror
  | .identifier tag name, herror => by
    rw [checkExpr_identifier hinside] at herror ⊢
    exact judgeIdentifier_reports hsound hinside herror
  | .unary tag op value, herror => by
    have hvalue := checkExpr_regular hinside value
    rw [checkExpr_unary hinside] at herror ⊢
    exact (judgeUnary_reports herror).of_part (Findings.infix_append_right hvalue.fault)
  | .binary tag op left right, herror => by
    have hoperands := (checkExpr_regular hinside left).append (checkExpr_regular hinside right)
    have hverdict := herror
    rw [checkExpr_binary hinside] at hverdict
    rcases judgeBinary_reports hverdict with hleft | hright | hown
    · exact (checkExpr_reports hsound hinside left hleft).of_part
        (infix_operand hinside (by simp [Expr.operands]))
    · exact (checkExpr_reports hsound hinside right hright).of_part
        (infix_operand hinside (by simp [Expr.operands]))
    · rw [checkExpr_binary hinside]
      exact hown.of_part (Findings.infix_append_right hoperands.fault)
  | .conditional tag condition consequent alternative, herror => by
    have hoperands := ((checkExpr_regular hinside condition).append
      (checkExpr_regular hinside consequent)).append (checkExpr_regular hinside alternative)
    have hverdict := herror
    rw [checkExpr_conditional hinside] at hverdict
    rcases judgeConditional_reports hverdict with hconsequent | halternative | hown
    · exact (checkExpr_reports hsound hinside consequent hconsequent).of_part
        (infix_operand hinside (by simp [Expr.operands]))
    · exact (checkExpr_reports hsound hinside alternative halternative).of_part
        (infix_operand hinside (by simp [Expr.operands]))
    · rw [checkExpr_conditional hinside]
      exact hown.of_part (Findings.infix_append_right hoperands.fault)
  | .call tag callee listTag arguments, herror => by
    have harguments := checkArguments_regular hinside arguments
    rw [checkExpr_call hinside] at herror ⊢
    exact (judgeCall_reports hsound hinside herror).of_part
      (Findings.infix_append_right harguments.fault)

/-- Arguments of which one gets an annotation with an error have an error that is reported. -/
theorem checkArguments_reports (hsound : env.Sound) (hinside : env.inFunction = true)
    (arguments : Arguments) (herror : Ty.hasErrors (checkArguments env arguments).types = true) :
    (checkArguments env arguments).findings.Reports := by
  fun_induction Arguments.toList arguments with
  | case1 => cases herror
  | case2 tag value rest ih =>
    have hvalue := checkExpr_regular hinside value
    rw [checkArguments_cons hinside] at herror ⊢
    rcases Bool.or_eq_true_iff.mp herror with hfirst | hrest
    · exact (checkExpr_reports hsound hinside value hfirst).of_part
        (Findings.infix_append_left hvalue.fault)
    · exact (ih hrest).of_part (Findings.infix_append_right hvalue.fault)

theorem checkArgumentList_eq (hinside : env.inFunction = true) (l : ArgumentList) :
    checkArgumentList env l =
      let a := checkArguments env l.items
      ⟨⟨some (.sequence a.types), a.tree⟩, .sequence a.types, a.findings⟩ := by
  rw [checkArgumentList, conclude_of_regular (checkArguments_regular hinside l.items)
    Findings.regular_empty, Findings.append_empty]

theorem checkArgument_eq (hinside : env.inFunction = true) (a : Argument) :
    checkArgument env a =
      let v := checkExpr env a.value
      ⟨⟨some v.type, v.tree⟩, v.type, v.findings⟩ := by
  rw [checkArgument, conclude_of_regular (checkExpr_regular hinside a.value)
    Findings.regular_empty, Findings.append_empty]

theorem checkBody_tag (hinside : env.inFunction = true) (b : Body) :
    (checkBody env b).tree.tag = some (checkBody env b).type := by
  rw [checkBody_eq hinside]

/-- A body has the annotation of its last expression. -/
theorem checkBody_reports (hsound : env.Sound) (hinside : env.inFunction = true) (b : Body)
    (herror : (checkBody env b).type.hasError = true) : (checkBody env b).findings.Reports := by
  have hprints := checkCalls_regular hinside b.prints
  rw [checkBody_eq hinside] at herror ⊢
  rw [Findings.append_empty]
  exact (checkExpr_reports hsound hinside b.result herror).of_part
    (Findings.infix_append_right hprints.fault)

/-- The nodes of arguments are those of the arguments checked one by one. -/
theorem forall₂_checkArguments (hinside : env.inFunction = true) {arguments : Arguments}
    {issues : List Issue} (hwithin : (checkArguments env arguments).findings.issues <:+: issues) :
    List.Forall₂ (fun argument checked =>
        (checkArgument env argument).findings.issues <:+: issues ∧
          checked = (checkArgument env argument).tree)
      arguments.toList (checkArguments env arguments).tree.toList := by
  fun_induction Arguments.toList arguments with
  | case1 => exact .nil
  | case2 tag value rest ih =>
    have hvalue := checkExpr_regular hinside value
    rw [checkArguments_cons hinside] at hwithin ⊢
    refine .cons ?_ (ih ((Findings.infix_append_right hvalue.fault).trans hwithin))
    rw [checkArgument_eq hinside]
    exact ⟨(Findings.infix_append_left hvalue.fault).trans hwithin, rfl⟩

theorem forall₂_checkCalls (hinside : env.inFunction = true) {calls : List Call}
    {issues : List Issue} (hwithin : (checkCalls env calls).findings.issues <:+: issues) :
    List.Forall₂ (fun c checked => (checkExpr env c.toExpr).findings.issues <:+: issues ∧
        checked.toExpr = (checkExpr env c.toExpr).tree)
      calls (checkCalls env calls).tree := by
  induction calls with
  | nil => exact .nil
  | cons c calls ih =>
    obtain ⟨htree, hfindings⟩ : (checkCall env c).tree.toExpr = (checkExpr env c.toExpr).tree ∧
        (checkCall env c).findings = (checkExpr env c.toExpr).findings := checkCall_eq c
    have hcall := checkExpr_regular hinside c.toExpr
    rw [checkCalls_cons hinside, hfindings] at hwithin
    rw [checkCalls_cons hinside]
    exact .cons ⟨(Findings.infix_append_left hcall.fault).trans hwithin, htree⟩
      (ih ((Findings.infix_append_right hcall.fault).trans hwithin))

end Analysis

open Analysis

/-- A node below a definition becomes the node that checking it gives. What is found in a part of
    the body is found in the definition. -/
inductive Program.Becomes (p : Program) (d : Definition) : Node → Node → Prop
  | definition : p.Becomes d (.definition d) (.definition (p.annotated d))
  | parameterList :
      p.Becomes d (.parameterList d.parameters) (.parameterList (p.annotated d).parameters)
  | parameter (q : Parameter) : p.Becomes d (.parameter q) (.parameter (checkParameter q))
  | type (t : TypeNode) : p.Becomes d (.type t) (.type (checkType t))
  | name (name : String) : p.Becomes d (nameNode name) (nameNode name)
  | body : p.Becomes d (.body d.body) (.body (p.checkedBody d).tree)
  | expr {e : Expr}
      (hwithin : (checkExpr (p.envIn d) e).findings.issues <:+: p.issuesIn d) :
      p.Becomes d (.expr e) (.expr (checkExpr (p.envIn d) e).tree)
  | argumentList {l : ArgumentList}
      (hwithin : (checkArgumentList (p.envIn d) l).findings.issues <:+: p.issuesIn d) :
      p.Becomes d (.argumentList l) (.argumentList (checkArgumentList (p.envIn d) l).tree)
  | argument {a : Argument}
      (hwithin : (checkArgument (p.envIn d) a).findings.issues <:+: p.issuesIn d) :
      p.Becomes d (.argument a) (.argument (checkArgument (p.envIn d) a).tree)

variable {p : Program} {d : Definition}

/-- The issues of the body are among those of the definition. -/
theorem infix_checkedBody (p : Program) (d : Definition) :
    (p.checkedBody d).findings.issues <:+: p.issuesIn d :=
  ⟨_, _, List.append_assoc _ _ _⟩

theorem exprParts_becomes {e : Expr}
    (hwithin : (checkExpr (p.envIn d) e).findings.issues <:+: p.issuesIn d) :
    PartsRelated (p.Becomes d) (Node.exprParts e)
      (Node.exprParts (checkExpr (p.envIn d) e).tree) := by
  have hinside : (p.envIn d).inFunction = true := rfl
  have hoperand : ∀ operand ∈ e.operands, Part.Related (p.Becomes d) (.one (.expr operand))
      (.one (.expr (checkExpr (p.envIn d) operand).tree)) := fun operand hoperand =>
    .one (.expr ((infix_operand hinside hoperand).trans hwithin))
  cases e with
  | integer tag value => exact .nil
  | boolean tag value => exact .nil
  | identifier tag name =>
    rw [checkExpr_identifier hinside]
    exact .nil
  | unary tag op value =>
    rw [checkExpr_unary hinside]
    exact .cons ⟨rfl, hoperand value (by simp [Expr.operands])⟩ .nil
  | binary tag op left right =>
    rw [checkExpr_binary hinside]
    exact .cons ⟨rfl, hoperand left (by simp [Expr.operands])⟩
      (.cons ⟨rfl, hoperand right (by simp [Expr.operands])⟩ .nil)
  | conditional tag condition consequent alternative =>
    rw [checkExpr_conditional hinside]
    exact .cons ⟨rfl, hoperand condition (by simp [Expr.operands])⟩
      (.cons ⟨rfl, hoperand consequent (by simp [Expr.operands])⟩
        (.cons ⟨rfl, hoperand alternative (by simp [Expr.operands])⟩ .nil))
  | call tag callee listTag arguments =>
    have harguments := checkArguments_regular hinside arguments
    have hlist := Program.Becomes.argumentList (p := p) (d := d) (l := ⟨listTag, arguments⟩)
    rw [checkArgumentList_eq hinside] at hlist
    rw [checkExpr_call hinside] at hwithin ⊢
    replace hlist := hlist ((Findings.infix_append_left harguments.fault).trans hwithin)
    exact .cons ⟨rfl, .one (.name callee)⟩ (.cons ⟨rfl, .one hlist⟩ .nil)

theorem Program.Becomes.hereditary (p : Program) (d : Definition) :
    Node.Hereditary (p.Becomes d) := by
  have hinside : (p.envIn d).inFunction = true := rfl
  intro node twin h
  cases h with
  | definition =>
    exact .cons ⟨rfl, .one (.name _)⟩ (.cons ⟨rfl, .one .parameterList⟩
      (.cons ⟨rfl, .one (.type _)⟩ (.cons ⟨rfl, .one .body⟩ .nil)))
  | parameterList =>
    refine .cons ⟨rfl, .many ?_⟩ .nil
    simp only [Program.annotated, List.forall₂_map_left_iff, List.forall₂_map_right_iff,
      List.forall₂_same]
    exact fun q _ => .parameter q
  | parameter q => exact .cons ⟨rfl, .one (.name _)⟩ (.cons ⟨rfl, .one (.type _)⟩ .nil)
  | type t => exact .nil
  | name name => exact .nil
  | body =>
    have hprints := checkCalls_regular hinside d.body.prints
    have hwithin := infix_checkedBody p d
    rw [Program.checkedBody, checkBody_eq hinside, Findings.append_empty] at hwithin ⊢
    refine .cons ⟨rfl, .many ?_⟩ (.cons ⟨rfl, .one (.expr ?_)⟩ .nil)
    · rw [List.forall₂_map_left_iff, List.forall₂_map_right_iff]
      refine (forall₂_checkCalls hinside
        ((Findings.infix_append_left hprints.fault).trans hwithin)).imp ?_
      rintro c checked ⟨hwithin, htree⟩
      rw [htree]
      exact .expr hwithin
    · exact (Findings.infix_append_right hprints.fault).trans hwithin
  | expr hwithin => exact exprParts_becomes hwithin
  | argumentList hwithin =>
    rw [checkArgumentList_eq hinside] at hwithin ⊢
    refine .cons ⟨rfl, .many ?_⟩ .nil
    rw [List.forall₂_map_left_iff, List.forall₂_map_right_iff]
    refine (forall₂_checkArguments hinside hwithin).imp ?_
    rintro argument checked ⟨hwithin, rfl⟩
    exact .argument hwithin
  | argument hwithin =>
    rw [checkArgument_eq hinside] at hwithin ⊢
    exact .cons ⟨rfl, .one (.expr hwithin)⟩ .nil

/-- The tree of a program becomes the tree with all its definitions annotated. -/
inductive Program.BecomesWhole (p : Program) : Node → Node → Prop
  | program : p.BecomesWhole (.program p) (.program ⟨p.definitions.map p.annotated⟩)
  | definitionList :
      p.BecomesWhole (.definitionList p.definitions)
        (.definitionList (p.definitions.map p.annotated))
  | below {d : Definition} {node twin : Node} (hd : d ∈ p.definitions)
      (h : p.Becomes d node twin) : p.BecomesWhole node twin

theorem Program.BecomesWhole.hereditary (p : Program) : Node.Hereditary p.BecomesWhole := by
  intro node twin h
  cases h with
  | program => exact .cons ⟨rfl, .one .definitionList⟩ .nil
  | definitionList =>
    refine .cons ⟨rfl, .many ?_⟩ .nil
    simp only [List.forall₂_map_left_iff, List.forall₂_map_right_iff, List.forall₂_same]
    exact fun d hd => .below hd .definition
  | below hd h => exact (Program.Becomes.hereditary p _ _ _ h).imp fun _ _ => .below hd

/-- The symbols of a program have the types that its signatures give. -/
theorem sound_envIn (p : Program) (d : Definition) : (p.envIn d).Sound := by
  intro name symbol hresolve
  rcases Option.or_eq_some_iff.mp hresolve with hparameter | ⟨-, hglobal⟩
  · obtain ⟨q, -, rfl⟩ := Option.map_eq_some_iff.mp hparameter
    exact Ty.hasError_base _
  · rw [Program.globalSymbol] at hglobal
    split at hglobal
    · cases hglobal
      rfl
    · obtain ⟨e, -, rfl⟩ := Option.map_eq_some_iff.mp hglobal
      simp [functionSymbol, Ty.hasError]

theorem issues_outcome {α : Type} (checked : Checked α) (s : State) :
    (checked.outcome s).state.issues = s.issues ++ checked.findings.issues := by
  simp only [Checked.outcome, issues_addCalls, issues_addUsed, issues_report]

/-- Checking a node whose annotation holds an error reports an error, wherever names are declared as
    in its definition. -/
theorem Program.Becomes.reported {node twin : Node} {type : Ty} (h : p.Becomes d node twin)
    (htag : twin.tag = some type) (herror : type.hasError = true) :
    ∃ own, own <:+: p.issuesIn d ∧ (∃ issue ∈ own, issue.isError = true) ∧
      ∀ s : State, s.env.Alike (p.envIn d) →
        (checkNode s node).tree = twin ∧ (checkNode s node).state.issues = s.issues ++ own := by
  have hinside : (p.envIn d).inFunction = true := rfl
  have hsound := sound_envIn p d
  cases h with
  | definition =>
    cases htag
    simp [Ty.hasError] at herror
  | parameterList =>
    cases htag
    simp [Ty.hasError] at herror
  | parameter q =>
    cases htag
    simp at herror
  | type t =>
    cases htag
    simp at herror
  | name name => cases htag
  | body =>
    obtain rfl : (p.checkedBody d).type = type :=
      Option.some.inj ((checkBody_tag hinside d.body).symm.trans htag)
    refine ⟨_, infix_checkedBody p d, checkBody_reports hsound hinside d.body herror,
      fun s hs => ?_⟩
    rw [Program.checkedBody, ← checkBody_congr hs d.body]
    exact ⟨rfl, issues_outcome _ s⟩
  | @expr e hwithin =>
    obtain rfl : (checkExpr (p.envIn d) e).type = type :=
      Option.some.inj ((checkExpr_tag hinside e).symm.trans htag)
    refine ⟨_, hwithin, checkExpr_reports hsound hinside e herror, fun s hs => ?_⟩
    rw [← checkExpr_congr hs e]
    exact ⟨rfl, issues_outcome _ s⟩
  | @argumentList l hwithin =>
    have hlist := checkArgumentList_eq hinside l
    obtain rfl : Ty.sequence (checkArguments (p.envIn d) l.items).types = type := by
      rw [hlist] at htag
      exact Option.some.inj htag
    have hreports : (checkArgumentList (p.envIn d) l).findings.Reports := by
      rw [hlist]
      exact checkArguments_reports hsound hinside l.items herror
    refine ⟨_, hwithin, hreports, fun s hs => ?_⟩
    rw [checkArgumentList, ← checkArguments_congr hs l.items]
    exact ⟨rfl, issues_outcome _ s⟩
  | @argument a hwithin =>
    have hargument := checkArgument_eq hinside a
    obtain rfl : (checkExpr (p.envIn d) a.value).type = type := by
      rw [hargument] at htag
      exact Option.some.inj htag
    have hreports : (checkArgument (p.envIn d) a).findings.Reports := by
      rw [hargument]
      exact checkExpr_reports hsound hinside a.value herror
    refine ⟨_, hwithin, hreports, fun s hs => ?_⟩
    rw [checkArgument, ← checkExpr_congr hs a.value]
    exact ⟨rfl, issues_outcome _ s⟩

theorem Analysis.Env.Alike.trans {env other third : Env} (h : env.Alike other)
    (hthird : other.Alike third) : env.Alike third where
  place := h.place.trans hthird.place
  inFunction := h.inFunction.trans hthird.inFunction
  declared name := (h.declared name).trans (hthird.declared name)

/-- The state in which the body of a definition is checked, after the definitions before it. -/
def Program.stateIn (p : Program) (before : List Definition) (d : Definition) : State :=
  (checkDefinitions (declare {} p).1 before).state.inside d

theorem stateIn_alike (hlegal : p.Legal) {before : List Definition}
    (hbefore : before ⊆ p.definitions) : (p.stateIn before d).env.Alike (p.envIn d) := by
  obtain ⟨s, hdeclare, -⟩ := analyze_of_legal hlegal
  obtain ⟨htable, -⟩ := declare_eq hlegal hdeclare
  rw [← symbolsWith_nothing] at htable
  obtain ⟨-, -, hafter⟩ :=
    checkDefinitions_eq htable fun e he => isSome_globalSymbol hlegal (hbefore he)
  rw [Program.stateIn, hdeclare]
  exact inside_alike d hafter

theorem infix_issuesIn (hlegal : p.Legal) (hd : d ∈ p.definitions) :
    p.issuesIn d <:+: (analyze p).state.issues := by
  obtain ⟨-, hissues, -, -⟩ := analyze_eq hlegal
  obtain ⟨before, after, hsplit⟩ := List.append_of_mem hd
  refine ⟨p.declarationIssues ++ before.flatMap p.issuesIn,
    after.flatMap p.issuesIn ++ unusedFunctions (.ofSymbols p.finalSymbols), ?_⟩
  simp only [hissues, hsplit, List.flatMap_append, List.flatMap_cons, List.append_assoc]

namespace Analysis

/-- Error annotations are never silent. A path that leads to a node below a definition after the
    analysis leads to a node of the parsed definition. If the annotation holds an error, checking
    that node by itself, with names declared as in its definition, gives the annotated node and
    reports an error, and what it reports stands together in the issues of the analysis. A program
    that is accepted has no annotation that holds an error. -/
theorem error_annotation_reported {text : String} {p : Program} (hparse : parse text = .ok p) :
    (∀ before d after, p.definitions = before ++ d :: after →
      ∃ checked, (analyze p).program.definitions[before.length]? = some checked ∧
        ∀ path node type, (Node.definition checked).follow path = .ok node →
          node.tag = some type → type.hasError = true →
          ∃ parsed own, (Node.definition d).follow path = .ok parsed ∧
            (∀ s : State, s.env.Alike (p.stateIn before d).env →
              (checkNode s parsed).tree = node ∧
                (checkNode s parsed).state.issues = s.issues ++ own) ∧
            own <:+: (analyze p).state.issues ∧ ∃ issue ∈ own, issue.isError = true) ∧
      ((analyze p).error = none →
        ∀ path node type, (Node.program (analyze p).program).follow path = .ok node →
          node.tag = some type → type.hasError = false) := by
  have hlegal := Parser.legal_of_parse hparse
  obtain ⟨hprogram, -, -, herror⟩ := analyze_eq hlegal
  refine ⟨?_, ?_⟩
  · intro before d after hsplit
    have hd : d ∈ p.definitions := by simp [hsplit]
    have hbefore : before ⊆ p.definitions := by simp [hsplit]
    refine ⟨p.annotated d, by simp [hprogram, hsplit], ?_⟩
    intro path node type hfollow htag herror
    obtain ⟨parsed, hparsed, hbecomes⟩ :=
      follow_related (Program.Becomes.hereditary p d) .definition hfollow
    obtain ⟨own, hwithin, hreports, hchecked⟩ := hbecomes.reported htag herror
    exact ⟨parsed, own, hparsed, fun s hs => hchecked s (hs.trans (stateIn_alike hlegal hbefore)),
      hwithin.trans (infix_issuesIn hlegal hd), hreports⟩
  · intro hok path node type hfollow htag
    rw [hprogram] at hfollow
    obtain ⟨parsed, -, hbecomes⟩ :=
      follow_related (Program.BecomesWhole.hereditary p) .program hfollow
    by_contra hnot
    cases hbecomes with
    | program => cases htag
    | definitionList => cases htag
    | below hd h =>
      obtain ⟨own, hwithin, ⟨issue, hissue, hisError⟩, -⟩ :=
        h.reported htag (Bool.not_eq_false _ ▸ hnot)
      have hcount : 0 < errorCount (analyze p).state.issues :=
        List.countP_pos_iff.mpr
          ⟨issue, (hwithin.trans (infix_issuesIn hlegal hd)).subset hissue, hisError⟩
      rw [hok, if_neg hcount.ne'] at herror
      cases herror

/-- The argument of the call is an error, an integer or a boolean, and is printed without another
    report. -/
theorem error_annotation_reported_printed :
    (∃ p d parsed node own,
      parse "function main():integer print(if true then if true then a else 1 else true) 2" =
        .ok p ∧
      p.definitions = [d] ∧ errorCount (analyze p).state.issues = 1 ∧
      (Node.definition d).follow [.part "body", .part "print_expressions", .index 0,
        .part "argument_list", .part "arguments", .index 0] = .ok parsed ∧
      (checkNode (p.stateIn [] d) parsed).tree = node ∧ node.tag.any Ty.hasError = true ∧
      (checkNode (p.stateIn [] d) parsed).state.issues = (p.stateIn [] d).issues ++ own ∧
      own <:+: (analyze p).state.issues ∧ ∃ issue ∈ own, issue.isError = true) ∧
    ∃ p, parse "function main(c:boolean):integer if c then 1 else 2" = .ok p ∧
      (analyze p).error = none ∧
      ∀ path node type, (Node.program (analyze p).program).follow path = .ok node →
        node.tag = some type → type.hasError = false := by
  refine ⟨?_, ?_⟩
  · have hanalysed : ∃ p,
        parse "function main():integer print(if true then if true then a else 1 else true) 2" =
          .ok p ∧
        p.definitions.length = 1 ∧ errorCount (analyze p).state.issues = 1 ∧
        (analyze p).program.definitions[0]?.any (fun checked =>
          ((Node.definition checked).follow [.part "body", .part "print_expressions", .index 0,
            .part "argument_list", .part "arguments", .index 0]).toOption.any
              (·.tag.any Ty.hasError)) = true := by
      apply exists_ok_of_any
      decide +kernel
    obtain ⟨p, hparse, hlength, hcount, hany⟩ := hanalysed
    obtain ⟨d, hd⟩ := List.length_eq_one_iff.mp hlength
    obtain ⟨checked, hchecked, hreported⟩ := (error_annotation_reported hparse).1 [] d [] hd
    rw [show (analyze p).program.definitions[0]? = some checked from hchecked,
      Option.any_some] at hany
    obtain ⟨node, hfollow, hnode⟩ := exists_ok_of_any
      (P := fun node : Node => node.tag.any Ty.hasError = true) (by simpa using hany)
    obtain ⟨type, htag, herror⟩ : ∃ type, node.tag = some type ∧ type.hasError = true := by
      cases htag : node.tag with
      | none => simp [htag] at hnode
      | some type => exact ⟨type, rfl, by simpa [htag] using hnode⟩
    obtain ⟨parsed, own, hparsed, halike, hwithin, hreports⟩ :=
      hreported _ node type hfollow htag herror
    obtain ⟨htree, hissues⟩ := halike (p.stateIn [] d) ⟨rfl, rfl, fun _ => rfl⟩
    exact ⟨p, d, parsed, node, own, hparse, hd, hcount, hparsed, htree, hnode, hissues, hwithin,
      hreports⟩
  · have hanalysed : ∃ p, parse "function main(c:boolean):integer if c then 1 else 2" = .ok p ∧
        (analyze p).error = none := by
      apply exists_ok_of_any
      decide +kernel
    obtain ⟨p, hparse, hok⟩ := hanalysed
    exact ⟨p, hparse, hok, (error_annotation_reported hparse).2 hok⟩

end Analysis

end Klein
