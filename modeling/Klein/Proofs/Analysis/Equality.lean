import Klein.Proofs.Analysis.Annotations
import Klein.Proofs.Parser.Nodes
import Klein.Proofs.Tree.Equality

namespace Klein

theorem Node.ascends_ruled : Node.Ascends Node.Ruled where
  program hitems := hitems
  definitionList hitems := hitems
  definition hparameters htype hbody := ⟨.inl rfl, hparameters, htype, hbody⟩
  parameterList hitems := ⟨.inl rfl, hitems⟩
  parameter htype := ⟨.inl rfl, htype⟩
  type base := .inl rfl
  body hprints hresult := ⟨.inl rfl, hprints, hresult⟩
  integer text := by simp [Node.Ruled, Expr.Ruled]
  boolean text := by simp [Node.Ruled, Expr.Ruled]
  identifier name := ruled_nameNode name
  unary hvalue := ⟨by simp, hvalue⟩
  binary hleft hright := ⟨by simp, hleft, hright⟩
  conditional hcondition hconsequent halternative :=
    ⟨.inl rfl, hcondition, hconsequent, halternative⟩
  call hlist := ⟨by simp, hlist.tag, hlist.items⟩
  argumentList hitems := ⟨.inl rfl, Arguments.ruled_ofList hitems⟩
  argument hvalue := ⟨.inl rfl, hvalue⟩

theorem BaseType.isSimple_ty (base : BaseType) : base.ty.IsSimple := by
  cases base <;> trivial

namespace Analysis

/-- Names stand for variables of a simple type, or for functions with results of such a type. -/
structure Env.Plain (env : Env) : Prop where
  inside : env.inFunction = true
  symbol : ∀ name symbol, env.resolve name = some symbol →
    symbol.type.IsSimple ∨ ∃ source result, symbol.type = .function source result ∧ result.IsSimple

variable {env : Env} {p : Program}

theorem judgeOperands_simple {place : Option String} {form : Form} {wanted result : Ty}
    (hresult : result.IsSimple) (operands : List (String × Ty)) :
    (judgeOperands place form wanted result operands).type.IsSimple := by
  induction operands with
  | nil => exact hresult
  | cons operand operands ih =>
    rw [judgeOperands]
    split
    · exact ih
    · trivial

theorem judgeUnary_simple (place : Option String) (op : UnaryOp) (value : Ty) :
    (judgeUnary place op value).type.IsSimple := by
  cases op <;> exact judgeOperands_simple (by trivial) _

theorem judgeBinary_simple (place : Option String) (op : BinaryOp) (left right : Ty) :
    (judgeBinary place op left right).type.IsSimple := by
  cases op with
  | equals =>
    simp only [judgeBinary]
    split <;> trivial
  | _ => exact judgeOperands_simple (by trivial) _

/-- The annotation of a conditional does not depend on the function it stands in. -/
theorem judgeConditional_place (place : Option String) (condition consequent alternative : Ty) :
    (judgeConditional place condition consequent alternative).type =
      (judgeConditional none condition consequent alternative).type := by
  simp only [judgeConditional, judgeOperands]
  split <;> rfl

theorem judgeIdentifier_simple (hplain : env.Plain) (name : String) :
    (judgeIdentifier env name).type.IsSimple := by
  unfold judgeIdentifier
  split
  · trivial
  · rename_i symbol hsymbol
    split
    · trivial
    · rename_i hvariable
      rw [if_pos hplain.inside]
      rcases hplain.symbol name symbol hsymbol with hsimple | ⟨source, result, htype, -⟩
      · exact hsimple
      · exact absurd htype (hvariable source result)

theorem judgeCall_simple (hplain : env.Plain) (callee : String) (found : List Ty) :
    (judgeCall env callee found).type.IsSimple := by
  unfold judgeCall
  split
  · trivial
  · rename_i symbol hsymbol
    split
    · rename_i wanted result htype
      rw [if_pos hplain.inside]
      have hresult : result.IsSimple := by
        rcases hplain.symbol callee symbol hsymbol with hsimple | ⟨_, _, hfunction, hresult⟩
        · rw [htype] at hsimple
          exact hsimple.elim
        · cases htype.symm.trans hfunction
          exact hresult
      simp only [judgeArguments]
      split_ifs
      · exact hresult
      all_goals trivial
    · trivial

/-- The annotation of a list of arguments lists those of the arguments. -/
theorem checkArguments_listTag (hinside : env.inFunction = true) (arguments : Arguments) :
    (checkArguments env arguments).tree.listTag =
      some (.sequence (checkArguments env arguments).types) := by
  have htypes : (checkArguments env arguments).tree.toList.filterMap (·.tag) =
      (checkArguments env arguments).types := by
    fun_induction Arguments.toList arguments with
    | case1 => rfl
    | case2 tag value rest ih =>
      rw [checkArguments_cons hinside]
      simp [Arguments.toList, ih]
  rw [Arguments.listTag, htypes]

mutual

theorem checkExpr_ruled (hplain : env.Plain) : (e : Expr) → (checkExpr env e).tree.Ruled
  | .integer .. | .boolean .. => by simp [checkExpr, Expr.Ruled, Ty.IsSimple]
  | .identifier tag name => by
    rw [checkExpr_identifier hplain.inside]
    simpa [Expr.Ruled] using judgeIdentifier_simple hplain name
  | .unary tag op value => by
    rw [checkExpr_unary hplain.inside]
    exact ⟨by simpa using judgeUnary_simple .., checkExpr_ruled hplain value⟩
  | .binary tag op left right => by
    rw [checkExpr_binary hplain.inside]
    exact ⟨by simpa using judgeBinary_simple .., checkExpr_ruled hplain left,
      checkExpr_ruled hplain right⟩
  | .conditional tag condition consequent alternative => by
    rw [checkExpr_conditional hplain.inside]
    refine ⟨.inr ?_, checkExpr_ruled hplain condition, checkExpr_ruled hplain consequent,
      checkExpr_ruled hplain alternative⟩
    simp only [checkExpr_tag hplain.inside, conditionalTag, judgeConditional_place env.place]
    rfl
  | .call tag callee listTag arguments => by
    rw [checkExpr_call hplain.inside]
    exact ⟨by simpa using judgeCall_simple hplain ..,
      .inr (checkArguments_listTag hplain.inside arguments).symm,
      checkArguments_ruled hplain arguments⟩

theorem checkArguments_ruled (hplain : env.Plain) :
    (arguments : Arguments) → (checkArguments env arguments).tree.Ruled
  | .nil => trivial
  | .cons tag value rest => by
    rw [checkArguments_cons hplain.inside]
    exact ⟨.inr (checkExpr_tag hplain.inside value).symm, checkExpr_ruled hplain value,
      checkArguments_ruled hplain rest⟩

end

theorem checkBody_ruled (hplain : env.Plain) (b : Body) : (checkBody env b).tree.Ruled := by
  have hcalls : ∀ calls : List Call, ∀ c ∈ (checkCalls env calls).tree, c.toExpr.Ruled := by
    intro calls
    induction calls with
    | nil => simp [checkCalls]
    | cons c calls ih =>
      rw [checkCalls_cons hplain.inside, List.forall_mem_cons, (checkCall_eq c).1]
      exact ⟨checkExpr_ruled hplain _, ih⟩
  rw [checkBody_eq hplain.inside]
  exact ⟨.inr (checkExpr_tag hplain.inside b.result).symm, hcalls b.prints,
    checkExpr_ruled hplain b.result⟩

theorem envIn_plain (p : Program) (d : Definition) : (p.envIn d).Plain where
  inside := rfl
  symbol name symbol hsymbol := by
    rcases Option.or_eq_some_iff.mp hsymbol with hparameter | ⟨-, hglobal⟩
    · obtain ⟨parameter, -, rfl⟩ := Option.map_eq_some_iff.mp hparameter
      exact .inl parameter.type.base.isSimple_ty
    · unfold Program.globalSymbol at hglobal
      split at hglobal
      · cases hglobal
        exact .inr ⟨_, _, rfl, trivial⟩
      · obtain ⟨e, -, rfl⟩ := Option.map_eq_some_iff.mp hglobal
        exact .inr ⟨_, _, rfl, e.returnType.base.isSimple_ty⟩

theorem annotated_ruled (p : Program) (d : Definition) : (p.annotated d).Ruled where
  tag := by
    refine .inr ?_
    simp [Program.annotated, parameterTypes, checkParameter, checkType, Function.comp_def]
  parameters := by
    refine ⟨.inr ?_, List.forall_mem_map.mpr fun q _ => ⟨.inr rfl, .inr rfl⟩⟩
    simp [Program.annotated, parameterTypes, checkParameter, checkType, Function.comp_def]
  returnType := .inr rfl
  body := checkBody_ruled (envIn_plain p d) d.body

theorem ruled_analyze (hlegal : p.Legal) : (Node.program (analyze p).program).Ruled := by
  rw [(analyze_eq hlegal).1]
  exact List.forall_mem_map.mpr fun d _ => annotated_ruled p d

theorem legal_analyze (hlegal : p.Legal) : (analyze p).program.Legal := by
  rw [← Program.legal_bare, analyze_bare, Program.legal_bare]
  exact hlegal

end Analysis

/-- A program as the compiler has it: parsed from a text, and analysed any number of times. -/
inductive Program.Built : Program → Prop
  | parsed {text : String} {p : Program} (hparse : parse text = .ok p) : p.Built
  | analysed {p : Program} (h : p.Built) : (Analysis.analyze p).program.Built

theorem Program.Built.legal {p : Program} (h : p.Built) : p.Legal := by
  induction h with
  | parsed hparse => exact Parser.legal_of_parse hparse
  | analysed _ ih => exact Analysis.legal_analyze ih

theorem Program.Built.ruled {p : Program} (h : p.Built) : (Node.program p).Ruled := by
  cases h with
  | parsed hparse => exact Parser.ascends_of_parse Node.ascends_ruled hparse
  | analysed h => exact Analysis.ruled_analyze h.legal

/-- A node of a program that the compiler has. -/
def Node.InBuilt (node : Node) : Prop :=
  ∃ p : Program, p.Built ∧ ∃ path, (Node.program p).follow path = .ok node

theorem Node.InBuilt.ruled {node : Node} (h : node.InBuilt) : node.Ruled := by
  obtain ⟨p, hbuilt, path, hfollow⟩ := h
  exact hbuilt.ruled.follow hfollow

/-- Nodes of trees that the compiler has built are alike if and only if they are the same, with
    their annotations. So to be alike is an equivalence on them. Agreement of annotations is not
    even symmetric. -/
theorem Node.alike_equivalence {a b : Node} (ha : a.InBuilt) (hb : b.InBuilt) :
    (a.alike b = true ↔ a = b) ∧ a.alike a = true ∧ (a.alike b = true ↔ b.alike a = true) ∧
      (∀ c : Node, a.alike b = true → b.alike c = true → a.alike c = true) ∧
      ∃ x y : Ty, x.agrees y = true ∧ y.agrees x = false := by
  have hab := alike_iff_eq ha.ruled hb.ruled
  have hba := alike_iff_eq hb.ruled ha.ruled
  refine ⟨hab, a.alike_self, ?_, ?_, .integer, .union [.integer, .boolean], ?_, ?_⟩
  · rw [hab, hba, eq_comm]
  · intro c hfirst hsecond
    rw [hab.mp hfirst]
    exact hsecond
  · simp [Ty.agrees, Ty.agreesOr, Ty.simpleAgrees, Ty.sameSimple]
  · simp [Ty.agrees, Ty.agreesOr]

/-- The path to the value of the definition with an index. -/
def resultPath (i : Int) : List PathStep :=
  [.part "definition_list", .part "definitions", .index i, .part "body", .part "body"]

/-- Two functions with the same body, which comes to different annotations in them. The annotation
    of the second body agrees with that of the first one, and not the other way round. The bodies
    are not alike in either order. -/
theorem Node.alike_equivalence_bodies :
    ∃ a b : Node, a.InBuilt ∧ b.InBuilt ∧ tagsAlike b.tag a.tag = true ∧
      tagsAlike a.tag b.tag = false ∧ a.alike a = true ∧ ¬ a.alike b = true ∧
      ¬ b.alike a = true := by
  have hanalysed : ∃ p, parse "function f(c:boolean, x:integer, y:boolean):integer
        if c then x else y
        function g(c:boolean, x:integer, y:integer):integer
        if c then x else y" = .ok p ∧
      (((Node.program (Analysis.analyze p).program).follow (resultPath 0)).toOption.any fun a =>
        decide (tagsAlike (some .integer) a.tag = true ∧
          tagsAlike a.tag (some .integer) = false)) = true ∧
      (((Node.program (Analysis.analyze p).program).follow (resultPath 1)).toOption.any fun b =>
        decide (tagsAlike b.tag (some .integer) = true)) = true := by
    apply Analysis.exists_ok_of_any
    decide +kernel
  obtain ⟨p, hparse, hfirst, hsecond⟩ := hanalysed
  obtain ⟨a, hfollow, hoffered, hunion⟩ := Analysis.exists_ok_of_any hfirst
  obtain ⟨b, hfollow', hinteger⟩ := Analysis.exists_ok_of_any hsecond
  have htag : b.tag = some .integer :=
    eq_of_tagsAlike_simple (by simp [Ty.IsSimple]) hinteger
  have ha : a.InBuilt := ⟨_, (Program.Built.parsed hparse).analysed, _, hfollow⟩
  have hb : b.InBuilt := ⟨_, (Program.Built.parsed hparse).analysed, _, hfollow'⟩
  obtain ⟨hiff, hself, hsymm, -⟩ := Node.alike_equivalence ha hb
  have hne : ¬ a.alike b = true := by
    intro halike
    rw [hiff.mp halike, hinteger] at hunion
    cases hunion
  rw [← htag] at hoffered hunion
  exact ⟨a, b, ha, hb, hoffered, hunion, hself, hne, fun halike => hne (hsymm.mpr halike)⟩

end Klein
