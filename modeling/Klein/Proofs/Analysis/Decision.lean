import Klein.Proofs.Analysis.Faults
import Klein.Proofs.Analysis.HasType

namespace Klein.Analysis

variable {names : Declared} {env : Env} {p : Program} {d : Definition} {s : State}
  {seen : List String}

/-- An environment inside a function, in which names have the types that are declared for them. -/
structure Env.Knows (env : Env) (names : Declared) : Prop where
  inFunction : env.inFunction = true
  types : ∀ name, (env.resolve name).map (·.type) = names.typeOf name
  print : names.typeOf "print" = some printSymbol.type

theorem Findings.clean_empty : Findings.Clean {} :=
  ⟨rfl, fun _ hissue => nomatch hissue⟩

theorem judgeOperands_of_types {t : BaseType} {operands : List (String × Ty)}
    (place : Option String) (form : Form) (result : Ty)
    (htypes : ∀ operand ∈ operands, operand.2 = t.ty) :
    judgeOperands place form t.ty result operands = ⟨result, {}⟩ := by
  induction operands with
  | nil => rfl
  | cons operand operands ih =>
    rw [judgeOperands, if_pos (Ty.agrees_ty.mpr (htypes operand (by simp)))]
    exact ih fun other hother => htypes other (by simp [hother])

theorem judgeUnary_of_type (place : Option String) (op : UnaryOp) :
    judgeUnary place op op.type.ty = ⟨op.type.ty, {}⟩ := by
  rw [judgeUnary_eq]
  exact judgeOperands_of_types _ _ _ (by simp)

theorem judgeBinary_of_types {op : BinaryOp} {t : BaseType} (place : Option String)
    (htype : op.operandType = some t) :
    judgeBinary place op t.ty t.ty = ⟨op.resultType.ty, {}⟩ := by
  rw [judgeBinary_eq place htype]
  exact judgeOperands_of_types _ _ _ (by simp)

theorem judgeBinary_equals_of_types (place : Option String) (t u : BaseType) :
    judgeBinary place .equals t.ty u.ty = ⟨.boolean, {}⟩ := by
  have hnot : ∀ t : BaseType, t.ty.agrees .error = false := by
    intro t
    cases t <;> simp [Ty.agrees, Ty.agreesOr, Ty.simpleAgrees, Ty.sameSimple, BaseType.ty]
  simp [judgeBinary, hnot]

theorem judgeConditional_of_types (place : Option String) (t : BaseType) :
    judgeConditional place .boolean t.ty t.ty = ⟨t.ty, {}⟩ := by
  rw [judgeConditional, if_pos (Ty.agrees_ty.mpr rfl)]
  exact judgeOperands_of_types (t := .boolean) _ _ _ (by simp [BaseType.ty])

theorem exists_symbol_of_typeOf (henv : env.Knows names) {name : String} {type : Ty}
    (htype : names.typeOf name = some type) :
    ∃ symbol, env.resolve name = some symbol ∧ symbol.type = type :=
  Option.map_eq_some_iff.mp ((henv.types name).trans htype)

theorem judgeIdentifier_of_type (henv : env.Knows names) {name : String} {t : BaseType}
    (hname : names.parameter name = some t) :
    judgeIdentifier env name = ⟨t.ty, { used := [name] }⟩ := by
  have hdeclared : names.typeOf name = some t.ty := by simp [Declared.typeOf, hname]
  obtain ⟨symbol, hsymbol, htype⟩ := exists_symbol_of_typeOf henv hdeclared
  simp only [judgeIdentifier, hsymbol, htype, henv.inFunction, if_true]
  cases t <;> rfl

theorem typeOf_of_function {callee : String} {signature : Signature}
    (hfree : names.parameter callee = none) (hfunction : names.function callee = some signature) :
    names.typeOf callee = some signature.ty := by
  simp [Declared.typeOf, hfree, hfunction]

theorem agreeEach_self (types : List BaseType) :
    Ty.agreeEach false (types.map BaseType.ty) (types.map BaseType.ty) = true := by
  induction types with
  | nil => simp [Ty.agreeEach]
  | cons t types ih =>
    have hself : Ty.agreesOr false t.ty t.ty = true := Ty.agrees_ty.mpr rfl
    simp [Ty.agreeEach, hself, ih]

/-- A call is judged to be clean if its arguments agree with what the function wants. -/
theorem judgeCall_of_agrees (henv : env.Knows names) {callee : String} {wanted found : List Ty}
    {result : Ty} (htype : names.typeOf callee = some (.function wanted result))
    (hagree : Ty.agreeEach false found wanted = true) :
    (judgeCall env callee found).findings.Clean ∧ (judgeCall env callee found).type = result := by
  obtain ⟨symbol, hsymbol, hfunction⟩ := exists_symbol_of_typeOf henv htype
  have hagrees : (Ty.sequence found).agrees (.sequence wanted) = true := by
    simpa [Ty.agrees, Ty.agreesOr] using hagree
  simp only [judgeCall, hsymbol, hfunction, henv.inFunction, if_true, judgeArguments, hagrees,
    Findings.clean_append, and_true]
  exact ⟨⟨rfl, by simp⟩, Findings.clean_empty⟩

mutual

/-- In an expression that has a type nothing is found wrong, and it comes to that type. -/
theorem checkExpr_of_hasType (henv : env.Knows names) : {e : Expr} → {t : BaseType} →
    HasType names e t → (checkExpr env e).findings.Clean ∧ (checkExpr env e).type = t.ty
  | .integer .., _, .integer | .boolean .., _, .boolean => ⟨Findings.clean_empty, rfl⟩
  | .identifier .., _, .identifier hname => by
    simp only [checkExpr, judgeIdentifier_of_type henv hname, clean_conclude, conclude_type,
      and_true]
    exact ⟨Findings.clean_empty, rfl, fun _ hissue => nomatch hissue⟩
  | .unary .., _, .unary hvalue => by
    obtain ⟨hclean, htype⟩ := checkExpr_of_hasType henv hvalue
    simp only [checkExpr, htype, judgeUnary_of_type, clean_conclude, conclude_type, and_true]
    exact ⟨hclean, Findings.clean_empty⟩
  | .binary .., _, .operation hop hleft hright => by
    obtain ⟨hl, hlt⟩ := checkExpr_of_hasType henv hleft
    obtain ⟨hr, hrt⟩ := checkExpr_of_hasType henv hright
    simp only [checkExpr, Checked.after_type, hlt, hrt, judgeBinary_of_types _ hop, clean_conclude,
      conclude_type, Checked.clean_after, and_true]
    exact ⟨⟨hl, hr⟩, Findings.clean_empty⟩
  | .binary .., _, .equation hleft hright => by
    obtain ⟨hl, hlt⟩ := checkExpr_of_hasType henv hleft
    obtain ⟨hr, hrt⟩ := checkExpr_of_hasType henv hright
    simp only [checkExpr, Checked.after_type, hlt, hrt, judgeBinary_equals_of_types,
      clean_conclude, conclude_type, Checked.clean_after]
    exact ⟨⟨⟨hl, hr⟩, Findings.clean_empty⟩, rfl⟩
  | .conditional .., t, .conditional hcondition hconsequent halternative => by
    obtain ⟨hc, hct⟩ := checkExpr_of_hasType henv hcondition
    obtain ⟨ht, htt⟩ := checkExpr_of_hasType henv hconsequent
    obtain ⟨he, het⟩ := checkExpr_of_hasType henv halternative
    have hjudge := judgeConditional_of_types env.place t
    simp only [checkExpr, Checked.after_type, hct, htt, het, BaseType.ty, clean_conclude,
      conclude_type, Checked.clean_after] at hjudge ⊢
    rw [hjudge]
    exact ⟨⟨⟨⟨hc, ht⟩, he⟩, Findings.clean_empty⟩, rfl⟩
  | .call .., _, .call hfree hfunction harguments => by
    obtain ⟨ha, hat⟩ := checkArguments_of_hasTypes henv harguments
    obtain ⟨hclean, htype⟩ := judgeCall_of_agrees henv
      (typeOf_of_function hfree hfunction) (agreeEach_self _)
    simp only [checkExpr, hat, clean_conclude, conclude_type]
    exact ⟨⟨ha, hclean⟩, htype⟩

theorem checkArguments_of_hasTypes (henv : env.Knows names) : {arguments : Arguments} →
    {types : List BaseType} → HasTypes names arguments types →
    (checkArguments env arguments).findings.Clean ∧
      (checkArguments env arguments).types = types.map BaseType.ty
  | .nil, _, .nil => ⟨Findings.clean_empty, rfl⟩
  | .cons .., _, .cons hvalue hrest => by
    obtain ⟨hv, hvt⟩ := checkExpr_of_hasType henv hvalue
    obtain ⟨hr, hrt⟩ := checkArguments_of_hasTypes henv hrest
    simp only [checkArguments, hv.fault, Option.isSome_none, Bool.false_eq_true, if_false,
      Findings.clean_append, hvt, hrt, List.map_cons, and_true]
    exact ⟨hv, hr⟩

end

theorem checkCalls_of_hasTypes (henv : env.Knows names) {calls : List Call}
    (hprints : ∀ c ∈ calls, c.IsPrint)
    (htypes : ∀ c ∈ calls, ∃ t, HasTypes names c.arguments.items [t]) :
    (checkCalls env calls).findings.Clean := by
  induction calls with
  | nil => exact Findings.clean_empty
  | cons c calls ih =>
    obtain ⟨t, ht⟩ := htypes c (by simp)
    obtain ⟨ha, hat⟩ := checkArguments_of_hasTypes henv ht
    have hunion : Ty.agreeEach false [t.ty] [.union [.integer, .boolean]] = true := by
      cases t <;> simp [Ty.agreeEach, Ty.agreesOr, Ty.simpleAgrees, Ty.sameSimple, BaseType.ty]
    have hcall : (checkCall env c).findings.Clean := by
      rw [checkCall, clean_conclude, hat, (hprints c (by simp)).callee]
      exact ⟨ha, (judgeCall_of_agrees henv henv.print hunion).1⟩
    simp only [checkCalls, hcall.fault, Option.isSome_none, Bool.false_eq_true, if_false,
      Findings.clean_append]
    exact ⟨hcall, ih (fun e he => hprints e (by simp [he])) fun e he => htypes e (by simp [he])⟩

theorem explains_of_knows (henv : env.Knows names) : names.visible.Explains env.resolve :=
  Declared.explains_visible henv.types

/-- The output of a body after its check has the types that it had before. -/
theorem checkBody_prints_iff (names : Declared) (env : Env) (b : Body) :
    (∀ c ∈ (checkBody env b).tree.prints, ∃ u, HasTypes names c.arguments.items [u]) ↔
      ∀ c ∈ b.prints, ∃ u, HasTypes names c.arguments.items [u] := by
  have hsame : (checkBody env b).tree.prints.map Call.bare = b.prints.map Call.bare :=
    congrArg Body.prints (checkBody_bare env b)
  have htransfer : ∀ {calls others : List Call}, calls.map Call.bare = others.map Call.bare →
      (∀ c ∈ calls, ∃ u, HasTypes names c.arguments.items [u]) →
      ∀ c ∈ others, ∃ u, HasTypes names c.arguments.items [u] := by
    intro calls others hcalls htypes c hc
    have hmem : c.bare ∈ calls.map Call.bare := hcalls ▸ List.mem_map_of_mem hc
    obtain ⟨other, hother, hbares⟩ := List.mem_map.mp hmem
    have hitems : other.arguments.items.bare = c.arguments.items.bare :=
      congrArg (fun c : Call => c.arguments.items) hbares
    obtain ⟨u, hu⟩ := htypes other hother
    exact ⟨u, hu.congr hitems.symm⟩
  exact ⟨htransfer hsame, htransfer hsame.symm⟩

theorem checkBody_result_bare (env : Env) (b : Body) :
    (checkBody env b).tree.result.bare = b.result.bare :=
  congrArg Body.result (checkBody_bare env b)

/-- A body that is clean, and whose annotations are plain, has the types of the rules. -/
theorem hasType_of_checkBody (henv : env.Knows names) {b : Body} {t : BaseType}
    (hlegal : b.Legal) (hclean : (checkBody env b).findings.Clean)
    (htype : (checkBody env b).type = t.ty)
    (hplain : ∀ e ∈ (checkBody env b).tree.expressions, e.Plain) :
    (∀ c ∈ b.prints, ∃ u, HasTypes names c.arguments.items [u]) ∧ HasType names b.result t := by
  obtain ⟨hresult, hprints⟩ := checkBody_typed (explains_of_knows henv) hlegal hclean
  simp only [Body.expressions, List.mem_append, List.mem_flatMap] at hplain
  constructor
  · refine (checkBody_prints_iff names env b).mp fun c hc => ?_
    obtain ⟨tag, value, type, hitems, hvalue⟩ := hprints c hc
    obtain ⟨u, -, hu⟩ := hvalue.hasType fun part hpart =>
      hplain part (.inl ⟨c, hc, by simp [hitems, Arguments.parts, hpart]⟩)
    exact ⟨u, hitems ▸ .cons hu .nil⟩
  · obtain ⟨u, hu, hvalue⟩ := hresult.hasType fun part hpart => hplain part (.inr hpart)
    obtain rfl : u = t := BaseType.ty_injective (hu.symm.trans htype)
    exact hvalue.congr (checkBody_result_bare env b).symm

/-- In a body that has the types of the rules nothing is found wrong, and all expressions are
    annotated with their types. -/
theorem checkBody_of_hasType (henv : env.Knows names) {b : Body} {t : BaseType} (hlegal : b.Legal)
    (hprints : ∀ c ∈ b.prints, ∃ u, HasTypes names c.arguments.items [u])
    (hresult : HasType names b.result t) :
    (checkBody env b).findings.Clean ∧ (checkBody env b).type = t.ty ∧
      ∀ e ∈ (checkBody env b).tree.expressions, e.Annotated names := by
  obtain ⟨hclean, htype⟩ := checkExpr_of_hasType henv hresult
  have hfindings : (checkBody env b).findings.Clean := by
    simp only [checkBody, clean_conclude, Checked.clean_after]
    exact ⟨⟨checkCalls_of_hasTypes henv hlegal.prints hprints, hclean⟩, Findings.clean_empty⟩
  refine ⟨hfindings, ?_, ?_⟩
  · rw [checkBody, conclude_type, Checked.after_type, htype]
  · obtain ⟨hvalue, htyped⟩ := checkBody_typed (explains_of_knows henv) hlegal hfindings
    have hafter := (checkBody_prints_iff names env b).mpr hprints
    intro e he
    rcases List.mem_append.mp he with hprint | hinner
    · obtain ⟨c, hc, hmem⟩ := List.mem_flatMap.mp hprint
      obtain ⟨tag, value, type, hitems, hv⟩ := htyped c hc
      obtain ⟨u, hu⟩ := hafter c hc
      rw [hitems] at hu hmem
      cases hu with
      | cons hu =>
        rw [Arguments.parts, Arguments.parts, List.append_nil] at hmem
        exact hu.parts_annotated hv e hmem
    · exact (hresult.congr (checkBody_result_bare env b)).parts_annotated hvalue e hinner

theorem State.clean_report {issues : List Issue} :
    (s.report issues).Clean ↔ s.Clean ∧ ∀ issue ∈ issues, issue.isError = false := by
  simp [State.Clean, or_imp, forall_and]

/-- Things whose names differ from each other and from those that were seen before. -/
def Fresh {α : Type} (key : α → String) (seen : List String) (items : List α) : Prop :=
  (items.map key).Nodup ∧ ∀ a ∈ items, key a ∉ seen

theorem fresh_nil {α : Type} (key : α → String) (seen : List String) : Fresh key seen [] := by
  simp [Fresh]

/-- The name of the first thing moves from the rest to those that were seen. -/
theorem fresh_cons {α : Type} {key : α → String} {a : α} {items : List α} :
    Fresh key seen (a :: items) ↔ key a ∉ seen ∧ Fresh key (key a :: seen) items := by
  unfold Fresh
  rw [List.forall_mem_cons]
  simp only [List.map_cons, List.nodup_cons, List.mem_map, List.mem_cons, not_or]
  constructor
  · rintro ⟨⟨hother, hnodup⟩, hfresh, hseen⟩
    refine ⟨hfresh, hnodup, fun b hb => ⟨?_, hseen b hb⟩⟩
    exact fun hsame => hother ⟨b, hb, hsame⟩
  · rintro ⟨hfresh, hnodup, hothers⟩
    refine ⟨⟨?_, hnodup⟩, hfresh, fun b hb => (hothers b hb).2⟩
    rintro ⟨b, hb, hsame⟩
    exact (hothers b hb).1 hsame

/-- Functions are declared without an error if their names are fresh and `main` is among them. -/
theorem declareFrom_clean_iff {definitions : List Definition}
    (hfault : (declareFrom seen s definitions).2 = none) :
    (declareFrom seen s definitions).1.Clean ↔
      s.Clean ∧ Fresh Definition.name seen definitions ∧
        ("main" ∈ seen ∨ "main" ∈ definitions.map (·.name)) := by
  induction definitions generalizing s seen with
  | nil =>
    rw [declareFrom]
    by_cases hmain : "main" ∈ seen
    · simp [hmain, fresh_nil]
    · simp [hmain, State.clean_report, Issue.isError, Issue.severity]
  | cons d definitions ih =>
    rw [declareFrom] at hfault ⊢
    rw [fresh_cons]
    split at hfault
    · rename_i hold
      rw [if_pos hold, ih hfault, State.clean_report]
      simp_all [Issue.isError, Issue.severity]
    · rename_i hnew
      have hfresh : d.name ∉ seen := by simpa using hnew
      rw [if_neg hnew]
      split at hfault
      · cases hfault
      · rw [ih hfault]
        simp only [State.Clean, hfresh, not_false_eq_true, true_and, List.mem_cons, List.map_cons,
          or_assoc, or_left_comm]

theorem declare_clean_iff (hdeclare : declare {} p = (s, none)) :
    s.Clean ↔ (p.definitions.map (·.name)).Nodup ∧ "main" ∈ p.definitions.map (·.name) := by
  unfold declare at hdeclare
  split at hdeclare
  · cases hdeclare
  · have hiff := declareFrom_clean_iff (congrArg Prod.snd hdeclare)
    rw [hdeclare] at hiff
    simpa [State.Clean, Fresh] using hiff

/-- Parameters are bound without an error if their names are fresh. -/
theorem checkParametersFrom_clean_iff {parameters : List Parameter}
    (hfault : (checkParametersFrom seen s parameters).fault = none) :
    (checkParametersFrom seen s parameters).state.Clean ↔
      s.Clean ∧ Fresh Parameter.name seen parameters := by
  induction parameters generalizing s seen with
  | nil => simp [checkParametersFrom, fresh_nil]
  | cons q parameters ih =>
    rw [checkParametersFrom] at hfault ⊢
    rw [fresh_cons]
    split at hfault
    · rename_i hold
      rw [if_pos hold]
      refine (ih hfault).trans ?_
      rw [State.clean_report]
      simp_all [Issue.isError, Issue.severity]
    · rename_i hnew
      have hfresh : q.name ∉ seen := by simpa using hnew
      rw [if_neg hnew]
      split at hfault
      · cases hfault
      · refine (ih hfault).trans ?_
        simp only [State.Clean, hfresh, not_false_eq_true, true_and]

/-- Inside a definition names have the types that are declared in it. -/
theorem knows_inside (htypes : ∀ name, s.table.typeOf name = (p.declares []).typeOf name)
    (hlegal : p.Legal) (hd : d.Legal) : (s.inside d).env.Knows (p.declaredIn d) where
  inFunction := rfl
  types name := by
    have hlookup := lookup_inside (parametersOutcome_no_fault s d) name
    have hbefore := htypes name
    rw [SymbolTable.typeOf] at hbefore
    change ((s.inside d).table.lookup name).map (·.type) = _
    rw [hlookup, Option.map_or, hbefore]
    simp [Declared.typeOf, Program.declaredIn, Program.declares, parameterSymbol,
      Function.comp_def]
  print := by
    have hparameters := find_print Parameter.name hd.parameters
    have hfunctions := find_print Definition.name fun d hd => (hlegal d hd).name
    simp [Declared.typeOf, Program.declaredIn, Program.declares, hparameters, hfunctions]

/-- A definition is checked without an error if its parameters differ and its body is clean and
    comes to the declared type. -/
theorem checkDefinition_clean_iff (hfault : (checkDefinition s d).fault = none) :
    (checkDefinition s d).state.Clean ↔ s.Clean ∧ (d.parameters.items.map (·.name)).Nodup ∧
      (bodyOutcome s d).findings.Clean ∧ (bodyOutcome s d).type = d.returnType.base.ty := by
  obtain ⟨hparameters, hnone, -, -, -, unused, hunused, hissues⟩ :=
    checkDefinition_of_no_fault hfault
  have hinside : (s.inside d).Clean ↔ s.Clean ∧ (d.parameters.items.map (·.name)).Nodup := by
    have hiff : (s.inside d).Clean ↔ s.Clean ∧ Fresh Parameter.name [] d.parameters.items :=
      checkParametersFrom_clean_iff hparameters
    simpa [Fresh] using hiff
  have hbody : (bodyOutcome s d).findings.Clean ↔
      ∀ issue ∈ (bodyOutcome s d).findings.issues, issue.isError = false :=
    ⟨Findings.Clean.issues, fun h => ⟨hnone, h⟩⟩
  rw [← and_assoc, ← hinside, hbody, State.Clean, hissues, ← Ty.agrees_ty]
  simp only [List.mem_append, or_imp, forall_and]
  constructor
  · rintro ⟨⟨⟨hbefore, hinner⟩, -⟩, hmismatch⟩
    refine ⟨hbefore, hinner, ?_⟩
    by_contra hwrong
    have herror := hmismatch (.wrongResult d.name d.returnType.base.ty (bodyOutcome s d).type)
      (by simp [hwrong])
    cases herror
  · rintro ⟨hbefore, hinner, hagrees⟩
    exact ⟨⟨⟨hbefore, hinner⟩, hunused⟩, by simp [hagrees]⟩

/-- A definition is checked without an error and a union if it keeps the rules, and then all its
    expressions are annotated with their types. -/
theorem checkDefinition_iff_wellTyped
    (htypes : ∀ name, s.table.typeOf name = (p.declares []).typeOf name) (hlegal : p.Legal)
    (hd : d.Legal) (hfault : (checkDefinition s d).fault = none) :
    ((checkDefinition s d).state.Clean ∧
        ∀ e ∈ (checkDefinition s d).tree.body.expressions, e.Plain) ↔
      s.Clean ∧ d.WellTyped (p.declaredIn d) := by
  have henv := knows_inside htypes hlegal hd
  obtain ⟨-, -, hbody, -⟩ := checkDefinition_of_no_fault hfault
  rw [checkDefinition_clean_iff hfault, hbody]
  constructor
  · rintro ⟨⟨hclean, hnodup, hfindings, htype⟩, hplain⟩
    obtain ⟨hprints, hresult⟩ := hasType_of_checkBody henv hd.body hfindings htype hplain
    exact ⟨hclean, hnodup, hprints, hresult⟩
  · rintro ⟨hclean, hnodup, hprints, hresult⟩
    obtain ⟨hfindings, htype, hannotated⟩ := checkBody_of_hasType henv hd.body hprints hresult
    exact ⟨⟨hclean, hnodup, hfindings, htype⟩, fun e he => (hannotated e he).plain⟩

theorem checkDefinition_annotated
    (htypes : ∀ name, s.table.typeOf name = (p.declares []).typeOf name) (hlegal : p.Legal)
    (hd : d.Legal) (hfault : (checkDefinition s d).fault = none)
    (hwell : d.WellTyped (p.declaredIn d)) :
    ∀ e ∈ (checkDefinition s d).tree.body.expressions, e.Annotated (p.declaredIn d) := by
  obtain ⟨-, -, hbody, -⟩ := checkDefinition_of_no_fault hfault
  rw [hbody]
  exact (checkBody_of_hasType (knows_inside htypes hlegal hd) hd.body hwell.prints
    hwell.result).2.2

theorem checkDefinitions_iff_wellTyped {definitions : List Definition}
    (htypes : ∀ name, s.table.typeOf name = (p.declares []).typeOf name) (hlegal : p.Legal)
    (hds : ∀ d ∈ definitions, d.Legal) (hfault : (checkDefinitions s definitions).fault = none) :
    ((checkDefinitions s definitions).state.Clean ∧
        ∀ d ∈ (checkDefinitions s definitions).tree, ∀ e ∈ d.body.expressions, e.Plain) ↔
      s.Clean ∧ ∀ d ∈ definitions, d.WellTyped (p.declaredIn d) := by
  induction definitions generalizing s with
  | nil => simp [checkDefinitions]
  | cons d definitions ih =>
    rw [checkDefinitions] at hfault ⊢
    dsimp only at hfault ⊢
    split at hfault
    · cases hfault
    · rename_i hnone
      dsimp only
      have hfirst := checkDefinition_iff_wellTyped htypes hlegal (hds d (by simp)) hnone
      have hrest := ih (fun name => (typeOf_checkDefinition hnone name).trans (htypes name))
        (fun e he => hds e (by simp [he])) hfault
      simp only [List.forall_mem_cons]
      tauto

/-- The definitions that keep the rules are annotated with types, each by the names that are
    declared in it. -/
theorem checkDefinitions_annotated {definitions : List Definition}
    (htypes : ∀ name, s.table.typeOf name = (p.declares []).typeOf name) (hlegal : p.Legal)
    (hds : ∀ d ∈ definitions, d.Legal) (hfault : (checkDefinitions s definitions).fault = none)
    (hwell : ∀ d ∈ definitions, d.WellTyped (p.declaredIn d)) :
    ∀ checked ∈ (checkDefinitions s definitions).tree, ∃ d : Definition, checked.bare = d.bare ∧
      ∀ e ∈ checked.body.expressions, e.Annotated (p.declaredIn d) := by
  induction definitions generalizing s with
  | nil => simp [checkDefinitions]
  | cons d definitions ih =>
    rw [checkDefinitions] at hfault ⊢
    dsimp only at hfault ⊢
    split at hfault
    · cases hfault
    · rename_i hnone
      dsimp only
      rintro checked (_ | ⟨_, hchecked⟩)
      · exact ⟨d, checkDefinition_bare s d,
          checkDefinition_annotated htypes hlegal (hds d (by simp)) hnone (hwell d (by simp))⟩
      · exact ih (fun name => (typeOf_checkDefinition hnone name).trans (htypes name))
          (fun e he => hds e (by simp [he])) hfault (fun e he => hwell e (by simp [he])) checked
          hchecked

theorem unusedFunctions_isError {table : SymbolTable} :
    ∀ issue ∈ unusedFunctions table, issue.isError = false := by
  intro issue hissue
  obtain ⟨symbol, -, hsymbol⟩ := List.mem_filterMap.mp hissue
  split at hsymbol
  · cases hsymbol
  · cases hsymbol
    rfl

/-- A program is analysed without an error exactly when no error is among the issues of its
    definitions. -/
theorem analyze_ok_iff_clean (hlegal : p.Legal) :
    ∃ s, declare {} p = (s, none) ∧ (checkDefinitions s p.definitions).fault = none ∧
      (analyze p).program = ⟨(checkDefinitions s p.definitions).tree⟩ ∧
      ((analyze p).error = none ↔ (checkDefinitions s p.definitions).state.Clean) ∧
      ((∀ issue ∈ (analyze p).state.issues, issue.isError = false) ↔
        (checkDefinitions s p.definitions).state.Clean) := by
  obtain ⟨s, hdeclare, hfault, hprogram, hissues, -, herror⟩ := analyze_of_legal hlegal
  have hclean : (∀ issue ∈ (analyze p).state.issues, issue.isError = false) ↔
      (checkDefinitions s p.definitions).state.Clean := by
    rw [hissues]
    simp only [List.mem_append, or_imp, forall_and, State.Clean]
    exact and_iff_left unusedFunctions_isError
  refine ⟨s, hdeclare, hfault, hprogram, ?_, hclean⟩
  rw [← hclean, herror]
  have hcount : errorCount (analyze p).state.issues = 0 ↔
      ∀ issue ∈ (analyze p).state.issues, issue.isError = false := by
    simp [errorCount, List.countP_eq_zero]
  rw [← hcount]
  split <;> simp_all

/-- After an analysis without an error the functions of a program have different names, and `main`
    is among them. -/
theorem names_of_ok (hlegal : p.Legal) (hok : (analyze p).error = none) :
    (p.definitions.map (·.name)).Nodup ∧ "main" ∈ p.definitions.map (·.name) := by
  obtain ⟨s, hdeclare, hfault, hclean, -, -⟩ := analyze_of_ok hok
  obtain ⟨hbefore, -⟩ := checkDefinitions_met (explains_declare hdeclare) hlegal hfault hclean
  exact (declare_clean_iff hdeclare).mp hbefore

/-- A program that was parsed keeps the typing rules exactly when it is analysed without an error
    and no expression is annotated with a union. Then every expression is annotated with its
    type. -/
theorem wellTyped_iff_analyze {text : String} {p : Program} (hparse : parse text = .ok p) :
    (p.WellTyped ↔ (analyze p).error = none ∧
        (∀ issue ∈ (analyze p).state.issues, issue.isError = false) ∧
        ∀ d ∈ (analyze p).program.definitions, ∀ e ∈ d.body.expressions, e.Plain) ∧
      (p.WellTyped → ∀ d ∈ (analyze p).program.definitions, ∀ e ∈ d.body.expressions,
        e.Annotated ((analyze p).program.declaredIn d)) := by
  have hlegal := Parser.legal_of_parse hparse
  obtain ⟨s, hdeclare, hfault, hprogram, herror, hissues⟩ := analyze_ok_iff_clean hlegal
  have htypes := typeOf_declare hdeclare
  have hdecided := checkDefinitions_iff_wellTyped htypes hlegal hlegal hfault
  have hwell : p.WellTyped ↔ s.Clean ∧ ∀ d ∈ p.definitions, d.WellTyped (p.declaredIn d) := by
    rw [declare_clean_iff hdeclare]
    exact ⟨fun h => ⟨⟨h.functions, h.main⟩, h.definitions⟩, fun h => ⟨h.1.1, h.1.2, h.2⟩⟩
  constructor
  · rw [herror, hissues, hprogram, hwell, ← hdecided, ← and_assoc, and_self]
  · intro hprogramWell
    have hannotated := checkDefinitions_annotated htypes hlegal hlegal hfault
      hprogramWell.definitions
    have hbare := analyze_bare p
    rw [hprogram] at hbare ⊢
    intro checked hchecked
    obtain ⟨d, hsame, hexpressions⟩ := hannotated checked hchecked
    have hnames : Program.declaredIn ⟨(checkDefinitions s p.definitions).tree⟩ checked =
        p.declaredIn d := by
      rw [← declaredIn_bare, hbare, hsame, declaredIn_bare]
    rw [hnames]
    exact hexpressions

/-- The parameter of `main` hides a function, and a function is called before it is defined. -/
theorem wellTyped_iff_analyze_hidden :
    ∃ p, parse "function main(f:integer):integer print(f = 1) if f < g(f) then g(-f) else 2
        function g(n:integer):integer n + 1 function f():boolean true" = .ok p ∧ p.WellTyped ∧
      ∀ d ∈ (analyze p).program.definitions, ∀ e ∈ d.body.expressions,
        e.Annotated ((analyze p).program.declaredIn d) := by
  have hanalysed : ∃ p,
      parse "function main(f:integer):integer print(f = 1) if f < g(f) then g(-f) else 2
        function g(n:integer):integer n + 1 function f():boolean true" = .ok p ∧
      (analyze p).error = none ∧ (∀ issue ∈ (analyze p).state.issues, issue.isError = false) ∧
      ∀ d ∈ (analyze p).program.definitions, ∀ e ∈ d.body.expressions, e.Plain := by
    apply exists_ok_of_any
    decide +kernel
  obtain ⟨p, hparse, hclean⟩ := hanalysed
  obtain ⟨hiff, hannotated⟩ := wellTyped_iff_analyze hparse
  exact ⟨p, hparse, hiff.mpr hclean, hannotated (hiff.mpr hclean)⟩

end Klein.Analysis
