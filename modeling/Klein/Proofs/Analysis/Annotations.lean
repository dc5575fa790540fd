import Klein.Proofs.Analysis.Outcome
import Klein.Proofs.Analysis.Soundness

namespace Klein

open Analysis

mutual

/-- The annotations of the nodes of an expression. The name of the function in a call has none. -/
def Expr.tags : Expr → List Tag
  | .integer tag _ | .boolean tag _ | .identifier tag _ => [tag]
  | .unary tag _ value => tag :: value.tags
  | .binary tag _ left right => tag :: (left.tags ++ right.tags)
  | .conditional tag condition consequent alternative =>
    tag :: (condition.tags ++ consequent.tags ++ alternative.tags)
  | .call tag _ listTag arguments => tag :: listTag :: arguments.tags

def Arguments.tags : Arguments → List Tag
  | .nil => []
  | .cons tag value rest => tag :: (value.tags ++ rest.tags)

end

def ParameterList.tags (l : ParameterList) : List Tag :=
  l.tag :: l.items.flatMap fun p => [p.tag, p.type.tag]

def Body.tags (b : Body) : List Tag :=
  b.tag :: ((b.prints.flatMap fun c => c.toExpr.tags) ++ b.result.tags)

def Definition.tags (d : Definition) : List Tag :=
  d.tag :: d.returnType.tag :: (d.parameters.tags ++ d.body.tags)

/-- The annotations of a program: those of its definitions, and of all nodes in them but names. -/
def Program.tags (p : Program) : List Tag :=
  p.definitions.flatMap Definition.tags

namespace Analysis

variable {env : Env} {p : Program} {d : Definition}

mutual

theorem checkExpr_tags (hinside : env.inFunction = true) :
    (e : Expr) → ∀ tag ∈ (checkExpr env e).tree.tags, tag.isSome = true
  | .integer .. | .boolean .. => by simp [checkExpr, Expr.tags]
  | .identifier tag name => by simp [checkExpr_identifier hinside, Expr.tags]
  | .unary tag op value => by
    rw [checkExpr_unary hinside, Expr.tags, List.forall_mem_cons]
    exact ⟨rfl, checkExpr_tags hinside value⟩
  | .binary tag op left right => by
    rw [checkExpr_binary hinside, Expr.tags, List.forall_mem_cons, List.forall_mem_append]
    exact ⟨rfl, checkExpr_tags hinside left, checkExpr_tags hinside right⟩
  | .conditional tag condition consequent alternative => by
    rw [checkExpr_conditional hinside, Expr.tags, List.forall_mem_cons, List.forall_mem_append,
      List.forall_mem_append]
    exact ⟨rfl, ⟨checkExpr_tags hinside condition, checkExpr_tags hinside consequent⟩,
      checkExpr_tags hinside alternative⟩
  | .call tag callee listTag arguments => by
    rw [checkExpr_call hinside, Expr.tags, List.forall_mem_cons, List.forall_mem_cons]
    exact ⟨rfl, rfl, checkArguments_tags hinside arguments⟩

theorem checkArguments_tags (hinside : env.inFunction = true) :
    (arguments : Arguments) → ∀ tag ∈ (checkArguments env arguments).tree.tags, tag.isSome = true
  | .nil => by simp [checkArguments, Arguments.tags]
  | .cons tag value rest => by
    rw [checkArguments_cons hinside, Arguments.tags, List.forall_mem_cons, List.forall_mem_append]
    exact ⟨rfl, checkExpr_tags hinside value, checkArguments_tags hinside rest⟩

end

theorem checkBody_tags (hinside : env.inFunction = true) (b : Body) :
    ∀ tag ∈ (checkBody env b).tree.tags, tag.isSome = true := by
  have hcalls : ∀ calls : List Call, ∀ tag ∈ (checkCalls env calls).tree.flatMap (·.toExpr.tags),
      tag.isSome = true := by
    intro calls
    induction calls with
    | nil => simp [checkCalls]
    | cons c calls ih =>
      rw [checkCalls_cons hinside, List.flatMap_cons, List.forall_mem_append, (checkCall_eq c).1]
      exact ⟨checkExpr_tags hinside _, ih⟩
  rw [checkBody_eq hinside, Body.tags, List.forall_mem_cons, List.forall_mem_append]
  exact ⟨rfl, hcalls b.prints, checkExpr_tags hinside b.result⟩

theorem annotated_tags (p : Program) (d : Definition) :
    ∀ tag ∈ (p.annotated d).tags, tag.isSome = true := by
  have hbody : ∀ tag ∈ (p.checkedBody d).tree.tags, tag.isSome = true := checkBody_tags rfl d.body
  rw [Definition.tags, List.forall_mem_cons, List.forall_mem_cons, List.forall_mem_append]
  refine ⟨rfl, rfl, ?_, hbody⟩
  rw [ParameterList.tags, List.forall_mem_cons, List.forall_mem_flatMap, Program.annotated,
    List.forall_mem_map]
  exact ⟨rfl, fun parameter _ => by simp [checkParameter, checkType]⟩

mutual

/-- Inside a function an expression is checked as if it had no annotations. -/
theorem checkExpr_of_bare (hinside : env.inFunction = true) :
    (e : Expr) → checkExpr env e.bare = checkExpr env e
  | .integer .. | .boolean .. => rfl
  | .identifier tag name => by
    rw [Expr.bare, checkExpr_identifier hinside, checkExpr_identifier hinside]
  | .unary tag op value => by
    rw [Expr.bare, checkExpr_unary hinside, checkExpr_unary hinside,
      checkExpr_of_bare hinside value]
  | .binary tag op left right => by
    rw [Expr.bare, checkExpr_binary hinside, checkExpr_binary hinside,
      checkExpr_of_bare hinside left, checkExpr_of_bare hinside right]
  | .conditional tag condition consequent alternative => by
    rw [Expr.bare, checkExpr_conditional hinside, checkExpr_conditional hinside,
      checkExpr_of_bare hinside condition, checkExpr_of_bare hinside consequent,
      checkExpr_of_bare hinside alternative]
  | .call tag callee listTag arguments => by
    rw [Expr.bare, checkExpr_call hinside, checkExpr_call hinside,
      checkArguments_of_bare hinside arguments]

theorem checkArguments_of_bare (hinside : env.inFunction = true) :
    (arguments : Arguments) → checkArguments env arguments.bare = checkArguments env arguments
  | .nil => rfl
  | .cons tag value rest => by
    rw [Arguments.bare, checkArguments_cons hinside, checkArguments_cons hinside,
      checkExpr_of_bare hinside value, checkArguments_of_bare hinside rest]

end

theorem checkCalls_of_bare (hinside : env.inFunction = true) (calls : List Call) :
    checkCalls env (calls.map Call.bare) = checkCalls env calls := by
  induction calls with
  | nil => rfl
  | cons c calls ih =>
    have harguments := checkArguments_regular hinside c.arguments.items
    have hcall : checkCall env c.bare = checkCall env c := by
      simp only [checkCall, Call.bare, checkArguments_of_bare hinside, harguments.fault,
        conclude_of_regular harguments (judgeCall_regular hinside ..), Option.isSome_none,
        Bool.false_eq_true, if_false]
    rw [List.map_cons, checkCalls_cons hinside, checkCalls_cons hinside, hcall, ih]

theorem checkBody_of_bare (hinside : env.inFunction = true) (b : Body) :
    checkBody env b.bare = checkBody env b := by
  rw [checkBody_eq hinside, checkBody_eq hinside, Body.bare, checkCalls_of_bare hinside,
    checkExpr_of_bare hinside]

end Analysis

@[simp]
theorem Definition.name_bare (d : Definition) : d.bare.name = d.name :=
  rfl

@[simp]
theorem Definition.items_bare (d : Definition) :
    d.bare.parameters.items = d.parameters.items.map Parameter.bare :=
  rfl

@[simp]
theorem Definition.base_bare (d : Definition) : d.bare.returnType.base = d.returnType.base :=
  rfl

@[simp]
theorem Parameter.name_bare (p : Parameter) : p.bare.name = p.name :=
  rfl

@[simp]
theorem Program.definitions_bare (p : Program) :
    p.bare.definitions = p.definitions.map Definition.bare :=
  rfl

@[simp]
theorem parameterTypes_bare (items : List Parameter) :
    parameterTypes (items.map Parameter.bare) = parameterTypes items := by
  simp [parameterTypes, Parameter.bare, TypeNode.bare]

@[simp]
theorem functionSymbol_bare (d : Definition) : functionSymbol d.bare = functionSymbol d := by
  simp [functionSymbol, Parameter.bare, TypeNode.bare]

theorem firstDefinitions_bare (seen : List String) (definitions : List Definition) :
    firstDefinitions seen (definitions.map Definition.bare) =
      (firstDefinitions seen definitions).map Definition.bare := by
  induction definitions generalizing seen with
  | nil => rfl
  | cons d definitions ih =>
    rw [List.map_cons, firstDefinitions, firstDefinitions, Definition.name_bare]
    split
    · exact ih seen
    · rw [ih, List.map_cons]

namespace Program

variable (p : Program) (d : Definition)

theorem globals_bare : p.bare.globals = p.globals := by
  simp [globals, firstDefinitions_bare]

theorem globalSymbol_bare (name : String) : p.bare.globalSymbol name = p.globalSymbol name := by
  rw [← find?_globals, globals_bare, find?_globals]

@[simp]
theorem checkedBody_bare : p.bare.checkedBody d.bare = p.checkedBody d := by
  have henv : p.bare.envIn d.bare = p.envIn d := by
    simp only [envIn, globalSymbol_bare, Definition.items_bare, List.find?_map, Option.map_map]
    rfl
  rw [checkedBody, henv]
  exact checkBody_of_bare rfl d.body

theorem annotated_bare : p.bare.annotated d.bare = p.annotated d := by
  simp only [annotated, checkedBody_bare, Definition.name_bare, Definition.items_bare,
    Definition.base_bare, parameterTypes_bare, List.map_map]
  rfl

theorem issuesIn_bare : p.bare.issuesIn d.bare = p.issuesIn d := by
  simp [issuesIn, Function.comp_def]

theorem callsIn_bare : p.bare.callsIn d.bare = p.callsIn d := by
  rw [callsIn, checkedBody_bare, callsIn]

theorem finalSymbols_bare : p.bare.finalSymbols = p.finalSymbols := by
  have hcalls : p.bare.callsOf = p.callsOf := by
    funext name
    simp only [callsOf, definitions_bare, List.filter_map, List.flatMap_map, callsIn_bare]
    rfl
  have hcallers : p.bare.callersOf = p.callersOf := by
    funext name
    rw [callersOf, globals_bare, hcalls, callersOf]
  rw [finalSymbols, hcalls, hcallers, symbolsWith, globals_bare, finalSymbols, symbolsWith]

end Program

mutual

theorem Expr.legal_bare : (e : Expr) → (e.bare.Legal ↔ e.Legal)
  | .integer .. | .boolean .. | .identifier .. => Iff.rfl
  | .unary _ _ value => by
    simp only [Expr.bare, Expr.Legal, value.legal_bare]
  | .binary _ _ left right => by
    simp only [Expr.bare, Expr.Legal, left.legal_bare, right.legal_bare]
  | .conditional _ condition consequent alternative => by
    simp only [Expr.bare, Expr.Legal, condition.legal_bare, consequent.legal_bare,
      alternative.legal_bare]
  | .call _ callee _ arguments => by
    simp only [Expr.bare, Expr.Legal, arguments.legal_bare]

theorem Arguments.legal_bare : (arguments : Arguments) → (arguments.bare.Legal ↔ arguments.Legal)
  | .nil => Iff.rfl
  | .cons _ value rest => by
    simp only [Arguments.bare, Arguments.Legal, value.legal_bare, rest.legal_bare]

end

theorem Call.isPrint_bare (c : Call) : c.bare.IsPrint ↔ c.IsPrint := by
  constructor
  · rintro ⟨hcallee, tag, value, hitems, hlegal⟩
    refine ⟨hcallee, ?_⟩
    obtain ⟨_, name, _, items⟩ := c
    -- an argument list that is one argument without annotations was one argument before
    match items, hitems with
    | .cons tag value .nil, hitems =>
      obtain ⟨-, rfl, -⟩ := Arguments.cons.inj hitems
      exact ⟨tag, value, rfl, value.legal_bare.mp hlegal⟩
  · rintro ⟨hcallee, tag, value, hitems, hlegal⟩
    refine ⟨hcallee, none, value.bare, ?_, value.legal_bare.mpr hlegal⟩
    rw [Call.bare, hitems, Arguments.bare, Arguments.bare]

theorem Definition.legal_bare (d : Definition) : d.bare.Legal ↔ d.Legal := by
  have hbody : d.body.bare.Legal ↔ d.body.Legal := by
    constructor
    · rintro ⟨hprints, hresult⟩
      exact ⟨fun c hc => c.isPrint_bare.mp (hprints _ (List.mem_map_of_mem hc)),
        d.body.result.legal_bare.mp hresult⟩
    · rintro ⟨hprints, hresult⟩
      refine ⟨List.forall_mem_map.mpr fun c hc => c.isPrint_bare.mpr (hprints c hc),
        d.body.result.legal_bare.mpr hresult⟩
  constructor
  · rintro ⟨hname, hparameters, hlegal⟩
    exact ⟨hname, fun p hp => hparameters p.bare (List.mem_map_of_mem hp), hbody.mp hlegal⟩
  · rintro ⟨hname, hparameters, hlegal⟩
    exact ⟨hname, List.forall_mem_map.mpr hparameters, hbody.mpr hlegal⟩

theorem Program.legal_bare (p : Program) : p.bare.Legal ↔ p.Legal := by
  simp only [Program.Legal, Program.definitions_bare, List.forall_mem_map, Definition.legal_bare]

namespace Analysis

variable {p q : Program}

/-- A program is analysed as if it had no annotations. -/
theorem analyze_of_bare (hlegal : p.Legal) :
    (analyze p.bare).program = (analyze p).program ∧
      (analyze p.bare).state.issues = (analyze p).state.issues ∧
      (analyze p.bare).state.table = (analyze p).state.table := by
  obtain ⟨hprogram, hissues, htable, -⟩ := analyze_eq hlegal
  obtain ⟨hprogramBare, hissuesBare, htableBare, -⟩ := analyze_eq (p.legal_bare.mpr hlegal)
  rw [hprogram, hprogramBare, hissues, hissuesBare, htable, htableBare, Program.finalSymbols_bare]
  refine ⟨?_, ?_, rfl⟩
  · simp [Program.annotated_bare]
  · simp [Program.declarationIssues, Program.issuesIn_bare, List.flatMap_map, Function.comp_def]

/-- The type that a type of the language stands for. -/
inductive Denotes : BaseType → Ty → Prop
  | integer : Denotes .integer .integer
  | boolean : Denotes .boolean .boolean

/-- A symbol with the signature of a definition: a function from the types of its parameters to the
    type that it returns, and the names and types of the parameters. -/
structure SignedBy (d : Definition) (symbol : Symbol) : Prop where
  name : symbol.name = d.name
  kind : symbol.kind = .global
  type : ∃ source target, symbol.type = .function source target ∧
    List.Forall₂ (fun parameter => Denotes parameter.type.base) d.parameters.items source ∧
    Denotes d.returnType.base target
  parameters : List.Forall₂ (fun parameter entry => entry.1 = parameter.name ∧
    Denotes parameter.type.base entry.2) d.parameters.items symbol.parameters

/-- The symbol of the function for output, which takes an integer or a boolean and has no value. -/
structure SignedAsPrint (symbol : Symbol) : Prop where
  name : symbol.name = "print"
  kind : symbol.kind = .global
  type : symbol.type = .function [.union [.integer, .boolean]] .empty
  parameters : symbol.parameters = []

/-- A scope in which the function for output and all functions of a program are bound, each once to
    the signature of its first definition, and nothing else is. -/
structure BindsFunctions (p : Program) (scope : Scope) : Prop where
  once : (scope.map Prod.fst).Nodup
  names : ∀ name, name ∈ scope.map Prod.fst ↔
    name = "print" ∨ name ∈ p.definitions.map (·.name)
  print : ∃ symbol, ("print", symbol) ∈ scope ∧ SignedAsPrint symbol
  first : ∀ before d after, p.definitions = before ++ d :: after →
    d.name ∉ before.map (·.name) → ∃ symbol, (d.name, symbol) ∈ scope ∧ SignedBy d symbol

theorem denotes_ty (t : BaseType) : Denotes t t.ty := by
  cases t
  · exact .integer
  · exact .boolean

/-- What is noted about calls is not part of a signature. -/
theorem signedBy_functionSymbol (d : Definition) (calls callers : List String) :
    SignedBy d { functionSymbol d with calls, callers } where
  name := rfl
  kind := rfl
  type := by
    refine ⟨_, _, rfl, ?_, denotes_ty _⟩
    rw [parameterTypes, List.forall₂_map_right_iff, List.forall₂_same]
    exact fun parameter _ => denotes_ty _
  parameters := by
    rw [functionSymbol, List.forall₂_map_right_iff, List.forall₂_same]
    exact fun parameter _ => ⟨rfl, denotes_ty _⟩

/-- An analysis leaves one scope, in which each name is bound once, to what was declared first. -/
theorem exists_scope_analyze (hlegal : p.Legal) :
    ∃ scope, (analyze p).state.table.scopes = [scope] ∧ BindsFunctions p scope := by
  obtain ⟨-, -, htable, -⟩ := analyze_eq hlegal
  rw [htable]
  refine ⟨p.finalSymbols.map fun symbol => (symbol.name, symbol), rfl, ?_⟩
  have hnames : (p.finalSymbols.map fun symbol => (symbol.name, symbol)).map Prod.fst =
      p.globals.map (·.name) := by
    simp [Program.finalSymbols, Program.symbolsWith, Function.comp_def]
  have hbound : ∀ symbol ∈ p.globals, (symbol.name, { symbol with
      calls := p.callsOf symbol.name, callers := p.callersOf symbol.name }) ∈
        p.finalSymbols.map fun symbol => (symbol.name, symbol) := fun symbol hsymbol =>
    List.mem_map.mpr ⟨_, List.mem_map_of_mem hsymbol, rfl⟩
  constructor
  case once =>
    rw [hnames]
    exact nodup_globals hlegal
  case names =>
    intro name
    rw [hnames, Program.globals, List.map_cons, List.map_map, List.mem_cons,
      ← mem_map_firstDefinitions]
    rfl
  case print => exact ⟨_, hbound printSymbol (by simp [Program.globals]), rfl, rfl, rfl, rfl⟩
  case first =>
    intro before d after hsplit hfirst
    have hd := List.mem_map_of_mem (f := functionSymbol) (mem_firstDefinitions hsplit hfirst)
    exact ⟨_, hbound _ (List.mem_cons_of_mem _ hd), signedBy_functionSymbol d _ _⟩

/-- The analysis of a program that was parsed ends, whatever annotations its tree has by then. It
    fails only if it found errors, and for no other reason. It leaves one scope, in which `print`
    and the functions are bound to the signatures of their first definitions, and a tree that is the
    parsed one with all annotations set. None of this depends on the annotations before. -/
theorem analyze_whatever_tags {text : String} {p q : Program} (hparse : parse text = .ok p)
    (hsame : q.bare = p.bare) :
    (analyze q).error = (if (analyze q).state.issues.any Issue.isError
        then some (.issues (errorCount (analyze q).state.issues)) else none) ∧
      (∃ scope, (analyze q).state.table.scopes = [scope] ∧ BindsFunctions p scope) ∧
      ((analyze q).program.bare = p.bare ∧ ∀ tag ∈ (analyze q).program.tags, tag.isSome = true) ∧
      (analyze q).state.issues = (analyze p).state.issues ∧
      (analyze q).program = (analyze p).program ∧
      (analyze q).state.table = (analyze p).state.table := by
  have hlegal := Parser.legal_of_parse hparse
  have hlegalSame : q.Legal := by
    rw [← q.legal_bare, hsame, p.legal_bare]
    exact hlegal
  obtain ⟨hprogram, -, -, herror⟩ := analyze_eq hlegalSame
  -- both trees are analysed as the one without annotations
  obtain ⟨hprogramBare, hissuesBare, htableBare⟩ := analyze_of_bare hlegal
  obtain ⟨hprogramSame, hissuesSame, htableSame⟩ := analyze_of_bare hlegalSame
  rw [hsame] at hprogramSame hissuesSame htableSame
  have htable := htableSame.symm.trans htableBare
  refine ⟨?_, ?_, ⟨(analyze_bare q).trans hsame, ?_⟩, hissuesSame.symm.trans hissuesBare,
    hprogramSame.symm.trans hprogramBare, htable⟩
  · have hcount : errorCount (analyze q).state.issues = 0 ↔
        ¬ (analyze q).state.issues.any Issue.isError = true := by
      simp [errorCount, List.countP_eq_zero]
    simp only [herror, hcount, ite_not]
  · rw [htable]
    exact exists_scope_analyze hlegal
  · rw [hprogram, Program.tags, List.forall_mem_flatMap, List.forall_mem_map]
    exact fun d _ => annotated_tags q d

/-- A program with a function and a parameter that are defined twice, which is analysed again. -/
theorem analyze_whatever_tags_again :
    ∃ p scope, parse "function f(a:integer, a:boolean):integer print(b) g(a, f(true))
        function f():boolean a" = .ok p ∧
      (analyze (analyze p).program).error = some (.issues 10) ∧
      (analyze (analyze p).program).state.table.scopes = [scope] ∧ BindsFunctions p scope ∧
      (analyze (analyze p).program).state.issues = (analyze p).state.issues ∧
      (analyze (analyze p).program).program = (analyze p).program ∧
      (analyze (analyze p).program).state.table = (analyze p).state.table := by
  have hanalysed : ∃ p, parse "function f(a:integer, a:boolean):integer print(b) g(a, f(true))
        function f():boolean a" = .ok p ∧ errorCount (analyze p).state.issues = 10 ∧
        (analyze p).state.issues.any Issue.isError = true := by
    apply exists_ok_of_any
    decide +kernel
  obtain ⟨p, hparse, hcount, herror⟩ := hanalysed
  obtain ⟨hfails, ⟨scope, hscopes, hbinds⟩, -, hissues, hsame⟩ :=
    analyze_whatever_tags hparse (analyze_bare p)
  rw [hissues, herror, if_pos rfl, hcount] at hfails
  exact ⟨p, scope, hparse, hfails, hscopes, hbinds, hissues, hsame⟩

end Analysis

end Klein
