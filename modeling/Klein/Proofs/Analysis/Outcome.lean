import Klein.Proofs.Analysis.Globals

namespace Klein

open Analysis

/-- A symbol without what was noted about calls. -/
def Symbol.declaration (symbol : Symbol) : Symbol :=
  { symbol with calls := [], callers := [] }

namespace Analysis

section Verdicts

variable {env : Env}

theorem judgeOperands_cases (place : Option String) (form : Form) (wanted result : Ty)
    (operands : List (String × Ty)) :
    judgeOperands place form wanted result operands = ⟨result, {}⟩ ∨
      ∃ issue, issue.isError = true ∧
        judgeOperands place form wanted result operands = .wrong issue := by
  induction operands with
  | nil => exact .inl rfl
  | cons operand operands ih =>
    rw [judgeOperands]
    split
    · exact ih
    · exact .inr ⟨_, rfl, rfl⟩

theorem judgeArguments_cases (place : Option String) (callee : String) (wanted found : List Ty)
    (result : Ty) :
    judgeArguments place callee wanted found result = ⟨result, {}⟩ ∨
      ∃ issue, issue.isError = true ∧
        judgeArguments place callee wanted found result = .wrong issue := by
  unfold judgeArguments
  split
  · exact .inl rfl
  · split
    · exact .inr ⟨_, rfl, rfl⟩
    · split
      · exact .inr ⟨_, rfl, rfl⟩
      · exact .inr ⟨_, rfl, rfl⟩

theorem judgeIdentifier_cases (hinside : env.inFunction = true) (name : String) :
    (∃ symbol, env.resolve name = some symbol ∧
        judgeIdentifier env name = ⟨symbol.type, { used := [name] }⟩) ∨
      ∃ issue, issue.isError = true ∧ judgeIdentifier env name = .wrong issue := by
  unfold judgeIdentifier
  cases hresolve : env.resolve name with
  | none => exact .inr ⟨_, rfl, rfl⟩
  | some symbol =>
    dsimp only
    split
    · exact .inr ⟨_, rfl, rfl⟩
    · exact .inl ⟨symbol, rfl, by rw [if_pos hinside]⟩

/-- A call of a function that can be seen is noted, whatever its arguments are. -/
theorem judgeCall_cases (hinside : env.inFunction = true) (callee : String) (found : List Ty) :
    (∃ symbol wanted result, env.resolve callee = some symbol ∧
        symbol.type = .function wanted result ∧
        (judgeCall env callee found).type =
          (judgeArguments env.place callee wanted found result).type ∧
        (judgeCall env callee found).findings = { calls := [symbol.name] } ++
          (judgeArguments env.place callee wanted found result).findings) ∨
      ∃ issue, issue.isError = true ∧ judgeCall env callee found = .wrong issue := by
  unfold judgeCall
  cases hresolve : env.resolve callee with
  | none => exact .inr ⟨_, rfl, rfl⟩
  | some symbol =>
    dsimp only
    split
    · rename_i wanted result htype
      rw [if_pos hinside]
      exact .inl ⟨symbol, wanted, result, rfl, htype, rfl, rfl⟩
    · exact .inr ⟨_, rfl, rfl⟩

end Verdicts

-- Inside a function nothing ends in a fault, so every part is checked and every node annotated.
section Inside

variable {α : Type} {env : Env}

theorem Findings.issues_append {first second : Findings} (hfault : first.fault = none) :
    (first ++ second).issues = first.issues ++ second.issues := by
  change (first.append second).issues = _
  simp [append, hfault]

theorem conclude_of_regular {old : Tag} {build : Tag → α} {before : Findings} {verdict : Verdict}
    (hbefore : before.Regular env) (hverdict : verdict.findings.Regular env) :
    conclude old build before verdict =
      ⟨build (some verdict.type), verdict.type, before ++ verdict.findings⟩ := by
  simp [conclude, (hbefore.append hverdict).fault]

theorem Checked.after_of_regular {checked : Checked α} {old : α} {before : Findings}
    (hbefore : before.Regular env) :
    checked.after old before = { checked with findings := before ++ checked.findings } := by
  simp [Checked.after, hbefore.fault]

variable (hinside : env.inFunction = true) (tag listTag : Tag)
include hinside

theorem checkExpr_identifier (name : String) :
    checkExpr env (.identifier tag name) =
      ⟨.identifier (some (judgeIdentifier env name).type) name, (judgeIdentifier env name).type,
        (judgeIdentifier env name).findings⟩ := by
  rw [checkExpr, conclude_of_regular Findings.regular_empty (judgeIdentifier_regular hinside name)]
  rfl

theorem checkExpr_unary (op : UnaryOp) (value : Expr) :
    checkExpr env (.unary tag op value) =
      let v := checkExpr env value
      let verdict := judgeUnary env.place op v.type
      ⟨.unary (some verdict.type) op v.tree, verdict.type, v.findings ++ verdict.findings⟩ := by
  rw [checkExpr, conclude_of_regular (checkExpr_regular hinside value) (judgeUnary_regular ..)]

theorem checkExpr_binary (op : BinaryOp) (left right : Expr) :
    checkExpr env (.binary tag op left right) =
      let l := checkExpr env left
      let r := checkExpr env right
      let verdict := judgeBinary env.place op l.type r.type
      ⟨.binary (some verdict.type) op l.tree r.tree, verdict.type,
        l.findings ++ r.findings ++ verdict.findings⟩ := by
  have hleft := checkExpr_regular hinside left
  have hright := checkExpr_regular hinside right
  simp only [checkExpr, Checked.after_of_regular hleft]
  exact conclude_of_regular (hleft.append hright) (judgeBinary_regular ..)

theorem checkExpr_conditional (condition consequent alternative : Expr) :
    checkExpr env (.conditional tag condition consequent alternative) =
      let c := checkExpr env condition
      let t := checkExpr env consequent
      let e := checkExpr env alternative
      let verdict := judgeConditional env.place c.type t.type e.type
      ⟨.conditional (some verdict.type) c.tree t.tree e.tree, verdict.type,
        c.findings ++ t.findings ++ e.findings ++ verdict.findings⟩ := by
  have hcondition := checkExpr_regular hinside condition
  have hconsequent := hcondition.append (checkExpr_regular hinside consequent)
  have halternative := hconsequent.append (checkExpr_regular hinside alternative)
  simp only [checkExpr, Checked.after_of_regular hcondition, Checked.after_of_regular hconsequent]
  exact conclude_of_regular halternative (judgeOperands_regular ..)

theorem checkExpr_call (callee : String) (arguments : Arguments) :
    checkExpr env (.call tag callee listTag arguments) =
      let a := checkArguments env arguments
      let verdict := judgeCall env callee a.types
      ⟨.call (some verdict.type) callee (some (.sequence a.types)) a.tree, verdict.type,
        a.findings ++ verdict.findings⟩ := by
  have harguments := checkArguments_regular hinside arguments
  simp only [checkExpr, harguments.fault, Option.isSome_none, Bool.false_eq_true, if_false]
  exact conclude_of_regular harguments (judgeCall_regular hinside ..)

theorem checkArguments_cons (value : Expr) (rest : Arguments) :
    checkArguments env (.cons tag value rest) =
      let v := checkExpr env value
      let others := checkArguments env rest
      ⟨.cons (some v.type) v.tree others.tree, v.type :: others.types,
        v.findings ++ others.findings⟩ := by
  simp [checkArguments, (checkExpr_regular hinside value).fault]

/-- Each expression is annotated with what it came to. -/
theorem checkExpr_tag (e : Expr) : (checkExpr env e).tree.tag = some (checkExpr env e).type := by
  cases e with
  | integer | boolean => rfl
  | identifier => rw [checkExpr_identifier hinside]; rfl
  | unary => rw [checkExpr_unary hinside]; rfl
  | binary => rw [checkExpr_binary hinside]; rfl
  | conditional => rw [checkExpr_conditional hinside]; rfl
  | call => rw [checkExpr_call hinside]; rfl

theorem length_checkArguments (arguments : Arguments) :
    (checkArguments env arguments).types.length = arguments.toList.length := by
  fun_induction Arguments.toList arguments with
  | case1 => rfl
  | case2 tag value rest ih =>
    rw [checkArguments_cons hinside, List.length_cons, ih, List.length_cons]

omit hinside in
/-- A call made for its output is checked as the expression that it is. -/
theorem checkCall_eq (c : Call) :
    (checkCall env c).tree.toExpr = (checkExpr env c.toExpr).tree ∧
      (checkCall env c).findings = (checkExpr env c.toExpr).findings := by
  constructor <;> rfl

theorem checkCalls_cons (c : Call) (calls : List Call) :
    checkCalls env (c :: calls) =
      ⟨(checkCall env c).tree :: (checkCalls env calls).tree,
        (checkCall env c).findings ++ (checkCalls env calls).findings⟩ := by
  have hcall : (checkCall env c).findings.Regular env := by
    rw [(checkCall_eq c).2]
    exact checkExpr_regular hinside _
  simp [checkCalls, hcall.fault]

theorem checkBody_eq (b : Body) :
    checkBody env b =
      ⟨⟨some (checkExpr env b.result).type, (checkCalls env b.prints).tree,
          (checkExpr env b.result).tree⟩, (checkExpr env b.result).type,
        (checkCalls env b.prints).findings ++ (checkExpr env b.result).findings ++ {}⟩ := by
  have hprints := checkCalls_regular hinside b.prints
  have hresult := checkExpr_regular hinside b.result
  simp only [checkBody, Checked.after_of_regular hprints]
  exact conclude_of_regular (hprints.append hresult) Findings.regular_empty

end Inside

structure Env.Alike (env other : Env) : Prop where
  place : env.place = other.place
  inFunction : env.inFunction = other.inFunction
  declared : ∀ name, (env.resolve name).map Symbol.declaration =
    (other.resolve name).map Symbol.declaration

variable {env other : Env}

/-- A name stands for symbols of the same name and type. -/
theorem Env.Alike.resolve (h : env.Alike other) (name : String) :
    (env.resolve name = none ∧ other.resolve name = none) ∨
      ∃ symbol twin, env.resolve name = some symbol ∧ other.resolve name = some twin ∧
        symbol.name = twin.name ∧ symbol.type = twin.type := by
  have hdeclared := h.declared name
  cases hsymbol : env.resolve name with
  | none =>
    cases htwin : other.resolve name with
    | none => exact .inl ⟨rfl, rfl⟩
    | some twin => simp [hsymbol, htwin] at hdeclared
  | some symbol =>
    cases htwin : other.resolve name with
    | none => simp [hsymbol, htwin] at hdeclared
    | some twin =>
      have hsame : symbol.declaration = twin.declaration := by
        simpa [hsymbol, htwin] using hdeclared
      exact .inr ⟨symbol, twin, rfl, rfl, congrArg (·.name) hsame, congrArg (·.type) hsame⟩

theorem judgeIdentifier_congr (h : env.Alike other) (name : String) :
    judgeIdentifier env name = judgeIdentifier other name := by
  unfold judgeIdentifier
  rcases h.resolve name with ⟨hnone, hother⟩ | ⟨symbol, twin, hsymbol, htwin, hname, htype⟩
  · simp only [hnone, hother, h.place]
  · simp only [hsymbol, htwin, hname, htype, h.place, h.inFunction]

theorem judgeCall_congr (h : env.Alike other) (callee : String) (found : List Ty) :
    judgeCall env callee found = judgeCall other callee found := by
  unfold judgeCall
  rcases h.resolve callee with ⟨hnone, hother⟩ | ⟨symbol, twin, hsymbol, htwin, hname, htype⟩
  · simp only [hnone, hother, h.place]
  · simp only [hsymbol, htwin, hname, htype, h.place, h.inFunction]

mutual

/-- An expression is checked by the declarations of names. -/
theorem checkExpr_congr (h : env.Alike other) : (e : Expr) → checkExpr env e = checkExpr other e
  | .integer .. | .boolean .. => rfl
  | .identifier tag name => by
    simp only [checkExpr, judgeIdentifier_congr h]
  | .unary tag op value => by
    simp only [checkExpr, checkExpr_congr h value, h.place]
  | .binary tag op left right => by
    simp only [checkExpr, checkExpr_congr h left, checkExpr_congr h right, h.place]
  | .conditional tag condition consequent alternative => by
    simp only [checkExpr, checkExpr_congr h condition, checkExpr_congr h consequent,
      checkExpr_congr h alternative, h.place]
  | .call tag callee listTag arguments => by
    simp only [checkExpr, checkArguments_congr h arguments, judgeCall_congr h]

theorem checkArguments_congr (h : env.Alike other) :
    (arguments : Arguments) → checkArguments env arguments = checkArguments other arguments
  | .nil => rfl
  | .cons tag value rest => by
    simp only [checkArguments, checkExpr_congr h value, checkArguments_congr h rest]

end

theorem checkCalls_congr (h : env.Alike other) (calls : List Call) :
    checkCalls env calls = checkCalls other calls := by
  induction calls with
  | nil => rfl
  | cons c calls ih =>
    have hcall : checkCall env c = checkCall other c := by
      simp only [checkCall, checkArguments_congr h, judgeCall_congr h]
    simp only [checkCalls, hcall, ih]

theorem checkBody_congr (h : env.Alike other) (b : Body) : checkBody env b = checkBody other b := by
  simp only [checkBody, checkCalls_congr h, checkExpr_congr h]

end Analysis

namespace Program

variable (p : Program) (d : Definition)

/-- What the body of a definition is checked in. -/
def envIn : Env where
  resolve name :=
    ((d.parameters.items.find? (·.name = name)).map parameterSymbol).or (p.globalSymbol name)
  place := some d.name
  inFunction := true

/-- The body of a definition after its check. -/
def checkedBody : Checked Body :=
  checkBody (p.envIn d) d.body

/-- A definition with all its annotations. -/
def annotated : Definition where
  tag := some (.function (parameterTypes d.parameters.items) d.returnType.base.ty)
  name := d.name
  parameters :=
    ⟨some (.sequence (parameterTypes d.parameters.items)), d.parameters.items.map checkParameter⟩
  returnType := checkType d.returnType
  body := (p.checkedBody d).tree

/-- The issues of a definition: those of its parameters, those of its body, and what it does with
    its parameters and its value. -/
def issuesIn : List Issue :=
  (repeated [] (d.parameters.items.map (·.name))).map (.duplicateParameter (some d.name)) ++
    ((p.checkedBody d).findings.issues ++
      ((unusedParameters (d.parameters.items.map (·.name)) (p.checkedBody d).findings.used).map
          (.unusedParameter (some d.name)) ++
        if (p.checkedBody d).type.agrees d.returnType.base.ty then []
        else [.wrongResult d.name d.returnType.base.ty (p.checkedBody d).type]))

/-- The functions that a definition calls, in the order of the calls. -/
def callsIn : List String :=
  (p.checkedBody d).findings.calls

/-- The symbols of a program with what was noted about calls. -/
def symbolsWith (calls callers : String → List String) : List Symbol :=
  p.globals.map fun symbol =>
    { symbol with calls := calls symbol.name, callers := callers symbol.name }

end Program

variable {p : Program} {d : Definition} {name : String} {calls callers : String → List String}

/-- Before anything is known of calls. -/
theorem symbolsWith_nothing (p : Program) :
    p.symbolsWith (fun _ => []) (fun _ => []) = p.globals := by
  refine (List.map_congr_left fun symbol hsymbol => ?_).trans (List.map_id _)
  rcases List.mem_cons.mp hsymbol with rfl | hsymbol
  · rfl
  · obtain ⟨d, -, rfl⟩ := List.mem_map.mp hsymbol
    rfl

theorem lookup_symbolsWith (p : Program) (calls callers : String → List String) (name : String) :
    (SymbolTable.ofSymbols (p.symbolsWith calls callers)).lookup name =
      (p.globalSymbol name).map fun symbol =>
        { symbol with calls := calls symbol.name, callers := callers symbol.name } := by
  rw [SymbolTable.lookup_ofSymbols, Program.symbolsWith, List.find?_map, ← Program.find?_globals]
  rfl

theorem declaration_globalSymbol (p : Program) (name : String) :
    (p.globalSymbol name).map Symbol.declaration = p.globalSymbol name := by
  rw [Program.globalSymbol]
  split
  · rfl
  · rw [Option.map_map]
    rfl

/-- What is noted about calls does not change what is declared. -/
theorem declared_symbolsWith (p : Program) (calls callers : String → List String) (name : String) :
    ((SymbolTable.ofSymbols (p.symbolsWith calls callers)).lookup name).map Symbol.declaration =
      p.globalSymbol name := by
  rw [lookup_symbolsWith, Option.map_map]
  exact declaration_globalSymbol p name

theorem modify_addCall (p : Program) (calls callers : String → List String) (name callee : String) :
    (SymbolTable.ofSymbols (p.symbolsWith calls callers)).modify name (·.addCall callee) =
      .ofSymbols (p.symbolsWith (Function.update calls name (insertName callee (calls name)))
        callers) := by
  rw [SymbolTable.modify_ofSymbols (f := (·.addCall callee)) fun _ => rfl, Program.symbolsWith,
    List.map_map]
  congr 1
  refine List.map_congr_left fun symbol _ => ?_
  by_cases hname : symbol.name = name
  · simp [hname, Symbol.addCall]
  · simp [hname]

theorem modify_addCaller (p : Program) (calls callers : String → List String)
    (name caller : String) :
    (SymbolTable.ofSymbols (p.symbolsWith calls callers)).modify name (·.addCaller caller) =
      .ofSymbols (p.symbolsWith calls
        (Function.update callers name (insertName caller (callers name)))) := by
  rw [SymbolTable.modify_ofSymbols (f := (·.addCaller caller)) fun _ => rfl, Program.symbolsWith,
    List.map_map]
  congr 1
  refine List.map_congr_left fun symbol _ => ?_
  by_cases hname : symbol.name = name
  · simp [hname, Symbol.addCaller]
  · simp [hname]

/-- Noting the calls of a function. -/
theorem foldl_addCall (p : Program) (calls callers : String → List String) (name : String)
    (more : List String) :
    more.foldl (fun t callee => t.modify name (·.addCall callee))
        (SymbolTable.ofSymbols (p.symbolsWith calls callers)) =
      .ofSymbols (p.symbolsWith (Function.update calls name (insertNames (calls name) more))
        callers) := by
  induction more generalizing calls with
  | nil => simp [insertNames]
  | cons callee more ih =>
    rw [List.foldl_cons, modify_addCall, ih]
    simp [insertNames]

/-- Entering a function into the symbols of those that it calls. -/
theorem addCallers_symbolsWith (caller : String) {more : List String} {table : SymbolTable}
    (hcallers : (SymbolTable.ofSymbols (p.symbolsWith calls callers)).addCallers caller more =
      (table, none)) :
    table = .ofSymbols (p.symbolsWith calls fun name =>
      insertNames (callers name) ((more.filter (· = name)).map fun _ => caller)) := by
  induction more generalizing callers with
  | nil => simpa [SymbolTable.addCallers, insertNames] using (Prod.mk.inj hcallers).1.symm
  | cons callee more ih =>
    rw [SymbolTable.addCallers] at hcallers
    split at hcallers
    · cases hcallers
    · rw [modify_addCaller] at hcallers
      rw [ih hcallers]
      congr 2
      funext name
      by_cases hname : callee = name
      · subst hname
        simp [insertNames]
      · simp [hname, Function.update_of_ne (Ne.symm hname)]

theorem updateCallersOf_symbolsWith {symbols : List Symbol} {table : SymbolTable}
    (hcallers : (SymbolTable.ofSymbols (p.symbolsWith calls callers)).updateCallersOf symbols =
      (table, none)) :
    table = .ofSymbols (p.symbolsWith calls fun name =>
      insertNames (callers name) (symbols.flatMap fun symbol =>
        (symbol.calls.filter (· = name)).map fun _ => symbol.name)) := by
  induction symbols generalizing callers with
  | nil => simpa [SymbolTable.updateCallersOf, insertNames] using (Prod.mk.inj hcallers).1.symm
  | cons symbol symbols ih =>
    rw [SymbolTable.updateCallersOf] at hcallers
    split at hcallers
    · rename_i first hfirst
      rw [addCallers_symbolsWith symbol.name hfirst] at hcallers
      rw [ih hcallers]
      simp only [List.flatMap_cons, insertNames_append]
    · cases hcallers

namespace Analysis

variable {s : State}

/-- Checking parameters annotates them and reports the names that are repeated. -/
theorem checkParametersFrom_eq {parameters : List Parameter} {seen : List String}
    (hfault : (checkParametersFrom seen s parameters).fault = none) :
    (checkParametersFrom seen s parameters).tree = parameters.map checkParameter ∧
      (checkParametersFrom seen s parameters).state.place = s.place ∧
      (checkParametersFrom seen s parameters).state.issues = s.issues ++
        (repeated seen (parameters.map (·.name))).map (.duplicateParameter s.place) := by
  induction parameters generalizing s seen with
  | nil => simp [checkParametersFrom, repeated]
  | cons q parameters ih =>
    rw [checkParametersFrom] at hfault ⊢
    simp only [List.map_cons, repeated]
    by_cases hseen : q.name ∈ seen
    · simp only [List.contains_iff_mem, hseen, if_true] at hfault ⊢
      obtain ⟨htree, hplace, hissues⟩ := ih hfault
      refine ⟨by rw [htree], hplace, ?_⟩
      simp only [hissues, issues_report, List.map_cons, List.append_assoc, List.cons_append,
        List.nil_append]
      rfl
    · simp only [List.contains_iff_mem, hseen, if_false] at hfault ⊢
      split at hfault
      · cases hfault
      · obtain ⟨htree, hplace, hissues⟩ := ih hfault
        exact ⟨by rw [htree], hplace, hissues⟩

/-- The state in which the scopes of a definition have been left again. -/
def State.outside (s : State) (d : Definition) : State :=
  { s.inside d with table := (s.inside d).table.leave.leave }

/-- What checking a definition comes to if its name is bound. -/
theorem checkDefinition_of_bound (hbound : (s.table.lookup d.name).isSome = true) :
    checkDefinition s d =
      { tree :=
          { tag := some (.function (parameterTypes d.parameters.items) d.returnType.base.ty)
            name := d.name
            parameters := ⟨some (.sequence (parameterTypes d.parameters.items)),
              (parametersOutcome s d).tree⟩
            returnType := checkType d.returnType
            body := (bodyOutcome s d).tree }
        state :=
          (((((s.outside d).report (bodyOutcome s d).findings.issues).report
            ((unusedParameters (d.parameters.items.map (·.name))
              (bodyOutcome s d).findings.used).map (.unusedParameter (some d.name)))).addUsed
            (bodyOutcome s d).findings.used).addCalls (bodyOutcome s d).findings.calls).report
            (if (bodyOutcome s d).type.agrees d.returnType.base.ty then []
              else [.wrongResult d.name d.returnType.base.ty (bodyOutcome s d).type]) } := by
  have hparameters : (checkParametersFrom [] { s with place := some d.name, table := s.table.enter }
      d.parameters.items).fault = none := parametersOutcome_no_fault s d
  have hbody := (bodyOutcome_regular s d).fault
  unfold checkDefinition
  rw [if_neg (by simpa using Option.isSome_iff_ne_none.mp hbound)]
  simp only [checkParameters, hparameters, Option.isSome_none, Bool.false_eq_true, if_false]
  split
  · rename_i fault hfault
    exact absurd (hfault.symm.trans hbody) (by simp)
  · rfl

/-- Inside a definition names are declared by its parameters and by the program. -/
theorem inside_alike (d : Definition)
    (htable : s.table = .ofSymbols (p.symbolsWith calls callers)) :
    (s.inside d).env.Alike (p.envIn d) where
  place := (checkParametersFrom_eq (parametersOutcome_no_fault s d)).2.1
  inFunction := rfl
  declared name := by
    change ((s.inside d).table.lookup name).map _ = _
    rw [lookup_inside (parametersOutcome_no_fault s d), Option.map_or, htable,
      declared_symbolsWith, Program.envIn, Option.map_or, declaration_globalSymbol]

/-- A definition is checked by what the program declares, and the functions that it calls are
    noted. -/
theorem checkDefinition_eq (htable : s.table = .ofSymbols (p.symbolsWith calls callers))
    (hbound : (p.globalSymbol d.name).isSome = true) :
    (checkDefinition s d).tree = p.annotated d ∧
      (checkDefinition s d).state.issues = s.issues ++ p.issuesIn d ∧
      (checkDefinition s d).state.table = .ofSymbols (p.symbolsWith
        (Function.update calls d.name (insertNames (calls d.name) (p.callsIn d))) callers) := by
  have hlookup : (s.table.lookup d.name).isSome = true := by
    rw [htable, lookup_symbolsWith, Option.isSome_map]
    exact hbound
  have hbody : bodyOutcome s d = p.checkedBody d := checkBody_congr (inside_alike d htable) d.body
  obtain ⟨hparameters, -, hissues⟩ := checkParametersFrom_eq (parametersOutcome_no_fault s d)
  rw [checkDefinition_of_bound hlookup, hbody]
  refine ⟨?_, ?_, ?_⟩
  · rw [Program.annotated, ← hparameters]
    rfl
  · have hinside : (s.outside d).issues = s.issues ++
        (repeated [] (d.parameters.items.map (·.name))).map (.duplicateParameter (some d.name)) :=
      hissues
    simp only [issues_report, issues_addCalls, issues_addUsed, hinside, Program.issuesIn,
      List.append_assoc]
  · have hleft : (s.outside d).table = .ofSymbols (p.symbolsWith calls callers) :=
      (inside_keeps (parametersOutcome_no_fault s d)).1.trans htable
    rw [← foldl_addCall, ← hleft]
    rfl

theorem checkDefinitions_eq {definitions : List Definition}
    (htable : s.table = .ofSymbols (p.symbolsWith calls callers))
    (hbound : ∀ d ∈ definitions, (p.globalSymbol d.name).isSome = true) :
    (checkDefinitions s definitions).tree = definitions.map p.annotated ∧
      (checkDefinitions s definitions).state.issues =
        s.issues ++ definitions.flatMap p.issuesIn ∧
      (checkDefinitions s definitions).state.table = .ofSymbols (p.symbolsWith
        (fun name => insertNames (calls name)
          ((definitions.filter (·.name = name)).flatMap p.callsIn)) callers) := by
  induction definitions generalizing s calls with
  | nil => simp [checkDefinitions, insertNames, htable]
  | cons d definitions ih =>
    have hd := hbound d (by simp)
    obtain ⟨htree, hissues, hafter⟩ := checkDefinition_eq htable hd
    obtain ⟨htrees, hothers, hlast⟩ := ih hafter fun e he => hbound e (by simp [he])
    have hnone : (checkDefinition s d).fault = none := by
      refine checkDefinition_no_fault ?_
      rw [SymbolTable.typeOf, htable, lookup_symbolsWith, Option.isSome_map, Option.isSome_map]
      exact hd
    simp only [checkDefinitions, hnone]
    refine ⟨by rw [htrees, htree, List.map_cons], ?_, ?_⟩
    · rw [hothers, hissues, List.flatMap_cons, List.append_assoc]
    · rw [hlast]
      congr 2
      funext name
      by_cases hname : d.name = name
      · subst hname
        simp [insertNames_append]
      · simp [hname, Function.update_of_ne (Ne.symm hname)]

end Analysis

namespace Program

variable (p : Program)

/-- The functions that are called in the definitions of a name. -/
def callsOf (name : String) : List String :=
  sortedNames ((p.definitions.filter (·.name = name)).flatMap p.callsIn)

/-- The functions in whose definitions a function is called. -/
def callersOf (name : String) : List String :=
  sortedNames ((p.globals.filter fun symbol => name ∈ p.callsOf symbol.name).map (·.name))

/-- The symbols of a program after its analysis. -/
def finalSymbols : List Symbol :=
  p.symbolsWith p.callsOf p.callersOf

end Program

/-- Each defined function has a symbol. -/
theorem isSome_globalSymbol (hlegal : p.Legal) (hd : d ∈ p.definitions) :
    (p.globalSymbol d.name).isSome = true := by
  rw [Program.globalSymbol, if_neg (hlegal d hd).name.ne_print, Option.isSome_map,
    List.find?_isSome]
  exact ⟨d, hd, by simp⟩

/-- What the analysis of a program whose names can be written comes to: all its definitions are
    annotated, the issues are those of the declarations and the definitions in order, and the table
    holds the declared symbols with their calls. It is rejected if there is an error among the
    issues. -/
theorem analyze_eq (hlegal : p.Legal) :
    (analyze p).program = ⟨p.definitions.map p.annotated⟩ ∧
      (analyze p).state.issues = p.declarationIssues ++ p.definitions.flatMap p.issuesIn ++
        unusedFunctions (.ofSymbols p.finalSymbols) ∧
      (analyze p).state.table = .ofSymbols p.finalSymbols ∧
      (analyze p).error = if errorCount (analyze p).state.issues = 0 then none
        else some (.issues (errorCount (analyze p).state.issues)) := by
  obtain ⟨s, hdeclare, -, hprogram, hissues, hcallers, herror⟩ := analyze_of_legal hlegal
  obtain ⟨htable, hdeclared⟩ := declare_eq hlegal hdeclare
  rw [← symbolsWith_nothing] at htable
  obtain ⟨htree, hfound, hafter⟩ :=
    checkDefinitions_eq htable fun d hd => isSome_globalSymbol hlegal hd
  have hfinal : (analyze p).state.table = .ofSymbols p.finalSymbols := by
    -- the callers were entered symbol by symbol, and only the set of them counts
    rw [hafter, SymbolTable.updateCallers, SymbolTable.symbols_ofSymbols] at hcallers
    rw [updateCallersOf_symbolsWith hcallers, Program.finalSymbols]
    congr 2
    funext name
    refine sortedNames_congr fun caller => ?_
    simp only [Program.symbolsWith, List.mem_flatMap, List.mem_map, List.mem_filter,
      decide_eq_true_eq, exists_exists_and_eq_and]
    constructor
    · rintro ⟨symbol, hsymbol, callee, ⟨hcallee, rfl⟩, rfl⟩
      exact ⟨symbol, ⟨hsymbol, hcallee⟩, rfl⟩
    · rintro ⟨symbol, ⟨hsymbol, hcallee⟩, rfl⟩
      exact ⟨symbol, hsymbol, name, ⟨hcallee, rfl⟩, rfl⟩
  refine ⟨by rw [hprogram, htree], ?_, hfinal, herror⟩
  rw [hissues, hfound, hdeclared, hfinal]

end Klein
