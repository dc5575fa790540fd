import Klein.Proofs.Analysis.Signatures

namespace Klein

namespace SymbolTable

variable {t after : SymbolTable} {name other : String} {symbol : Symbol}

/-- A name that is free in the innermost scope can be bound there. -/
theorem exists_bind (hfree : t.lookupCurrent name = .ok none) (symbol : Symbol) :
    ∃ after, t.bind name symbol = .ok after ∧
      ∀ other, other ≠ name → after.lookupCurrent other = t.lookupCurrent other := by
  obtain ⟨scopes⟩ := t
  cases scopes with
  | nil => cases hfree
  | cons scope rest =>
    have hscope : scope.lookup name = none := by simpa [lookupCurrent] using hfree
    refine ⟨⟨(scope ++ [(name, symbol)]) :: rest⟩, by simp [bind, hscope], fun other hother => ?_⟩
    have hnone : List.lookup other [(name, symbol)] = none := by
      simp [List.lookup_cons, beq_eq_false_iff_ne.mpr hother]
    simp only [lookupCurrent, List.lookup_append, hnone, Option.or_none]

theorem mem_symbols_bind (hbind : t.bind name symbol = .ok after) {found : Symbol}
    (hfound : found ∈ after.symbols) : found ∈ t.symbols ∨ found = symbol := by
  obtain ⟨scopes⟩ := t
  cases scopes with
  | nil => simp [bind] at hbind
  | cons scope rest =>
    simp only [bind] at hbind
    split at hbind
    · cases hbind
    · cases hbind
      simpa [symbols, or_assoc] using hfound

private theorem mem_modifyScope {f : Symbol → Symbol} {scope : Scope} {found : Symbol}
    (hfound : found ∈ (modifyScope name f scope).map Prod.snd) :
    ∃ old ∈ scope.map Prod.snd, found = old ∨ found = f old := by
  simp only [modifyScope, List.map_map, List.mem_map] at hfound
  obtain ⟨⟨key, old⟩, hmem, rfl⟩ := hfound
  refine ⟨old, List.mem_map.mpr ⟨_, hmem, rfl⟩, ?_⟩
  by_cases hkey : key = name
  · simp [hkey]
  · simp [hkey]

/-- A change of a symbol leaves the others. -/
theorem mem_symbols_modify {f : Symbol → Symbol} {found : Symbol}
    (hfound : found ∈ (t.modify name f).symbols) :
    ∃ old ∈ t.symbols, found = old ∨ found = f old := by
  obtain ⟨scopes⟩ := t
  simp only [modify, symbols, List.mem_flatMap, List.mem_reverse] at hfound ⊢
  induction scopes with
  | nil => simp [modifyScopes] at hfound
  | cons scope rest ih =>
    simp only [modifyScopes] at hfound
    obtain ⟨changed, hchanged, hmem⟩ := hfound
    split at hchanged
    · rcases List.mem_cons.mp hchanged with rfl | hrest
      · obtain ⟨old, hold, hsame⟩ := mem_modifyScope hmem
        exact ⟨old, ⟨scope, by simp, hold⟩, hsame⟩
      · exact ⟨found, ⟨changed, by simp [hrest], hmem⟩, .inl rfl⟩
    · rcases List.mem_cons.mp hchanged with rfl | hrest
      · exact ⟨found, ⟨changed, by simp, hmem⟩, .inl rfl⟩
      · obtain ⟨old, ⟨other, hother, hold⟩, hsame⟩ := ih ⟨changed, hrest, hmem⟩
        exact ⟨old, ⟨other, by simp [hother], hold⟩, hsame⟩

/-- The callers of functions that are bound can be entered. -/
theorem addCallers_no_fault (caller : String) {calls : List String}
    (hknown : ∀ callee ∈ calls, (t.typeOf callee).isSome = true) :
    (t.addCallers caller calls).2 = none := by
  induction calls generalizing t with
  | nil => rfl
  | cons callee calls ih =>
    obtain ⟨symbol, hsymbol⟩ : ∃ symbol, t.lookup callee = some symbol :=
      Option.isSome_iff_exists.mp (by simpa [typeOf] using hknown callee (by simp))
    rw [addCallers, if_neg (by simp [hsymbol])]
    refine ih fun other hother => ?_
    rw [typeOf_addCaller]
    exact hknown other (by simp [hother])

theorem updateCallersOf_no_fault {symbols : List Symbol}
    (hknown : ∀ symbol ∈ symbols, ∀ callee ∈ symbol.calls, (t.typeOf callee).isSome = true) :
    (t.updateCallersOf symbols).2 = none := by
  induction symbols generalizing t with
  | nil => rfl
  | cons symbol symbols ih =>
    have hnone := addCallers_no_fault symbol.name (hknown symbol (by simp))
    rw [updateCallersOf]
    split
    · rename_i after hcallers
      refine ih fun other hother callee hcallee => ?_
      have htype := t.typeOf_addCallers callee symbol.name symbol.calls
      rw [hcallers] at htype
      rw [htype]
      exact hknown other (by simp [hother]) callee hcallee
    · rename_i after e hcallers
      simp [hcallers] at hnone

/-- A table whose symbols have the names that they are bound to, and call functions that are bound
    in it. -/
structure Coherent (t : SymbolTable) : Prop where
  named : ∀ name symbol, t.lookup name = some symbol → symbol.name = name
  known : ∀ symbol ∈ t.symbols, ∀ callee ∈ symbol.calls, (t.typeOf callee).isSome = true

theorem coherent_empty : Coherent {} where
  named _ _ hname := nomatch hname
  known _ hsymbol := nomatch hsymbol

theorem Coherent.bind (h : t.Coherent) (hbind : t.bind name symbol = .ok after)
    (hname : symbol.name = name) (hcalls : symbol.calls = []) : after.Coherent := by
  have hlookup := (bind_eq_ok hbind).2
  refine ⟨fun other found hfound => ?_, fun found hfound callee hcallee => ?_⟩
  · rw [hlookup] at hfound
    split at hfound
    · rename_i hother
      injection hfound with hsame
      rw [← hsame, hname, hother]
    · exact h.named other found hfound
  · rcases mem_symbols_bind hbind hfound with hold | rfl
    · have hbound := h.known found hold callee hcallee
      rw [typeOf, hlookup]
      split
      · rfl
      · exact hbound
    · simp [hcalls] at hcallee

theorem mem_insertName {new : String} {names : List String} :
    other ∈ insertName new names ↔ other = new ∨ other ∈ names := by
  fun_induction insertName new names with
  | case1 => simp
  | case2 => simp
  | case3 => simp
  | case4 first names hlt hne ih =>
    rw [List.mem_cons, ih, List.mem_cons]
    exact or_left_comm

theorem Coherent.addCall (h : t.Coherent) {callee : String}
    (hcallee : (t.typeOf callee).isSome = true) :
    (t.modify name (·.addCall callee)).Coherent := by
  refine ⟨fun other found hfound => ?_, fun found hfound called hcalled => ?_⟩
  · rw [lookup_modify] at hfound
    obtain ⟨old, hold, rfl⟩ := Option.map_eq_some_iff.mp hfound
    have hname := h.named other old hold
    split
    · exact hname
    · exact hname
  · rw [typeOf_addCall]
    obtain ⟨old, hold, rfl | rfl⟩ := mem_symbols_modify hfound
    · exact h.known found hold called hcalled
    · rcases mem_insertName.mp hcalled with rfl | hcalled
      · exact hcallee
      · exact h.known old hold called hcalled

end SymbolTable

namespace Analysis

variable {p : Program} {d : Definition} {s : State} {env : Env} {seen : List String}

namespace Findings

variable {first second : Findings}

theorem fault_append :
    (first ++ second).fault = none ↔ first.fault = none ∧ second.fault = none := by
  change (first.append second).fault = none ↔ _
  cases hfault : first.fault <;> simp [append, hfault]

theorem calls_append_subset : (first ++ second).calls ⊆ first.calls ++ second.calls := by
  change (first.append second).calls ⊆ _
  unfold append
  split
  · exact List.subset_append_left _ _
  · exact List.Subset.refl _

/-- No fault was found, and only functions that a name stands for are called. -/
structure Regular (env : Env) (f : Findings) : Prop where
  fault : f.fault = none
  calls : ∀ callee ∈ f.calls, ∃ name symbol source result, env.resolve name = some symbol ∧
    symbol.type = .function source result ∧ symbol.name = callee

theorem Regular.append (hfirst : first.Regular env) (hsecond : second.Regular env) :
    (first ++ second).Regular env := by
  refine ⟨fault_append.mpr ⟨hfirst.fault, hsecond.fault⟩, fun callee hcallee => ?_⟩
  rcases List.mem_append.mp (calls_append_subset hcallee) with hcallee | hcallee
  · exact hfirst.calls callee hcallee
  · exact hsecond.calls callee hcallee

theorem regular_used (names : List String) : Regular env { used := names } :=
  ⟨rfl, fun _ hcallee => nomatch hcallee⟩

theorem regular_empty : Regular env {} :=
  regular_used []

end Findings

theorem Verdict.regular_wrong (issue : Issue) : (Verdict.wrong issue).findings.Regular env :=
  ⟨rfl, fun _ hcallee => nomatch hcallee⟩

theorem judgeOperands_regular (place : Option String) (form : Form) (wanted result : Ty)
    (operands : List (String × Ty)) :
    (judgeOperands place form wanted result operands).findings.Regular env := by
  induction operands with
  | nil => exact Findings.regular_empty
  | cons operand operands ih =>
    rw [judgeOperands]
    split
    · exact ih
    · exact Verdict.regular_wrong _

theorem judgeUnary_regular (place : Option String) (op : UnaryOp) (value : Ty) :
    (judgeUnary place op value).findings.Regular env := by
  cases op <;> exact judgeOperands_regular ..

theorem judgeBinary_regular (place : Option String) (op : BinaryOp) (left right : Ty) :
    (judgeBinary place op left right).findings.Regular env := by
  cases op with
  | equals => exact Findings.regular_empty
  | _ => exact judgeOperands_regular ..

theorem judgeIdentifier_regular (hinside : env.inFunction = true) (name : String) :
    (judgeIdentifier env name).findings.Regular env := by
  unfold judgeIdentifier
  split
  · exact Verdict.regular_wrong _
  · split
    · exact Verdict.regular_wrong _
    · rw [if_pos hinside]
      exact Findings.regular_used _

theorem judgeArguments_regular (place : Option String) (callee : String) (wanted found : List Ty)
    (result : Ty) : (judgeArguments place callee wanted found result).findings.Regular env := by
  unfold judgeArguments
  split
  · exact Findings.regular_empty
  · split
    · exact Verdict.regular_wrong _
    · split
      · exact Verdict.regular_wrong _
      · exact Verdict.regular_wrong _

theorem judgeCall_regular (hinside : env.inFunction = true) (callee : String) (found : List Ty) :
    (judgeCall env callee found).findings.Regular env := by
  unfold judgeCall
  split
  · exact Verdict.regular_wrong _
  · rename_i symbol hsymbol
    split
    · rename_i wanted result htype
      rw [if_pos hinside]
      refine Findings.Regular.append ⟨rfl, fun other hother => ?_⟩ (judgeArguments_regular ..)
      obtain rfl : other = symbol.name := by simpa using hother
      exact ⟨callee, symbol, wanted, result, hsymbol, htype, rfl⟩
    · exact Verdict.regular_wrong _

theorem Checked.regular_after {α : Type} {checked : Checked α} {old : α} {before : Findings}
    (hbefore : before.Regular env) (hchecked : checked.findings.Regular env) :
    (checked.after old before).findings.Regular env := by
  simpa [Checked.after, hbefore.fault] using hbefore.append hchecked

mutual

/-- Inside a function no fault is found in an expression. -/
theorem checkExpr_regular (hinside : env.inFunction = true) :
    (e : Expr) → (checkExpr env e).findings.Regular env
  | .integer .. | .boolean .. => Findings.regular_empty
  | .identifier _ name =>
    Findings.Regular.append Findings.regular_empty (judgeIdentifier_regular hinside name)
  | .unary _ _ value => (checkExpr_regular hinside value).append (judgeUnary_regular ..)
  | .binary _ _ left right =>
    (Checked.regular_after (checkExpr_regular hinside left)
      (checkExpr_regular hinside right)).append (judgeBinary_regular ..)
  | .conditional _ condition consequent alternative =>
    (Checked.regular_after
      (Checked.regular_after (checkExpr_regular hinside condition)
        (checkExpr_regular hinside consequent))
      (checkExpr_regular hinside alternative)).append (judgeOperands_regular ..)
  | .call _ _ _ arguments =>
    (checkArguments_regular hinside arguments).append (judgeCall_regular hinside ..)

theorem checkArguments_regular (hinside : env.inFunction = true) :
    (arguments : Arguments) → (checkArguments env arguments).findings.Regular env
  | .nil => Findings.regular_empty
  | .cons _ value rest => by
    have hvalue := checkExpr_regular hinside value
    have hrest := checkArguments_regular hinside rest
    simpa [checkArguments, hvalue.fault] using hvalue.append hrest

end

theorem checkCalls_regular (hinside : env.inFunction = true) (calls : List Call) :
    (checkCalls env calls).findings.Regular env := by
  induction calls with
  | nil => exact Findings.regular_empty
  | cons c calls ih =>
    have hcall : (checkCall env c).findings.Regular env :=
      (checkArguments_regular hinside c.arguments.items).append (judgeCall_regular hinside ..)
    simpa [checkCalls, hcall.fault] using hcall.append ih

theorem checkBody_regular (hinside : env.inFunction = true) (b : Body) :
    (checkBody env b).findings.Regular env :=
  (Checked.regular_after (checkCalls_regular hinside b.prints)
    (checkExpr_regular hinside b.result)).append Findings.regular_empty

theorem declareFrom_no_fault {definitions : List Definition}
    (hfree : ∀ d ∈ definitions, d.name ∉ seen → s.table.lookupCurrent d.name = .ok none) :
    (declareFrom seen s definitions).2 = none := by
  induction definitions generalizing s seen with
  | nil => rfl
  | cons d definitions ih =>
    rw [declareFrom]
    split
    · exact ih fun e he => hfree e (by simp [he])
    · rename_i hnew
      obtain ⟨table, hbind, hothers⟩ :=
        SymbolTable.exists_bind (hfree d (by simp) (by simpa using hnew)) (functionSymbol d)
      rw [hbind]
      refine ih fun e he hseen => ?_
      rw [List.mem_cons, not_or] at hseen
      rw [hothers e.name hseen.1]
      exact hfree e (by simp [he]) hseen.2

theorem checkParametersFrom_no_fault {parameters : List Parameter}
    (hfree : ∀ q ∈ parameters, q.name ∉ seen → s.table.lookupCurrent q.name = .ok none) :
    (checkParametersFrom seen s parameters).fault = none := by
  induction parameters generalizing s seen with
  | nil => rfl
  | cons q parameters ih =>
    rw [checkParametersFrom]
    split
    · exact ih fun r hr => hfree r (by simp [hr])
    · rename_i hnew
      obtain ⟨table, hbind, hothers⟩ := SymbolTable.exists_bind
        (hfree q (by simp) (by simpa using hnew)) ⟨q.name, .parameter, q.type.base.ty, [], [], []⟩
      rw [hbind]
      refine ih fun r hr hseen => ?_
      rw [List.mem_cons, not_or] at hseen
      rw [hothers r.name hseen.1]
      exact hfree r (by simp [hr]) hseen.2

theorem coherent_declareFrom {definitions : List Definition} (h : s.table.Coherent) :
    (declareFrom seen s definitions).1.table.Coherent := by
  induction definitions generalizing s seen with
  | nil =>
    rw [declareFrom]
    split
    · exact h
    · exact h
  | cons d definitions ih =>
    rw [declareFrom]
    split
    · exact ih h
    · split
      · exact h
      · rename_i table hbind
        exact ih (h.bind hbind rfl rfl)

/-- The functions of a program can be declared. -/
theorem exists_declare (hlegal : p.Legal) :
    ∃ s, declare {} p = (s, none) ∧ s.table.Coherent ∧
      ∀ d ∈ p.definitions, (s.table.typeOf d.name).isSome = true := by
  have hempty : ({} : SymbolTable).lookupCurrent printSymbol.name = .ok none := rfl
  obtain ⟨table, hbind, hothers⟩ := SymbolTable.exists_bind hempty printSymbol
  have hnone : (declareFrom [] { table } p.definitions).2 = none := by
    refine declareFrom_no_fault fun d hd _ => ?_
    exact hothers d.name (hlegal d hd).name.ne_print
  have hdeclare : declare {} p = ((declareFrom [] { table } p.definitions).1, none) := by
    rw [declare]
    simp only [hbind]
    exact Prod.ext rfl hnone
  refine ⟨_, hdeclare, coherent_declareFrom (SymbolTable.coherent_empty.bind hbind rfl rfl), ?_⟩
  intro d hd
  rw [typeOf_declare hdeclare]
  have hfound : (p.definitions.find? (·.name = d.name)).isSome = true :=
    List.find?_isSome.mpr ⟨d, hd, by simp⟩
  obtain ⟨first, hfirst⟩ := Option.isSome_iff_exists.mp hfound
  simp [Declared.typeOf, Program.declares, hfirst]

theorem coherent_addCalls (h : s.table.Coherent) {calls : List String}
    (hcalls : ∀ callee ∈ calls, (s.table.typeOf callee).isSome = true) :
    (s.addCalls calls).table.Coherent := by
  unfold State.addCalls
  split
  · exact h
  · split
    · rename_i caller _
      generalize s.table = table at h hcalls
      induction calls generalizing table with
      | nil => exact h
      | cons callee calls ih =>
        refine ih _ (h.addCall (hcalls callee (by simp))) fun other hother => ?_
        rw [SymbolTable.typeOf_addCall]
        exact hcalls other (by simp [hother])
    · exact h

theorem parametersOutcome_no_fault (s : State) (d : Definition) :
    (parametersOutcome s d).fault = none :=
  checkParametersFrom_no_fault fun _ _ _ => rfl

theorem bodyOutcome_regular (s : State) (d : Definition) :
    (bodyOutcome s d).findings.Regular (s.inside d).env :=
  checkBody_regular rfl d.body

/-- No fault ends the check of a definition whose name is bound. -/
theorem checkDefinition_no_fault (hbound : (s.table.typeOf d.name).isSome = true) :
    (checkDefinition s d).fault = none := by
  obtain ⟨symbol, hsymbol⟩ : ∃ symbol, s.table.lookup d.name = some symbol :=
    Option.isSome_iff_exists.mp (by simpa [SymbolTable.typeOf] using hbound)
  have hparameters : (checkParameters { s with place := some d.name, table := s.table.enter }
      d.parameters).fault = none := parametersOutcome_no_fault s d
  have hbody := (bodyOutcome_regular s d).fault
  unfold checkDefinition
  rw [if_neg (by simp [hsymbol])]
  dsimp only
  rw [hparameters]
  dsimp only
  split
  · rename_i fault hfault
    exact absurd (hfault.symm.trans hbody) (by simp)
  · rfl

theorem coherent_checkDefinition (h : s.table.Coherent)
    (hfault : (checkDefinition s d).fault = none) :
    (checkDefinition s d).state.table.Coherent := by
  obtain ⟨hparameters, -, -, -, ⟨left, hleft, hafter⟩, -⟩ := checkDefinition_of_no_fault hfault
  rw [(inside_keeps hparameters).1] at hleft
  rw [hafter]
  refine coherent_addCalls (hleft ▸ h) fun callee hcallee => ?_
  -- a function that is called inside is none of the parameters, whose types are simple
  obtain ⟨name, symbol, source, result, hresolve, htype, rfl⟩ :=
    (bodyOutcome_regular s d).calls callee hcallee
  have hinside : (s.inside d).table.lookup name = some symbol := hresolve
  rw [lookup_inside hparameters] at hinside
  cases hparameter : d.parameters.items.find? (·.name = name) with
  | some parameter =>
    rw [hparameter] at hinside
    obtain rfl : parameterSymbol parameter = symbol := Option.some.inj hinside
    cases hbase : parameter.type.base <;> simp [parameterSymbol, hbase, BaseType.ty] at htype
  | none =>
    rw [hparameter] at hinside
    have hfound : s.table.lookup name = some symbol := hinside
    rw [hleft, h.named name symbol hfound, SymbolTable.typeOf, hfound]
    rfl

theorem checkDefinitions_no_fault {definitions : List Definition} (h : s.table.Coherent)
    (hbound : ∀ d ∈ definitions, (s.table.typeOf d.name).isSome = true) :
    (checkDefinitions s definitions).fault = none ∧
      (checkDefinitions s definitions).state.table.Coherent := by
  induction definitions generalizing s with
  | nil => exact ⟨rfl, h⟩
  | cons d definitions ih =>
    have hnone := checkDefinition_no_fault (hbound d (by simp))
    rw [checkDefinitions]
    simp only [hnone]
    refine ih (coherent_checkDefinition h hnone) fun e he => ?_
    rw [typeOf_checkDefinition hnone]
    exact hbound e (by simp [he])

/-- No fault ends the analysis of a program whose names can be written. It goes through all the
    definitions, warns of functions that nobody calls, and is rejected for errors only. -/
theorem analyze_of_legal (hlegal : p.Legal) :
    ∃ s, declare {} p = (s, none) ∧ (checkDefinitions s p.definitions).fault = none ∧
      (analyze p).program = ⟨(checkDefinitions s p.definitions).tree⟩ ∧
      (analyze p).state.issues = (checkDefinitions s p.definitions).state.issues ++
        unusedFunctions (analyze p).state.table ∧
      (checkDefinitions s p.definitions).state.table.updateCallers =
        ((analyze p).state.table, none) ∧
      (analyze p).error = if errorCount (analyze p).state.issues = 0 then none
        else some (.issues (errorCount (analyze p).state.issues)) := by
  obtain ⟨s, hdeclare, hcoherent, hbound⟩ := exists_declare hlegal
  obtain ⟨hfault, hafter⟩ := checkDefinitions_no_fault hcoherent hbound
  obtain ⟨table, hcallers⟩ : ∃ table,
      (checkDefinitions s p.definitions).state.table.updateCallers = (table, none) :=
    ⟨_, Prod.ext rfl (SymbolTable.updateCallersOf_no_fault hafter.known)⟩
  refine ⟨s, hdeclare, hfault, ?_, ?_, ?_, ?_⟩
  · simp only [analyze, hdeclare, hfault, hcallers]
  · simp only [analyze, hdeclare, hfault, hcallers]
    rfl
  · simp only [analyze, hdeclare, hfault, hcallers]
    rfl
  · simp only [analyze, hdeclare, hfault, hcallers]

end Analysis

end Klein
