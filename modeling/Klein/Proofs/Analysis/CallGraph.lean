import Klein.Proofs.Analysis.Diagnostics

namespace Klein

open Analysis

/-- A function calls another one: a call of the second stands somewhere in the output or the value
    of some definition of the first, the second is `print` or defined, and no parameter of that
    definition hides it. The arguments of the call do not matter. -/
def Program.Calls (p : Program) (caller callee : String) : Prop :=
  ∃ d ∈ p.definitions, d.name = caller ∧
    (∃ arguments, Mention.call callee arguments ∈ d.body.mentions) ∧
    (callee = "print" ∨ callee ∈ p.definitions.map (·.name)) ∧
    callee ∉ d.parameters.items.map (·.name)

/-- The function that a use of a name in a definition calls, if there is one. -/
def Program.target (p : Program) (d : Definition) : Mention → Option String
  | .identifier _ => none
  | .call callee _ =>
    if callee ∈ d.parameters.items.map (·.name) then none
    else if (p.arity callee).isSome then some callee else none

namespace Analysis

/-- The name of the function that is reported as unused. -/
def Issue.unusedFunction? : Issue → Option String
  | unusedFunction name => some name
  | _ => none

variable {env : Env}

theorem Verdict.warnings_wrong {issue : Issue} (hissue : issue.isError = true) :
    (Verdict.wrong issue).findings.issues.filter (fun issue => !issue.isError) = [] := by
  simp [Verdict.wrong, Findings.ofIssue, hissue]

theorem Findings.collects_warnings (hinside : env.inFunction = true) :
    Findings.Collects env (fun f => f.issues.filter fun issue => !issue.isError) fun _ => [] where
  empty := rfl
  append hfault := by rw [Findings.issues_append hfault, List.filter_append]
  operands form wanted result operands := by
    obtain hright | ⟨issue, hissue, hwrong⟩ :=
      judgeOperands_cases env.place form wanted result operands
    · rw [hright]
      rfl
    · rw [hwrong, Verdict.warnings_wrong hissue]
  identifier name := by
    obtain ⟨symbol, -, hright⟩ | ⟨issue, hissue, hwrong⟩ := judgeIdentifier_cases hinside name
    · rw [hright]
      rfl
    · rw [hwrong, Verdict.warnings_wrong hissue]
  call callee types := by
    obtain ⟨symbol, wanted, result, -, -, -, hfindings⟩ | ⟨issue, hissue, hwrong⟩ :=
      judgeCall_cases hinside callee types
    · rw [hfindings, Findings.issues_append rfl, List.nil_append]
      obtain hright | ⟨issue, hissue, hwrong⟩ :=
        judgeArguments_cases env.place callee wanted types result
      · rw [hright]
        rfl
      · rw [hwrong, Verdict.warnings_wrong hissue]
    · rw [hwrong, Verdict.warnings_wrong hissue]

/-- What is found wrong in the body of a function is an error. -/
theorem isError_of_mem_checkBody (hinside : env.inFunction = true) {b : Body} {issue : Issue}
    (hissue : issue ∈ (checkBody env b).findings.issues) : issue.isError = true := by
  have hnone := collected_checkBody (Findings.collects_warnings hinside) hinside b
  rw [List.flatMap_eq_nil_iff.mpr fun _ _ => rfl, List.filter_eq_nil_iff] at hnone
  simpa using hnone issue hissue

variable {p : Program} {d : Definition} {caller callee : String}

theorem Findings.calls_append {first second : Findings} (hfault : first.fault = none) :
    (first ++ second).calls = first.calls ++ second.calls := by
  change (first.append second).calls = _
  simp [append, hfault]

theorem calls_judgeIdentifier (hinside : env.inFunction = true) (name : String) :
    (judgeIdentifier env name).findings.calls = [] := by
  obtain ⟨symbol, -, hright⟩ | ⟨issue, -, hwrong⟩ := judgeIdentifier_cases hinside name
  · rw [hright]
  · rw [hwrong]
    rfl

/-- A call of a function that can be seen is noted, also if its arguments are wrong. -/
theorem calls_judgeCall (p : Program) (d : Definition) (callee : String) (types : List Ty) :
    (judgeCall (p.envIn d) callee types).findings.calls =
      (p.target d (.call callee types.length)).toList := by
  rw [judgeCall, Program.target]
  by_cases hname : callee ∈ d.parameters.items.map (·.name)
  · obtain ⟨q, hq⟩ := resolve_of_mem hname
    rw [hq, if_pos hname]
    cases htype : q.type.base <;>
      simp [parameterSymbol, htype, BaseType.ty, Verdict.wrong, Findings.ofIssue]
  · rw [resolve_of_not_mem hname, if_neg hname]
    rcases globalSymbol_arity p callee with
      ⟨hnone, harity⟩ | ⟨symbol, wanted, result, hsymbol, rfl, htype, harity⟩
    · simp [hnone, harity, Verdict.wrong, Findings.ofIssue]
    · have hinside : (p.envIn d).inFunction = true := rfl
      simp only [hsymbol, htype, harity, hinside, if_true, Option.isSome_some]
      rw [Findings.calls_append rfl, (notes_judgeArguments ..).1]
      rfl

theorem collects_calls (p : Program) (d : Definition) :
    Findings.Collects (p.envIn d) Findings.calls fun mention => (p.target d mention).toList where
  empty := rfl
  append := Findings.calls_append
  operands _ _ _ _ := (notes_judgeOperands ..).1
  identifier := calls_judgeIdentifier rfl
  call := calls_judgeCall p d

/-- The functions that a name can stand for in a call are `print` and those that are defined. -/
theorem arity_isSome :
    (p.arity callee).isSome = true ↔ callee = "print" ∨ callee ∈ p.definitions.map (·.name) := by
  unfold Program.arity
  by_cases hprint : callee = "print"
  · simp [hprint]
  · simp [hprint]

theorem target_eq_some {mention : Mention} :
    p.target d mention = some callee ↔
      (∃ arguments, mention = .call callee arguments) ∧ (p.arity callee).isSome = true ∧
        callee ∉ d.parameters.items.map (·.name) := by
  cases mention with
  | identifier name => simp [Program.target]
  | call name arguments =>
    rw [Program.target]
    constructor
    · intro htarget
      split at htarget
      · cases htarget
      · rename_i hvisible
        split at htarget
        · rename_i hdefined
          cases htarget
          exact ⟨⟨arguments, rfl⟩, hdefined, hvisible⟩
        · cases htarget
    · rintro ⟨⟨_, hcall⟩, hdefined, hvisible⟩
      cases hcall
      rw [if_neg hvisible, if_pos hdefined]

theorem mem_callsIn :
    callee ∈ p.callsIn d ↔ (∃ arguments, Mention.call callee arguments ∈ d.body.mentions) ∧
      (callee = "print" ∨ callee ∈ p.definitions.map (·.name)) ∧
      callee ∉ d.parameters.items.map (·.name) := by
  have hcalls : p.callsIn d = d.body.mentions.flatMap fun mention => (p.target d mention).toList :=
    collected_checkBody (collects_calls p d) rfl d.body
  rw [hcalls, List.mem_flatMap, ← arity_isSome]
  simp only [Option.mem_toList, target_eq_some]
  constructor
  · rintro ⟨_, hmention, ⟨arguments, rfl⟩, hvisible⟩
    exact ⟨⟨arguments, hmention⟩, hvisible⟩
  · rintro ⟨⟨arguments, hmention⟩, hvisible⟩
    exact ⟨_, hmention, ⟨arguments, rfl⟩, hvisible⟩

theorem mem_callsOf : callee ∈ p.callsOf caller ↔ p.Calls caller callee := by
  rw [Program.callsOf, mem_sortedNames, List.mem_flatMap]
  simp only [List.mem_filter, decide_eq_true_eq, mem_callsIn, Program.Calls, and_assoc]

/-- Only functions that are defined call others. -/
theorem mem_callersOf : caller ∈ p.callersOf callee ↔ p.Calls caller callee := by
  rw [Program.callersOf, mem_sortedNames, List.mem_map]
  simp only [List.mem_filter, decide_eq_true_eq, mem_callsOf]
  constructor
  · rintro ⟨symbol, ⟨-, hcalls⟩, rfl⟩
    exact hcalls
  · intro hcalls
    obtain ⟨d, hd, hname, -⟩ := id hcalls
    have hdefined : (p.arity caller).isSome = true :=
      arity_isSome.mpr (.inr (List.mem_map.mpr ⟨d, hd, hname⟩))
    rcases globalSymbol_arity p caller with ⟨-, hnone⟩ | ⟨symbol, _, _, hsymbol, hsame, -⟩
    · simp [hnone] at hdefined
    · rw [← Program.find?_globals] at hsymbol
      exact ⟨symbol, ⟨List.mem_of_find?_eq_some hsymbol, hsame.symm ▸ hcalls⟩, hsame⟩

theorem unusedFunctions_finalSymbols (hlegal : p.Legal) :
    (unusedFunctions (.ofSymbols p.finalSymbols)).filterMap Issue.unusedFunction? =
      ((firstDefinitions [] p.definitions).map (·.name)).filter fun name =>
        name ≠ "main" ∧ p.callersOf name = [] := by
  rw [unusedFunctions, SymbolTable.symbols_ofSymbols, Program.finalSymbols, Program.symbolsWith,
    Program.globals, List.map_cons, List.filterMap_cons_none (by rfl), ← List.filterMap_eq_filter,
    List.map_map, List.filterMap_map, List.filterMap_map, List.filterMap_filterMap]
  refine List.filterMap_congr fun d hd => ?_
  have hprint : d.name ≠ "print" := (hlegal d (firstDefinitions_subset _ _ hd)).name.ne_print
  have hname : (functionSymbol d).name = d.name := rfl
  by_cases hmain : d.name = "main"
  · simp [hname, hmain, Option.guard]
  · by_cases hcallers : p.callersOf d.name = []
    · simp [hname, hmain, hprint, hcallers, Option.guard, Issue.unusedFunction?]
    · simp [hname, hmain, hcallers, Option.guard]

/-- The functions that are reported as unused, in the order of their first definitions. Neither the
    declarations nor the definitions add to them. -/
theorem unusedFunction?_analyze (hlegal : p.Legal) :
    (analyze p).state.issues.filterMap Issue.unusedFunction? =
      ((firstDefinitions [] p.definitions).map (·.name)).filter fun name =>
        name ≠ "main" ∧ p.callersOf name = [] := by
  obtain ⟨-, hissues, -, -⟩ := analyze_eq hlegal
  have herror : ∀ {issue : Issue}, issue.isError = true → issue.unusedFunction? = none := by
    intro issue hissue
    cases issue <;> first | rfl | cases hissue
  have hdeclared : p.declarationIssues.filterMap Issue.unusedFunction? = [] := by
    rw [Program.declarationIssues, List.filterMap_append]
    split <;> simp [Issue.unusedFunction?]
  have hdefined : (p.definitions.flatMap p.issuesIn).filterMap Issue.unusedFunction? = [] := by
    rw [List.filterMap_eq_nil_iff]
    intro issue hissue
    obtain ⟨d, -, hissue⟩ := List.mem_flatMap.mp hissue
    simp only [Program.issuesIn, List.mem_append, List.mem_map] at hissue
    rcases hissue with ⟨_, -, rfl⟩ | hbody | ⟨_, -, rfl⟩ | hresult
    · rfl
    · exact herror (isError_of_mem_checkBody rfl hbody)
    · rfl
    · split at hresult
      · cases hresult
      · obtain rfl := List.mem_singleton.mp hresult
        rfl
  rw [hissues, List.filterMap_append, List.filterMap_append, hdeclared, hdefined,
    unusedFunctions_finalSymbols hlegal, List.append_nil, List.nil_append]

/-- The scope that an analysis leaves binds the functions of the program, each to a symbol with its
    calls and its callers. -/
theorem lookup_finalSymbols (p : Program) (name : String) :
    ((p.arity name).isSome = false ∧
        (p.finalSymbols.map fun symbol => (symbol.name, symbol)).lookup name = none) ∨
      ∃ symbol, (p.arity name).isSome = true ∧
        (p.finalSymbols.map fun symbol => (symbol.name, symbol)).lookup name = some symbol ∧
        symbol.calls = p.callsOf name ∧ symbol.callers = p.callersOf name := by
  rw [SymbolTable.lookup_names, ← SymbolTable.lookup_ofSymbols, Program.finalSymbols,
    lookup_symbolsWith]
  rcases globalSymbol_arity p name with ⟨hnone, harity⟩ | ⟨symbol, _, _, hsymbol, rfl, -, harity⟩
  · simp [hnone, harity]
  · simp [hsymbol, harity]

/-- The warnings that a function is unused are told apart from all other issues by their text. -/
theorem told_unusedFunctions (issues : List Issue) :
    ((issues.map fun issue => (issue.severity, issue.text)).filter fun told =>
        told.1 = .warning ∧ "Unused function ".toList <+: told.2.toList) =
      (issues.filterMap Issue.unusedFunction?).map fun name =>
        (.warning, "Unused function " ++ name) := by
  induction issues with
  | nil => rfl
  | cons issue issues ih =>
    rw [List.map_cons, List.filter_cons, ih, List.filterMap_cons]
    cases issue with
    | unusedFunction name =>
      have hparts : (Issue.unusedFunction name).text = "Unused function " ++ name := rfl
      simp [Issue.severity, Issue.unusedFunction?, hparts]
    | unusedParameter place name =>
      -- such a text starts with the function, or with the word for none
      have hparts : (Issue.unusedParameter place name).text =
          Issue.placeText place ++ ("Unused parameter " ++ name) := rfl
      cases place with
      | none => simp [Issue.unusedFunction?, hparts, Issue.placeText]
      | some function =>
        have hplace : Issue.placeText (some function) = "Function " ++ function ++ ": " := rfl
        simp [Issue.unusedFunction?, hparts, hplace]
    | _ => rfl

/-- The call graph of a program that was parsed is exact. One scope is left, with `print` and the
    functions in the order of their first definitions. The calls of each are those that stand in its
    definitions, its callers are the functions that call it, and a function is reported as unused,
    once and in order, if it has no caller and is not `main`. The warnings that are told in this
    way are exactly these. -/
theorem callGraph_exact {text : String} {p : Program} (hparse : parse text = .ok p) :
    ∃ scope, (analyze p).state.table.scopes = [scope] ∧
      scope.map Prod.fst = "print" :: (firstDefinitions [] p.definitions).map (·.name) ∧
      (∀ f symbol, scope.lookup f = some symbol →
        symbol.calls.Nodup ∧ (∀ g, g ∈ symbol.calls ↔ p.Calls f g) ∧
        symbol.callers.Nodup ∧ ∀ g, g ∈ symbol.callers ↔
          ∃ other, scope.lookup g = some other ∧ f ∈ other.calls) ∧
      (analyze p).state.issues.filterMap Issue.unusedFunction? =
        (((firstDefinitions [] p.definitions).map (·.name)).filter fun g =>
          g ≠ "main" ∧ (scope.lookup g).map (·.callers) = some []) ∧
      ((analyze p).state.issues.map fun issue => (issue.severity, issue.text)).filter (fun told =>
          told.1 = .warning ∧ "Unused function ".toList <+: told.2.toList) =
        (((firstDefinitions [] p.definitions).map (·.name)).filter fun g =>
          g ≠ "main" ∧ (scope.lookup g).map (·.callers) = some []).map fun g =>
            (.warning, "Unused function " ++ g) := by
  have hlegal := Parser.legal_of_parse hparse
  obtain ⟨-, -, htable, -⟩ := analyze_eq hlegal
  have hlookup := lookup_finalSymbols p
  have hunused : (analyze p).state.issues.filterMap Issue.unusedFunction? =
      ((firstDefinitions [] p.definitions).map (·.name)).filter fun g => g ≠ "main" ∧
        ((p.finalSymbols.map fun symbol => (symbol.name, symbol)).lookup g).map (·.callers) =
          some [] := by
    rw [unusedFunction?_analyze hlegal]
    refine List.filter_congr fun g hg => ?_
    obtain ⟨hundefined, -⟩ | ⟨symbol, -, hsymbol, -, hcallers⟩ := hlookup g
    · have hdefined : (p.arity g).isSome = true :=
        arity_isSome.mpr (.inr (List.map_subset _ (firstDefinitions_subset _ _) hg))
      simp [hundefined] at hdefined
    · simp [hsymbol, hcallers]
  refine ⟨p.finalSymbols.map fun symbol => (symbol.name, symbol), by rw [htable]; rfl, ?_, ?_,
    hunused, (told_unusedFunctions _).trans (congrArg _ hunused)⟩
  · rw [Program.finalSymbols, Program.symbolsWith, List.map_map, List.map_map, Program.globals,
      List.map_cons, List.map_map]
    rfl
  · intro f symbol hsymbol
    obtain ⟨-, hnone⟩ | ⟨_, -, hfound, hcalls, hcallers⟩ := hlookup f
    · cases hnone.symm.trans hsymbol
    · obtain rfl := Option.some.inj (hfound.symm.trans hsymbol)
      rw [hcalls, hcallers]
      refine ⟨nodup_sortedNames _, fun g => mem_callsOf, nodup_sortedNames _, fun g => ?_⟩
      rw [mem_callersOf]
      obtain ⟨hundefined, hnone⟩ | ⟨other, -, hother, hothers, -⟩ := hlookup g
      · -- a function that calls another one has a definition
        have hnever : ¬p.Calls g f := by
          rintro ⟨d, hd, hname, -⟩
          have hdefined := arity_isSome.mpr (.inr (List.mem_map.mpr ⟨d, hd, hname⟩))
          simp [hundefined] at hdefined
        simp [hnone, hnever]
      · simp [hother, hothers, mem_callsOf]

/-- A function that a parameter hides, calls with wrong arguments, a function that calls itself, and
    one that is defined twice. -/
theorem callGraph_exact_hidden :
    ∃ p, parse "function main(h:integer):integer print(g(1,2)) h(1)
        function g():integer g() function u():integer m(g())
        function g(a:integer):integer h(true) function h():integer 2" = .ok p ∧
      (∀ g, p.Calls "main" g ↔ g ∈ ["g", "print"]) ∧
      (∀ g, p.Calls "g" g ↔ g ∈ ["g", "h"]) ∧
      (analyze p).state.issues.filterMap Issue.unusedFunction? = ["u"] ∧
      ((analyze p).state.issues.map fun issue => (issue.severity, issue.text)).filter (fun told =>
          told.1 = .warning ∧ "Unused function ".toList <+: told.2.toList) =
        [(.warning, "Unused function u")] := by
  have hanalysed : ∃ p, parse "function main(h:integer):integer print(g(1,2)) h(1)
        function g():integer g() function u():integer m(g())
        function g(a:integer):integer h(true) function h():integer 2" = .ok p ∧
      ((analyze p).state.table.lookup "main").map (·.calls) = some ["g", "print"] ∧
      ((analyze p).state.table.lookup "g").map (·.calls) = some ["g", "h"] ∧
      (analyze p).state.issues.filterMap Issue.unusedFunction? = ["u"] := by
    apply exists_ok_of_any
    decide +kernel
  obtain ⟨p, hparse, hmain, hg, hunused⟩ := hanalysed
  obtain ⟨scope, hscopes, -, hsymbols, hnames, htold⟩ := callGraph_exact hparse
  rw [← hnames, hunused] at htold
  have hcalls : ∀ f calls, ((analyze p).state.table.lookup f).map (·.calls) = some calls →
      ∀ g, p.Calls f g ↔ g ∈ calls := by
    intro f calls hf g
    rw [SymbolTable.lookup, hscopes, List.findSome?_singleton] at hf
    obtain ⟨symbol, hsymbol, rfl⟩ := Option.map_eq_some_iff.mp hf
    exact ((hsymbols f symbol hsymbol).2.1 g).symm
  exact ⟨p, hparse, hcalls _ _ hmain, hcalls _ _ hg, hunused, htold⟩

end Analysis

end Klein
