import Mathlib.Data.List.Basic
import Klein.Proofs.Analysis.CallGraph

namespace Klein

open Analysis

/-- A name of a parameter that does not stand for its value anywhere in the definition. To call the
    name does not count. -/
def Definition.Unused (d : Definition) (name : String) : Prop :=
  name ∈ d.parameters.items.map (·.name) ∧ Mention.identifier name ∉ d.body.mentions

instance (d : Definition) (name : String) : Decidable (d.Unused name) :=
  inferInstanceAs (Decidable (_ ∧ _))

/-- The unused parameters of a definition in order, each name once. -/
def Definition.unused (d : Definition) : List String :=
  (sortedNames (d.parameters.items.map (·.name))).filter fun name => d.Unused name

theorem Definition.mem_unused {d : Definition} {name : String} :
    name ∈ d.unused ↔ d.Unused name := by
  rw [unused, List.mem_filter, mem_sortedNames, decide_eq_true_eq, and_iff_right_iff_imp]
  exact And.left

theorem Definition.nodup_unused (d : Definition) : d.unused.Nodup :=
  (nodup_sortedNames _).filter _

namespace Analysis

variable {p : Program} {d : Definition} {name : String}

/-- The function and the parameter that a warning of an unused parameter names. -/
def Issue.unusedParameter? : Issue → Option (Option String × String)
  | unusedParameter place name => some (place, name)
  | _ => none

theorem Issue.unusedParameter?_of_isError {issue : Issue} (hissue : issue.isError = true) :
    issue.unusedParameter? = none := by
  cases issue with
  | unusedParameter => cases hissue
  | _ => rfl

theorem Findings.used_append {first second : Findings} (hfault : first.fault = none) :
    (first ++ second).used = first.used ++ second.used := by
  change (first.append second).used = _
  simp [append, hfault]

/-- The parameter whose value a use of a name asks for, if there is one. -/
def parameterUsed (d : Definition) : Mention → List String
  | .identifier name => if name ∈ d.parameters.items.map (·.name) then [name] else []
  | .call .. => []

/-- An identifier is noted as used if and only if it is a parameter. What else is called so does not
    matter, since parameters hide functions. -/
theorem used_judgeIdentifier (p : Program) (d : Definition) (name : String) :
    (judgeIdentifier (p.envIn d) name).findings.used = parameterUsed d (.identifier name) := by
  rw [judgeIdentifier, parameterUsed]
  by_cases hname : name ∈ d.parameters.items.map (·.name)
  · obtain ⟨q, hq⟩ := resolve_of_mem hname
    rw [hq, if_pos hname]
    cases htype : q.type.base <;> simp [parameterSymbol, htype, BaseType.ty, Program.envIn]
  · rw [resolve_of_not_mem hname, if_neg hname]
    rcases globalSymbol_arity p name with ⟨hnone, -⟩ | ⟨symbol, _, _, hsymbol, -, htype, -⟩
    · simp [hnone, Verdict.wrong, Findings.ofIssue]
    · simp [hsymbol, htype, Verdict.wrong, Findings.ofIssue]

theorem used_judgeCall (p : Program) (d : Definition) (callee : String) (types : List Ty) :
    (judgeCall (p.envIn d) callee types).findings.used = [] := by
  have hinside : (p.envIn d).inFunction = true := rfl
  obtain ⟨symbol, wanted, result, -, -, -, hfindings⟩ | ⟨issue, -, hwrong⟩ :=
    judgeCall_cases hinside callee types
  · rw [hfindings, Findings.used_append rfl, List.nil_append, (notes_judgeArguments ..).2]
  · rw [hwrong]
    rfl

theorem collects_used (p : Program) (d : Definition) :
    Findings.Collects (p.envIn d) Findings.used (parameterUsed d) where
  empty := rfl
  append := Findings.used_append
  operands _ _ _ _ := (notes_judgeOperands ..).2
  identifier := used_judgeIdentifier p d
  call := used_judgeCall p d

/-- The parameters that are noted as used are those whose values stand somewhere in the body. -/
theorem mem_used_checkedBody :
    name ∈ (p.checkedBody d).findings.used ↔
      name ∈ d.parameters.items.map (·.name) ∧ Mention.identifier name ∈ d.body.mentions := by
  rw [Program.checkedBody, collected_checkBody (collects_used p d) rfl d.body, List.mem_flatMap]
  constructor
  · rintro ⟨mention, hmention, hname⟩
    cases mention with
    | identifier other =>
      rw [parameterUsed] at hname
      split at hname
      · rename_i hother
        obtain rfl := List.mem_singleton.mp hname
        exact ⟨hother, hmention⟩
      · cases hname
    | call => cases hname
  · rintro ⟨hname, hmention⟩
    exact ⟨_, hmention, by simp only [parameterUsed, if_pos hname, List.mem_singleton]⟩

theorem unusedParameters_checkedBody (p : Program) (d : Definition) :
    unusedParameters (d.parameters.items.map (·.name)) (p.checkedBody d).findings.used =
      d.unused := by
  rw [unusedParameters, Definition.unused]
  refine List.filter_congr fun name hname => ?_
  have hparameter := mem_sortedNames.mp hname
  simp only [Definition.Unused, hparameter, true_and, decide_not, List.contains_eq_mem,
    mem_used_checkedBody]

theorem unusedParameter?_issuesIn (p : Program) (d : Definition) :
    (p.issuesIn d).filterMap Issue.unusedParameter? =
      d.unused.map fun name => (some d.name, name) := by
  have hrepeated : ∀ names : List String,
      (names.map (Issue.duplicateParameter (some d.name))).filterMap Issue.unusedParameter? =
        [] := by
    simp [Issue.unusedParameter?]
  have hbody : (p.checkedBody d).findings.issues.filterMap Issue.unusedParameter? = [] := by
    rw [List.filterMap_eq_nil_iff]
    intro issue hissue
    exact Issue.unusedParameter?_of_isError (isError_of_mem_checkBody rfl hissue)
  have hunused : ∀ names : List String,
      (names.map (Issue.unusedParameter (some d.name))).filterMap Issue.unusedParameter? =
        names.map fun name => (some d.name, name) := by
    intro names
    rw [List.filterMap_map, ← List.filterMap_eq_map]
    rfl
  have hresult : (if (p.checkedBody d).type.agrees d.returnType.base.ty then []
      else [Issue.wrongResult d.name d.returnType.base.ty (p.checkedBody d).type]).filterMap
        Issue.unusedParameter? = [] := by
    split <;> rfl
  rw [Program.issuesIn, List.filterMap_append, List.filterMap_append, List.filterMap_append,
    hrepeated, hbody, unusedParameters_checkedBody, hunused, hresult, List.append_nil,
    List.nil_append, List.nil_append]

/-- The warnings of unused parameters, definition by definition. Neither the declarations nor the
    search for unused functions add to them. -/
theorem unusedParameter?_analyze (hlegal : p.Legal) :
    (analyze p).state.issues.filterMap Issue.unusedParameter? =
      p.definitions.flatMap fun d => d.unused.map fun name => (some d.name, name) := by
  obtain ⟨-, hissues, -, -⟩ := analyze_eq hlegal
  have hdeclared : p.declarationIssues.filterMap Issue.unusedParameter? = [] := by
    rw [Program.declarationIssues, List.filterMap_append]
    split <;> simp [Issue.unusedParameter?]
  have hfunctions : (unusedFunctions (.ofSymbols p.finalSymbols)).filterMap
      Issue.unusedParameter? = [] := by
    rw [List.filterMap_eq_nil_iff]
    intro issue hissue
    obtain ⟨symbol, -, hsymbol⟩ := List.mem_filterMap.mp hissue
    split at hsymbol <;> cases hsymbol
    rfl
  rw [hissues, List.filterMap_append, List.filterMap_append, hdeclared, hfunctions,
    List.append_nil, List.nil_append, List.filterMap_flatMap]
  simp only [unusedParameter?_issuesIn]

/-- What is told of an unused parameter. -/
def unusedParameterText (function name : String) : String :=
  "Function " ++ function ++ ": Unused parameter " ++ name

/-- No other names are told in the same way. -/
theorem unusedParameterText_inj {function other parameter : String} (hfunction : IsName function)
    (hname : IsName name)
    (htext : unusedParameterText function name = unusedParameterText other parameter) :
    function = other ∧ name = parameter := by
  have hchars : function.toList ++ ':' :: (" Unused parameter ".toList ++ name.toList) =
      other.toList ++ ':' :: (" Unused parameter ".toList ++ parameter.toList) := by
    have hlists := congrArg String.toList htext
    simp only [unusedParameterText, String.toList_append, List.append_assoc,
      List.append_cancel_left_eq] at hlists
    exact hlists
  have hrest : ':' ∉ " Unused parameter ".toList ++ name.toList := by
    rw [List.mem_append, not_or]
    exact ⟨by decide, not_mem_colon hname⟩
  obtain ⟨hsame, -, hnames⟩ :=
    (List.append_cons_inj_of_notMem (not_mem_colon hfunction) hrest).mp hchars
  exact ⟨String.toList_inj.mp hsame, String.toList_inj.mp (List.append_cancel_left hnames)⟩

theorem text_unusedParameter (function parameter : String) :
    (Issue.unusedParameter (some function) parameter).text =
      unusedParameterText function parameter := by
  have hparts : (Issue.unusedParameter (some function) parameter).text =
      ("Function " ++ function ++ ": ") ++ ("Unused parameter " ++ parameter) := rfl
  have hmiddle : ": Unused parameter " = ": " ++ "Unused parameter " := rfl
  rw [hparts, unusedParameterText, hmiddle]
  simp only [String.append_assoc]

/-- An issue is a warning with this text if and only if it is the one of that parameter. -/
theorem isWarning_iff_unusedParameter {issue : Issue} {function : String}
    (hnames : ∀ place parameter, issue.unusedParameter? = some (place, parameter) →
      ∃ other, place = some other ∧ IsName other ∧ IsName parameter) :
    (issue.severity, issue.text) = (.warning, unusedParameterText function name) ↔
      issue.unusedParameter? = some (some function, name) := by
  rw [Prod.mk.injEq]
  cases issue with
  | unusedParameter place parameter =>
    obtain ⟨other, rfl, hother, hparameter⟩ := hnames _ _ rfl
    rw [text_unusedParameter]
    constructor
    · rintro ⟨-, htext⟩
      obtain ⟨rfl, rfl⟩ := unusedParameterText_inj hother hparameter htext
      rfl
    · intro hsame
      cases hsame
      exact ⟨rfl, rfl⟩
  | unusedFunction other =>
    refine iff_of_false ?_ (by simp [Issue.unusedParameter?])
    rintro ⟨-, htext⟩
    have hparts : (Issue.unusedFunction other).text = "Unused function " ++ other := rfl
    have hhead := congrArg (·.toList.head?) (hparts.symm.trans htext)
    simp [unusedParameterText] at hhead
  | _ => exact iff_of_false (fun h => by cases h.1) (by simp [Issue.unusedParameter?])

/-- The issues with the text of a parameter are counted by the warnings that name it. -/
theorem count_unusedParameterText (hlegal : p.Legal) (function name : String) :
    ((analyze p).state.issues.map fun issue => (issue.severity, issue.text)).count
        (.warning, unusedParameterText function name) =
      ((analyze p).state.issues.filterMap Issue.unusedParameter?).count (some function, name) := by
  rw [List.count, List.countP_map, List.count_filterMap]
  refine List.countP_congr fun issue hissue => ?_
  rw [Function.comp_apply, beq_iff_eq, beq_iff_eq]
  refine isWarning_iff_unusedParameter fun place parameter hnamed => ?_
  have hmem := List.mem_filterMap.mpr ⟨issue, hissue, hnamed⟩
  rw [unusedParameter?_analyze hlegal, List.mem_flatMap] at hmem
  obtain ⟨d, hd, hparameter⟩ := hmem
  obtain ⟨_, hunused, hsame⟩ := List.mem_map.mp hparameter
  cases hsame
  obtain ⟨q, hq, rfl⟩ := List.mem_map.mp (Definition.mem_unused.mp hunused).1
  exact ⟨d.name, rfl, (hlegal d hd).name, (hlegal d hd).parameters q hq⟩

theorem count_unused (d : Definition) (function name : String) :
    (d.unused.map fun other => (some d.name, other)).count (some function, name) =
      if d.name = function ∧ d.Unused name then 1 else 0 := by
  by_cases hfunction : d.name = function
  · subst hfunction
    have hinjective : Function.Injective fun other : String => (some d.name, other) :=
      fun _ _ hsame => (Prod.mk.inj hsame).2
    rw [List.count_map_of_injective d.unused _ hinjective, d.nodup_unused.count]
    simp [Definition.mem_unused]
  · rw [if_neg fun h => hfunction h.1, List.count_eq_zero]
    simp [hfunction]

/-- The warnings of unused parameters of a program that was parsed are exact. Definition by
    definition there is one for each name that is unused, and so each text is told as often as
    there are definitions of the function in which the parameter is unused. Errors, repeated names
    and functions of the same name make no difference. -/
theorem unusedParameters_exact {text : String} {p : Program} (hparse : parse text = .ok p) :
    (analyze p).state.issues.filterMap Issue.unusedParameter? =
        p.definitions.flatMap (fun d => d.unused.map fun name => (some d.name, name)) ∧
      ∀ function name : String,
        ((analyze p).state.issues.map fun issue => (issue.severity, issue.text)).count
            (.warning, "Function " ++ function ++ ": Unused parameter " ++ name) =
          p.definitions.countP fun d => d.name = function ∧ d.Unused name := by
  have hlegal := Parser.legal_of_parse hparse
  have hwarnings := unusedParameter?_analyze hlegal
  refine ⟨hwarnings, fun function name => ?_⟩
  have htexts := count_unusedParameterText hlegal function name
  rw [hwarnings] at htexts
  refine htexts.trans ?_
  induction p.definitions with
  | nil => rfl
  | cons d definitions ih =>
    rw [List.flatMap_cons, List.count_append, count_unused, ih, List.countP_cons, Nat.add_comm]
    simp

/-- A parameter that is repeated and only called, one that hides a function, and a function that is
    defined twice. -/
theorem unusedParameters_exact_hidden :
    ∃ p, parse "function main(f:integer, f:boolean, b:integer):integer f(b)
        function f(main:integer, x:integer):boolean print(x(y)) main
        function f(x:integer):integer 1" = .ok p ∧
      (analyze p).state.issues.filterMap Issue.unusedParameter? =
        [(some "main", "f"), (some "f", "x"), (some "f", "x")] ∧
      ((analyze p).state.issues.map fun issue => (issue.severity, issue.text)).count
        (.warning, "Function f: Unused parameter x") = 2 := by
  have hdefined : ∃ p, parse "function main(f:integer, f:boolean, b:integer):integer f(b)
        function f(main:integer, x:integer):boolean print(x(y)) main
        function f(x:integer):integer 1" = .ok p ∧
      p.definitions.flatMap (fun d => d.unused.map fun name => (some d.name, name)) =
        [(some "main", "f"), (some "f", "x"), (some "f", "x")] ∧
      (p.definitions.countP fun d => d.name = "f" ∧ d.Unused "x") = 2 := by
    apply exists_ok_of_any
    decide +kernel
  obtain ⟨p, hparse, hunused, hcount⟩ := hdefined
  obtain ⟨hwarnings, htexts⟩ := unusedParameters_exact hparse
  exact ⟨p, hparse, hwarnings.trans hunused, (htexts "f" "x").trans hcount⟩

end Analysis

end Klein
