import Klein.Proofs.Analysis.Mentions
import Klein.Proofs.Analysis.Soundness

namespace Klein

open Analysis

namespace Analysis

/-- An issue about a name that is missing, repeated or used as what it is not, or about the number
    of arguments of a call. -/
def Issue.isAboutNames : Issue → Bool
  | duplicateFunction .. | missingMain | duplicateParameter .. | missingIdentifier ..
  | functionAsIdentifier .. | missingFunction .. | parameterAsFunction .. | tooManyArguments ..
  | tooFewArguments .. => true
  | wrongResult .. | wrongArguments .. | wrongOperand .. | unusedParameter ..
  | unusedFunction .. => false

end Analysis

namespace Program

variable (p : Program) (d : Definition)

/-- The number of parameters that a function has by its first definition. -/
def arity (name : String) : Option Nat :=
  if name = "print" then some 1
  else (p.definitions.find? (·.name = name)).map (·.parameters.items.length)

/-- The issue that a use of a name in a definition has. Parameters hide functions. -/
def diagnosis : Mention → Option Issue
  | .identifier name =>
    if name ∈ d.parameters.items.map (·.name) then none
    else if (p.arity name).isSome then some (.functionAsIdentifier (some d.name) name)
    else some (.missingIdentifier (some d.name) name)
  | .call callee arguments =>
    if callee ∈ d.parameters.items.map (·.name) then
      some (.parameterAsFunction (some d.name) callee)
    else
      match p.arity callee with
      | none => some (.missingFunction (some d.name) callee)
      | some arity =>
        if arity < arguments then some (.tooManyArguments (some d.name) callee arity arguments)
        else if arguments < arity then
          some (.tooFewArguments (some d.name) callee arity arguments)
        else none

/-- The issues about names that a definition has: one for each parameter whose name was there
    before, and those of the names that are used. -/
def nameIssuesIn : List Issue :=
  (repeated [] (d.parameters.items.map (·.name))).map (.duplicateParameter (some d.name)) ++
    d.body.mentions.filterMap (p.diagnosis d)

/-- The issues about names that a program has: one for each function whose name was there before,
    one if there is no `main`, and those of its definitions. -/
def nameIssues : List Issue :=
  p.declarationIssues ++ p.definitions.flatMap p.nameIssuesIn

/-- What is told of a use of a name in a definition. -/
def complaint : Mention → Option String
  | .identifier name =>
    if name ∈ d.parameters.items.map (·.name) then none
    else if (p.arity name).isSome then
      some ("Attempted to use function " ++ name ++ " as identifier")
    else some ("Missing identifier " ++ name ++ " referenced")
  | .call callee arguments =>
    if callee ∈ d.parameters.items.map (·.name) then
      some ("Attempted to call parameter " ++ callee ++ " as a function")
    else
      match p.arity callee with
      | none => some ("Attempted to call non-existant function " ++ callee)
      | some arity =>
        if arity < arguments then
          some ("Too many arguments passed to " ++ callee ++ ". Expected " ++ toString arity ++
            " and receieved " ++ toString arguments)
        else if arguments < arity then
          some ("Too few arguments passed to " ++ callee ++ ". Expected " ++ toString arity ++
            " and receieved " ++ toString arguments)
        else none

/-- The texts of the issues about names that a definition has, with its own name before each. -/
def nameTextsIn : List String :=
  ((repeated [] (d.parameters.items.map (·.name))).map ("Duplicated parameter name " ++ ·) ++
    d.body.mentions.filterMap (p.complaint d)).map ("Function " ++ d.name ++ ": " ++ ·)

/-- The texts of the issues about names that a program has. -/
def nameTexts : List String :=
  ((repeated [] (p.definitions.map (·.name))).map ("Duplicated function name " ++ ·) ++
    if "main" ∈ p.definitions.map (·.name) then [] else ["Missing a main function"]) ++
    p.definitions.flatMap p.nameTextsIn

end Program

/-- A text that an issue about names can have, with the name of a function before it in most
    cases. -/
inductive NameText : String → Prop
  | duplicateFunction (name : String) : NameText ("Duplicated function name " ++ name)
  | missingMain : NameText "Missing a main function"
  | inFunction {function text start : String} : IsName function → start.toList <+: text.toList →
      start ∈ ["Duplicated parameter name ", "Missing identifier ", "Attempted to use function ",
        "Attempted to call parameter ", "Attempted to call non-existant function ",
        "Too many arguments passed to ", "Too few arguments passed to "] →
      NameText ("Function " ++ function ++ ": " ++ text)

namespace Analysis

variable {p : Program} {d : Definition} {name callee : String}

theorem resolve_of_mem (hname : name ∈ d.parameters.items.map (·.name)) :
    ∃ q : Parameter, (p.envIn d).resolve name = some (parameterSymbol q) := by
  obtain ⟨q, hq, hsame⟩ := List.mem_map.mp hname
  have hfound : (d.parameters.items.find? (·.name = name)).isSome = true := by
    rw [List.find?_isSome]
    exact ⟨q, hq, by simpa using hsame⟩
  obtain ⟨first, hfirst⟩ := Option.isSome_iff_exists.mp hfound
  exact ⟨first, by simp [Program.envIn, hfirst]⟩

theorem resolve_of_not_mem (hname : name ∉ d.parameters.items.map (·.name)) :
    (p.envIn d).resolve name = p.globalSymbol name := by
  have hnone : d.parameters.items.find? (·.name = name) = none := by
    rw [List.find?_eq_none]
    simpa using hname
  simp [Program.envIn, hnone]

/-- The functions of a program are the names that have an arity. -/
theorem globalSymbol_arity (p : Program) (name : String) :
    (p.globalSymbol name = none ∧ p.arity name = none) ∨
      ∃ symbol wanted result, p.globalSymbol name = some symbol ∧ symbol.name = name ∧
        symbol.type = .function wanted result ∧ p.arity name = some wanted.length := by
  unfold Program.globalSymbol Program.arity
  by_cases hprint : name = "print"
  · subst hprint
    exact .inr ⟨printSymbol, _, _, rfl, rfl, rfl, rfl⟩
  · simp only [hprint, if_false]
    cases hfound : p.definitions.find? (·.name = name) with
    | none => exact .inl ⟨rfl, rfl⟩
    | some e =>
      have hname : e.name = name := by simpa using List.find?_some hfound
      exact .inr ⟨functionSymbol e, _, _, rfl, hname, rfl, by simp [parameterTypes]⟩

theorem judgeIdentifier_names (p : Program) (d : Definition) (name : String) :
    (judgeIdentifier (p.envIn d) name).findings.issues.filter Issue.isAboutNames =
      (p.diagnosis d (.identifier name)).toList := by
  rw [judgeIdentifier, Program.diagnosis]
  by_cases hname : name ∈ d.parameters.items.map (·.name)
  · -- a parameter never has the type of a function
    obtain ⟨q, hq⟩ := resolve_of_mem hname
    rw [hq, if_pos hname]
    cases htype : q.type.base <;> simp [parameterSymbol, htype, BaseType.ty, Program.envIn]
  · rw [resolve_of_not_mem hname, if_neg hname]
    rcases globalSymbol_arity p name with
      ⟨hnone, harity⟩ | ⟨symbol, _, _, hsymbol, rfl, htype, harity⟩
    · simp [hnone, harity, Verdict.wrong, Findings.ofIssue, Issue.isAboutNames, Program.envIn]
    · simp [hsymbol, htype, harity, Verdict.wrong, Findings.ofIssue, Issue.isAboutNames,
        Program.envIn]

theorem length_of_agreeEach {found wanted : List Ty}
    (hagree : Ty.agreeEach false found wanted = true) : found.length = wanted.length := by
  induction found generalizing wanted with
  | nil =>
    cases wanted with
    | nil => rfl
    | cons => simp [Ty.agreeEach] at hagree
  | cons a found ih =>
    cases wanted with
    | nil => simp [Ty.agreeEach] at hagree
    | cons b wanted =>
      simp only [Ty.agreeEach, Bool.and_eq_true] at hagree
      rw [List.length_cons, List.length_cons, ih hagree.2]

/-- Whatever the types of arguments are, it is noticed if their number is wrong. -/
theorem judgeArguments_names (place : Option String) (callee : String) (wanted found : List Ty)
    (result : Ty) :
    (judgeArguments place callee wanted found result).findings.issues.filter Issue.isAboutNames =
      if wanted.length < found.length then
        [.tooManyArguments place callee wanted.length found.length]
      else if found.length < wanted.length then
        [.tooFewArguments place callee wanted.length found.length]
      else [] := by
  unfold judgeArguments
  by_cases hagrees : (Ty.sequence found).agrees (.sequence wanted) = true
  · -- annotations agree one by one, so their number is right where they do
    have hlength : found.length = wanted.length :=
      length_of_agreeEach (by simpa [Ty.agrees, Ty.agreesOr] using hagrees)
    simp [hagrees, hlength]
  · rw [if_neg hagrees]
    split
    · rfl
    · split <;> rfl

theorem judgeCall_names (p : Program) (d : Definition) (callee : String) (found : List Ty) :
    (judgeCall (p.envIn d) callee found).findings.issues.filter Issue.isAboutNames =
      (p.diagnosis d (.call callee found.length)).toList := by
  rw [judgeCall, Program.diagnosis]
  by_cases hname : callee ∈ d.parameters.items.map (·.name)
  · obtain ⟨q, hq⟩ := resolve_of_mem hname
    rw [hq, if_pos hname]
    cases htype : q.type.base <;>
      simp [parameterSymbol, htype, BaseType.ty, Verdict.wrong, Findings.ofIssue,
        Issue.isAboutNames, Program.envIn]
  · rw [resolve_of_not_mem hname, if_neg hname]
    rcases globalSymbol_arity p callee with
      ⟨hnone, harity⟩ | ⟨symbol, wanted, result, hsymbol, rfl, htype, harity⟩
    · simp [hnone, harity, Verdict.wrong, Findings.ofIssue, Issue.isAboutNames, Program.envIn]
    · have hinside : (p.envIn d).inFunction = true := rfl
      have hplace : (p.envIn d).place = some d.name := rfl
      simp only [hsymbol, htype, harity, hinside, hplace, if_true]
      rw [Findings.issues_append rfl, List.nil_append, judgeArguments_names]
      split
      · rfl
      · split <;> rfl

theorem judgeOperands_names (place : Option String) (form : Form) (wanted result : Ty)
    (operands : List (String × Ty)) :
    (judgeOperands place form wanted result operands).findings.issues.filter Issue.isAboutNames =
      [] := by
  induction operands with
  | nil => rfl
  | cons operand operands ih =>
    rw [judgeOperands]
    split
    · exact ih
    · rfl

/-- The issues about names are gathered from the uses of names, each by itself. -/
theorem collects_names (p : Program) (d : Definition) :
    Findings.Collects (p.envIn d) (fun f => f.issues.filter Issue.isAboutNames) fun mention =>
      (p.diagnosis d mention).toList where
  empty := rfl
  append hfault := by rw [Findings.issues_append hfault, List.filter_append]
  operands := judgeOperands_names _
  identifier := judgeIdentifier_names p d
  call := judgeCall_names p d

theorem checkedBody_names (p : Program) (d : Definition) :
    (p.checkedBody d).findings.issues.filter Issue.isAboutNames =
      d.body.mentions.filterMap (p.diagnosis d) := by
  rw [List.filterMap_eq_flatMap_toList]
  exact collected_checkBody (collects_names p d) rfl d.body

theorem issuesIn_names (p : Program) (d : Definition) :
    (p.issuesIn d).filter Issue.isAboutNames = p.nameIssuesIn d := by
  have hparameters : ∀ names : List String,
      (names.map (Issue.duplicateParameter (some d.name))).filter Issue.isAboutNames =
        names.map (.duplicateParameter (some d.name)) := by
    simp [Issue.isAboutNames]
  have hunused : ∀ names : List String,
      (names.map (Issue.unusedParameter (some d.name))).filter Issue.isAboutNames = [] := by
    simp [Issue.isAboutNames]
  have hresult : (if (p.checkedBody d).type.agrees d.returnType.base.ty then []
      else [Issue.wrongResult d.name d.returnType.base.ty (p.checkedBody d).type]).filter
        Issue.isAboutNames = [] := by
    split <;> rfl
  rw [Program.issuesIn, List.filter_append, List.filter_append, List.filter_append, hparameters,
    checkedBody_names, hunused, hresult, List.append_nil, List.append_nil, Program.nameIssuesIn]

theorem unusedFunctions_names (table : SymbolTable) :
    (unusedFunctions table).filter Issue.isAboutNames = [] := by
  rw [List.filter_eq_nil_iff]
  intro issue hissue
  obtain ⟨symbol, -, hsymbol⟩ := List.mem_filterMap.mp hissue
  split at hsymbol <;> cases hsymbol
  simp [Issue.isAboutNames]

theorem nameIssues_analyze (hlegal : p.Legal) :
    (analyze p).state.issues.filter Issue.isAboutNames = p.nameIssues := by
  obtain ⟨-, hissues, -, -⟩ := analyze_eq hlegal
  have hdeclared : p.declarationIssues.filter Issue.isAboutNames = p.declarationIssues := by
    rw [List.filter_eq_self, Program.declarationIssues, List.forall_mem_append]
    refine ⟨by simp [Issue.isAboutNames], ?_⟩
    split <;> simp [Issue.isAboutNames]
  rw [hissues, List.filter_append, List.filter_append, hdeclared, unusedFunctions_names,
    List.append_nil, List.filter_flatMap]
  simp only [issuesIn_names, Program.nameIssues]

theorem told_diagnosis (p : Program) (d : Definition) (mention : Mention) :
    (p.diagnosis d mention).map (fun issue => (issue.severity, issue.text)) =
      (p.complaint d mention).map fun text =>
        (.error, "Function " ++ d.name ++ ": " ++ text) := by
  cases mention with
  | identifier name =>
    rw [Program.diagnosis, Program.complaint]
    split
    · rfl
    · split <;> rfl
  | call callee arguments =>
    rw [Program.diagnosis, Program.complaint]
    split
    · rfl
    · cases p.arity callee with
      | none => rfl
      | some arity =>
        dsimp only
        split
        · rfl
        · split <;> rfl

theorem told_nameIssuesIn (p : Program) (d : Definition) :
    (p.nameIssuesIn d).map (fun issue => (issue.severity, issue.text)) =
      (p.nameTextsIn d).map fun text => (.error, text) := by
  rw [Program.nameIssuesIn, Program.nameTextsIn, List.map_append, List.map_append, List.map_append,
    List.map_filterMap, List.map_map, List.map_map, List.map_filterMap, List.map_filterMap]
  congr 1
  · rw [List.map_map]
    rfl
  · refine List.filterMap_congr fun mention _ => ?_
    rw [told_diagnosis, Option.map_map]
    rfl

/-- All of the issues about names are errors, and told in these texts. -/
theorem told_nameIssues (p : Program) :
    p.nameIssues.map (fun issue => (issue.severity, issue.text)) =
      p.nameTexts.map fun text => (.error, text) := by
  have hdeclared : p.declarationIssues.map (fun issue => (issue.severity, issue.text)) =
      ((repeated [] (p.definitions.map (·.name))).map ("Duplicated function name " ++ ·) ++
        if "main" ∈ p.definitions.map (·.name) then [] else ["Missing a main function"]).map
          fun text => (.error, text) := by
    rw [Program.declarationIssues, List.map_append, List.map_append, List.map_map, List.map_map]
    congr 1
    split <;> rfl
  rw [Program.nameIssues, Program.nameTexts, List.map_append, List.map_append, hdeclared,
    List.map_flatMap, List.map_flatMap]
  simp only [told_nameIssuesIn]

/-- An issue about types that is told with the name of another function. -/
def Issue.isAstray (function : String) : Issue → Bool
  | wrongArguments place .. | wrongOperand place .. => place ≠ some function
  | _ => false

theorem collects_astray (p : Program) (d : Definition) :
    Findings.Collects (p.envIn d) (fun f => f.issues.filter (Issue.isAstray d.name))
      fun _ => [] where
  empty := rfl
  append hfault := by rw [Findings.issues_append hfault, List.filter_append]
  operands form wanted result operands := by
    induction operands with
    | nil => rfl
    | cons operand operands ih =>
      rw [judgeOperands]
      split
      · exact ih
      · simp [Verdict.wrong, Findings.ofIssue, Issue.isAstray, Program.envIn]
  identifier name := by
    rw [judgeIdentifier]
    split
    · rfl
    · split
      · rfl
      · split <;> rfl
  call callee types := by
    have hinside : (p.envIn d).inFunction = true := rfl
    rw [judgeCall]
    split
    · rfl
    · split
      · rw [if_pos hinside, Findings.issues_append rfl, List.nil_append]
        unfold judgeArguments
        split
        · rfl
        · split
          · rfl
          · split
            · rfl
            · simp [Verdict.wrong, Findings.ofIssue, Issue.isAstray, Program.envIn]
      · rfl

/-- The errors of a program that are not about names, and what they are told with. -/
inductive TypeIssue (p : Program) : Issue → Prop
  | result (name : String) (wanted found : Ty) : TypeIssue p (.wrongResult name wanted found)
  | arguments {d : Definition} (hd : d ∈ p.definitions) (callee : String) (wanted found : List Ty) :
      TypeIssue p (.wrongArguments (some d.name) callee wanted found)
  | operand {d : Definition} (hd : d ∈ p.definitions) (operand : String) (form : Form)
      (wanted found : Ty) : TypeIssue p (.wrongOperand (some d.name) operand form wanted found)

theorem typeIssue_of_mem_checkedBody {d : Definition} (hd : d ∈ p.definitions) {issue : Issue}
    (hbody : issue ∈ (p.checkedBody d).findings.issues) (herror : issue.severity = .error)
    (hnames : issue.isAboutNames = false) : TypeIssue p issue := by
  have hplace : issue.isAstray d.name = false := by
    have hnone := collected_checkBody (collects_astray p d) rfl d.body
    rw [List.flatMap_eq_nil_iff.mpr fun _ _ => rfl, List.filter_eq_nil_iff] at hnone
    simpa using hnone issue hbody
  cases issue with
  | wrongResult name wanted found => exact .result name wanted found
  | wrongArguments place callee wanted found =>
    obtain rfl : place = some d.name := by simpa [Issue.isAstray] using hplace
    exact .arguments hd callee wanted found
  | wrongOperand place operand form wanted found =>
    obtain rfl : place = some d.name := by simpa [Issue.isAstray] using hplace
    exact .operand hd operand form wanted found
  | unusedParameter | unusedFunction => cases herror
  | _ => cases hnames

theorem typeIssue_of_error (hlegal : p.Legal) {issue : Issue}
    (hissue : issue ∈ (analyze p).state.issues) (herror : issue.severity = .error)
    (hnames : issue.isAboutNames = false) : TypeIssue p issue := by
  obtain ⟨-, hissues, -, -⟩ := analyze_eq hlegal
  rw [hissues, List.mem_append, List.mem_append, List.mem_flatMap] at hissue
  rcases hissue with (hdeclared | ⟨d, hd, hissue⟩) | hunused
  · rw [Program.declarationIssues, List.mem_append, List.mem_map] at hdeclared
    rcases hdeclared with ⟨name, -, rfl⟩ | hmain
    · cases hnames
    · split at hmain
      · cases hmain
      · cases List.mem_singleton.mp hmain
        cases hnames
  · rw [Program.issuesIn] at hissue
    simp only [List.mem_append, List.mem_map] at hissue
    rcases hissue with ⟨name, -, rfl⟩ | hbody | ⟨name, -, rfl⟩ | hresult
    · cases hnames
    · exact typeIssue_of_mem_checkedBody hd hbody herror hnames
    · cases herror
    · split at hresult
      · cases hresult
      · cases List.mem_singleton.mp hresult
        exact .result _ _ _
  · obtain ⟨symbol, -, hsymbol⟩ := List.mem_filterMap.mp hunused
    split at hsymbol <;> cases hsymbol
    cases herror

theorem not_mem_colon (hname : IsName name) : ':' ∉ name.toList :=
  fun hcolon => absurd (hname.chars _ hcolon) (by decide)

/-- What is told in a function tells the name of the function. -/
theorem functionText_inj {function other text rest : String} (hfunction : IsName function)
    (hother : IsName other)
    (hsame : "Function " ++ function ++ ": " ++ text = "Function " ++ other ++ ": " ++ rest) :
    function = other ∧ text = rest := by
  have hchars : function.toList ++ ':' :: ' ' :: text.toList =
      other.toList ++ ':' :: ' ' :: rest.toList := by
    have hlists := congrArg String.toList hsame
    simp only [String.toList_append, List.append_assoc, List.append_cancel_left_eq] at hlists
    exact hlists
  have hnil : ∀ {first second between : List Char} {tail others : List Char}, ':' ∉ second →
      second = first ++ between → ':' :: tail = between ++ ':' :: others → between = [] := by
    intro first second between tail others hnot hsecond hsplit
    cases between with
    | nil => rfl
    | cons c between =>
      obtain ⟨rfl, -⟩ := List.cons.inj hsplit
      exact absurd (by simp [hsecond]) hnot
  rcases List.append_eq_append_iff.mp hchars with
    ⟨between, hlong, hsplit⟩ | ⟨between, hlong, hsplit⟩
  · obtain rfl := hnil (not_mem_colon hother) hlong hsplit
    rw [List.append_nil] at hlong
    simp only [List.nil_append, List.cons.injEq, true_and] at hsplit
    exact ⟨(String.toList_inj.mp hlong).symm, String.toList_inj.mp hsplit⟩
  · obtain rfl := hnil (not_mem_colon hfunction) hlong hsplit
    rw [List.append_nil] at hlong
    simp only [List.nil_append, List.cons.injEq, true_and] at hsplit
    exact ⟨String.toList_inj.mp hlong, (String.toList_inj.mp hsplit).symm⟩

/-- In a function, an issue about names starts with other letters than one about types. -/
theorem not_nameText_inFunction {function text : String} (hfunction : IsName function)
    (hstart : text.toList.take 4 = ['M', 'i', 's', 'm'] ∨
      text.toList.take 4 = ['E', 'x', 'p', 'e']) :
    ¬NameText ("Function " ++ function ++ ": " ++ text) := by
  intro htold
  generalize htext : "Function " ++ function ++ ": " ++ text = told at htold
  cases htold with
  | duplicateFunction | missingMain =>
    have hhead := congrArg (·.toList.head?) htext
    simp at hhead
  | @inFunction other _ start hother hprefix hmem =>
    obtain ⟨-, rfl⟩ := functionText_inj hfunction hother htext
    obtain ⟨rest, hrest⟩ := hprefix
    have hstarts : ∀ start ∈ ["Duplicated parameter name ", "Missing identifier ",
        "Attempted to use function ", "Attempted to call parameter ",
        "Attempted to call non-existant function ", "Too many arguments passed to ",
        "Too few arguments passed to "], 4 ≤ start.toList.length ∧
          start.toList.take 4 ≠ ['M', 'i', 's', 'm'] ∧
          start.toList.take 4 ≠ ['E', 'x', 'p', 'e'] := by
      decide +kernel
    obtain ⟨hlength, hmismatched, hexpected⟩ := hstarts start hmem
    rw [← hrest, List.take_append_of_le_length hlength] at hstart
    exact hstart.elim hmismatched hexpected

/-- No issue about types is told like one about names. -/
theorem not_nameText (hlegal : p.Legal) {issue : Issue} (hissue : TypeIssue p issue) :
    ¬NameText issue.text := by
  cases hissue with
  | result name wanted found =>
    intro htold
    have hparts : (Issue.wrongResult name wanted found).text = "Expected function " ++ name ++
        " to return " ++ wanted.toString ++ " instead found " ++ found.toString := rfl
    have hhead : (Issue.wrongResult name wanted found).text.toList.head? = some 'E' := by
      simp [hparts]
    generalize (Issue.wrongResult name wanted found).text = told at htold hhead
    cases htold <;> simp at hhead
  | arguments hd callee wanted found =>
    refine not_nameText_inFunction (hlegal _ hd).name (.inl ?_)
    simp [ToString.toString]
  | operand hd operand form wanted found =>
    refine not_nameText_inFunction (hlegal _ hd).name (.inr ?_)
    simp [ToString.toString]

/-- An error with a text about names is an issue about names, so that text is told as often as
    there are such issues. -/
theorem count_nameTexts (hlegal : p.Legal) {told : String} (htold : NameText told) :
    ((analyze p).state.issues.map fun issue => (issue.severity, issue.text)).count
        (.error, told) = p.nameTexts.count told := by
  have hnames : ∀ issue ∈ (analyze p).state.issues,
      (issue.severity, issue.text) = (.error, told) → issue.isAboutNames = true := by
    intro issue hissue hsame
    obtain ⟨herror, rfl⟩ := Prod.mk.inj hsame
    by_contra hnot
    rw [Bool.not_eq_true] at hnot
    exact not_nameText hlegal (typeIssue_of_error hlegal hissue herror hnot) htold
  have hinjective : Function.Injective fun text : String => (Severity.error, text) :=
    fun _ _ hsame => (Prod.mk.inj hsame).2
  rw [← List.count_map_of_injective p.nameTexts _ hinjective, ← told_nameIssues,
    ← nameIssues_analyze hlegal, List.count_eq_countP, List.count_eq_countP, List.countP_map,
    List.countP_map, List.countP_filter]
  refine List.countP_congr fun issue hissue => ?_
  simp only [Function.comp_apply, beq_iff_eq, Bool.and_eq_true]
  exact ⟨fun hsame => ⟨hsame, hnames issue hissue hsame⟩, And.left⟩

/-- The issues about names and numbers of arguments that are found in a program that was parsed are
    those that it has. Each use of a name has the one issue that it deserves, and no other. They are
    errors with these texts, and each text of this kind is told as often as it is deserved. -/
theorem nameIssues_exact {text : String} {p : Program} (hparse : parse text = .ok p) :
    (analyze p).state.issues.filter Issue.isAboutNames = p.nameIssues ∧
      p.nameIssues.map (fun issue => (issue.severity, issue.text)) =
        p.nameTexts.map (fun told => (.error, told)) ∧
      ∀ told, NameText told →
        ((analyze p).state.issues.map fun issue => (issue.severity, issue.text)).count
          (.error, told) = p.nameTexts.count told := by
  have hlegal := Parser.legal_of_parse hparse
  exact ⟨nameIssues_analyze hlegal, told_nameIssues p, fun told => count_nameTexts hlegal⟩

/-- All of these issues, some of them below others. -/
theorem nameIssues_exact_all :
    ∃ p, parse "function f(a:integer, a:boolean):integer print(f) a(g(f(b)), f(1, a, 2))
        function f():boolean true" = .ok p ∧
      ((analyze p).state.issues.filter Issue.isAboutNames).map
          (fun issue => (issue.severity, issue.text)) =
        ["Duplicated function name f", "Missing a main function",
          "Function f: Duplicated parameter name a",
          "Function f: Attempted to use function f as identifier",
          "Function f: Missing identifier b referenced",
          "Function f: Too few arguments passed to f. Expected 2 and receieved 1",
          "Function f: Attempted to call non-existant function g",
          "Function f: Too many arguments passed to f. Expected 2 and receieved 3",
          "Function f: Attempted to call parameter a as a function"].map
            fun told => (Severity.error, told) := by
  have hparsed : ∃ p, parse "function f(a:integer, a:boolean):integer print(f) a(g(f(b)), f(1, a, 2))
        function f():boolean true" = .ok p ∧ p.nameTexts =
        ["Duplicated function name f", "Missing a main function",
          "Function f: Duplicated parameter name a",
          "Function f: Attempted to use function f as identifier",
          "Function f: Missing identifier b referenced",
          "Function f: Too few arguments passed to f. Expected 2 and receieved 1",
          "Function f: Attempted to call non-existant function g",
          "Function f: Too many arguments passed to f. Expected 2 and receieved 3",
          "Function f: Attempted to call parameter a as a function"] := by
    apply exists_ok_of_any
    decide +kernel
  obtain ⟨p, hparse, htexts⟩ := hparsed
  obtain ⟨hissues, htold, -⟩ := nameIssues_exact hparse
  exact ⟨p, hparse, by rw [hissues, htold, htexts]⟩

end Analysis

end Klein
