import Klein.Tree.Form

namespace Klein.Analysis

inductive Severity
  | error
  | warning
deriving DecidableEq, Repr

/-- What can be wrong with a program that parses. The name of the function in which an issue was
    found comes first, where the issue is told with it. -/
inductive Issue
  | duplicateFunction (name : String)
  | missingMain
  | wrongResult (name : String) (wanted found : Ty)
  | duplicateParameter (place : Option String) (name : String)
  | missingIdentifier (place : Option String) (name : String)
  | functionAsIdentifier (place : Option String) (name : String)
  | missingFunction (place : Option String) (name : String)
  | parameterAsFunction (place : Option String) (name : String)
  | tooManyArguments (place : Option String) (name : String) (wanted found : Nat)
  | tooFewArguments (place : Option String) (name : String) (wanted found : Nat)
  | wrongArguments (place : Option String) (name : String) (wanted found : List Ty)
  | wrongOperand (place : Option String) (operand : String) (form : Form) (wanted found : Ty)
  | unusedParameter (place : Option String) (name : String)
  | unusedFunction (name : String)

namespace Issue

def severity : Issue → Severity
  | unusedParameter .. => .warning
  | unusedFunction .. => .warning
  | _ => .error

def isError (issue : Issue) : Bool :=
  issue.severity = .error

/-- The function that is told before an issue. -/
def placeText : Option String → String
  | some name => s!"Function {name}: "
  | none => "None"

def text : Issue → String
  | duplicateFunction name => s!"Duplicated function name {name}"
  | missingMain => "Missing a main function"
  | wrongResult name wanted found =>
    s!"Expected function {name} to return {wanted.toString} instead found {found.toString}"
  | duplicateParameter place name => placeText place ++ s!"Duplicated parameter name {name}"
  | missingIdentifier place name => placeText place ++ s!"Missing identifier {name} referenced"
  | functionAsIdentifier place name =>
    placeText place ++ s!"Attempted to use function {name} as identifier"
  | missingFunction place name =>
    placeText place ++ s!"Attempted to call non-existant function {name}"
  | parameterAsFunction place name =>
    placeText place ++ s!"Attempted to call parameter {name} as a function"
  | tooManyArguments place name wanted found =>
    placeText place ++
      s!"Too many arguments passed to {name}. Expected {wanted} and receieved {found}"
  | tooFewArguments place name wanted found =>
    placeText place ++
      s!"Too few arguments passed to {name}. Expected {wanted} and receieved {found}"
  | wrongArguments place name wanted found =>
    let wanted := Ty.sequence wanted
    let found := Ty.sequence found
    placeText place ++
      (s!"Mismatched argument types passed to {name}. " ++
        s!"Expected {wanted.toString} and received {found.toString}")
  | wrongOperand place operand form wanted found =>
    placeText place ++
      s!"Expected {operand} of {form.name} to be {wanted.toString} instead found {found.toString}"
  | unusedParameter place name => placeText place ++ s!"Unused parameter {name}"
  | unusedFunction name => s!"Unused function {name}"

/-- An issue as it is shown to the user. -/
def report (issue : Issue) : String :=
  let title := match issue.severity with
    | .error => "Error"
    | .warning => "Warning"
  s!"Klein Semantic {title}: {issue.text}"

end Issue

end Klein.Analysis
