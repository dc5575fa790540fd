import Klein.Fault
import Klein.Machine.Layout
import Klein.SymbolTable
import Klein.Text.Decimal
import Klein.Tree.Path

namespace Klein

open Machine Text

/-- A line of code: a remark, or an instruction with its number in the listing. -/
inductive CodeLine
  | remark (text : String)
  | instruction (number : Int) (i : Instruction) (comment : Option String)
deriving DecidableEq, Repr

/-- The line of the listing. -/
def CodeLine.line : CodeLine → Line
  | remark text => .remark text
  | instruction number i comment => .entry ⟨number, i.command, comment⟩

/-- Why no code can be made for a part of a program. -/
inductive CodeError
  | missingFunction (name : String)
  | notFunction (name : String) (type : Ty)
  | unsupported (form : Form)
  | index (e : IndexError)

def CodeError.message : CodeError → String
  | missingFunction name => codeReport s!"Missing {name} function in symbol table"
  | notFunction name type =>
    codeReport
      (s!"{name} symbol type was expected to be function. " ++ s!"Instead found {type.form}")
  | unsupported form =>
    codeReport s!"Generating code for expression of type {form.name} is not yet implemented"
  | index e => e.message

/-- The making of code. A command is numbered when it is made, wherever it is put later on, so the
    layout of the listing is handed on from one step to the next. It is not taken back when an error
    ends the making. -/
abbrev Making := ExceptT CodeError (StateM Layout)

/-- Code in the making: its lines in the order in which they are to be printed. -/
abbrev Code := Making (List CodeLine)

namespace Register

def temporary : Int := 2

/-- Holds the value that a function returns. -/
def result : Int := 4

/-- Points at the return address in the frame of the function at work. -/
def status : Int := 5

/-- Points behind the frame of the function at work. -/
def top : Int := 6

/-- The address of the next instruction. -/
def counter : Int := 7

end Register

open Register

/-- Make a command, which gets the next number. -/
def command (i : Instruction) (comment : Option String) : Making CodeLine := do
  let (e, l) := (← get).append i.command comment
  set l
  return .instruction e.number i comment

/-- A command without a comment. -/
def plain (i : Instruction) : Making CodeLine :=
  command i none

/-- A command with a comment. -/
def noted (i : Instruction) (comment : String) : Making CodeLine :=
  command i (some comment)

def remark (text : String) : Making CodeLine :=
  return .remark text

/-- Make lines one after another. -/
def inTurn (lines : List (Making CodeLine)) : Code :=
  lines.mapM id

/-- The number of parameters of a function. -/
def parameterCount (table : SymbolTable) (name : String) : Except CodeError Nat :=
  match table.lookup name with
  | none => .error (.missingFunction name)
  | some symbol =>
    match symbol.type with
    | .function source _ => .ok source.length
    | type => .error (.notFunction name type)

/-- Where an argument is found: in a register, or in memory at an offset from the status pointer. -/
inductive Location
  | register (r : Int)
  | memory (offset : Int)
  | nowhere
deriving DecidableEq, Repr

/-- Compute the return address with the help of the top pointer, and set the top pointer anew. -/
def linkage (storeNote topNote : String) : Code :=
  inTurn
    [remark "Do some math to get correct return addr (uses top reg but restores it)",
     plain (.loadConstant top 3),
     plain (.add top top counter),
     noted (.store top 0 status) storeNote,
     noted (.loadAddress top 6 status) topNote]

/-- Move an argument of the program up by one cell. -/
def moveArgument (i : Nat) : Code :=
  inTurn
    [noted (.load temporary i top) s!"Copy arg #{i}",
     noted (.store temporary (i + 1) top) "Move to next position"]

/-- Move the arguments of the program up by one cell, the last one first. -/
def moveArguments (count : Nat) : Code := do
  return (← (List.range count).reverse.mapM moveArgument).flatten

/-- The address of the function for output, behind the code that sets up the program. -/
def printAddress (mainParameters : Nat) : Int :=
  10 + 2 * mainParameters

/-- The address of the first definition, behind the function for output. -/
def mainAddress (mainParameters : Nat) : Int :=
  21 + 2 * mainParameters

/-- Code that calls `main`, outputs its value and halts. -/
def setupCode (table : SymbolTable) : Code := do
  let n ← parameterCount table "main"
  let start ← inTurn
    [plain (.loadConstant top 1), noted (.store top (n + top) top) "Store current top"]
  let moves ← moveArguments n
  let update ← noted (.loadAddress status (1 + n) top) "Update status"
  let link ← linkage "Store the return address" "Set the new top pointer"
  let finish ← inTurn
    [noted (.loadConstant counter (mainAddress n)) "Jump to main",
     noted (.output result) "Printing main return value",
     plain .halt]
  return start ++ moves ++ update :: link ++ finish

/-- Store an argument in its cell of the frame to be. -/
def passArgument (cell : Nat) : Location → Code
  | .register r => inTurn [noted (.store r cell top) "Load value from register into arg slot"]
  | .memory offset =>
    inTurn
      [remark "Load value from memory into arg slot",
       plain (.load status offset status),
       plain (.store status cell top)]
  | .nowhere => return []

/-- Pass arguments, the last one in the first cell. -/
def passArguments (locations : List Location) : Code := do
  let passed ← locations.reverse.zipIdx.mapM fun (location, i) => passArgument (i + 1) location
  return passed.flatten

/-- The part of a call that the caller does: save its pointers, pass the arguments, lay out the new
    frame, and jump. -/
def callSequence (table : SymbolTable) (name : String) (address : Int) (locations : List Location) :
    Code := do
  let n ← parameterCount table name
  let saved ← inTurn
    [noted (.store status (n + 5) top) "Store current status",
     noted (.store top (n + 6) top) "Store current top"]
  let passed ← passArguments locations
  let update ← noted (.loadAddress status (1 + n) top) "Update status"
  let link ← linkage "Store return address" "Restore top reg to its real value"
  let jump ← plain (.loadConstant counter address)
  return saved ++ passed ++ update :: link ++ [jump]

/-- A call between remarks that tell of it. -/
def callCode (table : SymbolTable) (name : String) (address : Int) (locations : List Location) :
    Code := do
  let before ← remark s!"Calling {name}"
  let call ← callSequence table name address locations
  let after ← remark s!"Returning from {name}"
  return before :: call ++ [after]

/-- The registers that a function leaves as it found them. -/
def savedRegisters : List Int := [1, 2, 3]

/-- The start of every function. -/
def entrySequence : Code :=
  savedRegisters.mapM fun r => plain (.store r r status)

/-- The end of every function. -/
def exitSequence (parameters : Nat) : Code := do
  let restored ← savedRegisters.mapM fun r => plain (.load r r status)
  let back ← inTurn
    [noted (.load top 5 status) "Restore top pointer",
     noted (.load status 4 status) "Restore status pointer",
     noted (.load counter (1 + parameters) top) "Restore program counter"]
  return restored ++ back

/-- The remarks before a function. -/
def heading (name : String) : Code :=
  inTurn [remark "", remark s!"Function: {name}", remark ""]

/-- The code of the function for output. -/
def printCode (table : SymbolTable) : Code := do
  let n ← parameterCount table "print"
  let title ← heading "print"
  let saved ← entrySequence
  let work ← inTurn
    [noted (.load temporary (-1) status) "Load argument",
     noted (.output temporary) "Print value",
     remark "Nothing to do with return value"]
  let back ← exitSequence n
  return title ++ saved ++ work ++ back

/-- Code that puts the value of a node into a register. Only integers can be computed. -/
def valueCode (r : Int) (node : Node) : Code :=
  match node with
  | .expr (.integer _ text) => inTurn [plain (.loadConstant r ((readInteger? text).getD 0))]
  | node => throw (.unsupported node.form)

/-- The argument of a call for output. -/
def printArgument (c : Call) : Except CodeError Expr :=
  match elementAt "tuple" "int" c.arguments.items.toList 0 with
  | .ok a => .ok a.value
  | .error e => .error (.index e)

/-- Code that outputs the value of an argument. -/
def outputCode (table : SymbolTable) (address : Int) (c : Call) : Code := do
  let argument ← printArgument c
  let value ← valueCode temporary (.expr argument)
  let call ← callCode table "print" address [.register temporary]
  return value ++ call

/-- The code of a definition. -/
def functionCode (table : SymbolTable) (d : Definition) : Code := do
  let mainParameters ← parameterCount table "main"
  let title ← heading d.name
  let saved ← entrySequence
  let outputs ← d.body.prints.mapM (outputCode table (printAddress mainParameters))
  let value ← valueCode result (.expr d.body.result)
  let store ← plain (.store result (-1 - d.parameters.items.length) status)
  let back ← exitSequence d.parameters.items.length
  return title ++ saved ++ outputs.flatten ++ value ++ store :: back

/-- The code of a program: the set-up, the function for output, and the definitions in order. -/
def programCode (table : SymbolTable) (p : Program) : Code := do
  let setup ← setupCode table
  let print ← printCode table
  let functions ← p.definitions.mapM (functionCode table)
  return setup ++ print ++ functions.flatten

/-- Make some code and print its lines, in the columns that are wide enough for all commands that
    have been made. If an error ends the making, then nothing is printed. -/
def Code.print (code : Code) (l : Layout) : Except CodeError String × Layout :=
  match code.run.run l with
  | (.ok lines, l) => (.ok (listingText l (lines.map CodeLine.line)), l)
  | (.error e, l) => (.error e, l)

end Klein
