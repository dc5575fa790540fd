import Klein.Machine.Instruction
import Klein.Text.Lines

namespace Klein.Machine

open Text

/-- A command with its number in a listing, and a comment that may be empty. -/
structure Entry where
  number : Int
  command : Command
  comment : Option String := none
deriving DecidableEq, Repr

/-- A line of a listing. -/
inductive Line
  | remark (text : String)
  | entry (e : Entry)
deriving DecidableEq, Repr

/-- How the commands of a listing are numbered and lined up: the next number, the widths of the
    columns so far, and the numbers that may not be given. -/
structure Layout where
  next : Nat := 0
  numberWidth : Nat := 0
  mnemonicWidth : Nat := 0
  operandWidth : Nat := 0
  reserved : List Int := []
deriving DecidableEq, Repr

/-- A number that may not be given to a command. -/
structure DuplicateNumber where
  number : Int
deriving DecidableEq, Repr

def DuplicateNumber.message (e : DuplicateNumber) : String :=
  s!"Duplicated line number {e.number}"

namespace Layout

def reserve (l : Layout) (number : Int) : Layout :=
  { l with reserved := number :: l.reserved }

/-- The layout with one more command. -/
def widen (l : Layout) (e : Entry) : Layout :=
  { l with
    next := l.next + 1
    numberWidth := max l.numberWidth (ToString.toString e.number).length
    mnemonicWidth := max l.mnemonicWidth e.command.mnemonic.length
    operandWidth := max l.operandWidth e.command.operands.length }

/-- Give the next number to a command. -/
def append (l : Layout) (command : Command) (comment : Option String) : Entry × Layout :=
  let e : Entry := ⟨l.next, command, comment⟩
  (e, l.widen e)

/-- Give a number of choice to a command, where zero stands for the next number. -/
def place (l : Layout) (command : Command) (comment : Option String) (number : Int) :
    Except DuplicateNumber (Entry × Layout) :=
  if l.reserved.contains number then .error ⟨number⟩
  else if number = 0 then .ok (l.append command comment)
  else
    let e : Entry := ⟨number, command, comment⟩
    .ok (e, l.widen e)

end Layout

/-- A command in its columns. The operands are filled up only before a comment. -/
def Entry.toString (l : Layout) (e : Entry) : String :=
  let start := padLeft l.numberWidth (ToString.toString e.number) ++ ": " ++
    padRight l.mnemonicWidth e.command.mnemonic ++ " "
  match e.comment.getD "" with
  | "" => start ++ e.command.operands
  | comment => start ++ padRight l.operandWidth e.command.operands ++ " ; " ++ comment

def Line.toString (l : Layout) : Line → String
  | remark text => if text.isEmpty then "*" else "* " ++ text
  | entry e => e.toString l

/-- Lines as they are printed. -/
def listingText (l : Layout) (lines : List Line) : String :=
  String.join (lines.map fun line => line.toString l ++ "\n")

end Klein.Machine
