import Klein.Proofs.Code.Making

namespace Klein

open Machine

/-- The mnemonic of an instruction. -/
def Machine.Instruction.mnemonic : Instruction → String
  | input _ => "IN"
  | output _ => "OUT"
  | add .. => "ADD"
  | sub .. => "SUB"
  | mul .. => "MUL"
  | div .. => "DIV"
  | halt => "HALT"
  | loadConstant .. => "LDC"
  | loadAddress .. => "LDA"
  | load .. => "LD"
  | store .. => "ST"
  | jumpEq .. => "JEQ"
  | jumpNe .. => "JNE"
  | jumpLt .. => "JLT"
  | jumpLe .. => "JLE"
  | jumpGt .. => "JGT"
  | jumpGe .. => "JGE"

/-- The operands of an instruction: three registers, or a register and an offset from a base. What
    an instruction has no use for is zero. -/
def Machine.Instruction.operands : Instruction → String
  | input r | output r => s!"{r},0,0"
  | halt => "0,0,0"
  | add r s t | sub r s t | mul r s t | div r s t => s!"{r},{s},{t}"
  | loadConstant r value => s!"{r},{value}(0)"
  | loadAddress r offset base | load r offset base | store r offset base
  | jumpEq r offset base | jumpNe r offset base | jumpLt r offset base
  | jumpLe r offset base | jumpGt r offset base | jumpGe r offset base => s!"{r},{offset}({base})"

theorem Machine.Instruction.command_eq (i : Instruction) :
    i.command = ⟨i.mnemonic, i.operands⟩ := by
  have hzero : toString (0 : Int) = "0" := rfl
  cases i with
  | input r | output r | loadConstant r value =>
    simp only [command, Command.onRegisters, Command.onMemory, mnemonic, operands, hzero,
      String.append_assoc]
    rfl
  | _ => rfl

/-- The widths of the columns of a listing. -/
structure Columns where
  numbers : Nat
  mnemonics : Nat
  operands : Nat
deriving DecidableEq, Repr

/-- The columns with some more instructions. Each is as wide as its longest entry, or as it was. -/
def Columns.fit (c : Columns) (entries : List (Int × Instruction)) : Columns where
  numbers := (entries.map fun (number, _) => (toString number).length).foldl max c.numbers
  mnemonics := (entries.map fun (_, i) => i.mnemonic.length).foldl max c.mnemonics
  operands := (entries.map fun (_, i) => i.operands.length).foldl max c.operands

def Machine.Layout.columns (l : Layout) : Columns :=
  ⟨l.numberWidth, l.mnemonicWidth, l.operandWidth⟩

def blanks (count : Nat) : String :=
  String.ofList (List.replicate count ' ')

/-- What is printed for a line: a remark behind a star, or the number of an instruction flush right,
    its mnemonic and its operands flush left, and its comment behind a semicolon if there is one. -/
inductive LineText (c : Columns) : CodeLine → String → Prop
  | star : LineText c (.remark "") "*"
  | remark {text : String} (hne : text ≠ "") : LineText c (.remark text) ("* " ++ text)
  | plain {number : Int} {i : Instruction} {comment : Option String}
      (hnone : comment = none ∨ comment = some "") :
      LineText c (.instruction number i comment)
        (blanks (c.numbers - (toString number).length) ++ toString number ++ ": " ++
          i.mnemonic ++ blanks (c.mnemonics - i.mnemonic.length) ++ " " ++ i.operands)
  | noted {number : Int} {i : Instruction} {comment : String} (hne : comment ≠ "") :
      LineText c (.instruction number i (some comment))
        (blanks (c.numbers - (toString number).length) ++ toString number ++ ": " ++
          i.mnemonic ++ blanks (c.mnemonics - i.mnemonic.length) ++ " " ++
          i.operands ++ blanks (c.operands - i.operands.length) ++ " ; " ++ comment)

/-- A text is the listing of some lines, in columns that fit them and what was listed before. -/
def Prints (l : Layout) (lines : List CodeLine) (text : String) : Prop :=
  ∃ texts, text = String.join (texts.map (· ++ "\n")) ∧
    List.Forall₂ (LineText (l.columns.fit (lines.filterMap CodeLine.numbered?))) lines texts

theorem lineText_toString (l : Layout) (line : CodeLine) :
    LineText l.columns line (line.line.toString l) := by
  cases line with
  | remark text =>
    rw [CodeLine.line, Line.toString]
    by_cases hempty : text = ""
    · subst hempty
      exact .star
    · simpa [hempty] using LineText.remark hempty
  | instruction number i comment =>
    have hplain := @LineText.plain l.columns number i
    have hnoted := @LineText.noted l.columns number i
    simp only [CodeLine.line, Line.toString, Entry.toString, i.command_eq, Text.padLeft,
      Text.padRight, ← String.append_assoc]
    cases comment with
    | none => exact hplain (.inl rfl)
    | some comment =>
      by_cases hempty : comment = ""
      · subst hempty
        exact hplain (.inr rfl)
      · simpa [hempty, blanks, Layout.columns] using hnoted hempty

/-- The columns are as wide as the commands need them, since they are widened for each one. -/
theorem MadeInOrder.columns {l after : Layout} {lines : List CodeLine} {block : List Instruction}
    (h : MadeInOrder l lines block after) :
    after.columns = l.columns.fit (lines.filterMap CodeLine.numbered?) := by
  induction h with
  | nil => rfl
  | remark _ _ ih => exact ih
  | @command l after lines block i comment _ ih =>
    rw [ih]
    simp only [Layout.columns, Layout.append, Layout.widen, i.command_eq]
    rfl

/-- Lines whose commands were numbered in their order are printed as they are to be. -/
theorem MadeInOrder.prints {l after : Layout} {lines : List CodeLine} {block : List Instruction}
    (h : MadeInOrder l lines block after) :
    Prints l lines (listingText after (lines.map CodeLine.line)) := by
  refine ⟨lines.map fun line => line.line.toString after, ?_, ?_⟩
  · rw [listingText, List.map_map, List.map_map]
    rfl
  · rw [← h.columns, List.forall₂_map_right_iff, List.forall₂_same]
    exact fun line _ => lineText_toString after line

end Klein
