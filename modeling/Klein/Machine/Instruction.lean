namespace Klein.Machine

/-- The instructions of the target machine. A memory operand is an offset from a base register. -/
inductive Instruction
  | input (r : Int)
  | output (r : Int)
  | add (r s t : Int)
  | sub (r s t : Int)
  | mul (r s t : Int)
  | div (r s t : Int)
  | halt
  | loadConstant (r value : Int)
  | loadAddress (r offset base : Int)
  | load (r offset base : Int)
  | store (r offset base : Int)
  | jumpEq (r offset base : Int)
  | jumpNe (r offset base : Int)
  | jumpLt (r offset base : Int)
  | jumpLe (r offset base : Int)
  | jumpGt (r offset base : Int)
  | jumpGe (r offset base : Int)
deriving DecidableEq, Repr

/-- An instruction as it is written: its mnemonic and its operands. -/
structure Command where
  mnemonic : String
  operands : String
deriving DecidableEq, Repr

namespace Command

/-- A command on three registers. -/
def onRegisters (mnemonic : String) (r s t : Int) : Command :=
  ⟨mnemonic, s!"{r},{s},{t}"⟩

/-- A command on a register and a memory operand. -/
def onMemory (mnemonic : String) (r offset base : Int) : Command :=
  ⟨mnemonic, s!"{r},{offset}({base})"⟩

end Command

def Instruction.command : Instruction → Command
  | input r => .onRegisters "IN" r 0 0
  | output r => .onRegisters "OUT" r 0 0
  | add r s t => .onRegisters "ADD" r s t
  | sub r s t => .onRegisters "SUB" r s t
  | mul r s t => .onRegisters "MUL" r s t
  | div r s t => .onRegisters "DIV" r s t
  | halt => .onRegisters "HALT" 0 0 0
  | loadConstant r value => .onMemory "LDC" r value 0
  | loadAddress r offset base => .onMemory "LDA" r offset base
  | load r offset base => .onMemory "LD" r offset base
  | store r offset base => .onMemory "ST" r offset base
  | jumpEq r offset base => .onMemory "JEQ" r offset base
  | jumpNe r offset base => .onMemory "JNE" r offset base
  | jumpLt r offset base => .onMemory "JLT" r offset base
  | jumpLe r offset base => .onMemory "JLE" r offset base
  | jumpGt r offset base => .onMemory "JGT" r offset base
  | jumpGe r offset base => .onMemory "JGE" r offset base

end Klein.Machine
