import Klein.Machine.Instruction
import Mathlib.Data.List.Infix
import Mathlib.Logic.Function.Basic

namespace Klein.Machine

/-- The machine at work: its registers, a data memory without end, the values that are still to be
    read, and those that have been output. -/
structure State where
  registers : Fin 8 → Int
  memory : Nat → Int
  input : List Int
  output : List Int

/-- Why the machine stops. -/
inductive Stop
  | halted (output : List Int)
  | stuck
deriving DecidableEq, Repr

/-- The register of a number. -/
def register : Int → Except Stop (Fin 8)
  | .ofNat k => if h : k < 8 then .ok ⟨k, h⟩ else .error .stuck
  | .negSucc _ => .error .stuck

namespace State

def set (s : State) (r : Fin 8) (value : Int) : State :=
  { s with registers := Function.update s.registers r value }

def write (s : State) (cell : Nat) (value : Int) : State :=
  { s with memory := Function.update s.memory cell value }

def emit (s : State) (value : Int) : State :=
  { s with output := s.output ++ [value] }

/-- The address that a memory operand stands for. -/
def address (s : State) (offset base : Int) : Except Stop Int := do
  return offset + s.registers (← register base)

/-- The cell that a memory operand stands for. -/
def cell (s : State) (offset base : Int) : Except Stop Nat := do
  match ← s.address offset base with
  | .ofNat k => return k
  | .negSucc _ => .error .stuck

/-- Put the value of an operation on two registers into a register. -/
def compute (s : State) (r x y : Int) (f : Int → Int → Int) : Except Stop State := do
  return s.set (← register r) (f (s.registers (← register x)) (s.registers (← register y)))

/-- Jump to an address if a register has a property. -/
def jump (s : State) (r offset base : Int) (taken : Int → Bool) : Except Stop State := do
  let target ← s.address offset base
  return if taken (s.registers (← register r)) then s.set 7 target else s

/-- What an instruction does to a state in which the counter points behind it. -/
def execute (s : State) : Instruction → Except Stop State
  | .input r => do
    let r ← register r
    match s.input with
    | [] => .error .stuck
    | value :: rest => return { s with input := rest }.set r value
  | .output r => do return s.emit (s.registers (← register r))
  | .add r x y => s.compute r x y (· + ·)
  | .sub r x y => s.compute r x y (· - ·)
  | .mul r x y => s.compute r x y (· * ·)
  | .div r x y => do
    -- there is no value to go on with
    if s.registers (← register y) = 0 then .error .stuck else s.compute r x y Int.tdiv
  | .halt => .error (.halted s.output)
  | .loadConstant r value => do return s.set (← register r) value
  | .loadAddress r offset base => do return s.set (← register r) (← s.address offset base)
  | .load r offset base => do return s.set (← register r) (s.memory (← s.cell offset base))
  | .store r offset base => do return s.write (← s.cell offset base) (s.registers (← register r))
  | .jumpEq r offset base => s.jump r offset base (· = 0)
  | .jumpNe r offset base => s.jump r offset base (· ≠ 0)
  | .jumpLt r offset base => s.jump r offset base (· < 0)
  | .jumpLe r offset base => s.jump r offset base (· ≤ 0)
  | .jumpGt r offset base => s.jump r offset base (· > 0)
  | .jumpGe r offset base => s.jump r offset base (· ≥ 0)

/-- Let the counter point to the next instruction. -/
def advance (s : State) : State :=
  s.set 7 (s.registers 7 + 1)

end State

/-- The instruction at an address. -/
def fetch (code : List Instruction) : Int → Except Stop Instruction
  | .ofNat k => (code[k]?).elim (.error .stuck) .ok
  | .negSucc _ => .error .stuck

/-- Fetch the instruction that the counter points to, advance the counter, and execute it. -/
def step (code : List Instruction) (s : State) : Except Stop State := do
  s.advance.execute (← fetch code (s.registers 7))

/-- Take some steps, or as many as there are before the machine stops. -/
def run (code : List Instruction) : Nat → State → Option Stop
  | 0, _ => none
  | steps + 1, s =>
    match step code s with
    | .ok next => run code steps next
    | .error stop => some stop

namespace State

variable (s : State) (r : Fin 8) (k m : Nat) (value : Int)

@[simp]
theorem memory_set : (s.set r value).memory = s.memory := rfl

@[simp]
theorem memory_write : (s.write k value).memory m = if m = k then value else s.memory m :=
  Function.update_apply ..

@[simp]
theorem output_emit : (s.emit value).output = s.output ++ [value] := rfl

@[simp]
theorem memory_advance : s.advance.memory = s.memory := rfl

@[simp]
theorem output_advance : s.advance.output = s.output := rfl

@[simp]
theorem registers_write : (s.write k value).registers = s.registers := rfl

/-- Only the counter is advanced. -/
theorem registers_advance {r : Fin 8} (hr : r < 7) : s.advance.registers r = s.registers r :=
  Function.update_of_ne (Fin.ne_of_lt hr) _ _

theorem register_val (r : Fin 8) : register (r.val : Int) = .ok r := by
  simp [register, r.isLt]

variable {s r k} {q : Fin 8} {number base offset v : Int}

theorem execute_loadAddress (hnumber : register number = .ok r) (hbase : register base = .ok q)
    (hvalue : offset + s.registers q = v) :
    s.execute (.loadAddress number offset base) = .ok (s.set r v) := by
  simp [execute, address, hnumber, hbase, hvalue, bind, Except.bind, pure, Except.pure]

theorem execute_add {left right : Int} {x y : Fin 8} (hnumber : register number = .ok r)
    (hleft : register left = .ok x) (hright : register right = .ok y)
    (hvalue : s.registers x + s.registers y = v) :
    s.execute (.add number left right) = .ok (s.set r v) := by
  simp [execute, compute, hnumber, hleft, hright, hvalue, bind, Except.bind, pure, Except.pure]

theorem cell_eq (hbase : register base = .ok q) (hcell : offset + s.registers q = k) :
    s.cell offset base = .ok k := by
  simp [cell, address, hbase, hcell, bind, Except.bind, pure, Except.pure]

theorem execute_load (hnumber : register number = .ok r) (hbase : register base = .ok q)
    (hcell : offset + s.registers q = k) (hvalue : s.memory k = v) :
    s.execute (.load number offset base) = .ok (s.set r v) := by
  simp [execute, hnumber, cell_eq hbase hcell, hvalue, bind, Except.bind, pure, Except.pure]

/-- There are no cells with negative addresses. -/
theorem execute_load_stuck (hnumber : register number = .ok r) (hbase : register base = .ok q)
    (haddress : offset + s.registers q < 0) :
    s.execute (.load number offset base) = .error .stuck := by
  obtain ⟨k, hk⟩ := Int.eq_negSucc_of_lt_zero haddress
  simp [execute, cell, address, hnumber, hbase, hk, bind, Except.bind, pure, Except.pure]

theorem execute_store (hnumber : register number = .ok r) (hbase : register base = .ok q)
    (hcell : offset + s.registers q = k) (hvalue : s.registers r = v) :
    s.execute (.store number offset base) = .ok (s.write k v) := by
  simp [execute, hnumber, cell_eq hbase hcell, hvalue, bind, Except.bind, pure, Except.pure]

end State

/-- The machine comes to a state with a property. -/
inductive Attains (code : List Instruction) (Q : State → Prop) : State → Prop
  | now {s} : Q s → Attains code Q s
  | later {s next} : step code s = .ok next → Attains code Q next → Attains code Q s

variable {code : List Instruction} {Q : State → Prop} {s t : State}

/-- The machine stops if it comes to a state in which it stops. -/
theorem Attains.exists_run {stop : Stop} (h : Attains code (step code · = .error stop) s) :
    ∃ steps, run code steps s = some stop := by
  induction h with
  | now hstop => exact ⟨1, by simp [run, hstop]⟩
  | later hstep _ ih =>
    obtain ⟨steps, hrun⟩ := ih
    exact ⟨steps + 1, by simpa [run, hstep] using hrun⟩

/-- The machine comes to a state with a property if the counter points to a block in the code. -/
def Runs (code : List Instruction) (Q : State → Prop) (block : List Instruction) (s : State) :
    Prop :=
  ∀ pc : Nat, s.registers 7 = pc → block <+: code.drop pc → Attains code Q s

theorem isPrefix_drop {pc : Nat} {block : List Instruction} (hblock : block <+: code.drop pc)
    (k : Nat) : block.drop k <+: code.drop (pc + k) := by
  rw [← List.drop_drop]
  exact hblock.drop k

theorem isPrefix_drop_append {pc : Nat} {block rest : List Instruction}
    (hblock : block ++ rest <+: code.drop pc) : rest <+: code.drop (pc + block.length) := by
  simpa using isPrefix_drop hblock block.length

/-- The instruction that is executed is the first one of the block. -/
theorem step_of_isPrefix {pc : Nat} {i : Instruction} {rest : List Instruction}
    (hpc : s.registers 7 = pc) (hblock : i :: rest <+: code.drop pc) :
    step code s = s.advance.execute i := by
  obtain ⟨after, hcode⟩ := hblock
  have hfetch : code[pc]? = some i := by
    rw [← Nat.add_zero pc, ← List.getElem?_drop, ← hcode]
    rfl
  simp [step, fetch, hpc, hfetch, bind, Except.bind]

variable {i : Instruction} {rest : List Instruction}

/-- A step through an instruction that is not a jump leads to the rest of the block. -/
theorem step_cons {pc : Nat} (hpc : s.registers 7 = pc) (hblock : i :: rest <+: code.drop pc)
    (hexec : s.advance.execute i = .ok t) (hcounter : t.registers 7 = s.registers 7 + 1) :
    step code s = .ok t ∧ t.registers 7 = (pc + 1 : Nat) ∧ rest <+: code.drop (pc + 1) := by
  refine ⟨(step_of_isPrefix hpc hblock).trans hexec, ?_, isPrefix_drop hblock 1⟩
  rw [hcounter, hpc]
  rfl

namespace Runs

/-- Run through the first instruction of a block, which is not a jump. -/
theorem cons (hexec : s.advance.execute i = .ok t) (hcounter : t.registers 7 = s.registers 7 + 1)
    (h : Runs code Q rest t) : Runs code Q (i :: rest) s := by
  intro pc hpc hblock
  obtain ⟨hstep, hnext, hrest⟩ := step_cons hpc hblock hexec hcounter
  exact .later hstep (h (pc + 1) hnext hrest)

/-- Leave a block by an instruction that jumps. -/
theorem leave (hexec : s.advance.execute i = .ok t) (h : Attains code Q t) :
    Runs code Q (i :: rest) s := by
  intro pc hpc hblock
  exact .later ((step_of_isPrefix hpc hblock).trans hexec) h

/-- The machine stops with all that has been output. -/
theorem halt : Runs code (step code · = .error (.halted s.output)) (.halt :: rest) s :=
  fun _ hpc hblock => .now (step_of_isPrefix hpc hblock)

end Runs

end Klein.Machine
