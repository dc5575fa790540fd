import Klein.Proofs.Code.Text
import Klein.Proofs.Tree.Printing

namespace Klein

open Machine Register

/-- Code that is printed as a listing in which some instructions are numbered from zero on. -/
def Code.Lists (code : Code) (block : List Instruction) : Prop :=
  instructions code.lines = block ∧
    ∃ lines text after, code.print {} = (.ok text, after) ∧ Prints {} lines text ∧
      lines.filterMap CodeLine.numbered? =
        block.zipIdx.map fun (i, number) => ((number : Int), i)

theorem Code.Makes.lists {code : Code} {block : List Instruction} (h : code.Makes block) :
    code.Lists block := by
  obtain ⟨lines, after, hrun, hlisted⟩ := h.exists_run {}
  exact ⟨h.block, lines, _, after, print_of_run hrun, hlisted.prints, hlisted.numbered⟩

def Expr.literal? : Expr → Option Int
  | integer _ text => some (numeralValue text)
  | _ => none

/-- The literal that a call outputs, if its one argument is a literal. -/
def Call.literal? (c : Call) : Option Int :=
  match c.arguments.items with
  | .cons _ value .nil => value.literal?
  | _ => none

/-- The literals of a body in order: those that it outputs, and the one that is its value. Nothing
    stands for a part that is not a literal. -/
def Body.literals (b : Body) : List (Option Int) :=
  b.prints.map Call.literal? ++ [b.result.literal?]

theorem Body.eq_some_of_mem_literals {b : Body} (hliterals : none ∉ b.literals) :
    ∀ v ∈ b.literals, v = some (v.getD 0) := by
  intro v hv
  cases v with
  | none => exact absurd hv hliterals
  | some value => rfl

theorem Body.literals_eq {b : Body} (hliterals : none ∉ b.literals) :
    b.literals = (b.prints.map (·.literal?.getD 0)).map some ++ [some (b.result.literal?.getD 0)] :=
  calc b.literals = b.literals.map fun v => some (v.getD 0) := by
        conv_lhs => rw [← List.map_id b.literals]
        exact List.map_congr_left (eq_some_of_mem_literals hliterals)
    _ = _ := by simp [literals]

/-- Jump to a function: let the status pointer point to the cell for the return address, store the
    address there, and set the top pointer behind the frame. -/
def linkBlock (offset address : Int) : List Instruction :=
  [.loadAddress status offset top, .loadConstant top 3, .add top top counter, .store top 0 status,
   .loadAddress top 6 status, .loadConstant counter address]

/-- Store an argument in its cell. One that is in memory goes through the status pointer. -/
def argumentBlock (cell : Nat) : Location → List Instruction
  | .register r => [.store r cell top]
  | .memory offset => [.load status offset status, .store status cell top]
  | .nowhere => []

/-- Pass arguments from their locations, the last one in the first cell. -/
def passing : List Location → List Instruction
  | [] => []
  | location :: rest => passing rest ++ argumentBlock (rest.length + 1) location

/-- Call a function with some number of parameters: save the pointers in the frame to be, pass the
    arguments, and jump. -/
def callingBlock (parameters : Nat) (address : Int) (locations : List Location) :
    List Instruction :=
  .store status (parameters + 5) top :: .store top (parameters + 6) top ::
    (passing locations ++ linkBlock (1 + parameters) address)

/-- The locations of some registers. -/
def registerLocations (registers : List (Fin 8)) : List Location :=
  registers.map fun r => .register r.val

/-- Pass arguments from registers, the last one in the first cell. -/
def passBlock : List (Fin 8) → List Instruction
  | [] => []
  | r :: rest => passBlock rest ++ [.store r.val (rest.length + 1) top]

/-- Call a function with arguments in registers. -/
def callBlock (address : Int) (registers : List (Fin 8)) : List Instruction :=
  [.store status (registers.length + 5) top, .store top (registers.length + 6) top] ++
    passBlock registers ++ linkBlock (1 + registers.length) address

theorem passing_registerLocations (registers : List (Fin 8)) :
    passing (registerLocations registers) = passBlock registers := by
  induction registers with
  | nil => rfl
  | cons r rest ih =>
    rw [passBlock, ← ih, registerLocations, List.map_cons, passing, List.length_map]
    rfl

theorem callBlock_eq (address : Int) (registers : List (Fin 8)) :
    callBlock address registers =
      callingBlock registers.length address (registerLocations registers) := by
  rw [callBlock, callingBlock, passing_registerLocations, List.append_assoc]
  rfl

theorem length_callBlock (address : Int) (registers : List (Fin 8)) :
    (callBlock address registers).length = registers.length + 8 := by
  have hpass : (passBlock registers).length = registers.length := by
    induction registers with
    | nil => rfl
    | cons r rest ih => simp [passBlock, ih]
  simp [callBlock, linkBlock, hpass]

/-- Output a literal: put it into the register for the argument, and call the function for output
    at its address. -/
def outputBlock (address v : Int) : List Instruction :=
  [.loadConstant temporary v, .store status 6 top, .store top 7 top, .store temporary 1 top] ++
    linkBlock 2 address

theorem outputBlock_eq (address v : Int) :
    outputBlock address v = .loadConstant temporary v :: callBlock address [2] := rfl

/-- Move the arguments of the program by one cell, the last one first. -/
def moveBlock : Nat → List Instruction
  | 0 => []
  | count + 1 =>
    .load temporary count top :: .store temporary (count + 1) top :: moveBlock count

theorem length_moveBlock (count : Nat) : (moveBlock count).length = 2 * count := by
  induction count with
  | zero => rfl
  | succ count ih =>
    rw [moveBlock, List.length_cons, List.length_cons, ih]
    omega

/-- Set up the program: lay out the first frame, move the arguments into it, call `main` and output
    its value. -/
def setupBlock (parameters : Nat) : List Instruction :=
  [.loadConstant top 1, .store top (parameters + top) top] ++ moveBlock parameters ++
    linkBlock (1 + parameters) (mainAddress parameters) ++ [.output result, .halt]

/-- Save the registers that a function leaves as it found them. -/
def entryBlock : List Instruction :=
  [.store 1 1 status, .store 2 2 status, .store 3 3 status]

/-- Restore the registers and the pointers, and return. -/
def exitBlock (parameters : Nat) : List Instruction :=
  [.load 1 1 status, .load 2 2 status, .load 3 3 status, .load top 5 status,
   .load status 4 status, .load counter (1 + parameters) top]

/-- The function for output. -/
def printBlock (parameters : Nat) : List Instruction :=
  entryBlock ++ (.load temporary (-1) status :: .output temporary :: exitBlock parameters)

/-- A definition whose body consists of literals. -/
def definitionBlock (address : Int) (d : Definition) : List Instruction :=
  entryBlock ++ (d.body.prints.flatMap fun c => outputBlock address (c.literal?.getD 0)) ++
    (.loadConstant result (d.body.result.literal?.getD 0) ::
      .store result (-1 - d.parameters.items.length) status ::
      exitBlock d.parameters.items.length)

variable {table : SymbolTable} {address v : Int} {n : Nat} {name : String}

theorem makes_linkage (storeNote topNote : String) :
    (linkage storeNote topNote).Makes
      [.loadConstant top 3, .add top top counter, .store top 0 status,
       .loadAddress top 6 status] :=
  fun _ => .remark _ (.command _ _ (.command _ _ (.command _ _ (.command _ _ .nil))))

theorem makes_moveArguments (count : Nat) : (moveArguments count).Makes (moveBlock count) := by
  have hmoves : (List.range count).reverse.flatMap (fun i : Nat =>
      [.load temporary i top, .store temporary (i + 1) top]) = moveBlock count := by
    induction count with
    | zero => rfl
    | succ count ih =>
      rw [List.range_succ, List.reverse_append, List.reverse_singleton, List.singleton_append,
        List.flatMap_cons, ih]
      rfl
  intro l
  refine Code.Makes.mapM_bind (fun i _ _ => .command _ _ (.command _ _ .nil))
    fun moves after hlisted => Making.ends_pure ?_
  rwa [← hmoves]

theorem makes_setupCode (hmain : parameterCount table "main" = .ok n) :
    (setupCode table).Makes (setupBlock n) := by
  intro l
  refine Making.ends_lift_bind hmain ?_
  refine Code.Makes.bind (fun _ => .command _ _ (.command _ _ .nil)) fun start _ hstart => ?_
  refine (makes_moveArguments n).bind fun moves _ hmoves => ?_
  refine command_bind fun update _ hupdate => ?_
  refine (makes_linkage _ _).bind fun link _ hlink => ?_
  refine Code.Makes.bind (fun _ => .command _ _ (.command _ _ (.command _ _ .nil)))
    fun finish _ hfinish => Making.ends_pure ?_
  rw [setupBlock, List.append_assoc, List.append_assoc, List.append_assoc]
  exact hstart.append (hmoves.append (hupdate.append (hlink.append hfinish)))

theorem makes_passArgument (cell : Nat) (location : Location) :
    (passArgument cell location).Makes (argumentBlock cell location) := by
  cases location with
  | register r => exact fun _ => .command _ _ .nil
  | memory offset => exact fun _ => .remark _ (.command _ _ (.command _ _ .nil))
  | nowhere => exact fun _ => .nil

theorem makes_passArguments (locations : List Location) :
    (passArguments locations).Makes (passing locations) := by
  have hpassing : locations.reverse.zipIdx.flatMap (fun placed =>
      argumentBlock (placed.2 + 1) placed.1) = passing locations := by
    induction locations with
    | nil => rfl
    | cons location rest ih =>
      rw [List.reverse_cons, List.zipIdx_append, List.flatMap_append, ih, passing,
        List.length_reverse, Nat.zero_add]
      simp
  intro l
  refine Code.Makes.mapM_bind (fun _ _ => makes_passArgument _ _)
    fun passed after hlisted => Making.ends_pure ?_
  rwa [← hpassing]

theorem makes_callSequence (address : Int) (locations : List Location)
    (hcount : parameterCount table name = .ok n) :
    (callSequence table name address locations).Makes (callingBlock n address locations) := by
  intro l
  refine Making.ends_lift_bind hcount ?_
  refine Code.Makes.bind (fun _ => .command _ _ (.command _ _ .nil)) fun saved _ hsaved => ?_
  refine (makes_passArguments locations).bind fun passed _ hpassed => ?_
  refine command_bind fun update _ hupdate => ?_
  refine (makes_linkage _ _).bind fun link _ hlink => ?_
  refine command_bind fun jump _ hjump => Making.ends_pure ?_
  rw [List.append_assoc, List.append_assoc]
  exact hsaved.append (hpassed.append (hupdate.append (hlink.append hjump)))

theorem makes_callBlock {registers : List (Fin 8)} (address : Int)
    (hcount : parameterCount table name = .ok registers.length) :
    (callSequence table name address (registerLocations registers)).Makes
      (callBlock address registers) := by
  rw [callBlock_eq]
  exact makes_callSequence address _ hcount

theorem makes_callCode (address : Int) (locations : List Location)
    (hcount : parameterCount table name = .ok n) :
    (callCode table name address locations).Makes (callingBlock n address locations) := by
  intro l
  refine (makes_callSequence address locations hcount).bind fun call after hcall =>
    Making.ends_pure (.remark _ ?_)
  rw [← List.append_nil (callingBlock n address locations)]
  exact hcall.append (.remark _ .nil)

theorem makes_heading (name : String) : (heading name).Makes [] :=
  fun _ => .remark _ (.remark _ (.remark _ .nil))

theorem makes_entrySequence : entrySequence.Makes entryBlock :=
  fun _ => .command _ _ (.command _ _ (.command _ _ .nil))

theorem makes_exitSequence (parameters : Nat) :
    (exitSequence parameters).Makes (exitBlock parameters) :=
  fun _ => .command _ _ (.command _ _ (.command _ _ (.command _ _ (.command _ _
    (.command _ _ .nil)))))

theorem makes_printCode (hprint : parameterCount table "print" = .ok n) :
    (printCode table).Makes (printBlock n) := by
  intro l
  refine Making.ends_lift_bind hprint ?_
  refine (makes_heading _).bind fun title _ htitle => ?_
  refine makes_entrySequence.bind fun saved _ hsaved => ?_
  refine Code.Makes.bind (fun _ => .command _ _ (.command _ _ (.remark _ .nil)))
    fun work _ hwork => ?_
  refine (makes_exitSequence n).bind fun back _ hback => Making.ends_pure ?_
  rw [List.append_assoc, List.append_assoc]
  exact htitle.append (hsaved.append (hwork.append hback))

theorem makes_valueCode {e : Expr} (r : Int) (hlegal : e.Legal) (hvalue : e.literal? = some v) :
    (valueCode r (.expr e)).Makes [.loadConstant r v] := by
  cases e with
  | integer tag text =>
    injection hvalue with hvalue
    rw [valueCode, readInteger_of_numeral hlegal, Option.getD_some, hvalue]
    exact fun _ => .command _ _ .nil
  | _ => cases hvalue

theorem printArgument_cons {c : Call} {tag : Tag} {value : Expr} {rest : Arguments}
    (hitems : c.arguments.items = .cons tag value rest) : printArgument c = .ok value := by
  have hfront : frontIndex? (rest.toList.length + 1) 0 = some 0 := by
    simp only [frontIndex?, Int.lt_irrefl, if_false]
    rw [if_pos (by omega), Int.toNat_zero]
  simp [printArgument, elementAt, hitems, Arguments.toList, hfront]

theorem makes_outputCode {c : Call} (hprint : parameterCount table "print" = .ok 1)
    (hcall : c.IsPrint) (hvalue : c.literal? = some v) :
    (outputCode table address c).Makes (outputBlock address v) := by
  obtain ⟨tag, value, harguments, hlegal⟩ := hcall.argument
  have hliteral : value.literal? = some v := by
    rw [← hvalue, Call.literal?, harguments]
  intro l
  refine Making.ends_lift_bind (printArgument_cons harguments) ?_
  refine (makes_valueCode temporary hlegal hliteral).bind fun lines _ hlines => ?_
  exact (makes_callCode address _ hprint).bind fun call _ hcall =>
    Making.ends_pure (hlines.append hcall)

variable {p : Program} {d : Definition}

theorem makes_functionCode (hmain : parameterCount table "main" = .ok n)
    (hprint : parameterCount table "print" = .ok 1) (hlegal : d.Legal)
    (hliterals : none ∉ d.body.literals) :
    (functionCode table d).Makes (definitionBlock (printAddress n) d) := by
  have hsome := Body.eq_some_of_mem_literals hliterals
  intro l
  refine Making.ends_lift_bind hmain ?_
  refine (makes_heading _).bind fun title _ htitle => ?_
  refine makes_entrySequence.bind fun saved _ hsaved => ?_
  refine Code.Makes.mapM_bind (fun c hc => makes_outputCode hprint (hlegal.body.prints c hc)
    (hsome _ (List.mem_append_left _ (List.mem_map_of_mem hc)))) fun outputs _ houtputs => ?_
  refine (makes_valueCode result hlegal.body.result (hsome _ (by simp [Body.literals]))).bind
    fun value _ hvalue => ?_
  refine command_bind fun store _ hstore => ?_
  refine (makes_exitSequence _).bind fun back _ hback => Making.ends_pure ?_
  rw [definitionBlock, List.append_assoc, List.append_assoc, List.append_assoc, List.append_assoc]
  exact htitle.append (hsaved.append (houtputs.append (hvalue.append (hstore.append hback))))

theorem makes_programCode (hmain : parameterCount table "main" = .ok n)
    (hprint : parameterCount table "print" = .ok 1) (hlegal : p.Legal)
    (hliterals : ∀ d ∈ p.definitions, none ∉ d.body.literals) :
    (programCode table p).Makes
      (setupBlock n ++ printBlock 1 ++
        p.definitions.flatMap (definitionBlock (printAddress n))) := by
  intro l
  refine (makes_setupCode hmain).bind fun setup _ hsetup => ?_
  refine (makes_printCode hprint).bind fun print _ houtput => ?_
  exact Code.Makes.mapM_bind (fun d hd =>
    makes_functionCode hmain hprint (hlegal d hd) (hliterals d hd)) fun functions _ hfunctions =>
      Making.ends_pure ((hsetup.append houtput).append hfunctions)

theorem valueCode_bare (r : Int) (e : Expr) :
    valueCode r (.expr e.bare) = valueCode r (.expr e) := by
  cases e <;> rfl

theorem outputCode_bare (table : SymbolTable) (address : Int) (c : Call) :
    outputCode table address c.bare = outputCode table address c := by
  cases hitems : c.arguments.items with
  | nil =>
    have hbare : c.bare.arguments.items = .nil := by rw [Call.bare, hitems, Arguments.bare]
    simp only [outputCode, printArgument, hitems, hbare]
  | cons tag value rest =>
    have hbare : c.bare.arguments.items = .cons none value.bare rest.bare := by
      rw [Call.bare, hitems, Arguments.bare]
    rw [outputCode, outputCode, printArgument_cons hitems, printArgument_cons hbare]
    change valueCode temporary (.expr value.bare) >>= _ = valueCode temporary (.expr value) >>= _
    rw [valueCode_bare]

theorem functionCode_bare (table : SymbolTable) (d : Definition) :
    functionCode table d.bare = functionCode table d := by
  simp only [functionCode, Definition.bare, Body.bare, ParameterList.bare, List.mapM_map,
    List.length_map, valueCode_bare, Function.comp_def, outputCode_bare]

/-- The annotations of a program are not used for its code. -/
theorem programCode_bare (table : SymbolTable) (p : Program) :
    programCode table p.bare = programCode table p := by
  simp only [programCode, Program.bare, List.mapM_map, Function.comp_def, functionCode_bare]

end Klein
