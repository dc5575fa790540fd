import Klein.Proofs.Analysis.Soundness
import Klein.Proofs.Code.Frames

namespace Klein

open Machine Register

/-- A call has come back to its caller: the machine is at the instruction behind the call, and the
    registers that the caller works with are as they were. The value of the function is in the
    register for it and in the cell behind the frame of the caller, and what is in front of that
    cell is as it was. -/
structure CameBack (caller : State) (back base : Nat) (value : Int) (values : List Int)
    (s : State) : Prop where
  counter : s.registers 7 = back
  registers : ∀ r ∈ [(1 : Fin 8), 2, 3, 5, 6], s.registers r = caller.registers r
  result : s.registers 4 = value
  cell : s.memory base = value
  kept : ∀ k < base, s.memory k = caller.memory k
  output : s.output = caller.output ++ values

variable {code rest : List Instruction} {s t u : State} {base back n : Nat}

/-- What a function was entered with is what it returns to. -/
theorem Entered.cameBack {passed : List (Fin 8)} {value : Int} {values : List Int}
    (hentered : Entered s base passed back t) (htop : s.registers 6 = base)
    (hreturned : Returned base passed.length t.memory u)
    (hdelivered : Delivered t base value values u) : CameBack s back base value values u where
  counter := hreturned.counter.trans hentered.back
  registers := by
    obtain ⟨h₁, h₂, h₃⟩ := forall_generalRegisters.mp fun r hr =>
      (hdelivered.registers r hr).trans (hentered.registers r hr)
    have hstatus := hreturned.status.trans hentered.status
    have hsame := hreturned.top.trans htop.symm
    simp [h₁, h₂, h₃, hstatus, hsame]
  result := hdelivered.result
  cell := hdelivered.cell
  kept k hk := (hreturned.kept k hk).trans (hentered.kept k hk)
  output := by rw [hdelivered.output, hentered.output]

/-- Calling a definition whose body consists of literals, and coming back from it. -/
theorem attains_callBlock {d : Definition} {address place printPlace : Nat} {passed : List (Fin 8)}
    (hcount : passed.length = d.parameters.items.length) (hpassed : ∀ r ∈ passed, r < 5)
    (hfunction : definitionBlock printPlace d <+: code.drop address)
    (hprint : printBlock 1 <+: code.drop printPlace)
    (hcall : callBlock address passed <+: code.drop place) (hcounter : s.registers 7 = place)
    (htop : s.registers 6 = base) :
    Attains code (CameBack s (place + (callBlock address passed).length) base
      (d.body.result.literal?.getD 0) (d.body.prints.map (·.literal?.getD 0))) s := by
  rw [← List.append_nil (callBlock (address : Int) passed)] at hcall
  refine runs_callBlock hcounter htop hpassed (fun t ht hentered => ?_) place hcounter hcall
  have hframe := hentered.frame
  rw [hcount] at hframe
  refine runs_definitionBlock hprint hframe (fun u hreturned hdelivered => ?_) address ht hfunction
  rw [← hcount] at hreturned
  exact .now (hentered.cameBack htop hreturned hdelivered)

/-- The code of a definition with a body of literals, the code for output and the code that calls
    the definition with as many registers as it has parameters can all be made. Wherever they are
    placed, the call comes back with the value of the definition, and its literals are output. -/
theorem call_comes_back {table : SymbolTable} {d : Definition} {mainParameters address : Nat}
    {passed : List (Fin 8)} (hlegal : d.Legal) (hliterals : none ∉ d.body.literals)
    (hmain : parameterCount table "main" = .ok mainParameters)
    (hprint : parameterCount table "print" = .ok 1)
    (hknown : parameterCount table d.name = .ok d.parameters.items.length)
    (hcount : passed.length = d.parameters.items.length) (hpassed : ∀ r ∈ passed, r ≤ 4) :
    ∃ (function output call : List Instruction) (values : List Int) (value : Int),
      (functionCode table d).Makes function ∧ (printCode table).Makes output ∧
      (callSequence table d.name address (registerLocations passed)).Makes call ∧
      d.body.literals = values.map some ++ [some value] ∧
      ∀ (code : List Instruction) (place printPlace : Nat),
        printAddress mainParameters = printPlace → function <+: code.drop address →
        output <+: code.drop printPlace → call <+: code.drop place →
        ∀ (s : State) (base : Nat), s.registers 7 = place → s.registers 6 = base →
          Attains code (CameBack s (place + call.length) base value values) s := by
  have hcall : (callSequence table d.name address (registerLocations passed)).Makes
      (callBlock address passed) := makes_callBlock address (hcount ▸ hknown)
  refine ⟨_, _, _, _, _, makes_functionCode hmain hprint hlegal hliterals, makes_printCode hprint,
    hcall, Body.literals_eq hliterals, ?_⟩
  intro code place printPlace hplace hfunction houtput hcalling s base hcounter htop
  rw [hplace] at hfunction
  refine attains_callBlock hcount (fun r hr => ?_) hfunction houtput hcalling hcounter htop
  have hr := hpassed r hr
  omega

/-- A call with registers 4 and 1, the code for output behind it, and the function behind that. -/
theorem call_comes_back_of_two :
    ∃ p table d, parse ("function main():integer 1 " ++
        "function f(a:integer,b:boolean):integer print(7) print(8) 9") = .ok p ∧
      table = (Analysis.analyze p).state.table ∧ d ∈ p.definitions ∧ d.name = "f" ∧
      none ∉ d.body.literals ∧ parameterCount table "main" = .ok 0 ∧
      parameterCount table "print" = .ok 1 ∧
      parameterCount table d.name = .ok d.parameters.items.length ∧
      ∃ function output call : List Instruction,
        (functionCode table d).Makes function ∧ (printCode table).Makes output ∧
        (callSequence table "f" 21 (registerLocations [4, 1])).Makes call ∧
        ∀ s : State, s.registers 7 = 0 → s.registers 6 = 50 →
          Attains (call ++ (output ++ function)) (CameBack s 10 50 9 [7, 8]) s := by
  have hparsed : ∃ p, parse ("function main():integer 1 " ++
      "function f(a:integer,b:boolean):integer print(7) print(8) 9") = .ok p ∧
      ∃ d ∈ p.definitions, d.name = "f" ∧ d.body.literals = [some 7, some 8, some 9] ∧
        d.parameters.items.length = 2 ∧
        (parameterCount (Analysis.analyze p).state.table "main").toOption = some 0 ∧
        (parameterCount (Analysis.analyze p).state.table "print").toOption = some 1 ∧
        (parameterCount (Analysis.analyze p).state.table "f").toOption = some 2 := by
    apply Analysis.exists_ok_of_any
    decide +kernel
  obtain ⟨p, hparse, d, hd, hname, hbody, hcount, hmain, hprint, hknown⟩ := hparsed
  have hok : ∀ {name : String} {n : Nat},
      (parameterCount (Analysis.analyze p).state.table name).toOption = some n →
      parameterCount (Analysis.analyze p).state.table name = .ok n := by
    intro name n h
    cases hresult : parameterCount (Analysis.analyze p).state.table name with
    | error e => simp [hresult, Except.toOption] at h
    | ok m => simpa [hresult, Except.toOption] using h
  have hliterals : none ∉ d.body.literals := by simp [hbody]
  have hsymbol : parameterCount (Analysis.analyze p).state.table d.name =
      .ok d.parameters.items.length := by rw [hname, hcount, hok hknown]
  obtain ⟨function, output, call, values, value, hfunction, houtput, hcall, hvalues, hback⟩ :=
    @call_comes_back _ _ _ 21 [4, 1] (Parser.legal_of_parse hparse d hd) hliterals (hok hmain)
      (hok hprint) hsymbol hcount.symm (by decide)
  rw [hname] at hcall
  refine ⟨p, _, d, hparse, rfl, hd, hname, hliterals, hok hmain, hok hprint, hsymbol, function,
    output, call, hfunction, houtput, hcall, fun s hcounter htop => ?_⟩
  obtain rfl := hcall.block.symm.trans (makes_callBlock 21 (hok hknown)).block
  obtain rfl := houtput.block.symm.trans (makes_printCode (hok hprint)).block
  have hexact : [7, 8] ++ [9] = values ++ [value] := by
    apply List.map_injective_iff.mpr (Option.some_injective Int)
    rw [List.map_append, List.map_append]
    exact hbody.symm.trans hvalues
  obtain ⟨rfl, hvalue⟩ := List.append_inj' hexact rfl
  obtain rfl := (List.cons.inj hvalue).1
  exact hback _ 0 10 rfl (List.prefix_refl _) (List.prefix_append _ _) (List.prefix_append _ _) s 50
    hcounter htop

end Klein
