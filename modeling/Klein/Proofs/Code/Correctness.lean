import Klein.Proofs.Analysis.Signatures
import Klein.Proofs.Code.Frames

namespace Klein

open Machine Register

variable {code rest : List Instruction} {Q : State → Prop} {s : State} {n : Nat}

/-- Moving the arguments of the program by one cell keeps their order, and leaves all other cells
    alone. -/
theorem runs_moveBlock {count : Nat} (htop : s.registers 6 = 1)
    (hrest : ∀ t : State, t.registers 6 = 1 →
      (∀ k, t.memory k = if 1 < k ∧ k ≤ count + 1 then s.memory (k - 1) else s.memory k) →
      t.output = s.output → Runs code Q rest t) :
    Runs code Q (moveBlock count ++ rest) s := by
  induction count generalizing s with
  | zero => exact hrest s htop (fun k => by rw [if_neg (by omega)]) rfl
  | succ count ih =>
    have hfrom : (count : Int) + s.registers 6 = (count + 1 : Nat) := by
      rw [htop]
      omega
    have hto : (count + 1 : Int) + s.registers 6 = (count + 2 : Nat) := by
      rw [htop]
      omega
    rw [moveBlock]
    -- the last argument is moved first, to the cell that is free behind it
    refine .cons (State.execute_load rfl rfl hfrom rfl) rfl ?_
    refine .cons (State.execute_store (v := s.memory (count + 1)) rfl rfl hto rfl) rfl ?_
    refine ih htop fun t ht hmemory houtput => hrest t ht (fun k => ?_) houtput
    simp only [hmemory, State.memory_write, State.memory_advance, State.memory_set]
    by_cases hlast : k = count + 2
    · subst hlast
      rw [if_neg (by omega), if_pos rfl, if_pos (by omega)]
      rfl
    · by_cases hmoved : 1 < k ∧ k ≤ count + 1
      · rw [if_pos hmoved, if_neg (by omega), if_pos (by omega)]
      · rw [if_neg hmoved, if_neg hlast, if_neg (by omega)]

/-- The set-up calls the first definition in a frame that starts at the first cell, with the
    arguments of the program behind that cell. When the function returns, its value is output and
    the machine halts. -/
theorem runs_setupBlock
    (hmain : ∀ (t : State) (back : Nat), t.registers 7 = mainAddress n → Frame 1 n t.memory t →
      t.memory (n + 2) = back → [.output result, .halt] <+: code.drop back →
      (∀ k, 1 ≤ k → k ≤ n → t.memory (k + 1) = s.memory k) →
      t.output = s.output → Attains code Q t) :
    Runs code Q (setupBlock n) s := by
  have hsaved : (n + top : Int) + 1 = (n + 7 : Nat) := by
    change (n + 6 : Int) + 1 = _
    omega
  rw [setupBlock, List.append_assoc, List.append_assoc]
  refine .cons rfl rfl (.cons (State.execute_store (v := 1) rfl rfl hsaved rfl) rfl ?_)
  refine runs_moveBlock rfl fun t htop hmemory houtput pc hpc hblock => ?_
  have hstatus : (1 + n : Int) + t.registers 6 = (n + 2 : Nat) := by
    rw [htop]
    omega
  refine runs_linkBlock hpc hstatus (fun u hcounter hstatus htop _ hlinked hsame => ?_) pc hpc
    hblock
  refine hmain u (pc + 6) hcounter ⟨?_, ?_, ?_, fun _ _ => rfl⟩ ?_ (isPrefix_drop hblock 6)
    (fun k hfirst hlast => ?_) (hsame.trans houtput)
  · rw [hstatus]
    omega
  · rw [htop]
    omega
  · rw [hlinked, State.memory_write, if_neg (by omega), hmemory, if_neg (by omega)]
    simp [Nat.add_comm]
  · simp [hlinked]
  · rw [hlinked, State.memory_write, if_neg (by omega), hmemory, if_pos (by omega)]
    -- the saved top pointer is behind the arguments
    simp only [State.memory_write, State.memory_advance, State.memory_set]
    rw [if_neg (by omega), Nat.add_sub_cancel]

/-- Each argument costs two instructions. -/
theorem length_setupBlock (n : Nat) : (setupBlock n).length = 10 + 2 * n := by
  simp only [setupBlock, List.length_append, length_moveBlock]
  change 2 + 2 * n + 6 + 2 = _
  omega

/-- Where the blocks of a program stand: the addresses that are built into the code are right. -/
theorem isPrefix_of_blocks {d : Definition}
    (hcode : code =
      setupBlock n ++ (printBlock 1 ++ (definitionBlock (printAddress n) d ++ rest))) :
    setupBlock n <+: code.drop 0 ∧ printBlock 1 <+: code.drop (10 + 2 * n) ∧
      definitionBlock (10 + 2 * n : Nat) d <+: code.drop (21 + 2 * n) := by
  have hprint : code.drop (10 + 2 * n) =
      printBlock 1 ++ (definitionBlock (printAddress n) d ++ rest) := by
    rw [hcode, ← length_setupBlock, List.drop_left]
  have hmain : code.drop (21 + 2 * n) = definitionBlock (printAddress n) d ++ rest := by
    have hsum : 21 + 2 * n = 10 + 2 * n + (printBlock 1).length := by
      change 21 + 2 * n = 10 + 2 * n + 11
      omega
    rw [hsum, ← List.drop_drop, hprint, List.drop_left]
  have haddress : ((10 + 2 * n : Nat) : Int) = printAddress n := by
    rw [printAddress]
    omega
  rw [hprint, hmain, haddress, hcode]
  exact ⟨List.prefix_append _ _, List.prefix_append _ _, List.prefix_append _ _⟩

/-- Code that consists of the set-up, the function for output and a definition, whatever follows
    it, outputs the literals of the definition and halts. -/
theorem exists_run_of_blocks {d : Definition} (hn : d.parameters.items.length = n)
    (hcode : code = setupBlock n ++ (printBlock 1 ++ (definitionBlock (printAddress n) d ++ rest)))
    (hstart : s.registers 7 = 0) :
    ∃ steps, run code steps s = some (.halted (s.output ++
      (d.body.prints.map (·.literal?.getD 0) ++ [d.body.result.literal?.getD 0]))) := by
  obtain ⟨hsetup, hprint, hmain⟩ := isPrefix_of_blocks hcode
  subst hn
  apply Attains.exists_run
  refine runs_setupBlock (fun t back hcounter hframe hback hreturn _ hsame => ?_) 0 hstart hsetup
  refine runs_definitionBlock hprint hframe (fun u hu hdelivered => ?_) _ ?_ hmain
  -- back in the set-up, the saved status pointer is not looked at any more
  · have hcounter : u.registers 7 = back := by
      rw [hu.counter, ← hback]
      congr 1
      omega
    have hfinal : (u.advance.emit (u.registers 4)).output = s.output ++
        (d.body.prints.map (·.literal?.getD 0) ++ [d.body.result.literal?.getD 0]) := by
      simp [hdelivered.result, hdelivered.output, hsame]
    rw [← hfinal]
    exact Runs.cons rfl rfl .halt back hcounter hreturn
  · rw [hcounter, mainAddress]
    omega

theorem parameterCount_of_typeOf {table : SymbolTable} {name : String} {source : List Ty}
    {target : Ty} (htype : table.typeOf name = some (.function source target)) :
    parameterCount table name = .ok source.length := by
  obtain ⟨symbol, hlookup, hsymbol⟩ := Option.map_eq_some_iff.mp htype
  simp only [parameterCount, hlookup, hsymbol]

/-- The analysed program differs from the parsed one in its annotations only. -/
theorem programCode_analyze (p : Program) :
    programCode (Analysis.analyze p).state.table (Analysis.analyze p).program =
      programCode (Analysis.analyze p).state.table p := by
  rw [← programCode_bare, Analysis.analyze_bare, programCode_bare]

/-- If a program that is analysed without an error consists of literals and starts with the
    definition of `main`, then its code can be listed, and the machine halts from every state in
    which the counter is zero, with the literals of `main` as its output. -/
theorem run_outputs_literals {text : String} {p : Program} {main : Definition}
    {others : List Definition} (hparse : parse text = .ok p)
    (hok : (Analysis.analyze p).error = none) (hfirst : p.definitions = main :: others)
    (hname : main.name = "main") (hliterals : ∀ d ∈ p.definitions, none ∉ d.body.literals) :
    ∃ (block : List Instruction) (values : List Int),
      (programCode (Analysis.analyze p).state.table (Analysis.analyze p).program).Lists block ∧
      main.body.literals = values.map some ∧
      ∀ s : State, s.registers 7 = 0 →
        ∃ steps, run block steps s = some (.halted (s.output ++ values)) := by
  have hlegal := Parser.legal_of_parse hparse
  obtain ⟨hprintType, hmainType⟩ := Analysis.typeOf_analyze hfirst hlegal hok
  have hprint := parameterCount_of_typeOf hprintType
  have hmain := parameterCount_of_typeOf hmainType
  rw [hname] at hmain
  have hcode := makes_programCode hmain hprint hlegal hliterals
  rw [hfirst, List.flatMap_cons, List.append_assoc] at hcode
  refine ⟨_, main.body.literals.map (·.getD 0), (programCode_analyze p).symm ▸ hcode.lists, ?_,
    fun s hstart => ?_⟩
  · have hsome := Body.eq_some_of_mem_literals (hliterals main (by simp [hfirst]))
    rw [List.map_map]
    exact (List.map_id _).symm.trans (List.map_congr_left hsome)
  · have hn : main.parameters.items.length =
        (Analysis.parameterTypes main.parameters.items).length := (List.length_map _).symm
    have hvalues : main.body.literals.map (·.getD 0) =
        main.body.prints.map (·.literal?.getD 0) ++ [main.body.result.literal?.getD 0] := by
      simp [Body.literals]
    rw [hvalues]
    exact exists_run_of_blocks hn rfl hstart

/-- Two literals are printed before the result, and the other definition is not run. -/
theorem run_outputs_literals_of_two :
    ∃ p main others,
      parse ("function main(a:integer,b:boolean):integer print(10) print(2) 3 " ++
        "function other():integer print(4) 5") = .ok p ∧
      (Analysis.analyze p).error = none ∧ p.definitions = main :: others ∧ main.name = "main" ∧
      (∀ d ∈ p.definitions, none ∉ d.body.literals) ∧
      ∃ block : List Instruction,
        (programCode (Analysis.analyze p).state.table (Analysis.analyze p).program).Lists block ∧
        ∀ s : State, s.registers 7 = 0 →
          ∃ steps, run block steps s = some (.halted (s.output ++ [10, 2, 3])) := by
  have hparsed : ∃ p, parse ("function main(a:integer,b:boolean):integer print(10) print(2) 3 " ++
      "function other():integer print(4) 5") = .ok p ∧ (Analysis.analyze p).error = none ∧
      p.definitions.map (·.name) = ["main", "other"] ∧
      p.definitions.map (·.body.literals) =
        [[some 10, some 2, some 3], [some 4, some 5]] := by
    apply Analysis.exists_ok_of_any
    decide +kernel
  obtain ⟨p, hparse, hok, hnames, hbodies⟩ := hparsed
  obtain ⟨main, others, hfirst, hname, -⟩ := List.map_eq_cons_iff.mp hnames
  have hliterals : ∀ d ∈ p.definitions, none ∉ d.body.literals := by
    intro d hd hnone
    have hmem := List.mem_map_of_mem (f := (·.body.literals)) hd
    rw [hbodies] at hmem
    simp only [List.mem_cons, List.not_mem_nil, or_false] at hmem
    rcases hmem with h | h <;> simp [h] at hnone
  obtain ⟨block, values, hlists, hvalues, hrun⟩ :=
    run_outputs_literals hparse hok hfirst hname hliterals
  rw [hfirst, List.map_cons, List.cons.injEq, hvalues] at hbodies
  have hexact : values = [10, 2, 3] :=
    List.map_injective_iff.mpr (Option.some_injective _) hbodies.1
  exact ⟨p, main, others, hparse, hok, hfirst, hname, hliterals, block, hlists, hexact ▸ hrun⟩

end Klein
