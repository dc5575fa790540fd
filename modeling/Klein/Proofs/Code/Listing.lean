import Klein.Proofs.Analysis.Outcome
import Klein.Proofs.Code.Linking

namespace Klein

open Machine Register

/-- The instructions of a call that compute and store the return address. -/
def storeReturn : List Instruction :=
  [.loadConstant top 3, .add top top counter, .store top 0 status]

/-- What is stored is the address behind two more instructions. -/
theorem step_storeReturn {code : List Instruction} {s : State} {k cell : Nat}
    (hpc : s.registers 7 = k) (hstatus : s.registers 5 = cell)
    (hblock : storeReturn <+: code.drop k) :
    ∃ t, (step code s >>= step code >>= step code) = .ok t ∧
      t.memory = Function.update s.memory cell (k + 5 : Nat) := by
  obtain ⟨hconstant, hsecond, hadd⟩ := step_cons (t := s.advance.set 6 3) hpc hblock rfl rfl
  have hvalue : (3 + ((s.advance.set 6 3).registers 7 + 1) : Int) = (k + 5 : Nat) := by
    rw [hsecond]
    omega
  obtain ⟨hsum, hthird, hlast⟩ :=
    step_cons hsecond hadd (State.execute_add rfl rfl rfl hvalue) rfl
  have hcell : 0 + s.registers 5 = cell := by
    rw [hstatus, Int.zero_add]
  obtain ⟨hstore, -⟩ := step_cons hthird hlast
    (State.execute_store (v := (k + 5 : Nat)) rfl rfl hcell rfl) rfl
  refine ⟨_, Eq.trans ?_ hstore, rfl⟩
  simp only [hconstant, hsum, bind, Except.bind]

/-- Instructions in which the return address is only stored by calls: the new top pointer and the
    jump follow, and behind them there is something to return to. -/
inductive Chained : List Instruction → Prop
  | nil : Chained []
  | cons {i rest} : i ≠ .loadConstant top 3 → Chained rest → Chained (i :: rest)
  | link {address rest} : rest ≠ [] → Chained rest →
      Chained (storeReturn ++ .loadAddress top 6 status :: .loadConstant counter address :: rest)

namespace Chained

variable {block rest : List Instruction}

theorem append (h : Chained block) (hrest : Chained rest) : Chained (block ++ rest) := by
  induction h with
  | nil => exact hrest
  | cons hi _ ih => exact .cons hi ih
  | link hne _ ih => exact .link (List.append_ne_nil_of_left_ne_nil hne _) ih

theorem of_all (h : block.all (fun i => decide (i ≠ .loadConstant top 3)) = true) :
    Chained block := by
  induction block with
  | nil => exact .nil
  | cons i block ih =>
    obtain ⟨hi, hblock⟩ := Bool.and_eq_true_iff.mp h
    exact .cons (of_decide_eq_true hi) (ih hblock)

theorem linkBlock_append {offset address : Int} (hne : rest ≠ []) (h : Chained rest) :
    Chained (linkBlock offset address ++ rest) :=
  .cons Instruction.noConfusion (.link hne h)

/-- Wherever the return address is stored, a jump follows, and there is an instruction behind it. -/
theorem behind_jump {k : Nat} (h : Chained block) (hk : storeReturn <+: block.drop k) :
    (∃ address, block[k + 4]? = some (.loadConstant counter address)) ∧ k + 5 < block.length := by
  induction h generalizing k with
  | nil => simp [storeReturn] at hk
  | cons hi _ ih =>
    cases k with
    | zero => exact absurd (List.cons_prefix_cons.mp hk).1.symm hi
    | succ k =>
      obtain ⟨hjump, hlt⟩ := ih hk
      exact ⟨hjump, Nat.succ_lt_succ hlt⟩
  | @link address rest hne _ ih =>
    -- the return address is not stored again before the jump is over
    match k with
    | 0 =>
      have hlt := List.length_pos_of_ne_nil hne
      exact ⟨⟨address, rfl⟩, Nat.add_lt_add_right hlt 5⟩
    | 1 | 2 | 3 | 4 =>
      have hfirst := (List.cons_prefix_cons.mp hk).1
      simp [counter, top] at hfirst
    | k + 5 =>
      obtain ⟨hjump, hlt⟩ := ih hk
      exact ⟨hjump, Nat.add_lt_add_right hlt 5⟩

end Chained

theorem chained_moveBlock (count : Nat) : Chained (moveBlock count) := by
  induction count with
  | zero => exact .nil
  | succ count ih => exact .cons Instruction.noConfusion (.cons Instruction.noConfusion ih)

theorem chained_setupBlock (n : Nat) : Chained (setupBlock n) := by
  rw [setupBlock, List.append_assoc, List.append_assoc]
  have hend : Chained [.output result, .halt] := .of_all rfl
  exact (Chained.of_all rfl).append
    ((chained_moveBlock n).append (hend.linkBlock_append (List.cons_ne_nil _ _)))

/-- Code that may not be made. If it is, then its commands are made in the order in which they are
    printed, and are those of a block with some property. -/
def Code.Yields (code : Code) (B : List Instruction → Prop) : Prop :=
  ∀ l, code.Ends l (fun lines after => ∃ block, B block ∧ MadeInOrder l lines block after)
    fun _ => True

theorem Code.Makes.yields {code : Code} {block : List Instruction} {B : List Instruction → Prop}
    (h : code.Makes block) (hB : B block) : code.Yields B :=
  fun l => (h l).mono (fun _ _ hlisted => ⟨block, hB, hlisted⟩) fun _ => False.elim

theorem Code.Yields.bind {α : Type} {code : Code} {B : List Instruction → Prop}
    {f : List CodeLine → Making α} {l : Layout} {Q : α → Layout → Prop} (h : code.Yields B)
    (hf : ∀ lines after block, B block → MadeInOrder l lines block after →
      (f lines).Ends after Q fun _ => True) :
    (code >>= f).Ends l Q fun _ => True :=
  (h l).bind fun lines after ⟨block, hB, hlisted⟩ => hf lines after block hB hlisted

variable {table : SymbolTable} {p : Program} {d : Definition} {n : Nat}

theorem yields_valueCode (r : Int) (e : Expr) :
    (valueCode r (.expr e)).Yields fun block => ∃ v, block = [.loadConstant r v] := by
  cases e with
  | integer tag text => exact fun _ => ⟨_, ⟨_, rfl⟩, .command _ _ .nil⟩
  | _ => exact fun _ => trivial

theorem yields_callCode (name : String) (address : Int) (locations : List Location) :
    (callCode table name address locations).Yields fun block =>
      ∃ m, block = callingBlock m address locations := by
  cases hcount : parameterCount table name with
  | ok m => exact (makes_callCode address locations hcount).yields ⟨m, rfl⟩
  | error e =>
    intro l
    have hcall : (callSequence table name address locations).Yields fun _ => False := fun _ =>
      Making.ends_lift_error hcount trivial
    exact hcall.bind fun _ _ _ => False.elim

/-- A call for output: ten instructions, the last ones of which are the jump. -/
structure IsOutput (block : List Instruction) : Prop where
  length : block.length = 10
  chained {rest : List Instruction} : rest ≠ [] → Chained rest → Chained (block ++ rest)

theorem yields_outputCode (address : Int) (c : Call) :
    (outputCode table address c).Yields IsOutput := by
  intro l
  refine Making.ends_lift (fun argument _ => ?_) fun _ _ => trivial
  refine (yields_valueCode temporary argument).bind fun value _ _ ⟨v, hblock⟩ hvalue => ?_
  refine (yields_callCode "print" address _).bind fun call _ _ ⟨m, hcalling⟩ hcall => ?_
  subst hblock hcalling
  refine Making.ends_pure ⟨_, ⟨rfl, fun hne hrest => ?_⟩, hvalue.append hcall⟩
  have hstart : Chained [.loadConstant temporary v, .store status (m + 5) top,
      .store top (m + 6) top, .store temporary 1 top] := .of_all rfl
  exact hstart.append (hrest.linkBlock_append hne)

theorem outputs_flatten {calls : List Call} {blocks : List (List Instruction)}
    (h : List.Forall₂ (fun _ block => IsOutput block) calls blocks) :
    blocks.flatten.length = 10 * calls.length ∧
      ∀ {rest}, rest ≠ [] → Chained rest → Chained (blocks.flatten ++ rest) := by
  induction h with
  | nil => exact ⟨rfl, fun _ hrest => hrest⟩
  | cons hblock _ ih =>
    obtain ⟨hlength, hchained⟩ := ih
    constructor
    · rw [List.flatten_cons, List.length_append, hblock.length, hlength, List.length_cons]
      omega
    · -- each call returns to the one that follows it
      intro rest hne hrest
      rw [List.flatten_cons, List.append_assoc]
      exact hblock.chained (List.append_ne_nil_of_right_ne_nil _ hne) (hchained hne hrest)

/-- The code of a definition, counted by its calls for output. -/
def IsFunction (d : Definition) (block : List Instruction) : Prop :=
  block.length = 11 + 10 * d.body.prints.length ∧ Chained block

theorem yields_functionCode (table : SymbolTable) (d : Definition) :
    (functionCode table d).Yields (IsFunction d) := by
  intro l
  refine Making.ends_lift (fun m _ => ?_) fun _ _ => trivial
  refine (makes_heading d.name).bind fun title _ htitle => ?_
  refine makes_entrySequence.bind fun saved _ hsaved => ?_
  refine (ends_mapM fun c _ => yields_outputCode (printAddress m) c).bind
    fun outputs _ ⟨blocks, hblocks, houtputs⟩ => ?_
  refine (yields_valueCode result d.body.result).bind fun value _ _ ⟨v, hblock⟩ hvalue => ?_
  subst hblock
  refine command_bind fun store _ hstore => ?_
  refine (makes_exitSequence _).bind fun back _ hback => ?_
  obtain ⟨hlength, hchained⟩ := outputs_flatten hblocks
  refine Making.ends_pure ⟨_, ⟨?_, ?_⟩,
    (((htitle.append hsaved).append houtputs).append hvalue).append (hstore.append hback)⟩
  · simp only [List.length_append, hlength, entryBlock, exitBlock, List.length_cons,
      List.length_nil]
    omega
  · rw [List.append_assoc, List.append_assoc]
    exact (Chained.of_all rfl).append (hchained (List.cons_ne_nil _ _) (.of_all rfl))

theorem functions_flatten {definitions : List Definition} {blocks : List (List Instruction)}
    (h : List.Forall₂ IsFunction definitions blocks) :
    blocks.flatten.length = (definitions.map fun d => 11 + 10 * d.body.prints.length).sum ∧
      Chained blocks.flatten := by
  induction h with
  | nil => exact ⟨rfl, .nil⟩
  | cons hblock _ ih =>
    rw [List.flatten_cons, List.length_append, List.map_cons, List.sum_cons, hblock.1, ih.1]
    exact ⟨rfl, hblock.2.append ih.2⟩

/-- The instructions of a program, counted by its definitions and their calls for output. -/
theorem yields_programCode (table : SymbolTable) (p : Program) :
    (programCode table p).Yields fun block => ∃ n, parameterCount table "main" = .ok n ∧
      block.length = 21 + 2 * n + (p.definitions.map fun d => 11 + 10 * d.body.prints.length).sum ∧
      Chained block := by
  have hsetup : (setupCode table).Yields fun block =>
      ∃ n, parameterCount table "main" = .ok n ∧ block = setupBlock n := by
    cases hmain : parameterCount table "main" with
    | ok n => exact (makes_setupCode hmain).yields ⟨n, rfl, rfl⟩
    | error e => exact fun _ => Making.ends_lift_error hmain trivial
  have hprint : (printCode table).Yields fun block => ∃ m, block = printBlock m := by
    cases hcount : parameterCount table "print" with
    | ok m => exact (makes_printCode hcount).yields ⟨m, rfl⟩
    | error e => exact fun _ => Making.ends_lift_error hcount trivial
  intro l
  refine hsetup.bind fun setup _ _ ⟨n, hmain, hblock⟩ hsetup => ?_
  refine hprint.bind fun print _ _ ⟨m, hprinting⟩ hprint => ?_
  subst hblock hprinting
  refine (ends_mapM fun d _ => yields_functionCode table d).bind
    fun functions _ ⟨blocks, hblocks, hfunctions⟩ => ?_
  obtain ⟨hlength, hchained⟩ := functions_flatten hblocks
  refine Making.ends_pure ⟨_, ⟨n, hmain, ?_, ?_⟩, (hsetup.append hprint).append hfunctions⟩
  · rw [List.length_append, List.length_append, length_setupBlock, hlength]
    change 10 + 2 * n + 11 + _ = _
    omega
  · exact ((chained_setupBlock n).append (.of_all rfl)).append hchained

/-- Where the return address is stored at an address of a listing, a jump follows, and the value
    that is stored is the number of the instruction behind the jump. -/
structure ReturnsBehindJump (lines : List CodeLine) (block : List Instruction) (k : Nat) :
    Prop where
  jump : ∃ address, block[k + 4]? = some (.loadConstant counter address)
  stored : ∃ number i, (lines.filterMap CodeLine.numbered?)[k + 5]? = some (number, i) ∧
    ∀ (s : State) (cell : Nat), s.registers 7 = k → s.registers 5 = cell →
      ∃ t, (step block s >>= step block >>= step block) = .ok t ∧
        t.memory = Function.update s.memory cell number

open Analysis

/-- The table that comes from an analysis knows `main` by its first definition. -/
theorem main_of_parameterCount {q : Program} (hlegal : q.Legal)
    (hmain : parameterCount (analyze q).state.table "main" = .ok n) :
    ∃ main, q.definitions.find? (·.name = "main") = some main ∧
      main.parameters.items.length = n := by
  rw [parameterCount, (analyze_eq hlegal).2.2.1, Program.finalSymbols, lookup_symbolsWith,
    Program.globalSymbol, if_neg (by decide)] at hmain
  cases hfound : q.definitions.find? (·.name = "main") with
  | none => simp [hfound] at hmain
  | some main =>
    refine ⟨main, rfl, ?_⟩
    simpa [hfound, functionSymbol, parameterTypes] using hmain

/-- If the code of a program is printed, whatever has been printed before, then the commands have
    been numbered as they were made, from the next number on, and this is the order in which they
    are printed. They are counted by the parameters of `main`, the definitions and their calls for
    output. If the numbers start from zero, then all calls return behind their jumps. -/
theorem listing_numbered_in_order {l after : Layout} {text : String}
    (h : (programCode table p).print l = (.ok text, after)) :
    ∃ (n total : Nat) (lines : List CodeLine) (block : List Instruction),
      parameterCount table "main" = .ok n ∧
      (∀ source q, parse source = .ok q → table = (analyze q).state.table →
        ∃ main, q.definitions.find? (·.name = "main") = some main ∧
          main.parameters.items.length = n) ∧
      total = 21 + 2 * n + (p.definitions.map fun d => 11 + 10 * d.body.prints.length).sum ∧
      (programCode table p).run.run l = (.ok lines, after) ∧
      MadeInOrder l lines block after ∧
      Prints l lines text ∧
      lines.filterMap CodeLine.numbered? =
        (block.zipIdx l.next).map (fun (i, number) => ((number : Int), i)) ∧
      (lines.filterMap CodeLine.numbered?).map Prod.fst =
        (List.range' l.next total).map Int.ofNat ∧
      after.next = l.next + total ∧
      (l.next = 0 → ∀ k, storeReturn <+: block.drop k → ReturnsBehindJump lines block k) := by
  obtain ⟨lines, layout, hrun, block, ⟨n, hmain, hlength, hchained⟩, hlisted⟩ | ⟨e, _, hrun, -⟩ :=
    (yields_programCode table p l).cases
  · cases (Code.print_of_run hrun).symm.trans h
    have hnumbered := hlisted.numbered
    refine ⟨n, _, lines, block, hmain, fun source q hparse htable => ?_, rfl, hrun, hlisted,
      hlisted.prints, hnumbered, ?_, ?_, fun hzero k hk => ?_⟩
    · subst htable
      exact main_of_parameterCount (Parser.legal_of_parse hparse) hmain
    · rw [hnumbered, ← hlength, ← List.zipIdx_map_snd, List.map_map, List.map_map]
      rfl
    · rw [hlisted.next_eq, hlength]
    · obtain ⟨hjump, hlt⟩ := hchained.behind_jump hk
      have hbehind : (lines.filterMap CodeLine.numbered?)[k + 5]? =
          some (Int.ofNat (k + 5), block[k + 5]) := by
        rw [hnumbered, hzero, List.getElem?_map, List.getElem?_zipIdx,
          List.getElem?_eq_getElem hlt]
        simp
      exact ⟨hjump, _, _, hbehind, fun s cell hpc hstatus => step_storeReturn hpc hstatus hk⟩
  · rw [Code.print, hrun] at h
    simp at h

/-- A listing of 55 instructions. The return address of the call for output is stored at 31. -/
theorem listing_numbered_in_order_55 :
    ∃ p text after lines, parse ("function main(a:integer):integer print(3) 4 " ++
        "function other():integer 5") = .ok p ∧
      (programCode (analyze p).state.table (analyze p).program).print {} = (.ok text, after) ∧
      Prints {} lines text ∧
      (lines.filterMap CodeLine.numbered?).map Prod.fst = (List.range' 0 55).map Int.ofNat ∧
      ReturnsBehindJump lines (instructions lines) 31 := by
  have hmade : ∃ p, parse ("function main(a:integer):integer print(3) 4 " ++
        "function other():integer 5") = .ok p ∧
      (programCode (analyze p).state.table (analyze p).program).error.isNone = true ∧
      (parameterCount (analyze p).state.table "main").toOption = some 1 ∧
      ((analyze p).program.definitions.map fun d => 11 + 10 * d.body.prints.length) = [21, 11] ∧
      storeReturn.isPrefixOf ((instructions
        (programCode (analyze p).state.table (analyze p).program).lines).drop 31) = true := by
    apply exists_ok_of_any
    decide +kernel
  obtain ⟨p, hparse, hcode, hmain, hprints, hstore⟩ := hmade
  rw [Option.isNone_iff_eq_none] at hcode
  obtain ⟨after, hrun⟩ := Code.exists_run_of_error hcode
  have hprint := Code.print_of_run hrun
  obtain ⟨n, total, lines, block, hn, -, htotal, hmade, hlisted, htext, -, hnumbers, -, hreturns⟩ :=
    listing_numbered_in_order hprint
  obtain rfl : n = 1 := by simpa [hn, Except.toOption] using hmain
  rw [hprints] at htotal
  subst htotal
  cases hrun.symm.trans hmade
  obtain rfl := hlisted.instructions_eq
  exact ⟨p, _, after, _, hparse, hprint, htext, hnumbers,
    hreturns rfl 31 (List.isPrefixOf_iff_prefix.mp hstore)⟩

end Klein
