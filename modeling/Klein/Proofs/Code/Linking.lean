import Klein.Proofs.Analysis.Decision
import Klein.Proofs.Code.Correctness
import Klein.Proofs.Code.Refusal

namespace Klein

open Machine Register

/-- The target of an instruction that loads a constant into the counter. -/
def Machine.Instruction.target? : Instruction → Option Int
  | loadConstant r target => if r = counter then some target else none
  | _ => none

/-- The targets of the jumps to constant addresses, in order. -/
def jumpTargets (block : List Instruction) : List Int :=
  block.filterMap Instruction.target?

@[simp]
theorem jumpTargets_append (block rest : List Instruction) :
    jumpTargets (block ++ rest) = jumpTargets block ++ jumpTargets rest :=
  List.filterMap_append

theorem jumpTargets_moveBlock (count : Nat) :
    jumpTargets (moveBlock count) = [] := by
  induction count with
  | zero => rfl
  | succ count ih =>
    rw [moveBlock]
    exact ih

theorem jumpTargets_setupBlock (n : Nat) : jumpTargets (setupBlock n) = [mainAddress n] := by
  simp only [setupBlock, jumpTargets_append, jumpTargets_moveBlock]
  rfl

theorem jumpTargets_definitionBlock (address : Int) (d : Definition) :
    jumpTargets (definitionBlock address d) = d.body.prints.map fun _ => address := by
  have houtputs : ∀ calls : List Call,
      jumpTargets (calls.flatMap fun c => outputBlock address (c.literal?.getD 0)) =
        calls.map fun _ => address := by
    intro calls
    induction calls with
    | nil => rfl
    | cons c calls ih =>
      rw [List.flatMap_cons, jumpTargets_append, ih]
      rfl
  simp only [definitionBlock, jumpTargets_append, houtputs]
  exact List.append_nil _

variable (table : SymbolTable) (p : Program)

/-- The functions in the code of a program, with their names and instructions: the function for
    output, and the definitions in order. -/
def functionBlocks : List (String × List Instruction) :=
  ("print", instructions (printCode table).lines) ::
    p.definitions.map fun d => (d.name, instructions (functionCode table d).lines)

/-- A function starts at a number of the listing: so many instructions stand before its own, those
    of the set-up and of the functions before it. -/
def StartsAt (name : String) (number : Int) : Prop :=
  ∃ before block after, functionBlocks table p = before ++ (name, block) :: after ∧
    number = (instructions (setupCode table).lines ++ before.flatMap Prod.snd).length

/-- Code that jumps to some functions one after another, each time to the start of the function,
    and nowhere else. -/
def JumpsTo (callees : List String) (code : Code) : Prop :=
  List.Forall₂ (StartsAt table p) callees (jumpTargets (instructions code.lines))

/-- The code of a program in which each jump leads to the function it is meant for: that of the
    set-up to the function with which the program starts, and those of a definition to the
    functions that it calls for their output. -/
structure Linked (start : String) : Prop where
  setup : JumpsTo table p [start] (setupCode table)
  print : JumpsTo table p [] (printCode table)
  definitions : ∀ d ∈ p.definitions,
    JumpsTo table p (d.body.prints.map (·.callee)) (functionCode table d)

theorem functionBlocks_bare : functionBlocks table p.bare = functionBlocks table p := by
  simp only [functionBlocks, Program.bare, List.map_map, Function.comp_def, functionCode_bare]
  rfl

theorem linked_bare (start : String) : Linked table p.bare start ↔ Linked table p start := by
  have hjumps : JumpsTo table p.bare = JumpsTo table p := by
    have hstarts : StartsAt table p.bare = StartsAt table p := by
      funext name number
      rw [StartsAt, functionBlocks_bare, StartsAt]
    funext callees code
    rw [JumpsTo, hstarts, JumpsTo]
  have hcallees : ∀ d : Definition,
      d.bare.body.prints.map (·.callee) = d.body.prints.map (·.callee) := by
    simp [Definition.bare, Body.bare, Call.bare]
  constructor
  · rintro ⟨hsetup, hprint, hdefinitions⟩
    rw [hjumps] at hsetup hprint hdefinitions
    refine ⟨hsetup, hprint, fun d hd => ?_⟩
    rw [← hcallees, ← functionCode_bare]
    exact hdefinitions d.bare (List.mem_map_of_mem hd)
  · rintro ⟨hsetup, hprint, hdefinitions⟩
    rw [← hjumps] at hsetup hprint hdefinitions
    refine ⟨hsetup, hprint, List.forall_mem_map.mpr fun d hd => ?_⟩
    rw [hcallees, functionCode_bare]
    exact hdefinitions d hd

variable {table p} {n : Nat} {first : Definition} {rest : List Definition}

/-- The function for output has a word of its own for its name. -/
theorem nodup_functionBlocks (hlegal : p.Legal) (hnames : (p.definitions.map (·.name)).Nodup) :
    ((functionBlocks table p).map Prod.fst).Nodup := by
  rw [functionBlocks, List.map_cons, List.map_map, List.nodup_cons]
  refine ⟨fun hprint => ?_, hnames⟩
  obtain ⟨d, hd, hname⟩ := List.mem_map.mp hprint
  exact (hlegal d hd).name.ne_print hname

/-- If no instruction stands between two functions, then they are the same one. -/
theorem eq_of_nothing_between {f g : String × List Instruction}
    {between after later : List (String × List Instruction)} (hf : f.2 ≠ [])
    (hsplit : f :: after = between ++ g :: later) (hnone : (between.flatMap Prod.snd).length = 0) :
    f = g := by
  cases between with
  | nil => exact (List.cons.inj hsplit).1
  | cons h between =>
    obtain ⟨rfl, -⟩ := List.cons.inj hsplit
    rw [List.flatMap_cons, List.length_append, Nat.add_eq_zero_iff] at hnone
    exact absurd (List.length_eq_zero_iff.mp hnone.1) hf

/-- Functions that have instructions do not start at the same number. -/
theorem StartsAt.name_eq {name other : String} {number : Int}
    (hblocks : ∀ f ∈ functionBlocks table p, f.2 ≠ []) (h : StartsAt table p name number)
    (hother : StartsAt table p other number) : name = other := by
  obtain ⟨before, block, after, hsplit, hnumber⟩ := h
  obtain ⟨earlier, otherBlock, later, hotherSplit, hotherNumber⟩ := hother
  have hblock : block ≠ [] := hblocks (name, block) (by simp [hsplit])
  have hotherBlock : otherBlock ≠ [] := hblocks (other, otherBlock) (by simp [hotherSplit])
  have hlength : (before.flatMap Prod.snd).length = (earlier.flatMap Prod.snd).length := by
    simp only [List.length_append] at hnumber hotherNumber
    omega
  rw [hsplit, List.append_eq_append_iff] at hotherSplit
  rcases hotherSplit with ⟨between, rfl, hbetween⟩ | ⟨between, rfl, hbetween⟩
  · rw [List.flatMap_append, List.length_append] at hlength
    exact congrArg Prod.fst (eq_of_nothing_between hblock hbetween (by omega))
  · rw [List.flatMap_append, List.length_append] at hlength
    exact (congrArg Prod.fst (eq_of_nothing_between hotherBlock hbetween (by omega))).symm

/-- All functions start with the instructions that save the registers. -/
theorem functionBlocks_ne_nil (hmain : parameterCount table "main" = .ok n)
    (hprint : parameterCount table "print" = .ok 1) (hlegal : p.Legal)
    (hliterals : ∀ d ∈ p.definitions, none ∉ d.body.literals) :
    ∀ f ∈ functionBlocks table p, f.2 ≠ [] := by
  rw [functionBlocks, List.forall_mem_cons, List.forall_mem_map]
  constructor
  · rw [(makes_printCode hprint).block]
    exact List.cons_ne_nil _ _
  · intro d hd
    rw [(makes_functionCode hmain hprint (hlegal d hd) (hliterals d hd)).block]
    exact List.cons_ne_nil _ _

/-- The listing of a program consists of its set-up and its functions. -/
theorem makes_functionBlocks (hmain : parameterCount table "main" = .ok n)
    (hprint : parameterCount table "print" = .ok 1) (hlegal : p.Legal)
    (hliterals : ∀ d ∈ p.definitions, none ∉ d.body.literals) :
    (programCode table p).Makes
      (instructions (setupCode table).lines ++ (functionBlocks table p).flatMap Prod.snd) := by
  have hdefinitions := List.map_congr_left fun d hd =>
    (makes_functionCode hmain hprint (hlegal d hd) (hliterals d hd)).block
  rw [functionBlocks, List.flatMap_cons, List.flatMap_map, List.flatMap_def, hdefinitions,
    (makes_setupCode hmain).block, (makes_printCode hprint).block, ← List.flatMap_def,
    ← List.append_assoc]
  exact makes_programCode hmain hprint hlegal hliterals

theorem startsAt_print (hmain : parameterCount table "main" = .ok n) :
    StartsAt table p "print" (printAddress n) := by
  refine ⟨[], _, _, rfl, ?_⟩
  rw [(makes_setupCode hmain).block, List.length_append, length_setupBlock, printAddress]
  simp

theorem startsAt_first (hmain : parameterCount table "main" = .ok n)
    (hprint : parameterCount table "print" = .ok 1) (hfirst : p.definitions = first :: rest) :
    StartsAt table p first.name (mainAddress n) := by
  refine ⟨[("print", printBlock 1)], instructions (functionCode table first).lines,
    rest.map fun d => (d.name, instructions (functionCode table d).lines), ?_, ?_⟩
  · rw [functionBlocks, hfirst, (makes_printCode hprint).block]
    rfl
  · rw [(makes_setupCode hmain).block, List.length_append, length_setupBlock, mainAddress]
    change _ = ((10 + 2 * n + 11 : Nat) : Int)
    omega

/-- The set-up of a program of literals is linked with the function that is defined first, and all
    other jumps lead to the function for output. -/
theorem linked_iff_first {start : String} (hmain : parameterCount table "main" = .ok n)
    (hprint : parameterCount table "print" = .ok 1) (hlegal : p.Legal)
    (hliterals : ∀ d ∈ p.definitions, none ∉ d.body.literals)
    (hfirst : p.definitions = first :: rest) : Linked table p start ↔ start = first.name := by
  have hfirstStart := startsAt_first hmain hprint hfirst
  have hsetup : JumpsTo table p [start] (setupCode table) ↔
      StartsAt table p start (mainAddress n) := by
    rw [JumpsTo, (makes_setupCode hmain).block, jumpTargets_setupBlock]
    simp
  constructor
  · intro hlinked
    exact (hsetup.mp hlinked.setup).name_eq
      (functionBlocks_ne_nil hmain hprint hlegal hliterals) hfirstStart
  · rintro rfl
    refine ⟨hsetup.mpr hfirstStart, ?_, fun d hd => ?_⟩
    · rw [JumpsTo, (makes_printCode hprint).block]
      exact .nil
    · rw [JumpsTo, (makes_functionCode hmain hprint (hlegal d hd) (hliterals d hd)).block,
        jumpTargets_definitionBlock, List.forall₂_map_left_iff, List.forall₂_map_right_iff,
        List.forall₂_same]
      intro c hc
      rw [((hlegal d hd).body.prints c hc).callee]
      exact startsAt_print hmain

open Analysis

/-- After an analysis without an error `main` and `print` are known. -/
theorem exists_parameterCount (hlegal : p.Legal) (hok : (analyze p).error = none) :
    (∃ m, parameterCount (analyze p).state.table "main" = .ok m) ∧
      parameterCount (analyze p).state.table "print" = .ok 1 := by
  obtain ⟨-, hmain⟩ := names_of_ok hlegal hok
  obtain ⟨main, hmem, hname⟩ := List.mem_map.mp hmain
  constructor
  · have hfound : (p.definitions.find? (·.name = "main")).isSome = true := by
      rw [List.find?_isSome]
      exact ⟨main, hmem, by simpa using hname⟩
    obtain ⟨first, hfirst⟩ := Option.isSome_iff_exists.mp hfound
    have htype := typeOf_analyze_eq hok "main"
    simp only [Declared.typeOf, Program.declares, List.find?_nil, hfirst] at htype
    exact ⟨_, parameterCount_of_typeOf htype⟩
  · obtain ⟨first, rest, hfirst⟩ := List.exists_cons_of_ne_nil (List.ne_nil_of_mem hmem)
    exact parameterCount_of_typeOf (typeOf_analyze hfirst hlegal hok).1

/-- If the code of a program that is analysed without an error is made, then it consists of
    literals. -/
theorem literals_of_programCode (hlegal : p.Legal) (hok : (analyze p).error = none)
    (hcode : (programCode (analyze p).state.table (analyze p).program).error = none) :
    ∀ d ∈ p.definitions, none ∉ d.body.literals := by
  obtain ⟨⟨m, hmain⟩, hprint⟩ := exists_parameterCount hlegal hok
  rw [programCode_analyze, (refuses_programCode hmain hprint hlegal).error] at hcode
  exact (refusal?_eq_none_iff hlegal).mp hcode

/-- The jumps are the same for the analysed program, since annotations are not used for code. -/
theorem linked_analyze_iff {start : String} (hlegal : p.Legal) (hok : (analyze p).error = none)
    (hcode : (programCode (analyze p).state.table (analyze p).program).error = none)
    (hfirst : p.definitions = first :: rest) :
    Linked (analyze p).state.table (analyze p).program start ↔ start = first.name := by
  obtain ⟨⟨n, hmain⟩, hprint⟩ := exists_parameterCount hlegal hok
  rw [← linked_bare, analyze_bare, linked_bare]
  exact linked_iff_first hmain hprint hlegal (literals_of_programCode hlegal hok hcode) hfirst

/-- The code of a program that is analysed without an error is a listing of the set-up and of
    functions with different names. Its jumps are linked with the function that is defined first,
    so they are linked with `main` if and only if `main` is that function. -/
theorem linked_main_iff_first {text : String} (hparse : parse text = .ok p)
    (hok : (analyze p).error = none)
    (hcode : (programCode (analyze p).state.table (analyze p).program).error = none) :
    ∃ first rest block, p.definitions = first :: rest ∧
      (programCode (analyze p).state.table (analyze p).program).Lists block ∧
      block = instructions (setupCode (analyze p).state.table).lines ++
        (functionBlocks (analyze p).state.table (analyze p).program).flatMap Prod.snd ∧
      ((functionBlocks (analyze p).state.table (analyze p).program).map Prod.fst).Nodup ∧
      Linked (analyze p).state.table (analyze p).program first.name ∧
      (Linked (analyze p).state.table (analyze p).program "main" ↔ first.name = "main") := by
  have hlegal := Parser.legal_of_parse hparse
  obtain ⟨hnames, hmem⟩ := names_of_ok hlegal hok
  obtain ⟨⟨n, hmain⟩, hprint⟩ := exists_parameterCount hlegal hok
  obtain ⟨first, rest, hfirst⟩ : ∃ first rest, p.definitions = first :: rest := by
    obtain ⟨d, hd, -⟩ := List.mem_map.mp hmem
    exact List.exists_cons_of_ne_nil (List.ne_nil_of_mem hd)
  have hblocks : functionBlocks (analyze p).state.table (analyze p).program =
      functionBlocks (analyze p).state.table p := by
    rw [← functionBlocks_bare, analyze_bare, functionBlocks_bare]
  have hmakes := makes_functionBlocks hmain hprint hlegal
    (literals_of_programCode hlegal hok hcode)
  rw [← programCode_analyze, ← hblocks] at hmakes
  refine ⟨first, rest, _, hfirst, hmakes.lists, rfl, ?_, ?_, ?_⟩
  · rw [hblocks]
    exact nodup_functionBlocks hlegal hnames
  · exact (linked_analyze_iff hlegal hok hcode hfirst).mpr rfl
  · rw [linked_analyze_iff hlegal hok hcode hfirst, eq_comm]

/-- A program that starts with `main` is linked, whatever is output and defined behind it. -/
theorem linked_main_of_two :
    ∃ p, parse ("function main(a:integer,b:boolean):integer print(10) print(2) 3 " ++
        "function other():integer print(4) 5") = .ok p ∧
      (analyze p).error = none ∧
      (programCode (analyze p).state.table (analyze p).program).error = none ∧
      Linked (analyze p).state.table (analyze p).program "main" := by
  have hmade : ∃ p, parse ("function main(a:integer,b:boolean):integer print(10) print(2) 3 " ++
      "function other():integer print(4) 5") = .ok p ∧ (analyze p).error = none ∧
      (programCode (analyze p).state.table (analyze p).program).error.isNone = true ∧
      p.definitions.map (·.name) = ["main", "other"] := by
    apply exists_ok_of_any
    decide +kernel
  obtain ⟨p, hparse, hok, hcode, hnames⟩ := hmade
  rw [Option.isNone_iff_eq_none] at hcode
  obtain ⟨first, rest, -, hfirst, -, -, -, -, hlinked⟩ := linked_main_iff_first hparse hok hcode
  rw [hfirst] at hnames
  exact ⟨p, hparse, hok, hcode, hlinked.mpr (List.cons.inj hnames).1⟩

/-- The set-up jumps to the function that is defined first where it should jump to `main`. -/
theorem not_linked_main_of_other_first :
    ∃ p, parse "function other():integer 1 function main():integer 2" = .ok p ∧
      (analyze p).error = none ∧
      (programCode (analyze p).state.table (analyze p).program).error = none ∧
      Linked (analyze p).state.table (analyze p).program "other" ∧
      ¬Linked (analyze p).state.table (analyze p).program "main" := by
  have hmade : ∃ p, parse "function other():integer 1 function main():integer 2" = .ok p ∧
      (analyze p).error = none ∧
      (programCode (analyze p).state.table (analyze p).program).error.isNone = true ∧
      p.definitions.map (·.name) = ["other", "main"] := by
    apply exists_ok_of_any
    decide +kernel
  obtain ⟨p, hparse, hok, hcode, hnames⟩ := hmade
  rw [Option.isNone_iff_eq_none] at hcode
  obtain ⟨first, rest, hfirst, hname, -⟩ := List.map_eq_cons_iff.mp hnames
  have hlinked : ∀ start, Linked (analyze p).state.table (analyze p).program start ↔
      start = "other" := by
    intro start
    rw [linked_analyze_iff (Parser.legal_of_parse hparse) hok hcode hfirst, hname]
  exact ⟨p, hparse, hok, hcode, (hlinked _).mpr rfl, fun hmain => by simp [hlinked] at hmain⟩

end Klein
