import Klein.Proofs.Code.Correctness

namespace Klein

open Machine Register

namespace Machine

/-- The machine comes to a place, and is in a state with a property when it is there for the first
    time. -/
inductive Arrives (code : List Instruction) (there Q : State → Prop) : State → Prop
  | now {s} : there s → Q s → Arrives code there Q s
  | later {s next} : ¬ there s → step code s = .ok next → Arrives code there Q next →
      Arrives code there Q s

variable {code block : List Instruction} {there P Q : State → Prop} {s t : State}

/-- Instructions that follow do not change a step. -/
theorem step_of_isPrefix_code (hblock : block <+: code) (hstep : step block s = .ok t) :
    step code s = .ok t := by
  obtain ⟨rest, rfl⟩ := hblock
  have hfetch : ∀ {counter i}, fetch block counter = .ok i →
      fetch (block ++ rest) counter = .ok i := by
    intro counter i h
    cases counter with
    | negSucc k => cases h
    | ofNat k =>
      cases hk : block[k]? with
      | none => simp [fetch, hk] at h
      | some j =>
        have hlt := (List.getElem?_eq_some_iff.mp hk).1
        simpa [fetch, List.getElem?_append_left hlt] using h
  cases hfound : fetch block (s.registers 7) with
  | error stop => simp [step, hfound, bind, Except.bind] at hstep
  | ok i =>
    rw [← hstep]
    simp [step, hfound, hfetch hfound, bind, Except.bind]

namespace Arrives

/-- A block that comes to a place outside of it has not been there before, whatever follows it. -/
theorem of_attains (hblock : block <+: code) (hthere : ∀ t, Q t → there t)
    (houtside : ∀ t next, there t → step block t ≠ .ok next) (h : Attains block Q s) :
    Arrives code there Q s := by
  induction h with
  | now hQ => exact .now (hthere _ hQ) hQ
  | later hstep _ ih =>
    exact .later (fun hs => houtside _ _ hs hstep) (step_of_isPrefix_code hblock hstep) ih

/-- There is one state in which the machine comes to a place for the first time. -/
theorem exists_and (h : Arrives code there P s) (h' : Arrives code there Q s) : ∃ t, P t ∧ Q t := by
  induction h with
  | now hs hP =>
    cases h' with
    | now _ hQ => exact ⟨_, hP, hQ⟩
    | later hnot => exact absurd hs hnot
  | later hnot hstep _ ih =>
    cases h' with
    | now hs => exact absurd hs hnot
    | later _ hstep' h' =>
      cases hstep.symm.trans hstep'
      exact ih h'

theorem mono (himp : ∀ t, P t → Q t) (h : Arrives code there P s) : Arrives code there Q s := by
  induction h with
  | now hs hP => exact .now hs (himp _ hP)
  | later hnot hstep _ ih => exact .later hnot hstep ih

end Arrives

end Machine

/-- A frame that was laid out by the set-up, for a function that finds its arguments in front of
    the return address, the first one closest to it. The function returns to the instruction that
    outputs its value. -/
structure SetUp (setup : List Instruction) (status : Nat) (arguments : List Int) (s : State) :
    Prop where
  pointer : s.registers 5 = status
  top : s.registers 6 = (status + 6 : Nat)
  back : ∃ out : Nat, setup[out]? = some (.output result) ∧ s.memory status = out
  outer : s.memory (status + 5) = 1
  arguments : ∀ i v, arguments[i]? = some v → s.memory (status - (i + 1)) = v

variable {code : List Instruction} {s : State} {n : Nat} {arguments : List Int}

/-- The set-up lays out the frame of a function that has the arguments in reverse order. -/
theorem attains_setupBlock (hcounter : s.registers 7 = 0) (hlength : arguments.length = n)
    (harguments : ∀ i v, arguments[i]? = some v → s.memory (i + 1) = v) :
    Attains (setupBlock n) (fun t => t.registers 7 = mainAddress n ∧
      SetUp (setupBlock n) (n + 2) arguments.reverse t) s := by
  refine runs_setupBlock (fun t back hjump hframe hback hreturn hmoved _ => .now ⟨hjump, ?_⟩) 0
    hcounter (List.prefix_refl _)
  refine ⟨?_, ?_, ⟨back, ?_, hback⟩, ?_, fun i v hi => ?_⟩
  · rw [hframe.status]
    omega
  · rw [hframe.top]
    omega
  · obtain ⟨rest, hrest⟩ := hreturn
    rw [← Nat.add_zero back, ← List.getElem?_drop, ← hrest]
    rfl
  · rw [show n + 2 + 5 = 1 + n + 6 by omega]
    exact hframe.outer
  · have hlt : i < n := by
      rw [← hlength, ← List.length_reverse]
      exact (List.getElem?_eq_some_iff.mp hi).1
    rw [List.getElem?_reverse (hlength ▸ hlt), hlength] at hi
    rw [show n + 2 - (i + 1) = n - 1 - i + 1 + 1 by omega, hmoved _ (by omega) (by omega)]
    exact harguments _ v hi

/-- The set-up jumps out of its code. -/
theorem step_setupBlock_ne {t next : State} (ht : t.registers 7 = mainAddress n) :
    step (setupBlock n) t ≠ .ok next := by
  have hnone : (setupBlock n)[21 + 2 * n]? = none := by
    rw [List.getElem?_eq_none_iff, length_setupBlock]
    omega
  have hmain : mainAddress n = Int.ofNat (21 + 2 * n) := by
    rw [mainAddress, Int.ofNat_eq_natCast]
    omega
  have hfetch : fetch (setupBlock n) (mainAddress n) = .error .stuck := by
    rw [hmain, fetch, hnone]
    rfl
  simp [step, ht, hfetch, bind, Except.bind]

theorem arrives_setupBlock (hcode : setupBlock n <+: code) (hcounter : s.registers 7 = 0)
    (hlength : arguments.length = n)
    (harguments : ∀ i v, arguments[i]? = some v → s.memory (i + 1) = v) :
    Arrives code (·.registers 7 = mainAddress n)
      (SetUp (setupBlock n) (n + 2) arguments.reverse) s := by
  have hattains := attains_setupBlock hcounter hlength harguments
  exact (Arrives.of_attains hcode (fun _ ht => ht.1) (fun _ _ => step_setupBlock_ne) hattains).mono
    fun _ ht => ht.2

/-- A state has the frames of two lists of arguments only if they are the same. -/
theorem SetUp.arguments_unique {setup : List Instruction} {status other : Nat} {others : List Int}
    (h : SetUp setup status arguments s) (h' : SetUp setup other others s)
    (hlength : arguments.length = others.length) : arguments = others := by
  have hstatus : status = other := by
    have hpointer := h.pointer.symm.trans h'.pointer
    omega
  subst hstatus
  refine List.ext_getElem hlength fun i hi hi' => ?_
  rw [← h.arguments i _ (List.getElem?_eq_getElem hi),
    ← h'.arguments i _ (List.getElem?_eq_getElem hi')]

/-- The order of the arguments is the one of a call only if it is the same backwards. -/
theorem arrives_setupBlock_iff (hcode : setupBlock n <+: code) (hcounter : s.registers 7 = 0)
    (hlength : arguments.length = n)
    (harguments : ∀ i v, arguments[i]? = some v → s.memory (i + 1) = v) :
    Arrives code (·.registers 7 = mainAddress n)
      (fun t => ∃ status, SetUp (setupBlock n) status arguments t) s ↔
      arguments.reverse = arguments := by
  have harrives := arrives_setupBlock hcode hcounter hlength harguments
  constructor
  · intro h
    obtain ⟨t, hreversed, status, hordered⟩ := harrives.exists_and h
    exact hreversed.arguments_unique hordered List.length_reverse
  · intro hsame
    rw [hsame] at harrives
    exact harrives.mono fun t ht => ⟨n + 2, ht⟩

/-- The set-up of a program whose `main` has some parameters comes to the first instruction of
    `main`, with the pointers, the return address and the saved top pointer of its frame in place.
    The cells in front of the return address hold the arguments of the program from the last one
    to the first one. They hold them from the first one to the last one, as in a call, if and only
    if this is the same. -/
theorem setup_reverses_arguments {table : SymbolTable} {n : Nat}
    (hmain : parameterCount table "main" = .ok n) :
    ∃ setup : List Instruction, (setupCode table).Makes setup ∧
      ∀ (code : List Instruction) (s : State) (arguments : List Int), setup <+: code →
        s.registers 7 = 0 → arguments.length = n →
        (∀ i v, arguments[i]? = some v → s.memory (i + 1) = v) →
        Arrives code (·.registers 7 = mainAddress n) (SetUp setup (n + 2) arguments.reverse) s ∧
        (Arrives code (·.registers 7 = mainAddress n)
            (fun t => ∃ status, SetUp setup status arguments t) s ↔
          arguments.reverse = arguments) := by
  refine ⟨setupBlock n, makes_setupCode hmain, ?_⟩
  intro code s arguments hcode hcounter hlength harguments
  exact ⟨arrives_setupBlock hcode hcounter hlength harguments,
    arrives_setupBlock_iff hcode hcounter hlength harguments⟩

/-- The memory of a machine with three arguments. -/
def threeArguments : Nat → Int
  | 1 => 10
  | 2 => 20
  | 3 => 30
  | _ => 0

/-- Three arguments are found in the order 30, 20, 10, and not in the order in which they were
    given. -/
theorem setup_reverses_arguments_of_three :
    ∃ p table, parse "function main(a:integer,b:integer,c:boolean):integer 1" = .ok p ∧
      table = (Analysis.analyze p).state.table ∧ parameterCount table "main" = .ok 3 ∧
      ∃ setup : List Instruction, (setupCode table).Makes setup ∧
        ∀ s : State, s.registers 7 = 0 → s.memory = threeArguments →
          Arrives setup (·.registers 7 = 27) (SetUp setup 5 [30, 20, 10]) s ∧
          ¬ Arrives setup (·.registers 7 = 27) (fun t => ∃ status, SetUp setup status [10, 20, 30] t)
            s := by
  have hparsed : ∃ p, parse "function main(a:integer,b:integer,c:boolean):integer 1" = .ok p ∧
      (parameterCount (Analysis.analyze p).state.table "main").toOption = some 3 := by
    apply Analysis.exists_ok_of_any
    decide +kernel
  obtain ⟨p, hparse, hcount⟩ := hparsed
  have hmain := Analysis.ok_of_toOption hcount
  obtain ⟨setup, hsetup, harrives⟩ := setup_reverses_arguments hmain
  refine ⟨p, _, hparse, rfl, hmain, setup, hsetup, fun s hcounter hmemory => ?_⟩
  have harguments : ∀ i v, [10, 20, 30][i]? = some v → s.memory (i + 1) = v := by
    rw [hmemory]
    intro i v hi
    match i, hi with
    | 0, rfl | 1, rfl | 2, rfl => rfl
  obtain ⟨hreversed, hiff⟩ := harrives setup s [10, 20, 30] (List.prefix_refl _) hcounter rfl
    harguments
  exact ⟨hreversed, fun h => absurd (hiff.mp h) (by decide)⟩

/-- With two different arguments, the first one is not found in front of the return address. -/
theorem not_setup_in_order :
    ∃ p setup, parse "function main(a:integer,b:integer):integer 1" = .ok p ∧
      (setupCode (Analysis.analyze p).state.table).Makes setup ∧
      ∃ s : State, s.registers 7 = 0 ∧ s.memory 1 = 10 ∧ s.memory 2 = 20 ∧
        ¬ Arrives setup (·.registers 7 = mainAddress 2)
          (fun t => ∃ status, SetUp setup status [10, 20] t) s := by
  have hparsed : ∃ p, parse "function main(a:integer,b:integer):integer 1" = .ok p ∧
      (parameterCount (Analysis.analyze p).state.table "main").toOption = some 2 := by
    apply Analysis.exists_ok_of_any
    decide +kernel
  obtain ⟨p, hparse, hcount⟩ := hparsed
  have harguments : ∀ i v, [10, 20][i]? = some v → threeArguments (i + 1) = v := by
    intro i v hi
    match i, hi with
    | 0, rfl | 1, rfl => rfl
  have hiff := @arrives_setupBlock_iff (setupBlock 2) ⟨fun _ => 0, threeArguments, [], []⟩ 2
    [10, 20] (List.prefix_refl _) rfl rfl harguments
  exact ⟨p, setupBlock 2, hparse, makes_setupCode (Analysis.ok_of_toOption hcount), _, rfl, rfl,
    rfl, fun h => absurd (hiff.mp h) (by decide)⟩

end Klein
