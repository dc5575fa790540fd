import Klein.Proofs.Code.Convention

namespace Klein

open Machine Register

namespace Location

def isMemory : Location → Bool
  | memory _ => true
  | _ => false

/-- A place that arguments are passed from: a register for values, or a cell. -/
def Passable : Location → Prop
  | register r => 1 ≤ r ∧ r ≤ 4
  | memory _ => True
  | nowhere => False

/-- The value that a caller with some top pointer has in a register for values, or in a cell of its
    frame. -/
inductive Holds (s : State) (base : Nat) : Location → Int → Prop
  | register {r : Fin 8} (hfirst : 1 ≤ r) (hlast : r ≤ 4) :
    Holds s base (.register r.val) (s.registers r)
  | memory {offset : Int} {k : Nat} (hcell : offset + s.registers 5 = k) (hk : k < base) :
    Holds s base (.memory offset) (s.memory k)

theorem Holds.exists_cell {s : State} {base : Nat} {offset v : Int}
    (h : Holds s base (.memory offset) v) : ∃ k < base, s.memory k = v := by
  generalize hl : Location.memory offset = l at h
  cases h with
  | register => cases hl
  | @memory _ k _ hk => exact ⟨k, hk, rfl⟩

/-- The values are there as long as the registers and the frame are left alone. -/
theorem Holds.keep {s t : State} {base : Nat} {l : Location} {v : Int} (h : Holds s base l v)
    (hregisters : ∀ r < 6, t.registers r = s.registers r)
    (hmemory : ∀ k < base, t.memory k = s.memory k) : Holds t base l v := by
  cases h with
  | @register r hfirst hlast =>
    rw [← hregisters r (by omega)]
    exact .register hfirst hlast
  | @memory offset k hcell hk =>
    rw [← hmemory k hk]
    exact .memory (hregisters 5 (by decide) ▸ hcell) hk

end Location

/-- A caller has laid out a frame behind its own and jumped to a function. The values are in front
    of the return address, the first one closest to it. -/
structure LaidOut (caller : State) (base : Nat) (address : Int) (back : Nat) (values : List Int)
    (s : State) : Prop where
  counter : s.registers 7 = address
  status : s.registers 5 = (base + values.length + 1 : Nat)
  top : s.registers 6 = (base + values.length + 7 : Nat)
  arguments : ∀ i v, values[i]? = some v → s.memory (base + values.length - i) = v
  back : s.memory (base + values.length + 1) = back
  savedStatus : s.memory (base + values.length + 5) = caller.registers 5
  savedTop : s.memory (base + values.length + 6) = base
  kept : ∀ k < base, s.memory k = caller.memory k

/-- The machine goes from one state to another, and before that the top pointer stays where it
    is. -/
inductive Works (code : List Instruction) (base : Nat) : State → State → Prop
  | refl (s : State) : Works code base s s
  | step {s t u : State} : s.registers 6 = base → Machine.step code s = .ok t →
      Works code base t u → Works code base s u

variable {code rest : List Instruction} {Q : State → Prop} {s t u : State} {base pc : Nat}

namespace Works

theorem trans (h : Works code base s t) (h' : Works code base t u) : Works code base s u := by
  induction h with
  | refl => exact h'
  | step htop hstep _ ih => exact .step htop hstep (ih h')

theorem attains (h : Works code base s t) (ht : Attains code Q t) : Attains code Q s := by
  induction h with
  | refl => exact ht
  | step _ hstep _ ih => exact .later hstep (ih ht)

/-- A property that needs another top pointer is not attained on the way. -/
theorem not_attains (hQ : ∀ u, Q u → u.registers 6 ≠ base) (h : Works code base s t)
    (ht : ¬ Attains code Q t) : ¬ Attains code Q s := by
  induction h with
  | refl => exact ht
  | step htop hstep _ ih =>
    intro hattains
    cases hattains with
    | now hs => exact hQ _ hs htop
    | later hstep' hnext =>
      cases hstep.symm.trans hstep'
      exact ih ht hnext

/-- One instruction of a block. -/
theorem cons {i : Instruction} (hpc : s.registers 7 = pc) (hblock : i :: rest <+: code.drop pc)
    (htop : s.registers 6 = base) (hexec : s.advance.execute i = .ok t) : Works code base s t :=
  .step htop ((step_of_isPrefix hpc hblock).trans hexec) (.refl t)

end Works

theorem isPrefix_passing (front locations : List Location) :
    passing locations <+: passing (front ++ locations) := by
  induction front with
  | nil => exact List.prefix_refl _
  | cons l front ih =>
    rw [List.cons_append, passing]
    exact ih.trans (List.prefix_append _ _)

/-- A caller has passed some values, the last one to the first cell behind its top pointer. -/
structure Passed (caller : State) (base counter : Nat) (values : List Int) (s : State) : Prop where
  counter : s.registers 7 = counter
  top : s.registers 6 = base
  registers : ∀ r < 5, s.registers r = caller.registers r
  arguments : ∀ i v, values.reverse[i]? = some v → s.memory (base + i + 1) = v
  kept : ∀ k, k ≤ base ∨ base + values.length < k → s.memory k = caller.memory k

/-- One more value has been written in front of the others. -/
theorem Passed.cons {values : List Int} {v : Int} {counter : Nat} (h : Passed s base pc values t)
    (hcounter : u.registers 7 = counter) (htop : u.registers 6 = base)
    (hregisters : ∀ r < 5, u.registers r = t.registers r)
    (hmemory : ∀ k, u.memory k = if k = base + values.length + 1 then v else t.memory k) :
    Passed s base counter (v :: values) u where
  counter := hcounter
  top := htop
  registers r hr := (hregisters r hr).trans (h.registers r hr)
  arguments := reversed_cons (f := id) h.arguments hmemory
  kept k hk := by
    rw [List.length_cons] at hk
    rw [hmemory, if_neg (by omega)]
    exact h.kept k (by omega)

/-- Arguments of which at most one is in memory are passed. After that the status pointer is as it
    was, or it is the one value from memory. -/
theorem exists_passed {locations : List Location} {values : List Int}
    (hpc : s.registers 7 = pc) (hblock : passing locations <+: code.drop pc)
    (htop : s.registers 6 = base) (hholds : List.Forall₂ (Location.Holds s base) locations values)
    (hone : locations.countP Location.isMemory ≤ 1) :
    ∃ t, Works code base s t ∧ Passed s base (pc + (passing locations).length) values t ∧
      ((locations.countP Location.isMemory = 0 ∧ t.registers 5 = s.registers 5) ∨
        ∃ offset, .memory offset ∈ locations ∧
          Location.Holds s base (.memory offset) (t.registers 5)) := by
  induction hholds with
  | nil =>
    refine ⟨s, .refl s, ⟨hpc, htop, fun _ _ => rfl, by simp, fun _ _ => rfl⟩, .inl ⟨rfl, rfl⟩⟩
  | @cons l v locations values hl hrest ih =>
    have hlength := hrest.length_eq
    rw [passing] at hblock ⊢
    rw [List.countP_cons] at hone
    obtain ⟨t, hworks, hpassed, hstatus⟩ := ih ((List.prefix_append _ _).trans hblock) (by omega)
    have hnext := isPrefix_drop_append hblock
    have hwritten : ((locations.length + 1 : Nat) : Int) + t.registers 6 =
        (base + values.length + 1 : Nat) := by
      rw [hpassed.top, hlength]
      omega
    cases hl with
    | @register r hfirst hlast =>
      have hvalue : t.advance.registers r = s.registers r := by
        rw [State.registers_advance _ (by omega), hpassed.registers r (by omega)]
      have hstore := @State.execute_store t.advance r _ 6 r.val top _ _ (State.register_val r) rfl
        hwritten hvalue
      refine ⟨_, hworks.trans (.cons hpassed.counter hnext hpassed.top hstore),
        hpassed.cons ?_ hpassed.top (fun q hq => State.registers_advance t (by omega))
          (State.memory_write _ _ · _), ?_⟩
      · change t.registers 7 + 1 = _
        rw [hpassed.counter, List.length_append]
        rfl
      · rcases hstatus with ⟨hnone, hsame⟩ | ⟨offset, hmem, hoffset⟩
        · exact .inl ⟨by rw [List.countP_cons, hnone]; rfl, hsame⟩
        · exact .inr ⟨offset, by simp [hmem], hoffset⟩
    | @memory offset k hcell hk =>
      -- no other argument was in memory, so the status pointer is still in place
      have hplace : t.registers 5 = s.registers 5 := by
        rcases hstatus with ⟨-, hsame⟩ | ⟨other, hmem, -⟩
        · exact hsame
        · have hpos : 0 < locations.countP Location.isMemory :=
            List.countP_pos_iff.mpr ⟨_, hmem, rfl⟩
          simp only [Location.isMemory, if_true] at hone
          omega
      have hload := @State.execute_load t.advance 5 k 5 status status offset (s.memory k) rfl rfl
        (hplace ▸ hcell) (hpassed.kept k (by omega))
      have hstore := @State.execute_store (t.advance.set 5 (s.memory k)).advance 5 _ 6 status top _
        (s.memory k) rfl rfl hwritten rfl
      have hcounter : (t.advance.set 5 (s.memory k)).registers 7 =
          (pc + (passing locations).length + 1 : Nat) := by
        change t.registers 7 + 1 = _
        rw [hpassed.counter]
        rfl
      refine ⟨_, (hworks.trans (.cons hpassed.counter hnext hpassed.top hload)).trans
        (.cons hcounter (isPrefix_drop hnext 1) hpassed.top hstore),
        hpassed.cons ?_ hpassed.top (fun q hq => ?_) (State.memory_write _ _ · _),
        .inr ⟨offset, by simp, .memory hcell hk⟩⟩
      · change t.registers 7 + 1 + 1 = _
        rw [hpassed.counter, List.length_append]
        rfl
      · have hne : q ≠ 5 ∧ q ≠ 7 := by omega
        simp [State.set, State.write, State.advance, hne]

/-- A caller has saved its pointers in the frame to be. -/
structure SavedPointers (caller : State) (base n pc : Nat) (s : State) : Prop where
  counter : s.registers 7 = pc
  registers : ∀ r < 7, s.registers r = caller.registers r
  status : s.memory (base + n + 5) = caller.registers 5
  top : s.memory (base + n + 6) = base
  kept : ∀ k < base, s.memory k = caller.memory k

theorem exists_savedPointers {n : Nat} (hpc : s.registers 7 = pc) (htop : s.registers 6 = base)
    (hblock : .store status (n + 5) top :: .store top (n + 6) top :: rest <+: code.drop pc) :
    ∃ t, Works code base s t ∧ SavedPointers s base n (pc + 2) t := by
  have hfirst : (n + 5 : Int) + s.registers 6 = (base + n + 5 : Nat) := by
    rw [htop]
    omega
  have hsecond : (n + 6 : Int) + s.registers 6 = (base + n + 6 : Nat) := by
    rw [htop]
    omega
  have hstatus := @State.execute_store s.advance 5 _ 6 status top _ _ rfl rfl hfirst rfl
  have htops := @State.execute_store
    (s.advance.write (base + n + 5) (s.registers 5)).advance 6 _ 6 top top _ _ rfl rfl hsecond htop
  have hnext : (s.advance.write (base + n + 5) (s.registers 5)).registers 7 = (pc + 1 : Nat) := by
    change s.registers 7 + 1 = _
    rw [hpc]
    rfl
  refine ⟨_, (Works.cons hpc hblock htop hstatus).trans
    (.cons hnext (isPrefix_drop hblock 1) htop htops), ?_, fun r hr => ?_, ?_, ?_, fun k hk => ?_⟩
  · change s.registers 7 + 1 + 1 = _
    rw [hpc]
    omega
  · simp only [State.registers_write, State.registers_advance _ hr]
  · simp
  · simp
  · simp only [State.memory_write, State.memory_advance]
    rw [if_neg (by omega), if_neg (by omega)]

variable {locations : List Location} {values : List Int} {address : Int}

/-- A call lays out the frame if at most one argument is in memory. -/
theorem attains_laidOut (hone : locations.countP Location.isMemory ≤ 1)
    (hblock : callingBlock locations.length address locations <+: code.drop pc)
    (hpc : s.registers 7 = pc) (htop : s.registers 6 = base)
    (hholds : List.Forall₂ (Location.Holds s base) locations values) :
    Attains code (LaidOut s base address
      (pc + (callingBlock locations.length address locations).length) values) s := by
  have hlength := hholds.length_eq
  obtain ⟨t, hsaving, hsaved⟩ := exists_savedPointers hpc htop hblock
  have hpassing := isPrefix_drop hblock 2
  have htop' := (hsaved.registers 6 (by decide)).trans htop
  have hholds' : List.Forall₂ (Location.Holds t base) locations values :=
    hholds.imp fun _ _ hl => hl.keep (fun r hr => hsaved.registers r (by omega)) hsaved.kept
  obtain ⟨u, hworking, hpassed, -⟩ :=
    exists_passed hsaved.counter ((List.prefix_append _ _).trans hpassing) htop' hholds' hone
  refine hsaving.attains (hworking.attains ?_)
  have hstatus : (1 + locations.length : Int) + u.registers 6 =
      (base + values.length + 1 : Nat) := by
    rw [hpassed.top, hlength]
    omega
  have hlink := isPrefix_drop_append hpassing
  rw [← List.append_nil (linkBlock _ _)] at hlink
  refine runs_linkBlock hpassed.counter hstatus
    (fun w hcounter hstatus htop _ hmemory _ => .now ?_) _ hpassed.counter hlink
  -- the return address is behind the arguments, and in front of what was saved before them
  have hcells : ∀ k, k ≠ base + values.length + 1 → w.memory k = u.memory k := by
    intro k hk
    rw [hmemory, State.memory_write, if_neg hk]
  refine ⟨hcounter, hstatus, htop, fun i v hi => ?_, ?_, ?_, ?_, fun k hk => ?_⟩
  · have hlt := (List.getElem?_eq_some_iff.mp hi).1
    have hi' : values.reverse[values.length - 1 - i]? = some v := by
      rw [List.getElem?_reverse (by omega), ← hi]
      congr 1
      omega
    rw [hcells _ (by omega), ← hpassed.arguments _ v hi']
    congr 1
    omega
  · rw [hmemory, State.memory_write, if_pos rfl, callingBlock]
    simp [linkBlock]
    omega
  · rw [hcells _ (by omega), hpassed.kept _ (by omega), ← hlength, hsaved.status]
  · rw [hcells _ (by omega), hpassed.kept _ (by omega), ← hlength, hsaved.top]
  · rw [hcells _ (by omega), hpassed.kept _ (by omega), hsaved.kept k hk]

/-- The argument in memory that is passed second is found by the value of the first one. If there
    is no such cell, the machine does not come to lay out the frame. -/
theorem not_attains_laidOut {front : List Location} {offset v address' : Int} {back : Nat}
    {others : List Int} (hone : locations.countP Location.isMemory = 1)
    (hblock : callingBlock (front ++ .memory offset :: locations).length address
      (front ++ .memory offset :: locations) <+: code.drop pc)
    (hpc : s.registers 7 = pc) (htop : s.registers 6 = base) (hmemory : ∀ k < base, s.memory k = v)
    (hv : offset + v < 0) (hholds : List.Forall₂ (Location.Holds s base) locations values) :
    ¬ Attains code (LaidOut s base address' back others) s := by
  have hQ : ∀ u, LaidOut s base address' back others u → u.registers 6 ≠ base := by
    intro u hu
    rw [hu.top]
    omega
  obtain ⟨t, hsaving, hsaved⟩ := exists_savedPointers hpc htop hblock
  have htop' := (hsaved.registers 6 (by decide)).trans htop
  have hholds' : List.Forall₂ (Location.Holds t base) locations values :=
    hholds.imp fun _ _ hl => hl.keep (fun r hr => hsaved.registers r (by omega)) hsaved.kept
  have hpassing : passing (.memory offset :: locations) <+: code.drop (pc + 2) :=
    ((isPrefix_passing front _).trans (List.prefix_append _ _)).trans (isPrefix_drop hblock 2)
  rw [passing] at hpassing
  obtain ⟨u, hworking, hpassed, hstatus⟩ := exists_passed hsaved.counter
    ((List.prefix_append _ _).trans hpassing) htop' hholds' hone.le
  refine hsaving.not_attains hQ (hworking.not_attains hQ ?_)
  -- the value of the first argument is in the place of the status pointer
  have hvalue : u.registers 5 = v := by
    rcases hstatus with ⟨hnone, -⟩ | ⟨other, -, hother⟩
    · omega
    · obtain ⟨k, hk, hcell⟩ := hother.exists_cell
      rw [← hcell, hsaved.kept k hk, hmemory k hk]
  have hstuck : step code u = .error .stuck := by
    rw [step_of_isPrefix hpassed.counter (isPrefix_drop_append hpassing)]
    exact State.execute_load_stuck rfl rfl (hvalue ▸ hv)
  intro hattains
  cases hattains with
  | now hu => exact hQ u hu hpassed.top
  | later hstep => cases hstuck.symm.trans hstep

/-- A last but one argument in memory. -/
theorem exists_second_memory (htwo : 1 < locations.countP Location.isMemory) :
    ∃ front offset others, locations = front ++ .memory offset :: others ∧
      others.countP Location.isMemory = 1 := by
  induction locations with
  | nil => simp at htwo
  | cons l locations ih =>
    rw [List.countP_cons] at htwo
    by_cases hmore : 1 < locations.countP Location.isMemory
    · obtain ⟨front, offset, others, rfl, hone⟩ := ih hmore
      exact ⟨l :: front, offset, others, rfl, hone⟩
    · cases l with
      | memory offset =>
        refine ⟨[], offset, locations, rfl, ?_⟩
        simp only [Location.isMemory, if_true] at htwo
        omega
      | register r => exact absurd htwo hmore
      | nowhere => exact absurd htwo hmore

/-- The offsets of some locations are bounded. -/
theorem exists_bound (locations : List Location) :
    ∃ bound : Nat, ∀ offset, .memory offset ∈ locations → offset.natAbs ≤ bound := by
  induction locations with
  | nil => exact ⟨0, by simp⟩
  | cons l locations ih =>
    obtain ⟨bound, hbound⟩ := ih
    cases l with
    | memory offset =>
      refine ⟨max bound offset.natAbs, fun other hother => ?_⟩
      rcases List.mem_cons.mp hother with heq | hmem
      · cases heq
        exact le_max_right ..
      · exact (hbound other hmem).trans (le_max_left ..)
    | register r => exact ⟨bound, by simpa using hbound⟩
    | nowhere => exact ⟨bound, by simpa using hbound⟩

/-- Some caller has values in all locations, and the same value in all cells. -/
theorem exists_caller (hpassable : ∀ l ∈ locations, l.Passable) (v : Int) :
    ∃ (s : State) (base : Nat) (values : List Int), s.registers 7 = 0 ∧ s.registers 6 = base ∧
      (∀ k, s.memory k = v) ∧ List.Forall₂ (Location.Holds s base) locations values := by
  obtain ⟨bound, hbound⟩ := exists_bound locations
  -- the status pointer is so far from both ends of the frame that all offsets are in between
  let s : State := ⟨Function.update (Function.update (fun _ => 0) 5 bound) 6 (2 * bound + 1 : Nat),
    fun _ => v, [], []⟩
  have hheld : ∀ l ∈ locations, ∃ w, Location.Holds s (2 * bound + 1) l w := by
    intro l hl
    have hl' := hpassable l hl
    cases l with
    | register r =>
      obtain ⟨hfirst, hlast⟩ := hl'
      obtain ⟨q, rfl⟩ : ∃ q : Fin 8, r = q.val := ⟨⟨r.toNat, by omega⟩, by simp; omega⟩
      exact ⟨_, .register (by omega) (by omega)⟩
    | memory offset =>
      have hoffset := hbound offset hl
      have hcell : offset + s.registers 5 = ((offset + bound).toNat : Nat) := by
        change offset + (bound : Int) = _
        omega
      exact ⟨_, .memory hcell (by omega)⟩
    | nowhere => exact hl'.elim
  have hvalues : ∃ values, List.Forall₂ (Location.Holds s (2 * bound + 1)) locations values := by
    clear hbound hpassable
    induction locations with
    | nil => exact ⟨[], .nil⟩
    | cons l locations ih =>
      obtain ⟨w, hw⟩ := hheld l (by simp)
      obtain ⟨values, hrest⟩ := ih fun l' hl' => hheld l' (by simp [hl'])
      exact ⟨w :: values, .cons hw hrest⟩
  obtain ⟨values, hvalues⟩ := hvalues
  exact ⟨s, _, values, rfl, rfl, fun _ => rfl, hvalues⟩

/-- The code of a call with as many arguments as the function has parameters can be made. From
    every state of the caller, and wherever the code is placed, it lays out the frame of the
    function with the arguments in place and jumps to the function, if at most one of the arguments
    is in memory. If there are more of them in memory, this goes wrong for some state of the
    caller. -/
theorem call_lays_out_iff {table : SymbolTable} {name : String} {locations : List Location}
    {address : Int} (hcount : parameterCount table name = .ok locations.length)
    (hpassable : ∀ l ∈ locations, l.Passable) :
    ∃ call : List Instruction, (callSequence table name address locations).Makes call ∧
      ((∀ (code : List Instruction) (place base : Nat) (values : List Int) (s : State),
          call <+: code.drop place → s.registers 7 = place → s.registers 6 = base →
          List.Forall₂ (Location.Holds s base) locations values →
          Attains code (LaidOut s base address (place + call.length) values) s) ↔
        locations.countP Location.isMemory ≤ 1) := by
  refine ⟨_, makes_callSequence address locations hcount, fun hall => ?_, fun hone => ?_⟩
  · by_contra hnot
    obtain ⟨front, offset, others, rfl, hone⟩ := exists_second_memory (not_le.mp hnot)
    obtain ⟨s, base, values, hcounter, htop, hmemory, hholds⟩ :=
      exists_caller hpassable (-offset - 1)
    have hothers := List.forall₂_drop (front.length + 1) hholds
    have hdrop : (front ++ .memory offset :: others).drop (front.length + 1) = others := by
      rw [← List.drop_drop, List.drop_left]
      rfl
    rw [hdrop] at hothers
    exact not_attains_laidOut hone (List.prefix_refl _) hcounter htop (fun k _ => hmemory k)
      (by omega) hothers (hall _ 0 base values s (List.prefix_refl _) hcounter htop hholds)
  · intro code place base values s hblock hpc htop hholds
    exact attains_laidOut hone hblock hpc htop hholds

/-- A call with an argument in memory between two in registers. -/
theorem call_lays_out_iff_of_three :
    ∃ p table, parse ("function main():integer 1 " ++
        "function f(a:integer,b:integer,c:boolean):integer 1") = .ok p ∧
      table = (Analysis.analyze p).state.table ∧ parameterCount table "f" = .ok 3 ∧
      ∃ call : List Instruction,
        (callSequence table "f" 50 [.register 4, .memory (-2), .register 1]).Makes call ∧
        ∀ s : State, s.registers 7 = 0 → s.registers 5 = 10 → s.registers 6 = 20 →
          Attains call (LaidOut s 20 50 call.length [s.registers 4, s.memory 8, s.registers 1]) s := by
  have hparsed : ∃ p, parse ("function main():integer 1 " ++
      "function f(a:integer,b:integer,c:boolean):integer 1") = .ok p ∧
      (parameterCount (Analysis.analyze p).state.table "f").toOption = some 3 := by
    apply Analysis.exists_ok_of_any
    decide +kernel
  obtain ⟨p, hparse, hcount⟩ := hparsed
  have hcount := Analysis.ok_of_toOption hcount
  obtain ⟨call, hcall, hiff⟩ := @call_lays_out_iff _ "f"
    [.register 4, .memory (-2), .register 1] 50 hcount (by simp [Location.Passable])
  refine ⟨p, _, hparse, rfl, hcount, call, hcall, fun s hcounter hstatus htop => ?_⟩
  have hcell : (-2 : Int) + s.registers 5 = (8 : Nat) := by
    rw [hstatus]
    rfl
  have hheld : List.Forall₂ (Location.Holds s 20) [.register 4, .memory (-2), .register 1]
      [s.registers 4, s.memory 8, s.registers 1] :=
    .cons (.register (r := 4) (by decide) (by decide)) (.cons (.memory hcell (by decide))
      (.cons (.register (r := 1) (by decide) (by decide)) .nil))
  have hattains := hiff.mpr (by decide) call 0 20 _ s (List.prefix_refl _) hcounter htop hheld
  rwa [Nat.zero_add] at hattains

/-- With two arguments in memory, where all cells hold zero, the machine stops at the first one,
    because it is looked for at the address -2. -/
theorem not_call_lays_out_of_two :
    ∃ p call, parse ("function main():integer 1 " ++
        "function f(a:integer,b:integer):integer 1") = .ok p ∧
      (callSequence (Analysis.analyze p).state.table "f" 50 [.memory (-2), .memory (-1)]).Makes
        call ∧
      ∃ (s : State) (values : List Int), s.registers 7 = 0 ∧ s.registers 5 = 10 ∧
        s.registers 6 = 20 ∧
        List.Forall₂ (Location.Holds s 20) [.memory (-2), .memory (-1)] values ∧
        ¬ Attains call (LaidOut s 20 50 call.length values) s := by
  have hparsed : ∃ p, parse ("function main():integer 1 " ++
      "function f(a:integer,b:integer):integer 1") = .ok p ∧
      (parameterCount (Analysis.analyze p).state.table "f").toOption = some 2 := by
    apply Analysis.exists_ok_of_any
    decide +kernel
  obtain ⟨p, hparse, hcount⟩ := hparsed
  have hcall := makes_callSequence 50 [.memory (-2), .memory (-1)] (Analysis.ok_of_toOption hcount)
  let s : State := ⟨Function.update (Function.update (fun _ => 0) 5 10) 6 20, fun _ => 0, [], []⟩
  have hlast : List.Forall₂ (Location.Holds s 20) [.memory (-1)] [0] :=
    .cons (.memory (k := 9) rfl (by decide)) .nil
  refine ⟨p, _, hparse, hcall, s, [0, 0], rfl, rfl, rfl,
    .cons (.memory (k := 8) rfl (by decide)) hlast, ?_⟩
  exact @not_attains_laidOut _ s 20 0 [.memory (-1)] [0] 50 [] (-2) 0 50 _ [0, 0] rfl
    (List.prefix_refl _) rfl rfl (fun _ _ => rfl) (by decide) hlast

end Klein
