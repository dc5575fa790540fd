import Klein.Proofs.Code.Instructions
import Klein.Proofs.Machine.Execution

namespace Klein

open Machine Register

/-- The cells that a function with a frame leaves alone: those in front of its frame, its
    arguments, and those in which its caller has saved the return address and the pointers. -/
def Guarded (base parameters k : Nat) : Prop :=
  k < base ∨ (base < k ∧ k ≤ base + parameters + 1) ∨ k = base + parameters + 5 ∨
    k = base + parameters + 6

/-- A function that was called with some contents of the memory is at work in its frame, which its
    caller has put behind its own. -/
structure Frame (base parameters : Nat) (memory : Nat → Int) (s : State) : Prop where
  status : s.registers 5 = (base + parameters + 1 : Nat)
  top : s.registers 6 = (base + parameters + 7 : Nat)
  outer : memory (base + parameters + 6) = base
  guarded : ∀ k, Guarded base parameters k → s.memory k = memory k

/-- A function has returned to its caller. -/
structure Returned (base parameters : Nat) (memory : Nat → Int) (s : State) : Prop where
  counter : s.registers 7 = memory (base + parameters + 1)
  status : s.registers 5 = memory (base + parameters + 5)
  top : s.registers 6 = base
  kept : ∀ k < base, s.memory k = memory k

/-- The registers that a function leaves as it found them. -/
def generalRegisters : List (Fin 8) :=
  (List.finRange 8).filter fun r => 1 ≤ r.val ∧ r.val ≤ 3

theorem forall_generalRegisters {P : Fin 8 → Prop} :
    (∀ r ∈ generalRegisters, P r) ↔ P 1 ∧ P 2 ∧ P 3 := by
  have hall : generalRegisters = [1, 2, 3] := by decide
  simp [hall]

/-- The general registers are saved in a frame, behind the return address. -/
def Saves (base parameters : Nat) (registers : Fin 8 → Int) (s : State) : Prop :=
  ∀ r ∈ generalRegisters, s.memory (base + parameters + 1 + r) = registers r

/-- A function that has called another one is at work again: its pointers are as they were, and so
    is what is in front of the frame of the other function. -/
structure Resumed (before : State) (base : Nat) (s : State) : Prop where
  status : s.registers 5 = before.registers 5
  top : s.registers 6 = base
  kept : ∀ k < base, s.memory k = before.memory k

/-- A function has done its work since it was entered: the general registers are as they were, its
    value is in the register for it and at the start of its frame, and values have been output. -/
structure Delivered (entered : State) (base : Nat) (value : Int) (values : List Int) (s : State) :
    Prop where
  registers : ∀ r ∈ generalRegisters, s.registers r = entered.registers r
  result : s.registers 4 = value
  cell : s.memory base = value
  output : s.output = entered.output ++ values

variable {code rest : List Instruction} {Q : State → Prop} {s t : State}
variable {base n : Nat} {memory : Nat → Int} {registers : Fin 8 → Int}

namespace Frame

/-- An operand with the status pointer as its base is a cell of the frame. -/
theorem cell (h : Frame base n memory s) (offset : Nat) :
    (offset : Int) + s.registers 5 = (base + n + 1 + offset : Nat) := by
  rw [h.status]
  omega

/-- The saved top pointer is the start of the frame. -/
theorem saved_top (h : Frame base n memory s) : s.memory (base + n + 6) = base := by
  rw [h.guarded (base + n + 6) (by simp [Guarded])]
  exact h.outer

/-- A frame is in front of those of the functions that are called from it. -/
theorem resumed (h : Frame base n memory s) (hresumed : Resumed s (base + n + 7) t) :
    Frame base n memory t := by
  refine ⟨hresumed.status.trans h.status, hresumed.top, h.outer, fun k hk => ?_⟩
  have hcases := hk
  simp only [Guarded] at hcases
  rw [hresumed.kept k (by omega)]
  exact h.guarded k hk

end Frame

theorem Saves.resumed (h : Saves base n registers s) (hresumed : Resumed s (base + n + 7) t) :
    Saves base n registers t := by
  have hbound : ∀ r ∈ generalRegisters, (r : Nat) ≤ 3 := by decide
  intro r hr
  have hr' := hbound r hr
  rw [hresumed.kept _ (by omega)]
  exact h r hr

theorem Resumed.trans {u : State} (h : Resumed s base t) (hnext : Resumed t base u) :
    Resumed s base u where
  status := hnext.status.trans h.status
  top := hnext.top
  kept k hk := (hnext.kept k hk).trans (h.kept k hk)

/-- Saving the registers at the start of a function touches no guarded cell. -/
theorem runs_entryBlock (hframe : Frame base n memory s)
    (hrest : ∀ t, Frame base n memory t → Saves base n s.registers t → t.output = s.output →
      Runs code Q rest t) :
    Runs code Q (entryBlock ++ rest) s := by
  refine .cons (State.execute_store (v := s.registers 1) rfl rfl (hframe.cell 1) rfl) rfl ?_
  refine .cons (State.execute_store (v := s.registers 2) rfl rfl (hframe.cell 2) rfl) rfl ?_
  refine .cons (State.execute_store (v := s.registers 3) rfl rfl (hframe.cell 3) rfl) rfl ?_
  refine hrest _ ⟨hframe.status, hframe.top, hframe.outer, fun k hk => ?_⟩
    (forall_generalRegisters.mpr ?_) rfl
  · have hcases := hk
    simp only [Guarded] at hcases
    simp only [State.memory_write, State.memory_advance]
    rw [if_neg (by omega), if_neg (by omega), if_neg (by omega)]
    exact hframe.guarded k hk
  · simp

/-- The end of a function restores the registers and jumps to the return address. -/
theorem runs_exitBlock (hframe : Frame base n memory s) (hsaves : Saves base n registers s)
    (hreturn : ∀ t, Returned base n memory t →
      (∀ r ∈ generalRegisters, t.registers r = registers r) → t.registers 4 = s.registers 4 →
      t.memory = s.memory → t.output = s.output → Attains code Q t) :
    Runs code Q (exitBlock n) s := by
  -- the return address is found from the top pointer of the caller
  have hback : (1 + n : Int) + base = (base + n + 1 : Nat) := by omega
  have hstatus := hframe.guarded (base + n + 5) (by simp [Guarded])
  have hcounter := hframe.guarded (base + n + 1) (by simp [Guarded])
  obtain ⟨hfirst, hsecond, hthird⟩ := forall_generalRegisters.mp hsaves
  refine .cons (State.execute_load rfl rfl (hframe.cell 1) hfirst) rfl ?_
  refine .cons (State.execute_load rfl rfl (hframe.cell 2) hsecond) rfl ?_
  refine .cons (State.execute_load rfl rfl (hframe.cell 3) hthird) rfl ?_
  -- the status pointer is restored last, because the top pointer is found by it
  refine .cons (State.execute_load rfl rfl (hframe.cell 5) hframe.saved_top) rfl ?_
  refine .cons (State.execute_load rfl rfl (hframe.cell 4) hstatus) rfl ?_
  refine .leave (State.execute_load rfl rfl hback hcounter)
    (hreturn _ ⟨rfl, rfl, rfl, ?_⟩ (forall_generalRegisters.mpr ⟨rfl, rfl, rfl⟩) rfl rfl rfl)
  exact fun k hk => hframe.guarded k (.inl hk)

/-- The function for output outputs its argument, which is the last cell in front of the return
    address. -/
theorem runs_printBlock (hframe : Frame base 1 memory s)
    (hreturn : ∀ t, Returned base 1 memory t → t.output = s.output ++ [memory (base + 1)] →
      Attains code Q t) :
    Runs code Q (printBlock 1) s := by
  refine runs_entryBlock hframe fun t ht hsaves houtput => ?_
  have hargument : -1 + t.registers 5 = (base + 1 : Nat) := by
    rw [ht.status]
    omega
  have hvalue := ht.guarded (base + 1) (by simp [Guarded])
  refine .cons (State.execute_load rfl rfl hargument hvalue) rfl ?_
  refine .cons rfl rfl ?_
  refine runs_exitBlock ⟨ht.status, ht.top, ht.outer, ht.guarded⟩ hsaves
    fun u hu _ _ _ hsame => ?_
  exact hreturn u hu (by rw [← houtput]; exact hsame)

/-- A function has been entered by a call with arguments in registers: its frame is laid out behind
    the one of the caller, which is as it was. The last argument is in the first cell. -/
structure Entered (caller : State) (base : Nat) (passed : List (Fin 8)) (back : Int) (s : State) :
    Prop where
  frame : Frame base passed.length s.memory s
  arguments : ∀ i r, passed.reverse[i]? = some r → s.memory (base + i + 1) = caller.registers r
  back : s.memory (base + passed.length + 1) = back
  status : s.memory (base + passed.length + 5) = caller.registers 5
  registers : ∀ r ∈ generalRegisters, s.registers r = caller.registers r
  kept : ∀ k < base, s.memory k = caller.memory k
  output : s.output = caller.output

/-- The return address is the one behind the jump. -/
theorem runs_linkBlock {pc a : Nat} {offset address : Int} (hpc : s.registers 7 = pc)
    (hstatus : offset + s.registers 6 = a)
    (hlinked : ∀ t : State, t.registers 7 = address → t.registers 5 = a →
      t.registers 6 = (a + 6 : Nat) → (∀ r < 5, t.registers r = s.registers r) →
      t.memory = (s.write a (pc + 6 : Nat)).memory → t.output = s.output → Attains code Q t) :
    Runs code Q (linkBlock offset address ++ rest) s := by
  have hback : (3 + (s.registers 7 + 1 + 1 + 1) : Int) = (pc + 6 : Nat) := by
    rw [hpc]
    omega
  have hcell : (0 + a : Int) = a := by omega
  have htop : (6 + a : Int) = (a + 6 : Nat) := by omega
  refine .cons (State.execute_loadAddress rfl rfl hstatus) rfl (.cons rfl rfl ?_)
  refine .cons (State.execute_add rfl rfl rfl hback) rfl ?_
  refine .cons (State.execute_store (v := (pc + 6 : Nat)) rfl rfl hcell rfl) rfl ?_
  refine .cons (State.execute_loadAddress rfl rfl htop) rfl ?_
  refine .leave rfl (hlinked _ rfl rfl rfl (fun r hr => ?_) rfl rfl)
  have hne : r ≠ 5 ∧ r ≠ 6 ∧ r ≠ 7 := by omega
  simp [State.set, State.write, State.advance, hne]

/-- One more value is written behind those of a list that stand behind a cell in reverse order. -/
theorem reversed_cons {α : Type} {items : List α} {a : α} {f : α → Int}
    {old new : Nat → Int}
    (hold : ∀ i b, items.reverse[i]? = some b → old (base + i + 1) = f b)
    (hnew : ∀ k, new k = if k = base + items.length + 1 then f a else old k) :
    ∀ i b, (a :: items).reverse[i]? = some b → new (base + i + 1) = f b := by
  intro i b hi
  rw [List.reverse_cons, List.getElem?_append, List.length_reverse] at hi
  rw [hnew]
  split at hi
  · rw [if_neg (by omega)]
    exact hold i b hi
  · rename_i hge
    rw [List.getElem?_singleton] at hi
    split at hi
    · cases hi
      rw [if_pos (by omega)]
    · cases hi

/-- Passing arguments from registers writes them behind the start of the frame to be, the first
    one last. -/
theorem runs_passBlock {passed : List (Fin 8)} (htop : s.registers 6 = base)
    (hpassed : ∀ r ∈ passed, r < 7)
    (hrest : ∀ t : State, (∀ r < 7, t.registers r = s.registers r) →
      t.registers 7 = s.registers 7 + passed.length →
      (∀ i r, passed.reverse[i]? = some r → t.memory (base + i + 1) = s.registers r) →
      (∀ k, k ≤ base ∨ base + passed.length < k → t.memory k = s.memory k) →
      t.output = s.output → Runs code Q rest t) :
    Runs code Q (passBlock passed ++ rest) s := by
  induction passed generalizing rest with
  | nil => exact hrest s (fun _ _ => rfl) (by simp) (by simp) (fun _ _ => rfl) rfl
  | cons r passed ih =>
    rw [passBlock, List.append_assoc]
    refine ih (fun q hq => hpassed q (by simp [hq]))
      fun t hsame hcounter harguments hkept hout => ?_
    have hr : r < 7 := hpassed r (by simp)
    have hcell : (passed.length + 1 : Int) + t.registers 6 = (base + passed.length + 1 : Nat) := by
      rw [hsame 6 (by decide), htop]
      omega
    have hvalue : t.advance.registers r = s.registers r := by
      rw [State.registers_advance _ hr, hsame r hr]
    refine .cons (State.execute_store (State.register_val r) rfl hcell hvalue) rfl ?_
    refine hrest _ (fun q hq => ?_) ?_ (reversed_cons harguments fun k => State.memory_write ..)
      (fun k hk => ?_) hout
    · rw [State.registers_write, State.registers_advance _ hq, hsame q hq]
    · change t.registers 7 + 1 = _
      rw [hcounter, List.length_cons]
      omega
    · rw [List.length_cons] at hk
      rw [State.memory_write, if_neg (by omega)]
      exact hkept k (by omega)

/-- Calling a function, up to the jump. -/
theorem runs_callBlock {address pc : Nat} {passed : List (Fin 8)} (hpc : s.registers 7 = pc)
    (htop : s.registers 6 = base) (hpassed : ∀ r ∈ passed, r < 5)
    (hentered : ∀ t : State, t.registers 7 = address →
      Entered s base passed (pc + (callBlock address passed).length : Nat) t → Attains code Q t) :
    Runs code Q (callBlock address passed ++ rest) s := by
  have hsaveStatus : (passed.length + 5 : Int) + s.registers 6 =
      (base + passed.length + 5 : Nat) := by
    rw [htop]
    omega
  have hsaveTop : (passed.length + 6 : Int) + s.registers 6 =
      (base + passed.length + 6 : Nat) := by
    rw [htop]
    omega
  rw [callBlock, List.append_assoc, List.append_assoc]
  refine .cons (State.execute_store (v := s.registers 5) rfl rfl hsaveStatus rfl) rfl ?_
  refine .cons (State.execute_store rfl rfl hsaveTop htop) rfl ?_
  refine runs_passBlock htop (fun r hr => (hpassed r hr).trans (by decide))
    fun t hsame hcounter harguments hkept hout => ?_
  have hbefore : ∀ r < 7, t.registers r = s.registers r := by
    intro r hr
    rw [hsame r hr]
    simp only [State.registers_write, State.registers_advance _ hr]
  have hlink : t.registers 7 = (pc + 2 + passed.length : Nat) := by
    rw [hcounter]
    change s.registers 7 + 1 + 1 + _ = _
    rw [hpc]
    omega
  have hstatus : (1 + passed.length : Int) + t.registers 6 = (base + passed.length + 1 : Nat) := by
    rw [hbefore 6 (by decide), htop]
    omega
  refine runs_linkBlock hlink hstatus fun u haddress hnewStatus hnewTop hgeneral hmemory hsent => ?_
  have hback : u.memory (base + passed.length + 1) = (pc + (passed.length + 8) : Nat) := by
    rw [hmemory, State.memory_write, if_pos rfl]
    omega
  have hcells : ∀ k, k ≠ base + passed.length + 1 → u.memory k = t.memory k := by
    intro k hk
    rw [hmemory, State.memory_write, if_neg hk]
  refine hentered u haddress ⟨⟨hnewStatus, hnewTop, ?_, fun _ _ => rfl⟩, fun i r hi => ?_, ?_, ?_,
    fun r hr => ?_, fun k hk => ?_, hsent.trans hout⟩
  · rw [hcells _ (by omega), hkept _ (by omega)]
    simp
  · have hr : r < 7 := (hpassed r (by simpa using List.mem_of_getElem? hi)).trans (by decide)
    have hlt : i < passed.length := by simpa using (List.getElem?_eq_some_iff.mp hi).1
    rw [hcells _ (by omega), harguments i r hi, ← hsame r hr, hbefore r hr]
  · rw [hback, length_callBlock]
  · rw [hcells _ (by omega), hkept _ (by omega)]
    simp
  · have hlt : ∀ r ∈ generalRegisters, r < 5 := by decide
    rw [hgeneral r (hlt r hr), hbefore r ((hlt r hr).trans (by decide))]
  · rw [hcells _ (by omega), hkept _ (by omega)]
    simp only [State.memory_write, State.memory_advance]
    rw [if_neg (by omega), if_neg (by omega)]

/-- A function that outputs a literal is at work again after the call. -/
theorem runs_outputBlock {address : Nat} {v : Int} (hprint : printBlock 1 <+: code.drop address)
    (htop : s.registers 6 = base)
    (hrest : ∀ t, Resumed s base t → t.output = s.output ++ [v] → Runs code Q rest t) :
    Runs code Q (outputBlock address v ++ rest) s := by
  rw [outputBlock_eq]
  refine .cons (t := s.advance.set 2 v) rfl rfl fun pc hpc hblock => ?_
  refine runs_callBlock hpc htop (by decide) (fun t ht hentered => ?_) pc hpc hblock
  refine runs_printBlock hentered.frame (fun u hu houtput => ?_) address ht hprint
  -- what the caller works with is in front of the new frame, so it comes back as it was
  refine hrest u ⟨hu.status.trans hentered.status, hu.top, fun k hk => ?_⟩ ?_ _
    (hu.counter.trans hentered.back) (isPrefix_drop_append hblock)
  · rw [hu.kept k hk, hentered.kept k hk]
    rfl
  · rw [houtput, hentered.arguments 0 2 rfl, hentered.output]
    rfl

/-- A function that outputs some literals in turn is at work again after them. -/
theorem runs_outputBlocks {address : Nat} {values : List Int}
    (hprint : printBlock 1 <+: code.drop address) (htop : s.registers 6 = base)
    (hrest : ∀ t, Resumed s base t → t.output = s.output ++ values → Runs code Q rest t) :
    Runs code Q (values.flatMap (outputBlock address) ++ rest) s := by
  induction values generalizing s with
  | nil => exact hrest s ⟨rfl, htop, fun _ _ => rfl⟩ (by simp)
  | cons v values ih =>
    rw [List.flatMap_cons, List.append_assoc]
    refine runs_outputBlock hprint htop fun t ht houtput => ih ht.top fun u hu hvalues => ?_
    exact hrest u (ht.trans hu) (by rw [hvalues, houtput, List.append_assoc, List.singleton_append])

/-- A definition outputs its literals, and returns with its value where it belongs. -/
theorem runs_definitionBlock {address : Nat} {d : Definition}
    (hprint : printBlock 1 <+: code.drop address)
    (hframe : Frame base d.parameters.items.length memory s)
    (hreturn : ∀ t, Returned base d.parameters.items.length memory t →
      Delivered s base (d.body.result.literal?.getD 0) (d.body.prints.map (·.literal?.getD 0)) t →
      Attains code Q t) :
    Runs code Q (definitionBlock address d) s := by
  have hvalues : (d.body.prints.flatMap fun c => outputBlock address (c.literal?.getD 0)) =
      (d.body.prints.map (·.literal?.getD 0)).flatMap (outputBlock address) := by
    rw [List.flatMap_map]
  rw [definitionBlock, hvalues, List.append_assoc]
  refine runs_entryBlock hframe fun t ht hsaves hsame => ?_
  refine runs_outputBlocks hprint ht.top fun u hresumed houtput => ?_
  have hu := ht.resumed hresumed
  have hresult : -1 - (d.parameters.items.length : Int) + u.registers 5 = base := by
    rw [hu.status]
    omega
  refine .cons rfl rfl ?_
  refine .cons (State.execute_store (v := d.body.result.literal?.getD 0) rfl rfl hresult rfl) rfl ?_
  refine runs_exitBlock ⟨hu.status, hu.top, hu.outer, fun k hk => ?_⟩ (fun r hr => ?_)
    fun w hw hregisters hvalue hmemory hlast =>
      hreturn w hw ⟨hregisters, hvalue, ?_, hlast.trans (houtput.trans (by rw [hsame]))⟩
  · have hcases := hk
    simp only [Guarded] at hcases
    simp only [State.memory_set, State.memory_advance, State.memory_write]
    rw [if_neg (by omega)]
    exact hu.guarded k hk
  · simp only [State.memory_set, State.memory_advance, State.memory_write]
    rw [if_neg (by omega)]
    exact hsaves.resumed hresumed r hr
  · rw [hmemory, State.memory_write, if_pos rfl]

end Klein
