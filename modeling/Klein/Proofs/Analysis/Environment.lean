import Klein.Proofs.Analysis.Nesting
import Klein.Proofs.Analysis.Scopes

namespace Klein

open ScopeOperation

namespace Binding

variable {b : Binding} {ops : List ScopeOperation} {name : String}

/-- What a scope of a table holds for a binding. -/
def entry (b : Binding) : String × Symbol :=
  (b.name, b.symbol)

theorem lookup_entries_eq_none {scope : List Binding} :
    (scope.map entry).lookup name = none ↔ ∀ b ∈ scope, b.name ≠ name := by
  simp [List.lookup_eq_none_iff, entry, @eq_comm _ name]

theorem exists_of_lookup_entries {scope : List Binding} {symbol : Symbol}
    (hlookup : (scope.map entry).lookup name = some symbol) :
    ∃ b ∈ scope, b.name = name ∧ b.symbol = symbol := by
  obtain ⟨before, after, hscope, -⟩ := List.lookup_eq_some_iff.mp hlookup
  have hmem : (name, symbol) ∈ scope.map entry := by simp [hscope]
  obtain ⟨b, hb, hentry⟩ := List.mem_map.mp hmem
  exact ⟨b, hb, congrArg Prod.fst hentry, congrArg Prod.snd hentry⟩

/-- Each of some scopes, the innermost first, has the bindings of its own level. -/
def Layered : List (List Binding) → Prop
  | [] => True
  | scope :: rest => (∀ b ∈ scope, b.level = rest.length + 1) ∧ Layered rest

theorem Layered.level_le {scopes : List (List Binding)} (h : Layered scopes)
    (hb : b ∈ scopes.flatten) : b.level ≤ scopes.length := by
  induction scopes with
  | nil => simp at hb
  | cons scope rest ih =>
    rw [List.flatten_cons, List.mem_append] at hb
    rw [List.length_cons, Nat.cast_succ]
    rcases hb with hb | hb
    · exact (h.1 b hb).le
    · exact (ih h.2 hb).trans (by omega)

/-- Some scopes, the innermost first, hold the bindings that are live after some operations, in the
    order in which they were made. -/
structure Holds (scopes : List (List Binding)) (ops : List ScopeOperation) : Prop where
  length_eq : (scopes.length : Int) = levelAfter ops
  layered : Layered scopes
  mem_iff : ∀ b, b ∈ scopes.flatten ↔ b.LiveAfter ops
  inOrder : scopes.reverse.flatten.Pairwise (·.place < ·.place)

namespace Holds

variable {scope : List Binding} {scopes rest : List (List Binding)}

theorem new : Holds [[]] [] where
  length_eq := rfl
  layered := ⟨by simp, trivial⟩
  mem_iff b := by simp [LiveAfter]
  inOrder := by simp

theorem enter (h : Holds scopes ops) : Holds ([] :: scopes) (ops ++ [.enter]) where
  length_eq := by rw [List.length_cons, Nat.cast_succ, h.length_eq, levelAfter_concat, shift_enter]
  layered := ⟨by simp, h.layered⟩
  mem_iff b := by rw [List.flatten_cons, List.nil_append, h.mem_iff, liveAfter_enter]
  inOrder := by simpa using h.inOrder

theorem bind (h : Holds (scope :: rest) ops) (hnew : ¬Asked ops name) (symbol : Symbol) :
    Holds ((scope ++ [⟨ops.length, levelAfter ops, name, symbol⟩]) :: rest)
      (ops ++ [.bind name symbol]) where
  length_eq := by
    rw [levelAfter_concat, shift_bind, Int.add_zero, ← h.length_eq, List.length_cons,
      List.length_cons]
  layered := by
    refine ⟨fun b hb => ?_, h.layered.2⟩
    rcases List.mem_append.mp hb with hold | hlast
    · exact h.layered.1 b hold
    · rw [List.mem_singleton.mp hlast, ← h.length_eq, List.length_cons, Nat.cast_succ]
  mem_iff b := by
    rw [liveAfter_bind, ← h.mem_iff]
    simp [hnew, or_comm, or_left_comm]
  inOrder := by
    have hplaced : ∀ b ∈ (scope :: rest).reverse.flatten, b.place < ops.length := by
      intro b hb
      exact ((h.mem_iff b).mp (by simpa [or_comm] using hb)).place_lt
    have hinOrder := h.inOrder
    simp only [List.reverse_cons, List.flatten_concat, ← List.append_assoc] at hplaced hinOrder ⊢
    rw [List.pairwise_append]
    refine ⟨hinOrder, List.pairwise_singleton _ _, fun b hb last hlast => ?_⟩
    rw [List.mem_singleton.mp hlast]
    exact hplaced b hb

theorem refuse (h : Holds scopes ops) (hasked : Asked ops name) (symbol : Symbol) :
    Holds scopes (ops ++ [.bind name symbol]) where
  length_eq := by rw [levelAfter_concat, shift_bind, Int.add_zero, h.length_eq]
  layered := h.layered
  mem_iff b := by simp [liveAfter_bind, h.mem_iff, hasked]
  inOrder := h.inOrder

theorem exit (h : Holds (scope :: rest) ops) : Holds rest (ops ++ [.exit]) where
  length_eq := by
    have hlength := h.length_eq
    rw [List.length_cons] at hlength
    rw [levelAfter_concat, shift_exit]
    omega
  layered := h.layered.2
  mem_iff b := by
    rw [liveAfter_exit, ← h.mem_iff, ← h.length_eq, List.flatten_cons, List.mem_append,
      List.length_cons, Nat.cast_succ]
    constructor
    · intro hb
      have hle := h.layered.2.level_le hb
      exact ⟨.inr hb, by omega⟩
    · rintro ⟨hb | hb, hlt⟩
      · have hlevel := h.layered.1 b hb
        omega
      · exact hb
  inOrder := by
    have hinOrder := h.inOrder
    rw [List.reverse_cons, List.flatten_concat] at hinOrder
    exact (List.pairwise_append.mp hinOrder).1

theorem exists_cons (h : Holds scopes ops) (hinside : StaysInside ops) :
    ∃ (scope : List Binding) (rest : List (List Binding)), scopes = scope :: rest := by
  apply List.exists_cons_of_ne_nil
  rintro rfl
  have hlength := h.length_eq
  have hnet := hinside.net_nonneg
  simp only [List.length_nil, levelAfter] at hlength
  omega

theorem pairwise_precedes (h : Holds scopes ops) : scopes.reverse.flatten.Pairwise Precedes := by
  have hlive : ∀ b ∈ scopes.reverse.flatten, b.LiveAfter ops := fun b hb =>
    (h.mem_iff b).mp (by simpa using hb)
  exact h.inOrder.imp_of_mem fun ha hb hplace => (hlive _ ha).precedes (hlive _ hb) hplace

/-- The innermost scope binds a name just if it was to do so. -/
theorem isSome_lookup_iff (h : Holds (scope :: rest) ops) :
    ((scope.map entry).lookup name).isSome = true ↔ Asked ops name := by
  rw [asked_iff_exists_liveAfter, ← Option.ne_none_iff_isSome, Ne, lookup_entries_eq_none]
  push Not
  constructor
  · rintro ⟨b, hb, hname⟩
    refine ⟨b, (h.mem_iff b).mp (by simp [hb]), ?_, hname⟩
    rw [h.layered.1 b hb, ← h.length_eq, List.length_cons, Nat.cast_succ]
  · rintro ⟨b, hlive, hlevel, hname⟩
    have hmem := (h.mem_iff b).mpr hlive
    rw [List.flatten_cons, List.mem_append] at hmem
    rcases hmem with hb | hb
    · exact ⟨b, hb, hname⟩
    · have hle := h.layered.2.level_le hb
      rw [hlevel, ← h.length_eq, List.length_cons] at hle
      omega

end Holds

end Binding

namespace SymbolTable

open Binding

/-- What an operation makes of a table, or why it is refused. -/
def attempt (t : SymbolTable) : ScopeOperation → Except SymbolError SymbolTable
  | .enter => .ok t.enter
  | .bind name symbol => t.bind name symbol
  | .exit => t.exit

/-- A table after an operation. One that is refused leaves it as it is. -/
def perform (t : SymbolTable) (op : ScopeOperation) : SymbolTable :=
  (t.attempt op).toOption.getD t

def performAll (t : SymbolTable) (ops : List ScopeOperation) : SymbolTable :=
  ops.foldl perform t

/-- The table that some operations make of a new one. -/
def madeBy (ops : List ScopeOperation) : SymbolTable :=
  performAll {} ops

/-- The table with the given bindings in its scopes. -/
def ofBindings (scopes : List (List Binding)) : SymbolTable :=
  ⟨scopes.map (·.map entry)⟩

variable {ops inner : List ScopeOperation} {name : String} {symbol : Symbol} {e : SymbolError}
  {scope : List Binding} {scopes rest : List (List Binding)}

theorem performAll_append (t : SymbolTable) (ops more : List ScopeOperation) :
    t.performAll (ops ++ more) = (t.performAll ops).performAll more :=
  List.foldl_append

theorem performAll_concat (t : SymbolTable) (ops : List ScopeOperation) (op : ScopeOperation) :
    t.performAll (ops ++ [op]) = (t.performAll ops).perform op :=
  performAll_append t ops [op]

theorem madeBy_concat (ops : List ScopeOperation) (op : ScopeOperation) :
    madeBy (ops ++ [op]) = (madeBy ops).perform op :=
  performAll_concat {} ops op

theorem perform_bind_of_error {t : SymbolTable} (hbind : t.bind name symbol = .error e) :
    t.perform (.bind name symbol) = t := by
  rw [perform, attempt, hbind]
  rfl

theorem perform_bind_of_ok {t after : SymbolTable} (hbind : t.bind name symbol = .ok after) :
    t.perform (.bind name symbol) = after := by
  rw [perform, attempt, hbind]
  rfl

theorem bind_cons (scope : Scope) (rest : List Scope) (name : String) (symbol : Symbol) :
    bind ⟨scope :: rest⟩ name symbol =
      if (scope.lookup name).isSome then .error (.alreadyBound name)
      else .ok ⟨(scope ++ [(name, symbol)]) :: rest⟩ := rfl

/-- An operation changes the innermost scope only. -/
theorem perform_cons (scope : Scope) (rest : List Scope) (op : ScopeOperation) :
    ∃ upper : List Scope, perform ⟨scope :: rest⟩ op = ⟨upper ++ rest⟩ ∧
      (upper.length : Int) = 1 + op.shift := by
  cases op with
  | enter => exact ⟨[[], scope], rfl, rfl⟩
  | exit => exact ⟨[], rfl, rfl⟩
  | bind name symbol =>
    cases hbind : bind ⟨scope :: rest⟩ name symbol with
    | error e => exact ⟨[scope], perform_bind_of_error hbind, rfl⟩
    | ok after =>
      rw [perform_bind_of_ok hbind]
      rw [bind_cons] at hbind
      split at hbind
      · cases hbind
      · cases hbind
        exact ⟨[scope ++ [(name, symbol)]], rfl, rfl⟩

/-- Operations that stay inside a scope change nothing below it. -/
theorem performAll_cons (scope : Scope) (rest : List Scope) (hinside : StaysInside ops) :
    ∃ upper : List Scope, performAll ⟨scope :: rest⟩ ops = ⟨upper ++ rest⟩ ∧
      (upper.length : Int) = 1 + net ops := by
  induction ops using List.reverseRecOn with
  | nil => exact ⟨[scope], rfl, rfl⟩
  | append_singleton ops op ih =>
    obtain ⟨upper, hbefore, hlength⟩ := ih hinside.of_append
    have hnet := hinside.of_append.net_nonneg
    rw [performAll_concat, hbefore]
    -- a scope that was entered, or the one itself, is there to be changed
    cases upper with
    | nil => simp at hlength; omega
    | cons innermost upper =>
      obtain ⟨new, hnew, hshift⟩ := perform_cons innermost (upper ++ rest) op
      refine ⟨new ++ upper, by rwa [List.append_assoc], ?_⟩
      simp only [List.length_append, List.length_cons, Nat.cast_add, net_append, net_cons, net_nil]
        at hlength ⊢
      omega

/-- What happens between entering a scope and leaving it again leaves no trace. -/
theorem performAll_balanced (t : SymbolTable) (hinner : Balanced inner) :
    t.performAll (.enter :: inner ++ [.exit]) = t := by
  obtain ⟨upper, hupper, hlength⟩ := performAll_cons [] t.scopes hinner.staysInside
  obtain ⟨scope, rfl⟩ : ∃ scope, upper = [scope] := by
    rw [← List.length_eq_one_iff]
    have hsettled := hinner.settled
    omega
  have hentered : t.performAll [.enter] = ⟨[] :: t.scopes⟩ := rfl
  rw [← List.singleton_append, performAll_append, performAll_append, hentered, hupper]
  rfl

theorem bind_ofBindings_of_asked (h : Holds (scope :: rest) ops) (hasked : Asked ops name)
    (symbol : Symbol) :
    (ofBindings (scope :: rest)).bind name symbol = .error (.alreadyBound name) :=
  if_pos (h.isSome_lookup_iff.mpr hasked)

theorem bind_ofBindings_of_not_asked (h : Holds (scope :: rest) ops) (hnew : ¬Asked ops name)
    (symbol : Symbol) :
    (ofBindings (scope :: rest)).bind name symbol =
      .ok (ofBindings ((scope ++ [⟨ops.length, levelAfter ops, name, symbol⟩]) :: rest)) := by
  have hfree : ¬((scope.map entry).lookup name).isSome = true := mt h.isSome_lookup_iff.mp hnew
  rw [ofBindings, List.map_cons, bind_cons, if_neg hfree, ofBindings, List.map_cons,
    List.map_append]
  rfl

/-- A table that holds the live bindings does so after one more operation. -/
theorem perform_holds (h : Holds scopes ops) (hinside : StaysInside ops) (op : ScopeOperation) :
    ∃ after : List (List Binding), Holds after (ops ++ [op]) ∧
      (ofBindings scopes).perform op = ofBindings after := by
  obtain ⟨scope, rest, rfl⟩ := h.exists_cons hinside
  cases op with
  | enter => exact ⟨_, h.enter, rfl⟩
  | exit => exact ⟨_, h.exit, rfl⟩
  | bind name symbol =>
    by_cases hasked : Asked ops name
    · exact ⟨_, h.refuse hasked symbol,
        perform_bind_of_error (bind_ofBindings_of_asked h hasked symbol)⟩
    · exact ⟨_, h.bind hasked symbol,
        perform_bind_of_ok (bind_ofBindings_of_not_asked h hasked symbol)⟩

/-- After operations that do not leave the outermost scope a table holds the live bindings. -/
theorem madeBy_holds (hinside : StaysInside ops) :
    ∃ scopes : List (List Binding), Holds scopes ops ∧ madeBy ops = ofBindings scopes := by
  induction ops using List.reverseRecOn with
  | nil => exact ⟨[[]], Holds.new, rfl⟩
  | append_singleton ops op ih =>
    obtain ⟨scopes, hholds, hbefore⟩ := ih hinside.of_append
    obtain ⟨after, hafter, hperform⟩ := perform_holds hholds hinside.of_append op
    exact ⟨after, hafter, by rw [madeBy_concat, hbefore, hperform]⟩

theorem symbols_ofBindings (scopes : List (List Binding)) :
    (ofBindings scopes).symbols = scopes.reverse.flatten.map Binding.symbol := by
  simp [ofBindings, symbols, List.flatMap_def, List.map_flatten, entry, Function.comp_def]

theorem lookup_ofBindings_eq_none :
    (ofBindings scopes).lookup name = none ↔ ∀ b ∈ scopes.flatten, b.name ≠ name := by
  induction scopes with
  | nil => simp [ofBindings, lookup]
  | cons scope rest ih =>
    rw [ofBindings, List.map_cons, lookup_cons, Option.or_eq_none_iff, lookup_entries_eq_none,
      ← ofBindings, ih, List.flatten_cons, List.forall_mem_append]

/-- What a name stands for was bound to it, and nowhere further inside. -/
theorem exists_of_lookup_ofBindings (hlayered : Layered scopes)
    (hlookup : (ofBindings scopes).lookup name = some symbol) :
    ∃ b ∈ scopes.flatten, b.name = name ∧ b.symbol = symbol ∧
      ∀ other ∈ scopes.flatten, other.name = name → other.level ≤ b.level := by
  induction scopes with
  | nil => cases hlookup
  | cons scope rest ih =>
    rw [ofBindings, List.map_cons, lookup_cons, ← ofBindings, Option.or_eq_some_iff] at hlookup
    rcases hlookup with hhere | ⟨hnone, hbelow⟩
    · obtain ⟨b, hb, hname, hsymbol⟩ := exists_of_lookup_entries hhere
      refine ⟨b, by simp [hb], hname, hsymbol, fun other hother _ => ?_⟩
      have hle := hlayered.level_le hother
      rwa [List.length_cons, Nat.cast_succ, ← hlayered.1 b hb] at hle
    · obtain ⟨b, hb, hname, hsymbol, hinnermost⟩ := ih hlayered.2 hbelow
      refine ⟨b, by simp [hb], hname, hsymbol, fun other hother hsame => ?_⟩
      rcases List.mem_append.mp hother with hhere | hother
      · exact absurd hsame (lookup_entries_eq_none.mp hnone other hhere)
      · exact hinnermost other hother hsame

/-- A name stands for the symbol of the innermost scope that binds it. -/
theorem lookup_ofBindings_eq_some_iff (h : Holds scopes ops) :
    (ofBindings scopes).lookup name = some symbol ↔
      ∃ b : Binding, b.LiveAfter ops ∧ b.name = name ∧ b.symbol = symbol ∧
        ∀ other : Binding, other.LiveAfter ops → other.name = name → other.level ≤ b.level := by
  simp only [← h.mem_iff]
  constructor
  · exact exists_of_lookup_ofBindings h.layered
  · rintro ⟨b, hb, hname, rfl, hinnermost⟩
    cases hlookup : (ofBindings scopes).lookup name with
    | none => exact absurd hname (lookup_ofBindings_eq_none.mp hlookup b hb)
    | some found =>
      obtain ⟨a, ha, hsame, rfl, houter⟩ := exists_of_lookup_ofBindings h.layered hlookup
      -- both are the innermost, so they are in one scope, which binds a name once
      have hlevel := Int.le_antisymm (hinnermost a ha hsame) (houter b hb hname)
      rw [((h.mem_iff a).mp ha).symbol_unique ((h.mem_iff b).mp hb) hlevel (hsame.trans hname.symm)]

/-- A name is refused just if the innermost scope has a live binding of it. -/
theorem bind_ofBindings_eq_error_iff (h : Holds scopes ops) (hinside : StaysInside ops) :
    (ofBindings scopes).bind name symbol = .error e ↔ e = .alreadyBound name ∧
      ∃ b : Binding, b.LiveAfter ops ∧ b.level = levelAfter ops ∧ b.name = name := by
  obtain ⟨scope, rest, rfl⟩ := h.exists_cons hinside
  rw [← asked_iff_exists_liveAfter]
  by_cases hasked : Asked ops name
  · rw [bind_ofBindings_of_asked h hasked, Except.error.injEq]
    exact ⟨fun he => ⟨he.symm, hasked⟩, fun he => he.1.symm⟩
  · rw [bind_ofBindings_of_not_asked h hasked]
    constructor
    · intro he
      cases he
    · intro he
      exact absurd he.2 hasked

/-- After any operations that do not leave the outermost scope, a table is the nested environment
    that they describe. A name stands for the symbol of the innermost scope that binds it. A name is
    refused just if the innermost scope binds it, and the table then stays as it is. A scope that is
    entered and left again leaves no trace. The symbols are those of the live bindings, each once,
    outer scopes first and those of one scope in the order of binding. -/
theorem refines_nested_environment (hinside : StaysInside ops) :
    ((madeBy ops).level : Int) = levelAfter ops ∧
      (∀ name symbol, (madeBy ops).lookup name = some symbol ↔
        ∃ b : Binding, b.LiveAfter ops ∧ b.name = name ∧ b.symbol = symbol ∧
          ∀ other : Binding, other.LiveAfter ops → other.name = name → other.level ≤ b.level) ∧
      (∀ name, (madeBy ops).lookup name = none ↔
        ∀ b : Binding, b.LiveAfter ops → b.name ≠ name) ∧
      (∀ name symbol e, (madeBy ops).bind name symbol = .error e ↔
        e = .alreadyBound name ∧
          ∃ b : Binding, b.LiveAfter ops ∧ b.level = levelAfter ops ∧ b.name = name) ∧
      (∀ name symbol e, (madeBy ops).bind name symbol = .error e →
        madeBy (ops ++ [.bind name symbol]) = madeBy ops) ∧
      (∀ inner, Balanced inner → madeBy (ops ++ .enter :: inner ++ [.exit]) = madeBy ops) ∧
      ∃ bindings : List Binding,
        (madeBy ops).symbols = bindings.map Binding.symbol ∧
          (∀ b : Binding, b ∈ bindings ↔ b.LiveAfter ops) ∧
          bindings.Pairwise Precedes := by
  obtain ⟨scopes, hholds, htable⟩ := madeBy_holds hinside
  refine ⟨?_, fun name symbol => ?_, fun name => ?_, fun name symbol e => ?_,
    fun name symbol e hbind => ?_, fun inner hinner => ?_, scopes.reverse.flatten, ?_,
    fun b => ?_, hholds.pairwise_precedes⟩
  · rw [htable, ← hholds.length_eq, level, ofBindings, List.length_map]
  · rw [htable]
    exact lookup_ofBindings_eq_some_iff hholds
  · rw [htable, lookup_ofBindings_eq_none]
    simp only [hholds.mem_iff]
  · rw [htable]
    exact bind_ofBindings_eq_error_iff hholds hinside
  · rw [madeBy_concat]
    exact perform_bind_of_error hbind
  · rw [List.append_assoc, madeBy, performAll_append]
    exact performAll_balanced _ hinner
  · rw [htable, symbols_ofBindings]
  · rw [← hholds.mem_iff]
    simp

/-- A name is bound, bound again in a scope of its own, refused there, and bound in a scope that is
    left. -/
def shadowing : List ScopeOperation :=
  [.bind "x" ⟨"x", .global, .integer, [], [], []⟩, .enter,
    .bind "x" ⟨"x", .parameter, .boolean, [], [], []⟩,
    .bind "x" ⟨"x", .parameter, .integer, [], [], []⟩, .enter,
    .bind "x" ⟨"x", .localName, .integer, [], [], []⟩, .exit]

/-- The name stands for what it was bound to first in the scope that is open. -/
theorem refines_nested_environment_shadowing :
    StaysInside shadowing ∧
      ∃ b : Binding, b.LiveAfter shadowing ∧ b.name = "x" ∧
        b.symbol = ⟨"x", .parameter, .boolean, [], [], []⟩ ∧
        ∀ other : Binding, other.LiveAfter shadowing → other.name = "x" → other.level ≤ b.level := by
  have hinside : StaysInside shadowing := by decide
  exact ⟨hinside, ((refines_nested_environment hinside).2.1 "x" _).mp rfl⟩

end SymbolTable

end Klein
