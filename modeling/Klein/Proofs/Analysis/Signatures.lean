import Klein.Proofs.Analysis.Soundness

namespace Klein

namespace SymbolTable

variable (t : SymbolTable) (name : String)

theorem typeOf_addCallers (caller : String) (calls : List String) :
    (t.addCallers caller calls).1.typeOf name = t.typeOf name := by
  induction calls generalizing t with
  | nil => rfl
  | cons callee calls ih =>
    rw [addCallers]
    split
    · rfl
    · rw [ih, typeOf_addCaller]

theorem typeOf_updateCallersOf (symbols : List Symbol) :
    (t.updateCallersOf symbols).1.typeOf name = t.typeOf name := by
  induction symbols generalizing t with
  | nil => rfl
  | cons symbol symbols ih =>
    have hfirst := t.typeOf_addCallers name symbol.name symbol.calls
    rw [updateCallersOf]
    split
    · rename_i after hcallers
      rw [hcallers] at hfirst
      rw [ih, hfirst]
    · rename_i after e hcallers
      rw [hcallers] at hfirst
      exact hfirst

end SymbolTable

namespace Analysis

variable {p : Program} {s : State} {name : String}

theorem typeOf_checkDefinitions {definitions : List Definition}
    (hfault : (checkDefinitions s definitions).fault = none) (name : String) :
    (checkDefinitions s definitions).state.table.typeOf name = s.table.typeOf name := by
  induction definitions generalizing s with
  | nil => rfl
  | cons d definitions ih =>
    rw [checkDefinitions] at hfault ⊢
    dsimp only at hfault ⊢
    split at hfault
    · cases hfault
    · rename_i hnone
      dsimp only
      rw [ih hfault, typeOf_checkDefinition hnone]

/-- After an analysis without an error names have the types that the program declares. -/
theorem typeOf_analyze_eq (hok : (analyze p).error = none) (name : String) :
    (analyze p).state.table.typeOf name = (p.declares []).typeOf name := by
  obtain ⟨s, hdeclare, hfault, -, -, htable⟩ := analyze_of_ok hok
  rw [htable, SymbolTable.updateCallers, SymbolTable.typeOf_updateCallersOf,
    typeOf_checkDefinitions hfault, typeOf_declare hdeclare]

/-- Nothing that has a name of its own is called `print`, which is a word of the language. -/
theorem find_print {α : Type} (key : α → String) {items : List α}
    (hnames : ∀ a ∈ items, IsName (key a)) : items.find? (fun a => key a = "print") = none := by
  rw [List.find?_eq_none]
  exact fun a ha => by simpa using (hnames a ha).ne_print

/-- After an analysis without an error `print` and the function that is defined first have their
    types. -/
theorem typeOf_analyze {d : Definition} {rest : List Definition}
    (hfirst : p.definitions = d :: rest) (hlegal : p.Legal) (hok : (analyze p).error = none) :
    (analyze p).state.table.typeOf "print" = some printSymbol.type ∧
      (analyze p).state.table.typeOf d.name = some (functionSymbol d).type := by
  rw [typeOf_analyze_eq hok, typeOf_analyze_eq hok]
  constructor
  · have hnone := find_print Definition.name fun d hd => (hlegal d hd).name
    simp [Declared.typeOf, Program.declares, hnone]
  · simp [Declared.typeOf, Program.declares, hfirst, functionSymbol_type]

end Analysis

end Klein
