import Klein.Proofs.Analysis.Checking

namespace Klein

namespace SymbolTable

variable {t after : SymbolTable} {name other : String} {symbol : Symbol}

theorem lookup_cons (scope : Scope) (rest : List Scope) (name : String) :
    lookup ⟨scope :: rest⟩ name = (scope.lookup name).or (lookup ⟨rest⟩ name) := by
  simp only [lookup, List.findSome?_cons]
  cases List.lookup name scope <;> rfl

@[simp]
theorem lookup_enter (t : SymbolTable) (name : String) : t.enter.lookup name = t.lookup name := by
  rw [enter, lookup_cons]
  rfl

/-- Binding a name changes the innermost scope, and the meaning of that name only. -/
theorem bind_eq_ok (hbind : t.bind name symbol = .ok after) :
    after.leave = t.leave ∧
      ∀ other, after.lookup other = if other = name then some symbol else t.lookup other := by
  obtain ⟨scopes⟩ := t
  cases scopes with
  | nil => simp [bind] at hbind
  | cons scope rest =>
    simp only [bind] at hbind
    split at hbind
    · cases hbind
    · rename_i hfree
      cases hbind
      refine ⟨rfl, fun other => ?_⟩
      have hscope : scope.lookup name = none := Option.not_isSome_iff_eq_none.mp hfree
      rw [lookup_cons, lookup_cons, List.lookup_append]
      split
      · rename_i hother
        simp [hother, hscope]
      · rename_i hother
        have hnone : List.lookup other [(name, symbol)] = none := by
          simp [List.lookup_cons, beq_eq_false_iff_ne.mpr hother]
        rw [hnone, Option.or_none]

private theorem lookup_modifyScope (f : Symbol → Symbol) (scope : Scope) :
    (modifyScope name f scope).lookup other =
      (scope.lookup other).map fun s => if other = name then f s else s := by
  induction scope with
  | nil => rfl
  | cons entry scope ih =>
    obtain ⟨key, s⟩ := entry
    have hcons : modifyScope name f ((key, s) :: scope) =
        (key, if key = name then f s else s) :: modifyScope name f scope := by
      by_cases hname : key = name <;> simp [modifyScope, hname]
    rw [hcons]
    by_cases hkey : other = key
    · subst hkey
      simp
    · have hbeq := beq_eq_false_iff_ne.mpr hkey
      simp only [List.lookup_cons, hbeq, ih]

/-- Changing the symbol of a name changes what that name stands for, and nothing else. -/
theorem lookup_modify (t : SymbolTable) (name : String) (f : Symbol → Symbol) (other : String) :
    (t.modify name f).lookup other =
      (t.lookup other).map fun s => if other = name then f s else s := by
  obtain ⟨scopes⟩ := t
  simp only [modify]
  induction scopes with
  | nil => rfl
  | cons scope rest ih =>
    simp only [modifyScopes]
    split
    · rename_i hbound
      rw [lookup_cons, lookup_cons, Option.map_or, lookup_modifyScope]
      by_cases hother : other = name
      · obtain ⟨s, hs⟩ := Option.isSome_iff_exists.mp hbound
        simp [hother, hs]
      · simp [hother]
    · rw [lookup_cons, lookup_cons, Option.map_or, ih]
      rename_i hfree
      by_cases hother : other = name
      · have hnone : List.lookup name scope = none := Option.not_isSome_iff_eq_none.mp hfree
        simp [hother, hnone]
      · simp [hother]

/-- The type of the symbol that a name stands for. -/
def typeOf (t : SymbolTable) (name : String) : Option Ty :=
  (t.lookup name).map (·.type)

theorem typeOf_modify {f : Symbol → Symbol} (hf : ∀ s, (f s).type = s.type) :
    (t.modify name f).typeOf other = t.typeOf other := by
  rw [typeOf, lookup_modify, Option.map_map, typeOf]
  congr 1
  funext s
  by_cases hother : other = name
  · simp [hother, hf]
  · simp [hother]

@[simp]
theorem typeOf_addCall (t : SymbolTable) (name callee other : String) :
    (t.modify name (·.addCall callee)).typeOf other = t.typeOf other :=
  typeOf_modify fun _ => rfl

@[simp]
theorem typeOf_addCaller (t : SymbolTable) (name caller other : String) :
    (t.modify name (·.addCaller caller)).typeOf other = t.typeOf other :=
  typeOf_modify fun _ => rfl

end SymbolTable

variable {names : Declared} {t : SymbolTable} {p : Program}

/-- Only the types of the symbols matter. -/
theorem Declared.Explains.of_types {after : SymbolTable} (h : names.Explains t.lookup)
    (htypes : ∀ name, after.typeOf name = t.typeOf name) : names.Explains after.lookup := by
  intro name symbol hname
  have htype : t.typeOf name = some symbol.type := by
    rw [← htypes, SymbolTable.typeOf, hname, Option.map_some]
  obtain ⟨before, hbefore, hsame⟩ := Option.map_eq_some_iff.mp htype
  rw [← hsame]
  exact h name before hbefore

/-- The type of the symbol that a name is to stand for: a parameter comes before a function, and
    both come before `print`. -/
def Declared.typeOf (names : Declared) (name : String) : Option Ty :=
  ((names.parameter name).map BaseType.ty).or (((names.function name).map Signature.ty).or
    (if name = "print" then some Analysis.printSymbol.type else none))

/-- What can be seen of some names: no function that has the name of a parameter. -/
def Declared.visible (names : Declared) : Declared where
  parameter := names.parameter
  function name := if (names.parameter name).isSome then none else names.function name

/-- Names that resolve to symbols of their declared types are explained by what can be seen. -/
theorem Declared.explains_visible {resolve : String → Option Symbol}
    (h : ∀ name, (resolve name).map (·.type) = names.typeOf name) :
    names.visible.Explains resolve := by
  intro name symbol hname
  have htype : names.typeOf name = some symbol.type := by rw [← h, hname, Option.map_some]
  unfold Declared.typeOf at htype
  cases hparameter : names.parameter name with
  | some t => exact .inl ⟨t, hparameter, by simpa [hparameter, eq_comm] using htype⟩
  | none =>
    right
    cases hfunction : names.function name with
    | some signature =>
      refine .inl ⟨signature, by simp [visible, hparameter, hfunction], ?_⟩
      simpa [hparameter, hfunction, eq_comm] using htype
    | none =>
      simp only [hparameter, hfunction, Option.map_none, Option.none_or] at htype
      split at htype
      · exact .inr ‹_›
      · cases htype

theorem Declared.Explains.of_visible {resolve : String → Option Symbol}
    (h : names.visible.Explains resolve) : names.Explains resolve := by
  intro name symbol hname
  rcases h name symbol hname with hparameter | ⟨signature, hfunction, htype⟩ | hprint
  · exact .inl hparameter
  · refine .inr (.inl ⟨signature, ?_, htype⟩)
    simp only [visible] at hfunction
    split at hfunction
    · cases hfunction
    · exact hfunction
  · exact .inr (.inr hprint)

namespace Analysis

theorem typeOf_addCalls (s : State) (calls : List String) (name : String) :
    (s.addCalls calls).table.typeOf name = s.table.typeOf name := by
  unfold State.addCalls
  split
  · rfl
  · split
    · rename_i caller _
      suffices hfold : ∀ t : SymbolTable,
          (calls.foldl (fun t callee => t.modify caller (·.addCall callee)) t).typeOf name =
            t.typeOf name from hfold s.table
      induction calls with
      | nil => exact fun _ => rfl
      | cons callee calls ih =>
        exact fun t => (ih _).trans (t.typeOf_addCall caller callee name)
    · rfl

/-- What a name stands for after some things have been bound to symbols one after the other, each
    name once. Names that were seen before are not bound again. -/
def symbolAfter {α : Type} (key : α → String) (symbol : α → Symbol) (seen : List String)
    (items : List α) (before : Option Symbol) (name : String) : Option Symbol :=
  if name ∈ seen then before else ((items.find? (key · = name)).map symbol).or before

section

variable {α : Type} {key : α → String} {symbol : α → Symbol} {seen : List String} {a : α}
  {items : List α} {before : Option Symbol} {name : String}

theorem symbolAfter_old (hold : key a ∈ seen) :
    symbolAfter key symbol seen (a :: items) before name =
      symbolAfter key symbol seen items before name := by
  unfold symbolAfter
  split
  · rfl
  · rename_i hnew
    have hne : key a ≠ name := fun hsame => hnew (hsame ▸ hold)
    simp [hne]

theorem symbolAfter_new (hnew : key a ∉ seen) :
    symbolAfter key symbol seen (a :: items) before name =
      symbolAfter key symbol (key a :: seen) items
        (if name = key a then some (symbol a) else before) name := by
  unfold symbolAfter
  by_cases hname : name = key a
  · subst hname
    simp [hnew]
  · have hne : key a ≠ name := fun hsame => hname hsame.symm
    simp [hname, hne]

end

theorem functionSymbol_type (d : Definition) : (functionSymbol d).type = d.signature.ty := by
  simp [functionSymbol, Signature.ty, Definition.signature, parameterTypes, Function.comp_def]

/-- Declaring functions binds names to the symbols of their first definitions. -/
theorem lookup_declareFrom {definitions : List Definition} {s : State} {seen : List String}
    (hfault : (declareFrom seen s definitions).2 = none) (name : String) :
    (declareFrom seen s definitions).1.table.lookup name =
      symbolAfter Definition.name functionSymbol seen definitions (s.table.lookup name) name := by
  induction definitions generalizing s seen with
  | nil =>
    have hnone : symbolAfter Definition.name functionSymbol seen [] (s.table.lookup name) name =
        s.table.lookup name := by simp [symbolAfter]
    rw [declareFrom, hnone]
    split <;> rfl
  | cons d definitions ih =>
    rw [declareFrom] at hfault ⊢
    split at hfault
    · rename_i hold
      rw [if_pos hold, ih hfault, symbolAfter_old (by simpa using hold)]
      rfl
    · rename_i hnew
      rw [if_neg hnew]
      split at hfault
      · cases hfault
      · rename_i table hbind
        rw [ih hfault, symbolAfter_new (by simpa using hnew), (SymbolTable.bind_eq_ok hbind).2]

/-- After the declarations names have the types that the program declares. -/
theorem typeOf_declare {s : State} (hdeclare : declare {} p = (s, none)) (name : String) :
    s.table.typeOf name = (p.declares []).typeOf name := by
  unfold declare at hdeclare
  split at hdeclare
  · cases hdeclare
  · rename_i table hbind
    have hlookup := lookup_declareFrom (congrArg Prod.snd hdeclare) name
    rw [hdeclare, (SymbolTable.bind_eq_ok hbind).2, symbolAfter, if_neg List.not_mem_nil] at hlookup
    have hprint : printSymbol.name = "print" := rfl
    have hempty : ({} : SymbolTable).lookup name = none := rfl
    rw [hprint, hempty] at hlookup
    rw [SymbolTable.typeOf, hlookup, Declared.typeOf, Option.map_or]
    simp only [Program.declares, Option.map_map, Function.comp_def, functionSymbol_type,
      List.find?_nil, Option.map_none, Option.none_or]
    split <;> rfl

theorem explains_declare {s : State} (hdeclare : declare {} p = (s, none)) :
    (p.declares []).Explains s.table.lookup :=
  (Declared.explains_visible (typeOf_declare hdeclare)).of_visible

/-- Checking parameters binds names in the innermost scope only, and issues are only added. -/
theorem checkParametersFrom_keeps {parameters : List Parameter} {s : State} {seen : List String}
    (hfault : (checkParametersFrom seen s parameters).fault = none) :
    (checkParametersFrom seen s parameters).state.table.leave = s.table.leave ∧
      s.issues ⊆ (checkParametersFrom seen s parameters).state.issues := by
  induction parameters generalizing s seen with
  | nil => exact ⟨rfl, List.Subset.refl _⟩
  | cons parameter parameters ih =>
    rw [checkParametersFrom] at hfault ⊢
    split at hfault
    · rename_i hold
      rw [if_pos hold]
      obtain ⟨hleave, hissues⟩ := ih hfault
      exact ⟨hleave, List.Subset.trans (List.subset_append_left _ _) hissues⟩
    · rename_i hnew
      rw [if_neg hnew]
      split at hfault
      · cases hfault
      · rename_i table hbind
        obtain ⟨hleave, hissues⟩ := ih hfault
        exact ⟨hleave.trans (SymbolTable.bind_eq_ok hbind).1, hissues⟩

/-- The symbol of a parameter. -/
def parameterSymbol (parameter : Parameter) : Symbol :=
  { name := parameter.name, kind := .parameter, type := parameter.type.base.ty }

/-- Checking parameters binds names to the first parameters that have them. -/
theorem lookup_checkParametersFrom {parameters : List Parameter} {s : State} {seen : List String}
    (hfault : (checkParametersFrom seen s parameters).fault = none) (name : String) :
    (checkParametersFrom seen s parameters).state.table.lookup name =
      symbolAfter Parameter.name parameterSymbol seen parameters (s.table.lookup name) name := by
  induction parameters generalizing s seen with
  | nil => simp [checkParametersFrom, symbolAfter]
  | cons parameter parameters ih =>
    rw [checkParametersFrom] at hfault ⊢
    split at hfault
    · rename_i hold
      rw [if_pos hold, symbolAfter_old (by simpa using hold)]
      exact ih hfault
    · rename_i hnew
      rw [if_neg hnew]
      split at hfault
      · cases hfault
      · rename_i table hbind
        have hbound := (SymbolTable.bind_eq_ok hbind).2 name
        rw [symbolAfter_new (by simpa using hnew), parameterSymbol, ← hbound]
        exact ih hfault

end Analysis

end Klein
