import Klein.Proofs.Analysis.Faults

namespace Klein

variable {name other : String} {names others : List String}

/-- Inserting a name keeps the order. -/
theorem sorted_insertName (hsorted : names.Pairwise (· < ·)) :
    (insertName name names).Pairwise (· < ·) := by
  fun_induction insertName name names with
  | case1 => simp
  | case2 first names hlt =>
    refine List.pairwise_cons.mpr ⟨fun later hlater => ?_, hsorted⟩
    rcases List.mem_cons.mp hlater with rfl | hlater
    · exact hlt
    · exact String.lt_trans hlt ((List.pairwise_cons.mp hsorted).1 later hlater)
  | case3 => exact hsorted
  | case4 first names hlt hne ih =>
    obtain ⟨hfirst, hrest⟩ := List.pairwise_cons.mp hsorted
    refine List.pairwise_cons.mpr ⟨fun later hlater => ?_, ih hrest⟩
    rcases SymbolTable.mem_insertName.mp hlater with rfl | hlater
    · by_contra hge
      exact hne (String.le_antisymm (String.not_lt.mp hge) (String.not_lt.mp hlt))
    · exact hfirst later hlater

/-- A set of names with more names. -/
def insertNames (names more : List String) : List String :=
  more.foldl (fun set name => insertName name set) names

theorem insertNames_append (names more others : List String) :
    insertNames names (more ++ others) = insertNames (insertNames names more) others :=
  List.foldl_append

theorem mem_insertNames {more : List String} :
    other ∈ insertNames names more ↔ other ∈ names ∨ other ∈ more := by
  induction more generalizing names with
  | nil => simp [insertNames]
  | cons name more ih =>
    have hstep : insertNames names (name :: more) = insertNames (insertName name names) more := rfl
    rw [hstep, ih, SymbolTable.mem_insertName, List.mem_cons, or_comm (a := other = name), or_assoc]

theorem mem_sortedNames : other ∈ sortedNames names ↔ other ∈ names :=
  mem_insertNames.trans (by simp)

theorem sorted_insertNames {more : List String} (hsorted : names.Pairwise (· < ·)) :
    (insertNames names more).Pairwise (· < ·) := by
  induction more generalizing names with
  | nil => exact hsorted
  | cons name more ih => exact ih (sorted_insertName hsorted)

theorem nodup_sortedNames (names : List String) : (sortedNames names).Nodup := by
  have hsorted : (sortedNames names).Pairwise (· < ·) := sorted_insertNames .nil
  refine hsorted.imp ?_
  rintro a _ hlt rfl
  exact String.lt_irrefl a hlt

/-- A set of names is determined by its members. -/
theorem sortedNames_congr (hmem : ∀ name, name ∈ names ↔ name ∈ others) :
    sortedNames names = sortedNames others := by
  refine List.Perm.eq_of_pairwise ?_ (sorted_insertNames .nil) (sorted_insertNames .nil) ?_
  · exact fun a b _ _ hab hba => absurd hba (String.lt_asymm hab)
  · refine (List.perm_ext_iff_of_nodup (nodup_sortedNames _) (nodup_sortedNames _)).mpr fun name => ?_
    rw [mem_sortedNames, mem_sortedNames, hmem]

namespace SymbolTable

variable {symbols : List Symbol} {symbol : Symbol}

/-- The table in which some symbols are bound to their names in one scope. -/
def ofSymbols (symbols : List Symbol) : SymbolTable :=
  ⟨[symbols.map fun symbol => (symbol.name, symbol)]⟩

theorem lookup_names (symbols : List Symbol) (name : String) :
    (symbols.map fun symbol => (symbol.name, symbol)).lookup name =
      symbols.find? (·.name = name) := by
  induction symbols with
  | nil => rfl
  | cons symbol symbols ih =>
    rw [List.map_cons, List.lookup_cons, ih, List.find?_cons]
    by_cases hname : symbol.name = name
    · simp [hname]
    · simp [hname, beq_eq_false_iff_ne.mpr (Ne.symm hname)]

@[simp]
theorem lookup_ofSymbols (symbols : List Symbol) (name : String) :
    (ofSymbols symbols).lookup name = symbols.find? (·.name = name) := by
  rw [ofSymbols, lookup_cons, lookup_names]
  exact Option.or_none

@[simp]
theorem symbols_ofSymbols (symbols : List Symbol) : (ofSymbols symbols).symbols = symbols := by
  simp [ofSymbols, SymbolTable.symbols, Function.comp_def]

/-- A symbol whose name is free is bound behind the others. -/
theorem bind_ofSymbols (hfree : ∀ other ∈ symbols, other.name ≠ symbol.name) :
    (ofSymbols symbols).bind symbol.name symbol = .ok (ofSymbols (symbols ++ [symbol])) := by
  have hnone : symbols.find? (·.name = symbol.name) = none := by
    rw [List.find?_eq_none]
    simpa using hfree
  simp [ofSymbols, bind, lookup_names, hnone]

/-- Changing the symbol of a name changes the symbols that have it. -/
theorem modify_ofSymbols {f : Symbol → Symbol} (hf : ∀ symbol, (f symbol).name = symbol.name)
    (symbols : List Symbol) (name : String) :
    (ofSymbols symbols).modify name f =
      ofSymbols (symbols.map fun symbol => if symbol.name = name then f symbol else symbol) := by
  have hscope : modifyScope name f (symbols.map fun symbol => (symbol.name, symbol)) =
      (symbols.map fun symbol => if symbol.name = name then f symbol else symbol).map
        fun symbol => (symbol.name, symbol) := by
    simp only [modifyScope, List.map_map]
    refine List.map_congr_left fun symbol _ => ?_
    by_cases hname : symbol.name = name
    · simp [hname, hf]
    · simp [hname]
  simp only [ofSymbols, modify, modifyScopes, lookup_names]
  split
  · rw [hscope]
  · rename_i hfree
    -- no symbol has the name, so none is changed
    rw [Option.not_isSome_iff_eq_none, List.find?_eq_none] at hfree
    congr 2
    refine (List.map_congr_left fun symbol hsymbol => ?_).trans (List.map_map ..).symm
    have hname : symbol.name ≠ name := by simpa using hfree symbol hsymbol
    simp [hname]

end SymbolTable

/-- The names of a list that occur in it before, or were seen before it. -/
def repeated (seen : List String) : List String → List String
  | [] => []
  | name :: rest =>
    if name ∈ seen then name :: repeated seen rest else repeated (name :: seen) rest

theorem repeated_eq_nil {seen : List String} (hnodup : names.Nodup)
    (hseen : ∀ name ∈ names, name ∉ seen) : repeated seen names = [] := by
  induction names generalizing seen with
  | nil => rfl
  | cons first names ih =>
    obtain ⟨hfirst, hrest⟩ := List.nodup_cons.mp hnodup
    rw [repeated, if_neg (hseen first (by simp))]
    refine ih hrest fun name hname => ?_
    rw [List.mem_cons, not_or]
    exact ⟨fun hsame => hfirst (hsame ▸ hname), hseen name (by simp [hname])⟩

/-- The definitions that are the first ones of their names, apart from names that were seen
    before. -/
def firstDefinitions (seen : List String) : List Definition → List Definition
  | [] => []
  | d :: rest =>
    if d.name ∈ seen then firstDefinitions seen rest
    else d :: firstDefinitions (d.name :: seen) rest

theorem find?_firstDefinitions {seen : List String} (hname : name ∉ seen)
    (definitions : List Definition) :
    (firstDefinitions seen definitions).find? (·.name = name) =
      definitions.find? (·.name = name) := by
  induction definitions generalizing seen with
  | nil => rfl
  | cons d definitions ih =>
    rw [firstDefinitions, List.find?_cons]
    by_cases hsame : d.name = name
    · have hnew : d.name ∉ seen := hsame ▸ hname
      simp [hsame, hname]
    · split
      · simp [hsame, ih hname]
      · have hother : name ∉ d.name :: seen := by simp [Ne.symm hsame, hname]
        simp [hsame, ih hother]

theorem firstDefinitions_subset (seen : List String) (definitions : List Definition) :
    firstDefinitions seen definitions ⊆ definitions := by
  induction definitions generalizing seen with
  | nil => exact List.Subset.refl _
  | cons d definitions ih =>
    rw [firstDefinitions]
    split
    · exact List.subset_cons_of_subset d (ih seen)
    · exact List.cons_subset_cons d (ih _)

theorem mem_firstDefinitions_of_find? {definitions : List Definition} {d : Definition}
    (hfound : definitions.find? (·.name = name) = some d) : d ∈ firstDefinitions [] definitions := by
  have hunseen : name ∉ ([] : List String) := List.not_mem_nil
  rw [← find?_firstDefinitions hunseen] at hfound
  exact List.mem_of_find?_eq_some hfound

theorem mem_firstDefinitions {definitions before after : List Definition} {d : Definition}
    (hsplit : definitions = before ++ d :: after) (hfirst : d.name ∉ before.map (·.name)) :
    d ∈ firstDefinitions [] definitions := by
  have hbefore : before.find? (·.name = d.name) = none := by
    rw [List.find?_eq_none]
    intro e he hsame
    exact hfirst (List.mem_map.mpr ⟨e, he, of_decide_eq_true hsame⟩)
  have hfound : definitions.find? (·.name = d.name) = some d := by
    rw [hsplit, List.find?_append, hbefore, Option.none_or, List.find?_cons_of_pos (by simp)]
  exact mem_firstDefinitions_of_find? hfound

/-- Each function has a first definition. -/
theorem mem_map_firstDefinitions {definitions : List Definition} :
    name ∈ (firstDefinitions [] definitions).map (·.name) ↔ name ∈ definitions.map (·.name) := by
  constructor
  · exact fun hname => List.map_subset _ (firstDefinitions_subset _ _) hname
  · intro hname
    have hfound : (definitions.find? (·.name = name)).isSome = true := by
      obtain ⟨d, hd, hsame⟩ := List.mem_map.mp hname
      rw [List.find?_isSome]
      exact ⟨d, hd, by simpa using hsame⟩
    obtain ⟨d, hd⟩ := Option.isSome_iff_exists.mp hfound
    refine List.mem_map.mpr ⟨d, mem_firstDefinitions_of_find? hd, ?_⟩
    simpa using List.find?_some hd

/-- No two of the first definitions have the same name. -/
theorem nodup_firstDefinitions (seen : List String) (definitions : List Definition) :
    ((firstDefinitions seen definitions).map (·.name)).Nodup ∧
      ∀ d ∈ firstDefinitions seen definitions, d.name ∉ seen := by
  induction definitions generalizing seen with
  | nil => simp [firstDefinitions]
  | cons d definitions ih =>
    rw [firstDefinitions]
    split
    · exact ih seen
    · rename_i hnew
      obtain ⟨hnodup, hothers⟩ := ih (d.name :: seen)
      simp only [List.mem_cons, not_or] at hothers
      rw [List.map_cons, List.nodup_cons, List.forall_mem_cons]
      refine ⟨⟨?_, hnodup⟩, hnew, fun e he => (hothers e he).2⟩
      rintro hsame
      obtain ⟨e, he, hname⟩ := List.mem_map.mp hsame
      exact (hothers e he).1 hname

theorem firstDefinitions_eq_self {seen : List String} {definitions : List Definition}
    (hnodup : (definitions.map (·.name)).Nodup) (hseen : ∀ d ∈ definitions, d.name ∉ seen) :
    firstDefinitions seen definitions = definitions := by
  induction definitions generalizing seen with
  | nil => rfl
  | cons d definitions ih =>
    obtain ⟨hfirst, hrest⟩ := List.nodup_cons.mp hnodup
    rw [firstDefinitions, if_neg (hseen d (by simp)), ih hrest]
    intro e he
    rw [List.mem_cons, not_or]
    exact ⟨fun hsame => hfirst (List.mem_map.mpr ⟨e, he, hsame⟩), hseen e (by simp [he])⟩

open Analysis

namespace Program

variable (p : Program)

/-- The symbols that a program starts with: the function for output, and the functions that it
    defines, in the order of their first definitions. -/
def globals : List Symbol :=
  printSymbol :: (firstDefinitions [] p.definitions).map functionSymbol

/-- The symbol that a name stands for outside of definitions, before anything is known of calls. -/
def globalSymbol (name : String) : Option Symbol :=
  if name = "print" then some printSymbol
  else (p.definitions.find? (·.name = name)).map functionSymbol

/-- What is wrong with the names of the functions of a program. -/
def declarationIssues : List Issue :=
  (repeated [] (p.definitions.map (·.name))).map .duplicateFunction ++
    if "main" ∈ p.definitions.map (·.name) then [] else [.missingMain]

theorem find?_globals (name : String) :
    p.globals.find? (·.name = name) = p.globalSymbol name := by
  have hprint : printSymbol.name = "print" := rfl
  rw [globals, globalSymbol, List.find?_cons, List.find?_map, hprint]
  by_cases hname : name = "print"
  · simp [hname]
  · have hunseen : name ∉ ([] : List String) := List.not_mem_nil
    have hdefinitions := find?_firstDefinitions hunseen p.definitions
    simp only [hname, Ne.symm hname, decide_false, if_false]
    exact congrArg _ hdefinitions

end Program

variable {p : Program} {s : State}

/-- No name has two symbols. -/
theorem nodup_globals (hlegal : p.Legal) : (p.globals.map (·.name)).Nodup := by
  obtain ⟨hnodup, -⟩ := nodup_firstDefinitions [] p.definitions
  rw [Program.globals, List.map_cons, List.map_map, List.nodup_cons]
  refine ⟨fun hprint => ?_, hnodup⟩
  obtain ⟨d, hd, hname⟩ := List.mem_map.mp hprint
  exact (hlegal d (firstDefinitions_subset _ _ hd)).name.ne_print hname

namespace Analysis

/-- Declaring functions binds the symbols of first definitions, and reports the other ones. -/
theorem declareFrom_eq {definitions : List Definition} {seen : List String} {symbols : List Symbol}
    (htable : s.table = .ofSymbols symbols)
    (hfree : ∀ d ∈ definitions, d.name ∉ seen → ∀ symbol ∈ symbols, symbol.name ≠ d.name) :
    (declareFrom seen s definitions).1.table =
        .ofSymbols (symbols ++ (firstDefinitions seen definitions).map functionSymbol) ∧
      (declareFrom seen s definitions).1.issues = s.issues ++
        ((repeated seen (definitions.map (·.name))).map .duplicateFunction ++
          if "main" ∈ seen ∨ "main" ∈ definitions.map (·.name) then [] else [.missingMain]) := by
  induction definitions generalizing s seen symbols with
  | nil =>
    rw [declareFrom]
    by_cases hmain : "main" ∈ seen <;>
      simp [hmain, htable, firstDefinitions, repeated, State.report]
  | cons d definitions ih =>
    rw [declareFrom, firstDefinitions, List.map_cons, repeated]
    by_cases hseen : d.name ∈ seen
    · have hmain : "main" ∈ seen ∨ "main" ∈ d.name :: definitions.map (·.name) ↔
          "main" ∈ seen ∨ "main" ∈ definitions.map (·.name) := by grind
      obtain ⟨htables, hissues⟩ := @ih (s.report [.duplicateFunction d.name]) seen symbols htable
        fun e he => hfree e (by simp [he])
      simp only [List.contains_iff_mem, hseen, if_true]
      refine ⟨htables, ?_⟩
      simp only [hissues, hmain, issues_report, List.map_cons, List.append_assoc, List.cons_append,
        List.nil_append]
    · have hmain : "main" ∈ seen ∨ "main" ∈ d.name :: definitions.map (·.name) ↔
          "main" ∈ d.name :: seen ∨ "main" ∈ definitions.map (·.name) := by grind
      have hbind : s.table.bind d.name (functionSymbol d) =
          .ok (.ofSymbols (symbols ++ [functionSymbol d])) := by
        rw [htable]
        exact @SymbolTable.bind_ofSymbols symbols (functionSymbol d) (hfree d (by simp) hseen)
      have hothers : ∀ e ∈ definitions, e.name ∉ d.name :: seen →
          ∀ symbol ∈ symbols ++ [functionSymbol d], symbol.name ≠ e.name := by
        intro e he hnew
        rw [List.mem_cons, not_or] at hnew
        rw [List.forall_mem_append, List.forall_mem_singleton]
        exact ⟨hfree e (by simp [he]) hnew.2, Ne.symm hnew.1⟩
      obtain ⟨htables, hissues⟩ :=
        @ih { s with table := .ofSymbols (symbols ++ [functionSymbol d]) } (d.name :: seen) _ rfl
          hothers
      simp only [List.contains_iff_mem, hseen, if_false, hbind]
      refine ⟨?_, ?_⟩
      · rw [htables, List.map_cons, List.append_assoc, List.singleton_append]
      · simp only [hissues, hmain]

/-- The functions of a program are declared in one scope. -/
theorem declare_eq (hlegal : p.Legal) (hdeclare : declare {} p = (s, none)) :
    s.table = .ofSymbols p.globals ∧ s.issues = p.declarationIssues := by
  have hprint : ({} : State).table.bind printSymbol.name printSymbol =
      .ok (.ofSymbols [printSymbol]) := rfl
  have hfree : ∀ d ∈ p.definitions, d.name ∉ [] →
      ∀ symbol ∈ [printSymbol], symbol.name ≠ d.name := by
    intro d hd _ symbol hsymbol
    obtain rfl := List.mem_singleton.mp hsymbol
    exact (hlegal d hd).name.ne_print.symm
  obtain ⟨htable, hissues⟩ := @declareFrom_eq { table := .ofSymbols [printSymbol] } p.definitions []
    [printSymbol] rfl hfree
  rw [declare, hprint] at hdeclare
  simp only [hdeclare] at htable hissues
  exact ⟨htable, by simpa [Program.declarationIssues] using hissues⟩

end Analysis

end Klein
