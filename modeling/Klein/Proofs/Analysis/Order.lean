import Klein.Proofs.Analysis.Outcome
import Klein.Proofs.Analysis.Soundness

namespace Klein

open Analysis

/-- Among definitions with different names one is found by its name in any order. -/
theorem find?_name_of_perm {order definitions : List Definition}
    (horder : order.Perm definitions) (hnames : (definitions.map (·.name)).Nodup) (name : String) :
    order.find? (·.name = name) = definitions.find? (·.name = name) := by
  induction horder with
  | nil => rfl
  | cons d _ ih => rw [List.find?_cons, List.find?_cons, ih (List.nodup_cons.mp hnames).2]
  | swap d e definitions =>
    have hne : e.name ≠ d.name := by
      rintro hsame
      simp [hsame] at hnames
    by_cases hd : d.name = name
    · have he : e.name ≠ name := hd ▸ hne
      simp [hd, he]
    · simp [List.find?_cons, hd]
  | trans _ hsecond ihFirst ihSecond =>
    rw [ihFirst ((hsecond.map (·.name)).nodup_iff.mpr hnames), ihSecond hnames]

namespace Program

variable {p q : Program} (horder : q.definitions.Perm p.definitions)
  (hnames : (p.definitions.map (·.name)).Nodup)
include horder hnames

theorem nodup_of_perm : (q.definitions.map (·.name)).Nodup :=
  (horder.map (·.name)).nodup_iff.mpr hnames

theorem globalSymbol_of_perm (name : String) : q.globalSymbol name = p.globalSymbol name := by
  rw [globalSymbol, find?_name_of_perm horder hnames, globalSymbol]

theorem globals_of_perm : q.globals.Perm p.globals := by
  -- with different names every definition is the first of its name
  rw [globals, globals, firstDefinitions_eq_self hnames (by simp),
    firstDefinitions_eq_self (nodup_of_perm horder hnames) (by simp)]
  exact (horder.map functionSymbol).cons printSymbol

theorem declarationIssues_of_perm : q.declarationIssues = p.declarationIssues := by
  have hmain : "main" ∈ q.definitions.map (·.name) ↔ "main" ∈ p.definitions.map (·.name) :=
    (horder.map (·.name)).mem_iff
  simp only [declarationIssues, hmain, repeated_eq_nil hnames fun _ _ => List.not_mem_nil,
    repeated_eq_nil (nodup_of_perm horder hnames) fun _ _ => List.not_mem_nil]

theorem checkedBody_of_perm : q.checkedBody = p.checkedBody := by
  funext d
  have henv : q.envIn d = p.envIn d := by
    simp only [envIn, globalSymbol_of_perm horder hnames]
  rw [checkedBody, henv, checkedBody]

theorem annotated_of_perm : q.annotated = p.annotated := by
  funext d
  rw [annotated, checkedBody_of_perm horder hnames, annotated]

theorem issuesIn_of_perm : q.issuesIn = p.issuesIn := by
  funext d
  rw [issuesIn, checkedBody_of_perm horder hnames, issuesIn]

theorem callsOf_of_perm : q.callsOf = p.callsOf := by
  funext name
  refine sortedNames_congr fun callee => ?_
  simp only [List.mem_flatMap, List.mem_filter, horder.mem_iff, callsIn,
    checkedBody_of_perm horder hnames]

theorem callersOf_of_perm : q.callersOf = p.callersOf := by
  funext name
  refine sortedNames_congr fun caller => ?_
  simp only [List.mem_map, List.mem_filter, (globals_of_perm horder hnames).mem_iff,
    callsOf_of_perm horder hnames]

theorem finalSymbols_of_perm : q.finalSymbols.Perm p.finalSymbols := by
  rw [finalSymbols, callsOf_of_perm horder hnames, callersOf_of_perm horder hnames]
  exact (globals_of_perm horder hnames).map _

end Program

namespace Analysis

/-- Definitions with different names may stand in any order. The analysis finds the same issues,
    with the same decision in the end, gives the nodes of each definition the same annotations, and
    knows the same of each function. -/
theorem analyze_of_perm {text : String} {p q : Program} (hparse : parse text = .ok p)
    (hnames : (p.definitions.map (·.name)).Nodup) (horder : q.definitions.Perm p.definitions) :
    (analyze q).state.issues.Perm (analyze p).state.issues ∧
      (analyze q).error = (analyze p).error ∧
      (q.definitions.zip (analyze q).program.definitions).Perm
        (p.definitions.zip (analyze p).program.definitions) ∧
      ∀ name, (analyze q).state.table.lookup name = (analyze p).state.table.lookup name := by
  have hlegal := Parser.legal_of_parse hparse
  have hlegalOrder : q.Legal := fun d hd => hlegal d (horder.mem_iff.mp hd)
  obtain ⟨hprogram, hissues, htable, herror⟩ := analyze_eq hlegal
  obtain ⟨hprogramOrder, hissuesOrder, htableOrder, herrorOrder⟩ := analyze_eq hlegalOrder
  have hperm : (analyze q).state.issues.Perm (analyze p).state.issues := by
    rw [hissuesOrder, hissues, Program.declarationIssues_of_perm horder hnames,
      Program.issuesIn_of_perm horder hnames]
    refine ((horder.flatMap_right _).append_left _).append ?_
    rw [unusedFunctions, unusedFunctions, SymbolTable.symbols_ofSymbols,
      SymbolTable.symbols_ofSymbols]
    exact (Program.finalSymbols_of_perm horder hnames).filterMap _
  refine ⟨hperm, ?_, ?_, fun name => ?_⟩
  · have hcount : errorCount (analyze q).state.issues = errorCount (analyze p).state.issues :=
      hperm.countP_eq _
    rw [herrorOrder, herror, hcount]
  · rw [hprogramOrder, hprogram, Program.annotated_of_perm horder hnames]
    have hzip : ∀ definitions : List Definition, definitions.zip (definitions.map p.annotated) =
        definitions.map fun d => (d, p.annotated d) := by
      intro definitions
      simpa using @List.zip_map' _ _ _ id p.annotated definitions
    rw [hzip, hzip]
    exact horder.map _
  · rw [htableOrder, htable, Program.finalSymbols, Program.finalSymbols, lookup_symbolsWith,
      lookup_symbolsWith, Program.globalSymbol_of_perm horder hnames,
      Program.callsOf_of_perm horder hnames, Program.callersOf_of_perm horder hnames]

/-- Functions that call one another, with four errors, in the reverse order. -/
theorem analyze_of_perm_reverse :
    ∃ p, parse "function main():integer even(1) function even(n:integer):boolean odd(n)
        function odd(n:integer):boolean even(m)" = .ok p ∧
      (p.definitions.map (·.name)).Nodup ∧
      (analyze ⟨p.definitions.reverse⟩).state.issues.Perm (analyze p).state.issues ∧
      (analyze ⟨p.definitions.reverse⟩).error = some (.issues 4) ∧
      ∀ name, (analyze ⟨p.definitions.reverse⟩).state.table.lookup name =
        (analyze p).state.table.lookup name := by
  have hanalysed : ∃ p,
      parse "function main():integer even(1) function even(n:integer):boolean odd(n)
        function odd(n:integer):boolean even(m)" = .ok p ∧
      (p.definitions.map (·.name)).Nodup ∧ (analyze p).error = some (.issues 4) := by
    apply exists_ok_of_any
    decide +kernel
  obtain ⟨p, hparse, hnames, herror⟩ := hanalysed
  obtain ⟨hissues, hsame, -, hsymbols⟩ :=
    analyze_of_perm hparse hnames (q := ⟨p.definitions.reverse⟩) (List.reverse_perm _)
  exact ⟨p, hparse, hnames, hissues, hsame.trans herror, hsymbols⟩

end Analysis

end Klein
