import Klein.Proofs.Analysis.Scopes
import Klein.Proofs.Parser.Acceptance

namespace Klein

namespace Analysis

variable {p : Program} {s : State} {d : Definition}

/-- A state in which no error has been reported. -/
def State.Clean (s : State) : Prop :=
  ∀ issue ∈ s.issues, issue.isError = false

@[simp]
theorem issues_addUsed (s : State) (names : List String) : (s.addUsed names).issues = s.issues :=
  rfl

@[simp]
theorem issues_addCalls (s : State) (calls : List String) :
    (s.addCalls calls).issues = s.issues := by
  unfold State.addCalls
  split
  · rfl
  · split <;> rfl

@[simp]
theorem issues_report (s : State) (issues : List Issue) :
    (s.report issues).issues = s.issues ++ issues := rfl

/-- What checking the parameters of a definition comes to, in a scope of their own. -/
def parametersOutcome (s : State) (d : Definition) : Outcome (List Parameter) :=
  checkParametersFrom [] { s with place := some d.name, table := s.table.enter } d.parameters.items

/-- The state in which the body of a definition is checked. -/
def State.inside (s : State) (d : Definition) : State :=
  { (parametersOutcome s d).state with
    table := (parametersOutcome s d).state.table.enter
    context := some
      { caller := .function d.name, parameters := d.parameters.items.map (·.name) } }

def bodyOutcome (s : State) (d : Definition) : Checked Body :=
  checkBody (s.inside d).env d.body

/-- What checking a definition comes to if there is no fault. The scopes of its parameters and its
    body are left again, and calls are noted afterwards. -/
theorem checkDefinition_of_no_fault (hfault : (checkDefinition s d).fault = none) :
    (parametersOutcome s d).fault = none ∧ (bodyOutcome s d).findings.fault = none ∧
      (checkDefinition s d).tree.body = (bodyOutcome s d).tree ∧
      (checkDefinition s d).tree.returnType.base = d.returnType.base ∧
      (∃ left : State, left.table = (s.inside d).table.leave.leave ∧
        (checkDefinition s d).state.table =
          (left.addCalls (bodyOutcome s d).findings.calls).table) ∧
      ∃ unused : List Issue, (∀ issue ∈ unused, issue.isError = false) ∧
        (checkDefinition s d).state.issues = (s.inside d).issues ++
          (bodyOutcome s d).findings.issues ++ unused ++
          if (bodyOutcome s d).type.agrees d.returnType.base.ty then []
          else [.wrongResult d.name d.returnType.base.ty (bodyOutcome s d).type] := by
  unfold checkDefinition at hfault ⊢
  split at hfault
  · cases hfault
  rename_i hbound
  rw [if_neg hbound]
  dsimp only at hfault ⊢
  split at hfault
  · cases hfault
  rename_i hparameters
  split at hfault
  · cases hfault
  rename_i hbody
  refine ⟨hparameters, hbody, rfl, rfl, ⟨_, rfl, rfl⟩, ?_⟩
  rw [issues_report, issues_addCalls, issues_addUsed, issues_report, issues_report]
  refine ⟨_, ?_, rfl⟩
  intro issue hissue
  obtain ⟨name, -, rfl⟩ := List.mem_map.mp hissue
  rfl

/-- Leaving a definition leaves the scopes as they were, and issues are only added. -/
theorem inside_keeps (hfault : (parametersOutcome s d).fault = none) :
    (s.inside d).table.leave.leave = s.table ∧ s.issues ⊆ (s.inside d).issues :=
  checkParametersFrom_keeps hfault

/-- Inside a definition names stand for its parameters, and else for what they stood for. -/
theorem lookup_inside (hfault : (parametersOutcome s d).fault = none) (name : String) :
    (s.inside d).table.lookup name =
      ((d.parameters.items.find? (·.name = name)).map parameterSymbol).or
        (s.table.lookup name) := by
  have hlookup := lookup_checkParametersFrom hfault name
  rw [SymbolTable.lookup_enter] at hlookup
  exact (SymbolTable.lookup_enter _ name).trans (hlookup.trans (if_neg List.not_mem_nil))

/-- Inside a definition names resolve to its parameters and to the functions of the program. -/
theorem explains_inside (htable : (p.declares []).Explains s.table.lookup)
    (hfault : (parametersOutcome s d).fault = none) :
    (p.declaredIn d).Explains (s.inside d).env.resolve := by
  intro name symbol hname
  have hinside : (s.inside d).table.lookup name = some symbol := hname
  rw [lookup_inside hfault] at hinside
  cases hparameter : d.parameters.items.find? (·.name = name) with
  | some parameter =>
    rw [hparameter] at hinside
    obtain rfl : parameterSymbol parameter = symbol := Option.some.inj hinside
    refine .inl ⟨parameter.type.base, ?_, rfl⟩
    simp [Program.declaredIn, Program.declares, hparameter]
  | none =>
    rw [hparameter] at hinside
    rcases htable name symbol hinside with ⟨t, ht, -⟩ | hother
    · cases ht
    · exact .inr hother

/-- Names stand for symbols of the same types before and after a definition. -/
theorem typeOf_checkDefinition (hfault : (checkDefinition s d).fault = none) (name : String) :
    (checkDefinition s d).state.table.typeOf name = s.table.typeOf name := by
  obtain ⟨hparameters, -, -, -, ⟨left, hleft, hafter⟩, -⟩ := checkDefinition_of_no_fault hfault
  rw [hafter, typeOf_addCalls, hleft, (inside_keeps hparameters).1]

/-- A definition that is checked without an error meets all its demands, and the state before it
    had no error either. -/
theorem checkDefinition_met (htable : (p.declares []).Explains s.table.lookup) (hlegal : d.Legal)
    (hfault : (checkDefinition s d).fault = none) (hclean : (checkDefinition s d).state.Clean) :
    s.Clean ∧ ∀ demand ∈ (checkDefinition s d).tree.demands (p.declaredIn d),
      demand.Met (p.declaredIn d) := by
  obtain ⟨hparameters, hnone, hbody, hreturn, -, unused, -, hissues⟩ :=
    checkDefinition_of_no_fault hfault
  have henv := explains_inside htable hparameters
  obtain ⟨-, hsub⟩ := inside_keeps hparameters
  rw [State.Clean, hissues] at hclean
  have hfindings : (bodyOutcome s d).findings.Clean :=
    ⟨hnone, fun issue hissue => hclean issue (by simp [hissue])⟩
  obtain ⟨htyped, hprints⟩ := checkBody_typed henv hlegal.body hfindings
  -- a body of another type would have been reported
  have hresult : (bodyOutcome s d).type = d.returnType.base.ty := by
    by_contra hwrong
    have hdiffer := mt Ty.agrees_ty.mp hwrong
    have herror := hclean (.wrongResult d.name d.returnType.base.ty (bodyOutcome s d).type)
      (by simp [hdiffer])
    cases herror
  have htyped : Typed (p.declaredIn d) (bodyOutcome s d).tree.result d.returnType.base.ty :=
    hresult ▸ htyped
  refine ⟨fun issue hissue => hclean issue (by simp [hsub hissue]), ?_⟩
  rw [Definition.demands, hbody, hreturn]
  intro demand hdemand
  rcases List.mem_append.mp hdemand with hprint | hvalue
  · obtain ⟨c, hc, hmem⟩ := List.mem_flatMap.mp hprint
    obtain ⟨tag, value, type, hitems, hvalue⟩ := hprints c hc
    rw [hitems, Arguments.demands, Arguments.demands, List.append_nil] at hmem
    exact hvalue.demands_met demand hmem
  · rcases List.mem_cons.mp hvalue with rfl | hinner
    · exact htyped.met
    · exact htyped.demands_met demand hinner

/-- Definitions that are checked without an error meet all their demands, each by the names that
    are declared in it. -/
theorem checkDefinitions_met {definitions : List Definition}
    (htable : (p.declares []).Explains s.table.lookup) (hlegal : ∀ d ∈ definitions, d.Legal)
    (hfault : (checkDefinitions s definitions).fault = none)
    (hclean : (checkDefinitions s definitions).state.Clean) :
    s.Clean ∧ ∀ checked ∈ (checkDefinitions s definitions).tree, ∃ d : Definition,
      checked.bare = d.bare ∧
        ∀ demand ∈ checked.demands (p.declaredIn d), demand.Met (p.declaredIn d) := by
  induction definitions generalizing s with
  | nil => exact ⟨hclean, by simp [checkDefinitions]⟩
  | cons d definitions ih =>
    rw [checkDefinitions] at hfault hclean ⊢
    dsimp only at hfault hclean ⊢
    split at hfault
    · cases hfault
    · rename_i hnone
      simp only [hnone] at hclean ⊢
      have hafter := htable.of_types (typeOf_checkDefinition hnone)
      obtain ⟨hfirst, hrest⟩ := ih hafter (fun other hother => hlegal other (by simp [hother]))
        hfault hclean
      obtain ⟨hbefore, hmet⟩ := checkDefinition_met htable (hlegal d (by simp)) hnone hfirst
      refine ⟨hbefore, ?_⟩
      rintro checked (_ | ⟨_, hchecked⟩)
      · exact ⟨d, checkDefinition_bare s d, hmet⟩
      · exact hrest checked hchecked

/-- What is declared in a definition does not depend on annotations. -/
theorem declaredIn_bare (p : Program) (d : Definition) :
    p.bare.declaredIn d.bare = p.declaredIn d := by
  have hsignature : ∀ d : Definition, d.bare.signature = d.signature := by
    intro d
    simp [Definition.signature, Definition.bare, ParameterList.bare, Parameter.bare, TypeNode.bare]
  simp only [Program.declaredIn, Program.declares, Declared.mk.injEq]
  constructor
  · funext name
    simp only [Definition.bare, ParameterList.bare, List.find?_map, Option.map_map]
    rfl
  · funext name
    simp only [Program.bare, List.find?_map, Option.map_map, Function.comp_def, hsignature]
    rfl

/-- What an analysis without an error has gone through. -/
theorem analyze_of_ok (hok : (analyze p).error = none) :
    ∃ s, declare {} p = (s, none) ∧ (checkDefinitions s p.definitions).fault = none ∧
      (checkDefinitions s p.definitions).state.Clean ∧
      (analyze p).program = ⟨(checkDefinitions s p.definitions).tree⟩ ∧
      (analyze p).state.table =
        (checkDefinitions s p.definitions).state.table.updateCallers.1 := by
  unfold analyze at hok ⊢
  split at hok
  · cases hok
  · rename_i s hdeclare
    refine ⟨s, hdeclare, ?_⟩
    dsimp only at hok ⊢
    split at hok
    · cases hok
    · rename_i hfault
      split at hok
      · cases hok
      · rename_i table hcallers
        refine ⟨hfault, ?_, rfl, by rw [hcallers]; rfl⟩
        split at hok
        · rename_i hcount
          intro issue hissue
          have hnone := List.countP_eq_zero.mp hcount issue (by simp [hissue])
          simpa using hnone
        · cases hok

/-- In a program that is parsed and analysed without an error, every expression that stands where a
    type is wanted is annotated with that type and may have it. It has no other possible type if
    and only if no union was lost among its branches. -/
theorem possible_eq_iff_settled {text : String} {p : Program} (hparse : parse text = .ok p)
    (hok : (analyze p).error = none) :
    (analyze p).program.bare = p.bare ∧
      ∀ d ∈ (analyze p).program.definitions,
        ∀ demand ∈ d.demands ((analyze p).program.declaredIn d),
          ∃ t, demand.wanted = some t ∧ demand.value.tag = some t.ty ∧
            t ∈ ((analyze p).program.declaredIn d).possible demand.value ∧
            (((analyze p).program.declaredIn d).possible demand.value = {t} ↔
              demand.value.Settled) := by
  refine ⟨analyze_bare p, ?_⟩
  -- the demands are met by the names of the parsed program, which are those of the analysed one
  obtain ⟨s, hdeclare, hfault, hclean, hprogram, -⟩ := analyze_of_ok hok
  obtain ⟨-, hmet⟩ := checkDefinitions_met (explains_declare hdeclare)
    (Parser.legal_of_parse hparse) hfault hclean
  have hbare := analyze_bare p
  rw [hprogram] at hbare ⊢
  intro checked hchecked
  obtain ⟨d, hsame, hdemands⟩ := hmet checked hchecked
  have hnames : Program.declaredIn ⟨(checkDefinitions s p.definitions).tree⟩ checked =
      p.declaredIn d := by
    rw [← declaredIn_bare, hbare, hsame, declaredIn_bare]
  rw [hnames]
  exact hdemands

/-- A result with a property that can be found by evaluation. -/
theorem exists_ok_of_any {ε α : Type} {result : Except ε α} {P : α → Prop} [DecidablePred P]
    (hany : result.toOption.any (fun a => decide (P a)) = true) : ∃ a, result = .ok a ∧ P a := by
  cases result with
  | error e => cases hany
  | ok a => exact ⟨a, rfl, of_decide_eq_true hany⟩

theorem ok_of_toOption {ε α : Type} {result : Except ε α} {a : α}
    (h : result.toOption = some a) : result = .ok a := by
  cases result with
  | error e => cases h
  | ok b =>
    cases h
    rfl

/-- The condition, the operand and the result of this program are settled. -/
theorem possible_eq_iff_settled_operand :
    ∃ p, parse "function main(c:boolean):integer -if c then 1 else if c then 2 else 3" = .ok p ∧
      (analyze p).error = none ∧
      ∀ d ∈ (analyze p).program.definitions,
        ∀ demand ∈ d.demands ((analyze p).program.declaredIn d),
          ∃ t, demand.wanted = some t ∧
            (((analyze p).program.declaredIn d).possible demand.value = {t} ↔
              demand.value.Settled) := by
  have hanalysed : ∃ p,
      parse "function main(c:boolean):integer -if c then 1 else if c then 2 else 3" = .ok p ∧
        (analyze p).error = none := by
    apply exists_ok_of_any
    decide +kernel
  obtain ⟨p, hparse, hok⟩ := hanalysed
  refine ⟨p, hparse, hok, fun d hd demand hdemand => ?_⟩
  obtain ⟨t, hwanted, -, -, hiff⟩ := (possible_eq_iff_settled hparse hok).2 d hd demand hdemand
  exact ⟨t, hwanted, hiff⟩

/-- The inner conditional may be an integer or a boolean, and its union is lost in the outer one. -/
theorem analyze_loses_union :
    ∃ p, parse "function main(c:boolean):integer if c then 1 else if c then 2 else true" = .ok p ∧
      (analyze p).error = none ∧
      ∃ d ∈ (analyze p).program.definitions,
        ∃ demand ∈ d.demands ((analyze p).program.declaredIn d),
          demand.wanted = some .integer ∧
            ((analyze p).program.declaredIn d).possible demand.value ≠ {.integer} := by
  apply exists_ok_of_any
  decide +kernel

end Analysis

end Klein
