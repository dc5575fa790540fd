import Klein.Proofs.Grammar.Language

theorem Klein.Kind.mem_all (k : Kind) : k ∈ Kind.all := by
  cases k <;> decide

namespace Klein.Grammar

/-- Every rule of the table is an alternative of its nonterminal. -/
theorem mem_productions_of_rules {n : Nonterminal} {k : Kind} {rule : List Item}
    (hrule : rules n k = some rule) : rule ∈ productions n := by
  have htable : ∀ n ∈ Nonterminal.all, ∀ k ∈ Kind.all, ∀ rule ∈ rules n k,
      rule ∈ productions n := by
    decide +kernel
  exact htable n n.mem_all k k.mem_all rule hrule

/-- The table leads from a stack of symbols to the end of some kinds of token. -/
inductive Accepts : List (SententialSymbol Kind Nonterminal) → List Kind → Prop
  | nil : Accepts [] []
  | terminal {k u w} : Accepts u w → Accepts (.terminal k :: u) (k :: w)
  | nonterminal {n k rule u w} : rules n k = some rule → Accepts (erase rule ++ u) (k :: w) →
      Accepts (.nonterminal n :: u) (k :: w)

/-- The symbols that wait for the operators behind a factor. -/
def rests (u : List (SententialSymbol Kind Nonterminal)) :
    List (SententialSymbol Kind Nonterminal) :=
  .nonterminal .termRest :: .nonterminal .simpleExpressionRest :: .nonterminal .expressionRest :: u

/-- The kinds before which no operator can continue an expression. -/
def closers : List Kind :=
  [.keywordThen, .keywordElse, .keywordFunction, .rightParen, .comma, .endOfFile]

/-- The symbols below a definition. -/
def afterDefinition : List (SententialSymbol Kind Nonterminal) :=
  [.nonterminal .definitionList, .terminal .endOfFile]

variable {u : List (SententialSymbol Kind Nonterminal)} {k : Kind} {w x : List Kind}

theorem Accepts.rests_of_closer (hk : k ∈ closers) (h : Accepts u (k :: w)) :
    Accepts (rests u) (k :: w) := by
  simp only [closers, List.mem_cons, List.not_mem_nil, or_false] at hk
  rcases hk with rfl | rfl | rfl | rfl | rfl | rfl <;>
    exact .nonterminal rfl (.nonterminal rfl (.nonterminal rfl h))

private theorem expressionRest_rules {rule : List Item}
    (hrule : rules .expressionRest k = some rule) :
    rule = [] ∧ k ∈ closers ∨
      ∃ a, rule = [.token k, .nonterminal .simpleExpression, .action a,
        .nonterminal .expressionRest] := by
  cases k with
  | keywordThen | keywordElse | keywordFunction | rightParen | comma | endOfFile =>
    cases hrule
    exact .inl ⟨rfl, by decide⟩
  | lessThan | equal =>
    cases hrule
    exact .inr ⟨_, rfl⟩
  | _ => cases hrule

/-- What the operators behind an enclosing factor match is matched as well if the operators behind
    an inner one are tried first: these take as much as they can and leave nothing. -/
theorem Accepts.absorb {a : List (SententialSymbol Kind Nonterminal)}
    (h : Accepts (a ++ .nonterminal .expressionRest :: u) w) :
    Accepts (a ++ .nonterminal .expressionRest :: rests u) w := by
  -- by induction on what the table does, whatever stands above the symbol in question
  generalize hstack : a ++ .nonterminal .expressionRest :: u = stack at h
  induction h generalizing a with
  | nil => simp at hstack
  | @terminal k v w h ih =>
    cases a with
    | nil => cases hstack
    | cons s a =>
      injection hstack with hs hstack
      subst hs
      exact .terminal (ih hstack)
  | @nonterminal n k rule v w hrule h ih =>
    cases a with
    | cons s a =>
      injection hstack with hs hstack
      subst hs hstack
      rw [List.cons_append]
      exact .nonterminal hrule (by simpa using ih (a := erase rule ++ a) (by simp))
    | nil =>
      injection hstack with hn hstack
      injection hn with hn
      subst hn hstack
      refine .nonterminal hrule ?_
      -- either nothing is left of the enclosing operators, or an operand comes on top
      rcases expressionRest_rules hrule with ⟨rfl, hk⟩ | ⟨action, rfl⟩
      · exact .rests_of_closer hk h
      · exact ih (a := [.terminal k, .nonterminal .simpleExpression]) rfl

/-- Where a factor can start, the rules of all looser levels lead to it. -/
private theorem levels_of_factor {rule : List Item} (hrule : rules .factor k = some rule) :
    rules .expression k = some [.nonterminal .simpleExpression, .nonterminal .expressionRest] ∧
      rules .simpleExpression k = some [.nonterminal .term, .nonterminal .simpleExpressionRest] ∧
      rules .term k = some [.nonterminal .factor, .nonterminal .termRest] := by
  cases k with
  | integer | boolean | identifier | leftParen | minus | keywordIf | keywordNot =>
    exact ⟨rfl, rfl, rfl⟩
  | _ => cases hrule

theorem Accepts.expression_of_factor (h : Accepts (.nonterminal .factor :: rests u) w) :
    Accepts (.nonterminal .expression :: u) w := by
  cases h with
  | @nonterminal _ k rule _ w hrule h =>
    obtain ⟨hexpression, hsimple, hterm⟩ := levels_of_factor hrule
    exact .nonterminal hexpression
      (.nonterminal hsimple (.nonterminal hterm (.nonterminal hrule h)))

/-- The table foresees a word of a nonterminal: whatever can follow the nonterminal in a
    derivation, if the table leads through what follows, it leads through the word before. What
    follows an expression are the symbols that wait for operators, which may stem from a factor
    around it. -/
def Foresees : Nonterminal → List Kind → Prop
  | .program, w => Accepts [.nonterminal .program, .terminal .endOfFile] (w ++ [.endOfFile])
  | .definitionList, w => Accepts afterDefinition (w ++ [.endOfFile])
  | .definition, w =>
    ∀ x, Accepts afterDefinition x → Accepts (.nonterminal .definition :: afterDefinition) (w ++ x)
  | .body, w =>
    ∀ x, Accepts afterDefinition x → Accepts (.nonterminal .body :: afterDefinition) (w ++ x)
  | .idWithType, w => ∀ u x, Accepts u x → Accepts (.nonterminal .idWithType :: u) (w ++ x)
  | .typeName, w => ∀ u x, Accepts u x → Accepts (.nonterminal .typeName :: u) (w ++ x)
  | .printExpression, w =>
    ∀ u x, Accepts u x → Accepts (.nonterminal .printExpression :: u) (w ++ x)
  | .literal, w => ∀ u x, Accepts u x → Accepts (.nonterminal .literal :: u) (w ++ x)
  | .expression, w | .simpleExpression, w | .term, w | .factor, w =>
    ∀ u x, Accepts (rests u) x → Accepts (.nonterminal .factor :: rests u) (w ++ x)
  | .expressionRest, w | .simpleExpressionRest, w | .termRest, w =>
    ∀ u x, Accepts (rests u) x → Accepts (rests u) (w ++ x)
  | .factorRest, w =>
    ∀ u x, Accepts (rests u) x → Accepts (.nonterminal .factorRest :: rests u) (w ++ x)
  | n, w =>
    ∀ u x, Accepts u (.rightParen :: x) → Accepts (.nonterminal n :: u) (w ++ .rightParen :: x)

/-- The table foresees the words of all nonterminals of a sentential form. -/
def ForeseesAll : List (SententialSymbol Kind Nonterminal) → List Kind → Prop
  | [], w => w = []
  | .terminal k :: u, w => ∃ x, w = k :: x ∧ ForeseesAll u x
  | .nonterminal n :: u, w => ∃ v x, w = v ++ x ∧ Foresees n v ∧ ForeseesAll u x

theorem Foresees.before_closer (h : Foresees .expression w) (hk : k ∈ closers)
    (hx : Accepts u (k :: x)) : Accepts (.nonterminal .expression :: u) (w ++ k :: x) :=
  .expression_of_factor (h u _ (.rests_of_closer hk hx))

/-- A factor behind an operator of any level is matched by the symbols that wait for operators. -/
theorem Accepts.operator (hk : k ∈ [Kind.times, .divide, .keywordAnd, .plus, .minus, .keywordOr,
      .lessThan, .equal]) (h : Accepts (.nonterminal .factor :: rests u) w) :
    Accepts (rests u) (k :: w) := by
  cases h with
  | @nonterminal _ first rule _ w hrule h =>
    obtain ⟨-, hsimple, hterm⟩ := levels_of_factor hrule
    have hfactor : Accepts (.nonterminal .factor :: rests u) (first :: w) := .nonterminal hrule h
    simp only [List.mem_cons, List.not_mem_nil, or_false] at hk
    rcases hk with rfl | rfl | rfl | rfl | rfl | rfl | rfl | rfl
    · exact .nonterminal rfl (.terminal hfactor)
    · exact .nonterminal rfl (.terminal hfactor)
    · exact .nonterminal rfl (.terminal hfactor)
    · exact .nonterminal rfl (.nonterminal rfl (.terminal (.nonterminal hterm hfactor)))
    · exact .nonterminal rfl (.nonterminal rfl (.terminal (.nonterminal hterm hfactor)))
    · exact .nonterminal rfl (.nonterminal rfl (.terminal (.nonterminal hterm hfactor)))
    · exact .nonterminal rfl (.nonterminal rfl (.nonterminal rfl (.terminal
        (.nonterminal hsimple (.nonterminal hterm hfactor)))))
    · exact .nonterminal rfl (.nonterminal rfl (.nonterminal rfl (.terminal
        (.nonterminal hsimple (.nonterminal hterm hfactor)))))

/-- A rule that starts with a nonterminal is taken before every kind that this nonterminal has a
    rule for. -/
private theorem Accepts.through {m : Nonterminal} (n : Nonterminal) (rule : List Item)
    (hrules : ∀ k ∈ Kind.all, (rules n k).isSome = true → rules m k = some rule)
    (hfirst : (erase rule).head? = some (.nonterminal n)) (h : Accepts (erase rule ++ u) w) :
    Accepts (.nonterminal m :: u) w := by
  cases hstack : erase rule with
  | nil => simp [hstack] at hfirst
  | cons s stack =>
    obtain rfl : s = .nonterminal n := by simpa [hstack] using hfirst
    have haccepts := h
    rw [hstack] at haccepts
    cases haccepts with
    | @nonterminal _ k _ _ w hn _ =>
      exact .nonterminal (hrules k (Kind.mem_all k) (by simp [hn])) h

private theorem foresees_program {items : List Item} (hitems : items ∈ productions .program)
    (h : ForeseesAll (erase items) w) : Foresees .program w := by
  simp only [productions, List.mem_singleton] at hitems
  subst hitems
  obtain ⟨v, x, rfl, hlist, rfl⟩ := h
  rw [List.append_nil]
  exact .through .definitionList
    [.nonterminal .definitionList, .action .makeDefinitionList, .action .makeProgram] (by decide)
    rfl hlist

private theorem foresees_definitionList {items : List Item}
    (hitems : items ∈ productions .definitionList) (h : ForeseesAll (erase items) w) :
    Foresees .definitionList w := by
  simp only [productions, List.mem_cons, List.not_mem_nil, or_false] at hitems
  rcases hitems with rfl | rfl
  · obtain rfl : w = [] := h
    exact .nonterminal rfl (.terminal .nil)
  · obtain ⟨v, x, rfl, hdefinition, y, z, rfl, hlist, rfl⟩ := h
    have haccepts := hdefinition _ hlist
    simp only [Foresees, List.append_nil, List.append_assoc]
    exact .through .definition [.nonterminal .definition, .nonterminal .definitionList]
      (by decide) rfl haccepts

private theorem foresees_definition {items : List Item} (hitems : items ∈ productions .definition)
    (h : ForeseesAll (erase items) w) : Foresees .definition w := by
  simp only [productions, List.mem_singleton] at hitems
  subst hitems
  obtain ⟨_, rfl, _, rfl, _, rfl, parameters, _, rfl, hparameters, _, rfl, _, rfl, type, _, rfl,
    htype, body, _, rfl, hbody, rfl⟩ := h
  intro x hx
  simp only [List.append_nil, List.append_assoc, List.cons_append]
  exact .nonterminal rfl (.terminal (.terminal (.terminal (hparameters _ _
    (.terminal (.terminal (htype _ _ (hbody x hx))))))))

private theorem foresees_parameterList {items : List Item}
    (hitems : items ∈ productions .parameterList) (h : ForeseesAll (erase items) w) :
    Foresees .parameterList w := by
  intro u x hx
  simp only [productions, List.mem_cons, List.not_mem_nil, or_false] at hitems
  rcases hitems with rfl | rfl
  · obtain rfl : w = [] := h
    exact .nonterminal rfl hx
  · obtain ⟨v, _, rfl, hformal, rfl⟩ := h
    rw [List.append_nil]
    exact .through .formalParameters [.nonterminal .formalParameters] (by decide) rfl
      (hformal u x hx)

private theorem foresees_formalParameters {items : List Item}
    (hitems : items ∈ productions .formalParameters) (h : ForeseesAll (erase items) w) :
    Foresees .formalParameters w := by
  intro u x hx
  simp only [productions, List.mem_singleton] at hitems
  subst hitems
  obtain ⟨first, _, rfl, hfirst, rest, _, rfl, hrest, rfl⟩ := h
  simp only [List.append_nil, List.append_assoc]
  exact .through .idWithType [.nonterminal .idWithType, .nonterminal .formalParametersRest]
    (by decide) rfl (hfirst _ _ (hrest u x hx))

private theorem foresees_formalParametersRest {items : List Item}
    (hitems : items ∈ productions .formalParametersRest) (h : ForeseesAll (erase items) w) :
    Foresees .formalParametersRest w := by
  intro u x hx
  simp only [productions, List.mem_cons, List.not_mem_nil, or_false] at hitems
  rcases hitems with rfl | rfl
  · obtain ⟨_, rfl, first, _, rfl, hfirst, rest, _, rfl, hrest, rfl⟩ := h
    simp only [List.append_nil, List.append_assoc, List.cons_append]
    exact .nonterminal rfl (.terminal (hfirst _ _ (hrest u x hx)))
  · obtain rfl : w = [] := h
    exact .nonterminal rfl hx

private theorem foresees_idWithType {items : List Item} (hitems : items ∈ productions .idWithType)
    (h : ForeseesAll (erase items) w) : Foresees .idWithType w := by
  intro u x hx
  simp only [productions, List.mem_singleton] at hitems
  subst hitems
  obtain ⟨_, rfl, _, rfl, type, _, rfl, htype, rfl⟩ := h
  simp only [List.append_nil, List.cons_append]
  exact .nonterminal rfl (.terminal (.terminal (htype u x hx)))

private theorem foresees_typeName {items : List Item} (hitems : items ∈ productions .typeName)
    (h : ForeseesAll (erase items) w) : Foresees .typeName w := by
  intro u x hx
  simp only [productions, List.mem_cons, List.not_mem_nil, or_false] at hitems
  rcases hitems with rfl | rfl <;>
  · obtain ⟨_, rfl, rfl⟩ := h
    exact .nonterminal rfl (.terminal hx)

private theorem foresees_body {items : List Item} (hitems : items ∈ productions .body)
    (h : ForeseesAll (erase items) w) : Foresees .body w := by
  intro x hx
  simp only [productions, List.mem_cons, List.not_mem_nil, or_false] at hitems
  rcases hitems with rfl | rfl
  · obtain ⟨first, _, rfl, hfirst, rest, _, rfl, hrest, rfl⟩ := h
    simp only [List.append_nil, List.append_assoc]
    exact .through .printExpression [.nonterminal .printExpression, .nonterminal .body]
      (by decide) rfl (hfirst _ _ (hrest x hx))
  · obtain ⟨result, _, rfl, hresult, rfl⟩ := h
    rw [List.append_nil]
    cases hx with
    | @nonterminal _ k rule _ x hrule hx =>
      have hk : k ∈ closers := by
        cases k with
        | keywordFunction | endOfFile => decide
        | _ => cases hrule
      exact .through .expression [.nonterminal .expression, .action .makeBody] (by decide) rfl
        (hresult.before_closer hk (.nonterminal hrule hx))

private theorem foresees_printExpression {items : List Item}
    (hitems : items ∈ productions .printExpression) (h : ForeseesAll (erase items) w) :
    Foresees .printExpression w := by
  intro u x hx
  simp only [productions, List.mem_singleton] at hitems
  subst hitems
  obtain ⟨_, rfl, _, rfl, argument, _, rfl, hargument, _, rfl, rfl⟩ := h
  simp only [List.append_assoc, List.cons_append]
  exact .nonterminal rfl (.terminal (.terminal (hargument.before_closer (by decide)
    (.terminal hx))))

/-- An operator with its operand, and what is left after them. -/
private theorem foresees_operation {operand rest : Nonterminal} {a : Action}
    (hk : k ∈ [Kind.times, .divide, .keywordAnd, .plus, .minus, .keywordOr, .lessThan, .equal])
    (h : ForeseesAll (erase [.token k, .nonterminal operand, .action a, .nonterminal rest]) w)
    (hoperand : ∀ v, Foresees operand v → Foresees .factor v)
    (hrest : ∀ v, Foresees rest v → Foresees .termRest v) : Foresees .termRest w := by
  obtain ⟨_, rfl, first, _, rfl, hfirst, last, _, rfl, hlast, rfl⟩ := h
  intro u x hx
  simp only [List.append_nil, List.append_assoc, List.cons_append]
  exact .operator hk (hoperand _ hfirst u _ (hrest _ hlast u x hx))

private theorem foresees_nothing (h : ForeseesAll (erase []) w) : Foresees .termRest w := by
  obtain rfl : w = [] := h
  exact fun u x hx => hx

private theorem foresees_factor {items : List Item} (hitems : items ∈ productions .factor)
    (h : ForeseesAll (erase items) w) : Foresees .factor w := by
  intro u x hx
  simp only [productions, List.mem_cons, List.not_mem_nil, or_false] at hitems
  rcases hitems with rfl | rfl | rfl | rfl | rfl | rfl
  · obtain ⟨literal, _, rfl, hliteral, rfl⟩ := h
    rw [List.append_nil]
    exact .through .literal [.nonterminal .literal] (by decide) rfl (hliteral _ x hx)
  · obtain ⟨_, rfl, operand, _, rfl, hoperand, rfl⟩ := h
    simp only [List.append_nil, List.cons_append]
    exact .nonterminal rfl (.terminal (hoperand u x hx))
  · obtain ⟨_, rfl, operand, _, rfl, hoperand, rfl⟩ := h
    simp only [List.append_nil, List.cons_append]
    exact .nonterminal rfl (.terminal (hoperand u x hx))
  · obtain ⟨_, rfl, rest, _, rfl, hrest, rfl⟩ := h
    simp only [List.append_nil, List.cons_append]
    exact .nonterminal rfl (.terminal (hrest u x hx))
  · -- The last branch is not closed: it takes the operators that follow, which the symbols below
    -- would have matched after it.
    obtain ⟨_, rfl, condition, _, rfl, hcondition, _, rfl, consequent, _, rfl, hconsequent, _, rfl,
      alternative, _, rfl, halternative, rfl⟩ := h
    have habsorbed : Accepts (rests (rests u)) x :=
      hx.absorb (a := [.nonterminal .termRest, .nonterminal .simpleExpressionRest])
    have hlast := (halternative _ x habsorbed).expression_of_factor
    simp only [List.append_nil, List.append_assoc, List.cons_append]
    exact .nonterminal rfl (.terminal (hcondition.before_closer (by decide)
      (.terminal (hconsequent.before_closer (by decide) (.terminal hlast)))))
  · obtain ⟨_, rfl, inner, _, rfl, hinner, _, rfl, rfl⟩ := h
    simp only [List.append_assoc, List.cons_append]
    exact .nonterminal rfl (.terminal (hinner.before_closer (by decide) (.terminal hx)))

private theorem foresees_factorRest {items : List Item} (hitems : items ∈ productions .factorRest)
    (h : ForeseesAll (erase items) w) : Foresees .factorRest w := by
  intro u x hx
  simp only [productions, List.mem_cons, List.not_mem_nil, or_false] at hitems
  rcases hitems with rfl | rfl
  · obtain ⟨_, rfl, arguments, _, rfl, harguments, _, rfl, rfl⟩ := h
    simp only [List.append_assoc, List.cons_append]
    exact .nonterminal rfl (.terminal (harguments _ _ (.terminal hx)))
  · obtain rfl : w = [] := h
    cases hx with
    | @nonterminal _ k rule _ x hrule hx =>
      have hempty : rules .factorRest k = some [] := by
        cases k with
        | integer | boolean | identifier | leftParen | keywordInteger | keywordBoolean | keywordIf
        | keywordNot | keywordPrint | colon => cases hrule
        | _ => rfl
      exact .nonterminal hempty (.nonterminal hrule hx)

private theorem foresees_argumentList {items : List Item}
    (hitems : items ∈ productions .argumentList) (h : ForeseesAll (erase items) w) :
    Foresees .argumentList w := by
  intro u x hx
  simp only [productions, List.mem_cons, List.not_mem_nil, or_false] at hitems
  rcases hitems with rfl | rfl
  · obtain rfl : w = [] := h
    exact .nonterminal rfl hx
  · obtain ⟨v, _, rfl, hformal, rfl⟩ := h
    rw [List.append_nil]
    exact .through .formalArguments [.nonterminal .formalArguments] (by decide) rfl (hformal u x hx)

/-- Before further arguments no operator follows. -/
private theorem Foresees.before_arguments (h : Foresees .expression w)
    (hx : Accepts (.nonterminal .formalArgumentsRest :: u) x) :
    Accepts (.nonterminal .expression :: .nonterminal .formalArgumentsRest :: u) (w ++ x) := by
  cases hx with
  | @nonterminal _ k rule _ x hrule hx =>
    have hk : k ∈ closers := by
      cases k with
      | comma | rightParen => decide
      | _ => cases hrule
    exact h.before_closer hk (.nonterminal hrule hx)

private theorem foresees_formalArguments {items : List Item}
    (hitems : items ∈ productions .formalArguments) (h : ForeseesAll (erase items) w) :
    Foresees .formalArguments w := by
  intro u x hx
  simp only [productions, List.mem_singleton] at hitems
  subst hitems
  obtain ⟨first, _, rfl, hfirst, rest, _, rfl, hrest, rfl⟩ := h
  simp only [List.append_nil, List.append_assoc]
  exact .through .expression
    [.nonterminal .expression, .action .makeArgument, .nonterminal .formalArgumentsRest]
    (by decide) rfl (hfirst.before_arguments (hrest u x hx))

private theorem foresees_formalArgumentsRest {items : List Item}
    (hitems : items ∈ productions .formalArgumentsRest) (h : ForeseesAll (erase items) w) :
    Foresees .formalArgumentsRest w := by
  intro u x hx
  simp only [productions, List.mem_cons, List.not_mem_nil, or_false] at hitems
  rcases hitems with rfl | rfl
  · obtain ⟨_, rfl, first, _, rfl, hfirst, rest, _, rfl, hrest, rfl⟩ := h
    simp only [List.append_nil, List.append_assoc, List.cons_append]
    exact .nonterminal rfl (.terminal (hfirst.before_arguments (hrest u x hx)))
  · obtain rfl : w = [] := h
    exact .nonterminal rfl hx

/-- A nonterminal is foreseen if its parts are, for each alternative that it has. -/
theorem foresees_of_production {n : Nonterminal} {items : List Item}
    (hitems : items ∈ productions n) (h : ForeseesAll (erase items) w) : Foresees n w := by
  cases n with
  | program => exact foresees_program hitems h
  | definitionList => exact foresees_definitionList hitems h
  | definition => exact foresees_definition hitems h
  | parameterList => exact foresees_parameterList hitems h
  | formalParameters => exact foresees_formalParameters hitems h
  | formalParametersRest => exact foresees_formalParametersRest hitems h
  | idWithType => exact foresees_idWithType hitems h
  | typeName => exact foresees_typeName hitems h
  | body => exact foresees_body hitems h
  | printExpression => exact foresees_printExpression hitems h
  | expression | simpleExpression | term =>
    intro u x hx
    simp only [productions, List.mem_singleton] at hitems
    subst hitems
    obtain ⟨first, _, rfl, hfirst, rest, _, rfl, hrest, rfl⟩ := h
    simp only [List.append_nil, List.append_assoc]
    exact hfirst u _ (hrest u x hx)
  -- the three that wait for operators foresee the same, and so do their operands
  | expressionRest =>
    simp only [productions, List.mem_cons, List.not_mem_nil, or_false] at hitems
    rcases hitems with rfl | rfl | rfl
    · exact foresees_operation (by decide) h (fun _ => id) fun _ => id
    · exact foresees_operation (by decide) h (fun _ => id) fun _ => id
    · exact foresees_nothing h
  | simpleExpressionRest | termRest =>
    simp only [productions, List.mem_cons, List.not_mem_nil, or_false] at hitems
    rcases hitems with rfl | rfl | rfl | rfl
    · exact foresees_operation (by decide) h (fun _ => id) fun _ => id
    · exact foresees_operation (by decide) h (fun _ => id) fun _ => id
    · exact foresees_operation (by decide) h (fun _ => id) fun _ => id
    · exact foresees_nothing h
  | factor => exact foresees_factor hitems h
  | factorRest => exact foresees_factorRest hitems h
  | argumentList => exact foresees_argumentList hitems h
  | formalArguments => exact foresees_formalArguments hitems h
  | formalArgumentsRest => exact foresees_formalArgumentsRest hitems h
  | literal =>
    intro u x hx
    simp only [productions, List.mem_cons, List.not_mem_nil, or_false] at hitems
    rcases hitems with rfl | rfl <;>
    · obtain ⟨_, rfl, rfl⟩ := h
      exact .nonterminal rfl (.terminal hx)

theorem Yields.foresees (h : Yields u w) : ForeseesAll u w := by
  induction h with
  | nil => rfl
  | terminal _ ih => exact ⟨_, rfl, ih⟩
  | nonterminal hitems _ _ ih ihrest => exact ⟨_, _, rfl, foresees_of_production hitems ih, ihrest⟩

/-- The table leads through every word of the grammar, however the word is derived. -/
theorem accepts_of_mem_language (h : w ∈ klein.language) :
    Accepts [.nonterminal .program, .terminal .endOfFile] (w ++ [.endOfFile]) := by
  obtain ⟨v, x, rfl, hforesees, rfl⟩ := (mem_language_iff_yields.mp h).foresees
  rw [List.append_nil]
  exact hforesees

end Klein.Grammar
