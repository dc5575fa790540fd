import Klein.Grammar.Rules
import Mathlib.Computability.ContextFreeGrammar

/-- A symbol of a sentential form. -/
abbrev SententialSymbol (T N : Type) : Type := Symbol T N

namespace Klein.Grammar

/-- The alternatives of each nonterminal, with the actions that build the tree. -/
def productions : Nonterminal → List (List Item)
  | .program =>
    [[.nonterminal .definitionList, .action .makeDefinitionList, .action .makeProgram]]
  | .definitionList => [[], [.nonterminal .definition, .nonterminal .definitionList]]
  | .definition =>
    [[.token .keywordFunction, .token .identifier, .action .makeIdentifier, .token .leftParen,
      .nonterminal .parameterList, .action .makeParameterList, .token .rightParen, .token .colon,
      .nonterminal .typeName, .nonterminal .body, .action .makeDefinition]]
  | .parameterList => [[], [.nonterminal .formalParameters]]
  | .formalParameters => [[.nonterminal .idWithType, .nonterminal .formalParametersRest]]
  | .formalParametersRest =>
    [[.token .comma, .nonterminal .idWithType, .nonterminal .formalParametersRest], []]
  | .idWithType =>
    [[.token .identifier, .action .makeIdentifier, .token .colon, .nonterminal .typeName,
      .action .makeIdWithType]]
  | .typeName =>
    [[.token .keywordInteger, .action .makeIntegerType],
     [.token .keywordBoolean, .action .makeBooleanType]]
  | .body =>
    [[.nonterminal .printExpression, .nonterminal .body],
     [.nonterminal .expression, .action .makeBody]]
  | .printExpression =>
    [[.token .keywordPrint, .action .makeIdentifier, .token .leftParen, .nonterminal .expression,
      .action .makeArgument, .action .makeArgumentList, .token .rightParen,
      .action .makeFunctionCallExpression]]
  | .expression => [[.nonterminal .simpleExpression, .nonterminal .expressionRest]]
  | .expressionRest =>
    [[.token .equal, .nonterminal .simpleExpression, .action .makeEqualsExpression,
      .nonterminal .expressionRest],
     [.token .lessThan, .nonterminal .simpleExpression, .action .makeLessThanExpression,
      .nonterminal .expressionRest],
     []]
  | .simpleExpression => [[.nonterminal .term, .nonterminal .simpleExpressionRest]]
  | .simpleExpressionRest =>
    [[.token .keywordOr, .nonterminal .term, .action .makeOrExpression,
      .nonterminal .simpleExpressionRest],
     [.token .plus, .nonterminal .term, .action .makePlusExpression,
      .nonterminal .simpleExpressionRest],
     [.token .minus, .nonterminal .term, .action .makeMinusExpression,
      .nonterminal .simpleExpressionRest],
     []]
  | .term => [[.nonterminal .factor, .nonterminal .termRest]]
  | .termRest =>
    [[.token .times, .nonterminal .factor, .action .makeTimesExpression, .nonterminal .termRest],
     [.token .divide, .nonterminal .factor, .action .makeDivideExpression, .nonterminal .termRest],
     [.token .keywordAnd, .nonterminal .factor, .action .makeAndExpression, .nonterminal .termRest],
     []]
  | .factor =>
    [[.nonterminal .literal],
     [.token .keywordNot, .nonterminal .factor, .action .makeNotExpression],
     [.token .minus, .nonterminal .factor, .action .makeUnaryMinusExpression],
     [.token .identifier, .action .makeIdentifier, .nonterminal .factorRest],
     [.token .keywordIf, .nonterminal .expression, .token .keywordThen, .nonterminal .expression,
      .token .keywordElse, .nonterminal .expression, .action .makeIfExpression],
     [.token .leftParen, .nonterminal .expression, .token .rightParen]]
  | .factorRest =>
    [[.token .leftParen, .nonterminal .argumentList, .action .makeArgumentList, .token .rightParen,
      .action .makeFunctionCallExpression],
     []]
  | .argumentList => [[], [.nonterminal .formalArguments]]
  | .formalArguments =>
    [[.nonterminal .expression, .action .makeArgument, .nonterminal .formalArgumentsRest]]
  | .formalArgumentsRest =>
    [[.token .comma, .nonterminal .expression, .action .makeArgument,
      .nonterminal .formalArgumentsRest],
     []]
  | .literal =>
    [[.token .integer, .action .makeIntegerLiteral], [.token .boolean, .action .makeBooleanLiteral]]

/-- What is left of an item when actions are erased. -/
def Item.symbol? : Item → Option (SententialSymbol Kind Nonterminal)
  | .nonterminal n => some (.nonterminal n)
  | .token k => some (.terminal k)
  | .action _ => none

/-- The symbols of some items, with the actions erased. -/
def erase (items : List Item) : List (SententialSymbol Kind Nonterminal) :=
  items.filterMap Item.symbol?

@[simp]
theorem erase_nonterminal (n : Nonterminal) (items : List Item) :
    erase (.nonterminal n :: items) = .nonterminal n :: erase items := rfl

@[simp]
theorem erase_token (k : Kind) (items : List Item) :
    erase (.token k :: items) = .terminal k :: erase items := rfl

@[simp]
theorem erase_append (items others : List Item) :
    erase (items ++ others) = erase items ++ erase others :=
  List.filterMap_append

theorem Nonterminal.mem_all (n : Nonterminal) : n ∈ Nonterminal.all := by
  cases n <;> decide

/-- The alternatives of all nonterminals without the actions. -/
def contextFreeRules : List (ContextFreeRule Kind Nonterminal) :=
  Nonterminal.all.flatMap fun n => (productions n).map fun items => ⟨n, erase items⟩

/-- The grammar of Klein. -/
def klein : ContextFreeGrammar Kind where
  NT := Nonterminal
  initial := .program
  rules := contextFreeRules.toFinset

theorem mem_klein_rules {rule : ContextFreeRule Kind Nonterminal} :
    rule ∈ klein.rules ↔ ∃ items ∈ productions rule.input, erase items = rule.output := by
  obtain ⟨n, output⟩ := rule
  change _ ∈ contextFreeRules.toFinset ↔ _
  simp only [List.mem_toFinset, contextFreeRules, List.mem_flatMap, List.mem_map,
    ContextFreeRule.mk.injEq]
  constructor
  · rintro ⟨m, -, items, hitems, rfl, herase⟩
    exact ⟨items, hitems, herase⟩
  · rintro ⟨items, hitems, herase⟩
    exact ⟨n, n.mem_all, items, hitems, rfl, herase⟩

/-- A sentential form yields the kinds of the tokens at the leaves of a derivation tree. -/
inductive Yields : List (SententialSymbol Kind Nonterminal) → List Kind → Prop
  | nil : Yields [] []
  | terminal {k u w} : Yields u w → Yields (.terminal k :: u) (k :: w)
  | nonterminal {n items u v w} : items ∈ productions n → Yields (erase items) v → Yields u w →
      Yields (.nonterminal n :: u) (v ++ w)

namespace Yields

variable {u v : List (SententialSymbol Kind Nonterminal)} {w x : List Kind}

theorem append (hu : Yields u w) (hv : Yields v x) : Yields (u ++ v) (w ++ x) := by
  induction hu with
  | nil => exact hv
  | terminal _ ih => exact .terminal ih
  | nonterminal hitems hyield _ _ ih =>
    rw [List.append_assoc]
    exact .nonterminal hitems hyield ih

theorem split (h : Yields (u ++ v) w) :
    ∃ w₁ w₂, w = w₁ ++ w₂ ∧ Yields u w₁ ∧ Yields v w₂ := by
  induction u generalizing w with
  | nil => exact ⟨[], w, rfl, .nil, h⟩
  | cons s u ih =>
    cases h with
    | terminal h =>
      obtain ⟨w₁, w₂, rfl, hu, hv⟩ := ih h
      exact ⟨_ :: w₁, w₂, rfl, .terminal hu, hv⟩
    | nonterminal hitems hyield h =>
      obtain ⟨w₁, w₂, rfl, hu, hv⟩ := ih h
      exact ⟨_ ++ w₁, w₂, by rw [List.append_assoc], .nonterminal hitems hyield hu, hv⟩

theorem terminals (w : List Kind) : Yields (w.map .terminal) w := by
  induction w with
  | nil => exact .nil
  | cons k w ih => exact .terminal ih

theorem derives (h : Yields u w) : klein.Derives u (w.map .terminal) := by
  induction h with
  | nil => exact .refl _
  | terminal _ ih => exact ih.append_left [.terminal _]
  | @nonterminal n items u v w hitems hyield hrest ih ihrest =>
    have hrule : (⟨n, erase items⟩ : ContextFreeRule Kind Nonterminal) ∈ klein.rules :=
      mem_klein_rules.mpr ⟨items, hitems, rfl⟩
    have hstep : klein.Produces [.nonterminal n] (erase items) :=
      ⟨_, hrule, ContextFreeRule.Rewrites.input_output⟩
    rw [List.map_append]
    exact ((hstep.single.trans ih).append_right u).trans (ihrest.append_left (v.map .terminal))

/-- One rewriting step in any place can be undone. -/
theorem of_produces (hstep : klein.Produces u v) (h : Yields v w) : Yields u w := by
  obtain ⟨rule, hrule, hrewrites⟩ := hstep
  obtain ⟨front, back, rfl, rfl⟩ := hrewrites.exists_parts
  obtain ⟨items, hitems, herase⟩ := mem_klein_rules.mp hrule
  obtain ⟨w₁, w₂, rfl, hfront, hback⟩ := split h
  obtain ⟨w₁, w₃, rfl, hfront, hmiddle⟩ := split hfront
  rw [← herase] at hmiddle
  have hinput : Yields [.nonterminal rule.input] w₃ := by
    simpa using Yields.nonterminal hitems hmiddle .nil
  exact (hfront.append hinput).append hback

theorem of_derives (hderives : klein.Derives u v) (h : Yields v w) : Yields u w := by
  induction hderives using Relation.ReflTransGen.head_induction_on with
  | refl => exact h
  | head hstep _ ih => exact .of_produces hstep ih

/-- A sentential form without the end of a text yields no end of a text. -/
theorem endOfFile_not_mem (h : Yields u w) (hu : .terminal .endOfFile ∉ u) : .endOfFile ∉ w := by
  have hproductions : ∀ n ∈ Nonterminal.all, ∀ items ∈ productions n,
      (.terminal .endOfFile : SententialSymbol Kind Nonterminal) ∉ erase items := by
    decide +kernel
  induction h with
  | nil => exact List.not_mem_nil
  | terminal _ ih =>
    simp only [List.mem_cons, Symbol.terminal.injEq, not_or] at hu ⊢
    exact ⟨hu.1, ih hu.2⟩
  | @nonterminal n items _ _ _ hitems _ _ ihitems ih =>
    simp only [List.mem_cons, not_or] at hu
    simp only [List.mem_append, not_or]
    exact ⟨ihitems (hproductions n n.mem_all items hitems), ih hu.2⟩

end Yields

/-- How high a least derivation tree of an item is. -/
def depth : Item → Nat
  | .token _ | .action _ => 0
  | .nonterminal .factor | .nonterminal .idWithType | .nonterminal .program => 2
  | .nonterminal .term | .nonterminal .formalParameters => 3
  | .nonterminal .simpleExpression => 4
  | .nonterminal .expression => 5
  | .nonterminal .body | .nonterminal .printExpression | .nonterminal .formalArguments => 6
  | .nonterminal .definition => 7
  | .nonterminal _ => 1

/-- Every nonterminal has an alternative with lower trees. -/
theorem exists_shallow (n : Nonterminal) :
    ∃ items ∈ productions n, ∀ item ∈ items, depth item < depth (.nonterminal n) := by
  have hall : ∀ n ∈ Nonterminal.all,
      ∃ items ∈ productions n, ∀ item ∈ items, depth item < depth (.nonterminal n) := by decide
  exact hall n n.mem_all

private theorem exists_yields_of_items {items : List Item}
    (h : ∀ n, .nonterminal n ∈ items → ∃ w, Yields [.nonterminal n] w) :
    ∃ w, Yields (erase items) w := by
  induction items with
  | nil => exact ⟨[], .nil⟩
  | cons item items ih =>
    obtain ⟨w, hrest⟩ := ih fun n hn => h n (by simp [hn])
    cases item with
    | token k => exact ⟨k :: w, .terminal hrest⟩
    | action a => exact ⟨w, hrest⟩
    | nonterminal n =>
      obtain ⟨v, hfirst⟩ := h n (by simp)
      exact ⟨v ++ w, hfirst.append hrest⟩

private theorem exists_yields_nonterminal (n : Nonterminal) : ∃ w, Yields [.nonterminal n] w := by
  induction hdepth : depth (.nonterminal n) using Nat.strong_induction_on generalizing n with
  | _ _ ih =>
    obtain ⟨items, hitems, hlower⟩ := exists_shallow n
    obtain ⟨w, hw⟩ := exists_yields_of_items fun m hm => ih _ (hdepth ▸ hlower _ hm) m rfl
    exact ⟨w ++ [], .nonterminal hitems hw .nil⟩

/-- Whatever items are left to be matched, there are tokens that they match. -/
theorem exists_yields (items : List Item) : ∃ w, Yields (erase items) w :=
  exists_yields_of_items fun n _ => exists_yields_nonterminal n

/-- The words of the grammar are the yields of the trees of its initial symbol. -/
theorem mem_language_iff_yields {w : List Kind} :
    w ∈ klein.language ↔ Yields [.nonterminal .program] w := by
  rw [ContextFreeGrammar.mem_language_iff]
  exact ⟨fun hderives => .of_derives hderives (.terminals w), Yields.derives⟩

/-- The initial symbol and the end of a text yield a word of the grammar and the end of the text. -/
theorem exists_word_of_yields {w : List Kind}
    (h : Yields [.nonterminal .program, .terminal .endOfFile] w) :
    ∃ word ∈ klein.language, w = word ++ [.endOfFile] := by
  obtain ⟨word, ends, rfl, hword, hends⟩ :=
    Yields.split (u := [.nonterminal .program]) (v := [.terminal .endOfFile]) h
  cases hends with
  | terminal hnil =>
    cases hnil
    exact ⟨word, mem_language_iff_yields.mpr hword, rfl⟩

end Klein.Grammar
