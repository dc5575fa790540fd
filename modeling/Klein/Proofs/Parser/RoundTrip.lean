import Klein.Proofs.Parser.Acceptance
import Klein.Proofs.Tree.Printing

namespace Klein

open Grammar

/-- How far a parser has got: the items to be matched, what it will see of the tokens ahead, and the
    waiting nodes. -/
structure Stage where
  items : List Item
  ahead : List (Kind × Option String)
  nodes : NodeStack

def Parser.stage (p : Parser) : Stage :=
  ⟨p.items, p.stream.ahead.map Token.mark, p.nodes⟩

namespace Stage

/-- Every parser that has got to the first stage gets on to the second. -/
def Leads (before after : Stage) : Prop :=
  ∀ p : Parser, p.stage = before → ∃ taken q, Parser.Reaches p taken q ∧ q.stage = after

variable {items : List Item} {ahead : List (Kind × Option String)} {nodes : NodeStack}

theorem Leads.refl (s : Stage) : s.Leads s :=
  fun p hp => ⟨[], p, .refl p, hp⟩

theorem Leads.trans {a b c : Stage} (hab : a.Leads b) (hbc : b.Leads c) : a.Leads c := by
  intro p hp
  obtain ⟨taken, q, hpq, hq⟩ := hab p hp
  obtain ⟨others, r, hqr, hr⟩ := hbc q hq
  exact ⟨taken ++ others, r, hpq.trans hqr, hr⟩

/-- One step of a parser at a stage. -/
private theorem Leads.of_step {item : Item} {after : Stage}
    (h : ∀ p : Parser, p.stage = ⟨item :: items, ahead, nodes⟩ →
      ∃ q, Parser.step rules { p with items } item = .ok q ∧ q.stage = after) :
    Leads ⟨item :: items, ahead, nodes⟩ after := by
  intro p hp
  obtain ⟨q, hstep, hq⟩ := h p hp
  exact ⟨_, q, .step (congrArg Stage.items hp) hstep (.refl q), hq⟩

/-- The tokens ahead of a parser, from what it will see of them. -/
private theorem ahead_of_stage {p : Parser} {kind : Kind} {value : Option String}
    (hp : p.stage = ⟨items, (kind, value) :: ahead, nodes⟩) :
    ∃ token tokens, p.stream.ahead = token :: tokens ∧ token.kind = kind ∧ token.value = value ∧
      tokens.map Token.mark = ahead := by
  have hmarks : p.stream.ahead.map Token.mark = (kind, value) :: ahead := congrArg Stage.ahead hp
  obtain ⟨token, tokens, hahead, hmark, htokens⟩ := List.map_eq_cons_iff.mp hmarks
  injection hmark with hkind hvalue
  exact ⟨token, tokens, hahead, hkind, hvalue, htokens⟩

theorem leads_token (kind : Kind) (value : Option String) :
    Leads ⟨.token kind :: items, (kind, value) :: ahead, nodes⟩ ⟨items, ahead, nodes⟩ := by
  apply Leads.of_step
  intro p hp
  obtain ⟨token, tokens, hahead, hkind, -, htokens⟩ := ahead_of_stage hp
  obtain ⟨stream, hnext, hafter, -⟩ := TokenStream.next_of_ahead_cons hahead
  have hnodes : p.nodes = nodes := congrArg Stage.nodes hp
  refine ⟨_, Parser.step_token_eq_ok.mpr ⟨token, stream, hnext, hkind, rfl⟩, ?_⟩
  simp only [Parser.stage, hafter, htokens, hnodes]

theorem leads_rule {n : Nonterminal} {kind : Kind} {value : Option String} {rule : List Item}
    (hrule : rules n kind = some rule) :
    Leads ⟨.nonterminal n :: items, (kind, value) :: ahead, nodes⟩
      ⟨rule ++ items, (kind, value) :: ahead, nodes⟩ := by
  apply Leads.of_step
  intro p hp
  obtain ⟨token, tokens, hahead, rfl, -, -⟩ := ahead_of_stage hp
  obtain ⟨stream, hpeek, hsame, -⟩ := TokenStream.peek_of_ahead_cons hahead
  refine ⟨_, Parser.step_nonterminal_eq_ok.mpr ⟨token, stream, rule, hpeek, hrule, rfl⟩, ?_⟩
  rw [Parser.stage, hsame]
  exact congrArg (fun s => Stage.mk (rule ++ items) s.ahead s.nodes) hp

theorem leads_action {action : Action} {after : NodeStack}
    (hact : ∀ recent, nodes.act recent action = (.ok (), after)) :
    Leads ⟨.action action :: items, ahead, nodes⟩ ⟨items, ahead, after⟩ := by
  apply Leads.of_step
  intro p hp
  have hnodes : p.nodes = nodes := congrArg Stage.nodes hp
  refine ⟨_, Parser.step_action_eq_ok.mpr ⟨after, hnodes ▸ hact _, rfl⟩, ?_⟩
  exact congrArg (fun s => Stage.mk items s.ahead after) hp

/-- A token is taken, and an action uses its value. -/
theorem leads_token_action {kind : Kind} {value : Option String} {action : Action}
    {after : NodeStack}
    (hact : ∀ token : Token, token.kind = kind → token.value = value →
      nodes.act (some token) action = (.ok (), after)) :
    Leads ⟨.token kind :: .action action :: items, (kind, value) :: ahead, nodes⟩
      ⟨items, ahead, after⟩ := by
  intro p hp
  obtain ⟨token, tokens, hahead, hkind, hvalue, htokens⟩ := ahead_of_stage hp
  obtain ⟨stream, hnext, hafter, -⟩ := TokenStream.next_of_ahead_cons hahead
  have hnodes : p.nodes = nodes := congrArg Stage.nodes hp
  refine ⟨_, { p with items, stream, nodes := after, recent := some token },
    .step (congrArg Stage.items hp)
      (Parser.step_token_eq_ok.mpr ⟨token, stream, hnext, hkind, rfl⟩)
      (.step rfl (Parser.step_action_eq_ok.mpr ⟨after, ?_, rfl⟩) (.refl _)), ?_⟩
  · exact hnodes ▸ hact token hkind hvalue
  · simp only [Parser.stage, hafter, htokens]

end Stage

/-- The nonterminal of a level. -/
def symbolAt : Nat → Nonterminal
  | 0 | 1 => .expression
  | 2 => .simpleExpression
  | 3 => .term
  | _ => .factor

/-- What is left to be matched when an operand of a level has been read. -/
def restAt : Nat → List Item
  | 1 => [.nonterminal .expressionRest]
  | 2 => [.nonterminal .simpleExpressionRest]
  | 3 => [.nonterminal .termRest]
  | _ => []

/-- The kinds that may follow an operand of a level. -/
def followers : Nat → List Kind
  | 0 => closers
  | 1 => [.equal, .lessThan] ++ closers
  | 2 => [.plus, .minus, .keywordOr, .equal, .lessThan] ++ closers
  | _ =>
    [.times, .divide, .keywordAnd, .plus, .minus, .keywordOr, .equal, .lessThan] ++ closers

/-- The kinds that an expression starts with. -/
def starters : List Kind :=
  [.keywordIf, .keywordNot, .identifier, .integer, .boolean, .leftParen, .minus]

theorem followers_subset_succ (level : Nat) : followers level ⊆ followers (level + 1) := by
  match level with
  | 0 | 1 | 2 => decide
  | _ + 3 => exact List.Subset.refl _

theorem followers_subset {level tighter : Nat} (hle : level ≤ tighter) :
    followers level ⊆ followers tighter := by
  induction hle with
  | refl => exact List.Subset.refl _
  | step _ ih => exact List.Subset.trans ih (followers_subset_succ _)

section Levels

variable {items : List Item} {ahead : List (Kind × Option String)} {nodes : NodeStack}
  {kind : Kind} {value : Option String} {level tighter : Nat} {kinds others : List Kind}
  {lexemes : List Lexeme} {e : Expr}

/-- The nonterminal of a level starts with the nonterminal of the next one. -/
theorem leads_tighter (hkind : kind ∈ starters) :
    Stage.Leads ⟨.nonterminal (symbolAt level) :: items, (kind, value) :: ahead, nodes⟩
      ⟨.nonterminal (symbolAt (level + 1)) :: (restAt level ++ items), (kind, value) :: ahead,
        nodes⟩ := by
  have hrules : ∀ level ∈ [1, 2, 3], ∀ kind ∈ starters, rules (symbolAt level) kind =
      some (.nonterminal (symbolAt (level + 1)) :: restAt level) := by
    decide
  match level with
  | 0 => exact .refl _
  | 1 => exact Stage.leads_rule (hrules 1 (by simp) kind hkind)
  | 2 => exact Stage.leads_rule (hrules 2 (by simp) kind hkind)
  | 3 => exact Stage.leads_rule (hrules 3 (by simp) kind hkind)
  | _ + 4 => exact .refl _

/-- Before a kind that follows looser operands no operator of a level is left to be read. -/
theorem leads_skip (hkind : kind ∈ followers level) :
    Stage.Leads ⟨restAt (level + 1) ++ items, (kind, value) :: ahead, nodes⟩
      ⟨items, (kind, value) :: ahead, nodes⟩ := by
  have hrules : ∀ kind ∈ followers 2, rules .termRest kind = some [] ∧
      (kind ∈ followers 1 → rules .simpleExpressionRest kind = some []) ∧
      (kind ∈ followers 0 → rules .expressionRest kind = some []) := by
    decide
  match level with
  | 0 =>
    exact Stage.leads_rule ((hrules kind (followers_subset (by decide) hkind)).2.2 hkind)
  | 1 =>
    exact Stage.leads_rule ((hrules kind (followers_subset (by decide) hkind)).2.1 hkind)
  | 2 => exact Stage.leads_rule (hrules kind hkind).1
  | _ + 3 => exact .refl _

/-- Lexemes that the nonterminal of a level reads as an expression, before tokens of some kinds. -/
structure Parses (kinds : List Kind) (level : Nat) (lexemes : List Lexeme) (e : Expr) : Prop where
  starts : ∃ first rest, lexemes = first :: rest ∧ first.kind ∈ starters
  leads : ∀ {items : List Item} {mark : Kind × Option String}
    {later : List (Kind × Option String)} {nodes : NodeStack}, mark.1 ∈ kinds →
    Stage.Leads
      ⟨.nonterminal (symbolAt level) :: items, lexemes.map Lexeme.mark ++ mark :: later, nodes⟩
      ⟨restAt level ++ items, mark :: later, .expr e :: nodes⟩

namespace Parses

theorem mono (h : Parses kinds level lexemes e) (hsub : others ⊆ kinds) :
    Parses others level lexemes e :=
  ⟨h.starts, fun hmark => h.leads (hsub hmark)⟩

/-- What is read at a level is read at the next looser one as well. -/
theorem loosen (h : Parses kinds (level + 1) lexemes e) (hsub : kinds ⊆ followers level) :
    Parses kinds level lexemes e := by
  obtain ⟨first, rest, rfl, hfirst⟩ := h.starts
  refine ⟨h.starts, fun hmark => ?_⟩
  exact ((leads_tighter hfirst).trans (h.leads hmark)).trans (leads_skip (hsub hmark))

theorem loosen_le (h : Parses kinds tighter lexemes e) (hle : level ≤ tighter)
    (hsub : kinds ⊆ followers level) : Parses kinds level lexemes e := by
  induction hle with
  | refl => exact h
  | step hle ih => exact ih (h.loosen (List.Subset.trans hsub (followers_subset hle)))

/-- Between what closes it an expression is read whole. -/
theorem whole (h : Parses (followers level) level lexemes e) : Parses (followers 0) 0 lexemes e :=
  (h.mono (followers_subset (Nat.zero_le _))).loosen_le (Nat.zero_le _) (List.Subset.refl _)

/-- Parentheses make a factor of an expression. -/
theorem parenthesised (h : Parses (followers 0) 0 lexemes e) :
    Parses (followers 5) 5 (parenthesised lexemes) e := by
  refine ⟨⟨_, _, rfl, by decide⟩, ?_⟩
  intro items mark later nodes _
  rw [Klein.parenthesised, List.map_append, List.append_assoc]
  refine .trans (Stage.leads_rule rfl) ?_
  refine .trans (Stage.leads_token .leftParen none) ?_
  refine .trans (h.leads (by decide)) ?_
  exact Stage.leads_token .rightParen none

/-- An expression can be an operand at every level, between parentheses if it is looser. -/
theorem operand (h : Parses (followers tighter) tighter lexemes e) (hlevel : level ≤ 5) :
    Parses (followers level) level (parenthesisedIf (tighter < level) lexemes) e := by
  by_cases hlt : tighter < level
  · simp only [parenthesisedIf, hlt, decide_true, if_true]
    exact (h.whole.parenthesised.mono (followers_subset hlevel)).loosen_le hlevel
      (List.Subset.refl _)
  · simp only [parenthesisedIf, hlt, decide_false]
    have hle : level ≤ tighter := Nat.le_of_not_lt hlt
    exact (h.mono (followers_subset hle)).loosen_le hle (List.Subset.refl _)

/-- An operation is read at the level of its operator, from its left operand on. -/
theorem binary {left right : Expr} {before after : List Lexeme} (op : BinaryOp)
    (hleft : Parses (followers op.level) op.level before left)
    (hright : Parses (followers (op.level + 1)) (op.level + 1) after right) :
    Parses (followers op.level) op.level (before ++ op.kind.lexeme :: after)
      (.binary none op left right) := by
  obtain ⟨first, rest, rfl, hfirst⟩ := hleft.starts
  refine ⟨⟨first, _, rfl, hfirst⟩, ?_⟩
  intro items mark later nodes hmark
  have hoperator : op.kind ∈ followers op.level := by
    cases op <;> decide
  -- The rest of a level reads the operator, an operand of the next level and the rest once more.
  have hrest : Stage.Leads
      ⟨restAt op.level ++ items, op.kind.lexeme.mark :: (after.map Lexeme.mark ++ mark :: later),
        .expr left :: nodes⟩
      ⟨.nonterminal (symbolAt (op.level + 1)) :: .action op.action :: (restAt op.level ++ items),
        after.map Lexeme.mark ++ mark :: later, .expr left :: nodes⟩ := by
    cases op <;>
      exact .trans (Stage.leads_rule rfl) (Stage.leads_token _ _)
  rw [List.map_append, List.append_assoc]
  refine .trans (hleft.leads hoperator) ?_
  refine .trans hrest ?_
  refine .trans (hright.leads (followers_subset_succ _ hmark)) ?_
  refine .trans (leads_skip hmark) ?_
  exact Stage.leads_action fun _ => NodeStack.act_binary op left right

theorem unary (op : UnaryOp) (h : Parses (followers unaryLevel) unaryLevel lexemes e) :
    Parses (followers unaryLevel) unaryLevel (op.kind.lexeme :: lexemes) (.unary none op e) := by
  have hstarts : op.kind ∈ starters := by
    cases op <;> decide
  refine ⟨⟨op.kind.lexeme, lexemes, rfl, hstarts⟩, ?_⟩
  intro items mark later nodes hmark
  have hrule : Stage.Leads
      ⟨.nonterminal .factor :: items,
        op.kind.lexeme.mark :: (lexemes.map Lexeme.mark ++ mark :: later), nodes⟩
      ⟨.nonterminal .factor :: .action op.action :: items,
        lexemes.map Lexeme.mark ++ mark :: later, nodes⟩ := by
    cases op <;>
      exact .trans (Stage.leads_rule rfl) (Stage.leads_token _ _)
  refine .trans hrule ?_
  refine .trans (h.leads hmark) ?_
  exact Stage.leads_action fun _ => NodeStack.act_unary op e

/-- A conditional is read whole. Its alternative would take an operator that follows it. -/
theorem conditional {condition consequent alternative : Expr} {first second third : List Lexeme}
    (hcondition : Parses (followers 0) 0 first condition)
    (hconsequent : Parses (followers 0) 0 second consequent)
    (halternative : Parses (followers 0) 0 third alternative) :
    Parses (followers 0) 0
      (Kind.keywordIf.lexeme :: first ++ Kind.keywordThen.lexeme :: second ++
        Kind.keywordElse.lexeme :: third)
      (.conditional none condition consequent alternative) := by
  -- it is a factor, but one that only what closes an expression may follow
  have hfactor : Parses (followers 0) 5
      (Kind.keywordIf.lexeme :: first ++ Kind.keywordThen.lexeme :: second ++
        Kind.keywordElse.lexeme :: third)
      (.conditional none condition consequent alternative) := by
    refine ⟨⟨_, _, rfl, by decide⟩, ?_⟩
    intro items mark later nodes hmark
    simp only [List.map_append, List.map_cons, List.append_assoc, List.cons_append]
    refine .trans (Stage.leads_rule rfl) ?_
    refine .trans (Stage.leads_token .keywordIf none) ?_
    refine .trans (hcondition.leads (by decide)) ?_
    refine .trans (Stage.leads_token .keywordThen none) ?_
    refine .trans (hconsequent.leads (by decide)) ?_
    refine .trans (Stage.leads_token .keywordElse none) ?_
    refine .trans (halternative.leads hmark) ?_
    exact Stage.leads_action fun _ => NodeStack.act_makeIfExpression ..
  exact hfactor.loosen_le (Nat.zero_le _) (List.Subset.refl _)

theorem integer (text : String) :
    Parses (followers 5) 5 [⟨.integer, text⟩] (.integer none text) := by
  refine ⟨⟨_, _, rfl, by simp [starters]⟩, ?_⟩
  intro items mark later nodes _
  refine .trans (Stage.leads_rule rfl) ?_
  refine .trans (Stage.leads_rule rfl) ?_
  exact Stage.leads_token_action fun _ _ hvalue => NodeStack.act_makeIntegerLiteral hvalue

theorem boolean (text : String) :
    Parses (followers 5) 5 [⟨.boolean, text⟩] (.boolean none text) := by
  refine ⟨⟨_, _, rfl, by simp [starters]⟩, ?_⟩
  intro items mark later nodes _
  refine .trans (Stage.leads_rule rfl) ?_
  refine .trans (Stage.leads_rule rfl) ?_
  exact Stage.leads_token_action fun _ _ hvalue => NodeStack.act_makeBooleanLiteral hvalue

theorem identifier (name : String) :
    Parses (followers 5) 5 [⟨.identifier, name⟩] (.identifier none name) := by
  -- a parenthesis behind the name would make it a call
  have hrules : ∀ kind ∈ followers 5, rules .factorRest kind = some [] := by
    decide
  refine ⟨⟨_, _, rfl, by simp [starters]⟩, ?_⟩
  intro items mark later nodes hmark
  refine .trans (Stage.leads_rule rfl) ?_
  refine .trans (Stage.leads_token_action fun _ hkind hvalue =>
    NodeStack.act_makeIdentifier hkind hvalue) ?_
  exact Stage.leads_rule (hrules mark.1 hmark)

/-- The last nodes are the arguments, the last one on top. -/
theorem call (callee : String) {arguments : Arguments}
    (h : ∀ {items : List Item} {later : List (Kind × Option String)} {nodes : NodeStack},
      Stage.Leads
        ⟨.nonterminal .argumentList :: items,
          lexemes.map Lexeme.mark ++ (.rightParen, none) :: later, nodes⟩
        ⟨items, (.rightParen, none) :: later,
          arguments.toList.reverse.map .argument ++ nodes⟩) :
    Parses (followers 5) 5 (⟨.identifier, callee⟩ :: Klein.parenthesised lexemes)
      (.call none callee none arguments) := by
  refine ⟨⟨_, _, rfl, by simp [starters]⟩, ?_⟩
  intro items mark later nodes _
  rw [Klein.parenthesised, List.map_cons, List.map_append, List.cons_append, List.append_assoc]
  refine .trans (Stage.leads_rule rfl) ?_
  refine .trans (Stage.leads_token_action fun _ hkind hvalue =>
    NodeStack.act_makeIdentifier hkind hvalue) ?_
  refine .trans (Stage.leads_rule rfl) ?_
  refine .trans (Stage.leads_token .leftParen none) ?_
  refine .trans h ?_
  refine .trans (Stage.leads_action fun _ =>
    NodeStack.act_makeArgumentList _ (by simp [Node.argument?])) ?_
  refine .trans (Stage.leads_token .rightParen none) ?_
  rw [List.reverse_reverse, Arguments.ofList_toList]
  exact Stage.leads_action fun _ => NodeStack.act_makeFunctionCallExpression ..

end Parses

end Levels

/-- A nonterminal that has one rule for all expressions is replaced by it in front of one. -/
theorem leads_starting {n : Nonterminal} {rule items : List Item} {lexemes : List Lexeme}
    {later : List (Kind × Option String)} {nodes : NodeStack}
    (hrules : ∀ kind ∈ starters, rules n kind = some rule)
    (hstarts : ∃ first rest, lexemes = first :: rest ∧ first.kind ∈ starters) :
    Stage.Leads ⟨.nonterminal n :: items, lexemes.map Lexeme.mark ++ later, nodes⟩
      ⟨rule ++ items, lexemes.map Lexeme.mark ++ later, nodes⟩ := by
  obtain ⟨first, rest, rfl, hfirst⟩ := hstarts
  exact Stage.leads_rule (hrules first.kind hfirst)

private theorem starts_arguments {value : Expr} (tag : Tag)
    (hstarts : ∃ first rest, value.lexemes = first :: rest ∧ first.kind ∈ starters)
    (arguments : Arguments) :
    ∃ first rest, (Arguments.cons tag value arguments).lexemes = first :: rest ∧
      first.kind ∈ starters := by
  obtain ⟨first, rest, hlexemes, hfirst⟩ := hstarts
  cases arguments with
  | nil => exact ⟨first, rest, hlexemes, hfirst⟩
  | cons tag other arguments =>
    rw [Arguments.lexemes_cons_cons, hlexemes]
    exact ⟨first, _, rfl, hfirst⟩

mutual

/-- What is printed for an expression is read as that expression at its level. -/
theorem Expr.parses : (e : Expr) → Parses (followers e.level) e.level e.lexemes e.bare
  | .integer _ text => .integer text
  | .boolean _ text => .boolean text
  | .identifier _ name => .identifier name
  | .unary _ op value => .unary op (value.parses.operand (by decide))
  | .binary _ op left right => by
    have hlevel : op.level + 1 ≤ 5 := by cases op <;> decide
    have hright := right.parses.operand hlevel
    -- a right operand of the same level is written between parentheses too
    simp only [Nat.lt_succ_iff] at hright
    exact .binary op (left.parses.operand (by omega)) hright
  | .conditional _ condition consequent alternative =>
    .conditional condition.parses.whole consequent.parses.whole alternative.parses.whole
  | .call _ callee _ .nil => by
    have hrule : rules .argumentList .rightParen = some [] := rfl
    exact .call callee (Stage.leads_rule hrule)
  | .call _ callee _ (.cons tag value rest) => by
    have hstarts := starts_arguments tag value.parses.starts rest
    have hleads := (Arguments.cons tag value rest).leads_lexemes nofun
    have hlist : ∀ kind ∈ starters,
        rules .argumentList kind = some [.nonterminal .formalArguments] := by
      decide
    have hformal : ∀ kind ∈ starters, rules .formalArguments kind =
        some [.nonterminal .expression, .action .makeArgument,
          .nonterminal .formalArgumentsRest] := by
      decide
    exact .call callee (.trans (leads_starting hlist hstarts)
      (.trans (leads_starting hformal hstarts) (hleads _ _ _)))

/-- Arguments are read from the first of them on. -/
theorem Arguments.leads_lexemes : (arguments : Arguments) → arguments ≠ .nil →
    ∀ (items : List Item) (later : List (Kind × Option String)) (nodes : NodeStack),
      Stage.Leads
        ⟨.nonterminal .expression :: .action .makeArgument :: .nonterminal .formalArgumentsRest ::
          items, arguments.lexemes.map Lexeme.mark ++ (.rightParen, none) :: later, nodes⟩
        ⟨items, (.rightParen, none) :: later,
          arguments.bare.toList.reverse.map .argument ++ nodes⟩
  | .nil, hne => absurd rfl hne
  | .cons _ value .nil, _ => by
    intro items later nodes
    refine .trans (value.parses.whole.leads (by decide)) ?_
    have hrule : rules .formalArgumentsRest .rightParen = some [] := rfl
    refine .trans (Stage.leads_action fun _ => NodeStack.act_makeArgument _) ?_
    exact Stage.leads_rule hrule
  | .cons _ value (.cons tag other rest), _ => by
    intro items later nodes
    rw [Arguments.lexemes_cons_cons, List.map_append, List.append_assoc]
    refine .trans (value.parses.whole.leads (by decide)) ?_
    refine .trans (Stage.leads_action fun _ => NodeStack.act_makeArgument _) ?_
    refine .trans (Stage.leads_rule rfl) ?_
    refine .trans (Stage.leads_token .comma none) ?_
    have hrest := (Arguments.cons tag other rest).leads_lexemes nofun items later
      (.argument { value := value.bare } :: nodes)
    simpa [Arguments.bare, Arguments.toList] using hrest

end

section Definitions

variable {items : List Item} {later : List (Kind × Option String)} {nodes : NodeStack}

theorem leads_typeName (t : TypeNode) :
    Stage.Leads ⟨.nonterminal .typeName :: items, t.base.lexeme.mark :: later, nodes⟩
      ⟨items, later, .type t.bare :: nodes⟩ := by
  obtain ⟨tag, base⟩ := t
  cases base with
  | integer =>
    refine .trans (Stage.leads_rule rfl) ?_
    refine .trans (Stage.leads_token .keywordInteger none) ?_
    exact Stage.leads_action fun _ => NodeStack.act_makeIntegerType
  | boolean =>
    refine .trans (Stage.leads_rule rfl) ?_
    refine .trans (Stage.leads_token .keywordBoolean none) ?_
    exact Stage.leads_action fun _ => NodeStack.act_makeBooleanType

theorem leads_idWithType (p : Parameter) :
    Stage.Leads
      ⟨.nonterminal .idWithType :: items, p.lexemes.map Lexeme.mark ++ later, nodes⟩
      ⟨items, later, .parameter p.bare :: nodes⟩ := by
  refine .trans (Stage.leads_rule rfl) ?_
  refine .trans (Stage.leads_token_action fun _ hkind hvalue =>
    NodeStack.act_makeIdentifier hkind hvalue) ?_
  refine .trans (Stage.leads_token .colon none) ?_
  refine .trans (leads_typeName p.type) ?_
  exact Stage.leads_action fun _ => NodeStack.act_makeIdWithType ..

/-- Parameters are read from the first of them on. -/
theorem leads_formalParameters (p : Parameter) (parameters : List Parameter) :
    Stage.Leads
      ⟨.nonterminal .idWithType :: .nonterminal .formalParametersRest :: items,
        ([Kind.comma.lexeme].intercalate ((p :: parameters).map Parameter.lexemes)).map
          Lexeme.mark ++ (.rightParen, none) :: later, nodes⟩
      ⟨items, (.rightParen, none) :: later,
        ((p :: parameters).map Parameter.bare).reverse.map .parameter ++ nodes⟩ := by
  induction parameters generalizing p nodes with
  | nil =>
    have hrule : rules .formalParametersRest .rightParen = some [] := rfl
    refine .trans (leads_idWithType p) ?_
    exact Stage.leads_rule hrule
  | cons q parameters ih =>
    rw [List.map_cons, List.map_cons, List.intercalate_cons_cons]
    simp only [List.map_append, List.append_assoc]
    refine .trans (leads_idWithType p) ?_
    refine .trans (Stage.leads_rule rfl) ?_
    refine .trans (Stage.leads_token .comma none) ?_
    have hrest := @ih (.parameter p.bare :: nodes) q
    simpa using hrest

theorem leads_parameterList (l : ParameterList) :
    Stage.Leads
      ⟨.nonterminal .parameterList :: items,
        l.lexemes.map Lexeme.mark ++ (.rightParen, none) :: later, nodes⟩
      ⟨items, (.rightParen, none) :: later,
        (l.items.map Parameter.bare).reverse.map .parameter ++ nodes⟩ := by
  obtain ⟨tag, parameters⟩ := l
  cases parameters with
  | nil =>
    have hrule : rules .parameterList .rightParen = some [] := rfl
    exact Stage.leads_rule hrule
  | cons p parameters =>
    obtain ⟨rest, hfirst⟩ : ∃ rest,
        [Kind.comma.lexeme].intercalate ((p :: parameters).map Parameter.lexemes) =
          ⟨.identifier, p.name⟩ :: rest := by
      cases parameters with
      | nil => exact ⟨_, rfl⟩
      | cons q parameters => exact ⟨_, rfl⟩
    have hrest := @leads_formalParameters items later nodes p parameters
    simp only [ParameterList.lexemes]
    rw [hfirst] at hrest ⊢
    refine .trans (Stage.leads_rule rfl) ?_
    exact .trans (Stage.leads_rule rfl) hrest

/-- A call of `print` is read as the call it is. -/
theorem leads_printExpression {c : Call} (hprint : c.IsPrint) :
    Stage.Leads
      ⟨.nonterminal .printExpression :: items, c.lexemes.map Lexeme.mark ++ later, nodes⟩
      ⟨items, later, .expr c.bare.toExpr :: nodes⟩ := by
  obtain ⟨argumentTag, value, hitems, -⟩ := hprint.argument
  have hbare : c.bare.toExpr = .call none "print" none (.cons none value.bare .nil) := by
    simp only [Call.toExpr, Call.bare, hprint.callee, hitems, Arguments.bare]
  rw [Call.lexemes, hitems, parenthesised, List.map_cons, List.map_append, List.cons_append,
    List.append_assoc, hbare]
  refine .trans (Stage.leads_rule rfl) ?_
  refine .trans (Stage.leads_token_action fun _ hkind _ =>
    NodeStack.act_makeIdentifier_print hkind) ?_
  refine .trans (Stage.leads_token .leftParen none) ?_
  refine .trans (value.parses.whole.leads (by decide)) ?_
  refine .trans (Stage.leads_action fun _ => NodeStack.act_makeArgument _) ?_
  refine .trans (Stage.leads_action fun _ =>
    NodeStack.act_makeArgumentList [{ value := value.bare }] (by simp [Node.argument?])) ?_
  refine .trans (Stage.leads_token .rightParen none) ?_
  exact Stage.leads_action fun _ => NodeStack.act_makeFunctionCallExpression ..

/-- A body is read behind its type, which ends the calls that wait for it. -/
theorem leads_body {calls : List Call} (hcalls : ∀ c ∈ calls, c.IsPrint) (before : List Call)
    (result : Expr) (t : TypeNode) {mark : Kind × Option String} (hmark : mark.1 ∈ closers) :
    Stage.Leads
      ⟨.nonterminal .body :: items,
        (calls.flatMap Call.lexemes ++ result.lexemes).map Lexeme.mark ++ mark :: later,
        before.reverse.map (fun c => .expr c.toExpr) ++ .type t :: nodes⟩
      ⟨items, mark :: later,
        .body { prints := before ++ calls.map Call.bare, result := result.bare } :: .type t ::
          nodes⟩ := by
  induction calls generalizing before with
  | nil =>
    have hrules : ∀ kind ∈ starters,
        rules .body kind = some [.nonterminal .expression, .action .makeBody] := by
      decide
    rw [List.flatMap_nil, List.nil_append, List.map_nil, List.append_nil]
    refine .trans (leads_starting hrules result.parses.starts) ?_
    refine .trans (result.parses.whole.leads hmark) ?_
    refine Stage.leads_action fun recent => ?_
    rw [NodeStack.act_makeBody result.bare before.reverse (by simp [Node.call?]),
      List.reverse_reverse]
  | cons c calls ih =>
    have hprint := hcalls c (by simp)
    have hrest := ih (fun other hother => hcalls other (by simp [hother])) (before ++ [c.bare])
    rw [List.flatMap_cons, List.append_assoc, List.map_append, List.append_assoc]
    -- the call waits on top of those before it
    refine .trans (Stage.leads_rule rfl) ?_
    refine .trans (leads_printExpression hprint) ?_
    simpa using hrest

theorem leads_definition {d : Definition} (hlegal : d.Legal) {mark : Kind × Option String}
    (hmark : mark.1 ∈ closers) :
    Stage.Leads
      ⟨.nonterminal .definition :: items, d.lexemes.map Lexeme.mark ++ mark :: later, nodes⟩
      ⟨items, mark :: later, .definition d.bare :: nodes⟩ := by
  simp only [Definition.lexemes, parenthesised, List.map_append, List.map_cons, List.append_assoc,
    List.cons_append, List.nil_append]
  refine .trans (Stage.leads_rule rfl) ?_
  refine .trans (Stage.leads_token .keywordFunction none) ?_
  refine .trans (Stage.leads_token_action fun _ hkind hvalue =>
    NodeStack.act_makeIdentifier hkind hvalue) ?_
  refine .trans (Stage.leads_token .leftParen none) ?_
  refine .trans (leads_parameterList d.parameters) ?_
  refine .trans (Stage.leads_action fun _ =>
    NodeStack.act_makeParameterList _ (by simp [Node.parameter?])) ?_
  refine .trans (Stage.leads_token .rightParen none) ?_
  refine .trans (Stage.leads_token .colon none) ?_
  refine .trans (leads_typeName d.returnType) ?_
  refine .trans (leads_body hlegal.body.prints [] d.body.result _ hmark) ?_
  rw [List.reverse_reverse]
  exact Stage.leads_action fun _ => NodeStack.act_makeDefinition ..

/-- Definitions are read one after the other up to the end of the text. -/
theorem leads_definitionList {definitions : List Definition}
    (hlegal : ∀ d ∈ definitions, d.Legal) :
    Stage.Leads
      ⟨.nonterminal .definitionList :: items,
        marks (definitions.flatMap Definition.lexemes), nodes⟩
      ⟨items, marks [], (definitions.map Definition.bare).reverse.map .definition ++ nodes⟩ := by
  induction definitions generalizing nodes with
  | nil =>
    have hrule : rules .definitionList .endOfFile = some [] := rfl
    exact Stage.leads_rule hrule
  | cons d definitions ih =>
    have hrest := @ih (.definition d.bare :: nodes) fun other hother =>
      hlegal other (by simp [hother])
    -- another definition or the end of the text closes the body of this one
    obtain ⟨mark, more, hmarks, hmark⟩ : ∃ mark more,
        marks (definitions.flatMap Definition.lexemes) = mark :: more ∧ mark.1 ∈ closers := by
      cases definitions with
      | nil => exact ⟨_, _, rfl, by decide⟩
      | cons other definitions => exact ⟨_, _, rfl, by decide⟩
    have hdefinition := @leads_definition (.nonterminal .definitionList :: items) more nodes d
      (hlegal d (by simp)) mark hmark
    rw [marks, List.flatMap_cons, List.map_append, List.append_assoc, ← marks]
    rw [hmarks] at hrest ⊢
    refine .trans (Stage.leads_rule rfl) ?_
    refine .trans hdefinition ?_
    simpa using hrest

theorem leads_program {p : Program} (hlegal : p.Legal) :
    Stage.Leads ⟨[.nonterminal .program, .token .endOfFile], marks p.lexemes, []⟩
      ⟨[], [], [.program p.bare]⟩ := by
  obtain ⟨definitions⟩ := p
  obtain ⟨kind, value, more, hmarks, hrule⟩ : ∃ kind value more,
      marks (definitions.flatMap Definition.lexemes) = (kind, value) :: more ∧
        rules .program kind = some [.nonterminal .definitionList, .action .makeDefinitionList,
          .action .makeProgram] := by
    cases definitions with
    | nil => exact ⟨_, _, _, rfl, rfl⟩
    | cons d definitions => exact ⟨_, _, _, rfl, rfl⟩
  have hdefinitions := @leads_definitionList [.action .makeDefinitionList, .action .makeProgram,
    .token .endOfFile] [] definitions hlegal
  rw [Program.lexemes, hmarks]
  rw [hmarks] at hdefinitions
  refine .trans (Stage.leads_rule hrule) ?_
  refine .trans hdefinitions ?_
  refine .trans (Stage.leads_action fun _ => NodeStack.act_makeDefinitionList _ (by simp)) ?_
  refine .trans (Stage.leads_action fun _ => NodeStack.act_makeProgram _) ?_
  rw [List.reverse_reverse]
  exact Stage.leads_token .endOfFile none

end Definitions

/-- Parsing undoes printing: the text of a legal program is parsed as that program, up to its
    annotations, which are not printed. -/
theorem parse_print {p : Program} (hlegal : p.Legal) : parse p.print = .ok p.bare := by
  obtain ⟨tokens, last, hdrain, hmarks⟩ :=
    Scanner.drain_writeLexemes (Program.spelled_lexemes hlegal)
  have hahead : (TokenStream.ofText p.print).ahead = tokens := congrArg Prod.fst hdrain
  have hstage : Parser.stage { stream := .ofText p.print } =
      ⟨[.nonterminal .program, .token .endOfFile], marks p.lexemes, []⟩ := by
    rw [Parser.stage, hahead, hmarks]
  obtain ⟨taken, final, hreaches, hfinal⟩ := leads_program hlegal _ hstage
  have hitems : final.items = [] := congrArg Stage.items hfinal
  have hnodes : final.nodes = [.program p.bare] := congrArg Stage.nodes hfinal
  have hends := Parser.run_budget_ne_endless (.ofText p.print)
  exact Parser.parse_eq_ok_iff.mpr ⟨final, Parser.run_of_reaches hreaches hitems hends, hnodes⟩

/-- A program with a right operand of the same level, a sum below a product, a conditional as an
    operand and as an argument, and an operation as a last branch. -/
def nestedProgram : Program :=
  let n : Expr := .identifier none "n"
  let one : Expr := .integer none "1"
  let choice (other : Expr) : Expr := .conditional none (.binary none .lessThan n one) one other
  { definitions :=
      [{ name := "main"
         parameters := { items := [{ name := "n", type := { base := .integer } }] }
         returnType := { base := .integer }
         body :=
          { prints :=
              [{ callee := "print"
                 arguments := { items := .cons none (.binary none .minus n
                   (.binary none .plus one (.unary none .minus n))) .nil } }]
            result := choice (.binary none .times (.binary none .plus (choice n) one)
              (.call none "main" none (.cons none (choice one) .nil))) } }] }

/-- Parentheses stand where the levels ask for them and around a conditional that is an operand. -/
theorem parse_print_nestedProgram : nestedProgram.Legal ∧ nestedProgram.print =
      "function main ( n : integer ) : integer print ( n - ( 1 + - n ) ) if n < 1 then 1 else " ++
        "( ( if n < 1 then 1 else n ) + 1 ) * main ( if n < 1 then 1 else 1 )" ∧
    parse nestedProgram.print = .ok nestedProgram := by
  have hmain : IsName "main" := ⟨⟨'m', rfl, rfl⟩, List.all_eq_true.mp rfl, by decide, by decide⟩
  have hn : IsName "n" := ⟨⟨'n', rfl, rfl⟩, List.all_eq_true.mp rfl, by decide, by decide⟩
  have hone : IsNumeral "1" := ⟨List.all_eq_true.mp rfl, .inr ⟨'1', rfl, by decide⟩, by decide⟩
  have hlegal : nestedProgram.Legal := by
    intro d hd
    obtain rfl := List.mem_singleton.mp hd
    refine ⟨hmain, by simpa using hn, ⟨?_, ?_⟩⟩
    · intro c hc
      obtain rfl := List.mem_singleton.mp hc
      exact ⟨rfl, none, _, rfl, hn, hone, hn⟩
    · exact ⟨⟨hn, hone⟩, hone, ⟨⟨⟨hn, hone⟩, hone, hn⟩, hone⟩, hmain, ⟨⟨hn, hone⟩, hone, hone⟩,
        trivial⟩
  exact ⟨hlegal, by decide +kernel, parse_print hlegal⟩

end Klein
