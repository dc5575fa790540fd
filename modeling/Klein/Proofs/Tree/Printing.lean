import Klein.Proofs.Scanner.Writing
import Klein.Proofs.Tree.Legal

namespace Klein

/-- How tightly an operator binds, counted from the loosest operators. -/
def BinaryOp.level : BinaryOp → Nat
  | equals | lessThan => 1
  | plus | minus | or => 2
  | times | divide | and => 3

def BinaryOp.kind : BinaryOp → Kind
  | equals => .equal
  | lessThan => .lessThan
  | or => .keywordOr
  | plus => .plus
  | minus => .minus
  | times => .times
  | divide => .divide
  | and => .keywordAnd

def UnaryOp.kind : UnaryOp → Kind
  | not => .keywordNot
  | minus => .minus

/-- The level of the operators that take one operand. -/
def unaryLevel : Nat := 4

/-- The level of an expression. A conditional is looser than all operations. -/
def Expr.level : Expr → Nat
  | .conditional .. => 0
  | .binary _ op _ _ => op.level
  | .unary .. => unaryLevel
  | .integer .. | .boolean .. | .identifier .. | .call .. => 5

def parenthesised (lexemes : List Lexeme) : List Lexeme :=
  Kind.leftParen.lexeme :: lexemes ++ [Kind.rightParen.lexeme]

def parenthesisedIf (condition : Bool) (lexemes : List Lexeme) : List Lexeme :=
  if condition then parenthesised lexemes else lexemes

mutual

/-- What is written for an expression. A left operand is parenthesised if it is looser than its
    operator, a right one also if it is of the same level. -/
def Expr.lexemes : Expr → List Lexeme
  | .integer _ text => [⟨.integer, text⟩]
  | .boolean _ text => [⟨.boolean, text⟩]
  | .identifier _ name => [⟨.identifier, name⟩]
  | .unary _ op value => op.kind.lexeme :: parenthesisedIf (value.level < unaryLevel) value.lexemes
  | .binary _ op left right =>
    parenthesisedIf (left.level < op.level) left.lexemes ++
      op.kind.lexeme :: parenthesisedIf (right.level ≤ op.level) right.lexemes
  | .conditional _ condition consequent alternative =>
    Kind.keywordIf.lexeme :: condition.lexemes ++
      Kind.keywordThen.lexeme :: consequent.lexemes ++
      Kind.keywordElse.lexeme :: alternative.lexemes
  | .call _ callee _ arguments => ⟨.identifier, callee⟩ :: parenthesised arguments.lexemes

/-- What is written for arguments, with a comma between neighbours. -/
def Arguments.lexemes : Arguments → List Lexeme
  | .nil => []
  | .cons _ value .nil => value.lexemes
  | .cons _ value rest => value.lexemes ++ Kind.comma.lexeme :: rest.lexemes

end

theorem Arguments.lexemes_cons_cons (tag next : Tag) (value other : Expr) (rest : Arguments) :
    (Arguments.cons tag value (.cons next other rest)).lexemes =
      value.lexemes ++ Kind.comma.lexeme :: (Arguments.cons next other rest).lexemes := by
  rw [lexemes]
  exact nofun

def BaseType.lexeme : BaseType → Lexeme
  | integer => Kind.keywordInteger.lexeme
  | boolean => Kind.keywordBoolean.lexeme

def Parameter.lexemes (p : Parameter) : List Lexeme :=
  [⟨.identifier, p.name⟩, Kind.colon.lexeme, p.type.base.lexeme]

def ParameterList.lexemes (l : ParameterList) : List Lexeme :=
  [Kind.comma.lexeme].intercalate (l.items.map Parameter.lexemes)

/-- What is written for a call that is made for its output. -/
def Call.lexemes (c : Call) : List Lexeme :=
  ⟨.keywordPrint, c.callee⟩ :: parenthesised c.arguments.items.lexemes

def Body.lexemes (b : Body) : List Lexeme :=
  b.prints.flatMap Call.lexemes ++ b.result.lexemes

def Definition.lexemes (d : Definition) : List Lexeme :=
  Kind.keywordFunction.lexeme :: ⟨.identifier, d.name⟩ :: parenthesised d.parameters.lexemes ++
    Kind.colon.lexeme :: d.returnType.base.lexeme :: d.body.lexemes

def Program.lexemes (p : Program) : List Lexeme :=
  p.definitions.flatMap Definition.lexemes

/-- The text of a program, with a space between neighbouring lexemes. -/
def Program.print (p : Program) : String :=
  writeLexemes p.lexemes

/-- Lexemes that spell their kinds. -/
def Spelled (lexemes : List Lexeme) : Prop :=
  ∀ lexeme ∈ lexemes, lexeme.kind.Spells lexeme.text

@[simp]
theorem spelled_nil : Spelled [] := by
  simp [Spelled]

@[simp]
theorem spelled_cons {lexeme : Lexeme} {lexemes : List Lexeme} :
    Spelled (lexeme :: lexemes) ↔ lexeme.kind.Spells lexeme.text ∧ Spelled lexemes := by
  simp [Spelled]

@[simp]
theorem spelled_append {lexemes others : List Lexeme} :
    Spelled (lexemes ++ others) ↔ Spelled lexemes ∧ Spelled others := by
  simp [Spelled, or_imp, forall_and]

theorem Kind.spells_lexeme {kind : Kind} {text : String} (hspelling : kind.spelling? = some text) :
    kind.lexeme.kind.Spells kind.lexeme.text := by
  rw [lexeme, hspelling]
  exact spells_of_spelling hspelling

theorem BinaryOp.spells_lexeme (op : BinaryOp) :
    op.kind.lexeme.kind.Spells op.kind.lexeme.text := by
  cases op <;> exact Kind.spells_lexeme rfl

theorem UnaryOp.spells_lexeme (op : UnaryOp) :
    op.kind.lexeme.kind.Spells op.kind.lexeme.text := by
  cases op <;> exact Kind.spells_lexeme rfl

theorem BaseType.spells_lexeme (base : BaseType) : base.lexeme.kind.Spells base.lexeme.text := by
  cases base <;> exact Kind.spells_lexeme rfl

@[simp]
theorem spelled_parenthesised {lexemes : List Lexeme} :
    Spelled (parenthesised lexemes) ↔ Spelled lexemes := by
  have hopen : Kind.leftParen.lexeme.kind.Spells Kind.leftParen.lexeme.text :=
    Kind.spells_lexeme rfl
  have hclose : Kind.rightParen.lexeme.kind.Spells Kind.rightParen.lexeme.text :=
    Kind.spells_lexeme rfl
  simp [parenthesised, hopen, hclose]

@[simp]
theorem spelled_parenthesisedIf {condition : Bool} {lexemes : List Lexeme} :
    Spelled (parenthesisedIf condition lexemes) ↔ Spelled lexemes := by
  cases condition <;> simp [parenthesisedIf]

mutual

theorem Expr.spelled_lexemes : (e : Expr) → e.Legal → Spelled e.lexemes
  | .integer _ _, hlegal | .boolean _ _, hlegal | .identifier _ _, hlegal =>
    spelled_cons.mpr ⟨hlegal, spelled_nil⟩
  | .unary _ op value, hlegal => by
    simpa [Expr.lexemes] using ⟨op.spells_lexeme, value.spelled_lexemes hlegal⟩
  | .binary _ op left right, hlegal => by
    simpa [Expr.lexemes] using
      ⟨left.spelled_lexemes hlegal.1, op.spells_lexeme, right.spelled_lexemes hlegal.2⟩
  | .conditional _ condition consequent alternative, hlegal => by
    simpa [Expr.lexemes] using
      ⟨Kind.spells_lexeme rfl, condition.spelled_lexemes hlegal.1, Kind.spells_lexeme rfl,
        consequent.spelled_lexemes hlegal.2.1, Kind.spells_lexeme rfl,
        alternative.spelled_lexemes hlegal.2.2⟩
  | .call _ _ _ arguments, hlegal => by
    simpa [Expr.lexemes] using ⟨hlegal.1, arguments.spelled_lexemes hlegal.2⟩

theorem Arguments.spelled_lexemes :
    (arguments : Arguments) → arguments.Legal → Spelled arguments.lexemes
  | .nil, _ => spelled_nil
  | .cons _ value .nil, hlegal => value.spelled_lexemes hlegal.1
  | .cons _ value (.cons tag other rest), hlegal => by
    simpa [Arguments.lexemes] using
      ⟨value.spelled_lexemes hlegal.1, Kind.spells_lexeme rfl,
        (Arguments.cons tag other rest).spelled_lexemes hlegal.2⟩

end

theorem spelled_flatMap {α : Type} {items : List α} {f : α → List Lexeme} :
    Spelled (items.flatMap f) ↔ ∀ a ∈ items, Spelled (f a) := by
  induction items with
  | nil => simp
  | cons a items ih => simp [ih]

theorem spelled_intercalate {separator : List Lexeme} {parts : List (List Lexeme)}
    (hseparator : Spelled separator) (hparts : ∀ part ∈ parts, Spelled part) :
    Spelled (separator.intercalate parts) := by
  induction parts with
  | nil => simp
  | cons part parts ih =>
    cases parts with
    | nil => simpa using hparts part (by simp)
    | cons next parts =>
      rw [List.intercalate_cons_cons]
      simp only [spelled_append]
      exact ⟨⟨hparts part (by simp), hseparator⟩, ih fun other hother => hparts other (by simp_all)⟩

theorem Parameter.spelled_lexemes {p : Parameter} (hname : IsName p.name) : Spelled p.lexemes := by
  simpa [lexemes] using ⟨hname, Kind.spells_lexeme rfl, p.type.base.spells_lexeme⟩

theorem Call.spelled_lexemes {c : Call} (hprint : c.IsPrint) : Spelled c.lexemes := by
  obtain ⟨tag, value, hitems, hlegal⟩ := hprint.argument
  have hcallee : Kind.keywordPrint.Spells c.callee := by
    rw [hprint.callee]
    rfl
  simpa [lexemes, hitems, Arguments.lexemes] using ⟨hcallee, value.spelled_lexemes hlegal⟩

theorem Body.spelled_lexemes {b : Body} (hlegal : b.Legal) : Spelled b.lexemes := by
  rw [lexemes, spelled_append, spelled_flatMap]
  exact ⟨fun c hc => Call.spelled_lexemes (hlegal.prints c hc),
    b.result.spelled_lexemes hlegal.result⟩

theorem Definition.spelled_lexemes {d : Definition} (hlegal : d.Legal) : Spelled d.lexemes := by
  have hparameters : Spelled d.parameters.lexemes := by
    apply spelled_intercalate
    · simpa using Kind.spells_lexeme rfl
    · simpa using fun p hp => Parameter.spelled_lexemes (hlegal.parameters p hp)
  simpa [lexemes] using
    ⟨Kind.spells_lexeme rfl, hlegal.name, hparameters, Kind.spells_lexeme rfl,
      d.returnType.base.spells_lexeme, Body.spelled_lexemes hlegal.body⟩

theorem Program.spelled_lexemes {p : Program} (hlegal : p.Legal) : Spelled p.lexemes := by
  rw [lexemes, spelled_flatMap]
  exact fun d hd => Definition.spelled_lexemes (hlegal d hd)

mutual

/-- An expression with its annotations taken off. -/
def Expr.bare : Expr → Expr
  | .integer _ text => .integer none text
  | .boolean _ text => .boolean none text
  | .identifier _ name => .identifier none name
  | .unary _ op value => .unary none op value.bare
  | .binary _ op left right => .binary none op left.bare right.bare
  | .conditional _ condition consequent alternative =>
    .conditional none condition.bare consequent.bare alternative.bare
  | .call _ callee _ arguments => .call none callee none arguments.bare

def Arguments.bare : Arguments → Arguments
  | .nil => .nil
  | .cons _ value rest => .cons none value.bare rest.bare

end

def TypeNode.bare (t : TypeNode) : TypeNode :=
  { base := t.base }

def Parameter.bare (p : Parameter) : Parameter :=
  { name := p.name, type := p.type.bare }

def ParameterList.bare (l : ParameterList) : ParameterList :=
  { items := l.items.map Parameter.bare }

def Call.bare (c : Call) : Call :=
  { callee := c.callee, arguments := { items := c.arguments.items.bare } }

def Body.bare (b : Body) : Body :=
  { prints := b.prints.map Call.bare, result := b.result.bare }

def Definition.bare (d : Definition) : Definition :=
  { name := d.name, parameters := d.parameters.bare, returnType := d.returnType.bare,
    body := d.body.bare }

/-- A program with its annotations taken off. -/
def Program.bare (p : Program) : Program :=
  { definitions := p.definitions.map Definition.bare }

end Klein
