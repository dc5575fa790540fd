import Klein.Token

namespace Klein.Grammar

/-- The nonterminals of the grammar, in the order of the rows of its table. -/
inductive Nonterminal
  | program
  | definitionList
  | definition
  | parameterList
  | formalParameters
  | formalParametersRest
  | idWithType
  | typeName
  | body
  | printExpression
  | expression
  | expressionRest
  | simpleExpression
  | simpleExpressionRest
  | term
  | termRest
  | factor
  | factorRest
  | argumentList
  | formalArguments
  | formalArgumentsRest
  | literal
deriving DecidableEq, Repr, Inhabited

namespace Nonterminal

def all : List Nonterminal :=
  [program, definitionList, definition, parameterList, formalParameters, formalParametersRest,
   idWithType, typeName, body, printExpression, expression, expressionRest, simpleExpression,
   simpleExpressionRest, term, termRest, factor, factorRest, argumentList, formalArguments,
   formalArgumentsRest, literal]

/-- The name of a nonterminal in a table of rules. -/
def name : Nonterminal → String
  | program => "program"
  | definitionList => "definition_list"
  | definition => "definition"
  | parameterList => "parameter_list"
  | formalParameters => "formal_parameters"
  | formalParametersRest => "formal_parameters_rest"
  | idWithType => "id_with_type"
  | typeName => "type"
  | body => "body"
  | printExpression => "print_expression"
  | expression => "expression"
  | expressionRest => "expression_rest"
  | simpleExpression => "simple_expression"
  | simpleExpressionRest => "simple_expression_rest"
  | term => "term"
  | termRest => "term_rest"
  | factor => "factor"
  | factorRest => "factor_rest"
  | argumentList => "argument_list"
  | formalArguments => "formal_arguments"
  | formalArgumentsRest => "formal_arguments_rest"
  | literal => "literal"

def ofName? (text : String) : Option Nonterminal :=
  all.find? fun nonterminal => nonterminal.name == text

/-- The name of a nonterminal in a diagnostic. -/
def label (nonterminal : Nonterminal) : String :=
  nonterminal.name.map Char.toUpper

end Nonterminal

/-- The steps that build a tree while its text is parsed. -/
inductive Action
  | makeProgram
  | makeDefinitionList
  | makeDefinition
  | makeIdentifier
  | makeParameterList
  | makeIdWithType
  | makeIntegerType
  | makeBooleanType
  | makeBody
  | makeFunctionCallExpression
  | makeEqualsExpression
  | makeLessThanExpression
  | makeOrExpression
  | makePlusExpression
  | makeMinusExpression
  | makeTimesExpression
  | makeDivideExpression
  | makeAndExpression
  | makeNotExpression
  | makeUnaryMinusExpression
  | makeIfExpression
  | makeArgumentList
  | makeArgument
  | makeIntegerLiteral
  | makeBooleanLiteral
deriving DecidableEq, Repr, Inhabited

namespace Action

def all : List Action :=
  [makeProgram, makeDefinitionList, makeDefinition, makeIdentifier, makeParameterList,
   makeIdWithType, makeIntegerType, makeBooleanType, makeBody, makeFunctionCallExpression,
   makeEqualsExpression, makeLessThanExpression, makeOrExpression, makePlusExpression,
   makeMinusExpression, makeTimesExpression, makeDivideExpression, makeAndExpression,
   makeNotExpression, makeUnaryMinusExpression, makeIfExpression, makeArgumentList, makeArgument,
   makeIntegerLiteral, makeBooleanLiteral]

/-- The name of an action in a table of rules. -/
def name : Action → String
  | makeProgram => "make_program"
  | makeDefinitionList => "make_definition_list"
  | makeDefinition => "make_definition"
  | makeIdentifier => "make_identifier"
  | makeParameterList => "make_parameter_list"
  | makeIdWithType => "make_id_with_type"
  | makeIntegerType => "make_integer_type"
  | makeBooleanType => "make_boolean_type"
  | makeBody => "make_body"
  | makeFunctionCallExpression => "make_function_call_expression"
  | makeEqualsExpression => "make_equals_expression"
  | makeLessThanExpression => "make_less_than_expression"
  | makeOrExpression => "make_or_expression"
  | makePlusExpression => "make_plus_expression"
  | makeMinusExpression => "make_minus_expression"
  | makeTimesExpression => "make_times_expression"
  | makeDivideExpression => "make_divide_expression"
  | makeAndExpression => "make_and_expression"
  | makeNotExpression => "make_not_expression"
  | makeUnaryMinusExpression => "make_unary_minus_expression"
  | makeIfExpression => "make_if_expression"
  | makeArgumentList => "make_argument_list"
  | makeArgument => "make_argument"
  | makeIntegerLiteral => "make_integer_literal"
  | makeBooleanLiteral => "make_boolean_literal"

def ofName? (text : String) : Option Action :=
  all.find? fun action => action.name == text

end Action

/-- What a rule puts on the parser's stack. -/
inductive Item
  | nonterminal (n : Nonterminal)
  | token (k : Kind)
  | action (a : Action)
deriving DecidableEq, Repr, Inhabited

def Item.name : Item → String
  | .nonterminal n => n.name
  | .token k => k.name
  | .action a => a.name

/-- The item that a word of a table names. -/
def Item.ofName? (text : String) : Option Item :=
  match Nonterminal.ofName? text with
  | some n => some (.nonterminal n)
  | none =>
    match Kind.ofName? text with
    | some k => some (.token k)
    | none => (Action.ofName? text).map .action

/-- The rule for a nonterminal before a token of some kind, where there is one. -/
abbrev Rules := Nonterminal → Kind → Option (List Item)

end Klein.Grammar
