import Klein.Grammar.Basic

namespace Klein.Grammar

/-- The rules of Klein. Each rule carries the actions that build the tree of what it matches. An
    operator's action follows its right operand, so operators of one level group to the left. -/
def rules : Rules
  | .program, .keywordFunction | .program, .endOfFile =>
    some [.nonterminal .definitionList, .action .makeDefinitionList, .action .makeProgram]
  | .definitionList, .keywordFunction =>
    some [.nonterminal .definition, .nonterminal .definitionList]
  | .definitionList, .endOfFile =>
    some []
  | .definition, .keywordFunction =>
    some
      [.token .keywordFunction, .token .identifier, .action .makeIdentifier, .token .leftParen,
       .nonterminal .parameterList, .action .makeParameterList, .token .rightParen, .token .colon,
       .nonterminal .typeName, .nonterminal .body, .action .makeDefinition]
  | .parameterList, .identifier =>
    some [.nonterminal .formalParameters]
  | .parameterList, .rightParen =>
    some []
  | .formalParameters, .identifier =>
    some [.nonterminal .idWithType, .nonterminal .formalParametersRest]
  | .formalParametersRest, .rightParen =>
    some []
  | .formalParametersRest, .comma =>
    some [.token .comma, .nonterminal .idWithType, .nonterminal .formalParametersRest]
  | .idWithType, .identifier =>
    some
      [.token .identifier, .action .makeIdentifier, .token .colon, .nonterminal .typeName,
       .action .makeIdWithType]
  | .typeName, .keywordInteger =>
    some [.token .keywordInteger, .action .makeIntegerType]
  | .typeName, .keywordBoolean =>
    some [.token .keywordBoolean, .action .makeBooleanType]
  | .body, .keywordIf | .body, .keywordNot | .body, .identifier | .body, .integer
  | .body, .boolean | .body, .leftParen | .body, .minus =>
    some [.nonterminal .expression, .action .makeBody]
  | .body, .keywordPrint =>
    some [.nonterminal .printExpression, .nonterminal .body]
  | .printExpression, .keywordPrint =>
    some
      [.token .keywordPrint, .action .makeIdentifier, .token .leftParen, .nonterminal .expression,
       .action .makeArgument, .action .makeArgumentList, .token .rightParen,
       .action .makeFunctionCallExpression]
  | .expression, .keywordIf | .expression, .keywordNot | .expression, .identifier
  | .expression, .integer | .expression, .boolean | .expression, .leftParen
  | .expression, .minus =>
    some [.nonterminal .simpleExpression, .nonterminal .expressionRest]
  | .expressionRest, .keywordThen | .expressionRest, .keywordElse
  | .expressionRest, .keywordFunction | .expressionRest, .rightParen | .expressionRest, .comma
  | .expressionRest, .endOfFile =>
    some []
  | .expressionRest, .lessThan =>
    some
      [.token .lessThan, .nonterminal .simpleExpression, .action .makeLessThanExpression,
       .nonterminal .expressionRest]
  | .expressionRest, .equal =>
    some
      [.token .equal, .nonterminal .simpleExpression, .action .makeEqualsExpression,
       .nonterminal .expressionRest]
  | .simpleExpression, .keywordIf | .simpleExpression, .keywordNot
  | .simpleExpression, .identifier | .simpleExpression, .integer | .simpleExpression, .boolean
  | .simpleExpression, .leftParen | .simpleExpression, .minus =>
    some [.nonterminal .term, .nonterminal .simpleExpressionRest]
  | .simpleExpressionRest, .keywordThen | .simpleExpressionRest, .keywordElse
  | .simpleExpressionRest, .keywordFunction | .simpleExpressionRest, .rightParen
  | .simpleExpressionRest, .comma | .simpleExpressionRest, .lessThan
  | .simpleExpressionRest, .equal | .simpleExpressionRest, .endOfFile =>
    some []
  | .simpleExpressionRest, .keywordOr =>
    some
      [.token .keywordOr, .nonterminal .term, .action .makeOrExpression,
       .nonterminal .simpleExpressionRest]
  | .simpleExpressionRest, .plus =>
    some
      [.token .plus, .nonterminal .term, .action .makePlusExpression,
       .nonterminal .simpleExpressionRest]
  | .simpleExpressionRest, .minus =>
    some
      [.token .minus, .nonterminal .term, .action .makeMinusExpression,
       .nonterminal .simpleExpressionRest]
  | .term, .keywordIf | .term, .keywordNot | .term, .identifier | .term, .integer
  | .term, .boolean | .term, .leftParen | .term, .minus =>
    some [.nonterminal .factor, .nonterminal .termRest]
  | .termRest, .keywordThen | .termRest, .keywordElse | .termRest, .keywordOr
  | .termRest, .keywordFunction | .termRest, .rightParen | .termRest, .comma | .termRest, .plus
  | .termRest, .minus | .termRest, .lessThan | .termRest, .equal | .termRest, .endOfFile =>
    some []
  | .termRest, .keywordAnd =>
    some [.token .keywordAnd, .nonterminal .factor, .action .makeAndExpression, .nonterminal .termRest]
  | .termRest, .times =>
    some [.token .times, .nonterminal .factor, .action .makeTimesExpression, .nonterminal .termRest]
  | .termRest, .divide =>
    some [.token .divide, .nonterminal .factor, .action .makeDivideExpression, .nonterminal .termRest]
  | .factor, .keywordIf =>
    some
      [.token .keywordIf, .nonterminal .expression, .token .keywordThen, .nonterminal .expression,
       .token .keywordElse, .nonterminal .expression, .action .makeIfExpression]
  | .factor, .keywordNot =>
    some [.token .keywordNot, .nonterminal .factor, .action .makeNotExpression]
  | .factor, .identifier =>
    some [.token .identifier, .action .makeIdentifier, .nonterminal .factorRest]
  | .factor, .integer | .factor, .boolean =>
    some [.nonterminal .literal]
  | .factor, .leftParen =>
    some [.token .leftParen, .nonterminal .expression, .token .rightParen]
  | .factor, .minus =>
    some [.token .minus, .nonterminal .factor, .action .makeUnaryMinusExpression]
  | .factorRest, .keywordThen | .factorRest, .keywordElse | .factorRest, .keywordAnd
  | .factorRest, .keywordOr | .factorRest, .keywordFunction | .factorRest, .rightParen
  | .factorRest, .comma | .factorRest, .plus | .factorRest, .minus | .factorRest, .times
  | .factorRest, .divide | .factorRest, .lessThan | .factorRest, .equal
  | .factorRest, .endOfFile =>
    some []
  | .factorRest, .leftParen =>
    some
      [.token .leftParen, .nonterminal .argumentList, .action .makeArgumentList, .token .rightParen,
       .action .makeFunctionCallExpression]
  | .argumentList, .keywordIf | .argumentList, .keywordNot | .argumentList, .identifier
  | .argumentList, .integer | .argumentList, .boolean | .argumentList, .leftParen
  | .argumentList, .minus =>
    some [.nonterminal .formalArguments]
  | .argumentList, .rightParen =>
    some []
  | .formalArguments, .keywordIf | .formalArguments, .keywordNot
  | .formalArguments, .identifier | .formalArguments, .integer | .formalArguments, .boolean
  | .formalArguments, .leftParen | .formalArguments, .minus =>
    some [.nonterminal .expression, .action .makeArgument, .nonterminal .formalArgumentsRest]
  | .formalArgumentsRest, .rightParen =>
    some []
  | .formalArgumentsRest, .comma =>
    some
      [.token .comma, .nonterminal .expression, .action .makeArgument,
       .nonterminal .formalArgumentsRest]
  | .literal, .integer =>
    some [.token .integer, .action .makeIntegerLiteral]
  | .literal, .boolean =>
    some [.token .boolean, .action .makeBooleanLiteral]
  | _, _ => none

/-- The kinds of token in the order of the columns of the table. -/
def columns : List Kind :=
  [.keywordInteger, .keywordBoolean, .keywordIf, .keywordThen, .keywordElse, .keywordNot,
   .keywordAnd, .keywordOr, .keywordFunction, .keywordPrint, .identifier, .integer, .boolean,
   .leftParen, .rightParen, .comma, .colon, .plus, .minus, .times, .divide, .lessThan, .equal,
   .endOfFile]

end Klein.Grammar
