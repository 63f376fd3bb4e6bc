import Estree.Dialect

/-!
# Names of the emission procedures

A procedure writes one node. The procedures form a closed list, so that a registry is a finite piece
of data; what each of them does is `Procedure.doc`. Where the two dialects write a node differently
the procedure carries its dialect.
-/

namespace Estree

/-- An emission procedure. -/
inductive Procedure where
  -- statements
  | program | block | staticBlock | emptyStatement | expressionStatement | ifStatement
  | labeledStatement | jump | withStatement | switchStatement | returnStatement | throwStatement
  | tryStatement | whileStatement | doWhileStatement | forStatement | forEach
  | debuggerStatement
  -- functions, variables and classes
  | function (d : Dialect) | bodilessFunction | arrowFunction (d : Dialect)
  | variableDeclaration (d : Dialect) | variableDeclarator (d : Dialect)
  | classLike (d : Dialect) | classExpression | method (d : Dialect) | classField (d : Dialect)
  | parameterProperty | decorator
  -- imports, exports and namespaces
  | importDeclaration (d : Dialect) | importAttribute | importExpression (d : Dialect)
  | exportNamed (d : Dialect) | exportDefault | exportAll (d : Dialect)
  | moduleDeclaration | moduleBlock
  -- expressions and patterns
  | thisExpression | superExpression | restElement (d : Dialect) | yieldExpression
  | awaitExpression | templateLiteral | templateElement | taggedTemplate | arrayExpression
  | arrayPattern | objectExpression | objectPattern (d : Dialect) | property
  | sequenceExpression | unaryExpression | updateExpression | assignmentExpression
  | assignmentPattern | binaryExpression | conditionalExpression | newExpression (d : Dialect)
  | callExpression (d : Dialect) | chainExpression | memberExpression | metaProperty
  | identifier (d : Dialect) | privateIdentifier | literal | regExpLiteral
  -- typed expressions
  | asExpression | satisfiesExpression | typeAssertion | nonNullExpression
  -- declarations of types
  | interfaceDeclaration | interfaceBody | heritage | typeAlias | enumDeclaration | enumMember
  | typeLiteral | propertySignature | methodSignature | indexSignature | callSignature
  -- types
  | typeAnnot | keywordType | literalType | templateLiteralType | typeReference | qualifiedName
  | typeQuery | unionType | intersectionType | functionType | tupleType | optionalType | restType
  | parenthesizedType | namedTupleMember | arrayType | indexedAccessType | typeOperator
  | conditionalType | inferType | typePredicate | mappedType | typeParameters | typeParameter
  deriving DecidableEq, Repr

end Estree
