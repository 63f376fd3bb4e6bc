import Estree.Procedure
import Estree.Emit.Statement
import Estree.Emit.Operator
import Estree.Emit.Call
import Estree.Emit.Collection
import Estree.Emit.Class
import Estree.Emit.Export
import Estree.Emit.Namespace
import Estree.Emit.Assertion
import Estree.Emit.TypeExpression
import Estree.Emit.TypeDeclaration

/-!
# What each procedure writes

`Procedure.doc p s n` is the document that the procedure `p` makes of the node `n`, given the
dispatch and the ranks of the scope `s`. A procedure may be bound to any kind, so each of them says
what it does with a node that it does not expect.
-/

namespace Estree

/-- The document of a node by a procedure. -/
def Procedure.doc : Procedure → Scope → Node → Doc
  -- statements
  | .program => Emit.program
  | .block => Emit.block
  | .staticBlock => Emit.staticBlock
  | .emptyStatement => fun _ _ => ";"
  | .expressionStatement => Emit.expressionStatement
  | .ifStatement => Emit.ifStatement
  | .labeledStatement => Emit.labeledStatement
  | .jump => Emit.jump
  | .withStatement => Emit.withStatement
  | .switchStatement => Emit.switchStatement
  | .returnStatement => Emit.returnStatement
  | .throwStatement => Emit.throwStatement
  | .tryStatement => Emit.tryStatement
  | .whileStatement => Emit.whileStatement
  | .doWhileStatement => Emit.doWhileStatement
  | .forStatement => Emit.forStatement
  | .forEach => Emit.forEach
  | .debuggerStatement => fun _ _ => "debugger;"
  -- functions, variables and classes
  | .function .plain => Emit.Plain.function
  | .function .typed => Emit.Typed.function
  | .bodilessFunction => Emit.bodilessFunction
  | .arrowFunction .plain => Emit.Plain.arrowFunction
  | .arrowFunction .typed => Emit.Typed.arrowFunction
  | .variableDeclaration .plain => Emit.Plain.variableDeclaration
  | .variableDeclaration .typed => Emit.Typed.variableDeclaration
  | .variableDeclarator .plain => Emit.Plain.variableDeclarator
  | .variableDeclarator .typed => Emit.Typed.variableDeclarator
  | .classLike .plain => Emit.Plain.classLike
  | .classLike .typed => Emit.Typed.classLike
  | .classExpression => Emit.classExpression
  | .method .plain => Emit.Plain.method
  | .method .typed => Emit.Typed.method
  | .classField .plain => Emit.Plain.classField
  | .classField .typed => Emit.Typed.classField
  | .parameterProperty => Emit.parameterProperty
  | .decorator => Emit.decorator
  -- imports, exports and namespaces
  | .importDeclaration d => Emit.importDeclaration d
  | .importAttribute => Emit.importAttribute
  | .importExpression .plain => Emit.Plain.importExpression
  | .importExpression .typed => Emit.Typed.importExpression
  | .exportNamed d => Emit.exportNamed d
  | .exportDefault => Emit.exportDefault
  | .exportAll d => Emit.exportAll d
  | .moduleDeclaration => Emit.moduleDeclaration
  | .moduleBlock => Emit.moduleBlock
  -- expressions and patterns
  | .thisExpression => fun _ _ => "this"
  | .superExpression => fun _ _ => "super"
  | .restElement .plain => Emit.Plain.restElement
  | .restElement .typed => Emit.Typed.restElement
  | .yieldExpression => Emit.yieldExpression
  | .awaitExpression => Emit.awaitExpression
  | .templateLiteral => Emit.templateLiteral
  | .templateElement => fun _ => Emit.templateElement
  | .taggedTemplate => Emit.taggedTemplate
  | .arrayExpression => Emit.arrayExpression
  | .arrayPattern => Emit.arrayPattern
  | .objectExpression => Emit.objectExpression
  | .objectPattern .plain => Emit.Plain.objectPattern
  | .objectPattern .typed => Emit.Typed.objectPattern
  | .property => Emit.property
  | .sequenceExpression => Emit.sequenceExpression
  | .unaryExpression => Emit.unaryExpression
  | .updateExpression => Emit.updateExpression
  | .assignmentExpression => Emit.assignmentExpression
  | .assignmentPattern => Emit.assignmentPattern
  | .binaryExpression => Emit.binaryExpression
  | .conditionalExpression => Emit.conditionalExpression
  | .newExpression .plain => Emit.Plain.newExpression
  | .newExpression .typed => Emit.Typed.newExpression
  | .callExpression .plain => Emit.Plain.callExpression
  | .callExpression .typed => Emit.Typed.callExpression
  | .chainExpression => Emit.chainExpression
  | .memberExpression => Emit.memberExpression
  | .metaProperty => fun _ => Emit.metaProperty
  | .identifier .plain => fun _ => Emit.Plain.identifier
  | .identifier .typed => Emit.Typed.identifier
  | .privateIdentifier => fun _ => Emit.privateIdentifier
  | .literal => fun _ => Emit.literal
  | .regExpLiteral => fun _ => Emit.regExpLiteral
  -- typed expressions
  | .asExpression => Emit.asExpression
  | .satisfiesExpression => Emit.satisfiesExpression
  | .typeAssertion => Emit.typeAssertion
  | .nonNullExpression => Emit.nonNullExpression
  -- declarations of types
  | .interfaceDeclaration => Emit.interfaceDeclaration
  | .interfaceBody => Emit.interfaceBody
  | .heritage => Emit.heritage
  | .typeAlias => Emit.typeAlias
  | .enumDeclaration => Emit.enumDeclaration
  | .enumMember => Emit.enumMember
  | .typeLiteral => Emit.typeLiteral
  | .propertySignature => Emit.propertySignature
  | .methodSignature => Emit.methodSignature
  | .indexSignature => Emit.indexSignature
  | .callSignature => Emit.callSignature
  -- types
  | .typeAnnot => Emit.typeAnnot
  | .keywordType => fun _ => Emit.keywordType
  | .literalType => Emit.literalType
  | .templateLiteralType => Emit.templateLiteralType
  | .typeReference => Emit.typeReference
  | .qualifiedName => Emit.qualifiedName
  | .typeQuery => Emit.typeQuery
  | .unionType => Emit.unionType
  | .intersectionType => Emit.intersectionType
  | .functionType => Emit.functionType
  | .tupleType => Emit.tupleType
  | .optionalType => Emit.optionalType
  | .restType => Emit.restType
  | .parenthesizedType => Emit.parenthesizedType
  | .namedTupleMember => Emit.namedTupleMember
  | .arrayType => Emit.arrayType
  | .indexedAccessType => Emit.indexedAccessType
  | .typeOperator => Emit.typeOperator
  | .conditionalType => Emit.conditionalType
  | .inferType => Emit.inferType
  | .typePredicate => Emit.typePredicate
  | .mappedType => Emit.mappedType
  | .typeParameters => Emit.typeParameters
  | .typeParameter => Emit.typeParameter

end Estree
