/-!
# The kinds of ESTree nodes

A kind is what the `type` field of an ESTree object selects. It is the key of the dispatch registry
and of the precedence table. The declaration order below is the order of the kinds: `Kind.all` lists
it, `Kind.index` numbers it, and reports about kinds follow it.

    Kind.ofTag? k.tag = some k
-/

namespace Estree

/-! ## §1. Kinds. -/

/-- The kind of a node: one constructor for each ESTree tag that can be loaded. -/
inductive Kind where
  | program
  | blockStatement | classBody | staticBlock | emptyStatement | expressionStatement | ifStatement
  | labeledStatement | breakStatement | continueStatement | withStatement | switchStatement
  | returnStatement | throwStatement | tryStatement | whileStatement | doWhileStatement
  | forStatement | forInStatement | forOfStatement | debuggerStatement
  | functionDeclaration | functionExpression | arrowFunctionExpression | variableDeclaration
  | variableDeclarator | classDeclaration | classExpression
  | importDeclaration | importSpecifier | importDefaultSpecifier | importNamespaceSpecifier
  | importAttribute | importExpression | exportNamedDeclaration | exportSpecifier
  | exportDefaultDeclaration | exportAllDeclaration
  | methodDefinition | propertyDefinition | accessorProperty | decorator
  | thisExpression | super | restElement | spreadElement | yieldExpression | awaitExpression
  | templateLiteral | templateElement | taggedTemplateExpression | arrayExpression | arrayPattern
  | objectExpression | objectPattern | property | sequenceExpression | unaryExpression
  | updateExpression | assignmentExpression | assignmentPattern | binaryExpression
  | logicalExpression | conditionalExpression | newExpression | callExpression | chainExpression
  | memberExpression | metaProperty | identifier | privateIdentifier | literal | regExpLiteral
  | tsAsExpression | tsSatisfiesExpression | tsTypeAssertion | tsNonNullExpression
  | tsDeclareFunction | tsEmptyBodyFunctionExpression | tsAbstractMethodDefinition
  | tsAbstractPropertyDefinition | tsAbstractAccessorProperty | tsParameterProperty
  | tsInterfaceDeclaration | tsInterfaceBody | tsInterfaceHeritage
  | tsExpressionWithTypeArguments | tsClassImplements | tsTypeAliasDeclaration
  | tsEnumDeclaration | tsEnumMember | tsModuleDeclaration | tsModuleBlock
  | tsTypeAnnot | tsAnyKeyword | tsBigIntKeyword | tsBooleanKeyword | tsIntrinsicKeyword
  | tsNeverKeyword | tsNullKeyword | tsNumberKeyword | tsObjectKeyword | tsStringKeyword
  | tsSymbolKeyword | tsUndefinedKeyword | tsUnknownKeyword | tsVoidKeyword | tsThisType
  | tsLiteralType | tsTemplateLiteralType | tsTypeReference | tsQualifiedName | tsTypeQuery
  | tsUnionType | tsIntersectionType | tsTupleType | tsOptionalType | tsRestType
  | tsParenthesizedType | tsNamedTupleMember | tsArrayType | tsIndexedAccessType | tsTypeOperator
  | tsConditionalType | tsInferType | tsTypePredicate | tsFunctionType | tsConstructorType
  | tsConstructSignatureDeclaration | tsCallSignatureDeclaration | tsMappedType | tsTypeLiteral
  | tsPropertySignature | tsMethodSignature | tsIndexSignature | tsTypeParameterDeclaration
  | tsTypeParameterInstantiation | tsTypeParameter
  deriving DecidableEq, Repr

namespace Kind

/-- Every kind, in declaration order. -/
def all : List Kind := [
  .program, .blockStatement, .classBody, .staticBlock, .emptyStatement, .expressionStatement,
  .ifStatement, .labeledStatement, .breakStatement, .continueStatement, .withStatement,
  .switchStatement, .returnStatement, .throwStatement, .tryStatement, .whileStatement,
  .doWhileStatement, .forStatement, .forInStatement, .forOfStatement, .debuggerStatement,
  .functionDeclaration, .functionExpression, .arrowFunctionExpression, .variableDeclaration,
  .variableDeclarator, .classDeclaration, .classExpression, .importDeclaration, .importSpecifier,
  .importDefaultSpecifier, .importNamespaceSpecifier, .importAttribute, .importExpression,
  .exportNamedDeclaration, .exportSpecifier, .exportDefaultDeclaration, .exportAllDeclaration,
  .methodDefinition, .propertyDefinition, .accessorProperty, .decorator, .thisExpression, .super,
  .restElement, .spreadElement, .yieldExpression, .awaitExpression, .templateLiteral,
  .templateElement, .taggedTemplateExpression, .arrayExpression, .arrayPattern,
  .objectExpression, .objectPattern, .property, .sequenceExpression, .unaryExpression,
  .updateExpression, .assignmentExpression, .assignmentPattern, .binaryExpression,
  .logicalExpression, .conditionalExpression, .newExpression, .callExpression, .chainExpression,
  .memberExpression, .metaProperty, .identifier, .privateIdentifier, .literal, .regExpLiteral,
  .tsAsExpression, .tsSatisfiesExpression, .tsTypeAssertion, .tsNonNullExpression,
  .tsDeclareFunction, .tsEmptyBodyFunctionExpression, .tsAbstractMethodDefinition,
  .tsAbstractPropertyDefinition, .tsAbstractAccessorProperty, .tsParameterProperty,
  .tsInterfaceDeclaration, .tsInterfaceBody, .tsInterfaceHeritage,
  .tsExpressionWithTypeArguments, .tsClassImplements, .tsTypeAliasDeclaration,
  .tsEnumDeclaration, .tsEnumMember, .tsModuleDeclaration, .tsModuleBlock, .tsTypeAnnot,
  .tsAnyKeyword, .tsBigIntKeyword, .tsBooleanKeyword, .tsIntrinsicKeyword, .tsNeverKeyword,
  .tsNullKeyword, .tsNumberKeyword, .tsObjectKeyword, .tsStringKeyword, .tsSymbolKeyword,
  .tsUndefinedKeyword, .tsUnknownKeyword, .tsVoidKeyword, .tsThisType, .tsLiteralType,
  .tsTemplateLiteralType, .tsTypeReference, .tsQualifiedName, .tsTypeQuery, .tsUnionType,
  .tsIntersectionType, .tsTupleType, .tsOptionalType, .tsRestType, .tsParenthesizedType,
  .tsNamedTupleMember, .tsArrayType, .tsIndexedAccessType, .tsTypeOperator, .tsConditionalType,
  .tsInferType, .tsTypePredicate, .tsFunctionType, .tsConstructorType,
  .tsConstructSignatureDeclaration, .tsCallSignatureDeclaration, .tsMappedType, .tsTypeLiteral,
  .tsPropertySignature, .tsMethodSignature, .tsIndexSignature, .tsTypeParameterDeclaration,
  .tsTypeParameterInstantiation, .tsTypeParameter]

/-- The position of a kind in `all`. -/
def index (k : Kind) : Nat := k.ctorIdx

/-- The kind at a position, if there is one. -/
def ofIndex? (i : Nat) : Option Kind := all[i]?

/-! ## §2. Tags. -/

/-- The ESTree tag of a kind, as the `type` field spells it. -/
def tag : Kind → String
  | .program => "Program"
  | .blockStatement => "BlockStatement"
  | .classBody => "ClassBody"
  | .staticBlock => "StaticBlock"
  | .emptyStatement => "EmptyStatement"
  | .expressionStatement => "ExpressionStatement"
  | .ifStatement => "IfStatement"
  | .labeledStatement => "LabeledStatement"
  | .breakStatement => "BreakStatement"
  | .continueStatement => "ContinueStatement"
  | .withStatement => "WithStatement"
  | .switchStatement => "SwitchStatement"
  | .returnStatement => "ReturnStatement"
  | .throwStatement => "ThrowStatement"
  | .tryStatement => "TryStatement"
  | .whileStatement => "WhileStatement"
  | .doWhileStatement => "DoWhileStatement"
  | .forStatement => "ForStatement"
  | .forInStatement => "ForInStatement"
  | .forOfStatement => "ForOfStatement"
  | .debuggerStatement => "DebuggerStatement"
  | .functionDeclaration => "FunctionDeclaration"
  | .functionExpression => "FunctionExpression"
  | .arrowFunctionExpression => "ArrowFunctionExpression"
  | .variableDeclaration => "VariableDeclaration"
  | .variableDeclarator => "VariableDeclarator"
  | .classDeclaration => "ClassDeclaration"
  | .classExpression => "ClassExpression"
  | .importDeclaration => "ImportDeclaration"
  | .importSpecifier => "ImportSpecifier"
  | .importDefaultSpecifier => "ImportDefaultSpecifier"
  | .importNamespaceSpecifier => "ImportNamespaceSpecifier"
  | .importAttribute => "ImportAttribute"
  | .importExpression => "ImportExpression"
  | .exportNamedDeclaration => "ExportNamedDeclaration"
  | .exportSpecifier => "ExportSpecifier"
  | .exportDefaultDeclaration => "ExportDefaultDeclaration"
  | .exportAllDeclaration => "ExportAllDeclaration"
  | .methodDefinition => "MethodDefinition"
  | .propertyDefinition => "PropertyDefinition"
  | .accessorProperty => "AccessorProperty"
  | .decorator => "Decorator"
  | .thisExpression => "ThisExpression"
  | .super => "Super"
  | .restElement => "RestElement"
  | .spreadElement => "SpreadElement"
  | .yieldExpression => "YieldExpression"
  | .awaitExpression => "AwaitExpression"
  | .templateLiteral => "TemplateLiteral"
  | .templateElement => "TemplateElement"
  | .taggedTemplateExpression => "TaggedTemplateExpression"
  | .arrayExpression => "ArrayExpression"
  | .arrayPattern => "ArrayPattern"
  | .objectExpression => "ObjectExpression"
  | .objectPattern => "ObjectPattern"
  | .property => "Property"
  | .sequenceExpression => "SequenceExpression"
  | .unaryExpression => "UnaryExpression"
  | .updateExpression => "UpdateExpression"
  | .assignmentExpression => "AssignmentExpression"
  | .assignmentPattern => "AssignmentPattern"
  | .binaryExpression => "BinaryExpression"
  | .logicalExpression => "LogicalExpression"
  | .conditionalExpression => "ConditionalExpression"
  | .newExpression => "NewExpression"
  | .callExpression => "CallExpression"
  | .chainExpression => "ChainExpression"
  | .memberExpression => "MemberExpression"
  | .metaProperty => "MetaProperty"
  | .identifier => "Identifier"
  | .privateIdentifier => "PrivateIdentifier"
  | .literal => "Literal"
  | .regExpLiteral => "RegExpLiteral"
  | .tsAsExpression => "TSAsExpression"
  | .tsSatisfiesExpression => "TSSatisfiesExpression"
  | .tsTypeAssertion => "TSTypeAssertion"
  | .tsNonNullExpression => "TSNonNullExpression"
  | .tsDeclareFunction => "TSDeclareFunction"
  | .tsEmptyBodyFunctionExpression => "TSEmptyBodyFunctionExpression"
  | .tsAbstractMethodDefinition => "TSAbstractMethodDefinition"
  | .tsAbstractPropertyDefinition => "TSAbstractPropertyDefinition"
  | .tsAbstractAccessorProperty => "TSAbstractAccessorProperty"
  | .tsParameterProperty => "TSParameterProperty"
  | .tsInterfaceDeclaration => "TSInterfaceDeclaration"
  | .tsInterfaceBody => "TSInterfaceBody"
  | .tsInterfaceHeritage => "TSInterfaceHeritage"
  | .tsExpressionWithTypeArguments => "TSExpressionWithTypeArguments"
  | .tsClassImplements => "TSClassImplements"
  | .tsTypeAliasDeclaration => "TSTypeAliasDeclaration"
  | .tsEnumDeclaration => "TSEnumDeclaration"
  | .tsEnumMember => "TSEnumMember"
  | .tsModuleDeclaration => "TSModuleDeclaration"
  | .tsModuleBlock => "TSModuleBlock"
  | .tsTypeAnnot => "TSTypeAnnotation"
  | .tsAnyKeyword => "TSAnyKeyword"
  | .tsBigIntKeyword => "TSBigIntKeyword"
  | .tsBooleanKeyword => "TSBooleanKeyword"
  | .tsIntrinsicKeyword => "TSIntrinsicKeyword"
  | .tsNeverKeyword => "TSNeverKeyword"
  | .tsNullKeyword => "TSNullKeyword"
  | .tsNumberKeyword => "TSNumberKeyword"
  | .tsObjectKeyword => "TSObjectKeyword"
  | .tsStringKeyword => "TSStringKeyword"
  | .tsSymbolKeyword => "TSSymbolKeyword"
  | .tsUndefinedKeyword => "TSUndefinedKeyword"
  | .tsUnknownKeyword => "TSUnknownKeyword"
  | .tsVoidKeyword => "TSVoidKeyword"
  | .tsThisType => "TSThisType"
  | .tsLiteralType => "TSLiteralType"
  | .tsTemplateLiteralType => "TSTemplateLiteralType"
  | .tsTypeReference => "TSTypeReference"
  | .tsQualifiedName => "TSQualifiedName"
  | .tsTypeQuery => "TSTypeQuery"
  | .tsUnionType => "TSUnionType"
  | .tsIntersectionType => "TSIntersectionType"
  | .tsTupleType => "TSTupleType"
  | .tsOptionalType => "TSOptionalType"
  | .tsRestType => "TSRestType"
  | .tsParenthesizedType => "TSParenthesizedType"
  | .tsNamedTupleMember => "TSNamedTupleMember"
  | .tsArrayType => "TSArrayType"
  | .tsIndexedAccessType => "TSIndexedAccessType"
  | .tsTypeOperator => "TSTypeOperator"
  | .tsConditionalType => "TSConditionalType"
  | .tsInferType => "TSInferType"
  | .tsTypePredicate => "TSTypePredicate"
  | .tsFunctionType => "TSFunctionType"
  | .tsConstructorType => "TSConstructorType"
  | .tsConstructSignatureDeclaration => "TSConstructSignatureDeclaration"
  | .tsCallSignatureDeclaration => "TSCallSignatureDeclaration"
  | .tsMappedType => "TSMappedType"
  | .tsTypeLiteral => "TSTypeLiteral"
  | .tsPropertySignature => "TSPropertySignature"
  | .tsMethodSignature => "TSMethodSignature"
  | .tsIndexSignature => "TSIndexSignature"
  | .tsTypeParameterDeclaration => "TSTypeParameterDeclaration"
  | .tsTypeParameterInstantiation => "TSTypeParameterInstantiation"
  | .tsTypeParameter => "TSTypeParameter"

/-- The kind with the given tag, if the tag is known. -/
def ofTag? (s : String) : Option Kind :=
  all.find? fun k => k.tag == s

end Kind

end Estree
