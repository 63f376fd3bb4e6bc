import Estree.Procedure

/-!
# Registries

A registry binds kinds of nodes to procedures. The last binding of a kind wins, and a registry can
be laid over another: what it binds comes first, and what it does not bind is left to the one below.

`Registry.base` covers JavaScript. `Registry.extension` binds what TypeScript adds or writes
differently, and `Registry.full` is the extension laid over the base.
-/

namespace Estree

/-! ## §1. Registries. -/

/-- A binding of kinds to procedures. -/
structure Registry where
  get? : Kind → Option Procedure

namespace Registry

/-- No kind is bound. -/
def empty : Registry := ⟨fun _ => none⟩

/-- Binds a kind; an earlier binding of the kind is replaced. -/
def register (r : Registry) (k : Kind) (p : Procedure) : Registry :=
  ⟨fun k' => if k' = k then some p else r.get? k'⟩

/-- Binds several kinds to one procedure. -/
def registerAll (r : Registry) (ks : List Kind) (p : Procedure) : Registry :=
  ks.foldl (fun r k => r.register k p) r

/-- The registry with an extension laid over it. -/
def layer (base extension : Registry) : Registry :=
  ⟨fun k => (extension.get? k).or (base.get? k)⟩

/-- Whether a kind is bound. -/
def contains (r : Registry) (k : Kind) : Bool := (r.get? k).isSome

/-- The kinds that are bound, in their order. -/
def kinds (r : Registry) : List Kind := Kind.all.filter r.contains

/-- The number of kinds that are bound. -/
def size (r : Registry) : Nat := r.kinds.length

/-- Whether no kind is bound. -/
def isEmpty (r : Registry) : Bool := r.size == 0

/-- The registry in words. -/
def describe (r : Registry) : String :=
  "Registry \x7b kinds: [" ++ ", ".intercalate (r.kinds.map Kind.tag) ++ "] \x7d"

/-! ## §2. The two languages. -/

/-- The procedures of JavaScript. -/
def base : Registry where
  get?
    -- statements
    | .program => some .program
    | .blockStatement | .classBody => some .block
    | .staticBlock => some .staticBlock
    | .emptyStatement => some .emptyStatement
    | .expressionStatement => some .expressionStatement
    | .ifStatement => some .ifStatement
    | .labeledStatement => some .labeledStatement
    | .breakStatement | .continueStatement => some .jump
    | .withStatement => some .withStatement
    | .switchStatement => some .switchStatement
    | .returnStatement => some .returnStatement
    | .throwStatement => some .throwStatement
    | .tryStatement => some .tryStatement
    | .whileStatement => some .whileStatement
    | .doWhileStatement => some .doWhileStatement
    | .forStatement => some .forStatement
    | .forInStatement | .forOfStatement => some .forEach
    | .debuggerStatement => some .debuggerStatement
    -- functions, variables and classes
    | .functionDeclaration | .functionExpression => some (.function .plain)
    | .arrowFunctionExpression => some (.arrowFunction .plain)
    | .variableDeclaration => some (.variableDeclaration .plain)
    | .variableDeclarator => some (.variableDeclarator .plain)
    | .classDeclaration => some (.classLike .plain)
    | .classExpression => some .classExpression
    | .methodDefinition => some (.method .plain)
    | .propertyDefinition => some (.classField .plain)
    | .property => some .property
    -- imports and exports
    | .importDeclaration => some (.importDeclaration .plain)
    | .importAttribute => some .importAttribute
    | .importExpression => some (.importExpression .plain)
    | .exportNamedDeclaration => some (.exportNamed .plain)
    | .exportDefaultDeclaration => some .exportDefault
    | .exportAllDeclaration => some (.exportAll .plain)
    -- expressions and patterns
    | .thisExpression => some .thisExpression
    | .super => some .superExpression
    | .restElement | .spreadElement => some (.restElement .plain)
    | .yieldExpression => some .yieldExpression
    | .awaitExpression => some .awaitExpression
    | .templateLiteral => some .templateLiteral
    | .templateElement => some .templateElement
    | .taggedTemplateExpression => some .taggedTemplate
    | .arrayExpression | .arrayPattern => some .arrayExpression
    | .objectExpression => some .objectExpression
    | .objectPattern => some (.objectPattern .plain)
    | .sequenceExpression => some .sequenceExpression
    | .unaryExpression => some .unaryExpression
    | .updateExpression => some .updateExpression
    | .assignmentExpression => some .assignmentExpression
    | .assignmentPattern => some .assignmentPattern
    | .binaryExpression | .logicalExpression => some .binaryExpression
    | .conditionalExpression => some .conditionalExpression
    | .newExpression => some (.newExpression .plain)
    | .callExpression => some (.callExpression .plain)
    | .chainExpression => some .chainExpression
    | .memberExpression => some .memberExpression
    | .metaProperty => some .metaProperty
    | .identifier => some (.identifier .plain)
    | .privateIdentifier => some .privateIdentifier
    | .literal => some .literal
    | .regExpLiteral => some .regExpLiteral
    | _ => none

/-- The procedures that TypeScript adds or replaces. -/
def extension : Registry where
  get?
    -- functions, variables and classes
    | .identifier => some (.identifier .typed)
    | .variableDeclaration => some (.variableDeclaration .typed)
    | .variableDeclarator => some (.variableDeclarator .typed)
    | .functionDeclaration | .functionExpression => some (.function .typed)
    | .tsDeclareFunction | .tsEmptyBodyFunctionExpression => some .bodilessFunction
    | .arrowFunctionExpression => some (.arrowFunction .typed)
    | .classDeclaration => some (.classLike .typed)
    | .propertyDefinition | .accessorProperty | .tsAbstractPropertyDefinition
    | .tsAbstractAccessorProperty => some (.classField .typed)
    | .methodDefinition | .tsAbstractMethodDefinition => some (.method .typed)
    | .tsParameterProperty => some .parameterProperty
    | .decorator => some .decorator
    -- expressions and patterns
    | .newExpression => some (.newExpression .typed)
    | .callExpression => some (.callExpression .typed)
    | .tsAsExpression => some .asExpression
    | .tsSatisfiesExpression => some .satisfiesExpression
    | .tsTypeAssertion => some .typeAssertion
    | .tsNonNullExpression => some .nonNullExpression
    | .restElement => some (.restElement .typed)
    | .objectPattern => some (.objectPattern .typed)
    | .arrayPattern => some .arrayPattern
    -- imports, exports and namespaces
    | .importDeclaration => some (.importDeclaration .typed)
    | .importExpression => some (.importExpression .typed)
    | .exportNamedDeclaration => some (.exportNamed .typed)
    | .exportAllDeclaration => some (.exportAll .typed)
    | .tsModuleDeclaration => some .moduleDeclaration
    | .tsModuleBlock => some .moduleBlock
    -- declarations of types
    | .tsInterfaceDeclaration => some .interfaceDeclaration
    | .tsInterfaceBody => some .interfaceBody
    | .tsInterfaceHeritage | .tsExpressionWithTypeArguments | .tsClassImplements =>
      some .heritage
    | .tsTypeLiteral => some .typeLiteral
    | .tsPropertySignature => some .propertySignature
    | .tsMethodSignature => some .methodSignature
    | .tsIndexSignature => some .indexSignature
    | .tsCallSignatureDeclaration | .tsConstructSignatureDeclaration => some .callSignature
    | .tsTypeAliasDeclaration => some .typeAlias
    | .tsEnumDeclaration => some .enumDeclaration
    | .tsEnumMember => some .enumMember
    -- types
    | .tsTypeAnnot => some .typeAnnot
    | .tsAnyKeyword | .tsBigIntKeyword | .tsBooleanKeyword | .tsIntrinsicKeyword
    | .tsNeverKeyword | .tsNullKeyword | .tsNumberKeyword | .tsObjectKeyword
    | .tsStringKeyword | .tsSymbolKeyword | .tsUndefinedKeyword | .tsUnknownKeyword
    | .tsVoidKeyword | .tsThisType => some .keywordType
    | .tsLiteralType => some .literalType
    | .tsTemplateLiteralType => some .templateLiteralType
    | .tsTypeReference => some .typeReference
    | .tsQualifiedName => some .qualifiedName
    | .tsTypeQuery => some .typeQuery
    | .tsUnionType => some .unionType
    | .tsIntersectionType => some .intersectionType
    | .tsFunctionType | .tsConstructorType => some .functionType
    | .tsTupleType => some .tupleType
    | .tsOptionalType => some .optionalType
    | .tsRestType => some .restType
    | .tsParenthesizedType => some .parenthesizedType
    | .tsNamedTupleMember => some .namedTupleMember
    | .tsArrayType => some .arrayType
    | .tsIndexedAccessType => some .indexedAccessType
    | .tsTypeOperator => some .typeOperator
    | .tsConditionalType => some .conditionalType
    | .tsInferType => some .inferType
    | .tsTypePredicate => some .typePredicate
    | .tsMappedType => some .mappedType
    | .tsTypeParameterDeclaration | .tsTypeParameterInstantiation => some .typeParameters
    | .tsTypeParameter => some .typeParameter
    | _ => none

/-- The procedures of TypeScript. -/
def full : Registry := base.layer extension

end Registry

end Estree
