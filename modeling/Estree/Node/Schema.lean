import Estree.Node.Basic
import Estree.Node.LoadError

/-!
# The fields of each kind

A schema lists the JSON fields of a node or record, in order, and says how their values make it up.
A field has a name, perhaps a second name, a shape that fixes the type of its value, and the value
it takes when it is absent, if it may be. Everything that loading decides about fields is read off
these lists.
-/

namespace Estree

/-! ## §1. Shapes. -/

/-- The type of a record. -/
def RecordType.Value : RecordType → Type
  | .switchCase => SwitchCase
  | .catchClause => CatchClause
  | .templateText => TemplateText
  | .regExp => RegExp
  | .enumBody => List Node

/-- What a field may hold. A shape with `?` takes null as well, for no value or an empty list. -/
inductive Shape where
  | node
  | node?
  | nodes
  | nodes?
  /-- A list of nodes in which null stands for a hole. -/
  | holes
  | record (r : RecordType)
  | record? (r : RecordType)
  | records (r : RecordType)
  | flag
  | text
  | text?
  /-- Any JSON value. -/
  | json
  | typeParameterName
  | mappedModifier?
  deriving DecidableEq, Repr

/-- The type of the values of a shape. -/
def Shape.Value : Shape → Type
  | .node => Node
  | .node? => Option Node
  | .nodes => List Node
  | .nodes? => List Node
  | .holes => List (Option Node)
  | .record r => r.Value
  | .record? r => Option r.Value
  | .records r => List r.Value
  | .flag => Bool
  | .text => String
  | .text? => Option String
  | .json => Json
  | .typeParameterName => TypeParameterName
  | .mappedModifier? => Option MappedModifier

/-! ## §2. Fields. -/

/-- A field of a node or record. -/
structure FieldSpec where
  /-- The name in the JSON object, which messages use. -/
  name : String
  /-- A second name under which the field may stand. -/
  otherName : Option String
  shape : Shape
  /-- The value of an absent field; `none` when the field is required. -/
  absent : Option shape.Value

namespace FieldSpec

/-- A required node. -/
def child (name : String) : FieldSpec := ⟨name, none, .node, none⟩

/-- A node that may be absent or null. -/
def child? (name : String) : FieldSpec := ⟨name, none, .node?, some (none : Option Node)⟩

/-- A required list of nodes. -/
def children (name : String) : FieldSpec := ⟨name, none, .nodes, none⟩

/-- A list of nodes that may be absent or null, and is then empty. -/
def children? (name : String) : FieldSpec := ⟨name, none, .nodes?, some ([] : List Node)⟩

/-- A flag, `false` when absent. -/
def flag (name : String) : FieldSpec := ⟨name, none, .flag, some false⟩

/-- A flag, `true` when absent. -/
def flagOn (name : String) : FieldSpec := ⟨name, none, .flag, some true⟩

/-- A required text. -/
def text (name : String) : FieldSpec := ⟨name, none, .text, none⟩

/-- A text with a default. -/
def textOr (name fallback : String) : FieldSpec := ⟨name, none, .text, some fallback⟩

/-- A text that may be absent or null. -/
def text? (name : String) : FieldSpec := ⟨name, none, .text?, some (none : Option String)⟩

/-- A record that may be absent or null. -/
def record? (name : String) (r : RecordType) : FieldSpec :=
  ⟨name, none, .record? r, some (none : Option r.Value)⟩

/-- A modifier of a mapped type, which may be absent or null. -/
def mappedModifier? (name : String) : FieldSpec :=
  ⟨name, none, .mappedModifier?, some (none : Option MappedModifier)⟩

/-- The field with a second name. -/
def alsoNamed (f : FieldSpec) (other : String) : FieldSpec := { f with otherName := some other }

/-- Whether the field stands under the key. -/
def named (f : FieldSpec) (key : String) : Bool := f.name == key || f.otherName == some key

end FieldSpec

/-- The values of a list of fields, in order. -/
def Values : List FieldSpec → Type
  | [] => Unit
  | f :: fs => f.shape.Value × Values fs

/-- The fields of something and how their values make it up. -/
structure Schema (α : Type) where
  fields : List FieldSpec
  build : Values fields → α

/-! ## §3. Records. -/

open FieldSpec in
/-- The schema of each record. -/
def RecordType.schema : (r : RecordType) → Schema r.Value
  | .switchCase =>
    ⟨[child? "test", children "consequent"],
      fun (test, consequent, _) => SwitchCase.mk test consequent⟩
  | .catchClause =>
    ⟨[child? "param", child "body"], fun (param, body, _) => CatchClause.mk param body⟩
  | .templateText =>
    ⟨[text "raw", text? "cooked"], fun (raw, cooked, _) => TemplateText.mk raw cooked⟩
  | .regExp =>
    ⟨[text "pattern", text "flags"], fun (pattern, flags, _) => RegExp.mk pattern flags⟩
  | .enumBody => ⟨[children "members"], fun (members, _) => members⟩

/-! ## §4. Nodes. -/

namespace Schema

open FieldSpec

/-- A node without fields. -/
def leaf (n : Node) : Schema Node := ⟨[], fun _ => n⟩

/-- A list of statements between braces. -/
def block (form : BlockForm) : Schema Node :=
  ⟨[children "body"], fun (body, _) => .block form body⟩

/-- A function, with or without a body. -/
def function (form : FunctionForm) : Schema Node :=
  ⟨[child? "id", children "params", child? "body", flag "async", flag "generator", flag "declare",
    child? "typeParameters", child? "returnType"],
   fun (id, params, body, async, generator, declare, typeParameters, returnType, _) =>
    .function form ⟨id, params, body, async, generator, declare, typeParameters, returnType⟩⟩

/-- A class, as a statement or as a value. -/
def classLike (make : ClassLike → Node) : Schema Node :=
  ⟨[child? "id", child? "superClass", child "body", children? "decorators", flag "abstract",
    flag "declare", child? "typeParameters",
    (child? "superTypeArguments").alsoNamed "superTypeParameters", children? "implements"],
   fun (id, superClass, body, decorators, abstract, declare, typeParameters, superTypeArguments,
      implements, _) =>
    make ⟨id, superClass, body, decorators, abstract, declare, typeParameters,
      superTypeArguments, implements⟩⟩

/-- A class method. -/
def method (make : Method → Node) : Schema Node :=
  ⟨[child "key", child "value", textOr "kind" "method", flag "computed", flag "static",
    flag "abstract", flag "override", flag "optional", text? "accessibility",
    children? "decorators", child? "typeParameters"],
   fun (key, value, kind, computed, static, abstract, override, optional, accessibility,
      decorators, typeParameters, _) =>
    make ⟨key, value, kind, computed, static, abstract, override, optional, accessibility,
      decorators, typeParameters⟩⟩

/-- A class field or auto-accessor. -/
def classField (form : FieldForm) : Schema Node :=
  ⟨[child "key", child? "value", flag "computed", flag "static", flag "declare", flag "abstract",
    flag "override", flag "readonly", flag "definite", flag "optional", text? "accessibility",
    children? "decorators", child? "typeAnnotation"],
   fun (key, value, computed, static, declare, abstract, override, readonly, definite, optional,
      accessibility, decorators, annot, _) =>
    .classField form ⟨key, value, computed, static, declare, abstract, override, readonly,
      definite, optional, accessibility, decorators, annot⟩⟩

/-- A call or an instantiation. -/
def call (make : Node → List Node → Bool → Option Node → Node) : Schema Node :=
  ⟨[child "callee", children? "arguments", flag "optional",
    (child? "typeArguments").alsoNamed "typeParameters"],
   fun (callee, arguments, optional, typeArguments, _) =>
    make callee arguments optional typeArguments⟩

/-- An operator between two operands. -/
def binary (make : String → Node → Node → Node) : Schema Node :=
  ⟨[text "operator", child "left", child "right"],
   fun (operator, left, right, _) => make operator left right⟩

/-- A literal. -/
def literal (make : Literal → Node) : Schema Node :=
  ⟨[⟨"value", none, .json, some Json.null⟩, text? "raw",
    record? "regex" .regExp, text? "bigint"],
   fun (value, raw, regex, bigint, _) => make ⟨value, raw, regex, bigint⟩⟩

/-- An expression with a type: `as`, `satisfies` and the angle brackets. -/
def assertion (make : Node → Node → Node) : Schema Node :=
  ⟨[child "expression", child "typeAnnotation"],
   fun (expression, annot, _) => make expression annot⟩

/-- An inherited expression with type arguments. -/
def heritage (form : HeritageForm) : Schema Node :=
  ⟨[child "expression", (child? "typeArguments").alsoNamed "typeParameters"],
   fun (expression, typeArguments, _) => .heritage form expression typeArguments⟩

/-- A function-like type or member. -/
def signature (form : SignatureForm) : Schema Node :=
  ⟨[(children? "params").alsoNamed "parameters",
    (child? "returnType").alsoNamed "typeAnnotation", child? "typeParameters", flag "abstract"],
   fun (params, returnType, typeParameters, abstract, _) =>
    .signature form params returnType typeParameters abstract⟩

/-- A node with one child. -/
def one (name : String) (make : Node → Node) : Schema Node :=
  ⟨[child name], fun (n, _) => make n⟩

/-- A node with two children. -/
def two (first second : String) (make : Node → Node → Node) : Schema Node :=
  ⟨[child first, child second], fun (m, n, _) => make m n⟩

/-- A node with one child that may be absent. -/
def one? (name : String) (make : Option Node → Node) : Schema Node :=
  ⟨[child? name], fun (n, _) => make n⟩

/-- A node with one list of children. -/
def list (name : String) (make : List Node → Node) : Schema Node :=
  ⟨[children name], fun (ns, _) => make ns⟩

/-- A node with a child that may carry a type. -/
def annotated (make : Node → Option Node → Node) : Schema Node :=
  ⟨[child "argument", child? "typeAnnotation"], fun (argument, annot, _) => make argument annot⟩

/-- A list with holes that may carry a type. -/
def elements (make : List (Option Node) → Option Node → Node) : Schema Node :=
  ⟨[⟨"elements", none, .holes, none⟩, child? "typeAnnotation"],
   fun (elements, annot, _) => make elements annot⟩

/-- A list of properties that may carry a type. -/
def properties (make : List Node → Option Node → Node) : Schema Node :=
  ⟨[children "properties", child? "typeAnnotation"],
   fun (properties, annot, _) => make properties annot⟩

/-- A loop over a collection. -/
def forEach (make : Node → Node → Node → Bool → Node) : Schema Node :=
  ⟨[child "left", child "right", child "body", flag "await"],
   fun (left, right, body, await, _) => make left right body await⟩

end Schema

open FieldSpec Schema in
/-- The schema of each kind of node. -/
def Kind.schema : Kind → Schema Node
  | .program => list "body" .program
  | .blockStatement => Schema.block .statement
  | .classBody => Schema.block .classBody
  | .staticBlock => Schema.block .static
  | .tsModuleBlock => Schema.block .module
  | .emptyStatement => leaf .emptyStatement
  | .debuggerStatement => leaf .debuggerStatement
  | .expressionStatement =>
    ⟨[child "expression", text? "directive"],
     fun (expression, directive, _) => .expressionStatement expression directive⟩
  | .ifStatement =>
    ⟨[child "test", child "consequent", child? "alternate"],
     fun (test, consequent, alternate, _) => .ifStatement test consequent alternate⟩
  | .labeledStatement => two "label" "body" .labeledStatement
  | .breakStatement => one? "label" .breakStatement
  | .continueStatement => one? "label" .continueStatement
  | .withStatement => two "object" "body" .withStatement
  | .switchStatement =>
    ⟨[child "discriminant", ⟨"cases", none, .records .switchCase, none⟩],
     fun (discriminant, cases, _) => .switchStatement discriminant cases⟩
  | .returnStatement => one? "argument" .returnStatement
  | .throwStatement => one "argument" .throwStatement
  | .tryStatement =>
    ⟨[child "block", record? "handler" .catchClause,
      child? "finalizer"],
     fun (block, handler, finalizer, _) => .tryStatement block handler finalizer⟩
  | .whileStatement => two "test" "body" .whileStatement
  | .doWhileStatement => two "test" "body" .doWhileStatement
  | .forStatement =>
    ⟨[child? "init", child? "test", child? "update", child "body"],
     fun (init, test, update, body, _) => .forStatement init test update body⟩
  | .forInStatement => forEach .forInStatement
  | .forOfStatement => forEach .forOfStatement
  | .functionDeclaration => Schema.function .declaration
  | .functionExpression => Schema.function .expression
  | .tsDeclareFunction => Schema.function .declared
  | .tsEmptyBodyFunctionExpression => Schema.function .emptyBody
  | .arrowFunctionExpression =>
    ⟨[children? "params", child "body", flag "async", child? "typeParameters",
      child? "returnType"],
     fun (params, body, async, typeParameters, returnType, _) =>
      .arrowFunctionExpression ⟨params, body, async, typeParameters, returnType⟩⟩
  | .variableDeclaration =>
    ⟨[text "kind", children "declarations", flag "declare"],
     fun (kind, declarations, declare, _) => .variableDeclaration kind declarations declare⟩
  | .variableDeclarator =>
    ⟨[child "id", child? "init", flag "definite"],
     fun (id, init, definite, _) => .variableDeclarator id init definite⟩
  | .classDeclaration => classLike .classDeclaration
  | .classExpression => classLike .classExpression
  | .importDeclaration =>
    ⟨[children? "specifiers", child "source", text? "importKind", children? "attributes"],
     fun (specifiers, source, importKind, attributes, _) =>
      .importDeclaration specifiers source importKind attributes⟩
  | .importSpecifier =>
    ⟨[child "imported", child "local", text? "importKind"],
     fun (imported, localName, importKind, _) => .importSpecifier imported localName importKind⟩
  | .importDefaultSpecifier => one "local" .importDefaultSpecifier
  | .importNamespaceSpecifier => one "local" .importNamespaceSpecifier
  | .importAttribute => two "key" "value" .importAttribute
  | .importExpression =>
    ⟨[child "source", children? "arguments", (child? "options").alsoNamed "attributes"],
     fun (source, arguments, options, _) => .importExpression source arguments options⟩
  | .exportNamedDeclaration =>
    ⟨[child? "declaration", children? "specifiers", child? "source", text? "exportKind",
      children? "attributes"],
     fun (declaration, specifiers, source, exportKind, attributes, _) =>
      .exportNamedDeclaration ⟨declaration, specifiers, source, exportKind, attributes⟩⟩
  | .exportSpecifier =>
    ⟨[child "local", child "exported", text? "exportKind"],
     fun (localName, exported, exportKind, _) => .exportSpecifier localName exported exportKind⟩
  | .exportDefaultDeclaration => one "declaration" .exportDefaultDeclaration
  | .exportAllDeclaration =>
    ⟨[child? "exported", child "source", text? "exportKind", children? "attributes"],
     fun (exported, source, exportKind, attributes, _) =>
      .exportAllDeclaration exported source exportKind attributes⟩
  | .methodDefinition => Schema.method .methodDefinition
  | .propertyDefinition => Schema.classField .property
  | .accessorProperty => Schema.classField .accessor
  | .decorator => one "expression" .decorator
  | .thisExpression => leaf .thisExpression
  | .super => leaf .super
  | .restElement => annotated .restElement
  | .spreadElement => annotated .spreadElement
  | .yieldExpression =>
    ⟨[child? "argument", flag "delegate"],
     fun (argument, delegate, _) => .yieldExpression argument delegate⟩
  | .awaitExpression => one "argument" .awaitExpression
  | .templateLiteral =>
    ⟨[children "quasis", children "expressions"],
     fun (quasis, expressions, _) => .templateLiteral quasis expressions⟩
  | .templateElement =>
    ⟨[⟨"value", none, .record .templateText, none⟩, flag "tail"],
     fun (value, tail, _) => .templateElement value tail⟩
  | .taggedTemplateExpression => two "tag" "quasi" .taggedTemplateExpression
  | .arrayExpression => elements .arrayExpression
  | .arrayPattern => elements .arrayPattern
  | .objectExpression => properties .objectExpression
  | .objectPattern => properties .objectPattern
  | .property =>
    ⟨[child "key", child "value", textOr "kind" "init", flag "method", flag "shorthand",
      flag "computed"],
     fun (key, value, kind, method, shorthand, computed, _) =>
      .property ⟨key, value, kind, method, shorthand, computed⟩⟩
  | .sequenceExpression => list "expressions" .sequenceExpression
  | .unaryExpression =>
    ⟨[text "operator", flagOn "prefix", child "argument"],
     fun (operator, isPrefix, argument, _) => .unaryExpression operator isPrefix argument⟩
  | .updateExpression =>
    ⟨[text "operator", flag "prefix", child "argument"],
     fun (operator, isPrefix, argument, _) => .updateExpression operator isPrefix argument⟩
  | .assignmentExpression => binary .assignmentExpression
  | .assignmentPattern => two "left" "right" .assignmentPattern
  | .binaryExpression => binary .binaryExpression
  | .logicalExpression => binary .logicalExpression
  | .conditionalExpression =>
    ⟨[child "test", child "consequent", child "alternate"],
     fun (test, consequent, alternate, _) => .conditionalExpression test consequent alternate⟩
  | .newExpression => call .newExpression
  | .callExpression => call .callExpression
  | .chainExpression => one "expression" .chainExpression
  | .memberExpression =>
    ⟨[child "object", child "property", flag "computed", flag "optional"],
     fun (object, name, computed, optional, _) =>
      .memberExpression object name computed optional⟩
  | .metaProperty => two "meta" "property" .metaProperty
  | .identifier =>
    ⟨[text "name", flag "optional", child? "typeAnnotation", children? "decorators"],
     fun (name, optional, annot, decorators, _) => .identifier name optional annot decorators⟩
  | .privateIdentifier => ⟨[text "name"], fun (name, _) => .privateIdentifier name⟩
  | .literal => Schema.literal .literal
  | .regExpLiteral => Schema.literal .regExpLiteral
  | .tsAsExpression => assertion .tsAsExpression
  | .tsSatisfiesExpression => assertion .tsSatisfiesExpression
  | .tsTypeAssertion => assertion .tsTypeAssertion
  | .tsNonNullExpression => one "expression" .tsNonNullExpression
  | .tsAbstractMethodDefinition => Schema.method .tsAbstractMethodDefinition
  | .tsAbstractPropertyDefinition => Schema.classField .abstractProperty
  | .tsAbstractAccessorProperty => Schema.classField .abstractAccessor
  | .tsParameterProperty =>
    ⟨[child "parameter", text? "accessibility", flag "readonly", flag "static", flag "override",
      children? "decorators"],
     fun (parameter, accessibility, readonly, static, override, decorators, _) =>
      .tsParameterProperty ⟨parameter, accessibility, readonly, static, override, decorators⟩⟩
  | .tsInterfaceDeclaration =>
    ⟨[child "id", child "body", children? "extends", child? "typeParameters", flag "declare"],
     fun (id, body, bases, typeParameters, declare, _) =>
      .tsInterfaceDeclaration ⟨id, body, bases, typeParameters, declare⟩⟩
  | .tsInterfaceBody => list "body" .tsInterfaceBody
  | .tsInterfaceHeritage => Schema.heritage .interface
  | .tsExpressionWithTypeArguments => Schema.heritage .expression
  | .tsClassImplements => Schema.heritage .implements
  | .tsTypeAliasDeclaration =>
    ⟨[child "id", child "typeAnnotation", child? "typeParameters", flag "declare"],
     fun (id, annot, typeParameters, declare, _) =>
      .tsTypeAliasDeclaration id annot typeParameters declare⟩
  | .tsEnumDeclaration =>
    ⟨[child "id", children? "members",
      record? "body" .enumBody, flag "const",
      flag "declare"],
     fun (id, members, body, const, declare, _) =>
      .tsEnumDeclaration ⟨id, members, body, const, declare⟩⟩
  | .tsEnumMember =>
    ⟨[child "id", child? "initializer", flag "computed"],
     fun (id, initializer, computed, _) => .tsEnumMember id initializer computed⟩
  | .tsModuleDeclaration =>
    ⟨[child "id", child? "body", flag "declare", flag "global", text? "kind"],
     fun (id, body, declare, global, kind, _) =>
      .tsModuleDeclaration ⟨id, body, declare, global, kind⟩⟩
  | .tsTypeAnnot => one "typeAnnotation" .tsTypeAnnot
  | .tsAnyKeyword => leaf (.keywordType .any)
  | .tsBigIntKeyword => leaf (.keywordType .bigint)
  | .tsBooleanKeyword => leaf (.keywordType .boolean)
  | .tsIntrinsicKeyword => leaf (.keywordType .intrinsic)
  | .tsNeverKeyword => leaf (.keywordType .never)
  | .tsNullKeyword => leaf (.keywordType .null)
  | .tsNumberKeyword => leaf (.keywordType .number)
  | .tsObjectKeyword => leaf (.keywordType .object)
  | .tsStringKeyword => leaf (.keywordType .string)
  | .tsSymbolKeyword => leaf (.keywordType .symbol)
  | .tsUndefinedKeyword => leaf (.keywordType .undefined)
  | .tsUnknownKeyword => leaf (.keywordType .unknown)
  | .tsVoidKeyword => leaf (.keywordType .void)
  | .tsThisType => leaf (.keywordType .this)
  | .tsLiteralType => one "literal" .tsLiteralType
  | .tsTemplateLiteralType =>
    ⟨[children "quasis", children "types"],
     fun (quasis, types, _) => .tsTemplateLiteralType quasis types⟩
  | .tsTypeReference =>
    ⟨[child "typeName", (child? "typeArguments").alsoNamed "typeParameters"],
     fun (typeName, typeArguments, _) => .tsTypeReference typeName typeArguments⟩
  | .tsQualifiedName => two "left" "right" .tsQualifiedName
  | .tsTypeQuery =>
    ⟨[child "exprName", (child? "typeArguments").alsoNamed "typeParameters"],
     fun (exprName, typeArguments, _) => .tsTypeQuery exprName typeArguments⟩
  | .tsUnionType => list "types" .tsUnionType
  | .tsIntersectionType => list "types" .tsIntersectionType
  | .tsTupleType => list "elementTypes" .tsTupleType
  | .tsOptionalType => one "typeAnnotation" .tsOptionalType
  | .tsRestType => one "typeAnnotation" .tsRestType
  | .tsParenthesizedType => one "typeAnnotation" .tsParenthesizedType
  | .tsNamedTupleMember =>
    ⟨[child "label", child "elementType", flag "optional"],
     fun (label, elementType, optional, _) => .tsNamedTupleMember label elementType optional⟩
  | .tsArrayType => one "elementType" .tsArrayType
  | .tsIndexedAccessType => two "objectType" "indexType" .tsIndexedAccessType
  | .tsTypeOperator =>
    ⟨[text "operator", child "typeAnnotation"],
     fun (operator, type, _) => .tsTypeOperator operator type⟩
  | .tsConditionalType =>
    ⟨[child "checkType", child "extendsType", child "trueType", child "falseType"],
     fun (checkType, extendsType, trueType, falseType, _) =>
      .tsConditionalType checkType extendsType trueType falseType⟩
  | .tsInferType => one "typeParameter" .tsInferType
  | .tsTypePredicate =>
    ⟨[child "parameterName", child? "typeAnnotation", flag "asserts"],
     fun (parameterName, annot, asserts, _) => .tsTypePredicate parameterName annot asserts⟩
  | .tsFunctionType => Schema.signature .function
  | .tsConstructorType => Schema.signature .constructor
  | .tsConstructSignatureDeclaration => Schema.signature .construct
  | .tsCallSignatureDeclaration => Schema.signature .call
  | .tsMappedType =>
    ⟨[child? "typeParameter", child? "key", child? "constraint", child? "nameType",
      child? "typeAnnotation",
      mappedModifier? "optional", mappedModifier? "readonly"],
     fun (typeParameter, key, constraint, nameType, annot, optional, readonly, _) =>
      .tsMappedType ⟨typeParameter, key, constraint, nameType, annot, optional, readonly⟩⟩
  | .tsTypeLiteral => list "members" .tsTypeLiteral
  | .tsPropertySignature =>
    ⟨[child "key", flag "computed", flag "optional", flag "readonly", flag "static",
      child? "typeAnnotation"],
     fun (key, computed, optional, readonly, static, annot, _) =>
      .tsPropertySignature ⟨key, computed, optional, readonly, static, annot⟩⟩
  | .tsMethodSignature =>
    ⟨[child "key", flag "computed", flag "optional", textOr "kind" "method",
      (children? "params").alsoNamed "parameters",
      (child? "returnType").alsoNamed "typeAnnotation", child? "typeParameters"],
     fun (key, computed, optional, kind, params, returnType, typeParameters, _) =>
      .tsMethodSignature ⟨key, computed, optional, kind, params, returnType, typeParameters⟩⟩
  | .tsIndexSignature =>
    ⟨[children "parameters", child? "typeAnnotation", flag "readonly", flag "static"],
     fun (parameters, annot, readonly, static, _) =>
      .tsIndexSignature parameters annot readonly static⟩
  | .tsTypeParameterDeclaration => list "params" .tsTypeParameterDeclaration
  | .tsTypeParameterInstantiation => list "params" .tsTypeParameterInstantiation
  | .tsTypeParameter =>
    ⟨[⟨"name", none, .typeParameterName, none⟩, child? "constraint", child? "default",
      flag "in", flag "out", flag "const"],
     fun (name, constraint, fallback, varianceIn, varianceOut, const, _) =>
      .tsTypeParameter ⟨name, constraint, fallback, varianceIn, varianceOut, const⟩⟩

end Estree
