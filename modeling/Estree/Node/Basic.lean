import Estree.Json.Value
import Estree.Kind

/-!
# ESTree nodes

`Node` is a tree of JavaScript or TypeScript source. One constructor stands for each shape of node,
named after its ESTree tag; kinds that differ in nothing but their tag share a constructor and are
told apart by a form. Shapes with more than four fields carry a record. `Node.kind` gives the tag
back, so the kind and the contents of a node cannot disagree.
-/

namespace Estree

/-! ## §1. Forms of shared shapes. -/

/-- What a list of statements between braces belongs to. -/
inductive BlockForm where
  | statement | classBody | static | module
  deriving DecidableEq, Repr

/-- The kind of a block. -/
def BlockForm.kind : BlockForm → Kind
  | .statement => .blockStatement
  | .classBody => .classBody
  | .static => .staticBlock
  | .module => .tsModuleBlock

/-- What a function stands for: a statement, a value, or a signature without a body. -/
inductive FunctionForm where
  | declaration | expression | declared | emptyBody
  deriving DecidableEq, Repr

/-- The kind of a function. -/
def FunctionForm.kind : FunctionForm → Kind
  | .declaration => .functionDeclaration
  | .expression => .functionExpression
  | .declared => .tsDeclareFunction
  | .emptyBody => .tsEmptyBodyFunctionExpression

/-- Class fields and auto-accessors, abstract or not. -/
inductive FieldForm where
  | property | accessor | abstractProperty | abstractAccessor
  deriving DecidableEq, Repr

/-- The kind of a class field. -/
def FieldForm.kind : FieldForm → Kind
  | .property => .propertyDefinition
  | .accessor => .accessorProperty
  | .abstractProperty => .tsAbstractPropertyDefinition
  | .abstractAccessor => .tsAbstractAccessorProperty

/-- Where an expression with type arguments is inherited. -/
inductive HeritageForm where
  | interface | expression | implements
  deriving DecidableEq, Repr

/-- The kind of a heritage clause entry. -/
def HeritageForm.kind : HeritageForm → Kind
  | .interface => .tsInterfaceHeritage
  | .expression => .tsExpressionWithTypeArguments
  | .implements => .tsClassImplements

/-- Function-like types and members of object types. -/
inductive SignatureForm where
  | function | constructor | construct | call
  deriving DecidableEq, Repr

/-- The kind of a signature. -/
def SignatureForm.kind : SignatureForm → Kind
  | .function => .tsFunctionType
  | .constructor => .tsConstructorType
  | .construct => .tsConstructSignatureDeclaration
  | .call => .tsCallSignatureDeclaration

/-- The types written with one keyword. -/
inductive KeywordType where
  | any | bigint | boolean | intrinsic | never | null | number | object | string | symbol
  | undefined | unknown | void | this
  deriving DecidableEq, Repr

/-- The kind of a keyword type. -/
def KeywordType.kind : KeywordType → Kind
  | .any => .tsAnyKeyword
  | .bigint => .tsBigIntKeyword
  | .boolean => .tsBooleanKeyword
  | .intrinsic => .tsIntrinsicKeyword
  | .never => .tsNeverKeyword
  | .null => .tsNullKeyword
  | .number => .tsNumberKeyword
  | .object => .tsObjectKeyword
  | .string => .tsStringKeyword
  | .symbol => .tsSymbolKeyword
  | .undefined => .tsUndefinedKeyword
  | .unknown => .tsUnknownKeyword
  | .void => .tsVoidKeyword
  | .this => .tsThisType

/-- The keyword. -/
def KeywordType.text : KeywordType → String
  | .any => "any"
  | .bigint => "bigint"
  | .boolean => "boolean"
  | .intrinsic => "intrinsic"
  | .never => "never"
  | .null => "null"
  | .number => "number"
  | .object => "object"
  | .string => "string"
  | .symbol => "symbol"
  | .undefined => "undefined"
  | .unknown => "unknown"
  | .void => "void"
  | .this => "this"

/-! ## §2. Records without nodes. -/

/-- The parts of a regular expression. -/
structure RegExp where
  pattern : String
  flags : String
  deriving DecidableEq, Repr

/-- The text of a template element. -/
structure TemplateText where
  raw : String
  cooked : Option String
  deriving DecidableEq, Repr

/-- A literal: its value, the text it was read from, and its parts if it is a regular expression or
a big integer. -/
structure Literal where
  value : Json := .null
  raw : Option String := none
  regex : Option RegExp := none
  bigint : Option String := none

/-- A modifier of a mapped type: on, off, or with a sign. -/
inductive MappedModifier where
  | flag (on : Bool)
  | sign (s : String)
  deriving DecidableEq, Repr

/-- What stands before the modifier's keyword, or `none` when the modifier is off. -/
def MappedModifier.lead? : MappedModifier → Option String
  | .flag true => some ""
  | .flag false => none
  | .sign s => if s = "+" ∨ s = "-" then some s else some ""

/-! ## §3. Nodes. -/

mutual

/-- A node of a JavaScript or TypeScript tree. -/
inductive Node where
  | program (body : List Node)
  -- statements
  | block (form : BlockForm) (body : List Node)
  | emptyStatement
  | debuggerStatement
  | expressionStatement (expression : Node) (directive : Option String)
  | ifStatement (test consequent : Node) (alternate : Option Node)
  | labeledStatement (label body : Node)
  | breakStatement (label : Option Node)
  | continueStatement (label : Option Node)
  | withStatement (object body : Node)
  | switchStatement (discriminant : Node) (cases : List SwitchCase)
  | returnStatement (argument : Option Node)
  | throwStatement (argument : Node)
  | tryStatement (block : Node) (handler : Option CatchClause) (finalizer : Option Node)
  | whileStatement (test body : Node)
  | doWhileStatement (test body : Node)
  | forStatement (init test update : Option Node) (body : Node)
  | forInStatement (left right body : Node) (await : Bool)
  | forOfStatement (left right body : Node) (await : Bool)
  -- functions, variables and classes
  | function (form : FunctionForm) (f : FunctionLike)
  | arrowFunctionExpression (f : ArrowFunction)
  | variableDeclaration (kind : String) (declarations : List Node) (declare : Bool)
  | variableDeclarator (id : Node) (init : Option Node) (definite : Bool)
  | classDeclaration (c : ClassLike)
  | classExpression (c : ClassLike)
  | methodDefinition (m : Method)
  | tsAbstractMethodDefinition (m : Method)
  | classField (form : FieldForm) (f : ClassField)
  | decorator (expression : Node)
  | tsParameterProperty (p : ParameterProperty)
  -- imports and exports
  | importDeclaration (specifiers : List Node) (source : Node) (importKind : Option String)
      (attributes : List Node)
  | importSpecifier (imported localName : Node) (importKind : Option String)
  | importDefaultSpecifier (localName : Node)
  | importNamespaceSpecifier (localName : Node)
  | importAttribute (key value : Node)
  | importExpression (source : Node) (arguments : List Node) (options : Option Node)
  | exportNamedDeclaration (d : ExportNamed)
  | exportSpecifier (localName exported : Node) (exportKind : Option String)
  | exportDefaultDeclaration (declaration : Node)
  | exportAllDeclaration (exported : Option Node) (source : Node) (exportKind : Option String)
      (attributes : List Node)
  -- expressions and patterns
  | thisExpression
  | super
  | restElement (argument : Node) (annot : Option Node)
  | spreadElement (argument : Node) (annot : Option Node)
  | yieldExpression (argument : Option Node) (delegate : Bool)
  | awaitExpression (argument : Node)
  | templateLiteral (quasis expressions : List Node)
  | templateElement (value : TemplateText) (tail : Bool)
  | taggedTemplateExpression (tag quasi : Node)
  | arrayExpression (elements : List (Option Node)) (annot : Option Node)
  | arrayPattern (elements : List (Option Node)) (annot : Option Node)
  | objectExpression (properties : List Node) (annot : Option Node)
  | objectPattern (properties : List Node) (annot : Option Node)
  | property (p : Property)
  | sequenceExpression (expressions : List Node)
  | unaryExpression (operator : String) (isPrefix : Bool) (argument : Node)
  | updateExpression (operator : String) (isPrefix : Bool) (argument : Node)
  | assignmentExpression (operator : String) (left right : Node)
  | binaryExpression (operator : String) (left right : Node)
  | logicalExpression (operator : String) (left right : Node)
  | assignmentPattern (left right : Node)
  | conditionalExpression (test consequent alternate : Node)
  | newExpression (callee : Node) (arguments : List Node) (optional : Bool)
      (typeArguments : Option Node)
  | callExpression (callee : Node) (arguments : List Node) (optional : Bool)
      (typeArguments : Option Node)
  | chainExpression (expression : Node)
  | memberExpression (object property : Node) (computed optional : Bool)
  | metaProperty (object property : Node)
  | identifier (name : String) (optional : Bool) (annot : Option Node) (decorators : List Node)
  | privateIdentifier (name : String)
  | literal (l : Literal)
  | regExpLiteral (l : Literal)
  -- typed expressions
  | tsAsExpression (expression annot : Node)
  | tsSatisfiesExpression (expression annot : Node)
  | tsTypeAssertion (expression annot : Node)
  | tsNonNullExpression (expression : Node)
  -- declarations of types, enums and namespaces
  | tsInterfaceDeclaration (i : InterfaceDeclaration)
  | tsInterfaceBody (body : List Node)
  | heritage (form : HeritageForm) (expression : Node) (typeArguments : Option Node)
  | tsTypeAliasDeclaration (id annot : Node) (typeParameters : Option Node) (declare : Bool)
  | tsEnumDeclaration (e : EnumDeclaration)
  | tsEnumMember (id : Node) (initializer : Option Node) (computed : Bool)
  | tsModuleDeclaration (m : ModuleDeclaration)
  -- types
  | tsTypeAnnot (type : Node)
  | keywordType (k : KeywordType)
  | tsLiteralType (literal : Node)
  | tsTemplateLiteralType (quasis types : List Node)
  | tsTypeReference (typeName : Node) (typeArguments : Option Node)
  | tsQualifiedName (left right : Node)
  | tsTypeQuery (exprName : Node) (typeArguments : Option Node)
  | tsUnionType (types : List Node)
  | tsIntersectionType (types : List Node)
  | tsTupleType (elementTypes : List Node)
  | tsOptionalType (type : Node)
  | tsRestType (type : Node)
  | tsParenthesizedType (type : Node)
  | tsNamedTupleMember (label elementType : Node) (optional : Bool)
  | tsArrayType (elementType : Node)
  | tsIndexedAccessType (objectType indexType : Node)
  | tsTypeOperator (operator : String) (type : Node)
  | tsConditionalType (checkType extendsType trueType falseType : Node)
  | tsInferType (typeParameter : Node)
  | tsTypePredicate (parameterName : Node) (annot : Option Node) (asserts : Bool)
  | signature (form : SignatureForm) (params : List Node) (returnType typeParameters : Option Node)
      (abstract : Bool)
  | tsMappedType (m : MappedType)
  | tsTypeLiteral (members : List Node)
  | tsPropertySignature (p : PropertySignature)
  | tsMethodSignature (m : MethodSignature)
  | tsIndexSignature (parameters : List Node) (annot : Option Node) (readonly static : Bool)
  | tsTypeParameterDeclaration (params : List Node)
  | tsTypeParameterInstantiation (params : List Node)
  | tsTypeParameter (p : TypeParameter)

/-- A case of a `switch`; the default case has no test. -/
structure SwitchCase where
  test : Option Node
  consequent : List Node

/-- The handler of a `try`. -/
structure CatchClause where
  param : Option Node
  body : Node

/-- The contents of a function. -/
structure FunctionLike where
  id : Option Node
  params : List Node
  body : Option Node
  async : Bool := false
  generator : Bool := false
  declare : Bool := false
  typeParameters : Option Node := none
  returnType : Option Node := none

/-- The contents of an arrow function. -/
structure ArrowFunction where
  params : List Node
  body : Node
  async : Bool := false
  typeParameters : Option Node := none
  returnType : Option Node := none

/-- The contents of a class. -/
structure ClassLike where
  id : Option Node
  superClass : Option Node
  body : Node
  decorators : List Node := []
  abstract : Bool := false
  declare : Bool := false
  typeParameters : Option Node := none
  superTypeArguments : Option Node := none
  implements : List Node := []

/-- A class method. -/
structure Method where
  key : Node
  value : Node
  kind : String := "method"
  computed : Bool := false
  static : Bool := false
  abstract : Bool := false
  override : Bool := false
  optional : Bool := false
  accessibility : Option String := none
  decorators : List Node := []
  typeParameters : Option Node := none

/-- A class field or auto-accessor. -/
structure ClassField where
  key : Node
  value : Option Node
  computed : Bool := false
  static : Bool := false
  declare : Bool := false
  abstract : Bool := false
  override : Bool := false
  readonly : Bool := false
  definite : Bool := false
  optional : Bool := false
  accessibility : Option String := none
  decorators : List Node := []
  annot : Option Node := none

/-- A constructor parameter that declares a field. -/
structure ParameterProperty where
  parameter : Node
  accessibility : Option String := none
  readonly : Bool := false
  static : Bool := false
  override : Bool := false
  decorators : List Node := []

/-- An export of names or of a declaration. -/
structure ExportNamed where
  declaration : Option Node
  specifiers : List Node := []
  source : Option Node := none
  exportKind : Option String := none
  attributes : List Node := []

/-- An entry of an object literal or pattern. -/
structure Property where
  key : Node
  value : Node
  kind : String := "init"
  method : Bool := false
  shorthand : Bool := false
  computed : Bool := false

/-- An interface; `bases` are the interfaces that it extends. -/
structure InterfaceDeclaration where
  id : Node
  body : Node
  bases : List Node := []
  typeParameters : Option Node := none
  declare : Bool := false

/-- An enumeration. The members stand in the declaration or in a body of its own. -/
structure EnumDeclaration where
  id : Node
  members : List Node := []
  body : Option (List Node) := none
  const : Bool := false
  declare : Bool := false

/-- A namespace, an ambient module or the global scope. -/
structure ModuleDeclaration where
  id : Node
  body : Option Node
  declare : Bool := false
  global : Bool := false
  kind : Option String := none

/-- A mapped type; its variable is a type parameter or a key with a constraint. -/
structure MappedType where
  typeParameter : Option Node
  key : Option Node
  constraint : Option Node
  nameType : Option Node := none
  annot : Option Node := none
  optional : Option MappedModifier := none
  readonly : Option MappedModifier := none

/-- A property of an object type. -/
structure PropertySignature where
  key : Node
  computed : Bool := false
  optional : Bool := false
  readonly : Bool := false
  static : Bool := false
  annot : Option Node := none

/-- A method of an object type. -/
structure MethodSignature where
  key : Node
  computed : Bool := false
  optional : Bool := false
  kind : String := "method"
  params : List Node := []
  returnType : Option Node := none
  typeParameters : Option Node := none

/-- A type parameter; `varianceIn` and `varianceOut` are its variance marks. -/
structure TypeParameter where
  name : TypeParameterName
  constraint : Option Node := none
  fallback : Option Node := none
  varianceIn : Bool := false
  varianceOut : Bool := false
  const : Bool := false

/-- The name of a type parameter, as a node or as plain text. -/
inductive TypeParameterName where
  | node (n : Node)
  | plain (s : String)

end

instance : Inhabited Node := ⟨.emptyStatement⟩

namespace Node

/-- The kind of a node. -/
def kind : Node → Kind
  | .program _ => .program
  | .block form _ => form.kind
  | .emptyStatement => .emptyStatement
  | .debuggerStatement => .debuggerStatement
  | .expressionStatement _ _ => .expressionStatement
  | .ifStatement _ _ _ => .ifStatement
  | .labeledStatement _ _ => .labeledStatement
  | .breakStatement _ => .breakStatement
  | .continueStatement _ => .continueStatement
  | .withStatement _ _ => .withStatement
  | .switchStatement _ _ => .switchStatement
  | .returnStatement _ => .returnStatement
  | .throwStatement _ => .throwStatement
  | .tryStatement _ _ _ => .tryStatement
  | .whileStatement _ _ => .whileStatement
  | .doWhileStatement _ _ => .doWhileStatement
  | .forStatement _ _ _ _ => .forStatement
  | .forInStatement _ _ _ _ => .forInStatement
  | .forOfStatement _ _ _ _ => .forOfStatement
  | .function form _ => form.kind
  | .arrowFunctionExpression _ => .arrowFunctionExpression
  | .variableDeclaration _ _ _ => .variableDeclaration
  | .variableDeclarator _ _ _ => .variableDeclarator
  | .classDeclaration _ => .classDeclaration
  | .classExpression _ => .classExpression
  | .methodDefinition _ => .methodDefinition
  | .tsAbstractMethodDefinition _ => .tsAbstractMethodDefinition
  | .classField form _ => form.kind
  | .decorator _ => .decorator
  | .tsParameterProperty _ => .tsParameterProperty
  | .importDeclaration _ _ _ _ => .importDeclaration
  | .importSpecifier _ _ _ => .importSpecifier
  | .importDefaultSpecifier _ => .importDefaultSpecifier
  | .importNamespaceSpecifier _ => .importNamespaceSpecifier
  | .importAttribute _ _ => .importAttribute
  | .importExpression _ _ _ => .importExpression
  | .exportNamedDeclaration _ => .exportNamedDeclaration
  | .exportSpecifier _ _ _ => .exportSpecifier
  | .exportDefaultDeclaration _ => .exportDefaultDeclaration
  | .exportAllDeclaration _ _ _ _ => .exportAllDeclaration
  | .thisExpression => .thisExpression
  | .super => .super
  | .restElement _ _ => .restElement
  | .spreadElement _ _ => .spreadElement
  | .yieldExpression _ _ => .yieldExpression
  | .awaitExpression _ => .awaitExpression
  | .templateLiteral _ _ => .templateLiteral
  | .templateElement _ _ => .templateElement
  | .taggedTemplateExpression _ _ => .taggedTemplateExpression
  | .arrayExpression _ _ => .arrayExpression
  | .arrayPattern _ _ => .arrayPattern
  | .objectExpression _ _ => .objectExpression
  | .objectPattern _ _ => .objectPattern
  | .property _ => .property
  | .sequenceExpression _ => .sequenceExpression
  | .unaryExpression _ _ _ => .unaryExpression
  | .updateExpression _ _ _ => .updateExpression
  | .assignmentExpression _ _ _ => .assignmentExpression
  | .binaryExpression _ _ _ => .binaryExpression
  | .logicalExpression _ _ _ => .logicalExpression
  | .assignmentPattern _ _ => .assignmentPattern
  | .conditionalExpression _ _ _ => .conditionalExpression
  | .newExpression _ _ _ _ => .newExpression
  | .callExpression _ _ _ _ => .callExpression
  | .chainExpression _ => .chainExpression
  | .memberExpression _ _ _ _ => .memberExpression
  | .metaProperty _ _ => .metaProperty
  | .identifier _ _ _ _ => .identifier
  | .privateIdentifier _ => .privateIdentifier
  | .literal _ => .literal
  | .regExpLiteral _ => .regExpLiteral
  | .tsAsExpression _ _ => .tsAsExpression
  | .tsSatisfiesExpression _ _ => .tsSatisfiesExpression
  | .tsTypeAssertion _ _ => .tsTypeAssertion
  | .tsNonNullExpression _ => .tsNonNullExpression
  | .tsInterfaceDeclaration _ => .tsInterfaceDeclaration
  | .tsInterfaceBody _ => .tsInterfaceBody
  | .heritage form _ _ => form.kind
  | .tsTypeAliasDeclaration _ _ _ _ => .tsTypeAliasDeclaration
  | .tsEnumDeclaration _ => .tsEnumDeclaration
  | .tsEnumMember _ _ _ => .tsEnumMember
  | .tsModuleDeclaration _ => .tsModuleDeclaration
  | .tsTypeAnnot _ => .tsTypeAnnot
  | .keywordType k => k.kind
  | .tsLiteralType _ => .tsLiteralType
  | .tsTemplateLiteralType _ _ => .tsTemplateLiteralType
  | .tsTypeReference _ _ => .tsTypeReference
  | .tsQualifiedName _ _ => .tsQualifiedName
  | .tsTypeQuery _ _ => .tsTypeQuery
  | .tsUnionType _ => .tsUnionType
  | .tsIntersectionType _ => .tsIntersectionType
  | .tsTupleType _ => .tsTupleType
  | .tsOptionalType _ => .tsOptionalType
  | .tsRestType _ => .tsRestType
  | .tsParenthesizedType _ => .tsParenthesizedType
  | .tsNamedTupleMember _ _ _ => .tsNamedTupleMember
  | .tsArrayType _ => .tsArrayType
  | .tsIndexedAccessType _ _ => .tsIndexedAccessType
  | .tsTypeOperator _ _ => .tsTypeOperator
  | .tsConditionalType _ _ _ _ => .tsConditionalType
  | .tsInferType _ => .tsInferType
  | .tsTypePredicate _ _ _ => .tsTypePredicate
  | .signature form _ _ _ _ => form.kind
  | .tsMappedType _ => .tsMappedType
  | .tsTypeLiteral _ => .tsTypeLiteral
  | .tsPropertySignature _ => .tsPropertySignature
  | .tsMethodSignature _ => .tsMethodSignature
  | .tsIndexSignature _ _ _ _ => .tsIndexSignature
  | .tsTypeParameterDeclaration _ => .tsTypeParameterDeclaration
  | .tsTypeParameterInstantiation _ => .tsTypeParameterInstantiation
  | .tsTypeParameter _ => .tsTypeParameter

end Node

end Estree
