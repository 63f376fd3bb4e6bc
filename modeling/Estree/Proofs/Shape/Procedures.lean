import Estree.Emit
import Estree.Proofs.Shape.Completion

/-!
# What each procedure needs of its node

A procedure of the typed dialect that is given a node of a kind of its own writes it to its end if
and only if the node has the shape of its kind and the nodes that it visits are written to theirs
(`Emit.FollowsShape`). There is one lemma for each procedure, about the nodes that it writes as what
they are; when the source of one procedure changes, its lemma is the one to look at. Nodes that are
written as something else, such as a pattern in the place of an object, are not treated here.

Main results:
  * `followsShape_classField`, `followsShape_method`, `followsShape_moduleDeclaration` and so on:
    what
    each procedure needs of its node;
  * `followsShape_mappedType`: the name of the parameter of a mapped type comes from one of two
    places.
-/

namespace Estree

namespace Emit

open Node

/-! ## §1. Following the shape. -/

/-- The procedure writes the node to its end if and only if the node has the shape of its kind and
the nodes that it visits are written to theirs. -/
def FollowsShape (procedure : Scope → Node → Doc) (n : Node) : Prop :=
  ∀ s : Scope, (procedure s n).Completes ↔ n.hasShape n.kind ∧ s.Writes (n.visits n.kind)

/-- Procedures that write one word need nothing of a node without parts. -/
theorem followsShape_word (word : String) {n : Node} (hshape : n.hasShape n.kind = true)
    (hvisits : n.visits n.kind = []) : FollowsShape (fun _ _ => word) n := by
  intro s
  simp [hshape, hvisits]

attribute [local simp] hasShape visits

/-! ## §2. Statements. -/

/-- A program needs its statements. -/
theorem followsShape_program (body : List Node) : FollowsShape program (.program body) := by
  intro s
  simp [program]

/-- Parentheses or not, a statement needs its expression. -/
theorem followsShape_expressionStatement (e : Node) (directive : Option String) :
    FollowsShape expressionStatement (.expressionStatement e directive) := by
  intro s
  simp [expressionStatement]

/-- An `if` needs its test and both branches, if there is a second one. -/
theorem followsShape_ifStatement (test consequent : Node) (alternate : Option Node) :
    FollowsShape ifStatement (.ifStatement test consequent alternate) := by
  intro s
  simp [ifStatement, and_assoc]

/-- A label is written as a node. -/
theorem followsShape_labeledStatement (label body : Node) :
    FollowsShape labeledStatement (.labeledStatement label body) := by
  intro s
  simp [labeledStatement]

/-- The label of a jump is written as a node, if there is one. -/
theorem followsShape_jump (label : Option Node) :
    FollowsShape jump (.breakStatement label) ∧ FollowsShape jump (.continueStatement label) := by
  constructor <;> intro s <;> simp [jump, jumpTo]

/-- A `with` needs its object and its body. -/
theorem followsShape_withStatement (object body : Node) :
    FollowsShape withStatement (.withStatement object body) := by
  intro s
  simp [withStatement]

/-- A `switch` needs the tests and statements of all cases. -/
theorem followsShape_switchStatement (discriminant : Node) (cases : List SwitchCase) :
    FollowsShape switchStatement (.switchStatement discriminant cases) := by
  intro s
  simp [switchStatement]

/-- A `return` needs its operand, if there is one. -/
theorem followsShape_returnStatement (argument : Option Node) :
    FollowsShape returnStatement (.returnStatement argument) := by
  intro s
  simp [returnStatement]

/-- A `throw` needs its operand. -/
theorem followsShape_throwStatement (argument : Node) :
    FollowsShape throwStatement (.throwStatement argument) := by
  intro s
  simp [throwStatement]

/-- A `try` needs its block, its handler and what comes last. -/
theorem followsShape_tryStatement (block : Node) (handler : Option CatchClause)
    (finalizer : Option Node) :
    FollowsShape tryStatement (.tryStatement block handler finalizer) := by
  intro s
  simp [tryStatement, and_assoc]

/-- A loop needs its test and its body. -/
theorem followsShape_whileStatement (test body : Node) :
    FollowsShape whileStatement (.whileStatement test body) := by
  intro s
  simp [whileStatement]

/-- In whatever order they come. -/
theorem followsShape_doWhileStatement (test body : Node) :
    FollowsShape doWhileStatement (.doWhileStatement test body) := by
  intro s
  simp [doWhileStatement, and_comm]

/-- The first clause of a `for` may be a declaration, which is not written as a node. -/
theorem followsShape_forStatement (init test update : Option Node) (body : Node) :
    FollowsShape forStatement (.forStatement init test update body) := by
  intro s
  simp [forStatement, and_assoc]

/-- So may the left side of a loop over something. -/
theorem followsShape_forEach (left right body : Node) (await : Bool) :
    FollowsShape forEach (.forInStatement left right body await) ∧
      FollowsShape forEach (.forOfStatement left right body await) := by
  constructor <;> intro s <;> simp [forEach, loopOver, and_assoc, and_comm, and_left_comm]

/-- A block needs its statements, the body of a class its members. -/
theorem followsShape_block (body : List Node) :
    FollowsShape block (.block .statement body) ∧ FollowsShape block (.block .classBody body) := by
  constructor <;> intro s <;> simp [block]

/-- A static block needs its statements. -/
theorem followsShape_staticBlock (body : List Node) :
    FollowsShape staticBlock (.block .static body) := by
  intro s
  simp [staticBlock]

/-- The body of a module needs its statements. -/
theorem followsShape_moduleBlock (body : List Node) :
    FollowsShape moduleBlock (.block .module body) := by
  intro s
  simp [moduleBlock]

/-! ## §3. Functions, variables and classes. -/

/-- A function needs a body, and an identifier for its name if it has one. -/
theorem followsShape_function (f : FunctionLike) :
    FollowsShape Typed.function (.function .declaration f) ∧
      FollowsShape Typed.function (.function .expression f) := by
  constructor <;> intro s <;> cases hb : f.body <;>
    simp [Typed.function, Typed.functionWithBody, hb, and_assoc]

/-- A function that is only declared does not write its body. -/
theorem followsShape_bodilessFunction (f : FunctionLike) :
    FollowsShape bodilessFunction (.function .declared f) ∧
      FollowsShape bodilessFunction (.function .emptyBody f) := by
  constructor <;> intro s <;> simp [bodilessFunction]

/-- The body of an arrow is written as an object if it is a pattern. -/
theorem followsShape_arrowFunction (f : ArrowFunction) :
    FollowsShape Typed.arrowFunction (.arrowFunctionExpression f) := by
  intro s
  simp [Typed.arrowFunction, and_assoc]

/-- Whatever a declaration holds is written as a declarator. -/
theorem followsShape_variableDeclaration (kind : String) (declarations : List Node)
    (declare : Bool) :
    FollowsShape Typed.variableDeclaration (.variableDeclaration kind declarations declare) := by
  intro s
  simp [Typed.variableDeclaration]

/-- Of a definite name only its annotation and decorators are nodes. -/
theorem followsShape_variableDeclarator (id : Node) (init : Option Node) (definite : Bool) :
    FollowsShape Typed.variableDeclarator (.variableDeclarator id init definite) := by
  intro s
  simp [Typed.variableDeclarator]

/-- A class needs an identifier for its name if it has one; its body is written as one. -/
theorem followsShape_classLike (c : ClassLike) :
    FollowsShape Typed.classLike (.classDeclaration c) ∧
      FollowsShape Typed.classLike (.classExpression c) := by
  constructor <;> intro s <;> simp [Typed.classLike]

/-- A decorator needs its expression. -/
theorem followsShape_decorator (expression : Node) :
    FollowsShape decorator (.decorator expression) := by
  intro s
  simp [decorator]

/-- Modifiers are no nodes, so a parameter is all that is needed. -/
theorem followsShape_parameterProperty (p : ParameterProperty) :
    FollowsShape parameterProperty (.tsParameterProperty p) := by
  intro s
  simp [parameterProperty, inlineDecorators, and_comm]

/-- A method needs a function for its value, and writes it without dispatching it. -/
theorem followsShape_method (m : Method) :
    FollowsShape Typed.method (.methodDefinition m) ∧
      FollowsShape Typed.method (.tsAbstractMethodDefinition m) :=
  ⟨fun s => completes_method s rfl, fun s => completes_method s rfl⟩

/-- A field needs its key, and its value and annotation if it has them. -/
theorem followsShape_classField (form : FieldForm) (f : ClassField) :
    FollowsShape Typed.classField (.classField form f) := by
  intro s
  cases form <;> cases hv : f.value <;>
    simp [Typed.classField, fieldModifiers, decoratorLines, hv, and_assoc, and_comm, and_left_comm]

/-! ## §4. Imports, exports and namespaces. -/

/-- The specifiers of an import are not dispatched: they have to be of the right kinds. -/
theorem followsShape_importDeclaration (specifiers : List Node) (source : Node)
    (kind : Option String) (attributes : List Node) :
    FollowsShape (importDeclaration .typed)
      (.importDeclaration specifiers source kind attributes) := by
  intro s
  cases specifiers <;> simp [importDeclaration, areImports, and_assoc]

/-- An export with a declaration looks at nothing else, another one at its specifiers. -/
theorem followsShape_exportNamed (d : ExportNamed) :
    FollowsShape (exportNamed .typed) (.exportNamedDeclaration d) := by
  intro s
  cases hd : d.declaration <;> simp [exportNamed, hd, and_assoc]

/-- The name that everything is exported under is an identifier or a literal. -/
theorem followsShape_exportAll (exported : Option Node) (source : Node) (kind : Option String)
    (attributes : List Node) :
    FollowsShape (exportAll .typed) (.exportAllDeclaration exported source kind attributes) := by
  intro s
  cases exported <;> simp [exportAll, and_assoc]

/-- The value of an attribute is written as a literal. -/
theorem followsShape_importAttribute (key value : Node) :
    FollowsShape importAttribute (.importAttribute key value) := by
  intro s
  simp [importAttribute]

/-- Of the arguments of an import the first one is written. -/
theorem followsShape_importExpression (source : Node) (arguments : List Node)
    (options : Option Node) :
    FollowsShape Typed.importExpression (.importExpression source arguments options) := by
  intro s
  simp [Typed.importExpression, and_assoc]

/-- A default export needs what it exports. -/
theorem followsShape_exportDefault (declaration : Node) :
    FollowsShape exportDefault (.exportDefaultDeclaration declaration) := by
  intro s
  simp [exportDefault]

/-- A module in a module is part of its name, and a quoted name is no node. -/
theorem followsShape_moduleDeclaration (m : ModuleDeclaration) :
    FollowsShape moduleDeclaration (.tsModuleDeclaration m) := by
  intro s
  cases hg : m.isGlobal <;> cases hb : m.body <;> simp [moduleDeclaration, moduleBody, hg, hb]

/-! ## §5. Expressions and patterns. -/

/-- A rest element writes its annotation. -/
theorem followsShape_restElement (argument : Node) (annot : Option Node) :
    FollowsShape Typed.restElement (.restElement argument annot) := by
  intro s
  simp [Typed.restElement]

/-- A spread element does not. -/
theorem followsShape_spreadElement (argument : Node) (annot : Option Node) :
    FollowsShape Plain.restElement (.spreadElement argument annot) := by
  intro s
  simp [Plain.restElement]

/-- A `yield` needs its operand, if there is one. -/
theorem followsShape_yieldExpression (argument : Option Node) (delegate : Bool) :
    FollowsShape yieldExpression (.yieldExpression argument delegate) := by
  intro s
  simp [yieldExpression]

/-- An `await` needs its operand. -/
theorem followsShape_awaitExpression (argument : Node) :
    FollowsShape awaitExpression (.awaitExpression argument) := by
  intro s
  simp [awaitExpression]

/-- A template needs a quasi around each hole; quasis are not dispatched. -/
theorem followsShape_templateLiteral (quasis holes : List Node) :
    FollowsShape templateLiteral (.templateLiteral quasis holes) := by
  intro s
  simp [templateLiteral]

/-- A quasi by itself needs nothing. -/
theorem followsShape_templateElement (value : TemplateText) (tail : Bool) :
    FollowsShape (fun _ => templateElement) (.templateElement value tail) := by
  intro s
  simp [templateElement]

theorem followsShape_taggedTemplate (tag quasi : Node) :
    FollowsShape taggedTemplate (.taggedTemplateExpression tag quasi) := by
  intro s
  simp [taggedTemplate]

/-- An array does not write its annotation. -/
theorem followsShape_arrayExpression (es : List (Option Node)) (annot : Option Node) :
    FollowsShape arrayExpression (.arrayExpression es annot) := by
  intro s
  simp [arrayExpression, elements]

/-- A pattern does. -/
theorem followsShape_arrayPattern (es : List (Option Node)) (annot : Option Node) :
    FollowsShape arrayPattern (.arrayPattern es annot) := by
  intro s
  simp [arrayPattern, elements]

/-- An object does not write its annotation. -/
theorem followsShape_objectExpression (properties : List Node) (annot : Option Node) :
    FollowsShape objectExpression (.objectExpression properties annot) := by
  intro s
  simp [objectExpression]

/-- A pattern does. -/
theorem followsShape_objectPattern (properties : List Node) (annot : Option Node) :
    FollowsShape Typed.objectPattern (.objectPattern properties annot) := by
  intro s
  simp [Typed.objectPattern, objectBraces, kind]

/-- A sequence needs its expressions. -/
theorem followsShape_sequenceExpression (expressions : List Node) :
    FollowsShape sequenceExpression (.sequenceExpression expressions) := by
  intro s
  simp [sequenceExpression]

/-- On whichever side the operator is, an operand is needed. -/
theorem followsShape_unaryExpression (operator : String) (isPrefix : Bool) (argument : Node) :
    FollowsShape unaryExpression (.unaryExpression operator isPrefix argument) := by
  intro s
  cases isPrefix <;> simp [unaryExpression]

theorem followsShape_updateExpression (operator : String) (isPrefix : Bool) (argument : Node) :
    FollowsShape updateExpression (.updateExpression operator isPrefix argument) := by
  intro s
  cases isPrefix <;> simp [updateExpression]

/-- Both sides of an assignment are needed. -/
theorem followsShape_assignmentExpression (operator : String) (left right : Node) :
    FollowsShape assignmentExpression (.assignmentExpression operator left right) := by
  intro s
  simp [assignmentExpression]

/-- Both sides of a default are needed. -/
theorem followsShape_assignmentPattern (left right : Node) :
    FollowsShape assignmentPattern (.assignmentPattern left right) := by
  intro s
  simp [assignmentPattern]

/-- And the operands of a binary or logical operator. -/
theorem followsShape_binaryExpression (operator : String) (left right : Node) :
    FollowsShape binaryExpression (.binaryExpression operator left right) ∧
      FollowsShape binaryExpression (.logicalExpression operator left right) := by
  constructor <;> intro s <;> simp [binaryExpression, infixed]

/-- A conditional needs its test and both branches. -/
theorem followsShape_conditionalExpression (test consequent alternate : Node) :
    FollowsShape conditionalExpression (.conditionalExpression test consequent alternate) := by
  intro s
  simp [conditionalExpression, and_assoc]

/-- A `new` needs its callee, its type arguments and its arguments. -/
theorem followsShape_newExpression (callee : Node) (arguments : List Node) (optional : Bool)
    (typeArguments : Option Node) :
    FollowsShape Typed.newExpression (.newExpression callee arguments optional typeArguments) := by
  intro s
  simp [Typed.newExpression, newCallee, and_comm, and_left_comm]

/-- A call needs its callee, its type arguments and its arguments. -/
theorem followsShape_callExpression (callee : Node) (arguments : List Node) (optional : Bool)
    (typeArguments : Option Node) :
    FollowsShape Typed.callExpression
      (.callExpression callee arguments optional typeArguments) := by
  intro s
  simp [Typed.callExpression, and_comm, and_left_comm]

/-- A chain needs what it is around. -/
theorem followsShape_chainExpression (expression : Node) :
    FollowsShape chainExpression (.chainExpression expression) := by
  intro s
  simp [chainExpression]

/-- A member needs its object and its name, computed or not. -/
theorem followsShape_memberExpression (object name : Node) (computed optional : Bool) :
    FollowsShape memberExpression (.memberExpression object name computed optional) := by
  intro s
  simp [memberExpression]

/-- Both parts of a meta property have to be identifiers; they are not dispatched. -/
theorem followsShape_metaProperty (object name : Node) :
    FollowsShape (fun _ => metaProperty) (.metaProperty object name) := by
  intro s
  simp [metaProperty]

/-- A name needs its annotation and its decorators. -/
theorem followsShape_identifier (name : String) (optional : Bool) (annot : Option Node)
    (decorators : List Node) :
    FollowsShape Typed.identifier (.identifier name optional annot decorators) := by
  intro s
  simp [Typed.identifier, and_comm]

/-- A private name needs nothing. -/
theorem followsShape_privateIdentifier (name : String) :
    FollowsShape (fun _ => privateIdentifier) (.privateIdentifier name) := by
  intro s
  simp [privateIdentifier]

/-- A literal always has a text. -/
theorem followsShape_literal (l : Literal) : FollowsShape (fun _ => literal) (.literal l) := by
  intro s
  simp [literal]

/-- A regular expression has to have one. -/
theorem followsShape_regExpLiteral (l : Literal) :
    FollowsShape (fun _ => regExpLiteral) (.regExpLiteral l) := by
  intro s
  simp [regExpLiteral, kind]

/-- An assertion needs an expression and a type. -/
theorem followsShape_asExpression (expression annot : Node) :
    FollowsShape asExpression (.tsAsExpression expression annot) := by
  intro s
  simp [asExpression, asserted]

/-- The word between them does not matter. -/
theorem followsShape_satisfiesExpression (expression annot : Node) :
    FollowsShape satisfiesExpression (.tsSatisfiesExpression expression annot) := by
  intro s
  simp [satisfiesExpression, asserted]

/-- Which of them comes first does not matter. -/
theorem followsShape_typeAssertion (expression annot : Node) :
    FollowsShape typeAssertion (.tsTypeAssertion expression annot) := by
  intro s
  simp [typeAssertion, and_comm]

/-- Without a type, it needs the expression. -/
theorem followsShape_nonNullExpression (expression : Node) :
    FollowsShape nonNullExpression (.tsNonNullExpression expression) := by
  intro s
  simp [nonNullExpression]

/-! ## §6. Declarations of types. -/

/-- The name of an interface has to be an identifier. -/
theorem followsShape_interfaceDeclaration (i : InterfaceDeclaration) :
    FollowsShape interfaceDeclaration (.tsInterfaceDeclaration i) := by
  intro s
  cases hb : i.bases <;> simp [interfaceDeclaration, hb, and_assoc]

/-- The body of an interface needs its members. -/
theorem followsShape_interfaceBody (body : List Node) :
    FollowsShape interfaceBody (.tsInterfaceBody body) := by
  intro s
  cases body <;> simp [interfaceBody]

/-- An entry of a clause needs its expression and type arguments. -/
theorem followsShape_heritage (form : HeritageForm) (expression : Node)
    (typeArguments : Option Node) :
    FollowsShape heritage (.heritage form expression typeArguments) := by
  intro s
  cases form <;> simp [heritage]

/-- The name of an alias has to be an identifier. -/
theorem followsShape_typeAlias (id annot : Node) (typeParameters : Option Node) (declare : Bool) :
    FollowsShape typeAlias (.tsTypeAliasDeclaration id annot typeParameters declare) := by
  intro s
  simp [typeAlias, and_assoc]

/-- The name of an enumeration has to be an identifier; its members are in one of two places. -/
theorem followsShape_enumDeclaration (e : EnumDeclaration) :
    FollowsShape enumDeclaration (.tsEnumDeclaration e) := by
  intro s
  simp [enumDeclaration]

/-- A member needs its key, and its value if it has one. -/
theorem followsShape_enumMember (id : Node) (initializer : Option Node) (computed : Bool) :
    FollowsShape enumMember (.tsEnumMember id initializer computed) := by
  intro s
  simp [enumMember]

/-- An object type needs its members. -/
theorem followsShape_typeLiteral (members : List Node) :
    FollowsShape typeLiteral (.tsTypeLiteral members) := by
  intro s
  simp [typeLiteral]

/-- A property needs its key and its annotation. -/
theorem followsShape_propertySignature (p : PropertySignature) :
    FollowsShape propertySignature (.tsPropertySignature p) := by
  intro s
  simp [propertySignature]

/-- A method needs its key, its types and its parameters. -/
theorem followsShape_methodSignature (m : MethodSignature) :
    FollowsShape methodSignature (.tsMethodSignature m) := by
  intro s
  simp [methodSignature, and_comm, and_left_comm]

/-- An index signature needs its parameters and its annotation. -/
theorem followsShape_indexSignature (parameters : List Node) (annot : Option Node)
    (readonly static : Bool) :
    FollowsShape indexSignature (.tsIndexSignature parameters annot readonly static) := by
  intro s
  simp [indexSignature]

/-- A signature needs its types and its parameters. -/
theorem followsShape_callSignature (params : List Node) (result typeParameters : Option Node)
    (abstract : Bool) :
    FollowsShape callSignature (.signature .construct params result typeParameters abstract) ∧
      FollowsShape callSignature (.signature .call params result typeParameters abstract) := by
  constructor <;> intro s <;> simp [callSignature, signatureOf, and_comm, and_left_comm]

/-! ## §7. Types. -/

/-- An annotation needs its type. -/
theorem followsShape_typeAnnot (type : Node) : FollowsShape typeAnnot (.tsTypeAnnot type) := by
  intro s
  simp [typeAnnot]

/-- A keyword needs nothing. -/
theorem followsShape_keywordType (k : KeywordType) :
    FollowsShape (fun _ => keywordType) (.keywordType k) := by
  intro s
  cases k <;> simp [keywordType]

/-- A literal as a type is dispatched. -/
theorem followsShape_literalType (literal : Node) :
    FollowsShape literalType (.tsLiteralType literal) := by
  intro s
  simp [literalType]

/-- A template of types is held to the same counts as one of expressions. -/
theorem followsShape_templateLiteralType (quasis types : List Node) :
    FollowsShape templateLiteralType (.tsTemplateLiteralType quasis types) := by
  intro s
  simp [templateLiteralType]

/-- A reference needs its name and type arguments. -/
theorem followsShape_typeReference (typeName : Node) (typeArguments : Option Node) :
    FollowsShape typeReference (.tsTypeReference typeName typeArguments) := by
  intro s
  simp [typeReference]

/-- A qualified name needs both parts. -/
theorem followsShape_qualifiedName (left right : Node) :
    FollowsShape qualifiedName (.tsQualifiedName left right) := by
  intro s
  simp [qualifiedName]

/-- A query needs its name and type arguments. -/
theorem followsShape_typeQuery (exprName : Node) (typeArguments : Option Node) :
    FollowsShape typeQuery (.tsTypeQuery exprName typeArguments) := by
  intro s
  simp [typeQuery]

/-- A union needs its members. -/
theorem followsShape_unionType (types : List Node) :
    FollowsShape unionType (.tsUnionType types) := by
  intro s
  simp [unionType]

/-- An intersection needs its members. -/
theorem followsShape_intersectionType (types : List Node) :
    FollowsShape intersectionType (.tsIntersectionType types) := by
  intro s
  simp [intersectionType]

/-- A function type needs its types and its parameters. -/
theorem followsShape_functionType (params : List Node) (result typeParameters : Option Node)
    (abstract : Bool) :
    FollowsShape functionType (.signature .function params result typeParameters abstract) ∧
      FollowsShape functionType
        (.signature .constructor params result typeParameters abstract) := by
  constructor <;> intro s <;>
    simp [functionType, functionTypeOf, functionTypeHead, and_comm, and_left_comm]

/-- A tuple needs its elements. -/
theorem followsShape_tupleType (types : List Node) :
    FollowsShape tupleType (.tsTupleType types) := by
  intro s
  simp [tupleType]

/-- An optional type needs the type. -/
theorem followsShape_optionalType (type : Node) :
    FollowsShape optionalType (.tsOptionalType type) := by
  intro s
  simp [optionalType]

/-- A rest type needs the type. -/
theorem followsShape_restType (type : Node) : FollowsShape restType (.tsRestType type) := by
  intro s
  simp [restType]

/-- A type in parentheses needs the type. -/
theorem followsShape_parenthesizedType (type : Node) :
    FollowsShape parenthesizedType (.tsParenthesizedType type) := by
  intro s
  simp [parenthesizedType]

/-- A named element needs its label and its type. -/
theorem followsShape_namedTupleMember (label type : Node) (optional : Bool) :
    FollowsShape namedTupleMember (.tsNamedTupleMember label type optional) := by
  intro s
  simp [namedTupleMember]

/-- An array type needs the type of its elements. -/
theorem followsShape_arrayType (type : Node) : FollowsShape arrayType (.tsArrayType type) := by
  intro s
  simp [arrayType]

/-- An indexed type needs the type and the index. -/
theorem followsShape_indexedAccessType (object index : Node) :
    FollowsShape indexedAccessType (.tsIndexedAccessType object index) := by
  intro s
  simp [indexedAccessType]

/-- A type operator needs its operand. -/
theorem followsShape_typeOperator (operator : String) (type : Node) :
    FollowsShape typeOperator (.tsTypeOperator operator type) := by
  intro s
  simp [typeOperator]

/-- A conditional type needs all four types. -/
theorem followsShape_conditionalType (check bound yes no : Node) :
    FollowsShape conditionalType (.tsConditionalType check bound yes no) := by
  intro s
  simp [conditionalType, and_assoc]

/-- An inferred type needs its type parameter. -/
theorem followsShape_inferType (parameter : Node) :
    FollowsShape inferType (.tsInferType parameter) := by
  intro s
  simp [inferType]

/-- A predicate needs its name, and its type if there is one. -/
theorem followsShape_typePredicate (name : Node) (annot : Option Node) (asserts : Bool) :
    FollowsShape typePredicate (.tsTypePredicate name annot asserts) := by
  intro s
  simp [typePredicate]

/-- Type parameters and arguments are lists of nodes. -/
theorem followsShape_typeParameters (params : List Node) :
    FollowsShape typeParameters (.tsTypeParameterDeclaration params) ∧
      FollowsShape typeParameters (.tsTypeParameterInstantiation params) := by
  constructor <;> intro s <;> simp [typeParameters]

/-- The name of a type parameter may be a text, which needs nothing. -/
theorem followsShape_typeParameter (p : TypeParameter) :
    FollowsShape typeParameter (.tsTypeParameter p) := by
  intro s
  simp [typeParameter, and_assoc]

/-- A mapped type needs a variable: a type parameter that is one, or else a key. -/
theorem followsShape_mappedType (m : MappedType) : FollowsShape mappedType (.tsMappedType m) := by
  intro s
  rw [show (tsMappedType m).kind = .tsMappedType from rfl, visits,
    ← completes_mappedKey s (.tsMappedType m)]
  simp [mappedType, mappedModifier, and_assoc]

/-- An entry of an object that is not a method: a key and a value, or the value alone. -/
theorem followsShape_property {p : Property} (hm : isMethodEntry p = false) :
    FollowsShape property (.property p) := by
  intro s
  have hdoc : property s (.property p) =
      .onlyIf (!p.shorthand) (s.key p.key p.computed ++ ": ") ++ s.emit p.value :=
    if_neg (Bool.eq_false_iff.mp hm)
  cases hs : p.shorthand <;> simp [hdoc, hm, hs]

end Emit

end Estree
