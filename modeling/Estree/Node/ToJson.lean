import Estree.Node.Basic

/-!
# Nodes as JSON

`Node.toJson` writes a node with every field under its first name, in the order of its schema,
absent children as null. Loading the result gives the node back. Two nodes are equal when their JSON
is, up to the sign of a zero fraction.
-/

namespace Estree

namespace Node

/-! ## §1. Fields without nodes. -/

/-- An object with the tag of a kind. -/
def tagged (k : Kind) (fields : List (String × Json)) : Json :=
  .object (("type", .string k.tag) :: fields)

/-- A text that may be absent. -/
def textJson : Option String → Json
  | none => .null
  | some s => .string s

/-- The parts of a regular expression that may be absent. -/
def regexJson : Option RegExp → Json
  | none => .null
  | some r => .object [("pattern", .string r.pattern), ("flags", .string r.flags)]

/-- The text of a template element. -/
def templateJson (t : TemplateText) : Json :=
  .object [("raw", .string t.raw), ("cooked", textJson t.cooked)]

/-- A modifier of a mapped type that may be absent. -/
def modifierJson : Option MappedModifier → Json
  | none => .null
  | some (.flag b) => .bool b
  | some (.sign s) => .string s

/-! ## §2. Nodes. -/

mutual

/-- The JSON of a node, with every field given. -/
def toJson : Node → Json
  | .program body => tagged .program [("body", .array (listJson body))]
  | .block form body => tagged form.kind [("body", .array (listJson body))]
  | .emptyStatement => tagged .emptyStatement []
  | .debuggerStatement => tagged .debuggerStatement []
  | .expressionStatement expression directive =>
    tagged .expressionStatement [("expression", expression.toJson),
      ("directive", textJson directive)]
  | .ifStatement test consequent alternate =>
    tagged .ifStatement [("test", test.toJson), ("consequent", consequent.toJson),
      ("alternate", optionJson alternate)]
  | .labeledStatement label body =>
    tagged .labeledStatement [("label", label.toJson), ("body", body.toJson)]
  | .breakStatement label => tagged .breakStatement [("label", optionJson label)]
  | .continueStatement label => tagged .continueStatement [("label", optionJson label)]
  | .withStatement object body =>
    tagged .withStatement [("object", object.toJson), ("body", body.toJson)]
  | .switchStatement discriminant cases =>
    tagged .switchStatement [("discriminant", discriminant.toJson),
      ("cases", .array (casesJson cases))]
  | .returnStatement argument => tagged .returnStatement [("argument", optionJson argument)]
  | .throwStatement argument => tagged .throwStatement [("argument", argument.toJson)]
  | .tryStatement tried handler finalizer =>
    tagged .tryStatement [("block", tried.toJson), ("handler", handlerJson handler),
      ("finalizer", optionJson finalizer)]
  | .whileStatement test body =>
    tagged .whileStatement [("test", test.toJson), ("body", body.toJson)]
  | .doWhileStatement test body =>
    tagged .doWhileStatement [("test", test.toJson), ("body", body.toJson)]
  | .forStatement init test update body =>
    tagged .forStatement [("init", optionJson init), ("test", optionJson test),
      ("update", optionJson update), ("body", body.toJson)]
  | .forInStatement left right body await =>
    tagged .forInStatement [("left", left.toJson), ("right", right.toJson), ("body", body.toJson),
      ("await", .bool await)]
  | .forOfStatement left right body await =>
    tagged .forOfStatement [("left", left.toJson), ("right", right.toJson), ("body", body.toJson),
      ("await", .bool await)]
  | .function form ⟨id, params, body, async, generator, declare, typeParameters, returnType⟩ =>
    tagged form.kind [("id", optionJson id), ("params", .array (listJson params)),
      ("body", optionJson body), ("async", .bool async), ("generator", .bool generator),
      ("declare", .bool declare), ("typeParameters", optionJson typeParameters),
      ("returnType", optionJson returnType)]
  | .arrowFunctionExpression ⟨params, body, async, typeParameters, returnType⟩ =>
    tagged .arrowFunctionExpression [("params", .array (listJson params)), ("body", body.toJson),
      ("async", .bool async), ("typeParameters", optionJson typeParameters),
      ("returnType", optionJson returnType)]
  | .variableDeclaration word declarations declare =>
    tagged .variableDeclaration [("kind", .string word),
      ("declarations", .array (listJson declarations)), ("declare", .bool declare)]
  | .variableDeclarator id init definite =>
    tagged .variableDeclarator [("id", id.toJson), ("init", optionJson init),
      ("definite", .bool definite)]
  | .classDeclaration ⟨id, superClass, body, decorators, abstract, declare, typeParameters,
      superTypeArguments, implements⟩ =>
    tagged .classDeclaration [("id", optionJson id), ("superClass", optionJson superClass),
      ("body", body.toJson), ("decorators", .array (listJson decorators)),
      ("abstract", .bool abstract), ("declare", .bool declare),
      ("typeParameters", optionJson typeParameters),
      ("superTypeArguments", optionJson superTypeArguments),
      ("implements", .array (listJson implements))]
  | .classExpression ⟨id, superClass, body, decorators, abstract, declare, typeParameters,
      superTypeArguments, implements⟩ =>
    tagged .classExpression [("id", optionJson id), ("superClass", optionJson superClass),
      ("body", body.toJson), ("decorators", .array (listJson decorators)),
      ("abstract", .bool abstract), ("declare", .bool declare),
      ("typeParameters", optionJson typeParameters),
      ("superTypeArguments", optionJson superTypeArguments),
      ("implements", .array (listJson implements))]
  | .methodDefinition ⟨key, value, word, computed, static, abstract, override, optional,
      accessibility, decorators, typeParameters⟩ =>
    tagged .methodDefinition [("key", key.toJson), ("value", value.toJson),
      ("kind", .string word), ("computed", .bool computed), ("static", .bool static),
      ("abstract", .bool abstract), ("override", .bool override), ("optional", .bool optional),
      ("accessibility", textJson accessibility), ("decorators", .array (listJson decorators)),
      ("typeParameters", optionJson typeParameters)]
  | .tsAbstractMethodDefinition ⟨key, value, word, computed, static, abstract, override, optional,
      accessibility, decorators, typeParameters⟩ =>
    tagged .tsAbstractMethodDefinition [("key", key.toJson), ("value", value.toJson),
      ("kind", .string word), ("computed", .bool computed), ("static", .bool static),
      ("abstract", .bool abstract), ("override", .bool override), ("optional", .bool optional),
      ("accessibility", textJson accessibility), ("decorators", .array (listJson decorators)),
      ("typeParameters", optionJson typeParameters)]
  | .classField form ⟨key, value, computed, static, declare, abstract, override, readonly,
      definite, optional, accessibility, decorators, annot⟩ =>
    tagged form.kind [("key", key.toJson), ("value", optionJson value),
      ("computed", .bool computed), ("static", .bool static), ("declare", .bool declare),
      ("abstract", .bool abstract), ("override", .bool override), ("readonly", .bool readonly),
      ("definite", .bool definite), ("optional", .bool optional),
      ("accessibility", textJson accessibility), ("decorators", .array (listJson decorators)),
      ("typeAnnotation", optionJson annot)]
  | .decorator expression => tagged .decorator [("expression", expression.toJson)]
  | .tsParameterProperty ⟨parameter, accessibility, readonly, static, override, decorators⟩ =>
    tagged .tsParameterProperty [("parameter", parameter.toJson),
      ("accessibility", textJson accessibility), ("readonly", .bool readonly),
      ("static", .bool static), ("override", .bool override),
      ("decorators", .array (listJson decorators))]
  | .importDeclaration specifiers source importKind attributes =>
    tagged .importDeclaration [("specifiers", .array (listJson specifiers)),
      ("source", source.toJson), ("importKind", textJson importKind),
      ("attributes", .array (listJson attributes))]
  | .importSpecifier imported localName importKind =>
    tagged .importSpecifier [("imported", imported.toJson), ("local", localName.toJson),
      ("importKind", textJson importKind)]
  | .importDefaultSpecifier localName =>
    tagged .importDefaultSpecifier [("local", localName.toJson)]
  | .importNamespaceSpecifier localName =>
    tagged .importNamespaceSpecifier [("local", localName.toJson)]
  | .importAttribute key value =>
    tagged .importAttribute [("key", key.toJson), ("value", value.toJson)]
  | .importExpression source arguments options =>
    tagged .importExpression [("source", source.toJson),
      ("arguments", .array (listJson arguments)), ("options", optionJson options)]
  | .exportNamedDeclaration ⟨declaration, specifiers, source, exportKind, attributes⟩ =>
    tagged .exportNamedDeclaration [("declaration", optionJson declaration),
      ("specifiers", .array (listJson specifiers)), ("source", optionJson source),
      ("exportKind", textJson exportKind), ("attributes", .array (listJson attributes))]
  | .exportSpecifier localName exported exportKind =>
    tagged .exportSpecifier [("local", localName.toJson), ("exported", exported.toJson),
      ("exportKind", textJson exportKind)]
  | .exportDefaultDeclaration declaration =>
    tagged .exportDefaultDeclaration [("declaration", declaration.toJson)]
  | .exportAllDeclaration exported source exportKind attributes =>
    tagged .exportAllDeclaration [("exported", optionJson exported), ("source", source.toJson),
      ("exportKind", textJson exportKind), ("attributes", .array (listJson attributes))]
  | .thisExpression => tagged .thisExpression []
  | .super => tagged .super []
  | .restElement argument annot =>
    tagged .restElement [("argument", argument.toJson), ("typeAnnotation", optionJson annot)]
  | .spreadElement argument annot =>
    tagged .spreadElement [("argument", argument.toJson), ("typeAnnotation", optionJson annot)]
  | .yieldExpression argument delegate =>
    tagged .yieldExpression [("argument", optionJson argument), ("delegate", .bool delegate)]
  | .awaitExpression argument => tagged .awaitExpression [("argument", argument.toJson)]
  | .templateLiteral quasis expressions =>
    tagged .templateLiteral [("quasis", .array (listJson quasis)),
      ("expressions", .array (listJson expressions))]
  | .templateElement value tail =>
    tagged .templateElement [("value", templateJson value), ("tail", .bool tail)]
  | .taggedTemplateExpression tag quasi =>
    tagged .taggedTemplateExpression [("tag", tag.toJson), ("quasi", quasi.toJson)]
  | .arrayExpression elements annot =>
    tagged .arrayExpression [("elements", .array (holesJson elements)),
      ("typeAnnotation", optionJson annot)]
  | .arrayPattern elements annot =>
    tagged .arrayPattern [("elements", .array (holesJson elements)),
      ("typeAnnotation", optionJson annot)]
  | .objectExpression properties annot =>
    tagged .objectExpression [("properties", .array (listJson properties)),
      ("typeAnnotation", optionJson annot)]
  | .objectPattern properties annot =>
    tagged .objectPattern [("properties", .array (listJson properties)),
      ("typeAnnotation", optionJson annot)]
  | .property ⟨key, value, word, method, shorthand, computed⟩ =>
    tagged .property [("key", key.toJson), ("value", value.toJson), ("kind", .string word),
      ("method", .bool method), ("shorthand", .bool shorthand), ("computed", .bool computed)]
  | .sequenceExpression expressions =>
    tagged .sequenceExpression [("expressions", .array (listJson expressions))]
  | .unaryExpression operator isPrefix argument =>
    tagged .unaryExpression [("operator", .string operator), ("prefix", .bool isPrefix),
      ("argument", argument.toJson)]
  | .updateExpression operator isPrefix argument =>
    tagged .updateExpression [("operator", .string operator), ("prefix", .bool isPrefix),
      ("argument", argument.toJson)]
  | .assignmentExpression operator left right =>
    tagged .assignmentExpression [("operator", .string operator), ("left", left.toJson),
      ("right", right.toJson)]
  | .binaryExpression operator left right =>
    tagged .binaryExpression [("operator", .string operator), ("left", left.toJson),
      ("right", right.toJson)]
  | .logicalExpression operator left right =>
    tagged .logicalExpression [("operator", .string operator), ("left", left.toJson),
      ("right", right.toJson)]
  | .assignmentPattern left right =>
    tagged .assignmentPattern [("left", left.toJson), ("right", right.toJson)]
  | .conditionalExpression test consequent alternate =>
    tagged .conditionalExpression [("test", test.toJson), ("consequent", consequent.toJson),
      ("alternate", alternate.toJson)]
  | .newExpression callee arguments optional typeArguments =>
    tagged .newExpression [("callee", callee.toJson), ("arguments", .array (listJson arguments)),
      ("optional", .bool optional), ("typeArguments", optionJson typeArguments)]
  | .callExpression callee arguments optional typeArguments =>
    tagged .callExpression [("callee", callee.toJson), ("arguments", .array (listJson arguments)),
      ("optional", .bool optional), ("typeArguments", optionJson typeArguments)]
  | .chainExpression expression => tagged .chainExpression [("expression", expression.toJson)]
  | .memberExpression object member computed optional =>
    tagged .memberExpression [("object", object.toJson), ("property", member.toJson),
      ("computed", .bool computed), ("optional", .bool optional)]
  | .metaProperty object member =>
    tagged .metaProperty [("meta", object.toJson), ("property", member.toJson)]
  | .identifier name optional annot decorators =>
    tagged .identifier [("name", .string name), ("optional", .bool optional),
      ("typeAnnotation", optionJson annot), ("decorators", .array (listJson decorators))]
  | .privateIdentifier name => tagged .privateIdentifier [("name", .string name)]
  | .literal ⟨value, raw, regex, bigint⟩ =>
    tagged .literal [("value", value), ("raw", textJson raw), ("regex", regexJson regex),
      ("bigint", textJson bigint)]
  | .regExpLiteral ⟨value, raw, regex, bigint⟩ =>
    tagged .regExpLiteral [("value", value), ("raw", textJson raw), ("regex", regexJson regex),
      ("bigint", textJson bigint)]
  | .tsAsExpression expression annot =>
    tagged .tsAsExpression [("expression", expression.toJson), ("typeAnnotation", annot.toJson)]
  | .tsSatisfiesExpression expression annot =>
    tagged .tsSatisfiesExpression [("expression", expression.toJson),
      ("typeAnnotation", annot.toJson)]
  | .tsTypeAssertion expression annot =>
    tagged .tsTypeAssertion [("expression", expression.toJson), ("typeAnnotation", annot.toJson)]
  | .tsNonNullExpression expression =>
    tagged .tsNonNullExpression [("expression", expression.toJson)]
  | .tsInterfaceDeclaration ⟨id, body, bases, typeParameters, declare⟩ =>
    tagged .tsInterfaceDeclaration [("id", id.toJson), ("body", body.toJson),
      ("extends", .array (listJson bases)), ("typeParameters", optionJson typeParameters),
      ("declare", .bool declare)]
  | .tsInterfaceBody body => tagged .tsInterfaceBody [("body", .array (listJson body))]
  | .heritage form expression typeArguments =>
    tagged form.kind [("expression", expression.toJson),
      ("typeArguments", optionJson typeArguments)]
  | .tsTypeAliasDeclaration id annot typeParameters declare =>
    tagged .tsTypeAliasDeclaration [("id", id.toJson), ("typeAnnotation", annot.toJson),
      ("typeParameters", optionJson typeParameters), ("declare", .bool declare)]
  | .tsEnumDeclaration ⟨id, members, body, const, declare⟩ =>
    tagged .tsEnumDeclaration [("id", id.toJson), ("members", .array (listJson members)),
      ("body", bodyJson body), ("const", .bool const), ("declare", .bool declare)]
  | .tsEnumMember id initializer computed =>
    tagged .tsEnumMember [("id", id.toJson), ("initializer", optionJson initializer),
      ("computed", .bool computed)]
  | .tsModuleDeclaration ⟨id, body, declare, global, word⟩ =>
    tagged .tsModuleDeclaration [("id", id.toJson), ("body", optionJson body),
      ("declare", .bool declare), ("global", .bool global), ("kind", textJson word)]
  | .tsTypeAnnot type => tagged .tsTypeAnnot [("typeAnnotation", type.toJson)]
  | .keywordType k => tagged k.kind []
  | .tsLiteralType lit => tagged .tsLiteralType [("literal", lit.toJson)]
  | .tsTemplateLiteralType quasis types =>
    tagged .tsTemplateLiteralType [("quasis", .array (listJson quasis)),
      ("types", .array (listJson types))]
  | .tsTypeReference typeName typeArguments =>
    tagged .tsTypeReference [("typeName", typeName.toJson),
      ("typeArguments", optionJson typeArguments)]
  | .tsQualifiedName left right =>
    tagged .tsQualifiedName [("left", left.toJson), ("right", right.toJson)]
  | .tsTypeQuery exprName typeArguments =>
    tagged .tsTypeQuery [("exprName", exprName.toJson),
      ("typeArguments", optionJson typeArguments)]
  | .tsUnionType types => tagged .tsUnionType [("types", .array (listJson types))]
  | .tsIntersectionType types => tagged .tsIntersectionType [("types", .array (listJson types))]
  | .tsTupleType elementTypes =>
    tagged .tsTupleType [("elementTypes", .array (listJson elementTypes))]
  | .tsOptionalType type => tagged .tsOptionalType [("typeAnnotation", type.toJson)]
  | .tsRestType type => tagged .tsRestType [("typeAnnotation", type.toJson)]
  | .tsParenthesizedType type => tagged .tsParenthesizedType [("typeAnnotation", type.toJson)]
  | .tsNamedTupleMember label elementType optional =>
    tagged .tsNamedTupleMember [("label", label.toJson), ("elementType", elementType.toJson),
      ("optional", .bool optional)]
  | .tsArrayType elementType => tagged .tsArrayType [("elementType", elementType.toJson)]
  | .tsIndexedAccessType objectType indexType =>
    tagged .tsIndexedAccessType [("objectType", objectType.toJson),
      ("indexType", indexType.toJson)]
  | .tsTypeOperator operator type =>
    tagged .tsTypeOperator [("operator", .string operator), ("typeAnnotation", type.toJson)]
  | .tsConditionalType checkType extendsType trueType falseType =>
    tagged .tsConditionalType [("checkType", checkType.toJson),
      ("extendsType", extendsType.toJson), ("trueType", trueType.toJson),
      ("falseType", falseType.toJson)]
  | .tsInferType typeParameter => tagged .tsInferType [("typeParameter", typeParameter.toJson)]
  | .tsTypePredicate parameterName annot asserts =>
    tagged .tsTypePredicate [("parameterName", parameterName.toJson),
      ("typeAnnotation", optionJson annot), ("asserts", .bool asserts)]
  | .signature form params returnType typeParameters abstract =>
    tagged form.kind [("params", .array (listJson params)), ("returnType", optionJson returnType),
      ("typeParameters", optionJson typeParameters), ("abstract", .bool abstract)]
  | .tsMappedType ⟨typeParameter, key, constraint, nameType, annot, optional, readonly⟩ =>
    tagged .tsMappedType [("typeParameter", optionJson typeParameter), ("key", optionJson key),
      ("constraint", optionJson constraint), ("nameType", optionJson nameType),
      ("typeAnnotation", optionJson annot), ("optional", modifierJson optional),
      ("readonly", modifierJson readonly)]
  | .tsTypeLiteral members => tagged .tsTypeLiteral [("members", .array (listJson members))]
  | .tsPropertySignature ⟨key, computed, optional, readonly, static, annot⟩ =>
    tagged .tsPropertySignature [("key", key.toJson), ("computed", .bool computed),
      ("optional", .bool optional), ("readonly", .bool readonly), ("static", .bool static),
      ("typeAnnotation", optionJson annot)]
  | .tsMethodSignature ⟨key, computed, optional, word, params, returnType, typeParameters⟩ =>
    tagged .tsMethodSignature [("key", key.toJson), ("computed", .bool computed),
      ("optional", .bool optional), ("kind", .string word), ("params", .array (listJson params)),
      ("returnType", optionJson returnType), ("typeParameters", optionJson typeParameters)]
  | .tsIndexSignature parameters annot readonly static =>
    tagged .tsIndexSignature [("parameters", .array (listJson parameters)),
      ("typeAnnotation", optionJson annot), ("readonly", .bool readonly), ("static", .bool static)]
  | .tsTypeParameterDeclaration params =>
    tagged .tsTypeParameterDeclaration [("params", .array (listJson params))]
  | .tsTypeParameterInstantiation params =>
    tagged .tsTypeParameterInstantiation [("params", .array (listJson params))]
  | .tsTypeParameter ⟨name, constraint, fallback, varianceIn, varianceOut, const⟩ =>
    tagged .tsTypeParameter [("name", nameJson name), ("constraint", optionJson constraint),
      ("default", optionJson fallback), ("in", .bool varianceIn), ("out", .bool varianceOut),
      ("const", .bool const)]

/-- A node that may be absent. -/
def optionJson : Option Node → Json
  | none => .null
  | some n => n.toJson

/-- A list of nodes. -/
def listJson : List Node → List Json
  | [] => []
  | n :: rest => n.toJson :: listJson rest

/-- A list of nodes with holes. -/
def holesJson : List (Option Node) → List Json
  | [] => []
  | n :: rest => optionJson n :: holesJson rest

/-- The cases of a `switch`. -/
def casesJson : List SwitchCase → List Json
  | [] => []
  | ⟨test, consequent⟩ :: rest =>
    .object [("test", optionJson test), ("consequent", .array (listJson consequent))]
      :: casesJson rest

/-- The handler of a `try`. -/
def handlerJson : Option CatchClause → Json
  | none => .null
  | some ⟨param, body⟩ => .object [("param", optionJson param), ("body", body.toJson)]

/-- The body of an enumeration. -/
def bodyJson : Option (List Node) → Json
  | none => .null
  | some members => .object [("members", .array (listJson members))]

/-- The name of a type parameter. -/
def nameJson : TypeParameterName → Json
  | .node n => n.toJson
  | .plain s => .string s

end

/-- Equality of nodes: the same kinds and contents, a zero fraction being equal to its negative. -/
def same (a b : Node) : Bool := a.toJson.same b.toJson

end Node

end Estree
