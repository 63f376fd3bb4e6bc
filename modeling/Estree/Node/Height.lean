import Estree.Node.Basic

/-!
# The height of a tree

A node without children has height one, and every other node stands one above the highest of its
children, wherever in the node they stand. The height bounds how deep dispatch can descend.
-/

namespace Estree

namespace Node

/-- One more than the greatest of the heights. -/
def above (hs : List Nat) : Nat := hs.foldr max 0 + 1

mutual

/-- The height of a node. -/
def height : Node → Nat
  | .program body => heightList body + 1
  | .block _ body => heightList body + 1
  | .emptyStatement => 1
  | .debuggerStatement => 1
  | .expressionStatement expression _ => height expression + 1
  | .ifStatement test consequent alternate =>
    above [height test, height consequent, heightOption alternate]
  | .labeledStatement label body => above [height label, height body]
  | .breakStatement label => heightOption label + 1
  | .continueStatement label => heightOption label + 1
  | .withStatement object body => above [height object, height body]
  | .switchStatement discriminant cases => above [height discriminant, heightCases cases]
  | .returnStatement argument => heightOption argument + 1
  | .throwStatement argument => height argument + 1
  | .tryStatement tried handler finalizer =>
    above [height tried, heightHandler handler, heightOption finalizer]
  | .whileStatement test body => above [height test, height body]
  | .doWhileStatement test body => above [height test, height body]
  | .forStatement init test update body =>
    above [heightOption init, heightOption test, heightOption update, height body]
  | .forInStatement left right body _ => above [height left, height right, height body]
  | .forOfStatement left right body _ => above [height left, height right, height body]
  | .function _ ⟨id, params, body, _, _, _, typeParameters, returnType⟩ =>
    above [heightOption id, heightList params, heightOption body, heightOption typeParameters,
      heightOption returnType]
  | .arrowFunctionExpression ⟨params, body, _, typeParameters, returnType⟩ =>
    above [heightList params, height body, heightOption typeParameters, heightOption returnType]
  | .variableDeclaration _ declarations _ => heightList declarations + 1
  | .variableDeclarator id init _ => above [height id, heightOption init]
  | .classDeclaration ⟨id, superClass, body, decorators, _, _, typeParameters, superTypeArguments,
      implements⟩ =>
    above [heightOption id, heightOption superClass, height body, heightList decorators,
      heightOption typeParameters, heightOption superTypeArguments, heightList implements]
  | .classExpression ⟨id, superClass, body, decorators, _, _, typeParameters, superTypeArguments,
      implements⟩ =>
    above [heightOption id, heightOption superClass, height body, heightList decorators,
      heightOption typeParameters, heightOption superTypeArguments, heightList implements]
  | .methodDefinition ⟨key, value, _, _, _, _, _, _, _, decorators, typeParameters⟩ =>
    above [height key, height value, heightList decorators, heightOption typeParameters]
  | .tsAbstractMethodDefinition ⟨key, value, _, _, _, _, _, _, _, decorators, typeParameters⟩ =>
    above [height key, height value, heightList decorators, heightOption typeParameters]
  | .classField _ ⟨key, value, _, _, _, _, _, _, _, _, _, decorators, annot⟩ =>
    above [height key, heightOption value, heightList decorators, heightOption annot]
  | .decorator expression => height expression + 1
  | .tsParameterProperty ⟨parameter, _, _, _, _, decorators⟩ =>
    above [height parameter, heightList decorators]
  | .importDeclaration specifiers source _ attributes =>
    above [heightList specifiers, height source, heightList attributes]
  | .importSpecifier imported localName _ => above [height imported, height localName]
  | .importDefaultSpecifier localName => height localName + 1
  | .importNamespaceSpecifier localName => height localName + 1
  | .importAttribute key value => above [height key, height value]
  | .importExpression source arguments options =>
    above [height source, heightList arguments, heightOption options]
  | .exportNamedDeclaration ⟨declaration, specifiers, source, _, attributes⟩ =>
    above [heightOption declaration, heightList specifiers, heightOption source,
      heightList attributes]
  | .exportSpecifier localName exported _ => above [height localName, height exported]
  | .exportDefaultDeclaration declaration => height declaration + 1
  | .exportAllDeclaration exported source _ attributes =>
    above [heightOption exported, height source, heightList attributes]
  | .thisExpression => 1
  | .super => 1
  | .restElement argument annot => above [height argument, heightOption annot]
  | .spreadElement argument annot => above [height argument, heightOption annot]
  | .yieldExpression argument _ => heightOption argument + 1
  | .awaitExpression argument => height argument + 1
  | .templateLiteral quasis expressions => above [heightList quasis, heightList expressions]
  | .templateElement _ _ => 1
  | .taggedTemplateExpression tag quasi => above [height tag, height quasi]
  | .arrayExpression elements annot => above [heightHoles elements, heightOption annot]
  | .arrayPattern elements annot => above [heightHoles elements, heightOption annot]
  | .objectExpression properties annot => above [heightList properties, heightOption annot]
  | .objectPattern properties annot => above [heightList properties, heightOption annot]
  | .property ⟨key, value, _, _, _, _⟩ => above [height key, height value]
  | .sequenceExpression expressions => heightList expressions + 1
  | .unaryExpression _ _ argument => height argument + 1
  | .updateExpression _ _ argument => height argument + 1
  | .assignmentExpression _ left right => above [height left, height right]
  | .binaryExpression _ left right => above [height left, height right]
  | .logicalExpression _ left right => above [height left, height right]
  | .assignmentPattern left right => above [height left, height right]
  | .conditionalExpression test consequent alternate =>
    above [height test, height consequent, height alternate]
  | .newExpression callee arguments _ typeArguments =>
    above [height callee, heightList arguments, heightOption typeArguments]
  | .callExpression callee arguments _ typeArguments =>
    above [height callee, heightList arguments, heightOption typeArguments]
  | .chainExpression expression => height expression + 1
  | .memberExpression object member _ _ => above [height object, height member]
  | .metaProperty object member => above [height object, height member]
  | .identifier _ _ annot decorators => above [heightOption annot, heightList decorators]
  | .privateIdentifier _ => 1
  | .literal _ => 1
  | .regExpLiteral _ => 1
  | .tsAsExpression expression annot => above [height expression, height annot]
  | .tsSatisfiesExpression expression annot => above [height expression, height annot]
  | .tsTypeAssertion expression annot => above [height expression, height annot]
  | .tsNonNullExpression expression => height expression + 1
  | .tsInterfaceDeclaration ⟨id, body, bases, typeParameters, _⟩ =>
    above [height id, height body, heightList bases, heightOption typeParameters]
  | .tsInterfaceBody body => heightList body + 1
  | .heritage _ expression typeArguments => above [height expression, heightOption typeArguments]
  | .tsTypeAliasDeclaration id annot typeParameters _ =>
    above [height id, height annot, heightOption typeParameters]
  | .tsEnumDeclaration ⟨id, members, body, _, _⟩ =>
    above [height id, heightList members, heightBody body]
  | .tsEnumMember id initializer _ => above [height id, heightOption initializer]
  | .tsModuleDeclaration ⟨id, body, _, _, _⟩ => above [height id, heightOption body]
  | .tsTypeAnnot type => height type + 1
  | .keywordType _ => 1
  | .tsLiteralType lit => height lit + 1
  | .tsTemplateLiteralType quasis types => above [heightList quasis, heightList types]
  | .tsTypeReference typeName typeArguments => above [height typeName, heightOption typeArguments]
  | .tsQualifiedName left right => above [height left, height right]
  | .tsTypeQuery exprName typeArguments => above [height exprName, heightOption typeArguments]
  | .tsUnionType types => heightList types + 1
  | .tsIntersectionType types => heightList types + 1
  | .tsTupleType elementTypes => heightList elementTypes + 1
  | .tsOptionalType type => height type + 1
  | .tsRestType type => height type + 1
  | .tsParenthesizedType type => height type + 1
  | .tsNamedTupleMember label elementType _ => above [height label, height elementType]
  | .tsArrayType elementType => height elementType + 1
  | .tsIndexedAccessType objectType indexType => above [height objectType, height indexType]
  | .tsTypeOperator _ type => height type + 1
  | .tsConditionalType checkType extendsType trueType falseType =>
    above [height checkType, height extendsType, height trueType, height falseType]
  | .tsInferType typeParameter => height typeParameter + 1
  | .tsTypePredicate parameterName annot _ => above [height parameterName, heightOption annot]
  | .signature _ params returnType typeParameters _ =>
    above [heightList params, heightOption returnType, heightOption typeParameters]
  | .tsMappedType ⟨typeParameter, key, constraint, nameType, annot, _, _⟩ =>
    above [heightOption typeParameter, heightOption key, heightOption constraint,
      heightOption nameType, heightOption annot]
  | .tsTypeLiteral members => heightList members + 1
  | .tsPropertySignature ⟨key, _, _, _, _, annot⟩ => above [height key, heightOption annot]
  | .tsMethodSignature ⟨key, _, _, _, params, returnType, typeParameters⟩ =>
    above [height key, heightList params, heightOption returnType, heightOption typeParameters]
  | .tsIndexSignature parameters annot _ _ => above [heightList parameters, heightOption annot]
  | .tsTypeParameterDeclaration params => heightList params + 1
  | .tsTypeParameterInstantiation params => heightList params + 1
  | .tsTypeParameter ⟨name, constraint, fallback, _, _, _⟩ =>
    above [heightName name, heightOption constraint, heightOption fallback]

/-- The height of a node that may be absent. -/
def heightOption : Option Node → Nat
  | none => 0
  | some n => height n

/-- The greatest height in a list. -/
def heightList : List Node → Nat
  | [] => 0
  | n :: rest => max (height n) (heightList rest)

/-- The greatest height in a list with holes. -/
def heightHoles : List (Option Node) → Nat
  | [] => 0
  | n :: rest => max (heightOption n) (heightHoles rest)

/-- The greatest height in a list of cases. -/
def heightCases : List SwitchCase → Nat
  | [] => 0
  | ⟨test, consequent⟩ :: rest =>
    max (max (heightOption test) (heightList consequent)) (heightCases rest)

/-- The greatest height in a handler. -/
def heightHandler : Option CatchClause → Nat
  | none => 0
  | some ⟨param, body⟩ => max (heightOption param) (height body)

/-- The greatest height in a list that may be absent. -/
def heightBody : Option (List Node) → Nat
  | none => 0
  | some members => heightList members

/-- The height of a type parameter's name. -/
def heightName : TypeParameterName → Nat
  | .node n => height n
  | .plain _ => 0

end

end Node

end Estree
