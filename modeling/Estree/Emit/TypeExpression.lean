import Estree.Emit.Literal

/-!
# Types

Keywords, references, unions, functions, tuples, mapped and conditional types, and type parameters.
A type that stands inside another is wrapped when its kind binds looser than the position allows;
each position lists the kinds that it wraps.
-/

namespace Estree

namespace Emit

/-! ## §1. Names and keywords. -/

/-- The type of an annotation. -/
def typeAnnot (s : Scope) : Node → Doc
  | .tsTypeAnnot type => s.emit type
  | n => .expected n [.tsTypeAnnot]

/-- A keyword type. -/
def keywordType : Node → Doc
  | .keywordType k => k.text
  | n => .malformed n .noKeyword

/-- A literal as a type. -/
def literalType (s : Scope) : Node → Doc
  | .tsLiteralType l => s.emit l
  | n => .expected n [.tsLiteralType]

/-- A reference to a type. -/
def typeReference (s : Scope) : Node → Doc
  | .tsTypeReference typeName typeArguments => s.emit typeName ++ s.emit? typeArguments
  | n => .expected n [.tsTypeReference]

/-- A name inside a namespace. -/
def qualifiedName (s : Scope) : Node → Doc
  | .tsQualifiedName left right => s.emit left ++ "." ++ s.emit right
  | n => .expected n [.tsQualifiedName]

/-- The type of a value. -/
def typeQuery (s : Scope) : Node → Doc
  | .tsTypeQuery exprName typeArguments =>
    "typeof " ++ s.emit exprName ++ s.emit? typeArguments
  | n => .expected n [.tsTypeQuery]

/-! ## §2. Positions. -/

/-- What a member of a union wraps. -/
def inUnion : List Kind := [.tsFunctionType, .tsConstructorType, .tsConditionalType]

/-- What a member of an intersection wraps. -/
def inIntersection : List Kind := .tsUnionType :: inUnion

/-- What the operand of `keyof`, `unique` and `readonly` wraps. -/
def inTypeOperator : List Kind :=
  [.tsUnionType, .tsIntersectionType, .tsFunctionType, .tsConstructorType, .tsConditionalType,
    .tsInferType]

/-- What the element of `T[]` and `T?` and the object of `T[K]` wrap. -/
def inSuffixed : List Kind :=
  [.tsUnionType, .tsIntersectionType, .tsFunctionType, .tsConstructorType, .tsConditionalType,
    .tsTypeOperator, .tsInferType]

/-- A type in a position that wraps some kinds. -/
def memberType (s : Scope) (wrapped : List Kind) (type : Node) : Doc :=
  (s.emit type).parensIf (wrapped.contains type.kind)

/-- A union. -/
def unionType (s : Scope) : Node → Doc
  | .tsUnionType types => .join " | " (types.map (memberType s inUnion))
  | n => .expected n [.tsUnionType]

/-- An intersection. -/
def intersectionType (s : Scope) : Node → Doc
  | .tsIntersectionType types => .join " & " (types.map (memberType s inIntersection))
  | n => .expected n [.tsIntersectionType]

/-- An array type. -/
def arrayType (s : Scope) : Node → Doc
  | .tsArrayType elementType => memberType s inSuffixed elementType ++ "[]"
  | n => .expected n [.tsArrayType]

/-- The type of a member. -/
def indexedAccessType (s : Scope) : Node → Doc
  | .tsIndexedAccessType objectType indexType =>
    memberType s inSuffixed objectType ++ (s.emit indexType).brackets
  | n => .expected n [.tsIndexedAccessType]

/-- `keyof T`, `unique symbol` and `readonly T[]`. -/
def typeOperator (s : Scope) : Node → Doc
  | .tsTypeOperator operator type => operator ++ " " ++ memberType s inTypeOperator type
  | n => .expected n [.tsTypeOperator]

/-- A type in parentheses. -/
def parenthesizedType (s : Scope) : Node → Doc
  | .tsParenthesizedType type => s.parenthesized type
  | n => .expected n [.tsParenthesizedType]

/-! ## §3. Tuples. -/

/-- A tuple type. -/
def tupleType (s : Scope) : Node → Doc
  | .tsTupleType elementTypes => (s.joined ", " elementTypes).brackets
  | n => .expected n [.tsTupleType]

/-- An element that may be absent. -/
def optionalType (s : Scope) : Node → Doc
  | .tsOptionalType type => memberType s inSuffixed type ++ "?"
  | n => .expected n [.tsOptionalType]

/-- The remaining elements. -/
def restType (s : Scope) : Node → Doc
  | .tsRestType type => "..." ++ s.emit type
  | n => .expected n [.tsRestType]

/-- An element with a name. -/
def namedTupleMember (s : Scope) : Node → Doc
  | .tsNamedTupleMember label elementType optional =>
    s.emit label ++ .onlyIf optional "?" ++ ": " ++ s.emit elementType
  | n => .expected n [.tsNamedTupleMember]

/-! ## §4. Functions and conditions. -/

/-- The words before a function type. -/
def functionTypeHead (form : SignatureForm) (abstract : Bool) : Doc :=
  .onlyIf (form == .constructor) (.onlyIf abstract "abstract " ++ "new ")

/-- The type of a function or constructor. -/
def functionTypeOf (s : Scope) (form : SignatureForm) (params : List Node)
    (returnType typeParameters : Option Node) (abstract : Bool) : Doc :=
  functionTypeHead form abstract ++ s.emit? typeParameters ++ s.sequence params ++ " => "
    ++ s.emit? returnType

/-- A function type. -/
def functionType (s : Scope) : Node → Doc
  | .signature .function params returnType typeParameters abstract =>
    functionTypeOf s .function params returnType typeParameters abstract
  | .signature .constructor params returnType typeParameters abstract =>
    functionTypeOf s .constructor params returnType typeParameters abstract
  | n => .expected n [.tsFunctionType, .tsConstructorType]

/-- A conditional type. -/
def conditionalType (s : Scope) : Node → Doc
  | .tsConditionalType checkType extendsType trueType falseType =>
    s.emit checkType ++ " extends " ++ s.emit extendsType ++ " ? " ++ s.emit trueType ++ " : "
      ++ s.emit falseType
  | n => .expected n [.tsConditionalType]

/-- A type to be inferred. -/
def inferType (s : Scope) : Node → Doc
  | .tsInferType typeParameter => "infer " ++ s.emit typeParameter
  | n => .expected n [.tsInferType]

/-- `x is T`, `asserts x` and `asserts x is T`. -/
def typePredicate (s : Scope) : Node → Doc
  | .tsTypePredicate parameterName annot asserts =>
    .onlyIf asserts "asserts " ++ s.emit parameterName
      ++ .ofOption annot fun n => " is " ++ s.emit n
  | n => .expected n [.tsTypePredicate]

/-! ## §5. Type parameters. -/

/-- The name of a type parameter. -/
def typeParameterName (s : Scope) : TypeParameterName → Doc
  | .node n => s.emit n
  | .plain name => name

/-- A type parameter. -/
def typeParameter (s : Scope) : Node → Doc
  | .tsTypeParameter p =>
    .onlyIf p.const "const " ++ .onlyIf p.varianceIn "in " ++ .onlyIf p.varianceOut "out "
      ++ typeParameterName s p.name
      ++ .ofOption p.constraint (fun n => " extends " ++ s.emit n)
      ++ .ofOption p.fallback fun n => " = " ++ s.emit n
  | n => .expected n [.tsTypeParameter]

/-- Type parameters or arguments. -/
def typeParameters (s : Scope) : Node → Doc
  | .tsTypeParameterDeclaration params => "<" ++ s.joined ", " params ++ ">"
  | .tsTypeParameterInstantiation params => "<" ++ s.joined ", " params ++ ">"
  | n => .expected n [.tsTypeParameterDeclaration, .tsTypeParameterInstantiation]

/-! ## §6. Mapped types. -/

/-- A modifier of a mapped type before its word. -/
def mappedModifier (m : Option MappedModifier) (word : String) : Doc :=
  .ofOption (m.bind MappedModifier.lead?) fun lead => lead ++ word

/-- The variable and the constraint of a mapped type; a constraint of the type itself comes before
that of its type parameter. -/
def mappedKey (s : Scope) (n : Node) (m : MappedType) : Doc :=
  match m.typeParameter, m.key with
  | some (.tsTypeParameter p), _ =>
    typeParameterName s p.name ++ " in " ++ s.emit? (m.constraint.or p.constraint)
  | some other, _ => .expected other [.tsTypeParameter]
  | none, some key => s.emit key ++ " in " ++ s.emit? m.constraint
  | none, none => .malformed n .noMappedKey

/-- A mapped type. -/
def mappedType (s : Scope) (n : Node) : Doc :=
  match n with
  | .tsMappedType m =>
    "\x7b " ++ mappedModifier m.readonly "readonly "
      ++ (mappedKey s n m ++ .ofOption m.nameType fun t => " as " ++ s.emit t).brackets
      ++ mappedModifier m.optional "?" ++ s.annot m.annot ++ " \x7d"
  | n => .expected n [.tsMappedType]

end Emit

end Estree
