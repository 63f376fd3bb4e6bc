import Estree.Emit.Function

/-!
# Classes

Class headers, methods and fields. Methods of classes and of object literals are written alike; the
modifiers belong to class methods only. The two dialects put the spaces of a class header in
different places: the plain one after each part, the typed one before the name and after the type
parameters.
-/

namespace Estree

namespace Emit

/-! ## §1. Headers. -/

/-- The superclass, wrapped unless it is a class expression or binds as tightly as one. -/
def superclass (s : Scope) (n : Node) : Doc :=
  "extends " ++ (s.emit n).parensIf
    (n.kind != .classExpression && s.ranksBelow n.kind .classExpression)

/-- The header and the body of a class in the plain dialect. -/
def Plain.classOf (s : Scope) (c : ClassLike) : Doc :=
  "class " ++ .ofOption c.id (fun id => .ofExcept id.identifierName Doc.text ++ " ")
    ++ .ofOption c.superClass (fun n => superclass s n ++ " ") ++ s.emitAs .classBody c.body

/-- A class in the plain dialect. -/
def Plain.classLike (s : Scope) : Node → Doc
  | .classDeclaration c => Plain.classOf s c
  | .classExpression c => Plain.classOf s c
  | n => .expected n [.classDeclaration, .classExpression]

/-- The interfaces that a class implements. -/
def implementsClause (s : Scope) (ns : List Node) : Doc :=
  if ns.isEmpty then .nil else "implements " ++ s.joined ", " ns ++ " "

/-- The header and the body of a class in the typed dialect. -/
def Typed.classOf (s : Scope) (c : ClassLike) : Doc :=
  decoratorLines s c.decorators ++ .onlyIf c.declare "declare "
    ++ .onlyIf c.abstract "abstract " ++ "class"
    ++ .ofOption c.id (fun id => " " ++ .ofExcept id.identifierName Doc.text)
    ++ s.emit? c.typeParameters ++ " "
    ++ .ofOption c.superClass (fun n =>
      superclass s n ++ s.emit? c.superTypeArguments ++ " ")
    ++ implementsClause s c.implements ++ s.emitAs .classBody c.body

/-- A class in the typed dialect. -/
def Typed.classLike (s : Scope) : Node → Doc
  | .classDeclaration c => Typed.classOf s c
  | .classExpression c => Typed.classOf s c
  | n => .expected n [.classDeclaration, .classExpression]

/-- A class expression, written by whatever writes class declarations. -/
def classExpression (s : Scope) (n : Node) : Doc := s.emitAs .classDeclaration n

/-! ## §2. Methods. -/

/-- The parts of a method of a class or of an object literal. -/
structure MethodParts where
  key : Node
  value : FunctionLike
  kind : String
  computed : Bool
  static : Bool
  /-- Whether the method is abstract by its kind or by its flag. -/
  abstract : Bool
  /-- The class method, if it is one. -/
  definition : Option Method

/-- The function that a method holds. -/
def methodValue (value : Node) : Except EmitError FunctionLike :=
  match value.function? with
  | some f => .ok f
  | none => .error (.malformed value.kind .noFunction)

/-- The parts of a class method. -/
def MethodParts.ofMethod (m : Method) (abstract : Bool) : Except EmitError MethodParts :=
  (methodValue m.value).map fun f =>
    ⟨m.key, f, m.kind, m.computed, m.static, m.abstract || abstract, some m⟩

/-- The parts of a node that is a method. -/
def MethodParts.of : Node → Except EmitError MethodParts
  | .methodDefinition m => MethodParts.ofMethod m false
  | .tsAbstractMethodDefinition m => MethodParts.ofMethod m true
  | .property p =>
    (methodValue p.value).map fun f => ⟨p.key, f, p.kind, p.computed, false, false, none⟩
  | n => .error (.malformed n.kind (.notOneOf [.methodDefinition, .property]))

/-- `get` or `set`, `async`, `*` and the key. -/
def methodHead (s : Scope) (p : MethodParts) : Doc :=
  .onlyIf (p.kind == "get" || p.kind == "set") (p.kind ++ " ")
    ++ .onlyIf p.value.async "async " ++ .onlyIf p.value.generator "*"
    ++ s.key p.key p.computed

/-- The parts of a method in the plain dialect. -/
def Plain.methodOf (s : Scope) (p : MethodParts) : Doc :=
  .onlyIf p.static "static " ++ methodHead s p ++ s.sequence p.value.params
    ++ .ofOption p.value.body fun body => " " ++ s.emit body

/-- A method in the plain dialect. -/
def Plain.method (s : Scope) (n : Node) : Doc :=
  Doc.ofExcept (MethodParts.of n) (Plain.methodOf s)

/-- The modifiers of a class method between `static` and the name. -/
def methodModifiers (p : MethodParts) : Doc :=
  .ofOption p.definition fun m =>
    .onlyIf p.abstract "abstract " ++ .onlyIf m.override "override "
      ++ .ofOption m.accessibility fun a => a ++ " "

/-- The end of a method in the typed dialect: its body, or a terminator in place of one. -/
def Typed.methodBody (s : Scope) : Option Node → Doc
  | some body => " " ++ s.emit body
  | none => ";"

/-- The parts of a method in the typed dialect. -/
def Typed.methodOf (s : Scope) (p : MethodParts) : Doc :=
  .ofOption p.definition (fun m => decoratorLines s m.decorators)
    ++ .onlyIf p.static "static " ++ methodModifiers p ++ methodHead s p
    ++ .ofOption p.definition (fun m => .onlyIf m.optional "?" ++ s.emit? m.typeParameters)
    ++ Typed.functionSignature s p.value ++ Typed.methodBody s p.value.body

/-- A method in the typed dialect. -/
def Typed.method (s : Scope) (n : Node) : Doc :=
  Doc.ofExcept (MethodParts.of n) (Typed.methodOf s)

/-! ## §3. Fields. -/

/-- Whether a key is a function, which needs no terminator after it. -/
def isFunctionKey : Node → Bool
  | .function .declaration _ | .function .expression _ => true
  | _ => false

/-- A class field in the plain dialect, which has no auto-accessors and no abstract fields. -/
def Plain.classField (s : Scope) : Node → Doc
  | .classField .property f =>
    .onlyIf f.static "static " ++ s.key f.key f.computed
      ++ match f.value with
        | some value => " = " ++ s.emit value ++ ";"
        | none => .onlyIf (!isFunctionKey f.key) ";"
  | n => .expected n [.propertyDefinition]

/-- Whether a field is abstract by its form. -/
def isAbstractForm : FieldForm → Bool
  | .abstractProperty | .abstractAccessor => true
  | .property | .accessor => false

/-- Whether a field is an auto-accessor. -/
def isAccessorForm : FieldForm → Bool
  | .accessor | .abstractAccessor => true
  | .property | .abstractProperty => false

/-- The modifiers of a field after `static`. -/
def fieldModifiers (form : FieldForm) (f : ClassField) : Doc :=
  .onlyIf (f.abstract || isAbstractForm form) "abstract " ++ .onlyIf f.override "override "
    ++ .onlyIf (isAccessorForm form) "accessor " ++ .ofOption f.accessibility (fun a => a ++ " ")
    ++ .onlyIf f.readonly "readonly "

/-- A class field in the typed dialect. -/
def Typed.classField (s : Scope) : Node → Doc
  | .classField form f =>
    decoratorLines s f.decorators ++ .onlyIf f.declare "declare " ++ .onlyIf f.static "static "
      ++ fieldModifiers form f ++ s.key f.key f.computed ++ .onlyIf f.definite "!"
      ++ .onlyIf f.optional "?" ++ s.annot f.annot
      ++ match f.value with
        | some value => " = " ++ s.emit value ++ ";"
        | none => .onlyIf (!isFunctionKey f.key) ";"
  | n =>
    .expected n [.propertyDefinition, .accessorProperty, .tsAbstractPropertyDefinition,
      .tsAbstractAccessorProperty]

end Emit

end Estree
