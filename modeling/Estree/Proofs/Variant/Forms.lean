import Estree.Proofs.Variant.Congruence

/-!
# Two forms of one node

The ways in which nodes that come from different parsers are made up, and that the typed dialect
writes them alike: each pair of forms has the same traits.
-/

namespace Estree

open Scope

/-! ## §1. Texts and traits. -/

/-- A node is written by the procedure of its kind. -/
theorem Scope.typed_emit {n : Node} {p : Procedure} (h : Registry.full.get? n.kind = some p) :
    typed.emit n = p.doc typed n := by
  unfold emit
  rw [typed_emitAs, h]

/-- A node of a kind without a procedure is not written. -/
theorem Scope.said_typed_emit_of_none {n : Node} (h : Registry.full.get? n.kind = none) :
    (typed.emit n).said = .stop := by
  unfold emit
  rw [typed_emitAs, h]
  exact Doc.said_fail _

namespace Node

/-- The traits of a node of which only the kind and the text matter. -/
def Traits.ofText (k : Kind) (said : Said) : Traits where
  kind := k
  operator? := none
  sign? := none
  identifierName? := none
  exportName? := none
  hasCall := false
  assignsObject := false
  leadingName? := some ""
  emitted := said
  declarator := .stop
  body := .stop
  object := .stop
  literal := .stop
  importAttribute := .stop
  importSpecifier := .stop
  exportSpecifier := .stop
  quasi := .stop
  loopHead := said
  definite := said
  moduleName := said
  moduleRest := (Doc.text " ").said ++ said
  methodFunction := none
  mappedVariable := none

/-- The traits of a node that also has a part in its parent. -/
def textTraits (n : Node) : Traits :=
  { Traits.ofText n.kind.concrete (typed.emit n).said with
    importSpecifier := (Emit.importSpecifier .typed n).said
    exportSpecifier := (Emit.exportSpecifier .typed n).said
    moduleRest := (Emit.moduleRest typed (some n)).said
    mappedVariable := n.variableSaid? }

/-- The kinds whose nodes have no other traits. -/
def textKinds : List Kind :=
  [.importDeclaration, .importSpecifier, .importExpression, .exportNamedDeclaration,
    .exportSpecifier, .exportAllDeclaration, .methodDefinition, .propertyDefinition,
    .accessorProperty, .tsAbstractMethodDefinition, .tsAbstractPropertyDefinition,
    .tsAbstractAccessorProperty, .tsEnumDeclaration, .tsModuleDeclaration, .tsMappedType,
    .tsTypeParameter]

/-- For most kinds only the text and the rank matter. -/
theorem traits_eq_textTraits {n : Node} (h : textKinds.contains n.kind = true) :
    n.traits = n.textTraits := by
  cases n with
  | importDeclaration | importSpecifier | importExpression | exportNamedDeclaration
  | exportSpecifier | exportAllDeclaration | methodDefinition | classField
  | tsAbstractMethodDefinition | tsEnumDeclaration | tsModuleDeclaration | tsMappedType
  | tsTypeParameter =>
    simp only [traits, textTraits, Traits.ofText, Emit.Typed.variableDeclarator, Emit.block,
      Emit.objectExpression, Emit.literal, Emit.importAttribute, Emit.templateElement,
      Doc.said_expected]
    rfl
  | block form | function form | heritage form | keywordType form | signature form =>
    cases form <;> cases h
  | _ => cases h

/-- Two nodes of such kinds agree when they are written alike and rank alike. -/
theorem traits_of_text {m n : Node} (hm : textKinds.contains m.kind = true)
    (hn : textKinds.contains n.kind = true) (hk : m.kind.concrete = n.kind.concrete)
    (hemit : (typed.emit m).said = (typed.emit n).said)
    (himport : (Emit.importSpecifier .typed m).said = (Emit.importSpecifier .typed n).said)
    (hexport : (Emit.exportSpecifier .typed m).said = (Emit.exportSpecifier .typed n).said)
    (hrest : (Emit.moduleRest typed (some m)).said = (Emit.moduleRest typed (some n)).said)
    (hvariable : m.variableSaid? = n.variableSaid?) : m.traits = n.traits := by
  rw [traits_eq_textTraits hm, traits_eq_textTraits hn, textTraits, textTraits, hk, hemit, himport,
    hexport, hrest, hvariable]

/-- The kinds of which only the text matters. -/
def plainKinds : List Kind :=
  textKinds.filter fun k =>
    !([.importSpecifier, .exportSpecifier, .tsModuleDeclaration, .tsTypeParameter].contains k)

/-- What is no import specifier is not written as one. -/
theorem said_importSpecifier_of_ne {n : Node} (h : n.kind ≠ .importSpecifier) :
    (Emit.importSpecifier .typed n).said = .stop := by
  cases n with
  | importSpecifier => exact absurd rfl h
  | _ => rfl

/-- What is no export specifier is not written as one. -/
theorem said_exportSpecifier_of_ne {n : Node} (h : n.kind ≠ .exportSpecifier) :
    (Emit.exportSpecifier .typed n).said = .stop := by
  cases n with
  | exportSpecifier => exact absurd rfl h
  | _ => rfl

/-- What is no module is written after a blank, as the body of a module. -/
theorem said_moduleRest_of_ne {n : Node} (h : n.kind ≠ .tsModuleDeclaration) :
    (Emit.moduleRest typed (some n)).said = (Doc.text " ").said ++ (typed.emit n).said := by
  cases n with
  | tsModuleDeclaration m => exact absurd rfl h
  | _ => simp only [Emit.moduleRest, Doc.said_append]

/-- What is no type parameter does not declare a variable. -/
theorem variableSaid?_of_ne {n : Node} (h : n.kind ≠ .tsTypeParameter) :
    n.variableSaid? = none := by
  cases n with
  | tsTypeParameter => exact absurd rfl h
  | _ => rfl

/-- Plain kinds are read for their texts, and are none of those that are taken apart. -/
theorem plainKinds_contains {k : Kind} (h : plainKinds.contains k = true) :
    textKinds.contains k = true ∧ k ≠ .importSpecifier ∧ k ≠ .exportSpecifier ∧
      k ≠ .tsModuleDeclaration ∧ k ≠ .tsTypeParameter := by
  revert h
  cases k <;> decide

/-- Nodes of such a kind have the same traits when they have the same text. -/
theorem traits_of_emit {m n : Node} (hm : plainKinds.contains m.kind = true)
    (hn : plainKinds.contains n.kind = true) (hk : m.kind.concrete = n.kind.concrete)
    (h : (typed.emit m).said = (typed.emit n).said) : m.traits = n.traits := by
  obtain ⟨hm, himport, hexport, hmodule, hvariable⟩ := plainKinds_contains hm
  obtain ⟨hn, himport', hexport', hmodule', hvariable'⟩ := plainKinds_contains hn
  refine traits_of_text hm hn hk h ?_ ?_ ?_ ?_
  · rw [said_importSpecifier_of_ne himport, said_importSpecifier_of_ne himport']
  · rw [said_exportSpecifier_of_ne hexport, said_exportSpecifier_of_ne hexport']
  · rw [said_moduleRest_of_ne hmodule, said_moduleRest_of_ne hmodule', h]
  · rw [variableSaid?_of_ne hvariable, variableSaid?_of_ne hvariable']

/-! ## §2. Types. -/

/-- An identifier with a name and nothing else. -/
def named (s : String) : Node := .identifier s false none []

@[simp] theorem said_emit_named (s : String) :
    (typed.emit (named s)).said = (Doc.text s).said := by
  rw [typed_emit (p := .identifier .typed) rfl]
  show (Emit.Typed.binding typed s false false none []).said = _
  simp [Emit.Typed.binding, Emit.inlineDecorators, annot, Said.concat]

/-- The members of an enumeration, without and with a body. -/
theorem traits_enumBody (id : Node) (ms : List Node) (const declare : Bool) :
    (tsEnumDeclaration ⟨id, ms, none, const, declare⟩).traits
      = (tsEnumDeclaration ⟨id, [], some ms, const, declare⟩).traits := by
  refine traits_of_emit rfl rfl rfl ?_
  rw [typed_emit rfl, typed_emit rfl]
  cases ms <;> rfl

/-- The name of a type parameter, as a text and as an identifier. -/
theorem traits_parameterName (s : String) (constraint fallback : Option Node)
    (varianceIn varianceOut const : Bool) :
    (tsTypeParameter ⟨.plain s, constraint, fallback, varianceIn, varianceOut, const⟩).traits
      = (tsTypeParameter
          ⟨.node (named s), constraint, fallback, varianceIn, varianceOut, const⟩).traits := by
  have hvariable :
      variableSaid? (tsTypeParameter
          ⟨.plain s, constraint, fallback, varianceIn, varianceOut, const⟩)
        = variableSaid? (tsTypeParameter
          ⟨.node (named s), constraint, fallback, varianceIn, varianceOut, const⟩) := by
    simp [variableSaid?, Emit.typeParameterName]
  have hemit : (typed.emit (tsTypeParameter
          ⟨.plain s, constraint, fallback, varianceIn, varianceOut, const⟩)).said
        = (typed.emit (tsTypeParameter
          ⟨.node (named s), constraint, fallback, varianceIn, varianceOut, const⟩)).said := by
    rw [typed_emit rfl, typed_emit rfl]
    simp [Procedure.doc, Emit.typeParameter, Emit.typeParameterName]
  refine traits_of_text rfl rfl rfl hemit rfl rfl ?_ hvariable
  rw [said_moduleRest_of_ne (fun h => by cases h),
    said_moduleRest_of_ne (fun h => by cases h), hemit]

/-- The variable of a mapped type, as a type parameter and as a key. -/
theorem traits_mappedKey (s : String) (constraint nameType annot : Option Node)
    (optional readonly : Option MappedModifier) :
    (tsMappedType ⟨some (tsTypeParameter ⟨.plain s, constraint, none, false, false, false⟩), none,
        none, nameType, annot, optional, readonly⟩).traits
      = (tsMappedType
          ⟨none, some (named s), constraint, nameType, annot, optional, readonly⟩).traits := by
  refine traits_of_emit rfl rfl rfl ?_
  rw [typed_emit rfl, typed_emit rfl]
  simp [Procedure.doc, Emit.mappedType, Emit.mappedKey, Emit.typeParameterName]

/-! ## §3. Imports and exports. -/

/-- The options of an import, as an argument and by name. -/
theorem traits_importOptions (source options : Node) :
    (importExpression source [options] none).traits
      = (importExpression source [] (some options)).traits := by
  refine traits_of_emit rfl rfl rfl ?_
  rw [typed_emit rfl, typed_emit rfl]
  simp [Procedure.doc, Emit.Typed.importExpression]

/-- The kind `value` is not written, as if it was absent. -/
@[simp] theorem said_kindWord_value :
    (Emit.kindWord .typed (some "value")).said = (Emit.kindWord .typed none).said := by
  simp [Emit.kindWord, Dialect.typedOnly]

/-- Imports and exports of values, without and with their kind. -/
theorem traits_importKind (specifiers : List Node) (source : Node) (attributes : List Node) :
    (importDeclaration specifiers source none attributes).traits
      = (importDeclaration specifiers source (some "value") attributes).traits := by
  refine traits_of_emit rfl rfl rfl ?_
  rw [typed_emit rfl, typed_emit rfl]
  simp [Procedure.doc, Emit.importDeclaration]

/-- The kind `value` does not matter in an import specifier. -/
theorem traits_importSpecifierKind (imported localName : Node) :
    (importSpecifier imported localName none).traits
      = (importSpecifier imported localName (some "value")).traits := by
  have hsaid : (Emit.importSpecifier .typed (importSpecifier imported localName none)).said
      = (Emit.importSpecifier .typed (importSpecifier imported localName (some "value"))).said := by
    simp [Emit.importSpecifier]
  have hemit : (typed.emit (importSpecifier imported localName none)).said
      = (typed.emit (importSpecifier imported localName (some "value"))).said := by
    rw [said_typed_emit_of_none rfl, said_typed_emit_of_none rfl]
  refine traits_of_text rfl rfl rfl hemit hsaid rfl ?_ rfl
  rw [said_moduleRest_of_ne (fun h => by cases h),
    said_moduleRest_of_ne (fun h => by cases h), hemit]

/-- The kind `value` does not matter in an export. -/
theorem traits_exportKind (declaration : Option Node) (specifiers : List Node)
    (source : Option Node) (attributes : List Node) :
    (exportNamedDeclaration ⟨declaration, specifiers, source, none, attributes⟩).traits
      = (exportNamedDeclaration
          ⟨declaration, specifiers, source, some "value", attributes⟩).traits := by
  refine traits_of_emit rfl rfl rfl ?_
  rw [typed_emit rfl, typed_emit rfl]
  cases declaration <;> simp [Procedure.doc, Emit.exportNamed]

/-- The kind `value` does not matter in an export specifier. -/
theorem traits_exportSpecifierKind (localName exported : Node) :
    (exportSpecifier localName exported none).traits
      = (exportSpecifier localName exported (some "value")).traits := by
  have hsaid : (Emit.exportSpecifier .typed (exportSpecifier localName exported none)).said
      = (Emit.exportSpecifier .typed (exportSpecifier localName exported (some "value"))).said := by
    simp [Emit.exportSpecifier]
  have hemit : (typed.emit (exportSpecifier localName exported none)).said
      = (typed.emit (exportSpecifier localName exported (some "value"))).said := by
    rw [said_typed_emit_of_none rfl, said_typed_emit_of_none rfl]
  refine traits_of_text rfl rfl rfl hemit rfl hsaid ?_ rfl
  rw [said_moduleRest_of_ne (fun h => by cases h),
    said_moduleRest_of_ne (fun h => by cases h), hemit]

/-- The kind `value` does not matter in an export of everything. -/
theorem traits_exportAllKind (exported : Option Node) (source : Node) (attributes : List Node) :
    (exportAllDeclaration exported source none attributes).traits
      = (exportAllDeclaration exported source (some "value") attributes).traits := by
  refine traits_of_emit rfl rfl rfl ?_
  rw [typed_emit rfl, typed_emit rfl]
  simp [Procedure.doc, Emit.exportAll]

/-! ## §4. Members of classes. -/

/-- A member of an abstract kind, and the same member with a flag. -/
theorem traits_abstractProperty (f : ClassField) :
    (classField .abstractProperty f).traits
      = (classField .property { f with abstract := true }).traits := by
  refine traits_of_emit rfl rfl rfl ?_
  rw [typed_emit rfl, typed_emit rfl]
  simp [Procedure.doc, Emit.Typed.classField, Emit.fieldModifiers, Emit.isAbstractForm,
    Emit.isAccessorForm]

/-- An abstract accessor is an accessor that is abstract. -/
theorem traits_abstractAccessor (f : ClassField) :
    (classField .abstractAccessor f).traits
      = (classField .accessor { f with abstract := true }).traits := by
  refine traits_of_emit rfl rfl rfl ?_
  rw [typed_emit rfl, typed_emit rfl]
  simp [Procedure.doc, Emit.Typed.classField, Emit.fieldModifiers, Emit.isAbstractForm,
    Emit.isAccessorForm]

/-- An abstract method is a method that is abstract. -/
theorem traits_abstractMethod (m : Method) :
    (tsAbstractMethodDefinition m).traits
      = (methodDefinition { m with abstract := true }).traits := by
  refine traits_of_emit rfl rfl rfl ?_
  rw [typed_emit rfl, typed_emit rfl]
  cases hvalue : Emit.methodValue m.value <;>
    simp [Procedure.doc, Emit.Typed.method, Emit.Typed.methodOf, Emit.MethodParts.of,
      Emit.MethodParts.ofMethod, hvalue, Except.map, Except.toOption, Emit.methodModifiers,
      Emit.methodHead]

/-- The type parameters of a method, with its definition and with its function. -/
theorem traits_methodTypeParameters {make : Method → Node}
    (hmake : make = methodDefinition ∨ make = tsAbstractMethodDefinition) (m : Method)
    (form : FunctionForm) (f : FunctionLike) (t : Option Node) :
    (make { m with
        value := function form { f with typeParameters := none }
        typeParameters := t }).traits
      = (make { m with
        value := function form { f with typeParameters := t }
        typeParameters := none }).traits := by
  have hdefinition : ∀ m : Method,
      (methodDefinition { m with
          value := function form { f with typeParameters := none }
          typeParameters := t }).traits
        = (methodDefinition { m with
          value := function form { f with typeParameters := t }
          typeParameters := none }).traits := by
    intro m
    refine traits_of_emit rfl rfl rfl ?_
    rw [typed_emit rfl, typed_emit rfl]
    -- the one part is written right before the other, so only the grouping differs
    simp [Procedure.doc, Emit.Typed.method, Emit.Typed.methodOf, Emit.MethodParts.of,
      Emit.MethodParts.ofMethod, Emit.methodValue, function?, Except.map, Except.toOption,
      Emit.methodModifiers, Emit.methodHead, Emit.Typed.functionSignature, emit?,
      Said.append_assoc]
  rcases hmake with rfl | rfl
  · exact hdefinition m
  · rw [traits_abstractMethod, traits_abstractMethod]
    exact hdefinition { m with abstract := true }

/-! ## §5. Modules. -/

/-- The global scope, by a flag and by its kind. -/
theorem traits_globalKind (id : Node) (body : Option Node) (declare : Bool) :
    (tsModuleDeclaration ⟨id, body, declare, true, none⟩).traits
      = (tsModuleDeclaration ⟨id, body, declare, false, some "global"⟩).traits := by
  refine traits_of_text rfl rfl rfl ?_ rfl rfl ?_ rfl
  · rw [typed_emit rfl, typed_emit rfl]
    simp [Procedure.doc, Emit.moduleDeclaration, ModuleDeclaration.isGlobal]
  · simp [Emit.moduleRest]

/-- The parts of a name, of nested modules and of one. -/
theorem traits_moduleName {x y : Node} (hx : x.kind = .identifier ∨ x.kind = .tsQualifiedName)
    (hy : y.kind = .identifier) {kind : Option String} (hkind : kind ≠ some "global")
    (body : Option Node) (declare declare' global' : Bool) (kind' : Option String) :
    (tsModuleDeclaration ⟨x, some (tsModuleDeclaration ⟨y, body, declare', global', kind'⟩),
        declare, false, kind⟩).traits
      = (tsModuleDeclaration ⟨tsQualifiedName x y, body, declare, false, kind⟩).traits := by
  -- such a name is no literal, which would be quoted and would change the keyword
  have hpart : ∀ n : Node, n.kind = .identifier ∨ n.kind = .tsQualifiedName →
      Emit.moduleNamePart typed n = typed.emit n := by
    intro n hn
    cases n with
    | literal => rcases hn with hn | hn <;> cases hn
    | _ => rfl
  have hkeyword : ∀ (n : Node) (body : Option Node),
      n.kind = .identifier ∨ n.kind = .tsQualifiedName →
      Emit.moduleKeyword ⟨n, body, declare, false, kind⟩
        = if kind = some "module" then "module " else "namespace " := by
    intro n body hn
    cases n with
    | literal => rcases hn with hn | hn <;> cases hn
    | _ => rfl
  have hname : (Emit.moduleNamePart typed (tsQualifiedName x y)).said
      = (typed.emit x).said ++ (Doc.text ".").said ++ (typed.emit y).said := by
    rw [hpart _ (.inr rfl), typed_emit (p := .qualifiedName) rfl]
    simp [Procedure.doc, Emit.qualifiedName]
  refine traits_of_text rfl rfl rfl ?_ rfl rfl ?_ rfl
  · rw [typed_emit rfl, typed_emit rfl]
    simp [Procedure.doc, Emit.moduleDeclaration, ModuleDeclaration.isGlobal, hkind,
      hkeyword x _ hx, hkeyword (tsQualifiedName x y) _ (.inr rfl), hname, Emit.moduleRest,
      hpart x hx, hpart y (.inl hy), Said.append_assoc]
  · simp [Emit.moduleRest, hpart x hx, hpart y (.inl hy), hname, Said.append_assoc]

end Node

end Estree
