import Estree.Proofs.Dispatch
import Estree.Proofs.Shape.Basic

/-!
# When a document is written to its end

A document completes when nothing stops it. For what a procedure makes of a node of the shape that
it expects, this comes down to the documents that the procedure asks for: `Doc.Completes` goes
through every way of putting documents together, so that simplification turns the question about a
procedure into one about the nodes that it dispatches.

Main results:

* `Doc.completes_append` and the like: each way of putting documents together.
* `Scope.completes_emit` and the like: what the helpers ask of the nodes that they dispatch.
* `Emit.completes_…`: what the parts that procedures share ask of theirs.
-/

namespace Estree

namespace Doc

/-! ## §1. Putting documents together. -/

/-- Nothing stops the writing of the document. -/
def Completes (d : Doc) : Prop := d.halt? = none

@[simp] theorem completes_nil : nil.Completes := rfl

@[simp] theorem completes_text (s : String) : (text s).Completes := rfl

@[simp] theorem completes_lineEnd : lineEnd.Completes := rfl

@[simp] theorem completes_indent : indent.Completes := rfl

/-- A document stops where its first part does, or else its second. -/
@[simp] theorem completes_append (a b : Doc) :
    (a ++ b).Completes ↔ a.Completes ∧ b.Completes := Option.or_eq_none_iff

@[simp] theorem completes_indentAt (levels : Nat) : (indentAt levels).Completes := rfl

@[simp] theorem completes_deeper : deeper.Completes := rfl

@[simp] theorem completes_shallower : shallower.Completes := rfl

@[simp] theorem completes_anchored (d : Doc) : (anchored d).Completes ↔ d.Completes := Iff.rfl

/-- A defect stops the document. -/
@[simp] theorem not_completes_malformed (n : Node) (d : Defect) : ¬(malformed n d).Completes := by
  simp [Completes, malformed, fail]

/-- So does a node of another kind. -/
@[simp] theorem not_completes_expected (n : Node) (ks : List Kind) : ¬(expected n ks).Completes :=
  not_completes_malformed n _

/-- A part that is left out cannot stop anything. -/
@[simp] theorem completes_onlyIf (b : Bool) (d : Doc) :
    (onlyIf b d).Completes ↔ (b = true → d.Completes) := by
  cases b <;> simp [onlyIf]

/-- A part that may be absent. -/
@[simp] theorem completes_ofOption {α : Type} (x : Option α) (f : α → Doc) :
    (ofOption x f).Completes ↔ ∀ a ∈ x, (f a).Completes := by
  cases x <;> simp [ofOption]

/-- A part that starts from a result stops with its fault. -/
@[simp] theorem completes_ofExcept {α : Type} (x : Except EmitError α) (f : α → Doc) :
    (ofExcept x f).Completes ↔ ∃ a, x = .ok a ∧ (f a).Completes := by
  cases x <;> simp [ofExcept, fail, Completes]

/-- Documents one after the other. -/
@[simp] theorem completes_concat (ds : List Doc) :
    (concat ds).Completes ↔ ∀ d ∈ ds, d.Completes := by
  induction ds with
  | nil => simp [concat]
  | cons d rest ih => simp [concat, ih]

/-- Documents with a separator between them. -/
@[simp] theorem completes_join {sep : Doc} (hsep : sep.Completes) (ds : List Doc) :
    (join sep ds).Completes ↔ ∀ d ∈ ds, d.Completes := by
  induction ds with
  | nil => simp [join]
  | cons d rest ih => cases rest <;> simp_all [join]

@[simp] theorem completes_parens (d : Doc) : d.parens.Completes ↔ d.Completes := by
  simp [parens]

/-- Parentheses are no reason to stop. -/
@[simp] theorem completes_parensIf (b : Bool) (d : Doc) :
    (d.parensIf b).Completes ↔ d.Completes := by
  cases b <;> simp [parensIf]

@[simp] theorem completes_brackets (d : Doc) : d.brackets.Completes ↔ d.Completes := by
  simp [brackets]

@[simp] theorem completes_braces (d : Doc) : d.braces.Completes ↔ d.Completes := by
  simp [braces]

@[simp] theorem completes_line (d : Doc) : d.line.Completes ↔ d.Completes := by simp [line]

end Doc

/-! ## §2. Nodes that are asked for. -/

namespace Scope

variable (s : Scope)

/-- All the nodes of a list are written to their end. -/
abbrev Writes (vs : List Visit) : Prop := EachVisit (fun k n => (s.emitAs k n).Completes) vs

/-- A node is dispatched as what it is. -/
@[simp] theorem completes_emit (n : Node) :
    (s.emit n).Completes ↔ (s.emitAs n.kind n).Completes := Iff.rfl

@[simp] theorem completes_emit? (n : Option Node) :
    (s.emit? n).Completes ↔ ∀ c ∈ n, (s.emitAs c.kind c).Completes := by simp [emit?]

/-- Nodes with a separator between them. -/
@[simp] theorem completes_joined (sep : String) (ns : List Node) :
    (s.joined sep ns).Completes ↔ ∀ c ∈ ns, (s.emitAs c.kind c).Completes := by simp [joined]

@[simp] theorem completes_sequence (ns : List Node) :
    (s.sequence ns).Completes ↔ ∀ c ∈ ns, (s.emitAs c.kind c).Completes := by simp [sequence]

@[simp] theorem completes_parenthesized (n : Node) :
    (s.parenthesized n).Completes ↔ (s.emitAs n.kind n).Completes := by simp [parenthesized]

@[simp] theorem completes_annot (n : Option Node) :
    (s.annot n).Completes ↔ ∀ c ∈ n, (s.emitAs c.kind c).Completes := by simp [annot]

@[simp] theorem completes_lines (ns : List Node) :
    (s.lines ns).Completes ↔ ∀ c ∈ ns, (s.emitAs c.kind c).Completes := by simp [lines]

/-- Nodes on lines in braces. -/
@[simp] theorem completes_block (ns : List Node) :
    (s.block ns).Completes ↔ ∀ c ∈ ns, (s.emitAs c.kind c).Completes := by
  cases ns <;> simp [block]

@[simp] theorem completes_key (n : Node) (computed : Bool) :
    (s.key n computed).Completes ↔ (s.emitAs n.kind n).Completes := by
  cases computed <;> simp [key]

/-- An operand, in parentheses or not. -/
@[simp] theorem completes_operandOf (n parent : Node) (right : Bool) :
    (s.operandOf n parent right).Completes ↔ (s.emitAs n.kind n).Completes := by simp [operandOf]

@[simp] theorem completes_operand (n : Node) (position : Kind) :
    (s.operand n position).Completes ↔ (s.emitAs n.kind n).Completes := by simp [operand]

end Scope

/-! ## §3. Kinds that are asked for. -/

namespace Node

/-- What nodes of the kinds that shapes ask for are. -/
theorem isA_iff (n : Node) :
    (n.isA [.identifier] ↔ ∃ name, n.identifierName = .ok name) ∧
    (n.isA [.identifier, .literal] ↔ ∃ name, n.exportName = .ok name) ∧
    (n.isA functionKinds ↔ ∃ f, n.function? = some f) ∧
    (n.isA [.templateElement] ↔ ∃ value tail, n = .templateElement value tail) ∧
    (n.isA [.tsTypeParameter] ↔ ∃ p, n = .tsTypeParameter p) ∧
    (n.isA [.blockStatement] ↔ ∃ body, n = .block .statement body) ∧
    (n.isA [.objectPattern] ↔ ∃ properties annot, n = .objectPattern properties annot) ∧
    (n.isA [.regExpLiteral] ↔ ∃ l, n = .regExpLiteral l) ∧
    (n.isA [.classExpression] ↔ ∃ c, n = .classExpression c) := by
  cases n with
  | block form | classField form | heritage form | signature form | function form =>
    cases form <;> simp [isA, kind, BlockForm.kind, FieldForm.kind, HeritageForm.kind,
      SignatureForm.kind, FunctionForm.kind, functionKinds, identifierName, identifierName?,
      exportName, exportName?, function?]
  | keywordType k =>
    cases k <;> simp [isA, kind, KeywordType.kind, functionKinds, identifierName, identifierName?,
      exportName, exportName?, function?]
  | _ =>
    simp [isA, kind, functionKinds, identifierName, identifierName?, exportName, exportName?,
      function?]

/-- Identifiers have names. -/
@[simp] theorem exists_identifierName (n : Node) :
    (∃ name, n.identifierName = .ok name) ↔ n.isA [.identifier] := n.isA_iff.1.symm

/-- Identifiers and literals have names for exports. -/
@[simp] theorem exists_exportName (n : Node) :
    (∃ name, n.exportName = .ok name) ↔ n.isA [.identifier, .literal] := n.isA_iff.2.1.symm

/-- The kinds that hold a function. -/
theorem isA_functionKinds (n : Node) : n.isA functionKinds ↔ ∃ f, n.function? = some f :=
  n.isA_iff.2.2.1

theorem isA_templateElement (n : Node) :
    n.isA [.templateElement] ↔ ∃ value tail, n = .templateElement value tail := n.isA_iff.2.2.2.1

/-- The kind of type parameters. -/
theorem isA_typeParameter (n : Node) : n.isA [.tsTypeParameter] ↔ ∃ p, n = .tsTypeParameter p :=
  n.isA_iff.2.2.2.2.1

/-- The kind of classes in expressions. -/
theorem isA_classExpression (n : Node) : n.isA [.classExpression] ↔ ∃ c, n = .classExpression c :=
  n.isA_iff.2.2.2.2.2.2.2.2

/-- The three cases of a node that is written as something else than it is. -/
theorem standIns_cases {k : Kind} {n : Node} (h : n.isA (standIns k)) :
    (k = .classBody ∧ ∃ body, n = .block .statement body) ∨
    (k = .objectExpression ∧ ∃ properties annot, n = .objectPattern properties annot) ∨
    (k = .literal ∧ ∃ l, n = .regExpLiteral l) := by
  obtain ⟨-, -, -, -, -, hblock, hpattern, hregExp, -⟩ := n.isA_iff
  unfold standIns at h
  split at h
  next => exact .inl ⟨rfl, hblock.mp h⟩
  next => exact .inr (.inl ⟨rfl, hpattern.mp h⟩)
  next => exact .inr (.inr ⟨rfl, hregExp.mp h⟩)
  next => cases h

end Node

/-! ## §4. Parts of statements. -/

namespace Emit

open Node

variable (s : Scope)

/-- Declarators are dispatched as such, whatever they are. -/
@[simp] theorem completes_declarators (kind : String) (declarations : List Node) :
    (declarators s kind declarations).Completes ↔
      s.Writes (visitAllAs .variableDeclarator declarations) := by
  simp [declarators]

/-- A clause in the head of a loop. -/
@[simp] theorem completes_loopHead (n : Node) :
    (loopHead s n).Completes ↔ s.Writes n.loopVisits := by
  unfold loopHead loopVisits
  split <;> simp

@[simp] theorem completes_switchCase (c : SwitchCase) :
    (switchCase s c).Completes ↔ s.Writes (visitAll c.children) := by
  obtain ⟨test, consequent⟩ := c
  cases test <;> simp [switchCase, caseHead]

@[simp] theorem completes_handler (c : CatchClause) :
    (handler s c).Completes ↔ s.Writes (visitAll c.children) := by
  obtain ⟨param, body⟩ := c
  cases param <;> simp [handler]

/-! ## §5. Parts of functions and classes. -/

/-- The head of a function stops at a name that is no identifier. -/
@[simp] theorem completes_functionHead (f : FunctionLike) :
    (functionHead f).Completes ↔ f.id.all (isA [.identifier]) := by
  cases hid : f.id <;> simp [functionHead, hid]

/-- The signature of a function. -/
@[simp] theorem completes_functionSignature (f : FunctionLike) :
    (Typed.functionSignature s f).Completes ↔ s.Writes f.visits := by
  simp [Typed.functionSignature, and_assoc]

@[simp] theorem completes_arrowBody (body : Node) :
    (arrowBody s body).Completes ↔ s.Writes body.arrowVisits := by
  unfold arrowBody arrowVisits
  split <;> simp [kind]

@[simp] theorem completes_binding (name : String) (definite optional : Bool)
    (annot : Option Node) (decorators : List Node) :
    (Typed.binding s name definite optional annot decorators).Completes ↔
      s.Writes (visitAll (decorators ++ annot.toList)) := by
  simp [Typed.binding, inlineDecorators]

@[simp] theorem completes_declared (id : Node) (definite : Bool) :
    (Typed.declared s id definite).Completes ↔ s.Writes (declaredVisits definite id) := by
  unfold Typed.declared declaredVisits
  cases id <;> cases definite <;> simp

/-- A class stops at a name that is no identifier. -/
@[simp] theorem completes_classOf (c : ClassLike) :
    (Typed.classOf s c).Completes ↔ c.id.all (isA [.identifier]) ∧ s.Writes c.visits := by
  cases hid : c.id <;> cases hsuper : c.superClass <;> cases himpl : c.implements <;>
    simp [Typed.classOf, decoratorLines, superclass, implementsClause, hid, hsuper, himpl,
      and_assoc, and_left_comm]

@[simp] theorem completes_methodBody (body : Option Node) :
    (Typed.methodBody s body).Completes ↔ s.Writes (visitAll body.toList) := by
  cases body <;> simp [Typed.methodBody]

/-- A class method is written from its own parts and those of the function that it holds. -/
theorem completes_method {n : Node} {m : Method} {abstract : Bool}
    (h : MethodParts.of n = MethodParts.ofMethod m abstract) :
    (Typed.method s n).Completes ↔ m.value.isA functionKinds ∧
      s.Writes (visitAll (m.decorators ++ [m.key] ++ m.typeParameters.toList)
        ++ methodVisits m.value) := by
  rw [isA_functionKinds]
  cases hf : m.value.function? with
  | none => simp [Typed.method, h, MethodParts.ofMethod, methodValue, hf, Except.map]
  | some f =>
    simp [Typed.method, Typed.methodOf, h, MethodParts.ofMethod, methodValue, methodVisits, hf,
      Except.map, methodModifiers, methodHead, decoratorLines, and_assoc]

/-- A method of an object is written without decorators and type parameters of its own. -/
theorem completes_methodEntry (p : Property) :
    (Typed.method s (.property p)).Completes ↔ p.value.isA functionKinds ∧
      s.Writes (visitAll [p.key] ++ methodVisits p.value) := by
  rw [isA_functionKinds]
  cases hf : p.value.function? with
  | none => simp [Typed.method, MethodParts.of, methodValue, hf, Except.map]
  | some f =>
    simp [Typed.method, Typed.methodOf, MethodParts.of, methodValue, methodVisits, hf, Except.map,
      methodModifiers, methodHead, and_assoc]

/-! ## §6. Parts of expressions. -/

/-- An operator before its operand. -/
@[simp] theorem completes_prefixed (n : Node) (operator : String) (argument : Node) :
    (prefixed s n operator argument).Completes ↔ (s.emitAs argument.kind argument).Completes := by
  unfold prefixed
  split <;> simp

@[simp] theorem completes_memberName (name : Node) (computed optional : Bool) :
    (memberName s name computed optional).Completes ↔ (s.emitAs name.kind name).Completes := by
  cases computed <;> simp [memberName]

/-- The text of a literal never stops. -/
@[simp] theorem completes_literalText (n : Node) (l : Literal) : (literalText n l).Completes := by
  unfold literalText
  split
  next => simp
  next => simp [regExp, *]
  next => simp
  next => simp

/-- A regular expression stops if there is none. -/
@[simp] theorem completes_regExp (n : Node) (l : Literal) :
    (regExp n l).Completes ↔ l.regex.isSome := by
  cases hr : l.regex <;> simp [regExp, hr]

/-- The elements of a list; a hole is no reason to stop. -/
@[simp] theorem completes_elementList (es : List (Option Node)) :
    (elementList s es).Completes ↔ s.Writes (visitAll (es.flatMap Option.toList)) := by
  induction es with
  | nil => simp [elementList]
  | cons e rest ih =>
    cases e with
    | none => simp [elementList, ih]
    | some n => cases rest <;> simp_all [elementList]

/-- The entries of an object. -/
@[simp] theorem completes_objectLines (properties : List Node) :
    (objectLines s properties).Completes ↔ s.Writes (visitAll properties) := by
  cases properties <;> simp [objectLines]

/-- A quasi has to be one. -/
@[simp] theorem completes_templateElement (n : Node) :
    (templateElement n).Completes ↔ n.isA [.templateElement] := by
  rw [isA_templateElement]
  cases n <;> simp [templateElement]

/-- Quasis and holes in turn. -/
@[simp] theorem completes_interleaved {quasis holes : List Node}
    (h : quasis.length = holes.length + 1) :
    (interleaved s quasis holes).Completes ↔
      quasis.all (isA [.templateElement]) ∧ s.Writes (visitAll holes) := by
  fun_induction interleaved s quasis holes with
  | case1 quasi quasis hole holes ih =>
    have hrest : quasis.length = holes.length + 1 := by simpa using h
    simp [ih hrest, and_assoc, and_left_comm]
  | case2 quasi => simp
  | case3 quasis holes hmore hlast =>
    -- with one quasi more than holes there is always one to go on with
    exfalso
    match quasis, holes with
    | [], _ => simp at h
    | quasi :: quasis, hole :: holes => exact hmore quasi quasis hole holes rfl rfl
    | [quasi], [] => exact hlast quasi rfl rfl
    | _ :: _ :: _, [] => simp at h

/-- A template stops at once if the counts do not fit. -/
@[simp] theorem completes_template (n : Node) (quasis holes : List Node) :
    (template s n quasis holes).Completes ↔
      isTemplate quasis holes ∧ s.Writes (visitAll holes) := by
  by_cases h : quasis.length = holes.length + 1
  · simp [template, isTemplate, h, completes_interleaved]
  · simp [template, isTemplate, h]

/-! ## §7. Parts of imports and exports. -/

@[simp] theorem completes_kindWord (kind : Option String) : (kindWord .typed kind).Completes := by
  simp [kindWord, Dialect.typedOnly]

@[simp] theorem completes_renamed (first second : String) : (renamed first second).Completes := by
  simp [renamed]

/-- Attributes are dispatched as such, whatever they are. -/
@[simp] theorem completes_attributeClause (attributes : List Node) :
    (attributeClause s attributes).Completes ↔
      s.Writes (visitAllAs .importAttribute attributes) := by
  cases attributes <;> simp [attributeClause]

/-- A specifier of an import in braces has to be one. -/
@[simp] theorem completes_importSpecifier (n : Node) :
    (importSpecifier .typed n).Completes ↔ n.isNamedImport := by
  unfold importSpecifier isNamedImport
  split <;> simp

/-- A specifier of an export has to be one. -/
@[simp] theorem completes_exportSpecifier (n : Node) :
    (exportSpecifier .typed n).Completes ↔ n.isNamedExport := by
  unfold exportSpecifier isNamedExport
  split <;> simp

/-- A function on the value does not matter to whether there is one. -/
theorem exists_map_ok {α β : Type} (f : α → β) (x : Except EmitError α) :
    (∃ b, x.map f = .ok b) ↔ ∃ a, x = .ok a := by
  cases x <;> simp [Except.map]

/-- The leading specifiers and the others make up what an import is to look like. -/
theorem completes_leadingSpecifiers {sep : Doc} (hsep : sep.Completes) (specifiers : List Node) :
    (leadingSpecifiers sep (specifiers.takeWhile isLeading)).Completes ∧
      (specifiers.dropWhile isLeading).all isNamedImport ↔ areImports specifiers := by
  induction specifiers generalizing sep with
  | nil => simp [leadingSpecifiers, areImports]
  | cons n rest ih =>
    have h := ih (Doc.completes_text ", ")
    cases n with
    | importDefaultSpecifier | importNamespaceSpecifier =>
      simp [List.takeWhile_cons, List.dropWhile_cons, isLeading, leadingSpecifiers, leadingName,
        areImports, hsep, ← h, exists_map_ok, and_assoc]
    | _ => simp [isLeading, leadingSpecifiers, areImports]

/-- The specifiers of an import are checked in their order. -/
@[simp] theorem completes_importSpecifiers (specifiers : List Node) :
    (importSpecifiers .typed specifiers).Completes ↔ areImports specifiers := by
  rw [← completes_leadingSpecifiers Doc.completes_nil]
  cases hnamed : specifiers.dropWhile isLeading <;> simp [importSpecifiers, hnamed]

/-! ## §8. Parts of types and namespaces. -/

@[simp] theorem completes_memberType (wrapped : List Kind) (type : Node) :
    (memberType s wrapped type).Completes ↔ (s.emitAs type.kind type).Completes := by
  simp [memberType]

/-- The name of a type parameter. -/
@[simp] theorem completes_typeParameterName (name : TypeParameterName) :
    (typeParameterName s name).Completes ↔ s.Writes (visitAll name.children) := by
  cases name <;> simp [typeParameterName]

/-- A part of the name of a module. -/
@[simp] theorem completes_moduleNamePart (id : Node) :
    (moduleNamePart s id).Completes ↔ s.Writes id.moduleNameVisits := by
  unfold moduleNamePart moduleNameVisits
  split
  · split <;> simp_all
  · simp

@[simp] theorem completes_moduleRest (body : Option Node) :
    (moduleRest s body).Completes ↔ s.Writes (moduleRestVisits body) := by
  fun_induction moduleRest s body with
  | case1 => simp_all [moduleRestVisits]
  | case2 => simp_all [moduleRestVisits]
  | case3 => simp_all [moduleRestVisits]

/-- The variable of a mapped type stops if there is none, or if it is no type parameter. -/
theorem completes_mappedKey (n : Node) (m : MappedType) :
    (mappedKey s n m).Completes ∧ s.Writes (visitAll (m.nameType.toList ++ m.annot.toList)) ↔
      (Node.tsMappedType m).hasShape .tsMappedType ∧ s.Writes m.visits := by
  cases hp : m.typeParameter with
  | none => cases hk : m.key <;> simp [mappedKey, hasShape, MappedType.visits, hp, hk, and_assoc]
  | some parameter =>
    cases parameter with
    | tsTypeParameter p =>
      simp [mappedKey, hasShape, MappedType.visits, hp, isA, kind, and_assoc]
    | _ => simp [mappedKey, hasShape, hp, isA_typeParameter]

end Emit

end Estree
