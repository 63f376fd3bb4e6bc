import Estree.Proofs.Results
import Estree.Proofs.Variant.Traits

/-!
# Traits of a node from those inside

The traits of a node depend on nothing but the traits of the nodes inside:

    (n.map Node.rep).traits = n.traits

So a node may be replaced by one with the same traits anywhere in a tree. There is one lemma for
each part of a procedure that asks something of a node inside, in the order of the modules that
hold the procedures; the lemmas are simplification rules, so that a procedure needs a proof of its
own only where it asks for more than the traits of a single node.

Main results:

* `…_rep`: what a representative keeps, and what procedures write with representatives for the nodes
  inside.
* `Node.traits_map_rep`: the traits of a node depend on the traits of the nodes inside.
-/

namespace Estree

open Scope

/-! ## §1. What representatives keep. -/

namespace Node

/-- The kind, up to abstract members. -/
@[simp] theorem concrete_kind_rep (n : Node) : n.rep.kind.concrete = n.kind.concrete :=
  congrArg Traits.kind n.traits_rep

@[simp] theorem operator?_rep (n : Node) : n.rep.operator? = n.operator? :=
  congrArg Traits.operator? n.traits_rep

/-- The sign before the operand. -/
@[simp] theorem sign?_rep (n : Node) : n.rep.sign? = n.sign? :=
  congrArg Traits.sign? n.traits_rep

/-- The name of an identifier. -/
@[simp] theorem identifierName?_rep (n : Node) : n.rep.identifierName? = n.identifierName? :=
  congrArg Traits.identifierName? n.traits_rep

@[simp] theorem exportName?_rep (n : Node) : n.rep.exportName? = n.exportName? :=
  congrArg Traits.exportName? n.traits_rep

/-- Whether a call is reached along members. -/
@[simp] theorem hasCall_rep (n : Node) : n.rep.hasCall = n.hasCall :=
  congrArg Traits.hasCall n.traits_rep

/-- Whether it assigns to an object pattern. -/
@[simp] theorem assignsObject_rep (n : Node) :
    Emit.assignsObject n.rep = Emit.assignsObject n :=
  congrArg Traits.assignsObject n.traits_rep

/-- The name of a specifier before the braces. -/
@[simp] theorem toOption_leadingName_rep (n : Node) :
    (Emit.leadingName n.rep).toOption = (Emit.leadingName n).toOption :=
  congrArg Traits.leadingName? n.traits_rep

/-- What a method writes of a function. -/
@[simp] theorem functionSaid?_rep (n : Node) : n.rep.functionSaid? = n.functionSaid? :=
  congrArg Traits.methodFunction n.traits_rep

/-- What a mapped type writes of a type parameter. -/
@[simp] theorem variableSaid?_rep (n : Node) : n.rep.variableSaid? = n.variableSaid? :=
  congrArg Traits.mappedVariable n.traits_rep

/-- What depends on the kind alone, without telling abstract members apart. -/
theorem kind_rep {α : Type} {f : Kind → α} (h : ∀ k, f k.concrete = f k) (n : Node) :
    f n.rep.kind = f n.kind := by
  rw [← h n.rep.kind, concrete_kind_rep, h]

/-- The rank, since abstract members have none. -/
@[simp] theorem rank_rep (n : Node) : typed.rank n.rep.kind = typed.rank n.kind :=
  kind_rep (fun k => by cases k <;> rfl) n

/-- Whether a key is a function. -/
@[simp] theorem isFunctionKey_rep (n : Node) : Emit.isFunctionKey n.rep = Emit.isFunctionKey n := by
  have hkey : ∀ n, Emit.isFunctionKey n
      = [Kind.functionDeclaration, .functionExpression].contains n.kind := by
    intro n
    cases n with
    | block form | function form | classField form | heritage form | keywordType form
    | signature form => cases form <;> rfl
    | _ => rfl
  rw [hkey, hkey]
  exact kind_rep (fun k => by cases k <;> rfl) n

@[simp] theorem toOption_identifierName (n : Node) :
    n.identifierName.toOption = n.identifierName? := by
  unfold identifierName
  cases n.identifierName? <;> rfl

@[simp] theorem toOption_exportName (n : Node) : n.exportName.toOption = n.exportName? := by
  unfold exportName
  cases n.exportName? <;> rfl

end Node

namespace Scope

@[simp] theorem said_emit_rep (n : Node) : (typed.emit n.rep).said = (typed.emit n).said :=
  congrArg Node.Traits.emitted n.traits_rep

@[simp] theorem said_emit?_rep (o : Option Node) :
    (typed.emit? (o.map .rep)).said = (typed.emit? o).said := by
  cases o <;> simp [emit?]

/-- Nodes with a separator between them. -/
@[simp] theorem said_joined_rep (sep : String) (ns : List Node) :
    (typed.joined sep (ns.map .rep)).said = (typed.joined sep ns).said := by
  simp [joined, Function.comp_def]

@[simp] theorem said_sequence_rep (ns : List Node) :
    (typed.sequence (ns.map .rep)).said = (typed.sequence ns).said := by
  simp [sequence]

@[simp] theorem said_parenthesized_rep (n : Node) :
    (typed.parenthesized n.rep).said = (typed.parenthesized n).said := by
  simp [parenthesized]

@[simp] theorem said_annot_rep (o : Option Node) :
    (typed.annot (o.map .rep)).said = (typed.annot o).said := by
  cases o <;> simp [annot]

@[simp] theorem said_lines_rep (ns : List Node) :
    (typed.lines (ns.map .rep)).said = (typed.lines ns).said := by
  simp [lines, Function.comp_def]

@[simp] theorem said_block_rep (ns : List Node) :
    (typed.block (ns.map .rep)).said = (typed.block ns).said := by
  simp [block]

/-- A key, in brackets if it is computed. -/
@[simp] theorem said_key_rep (n : Node) (computed : Bool) :
    (typed.key n.rep computed).said = (typed.key n computed).said := by
  simp [key]

@[simp] theorem ranksBelow_rep (n : Node) (t : Kind) :
    typed.ranksBelow n.rep.kind t = typed.ranksBelow n.kind t := by
  simp [ranksBelow]

/-- Of the parent only its kind and its operator matter. -/
theorem needsParens_rep (n : Node) {m m' : Node} (right : Bool) (hk : m'.kind = m.kind)
    (ho : m'.operator? = m.operator?) :
    typed.needsParens n.rep m' right = typed.needsParens n m right := by
  simp [needsParens, equalRankNeedsParens, hk, ho]

/-- An operand in parentheses where its parent asks for them. -/
theorem said_operandOf_rep (n : Node) {m m' : Node} (right : Bool) (hk : m'.kind = m.kind)
    (ho : m'.operator? = m.operator?) :
    (typed.operandOf n.rep m' right).said = (typed.operandOf n m right).said := by
  simp [operandOf, needsParens_rep n right hk ho]

/-- An operand in parentheses where its position asks for them. -/
@[simp] theorem said_operand_rep (n : Node) (position : Kind) :
    (typed.operand n.rep position).said = (typed.operand n position).said := by
  simp [operand]

/-- Whatever is written as a declarator. -/
@[simp] theorem said_declarator_rep (n : Node) :
    (typed.emitAs .variableDeclarator n.rep).said = (typed.emitAs .variableDeclarator n).said := by
  rw [typed_emitAs, typed_emitAs]
  exact congrArg Node.Traits.declarator n.traits_rep

/-- Whatever is written as the body of a class. -/
@[simp] theorem said_classBody_rep (n : Node) :
    (typed.emitAs .classBody n.rep).said = (typed.emitAs .classBody n).said := by
  rw [typed_emitAs, typed_emitAs]
  exact congrArg Node.Traits.body n.traits_rep

/-- Whatever is written as an object. -/
@[simp] theorem said_object_rep (n : Node) :
    (typed.emitAs .objectExpression n.rep).said = (typed.emitAs .objectExpression n).said := by
  rw [typed_emitAs, typed_emitAs]
  exact congrArg Node.Traits.object n.traits_rep

/-- Whatever is written as a literal. -/
@[simp] theorem said_literal_rep (n : Node) :
    (typed.emitAs .literal n.rep).said = (typed.emitAs .literal n).said := by
  rw [typed_emitAs, typed_emitAs]
  exact congrArg Node.Traits.literal n.traits_rep

/-- Whatever is written as an attribute. -/
@[simp] theorem said_importAttribute_rep (n : Node) :
    (typed.emitAs .importAttribute n.rep).said = (typed.emitAs .importAttribute n).said := by
  rw [typed_emitAs, typed_emitAs]
  exact congrArg Node.Traits.importAttribute n.traits_rep

end Scope

namespace Emit

/-! ## §2. Parts of statements. -/

@[simp] theorem said_switchCase_rep (c : SwitchCase) :
    (switchCase typed (c.map .rep)).said = (switchCase typed c).said := by
  obtain ⟨test, consequent⟩ := c
  cases test <;> simp [switchCase, caseHead]

@[simp] theorem said_handler_rep (c : CatchClause) :
    (handler typed (c.map .rep)).said = (handler typed c).said := by
  obtain ⟨param, body⟩ := c
  cases param <;> simp [handler]

@[simp] theorem said_declarators_rep (kind : String) (declarations : List Node) :
    (declarators typed kind (declarations.map .rep)).said
      = (declarators typed kind declarations).said := by
  simp [declarators, Function.comp_def]

/-- A clause in the head of a loop. -/
@[simp] theorem said_loopHead_rep (n : Node) :
    (loopHead typed n.rep).said = (loopHead typed n).said :=
  congrArg Node.Traits.loopHead n.traits_rep

/-! ## §3. Parts of functions and classes. -/

@[simp] theorem said_inlineDecorators_rep (ns : List Node) :
    (inlineDecorators typed (ns.map .rep)).said = (inlineDecorators typed ns).said := by
  simp [inlineDecorators, Function.comp_def]

@[simp] theorem said_decoratorLines_rep (ns : List Node) :
    (decoratorLines typed (ns.map .rep)).said = (decoratorLines typed ns).said := by
  simp [decoratorLines, Function.comp_def]

@[simp] theorem said_binding_rep (name : String) (definite optional : Bool)
    (annot : Option Node) (decorators : List Node) :
    (Typed.binding typed name definite optional (annot.map .rep) (decorators.map .rep)).said
      = (Typed.binding typed name definite optional annot decorators).said := by
  simp [Typed.binding]

@[simp] theorem said_declared_rep (n : Node) (definite : Bool) :
    (Typed.declared typed n.rep definite).said = (Typed.declared typed n definite).said := by
  cases definite with
  | false =>
    rw [Typed.declared_false, Typed.declared_false]
    exact said_emit_rep n
  | true => exact congrArg Node.Traits.definite n.traits_rep

/-- The head of a function needs the name of its identifier only. -/
@[simp] theorem said_functionHead_rep (f : FunctionLike) :
    (functionHead (f.map .rep)).said = (functionHead f).said := by
  cases hid : f.id <;> simp [functionHead, hid]

/-- The types and parameters of a function. -/
@[simp] theorem said_functionSignature_rep (f : FunctionLike) :
    (Typed.functionSignature typed (f.map .rep)).said
      = (Typed.functionSignature typed f).said := by
  simp [Typed.functionSignature]

/-- A function with a body; the node that is reported without one does not matter. -/
theorem said_functionWithBody_rep (f : FunctionLike) (n n' : Node) :
    (Typed.functionWithBody typed n' (f.map .rep)).said
      = (Typed.functionWithBody typed n f).said := by
  have hbody : (f.map .rep).body = f.body.map .rep := rfl
  rw [Typed.functionWithBody, Typed.functionWithBody, hbody]
  cases f.body <;> simp [-FunctionLike.map]

/-- A function that is declared only. -/
theorem said_bodiless_rep (f : FunctionLike) (declare : Bool) (h : f.declare = declare) :
    (Doc.onlyIf declare "declare " ++ functionHead (f.map .rep)
        ++ Typed.functionSignature typed (f.map .rep)).said
      = (Doc.onlyIf f.declare "declare " ++ functionHead f
        ++ Typed.functionSignature typed f).said := by
  simp [h, -FunctionLike.map]

/-- The body of an arrow: only objects are in parentheses. -/
@[simp] theorem said_arrowBody_rep (n : Node) :
    (arrowBody typed n.rep).said = (arrowBody typed n).said := by
  have hobject : ∀ n : Node, (arrowBody typed n).said
      = if [Kind.objectExpression, .objectPattern].contains n.kind then
          (Doc.text " => ").said ++ (typed.emitAs .objectExpression n).parens.said
        else (Doc.text " => ").said ++ (typed.emit n).said := by
    intro n
    cases n with
    | block form | function form | classField form | heritage form | keywordType form
    | signature form => cases form <;> exact Doc.said_append _ _
    | _ => exact Doc.said_append _ _
  have hkind := n.kind_rep (f := fun k => [Kind.objectExpression, .objectPattern].contains k)
    fun k => by cases k <;> rfl
  rw [hobject, hobject, hkind]
  simp

/-- A superclass: its kind and rank decide about parentheses. -/
@[simp] theorem said_superclass_rep (n : Node) :
    (superclass typed n.rep).said = (superclass typed n).said := by
  have hkind := n.kind_rep (f := (· != Kind.classExpression)) fun k => by cases k <;> rfl
  simp [superclass, hkind]

@[simp] theorem said_implementsClause_rep (ns : List Node) :
    (implementsClause typed (ns.map .rep)).said = (implementsClause typed ns).said := by
  simp [implementsClause]

theorem said_classOf_rep (c : ClassLike) :
    (Typed.classOf typed (c.map .rep)).said = (Typed.classOf typed c).said := by
  cases hid : c.id <;> cases hsuper : c.superClass <;>
    simp [Typed.classOf, hid, hsuper]

theorem said_classField_rep (form : FieldForm) (f : ClassField) :
    (Typed.classField typed (.classField form (f.map .rep))).said
      = (Typed.classField typed (.classField form f)).said := by
  cases hv : f.value <;> simp [Typed.classField, fieldModifiers, hv]

@[simp] theorem said_methodBody_rep (body : Option Node) :
    (Typed.methodBody typed (body.map .rep)).said = (Typed.methodBody typed body).said := by
  cases body <;> simp [Typed.methodBody]

/-- The functions behind a node and its representative differ in nothing that a method writes. -/
theorem function?_rep (n : Node) :
    (n.rep.function? = none ∧ n.function? = none) ∨
      ∃ f' f, n.rep.function? = some f' ∧ n.function? = some f ∧ f'.async = f.async ∧
        f'.generator = f.generator ∧
        (Typed.functionSignature typed f').said = (Typed.functionSignature typed f).said ∧
        (Typed.methodBody typed f'.body).said = (Typed.methodBody typed f.body).said := by
  have h := n.functionSaid?_rep
  unfold Node.functionSaid? at h
  cases h' : n.rep.function? <;> cases hn : n.function? <;> simp_all

/-- A method of a class, abstract or not. -/
theorem said_classMethod_rep (m : Method) :
    (Typed.method typed (.methodDefinition (m.map .rep))).said
        = (Typed.method typed (.methodDefinition m)).said ∧
      (Typed.method typed (.tsAbstractMethodDefinition (m.map .rep))).said
        = (Typed.method typed (.tsAbstractMethodDefinition m)).said := by
  rcases function?_rep m.value with ⟨hr, hn⟩ | ⟨f', f, hr, hn, ha, hg, hs, hb⟩
  · simp [Typed.method, MethodParts.of, MethodParts.ofMethod, methodValue, hr, hn, Except.map,
      Except.toOption]
  · simp [Typed.method, MethodParts.of, MethodParts.ofMethod, methodValue, hr, hn, Except.map,
      Except.toOption, Typed.methodOf, methodHead, methodModifiers, ha, hg, hs, hb]

theorem said_objectMethod_rep (p : Property) :
    (Typed.method typed (.property (p.map .rep))).said
      = (Typed.method typed (.property p)).said := by
  rcases function?_rep p.value with ⟨hr, hn⟩ | ⟨f', f, hr, hn, ha, hg, hs, hb⟩
  · simp [Typed.method, MethodParts.of, methodValue, hr, hn, Except.map, Except.toOption]
  · simp [Typed.method, MethodParts.of, methodValue, hr, hn, Except.map, Except.toOption,
      Typed.methodOf, methodHead, methodModifiers, ha, hg, hs, hb]

/-! ## §4. Parts of imports, exports and namespaces. -/

@[simp] theorem said_attributeClause_rep (ns : List Node) :
    (attributeClause typed (ns.map .rep)).said = (attributeClause typed ns).said := by
  simp [attributeClause, Function.comp_def]

/-- Whether a specifier comes before the braces. -/
@[simp] theorem isLeading_rep (n : Node) : isLeading n.rep = isLeading n := by
  have hkind : ∀ n, isLeading n
      = [Kind.importDefaultSpecifier, .importNamespaceSpecifier].contains n.kind := by
    intro n
    cases n with
    | block form | function form | classField form | heritage form | keywordType form
    | signature form => cases form <;> rfl
    | _ => rfl
  rw [hkind, hkind]
  exact n.kind_rep fun k => by cases k <;> rfl

/-- Specifiers before the braces. -/
@[simp] theorem said_leadingSpecifiers_rep (sep : Doc) (ns : List Node) :
    (leadingSpecifiers sep (ns.map .rep)).said = (leadingSpecifiers sep ns).said := by
  induction ns generalizing sep with
  | nil => rfl
  | cons n rest ih => simp [leadingSpecifiers, ih]

/-- A specifier of an import. -/
@[simp] theorem said_importSpecifier_rep (n : Node) :
    (importSpecifier .typed n.rep).said = (importSpecifier .typed n).said :=
  congrArg Node.Traits.importSpecifier n.traits_rep

/-- The specifiers of an import. -/
@[simp] theorem said_importSpecifiers_rep (ns : List Node) :
    (importSpecifiers .typed (ns.map .rep)).said = (importSpecifiers .typed ns).said := by
  have hlead : isLeading ∘ Node.rep = isLeading := funext isLeading_rep
  simp [importSpecifiers, List.takeWhile_map, List.dropWhile_map, hlead, Function.comp_def]

/-- A specifier of an export. -/
@[simp] theorem said_exportSpecifier_rep (n : Node) :
    (exportSpecifier .typed n.rep).said = (exportSpecifier .typed n).said :=
  congrArg Node.Traits.exportSpecifier n.traits_rep

theorem said_exportNamed_rep (e : ExportNamed) :
    (exportNamed .typed typed (.exportNamedDeclaration (e.map .rep))).said
      = (exportNamed .typed typed (.exportNamedDeclaration e)).said := by
  cases hd : e.declaration <;> cases hs : e.source <;>
    simp [exportNamed, hd, hs, Function.comp_def]

/-- Whether a default export is a declaration. -/
@[simp] theorem isDeclarationLike_rep (n : Node) :
    isDeclarationLike n.rep = isDeclarationLike n := by
  have hkind : ∀ n, isDeclarationLike n
      = [Kind.functionDeclaration, .functionExpression, .classDeclaration,
          .classExpression].contains n.kind := by
    intro n
    cases n with
    | block form | function form | classField form | heritage form | keywordType form
    | signature form => cases form <;> rfl
    | _ => rfl
  rw [hkind, hkind]
  exact n.kind_rep fun k => by cases k <;> rfl

/-- A part of the name of a module. -/
@[simp] theorem said_moduleNamePart_rep (n : Node) :
    (moduleNamePart typed n.rep).said = (moduleNamePart typed n).said :=
  congrArg Node.Traits.moduleName n.traits_rep

@[simp] theorem said_moduleRest_rep (o : Option Node) :
    (moduleRest typed (o.map .rep)).said = (moduleRest typed o).said := by
  cases o with
  | none => rfl
  | some n => exact congrArg Node.Traits.moduleRest n.traits_rep

@[simp] theorem said_moduleBody_rep (o : Option Node) :
    (moduleBody typed (o.map .rep)).said = (moduleBody typed o).said := by
  cases o <;> simp [moduleBody]

/-- The word for a module is decided by flags and the kind of its name. -/
theorem moduleKeyword_rep (m : ModuleDeclaration) :
    moduleKeyword (m.map .rep) = moduleKeyword m := by
  have hkind : ∀ m : ModuleDeclaration, moduleKeyword m = if m.id.kind == .literal then "module "
      else if m.kind = some "module" then "module " else "namespace " := by
    intro m
    obtain ⟨id, _, _, _, kind⟩ := m
    cases id with
    | block form | function form | classField form | heritage form | keywordType form
    | signature form => cases form <;> rfl
    | _ => rfl
  have hid := m.id.kind_rep (f := (· == Kind.literal)) fun k => by cases k <;> rfl
  rw [hkind, hkind]
  simp only [ModuleDeclaration.map, hid]
  rfl

theorem said_moduleDeclaration_rep (m : ModuleDeclaration) :
    (moduleDeclaration typed (.tsModuleDeclaration (m.map .rep))).said
      = (moduleDeclaration typed (.tsModuleDeclaration m)).said := by
  have hglobal : (m.map .rep).isGlobal = m.isGlobal := rfl
  simp only [moduleDeclaration, moduleKeyword_rep, hglobal]
  simp

/-! ## §5. Parts of expressions. -/

/-- Whether an operand begins with the sign of its operator. -/
@[simp] theorem repeatsSign_rep (n : Node) (operator : String) :
    repeatsSign n.rep operator = repeatsSign n operator := by
  have hsign : ∀ n, repeatsSign n operator = (decide (operator = "+" ∨ operator = "-") &&
      n.sign?.any (·.startsWith operator)) := by
    intro n
    unfold repeatsSign
    split
    next h =>
      cases n with
      | unaryExpression _ isPrefix _ | updateExpression _ isPrefix _ =>
        cases isPrefix <;> simp [Node.sign?, h]
      | _ => simp [Node.sign?, h]
    next h => simp [h]
  rw [hsign, hsign, Node.sign?_rep]

/-- An operator before its operand. -/
theorem said_prefixed_rep (argument : Node) (operator : String) {n n' : Node}
    (hk : n'.kind = n.kind) (ho : n'.operator? = n.operator?) :
    (prefixed typed n' operator argument.rep).said
      = (prefixed typed n operator argument).said := by
  simp [prefixed, needsParens_rep argument false hk ho]

/-- An operator between its operands. -/
theorem said_infixed_rep (left right : Node) (operator : String) {n n' : Node}
    (hk : n'.kind = n.kind) (ho : n'.operator? = n.operator?) :
    (infixed typed n' operator left.rep right.rep).said
      = (infixed typed n operator left right).said := by
  simp [infixed, said_operandOf_rep left false hk ho, said_operandOf_rep right true hk ho]

/-- Whether the test of a conditional is in parentheses. -/
@[simp] theorem testNeedsParens_rep (n : Node) :
    testNeedsParens typed n.rep = testNeedsParens typed n := by
  simp [testNeedsParens]

@[simp] theorem said_newCallee_rep (n : Node) :
    (newCallee typed n.rep).said = (newCallee typed n).said := by
  simp [newCallee]

@[simp] theorem said_memberName_rep (n : Node) (computed optional : Bool) :
    (memberName typed n.rep computed optional).said
      = (memberName typed n computed optional).said := by
  simp [memberName]

/-- The elements of a list, with holes. -/
@[simp] theorem said_elements_rep (es : List (Option Node)) :
    (elements typed (es.map (Option.map .rep))).said = (elements typed es).said := by
  have hlist : (elementList typed (es.map (Option.map .rep))).said
      = (elementList typed es).said := by
    induction es with
    | nil => rfl
    | cons e rest ih =>
      cases e <;> cases rest <;> simp_all [elementList]
  simp [elements, hlist]

@[simp] theorem said_objectBraces_rep (ns : List Node) :
    (objectBraces typed (ns.map .rep)).said = (objectBraces typed ns).said := by
  simp [objectBraces]

@[simp] theorem said_objectLines_rep (ns : List Node) :
    (objectLines typed (ns.map .rep)).said = (objectLines typed ns).said := by
  simp [objectLines, Function.comp_def]

theorem said_property_rep (p : Property) :
    (property typed (.property (p.map .rep))).said = (property typed (.property p)).said := by
  have hmethod : (typed.emitAs .methodDefinition (.property (p.map .rep))).said
      = (typed.emitAs .methodDefinition (.property p)).said := by
    rw [typed_emitAs, typed_emitAs]
    exact said_objectMethod_rep p
  simp only [Emit.property, Doc.said_ite, hmethod]
  simp

@[simp] theorem said_templateElement_rep (n : Node) :
    (templateElement n.rep).said = (templateElement n).said :=
  congrArg Node.Traits.quasi n.traits_rep

/-- Quasis and holes in turn. -/
@[simp] theorem said_interleaved_rep (quasis holes : List Node) :
    (interleaved typed (quasis.map .rep) (holes.map .rep)).said
      = (interleaved typed quasis holes).said := by
  induction quasis generalizing holes with
  | nil => cases holes <;> rfl
  | cons quasi quasis ih =>
    cases holes with
    | nil => cases quasis <;> simp [interleaved]
    | cons hole holes => simp [interleaved, ih]

/-- A template: the counts are kept, so it is written or reported alike. -/
theorem said_template_rep (quasis holes : List Node) (n n' : Node) :
    (template typed n' (quasis.map .rep) (holes.map .rep)).said
      = (template typed n quasis holes).said := by
  simp [template]

/-- Whether an operator binds more loosely than an assertion. -/
@[simp] theorem isLooserOperator_rep (n : Node) :
    isLooserOperator n.rep = isLooserOperator n := by
  have hkind : ∀ n, isLooserOperator n = (n.kind == .binaryExpression &&
      (n.operator?.bind operatorRank?).any fun r => decide (r < relationalRank)) := by
    intro n
    cases n with
    | block form | function form | classField form | heritage form | keywordType form
    | signature form => cases form <;> rfl
    | binaryExpression operator _ _ =>
      simp only [isLooserOperator, Node.operator?, Option.bind_some]
      cases operatorRank? operator <;> rfl
    | _ => rfl
  have hbinary := n.kind_rep (f := (· == Kind.binaryExpression)) fun k => by cases k <;> rfl
  rw [hkind, hkind, hbinary, Node.operator?_rep]

/-- What is asserted. -/
@[simp] theorem said_asserted_rep (n : Node) :
    (asserted typed n.rep).said = (asserted typed n).said := by
  simp [asserted]

/-! ## §6. Parts of types. -/

/-- A type among others, where abstract members are not told apart. -/
theorem said_memberType_rep {wrapped : List Kind}
    (h : ∀ k : Kind, wrapped.contains k.concrete = wrapped.contains k) (n : Node) :
    (memberType typed wrapped n.rep).said = (memberType typed wrapped n).said := by
  simp only [memberType, Doc.said_parensIf, Doc.said_parens, said_emit_rep, n.kind_rep h]

@[simp] theorem said_inUnion_rep (n : Node) :
    (memberType typed inUnion n.rep).said = (memberType typed inUnion n).said :=
  said_memberType_rep (fun k => by cases k <;> rfl) n

@[simp] theorem said_inIntersection_rep (n : Node) :
    (memberType typed inIntersection n.rep).said = (memberType typed inIntersection n).said :=
  said_memberType_rep (fun k => by cases k <;> rfl) n

@[simp] theorem said_inTypeOperator_rep (n : Node) :
    (memberType typed inTypeOperator n.rep).said = (memberType typed inTypeOperator n).said :=
  said_memberType_rep (fun k => by cases k <;> rfl) n

@[simp] theorem said_inSuffixed_rep (n : Node) :
    (memberType typed inSuffixed n.rep).said = (memberType typed inSuffixed n).said :=
  said_memberType_rep (fun k => by cases k <;> rfl) n

@[simp] theorem said_functionTypeOf_rep (form : SignatureForm) (params : List Node)
    (returnType typeParameters : Option Node) (abstract : Bool) :
    (functionTypeOf typed form (params.map .rep) (returnType.map .rep) (typeParameters.map .rep)
        abstract).said
      = (functionTypeOf typed form params returnType typeParameters abstract).said := by
  simp [functionTypeOf]

@[simp] theorem said_signatureOf_rep (params : List Node)
    (returnType typeParameters : Option Node) :
    (signatureOf typed (params.map .rep) (returnType.map .rep) (typeParameters.map .rep)).said
      = (signatureOf typed params returnType typeParameters).said := by
  simp [signatureOf]

/-- The name of a type parameter. -/
@[simp] theorem said_typeParameterName_rep (name : TypeParameterName) :
    (typeParameterName typed (name.map .rep)).said = (typeParameterName typed name).said := by
  cases name <;> simp [typeParameterName]

/-- What a mapped type says of its variable, given what its parts say. -/
def mappedKeySaid (parameter : Option (Option (Said × Option Said)))
    (key constraint : Option Said) : Said :=
  match parameter, key with
  | some (some (name, bound)), _ =>
    name ++ (Doc.text " in ").said ++ (constraint.or bound).getD .nil
  | some none, _ => .stop
  | none, some key => key ++ (Doc.text " in ").said ++ constraint.getD .nil
  | none, none => .stop

/-- What a mapped type writes of its variable, from its own key or its type parameter. -/
theorem said_mappedKey (m : MappedType) (n : Node) :
    (mappedKey typed n m).said = mappedKeySaid (m.typeParameter.map Node.variableSaid?)
      (m.key.map fun n => (typed.emit n).said) (m.constraint.map fun n => (typed.emit n).said) := by
  obtain ⟨parameter, key, constraint, _, _, _, _⟩ := m
  cases parameter with
  | none => cases key <;> cases constraint <;> simp [mappedKey, mappedKeySaid, Scope.emit?]
  | some parameter =>
    cases parameter with
    | tsTypeParameter p =>
      cases constraint <;> cases hp : p.constraint <;>
        simp [mappedKey, mappedKeySaid, Node.variableSaid?, Scope.emit?, hp]
    | _ => rfl

theorem said_mappedType_rep (m : MappedType) :
    (mappedType typed (.tsMappedType (m.map .rep))).said
      = (mappedType typed (.tsMappedType m)).said := by
  have hkey : ∀ n n', (mappedKey typed n' (m.map .rep)).said = (mappedKey typed n m).said := by
    intro n n'
    simp [said_mappedKey, Function.comp_def]
  simp only [mappedType, Doc.said_append, Doc.said_brackets, hkey (.tsMappedType m)]
  simp

end Emit

/-- The members of an enumeration come from one of two places. -/
theorem EnumDeclaration.allMembers_map (g : Node → Node) (e : EnumDeclaration) :
    (e.map g).allMembers = e.allMembers.map g := by
  obtain ⟨_, members, body, _, _⟩ := e
  cases members <;> cases body <;> rfl

/-! ## §7. Procedures. -/

open Emit in
/-- A node under its own kind. -/
theorem Registry.said_full_doc_rep {p : Procedure} {n : Node} (hp : full.get? n.kind = some p) :
    (p.doc typed (n.map .rep)).said = (p.doc typed n).said := by
  cases n with
  -- statements
  | program => cases hp; simp [Procedure.doc, program]
  | block form =>
    cases form <;> cases hp <;> simp [Procedure.doc, Emit.block, staticBlock, moduleBlock]
  | emptyStatement | debuggerStatement => cases hp; rfl
  | expressionStatement => cases hp; simp [Procedure.doc, expressionStatement]
  | ifStatement => cases hp; simp [Procedure.doc, ifStatement]
  | labeledStatement => cases hp; simp [Procedure.doc, labeledStatement]
  | breakStatement | continueStatement => cases hp; simp [Procedure.doc, jump, jumpTo]
  | withStatement => cases hp; simp [Procedure.doc, withStatement]
  | switchStatement =>
    cases hp; simp [Procedure.doc, switchStatement, Function.comp_def, -SwitchCase.map]
  | returnStatement => cases hp; simp [Procedure.doc, returnStatement]
  | throwStatement => cases hp; simp [Procedure.doc, throwStatement]
  | tryStatement => cases hp; simp [Procedure.doc, tryStatement, -CatchClause.map]
  | whileStatement => cases hp; simp [Procedure.doc, whileStatement]
  | doWhileStatement => cases hp; simp [Procedure.doc, doWhileStatement]
  | forStatement => cases hp; simp [Procedure.doc, forStatement]
  | forInStatement | forOfStatement => cases hp; simp [Procedure.doc, forEach, loopOver]
  -- functions, variables and classes
  | function form f =>
    cases form <;> cases hp
    · exact said_functionWithBody_rep f _ _
    · exact said_functionWithBody_rep f _ _
    · exact said_bodiless_rep f _ rfl
    · exact said_bodiless_rep f _ rfl
  | arrowFunctionExpression => cases hp; simp [Procedure.doc, Typed.arrowFunction]
  | variableDeclaration => cases hp; simp [Procedure.doc, Typed.variableDeclaration]
  | variableDeclarator => cases hp; simp [Procedure.doc, Typed.variableDeclarator]
  | classDeclaration c => cases hp; exact said_classOf_rep c
  | classExpression c =>
    cases hp
    show (typed.emitAs .classDeclaration _).said = (typed.emitAs .classDeclaration _).said
    rw [typed_emitAs, typed_emitAs]
    exact said_classOf_rep c
  | methodDefinition m => cases hp; exact (said_classMethod_rep m).1
  | tsAbstractMethodDefinition m => cases hp; exact (said_classMethod_rep m).2
  | classField form f => cases form <;> cases hp <;> exact said_classField_rep _ f
  | decorator => cases hp; simp [Procedure.doc, decorator]
  | tsParameterProperty => cases hp; simp [Procedure.doc, parameterProperty]
  -- imports, exports and namespaces
  | importDeclaration => cases hp; simp [Procedure.doc, importDeclaration]
  | importAttribute => cases hp; simp [Procedure.doc, importAttribute]
  | importExpression => cases hp; simp [Procedure.doc, Typed.importExpression]
  | exportNamedDeclaration e => cases hp; exact said_exportNamed_rep e
  | exportDefaultDeclaration => cases hp; simp [Procedure.doc, exportDefault]
  | exportAllDeclaration => cases hp; simp [Procedure.doc, exportAll]
  | tsModuleDeclaration m => cases hp; exact said_moduleDeclaration_rep m
  -- expressions and patterns
  | thisExpression | super => cases hp; rfl
  | restElement => cases hp; simp [Procedure.doc, Typed.restElement]
  | spreadElement => cases hp; simp [Procedure.doc, Plain.restElement]
  | yieldExpression => cases hp; simp [Procedure.doc, yieldExpression]
  | awaitExpression argument =>
    cases hp
    have hoperand : (typed.operandOf argument.rep (.awaitExpression argument.rep) false).said
        = (typed.operandOf argument (.awaitExpression argument) false).said :=
      said_operandOf_rep argument false rfl rfl
    simp [Procedure.doc, awaitExpression, hoperand]
  | templateLiteral quasis holes => cases hp; exact said_template_rep quasis holes _ _
  | templateElement => cases hp; rfl
  | taggedTemplateExpression => cases hp; simp [Procedure.doc, taggedTemplate]
  | arrayExpression => cases hp; simp [Procedure.doc, arrayExpression]
  | arrayPattern => cases hp; simp [Procedure.doc, Emit.arrayPattern]
  | objectExpression => cases hp; simp [Procedure.doc, objectExpression]
  | objectPattern => cases hp; simp [Procedure.doc, Typed.objectPattern]
  | property p => cases hp; exact said_property_rep p
  | sequenceExpression => cases hp; simp [Procedure.doc, sequenceExpression]
  | unaryExpression operator isPrefix argument =>
    cases hp
    cases isPrefix
    · simp [Procedure.doc, unaryExpression]
    · exact said_prefixed_rep argument operator rfl rfl
  | updateExpression _ isPrefix =>
    cases hp; cases isPrefix <;> simp [Procedure.doc, updateExpression]
  | assignmentExpression => cases hp; simp [Procedure.doc, assignmentExpression]
  | binaryExpression operator left right | logicalExpression operator left right =>
    cases hp; exact said_infixed_rep left right operator rfl rfl
  | assignmentPattern => cases hp; simp [Procedure.doc, assignmentPattern]
  | conditionalExpression => cases hp; simp [Procedure.doc, conditionalExpression]
  | newExpression => cases hp; simp [Procedure.doc, Typed.newExpression]
  | callExpression => cases hp; simp [Procedure.doc, Typed.callExpression]
  | chainExpression => cases hp; simp [Procedure.doc, chainExpression]
  | memberExpression => cases hp; simp [Procedure.doc, memberExpression]
  | metaProperty => cases hp; simp [Procedure.doc, metaProperty]
  | identifier => cases hp; simp [Procedure.doc, Typed.identifier]
  | privateIdentifier | literal | regExpLiteral => cases hp; rfl
  -- typed expressions and declarations of types
  | tsAsExpression => cases hp; simp [Procedure.doc, asExpression]
  | tsSatisfiesExpression => cases hp; simp [Procedure.doc, satisfiesExpression]
  | tsTypeAssertion => cases hp; simp [Procedure.doc, typeAssertion]
  | tsNonNullExpression => cases hp; simp [Procedure.doc, nonNullExpression]
  | tsInterfaceDeclaration => cases hp; simp [Procedure.doc, interfaceDeclaration]
  | tsInterfaceBody => cases hp; simp [Procedure.doc, interfaceBody, Function.comp_def]
  | heritage form => cases form <;> cases hp <;> simp [Procedure.doc, heritage]
  | tsTypeAliasDeclaration => cases hp; simp [Procedure.doc, typeAlias]
  | tsEnumDeclaration e =>
    cases hp
    have hmembers : (e.map .rep).allMembers = e.allMembers.map .rep := e.allMembers_map .rep
    simp only [Procedure.doc, enumDeclaration, Node.map, hmembers]
    simp
  | tsEnumMember => cases hp; simp [Procedure.doc, enumMember]
  -- types
  | tsTypeAnnot => cases hp; simp [Procedure.doc, typeAnnot]
  | keywordType k => cases k <;> cases hp <;> rfl
  | tsLiteralType => cases hp; simp [Procedure.doc, literalType]
  | tsTemplateLiteralType quasis holes => cases hp; exact said_template_rep quasis holes _ _
  | tsTypeReference => cases hp; simp [Procedure.doc, typeReference]
  | tsQualifiedName => cases hp; simp [Procedure.doc, qualifiedName]
  | tsTypeQuery => cases hp; simp [Procedure.doc, typeQuery]
  | tsUnionType => cases hp; simp [Procedure.doc, unionType, Function.comp_def]
  | tsIntersectionType => cases hp; simp [Procedure.doc, intersectionType, Function.comp_def]
  | tsTupleType => cases hp; simp [Procedure.doc, tupleType]
  | tsOptionalType => cases hp; simp [Procedure.doc, optionalType]
  | tsRestType => cases hp; simp [Procedure.doc, restType]
  | tsParenthesizedType => cases hp; simp [Procedure.doc, parenthesizedType]
  | tsNamedTupleMember => cases hp; simp [Procedure.doc, namedTupleMember]
  | tsArrayType => cases hp; simp [Procedure.doc, arrayType]
  | tsIndexedAccessType => cases hp; simp [Procedure.doc, indexedAccessType]
  | tsTypeOperator => cases hp; simp [Procedure.doc, typeOperator]
  | tsConditionalType => cases hp; simp [Procedure.doc, conditionalType]
  | tsInferType => cases hp; simp [Procedure.doc, inferType]
  | tsTypePredicate => cases hp; simp [Procedure.doc, typePredicate]
  | signature form =>
    cases form <;> cases hp <;> simp [Procedure.doc, functionType, callSignature]
  | tsMappedType m => cases hp; exact said_mappedType_rep m
  | tsTypeLiteral => cases hp; simp [Procedure.doc, typeLiteral]
  | tsPropertySignature => cases hp; simp [Procedure.doc, propertySignature]
  | tsMethodSignature => cases hp; simp [Procedure.doc, methodSignature]
  | tsIndexSignature => cases hp; simp [Procedure.doc, indexSignature]
  | tsTypeParameterDeclaration | tsTypeParameterInstantiation =>
    cases hp; simp [Procedure.doc, typeParameters]
  | tsTypeParameter => cases hp; simp [Procedure.doc, typeParameter, -TypeParameterName.map]
  | importSpecifier | importDefaultSpecifier | importNamespaceSpecifier | exportSpecifier =>
    cases hp

/-! ## §8. All traits. -/

namespace Node

/-- Mapping the nodes inside keeps the kind. -/
theorem kind_map (g : Node → Node) (n : Node) : (n.map g).kind = n.kind := by
  cases n <;> rfl

/-- It keeps the operator. -/
theorem operator?_map (g : Node → Node) (n : Node) : (n.map g).operator? = n.operator? := by
  cases n <;> rfl

/-- It keeps the sign. -/
theorem sign?_map (g : Node → Node) (n : Node) : (n.map g).sign? = n.sign? := by
  cases n with
  | unaryExpression _ isPrefix _ | updateExpression _ isPrefix _ => cases isPrefix <;> rfl
  | _ => rfl

/-- It keeps the name of an identifier. -/
theorem identifierName?_map (g : Node → Node) (n : Node) :
    (n.map g).identifierName? = n.identifierName? := by
  cases n <;> rfl

/-- It keeps the name of an export. -/
theorem exportName?_map (g : Node → Node) (n : Node) : (n.map g).exportName? = n.exportName? := by
  cases n <;> rfl

/-- A call is reached along members inside, which are representatives. -/
theorem hasCall_map_rep (n : Node) : (n.map rep).hasCall = n.hasCall := by
  cases n with
  | memberExpression object => exact object.hasCall_rep
  | _ => rfl

/-- An assignment to an object pattern is one to its representative. -/
theorem assignsObject_map_rep (n : Node) :
    Emit.assignsObject (n.map rep) = Emit.assignsObject n := by
  cases n with
  | assignmentExpression operator left right =>
    have hkind : ∀ left right : Node, Emit.assignsObject (.assignmentExpression operator left right)
        = [Kind.objectPattern, .objectExpression].contains left.kind := by
      intro left right
      cases left with
      | block form | function form | classField form | heritage form | keywordType form
      | signature form => cases form <;> rfl
      | _ => rfl
    rw [map, hkind, hkind]
    exact left.kind_rep fun k => by cases k <;> rfl
  | _ => rfl

theorem toOption_leadingName_map_rep (n : Node) :
    (Emit.leadingName (n.map rep)).toOption = (Emit.leadingName n).toOption := by
  cases n with
  | importDefaultSpecifier | importNamespaceSpecifier => simp [Emit.leadingName, toOption_map]
  | _ => rfl

/-- **A node with representatives inside is written alike**, by the procedure of its kind. -/
theorem said_emit_map_rep (n : Node) : (typed.emit (n.map rep)).said = (typed.emit n).said := by
  unfold Scope.emit
  rw [kind_map, typed_emitAs, typed_emitAs]
  cases hp : Registry.full.get? n.kind with
  | none => rfl
  | some p => exact Registry.said_full_doc_rep hp

/-- It is written alike as a declarator. -/
theorem said_declarator_map_rep (n : Node) :
    (Emit.Typed.variableDeclarator typed (n.map rep)).said
      = (Emit.Typed.variableDeclarator typed n).said := by
  cases n with
  | variableDeclarator => simp [Emit.Typed.variableDeclarator]
  | _ => rfl

theorem said_body_map_rep (n : Node) :
    (Emit.block typed (n.map rep)).said = (Emit.block typed n).said := by
  cases n with
  | block form => cases form <;> simp [Emit.block]
  | _ => rfl

theorem said_object_map_rep (n : Node) :
    (Emit.objectExpression typed (n.map rep)).said = (Emit.objectExpression typed n).said := by
  cases n with
  | objectExpression | objectPattern => simp [Emit.objectExpression]
  | _ => rfl

theorem said_literal_map_rep (n : Node) :
    (Emit.literal (n.map rep)).said = (Emit.literal n).said := by
  cases n <;> rfl

theorem said_importAttribute_map_rep (n : Node) :
    (Emit.importAttribute typed (n.map rep)).said = (Emit.importAttribute typed n).said := by
  cases n with
  | importAttribute => simp [Emit.importAttribute]
  | _ => rfl

/-- As a specifier of an import. -/
theorem said_importSpecifier_map_rep (n : Node) :
    (Emit.importSpecifier .typed (n.map rep)).said = (Emit.importSpecifier .typed n).said := by
  cases n with
  | importSpecifier => simp [Emit.importSpecifier]
  | _ => rfl

/-- As a specifier of an export. -/
theorem said_exportSpecifier_map_rep (n : Node) :
    (Emit.exportSpecifier .typed (n.map rep)).said = (Emit.exportSpecifier .typed n).said := by
  cases n with
  | exportSpecifier => simp [Emit.exportSpecifier]
  | _ => rfl

theorem said_templateElement_map_rep (n : Node) :
    (Emit.templateElement (n.map rep)).said = (Emit.templateElement n).said := by
  cases n <;> rfl

/-- As a clause in the head of a loop. -/
theorem said_loopHead_map_rep (n : Node) :
    (Emit.loopHead typed (n.map rep)).said = (Emit.loopHead typed n).said := by
  have hemit := n.said_emit_map_rep
  cases n with
  | variableDeclaration kind declarations => exact Emit.said_declarators_rep kind declarations
  | _ => exact hemit

theorem said_definite_map_rep (n : Node) :
    (Emit.Typed.declared typed (n.map rep) true).said
      = (Emit.Typed.declared typed n true).said := by
  have hemit := n.said_emit_map_rep
  cases n with
  | identifier name optional annot decorators =>
    exact Emit.said_binding_rep name true optional annot decorators
  | _ => exact hemit

/-- As a part of the name of a module. -/
theorem said_moduleName_map_rep (n : Node) :
    (Emit.moduleNamePart typed (n.map rep)).said = (Emit.moduleNamePart typed n).said := by
  have hemit := n.said_emit_map_rep
  cases n with
  | literal => rfl
  | _ => exact hemit

theorem said_moduleRest_map_rep (n : Node) :
    (Emit.moduleRest typed (some (n.map rep))).said = (Emit.moduleRest typed (some n)).said := by
  have hother : ∀ n : Node, (∀ m, n ≠ .tsModuleDeclaration m) →
      (Emit.moduleRest typed (some n)).said = (Doc.text " ").said ++ (typed.emit n).said := by
    intro n hn
    cases n with
    | tsModuleDeclaration m => exact absurd rfl (hn m)
    | _ => simp only [Emit.moduleRest, Doc.said_append]
  have hemit := n.said_emit_map_rep
  cases n with
  | tsModuleDeclaration m =>
    cases m
    simp [Emit.moduleRest]
  | _ =>
    rw [hother _ (fun _ h => by cases h), hemit]
    exact (hother _ (fun _ h => by cases h)).symm

/-- A method writes the same of it. -/
theorem functionSaid?_map_rep (n : Node) : (n.map rep).functionSaid? = n.functionSaid? := by
  cases n with
  | function form f =>
    simp only [functionSaid?, map, function?, Option.map_some, Emit.said_functionSignature_rep]
    simp
  | _ => rfl

/-- So does a mapped type. -/
theorem variableSaid?_map_rep (n : Node) : (n.map rep).variableSaid? = n.variableSaid? := by
  cases n with
  | tsTypeParameter p =>
    simp [variableSaid?, Function.comp_def, -TypeParameterName.map]
  | _ => rfl

/-- **The traits of a node are determined by those of the nodes inside.** -/
theorem traits_map_rep (n : Node) : (n.map rep).traits = n.traits := by
  unfold traits
  rw [kind_map, operator?_map, sign?_map, identifierName?_map, exportName?_map, hasCall_map_rep,
    assignsObject_map_rep, toOption_leadingName_map_rep, said_emit_map_rep,
    said_declarator_map_rep, said_body_map_rep, said_object_map_rep, said_literal_map_rep,
    said_importAttribute_map_rep, said_importSpecifier_map_rep, said_exportSpecifier_map_rep,
    said_templateElement_map_rep, said_loopHead_map_rep, said_definite_map_rep,
    said_moduleName_map_rep, said_moduleRest_map_rep, functionSaid?_map_rep,
    variableSaid?_map_rep]

end Node

end Estree
