import Estree.Emit.Class
import Estree.Emit.Export
import Estree.Proofs.Alike.Statement
import Estree.Proofs.Alike.Expression

/-!
# Declarations are written alike

One lemma for each procedure that writes names, variables, functions, classes and their members,
imports and exports.
-/

namespace Estree

namespace Alike

variable {s₁ s₂ : Scope} {n : Node} {r : Depth}

/-! ## §1. Names and variables. -/

theorem inlineDecorators {ns : List Node} (h : ∀ c ∈ ns, c.Below n) :
    Inline s₁ s₂ n r (Emit.inlineDecorators s₁ ns) (Emit.inlineDecorators s₂ ns) :=
  concat fun c hc => .append (.emitAs (h c hc) (.inl rfl)) (.text _)

/-- A decorator on a line of its own is followed by the indentation of the next line. -/
theorem decoratorLines {ns : List Node} (h : ∀ c ∈ ns, c ∈ n.children) :
    Inline s₁ s₂ n r (Emit.decoratorLines s₁ ns) (Emit.decoratorLines s₂ ns) :=
  concat fun c hc => .append (.append (emit (h c hc)) .lineEnd) .indent

theorem decorator :
    Inline s₁ s₂ n r (Emit.decorator s₁ n) (Emit.decorator s₂ n) := by
  unfold Emit.decorator
  split
  · exact .append (.text _) (emit (by simp))
  · exact expected _

theorem Plain.identifier :
    Inline s₁ s₂ n r (Emit.Plain.identifier n) (Emit.Plain.identifier n) := by
  unfold Emit.Plain.identifier
  split
  · exact .text _
  · exact expected _

/-- The parts of a binding may stand in a child of the node. -/
theorem Typed.binding {name : String} {definite optional : Bool} {o : Option Node} {ns : List Node}
    (ho : ∀ c, o = some c → c.Below n) (hd : ∀ c ∈ ns, c.Below n) :
    Inline s₁ s₂ n r (Emit.Typed.binding s₁ name definite optional o ns)
      (Emit.Typed.binding s₂ name definite optional o ns) :=
  .append (.append (.append (.append (inlineDecorators hd) (.text _)) (onlyIf _ (.text _)))
    (onlyIf _ (.text _))) (ofOption fun c hc => .append (.text _) (.emitAs (ho c hc) (.inl rfl)))

theorem Typed.identifier :
    Inline s₁ s₂ n r (Emit.Typed.identifier s₁ n) (Emit.Typed.identifier s₂ n) := by
  unfold Emit.Typed.identifier
  split
  · refine Typed.binding (fun c hc => .child ?_) (fun c hc => .child ?_)
    · simp [hc]
    · simp [hc]
  · exact expected _

theorem privateIdentifier :
    Inline s₁ s₂ n r (Emit.privateIdentifier n) (Emit.privateIdentifier n) := by
  unfold Emit.privateIdentifier
  split
  · exact .append (.text _) (.text _)
  · exact expected _

theorem Plain.variableDeclaration :
    Inline s₁ s₂ n r (Emit.Plain.variableDeclaration s₁ n)
      (Emit.Plain.variableDeclaration s₂ n) := by
  unfold Emit.Plain.variableDeclaration
  split
  · exact .append (declarators fun c hc => .child hc) (.text _)
  · exact expected _

theorem Typed.variableDeclaration :
    Inline s₁ s₂ n r (Emit.Typed.variableDeclaration s₁ n)
      (Emit.Typed.variableDeclaration s₂ n) := by
  unfold Emit.Typed.variableDeclaration
  split
  · exact .append (.append (onlyIf _ (.text _)) (declarators fun c hc => .child hc)) (.text _)
  · exact expected _

theorem Plain.variableDeclarator :
    Inline s₁ s₂ n r (Emit.Plain.variableDeclarator s₁ n) (Emit.Plain.variableDeclarator s₂ n) := by
  unfold Emit.Plain.variableDeclarator
  split
  · exact .append (emit (by simp)) (lead _ (by simp +contextual))
  · exact expected _

/-- What a definite identifier carries stands in a child of the node. -/
theorem Typed.declared {id : Node} {definite : Bool} (h : id ∈ n.children) :
    Inline s₁ s₂ n r (Emit.Typed.declared s₁ id definite) (Emit.Typed.declared s₂ id definite) := by
  unfold Emit.Typed.declared
  split
  · refine Typed.binding (fun c hc => .deeper (.child ?_) h) (fun c hc => .deeper (.child ?_) h)
    · simp [hc]
    · simp [hc]
  · exact emit h

theorem Typed.variableDeclarator :
    Inline s₁ s₂ n r (Emit.Typed.variableDeclarator s₁ n) (Emit.Typed.variableDeclarator s₂ n) := by
  unfold Emit.Typed.variableDeclarator
  split
  · exact .append (Typed.declared (by simp)) (lead _ (by simp +contextual))
  · exact expected _

theorem parameterProperty :
    Inline s₁ s₂ n r (Emit.parameterProperty s₁ n)
      (Emit.parameterProperty s₂ n) := by
  unfold Emit.parameterProperty
  split
  · refine .append (.append (.append (.append (.append (inlineDecorators fun c hc => .child ?_)
      (ofOption fun a _ => ?_)) (onlyIf _ (.text _))) (onlyIf _ (.text _))) (onlyIf _ (.text _)))
      (emit (by simp))
    · simp [hc]
    · exact .append (.text _) (.text _)
  · exact expected _

/-! ## §2. Functions. -/

theorem functionHead {f : FunctionLike} (h : ∀ c, f.id = some c → c.Below n) :
    Inline s₁ s₂ n r (Emit.functionHead f) (Emit.functionHead f) := by
  refine .append (.append (onlyIf _ (.text _)) ?_)
    (ofOption fun c hc => identifierName (.inr (h c hc)) .text)
  split
  · exact .text _
  · exact .text _

/-- Parameters may stand in a child of the node. -/
theorem params {ns : List Node} (h : ∀ c ∈ ns, c.Below n) :
    Inline s₁ s₂ n r (s₁.sequence ns) (s₂.sequence ns) :=
  parens (joinText fun c hc => .emitAs (h c hc) (.inl rfl))

theorem Plain.functionWithBody {form : FunctionForm} {f : FunctionLike}
    (hn : n = .function form f) :
    Inline s₁ s₂ n r (Emit.Plain.functionWithBody s₁ n f) (Emit.Plain.functionWithBody s₂ n f) := by
  unfold Emit.Plain.functionWithBody
  refine .append (.append (.append (functionHead fun c hc => .child ?_)
    (params fun c hc => .child ?_)) (.text _)) ?_
  · simp [hn, hc]
  · simp [hn, hc]
  · split
    next body hbody => exact emit (by simp [hn, hbody])
    next => exact .malformed (.inl rfl) _

theorem Plain.function :
    Inline s₁ s₂ n r (Emit.Plain.function s₁ n) (Emit.Plain.function s₂ n) := by
  unfold Emit.Plain.function
  split
  · exact Plain.functionWithBody rfl
  · exact Plain.functionWithBody rfl
  · exact expected _

/-- The parts of a signature may stand in a child of the node. -/
theorem Typed.functionSignature {f : FunctionLike}
    (hp : ∀ c ∈ f.params, c.Below n) (ht : ∀ c, f.typeParameters = some c → c.Below n)
    (hr : ∀ c, f.returnType = some c → c.Below n) :
    Inline s₁ s₂ n r (Emit.Typed.functionSignature s₁ f) (Emit.Typed.functionSignature s₂ f) := by
  refine .append (.append (ofOption fun c hc => ?_) (params hp))
    (ofOption fun c hc => .append (.text _) ?_)
  · exact .emitAs (ht c hc) (.inl rfl)
  · exact .emitAs (hr c hc) (.inl rfl)

theorem Typed.functionWithBody {form : FunctionForm} {f : FunctionLike}
    (hn : n = .function form f) :
    Inline s₁ s₂ n r (Emit.Typed.functionWithBody s₁ n f) (Emit.Typed.functionWithBody s₂ n f) := by
  unfold Emit.Typed.functionWithBody
  refine .append (.append (.append (functionHead fun c hc => .child ?_) (Typed.functionSignature
    (fun c hc => .child ?_) (fun c hc => .child ?_) (fun c hc => .child ?_))) (.text _)) ?_
  rotate_right
  · split
    next body hbody => exact emit (by simp [hn, hbody])
    next => exact .malformed (.inl rfl) _
  all_goals simp [hn, hc]

theorem Typed.function :
    Inline s₁ s₂ n r (Emit.Typed.function s₁ n) (Emit.Typed.function s₂ n) := by
  unfold Emit.Typed.function
  split
  · exact Typed.functionWithBody rfl
  · exact Typed.functionWithBody rfl
  · exact expected _

theorem bodilessFunction :
    Inline s₁ s₂ n r (Emit.bodilessFunction s₁ n) (Emit.bodilessFunction s₂ n) := by
  unfold Emit.bodilessFunction
  split
  iterate 2
    · refine .append (.append (onlyIf _ (.text _)) (functionHead fun c hc => .child ?_))
        (Typed.functionSignature (fun c hc => .child ?_) (fun c hc => .child ?_)
          (fun c hc => .child ?_))
      all_goals simp [hc]
  · exact expected _

theorem arrowBody {body : Node} (h : body ∈ n.children) :
    Inline s₁ s₂ n r (Emit.arrowBody s₁ body) (Emit.arrowBody s₂ body) := by
  unfold Emit.arrowBody
  refine .append (.text _) ?_
  split
  · exact parens (emitUnder h (by decide))
  · exact parens (emitUnder h (by decide))
  · exact emit h

theorem arrowParams {params : List Node} (h : ∀ c ∈ params, c ∈ n.children) :
    Inline s₁ s₂ n r (Emit.arrowParams s₁ params)
      (Emit.arrowParams s₂ params) := by
  unfold Emit.arrowParams
  split
  · exact .text _
  · exact sequence h

theorem Plain.arrowFunction :
    Inline s₁ s₂ n r (Emit.Plain.arrowFunction s₁ n) (Emit.Plain.arrowFunction s₂ n) := by
  unfold Emit.Plain.arrowFunction
  split
  · exact .append (.append (onlyIf _ (.text _)) (arrowParams (by simp +contextual)))
      (arrowBody (by simp))
  · exact expected _

theorem Typed.arrowFunction :
    Inline s₁ s₂ n r (Emit.Typed.arrowFunction s₁ n) (Emit.Typed.arrowFunction s₂ n) := by
  unfold Emit.Typed.arrowFunction
  split
  · exact .append (.append (.append (.append (emit? (by simp +contextual)) (onlyIf _ (.text _)))
      (sequence (by simp +contextual))) (annot (by simp +contextual))) (arrowBody (by simp))
  · exact expected _

/-! ## §3. Classes. -/

theorem superclass {c : Node} (h : c ∈ n.children) :
    Inline s₁ s₂ n r (Emit.superclass s₁ c) (Emit.superclass s₂ c) := by
  refine .append (.text _) (.parensIf (fun hr => ?_) (emit h))
  rw [ranksBelow_congr (hr.child h) (hr.position (by decide))]

theorem Plain.classOf {c : ClassLike} (h : ∀ m ∈ c.children, m ∈ n.children) :
    Inline s₁ s₂ n r (Emit.Plain.classOf s₁ c) (Emit.Plain.classOf s₂ c) := by
  unfold Emit.Plain.classOf
  refine beside (beside (beside (.text _) ?_) ?_) (emitUnder (h _ (by simp)) (by decide))
  · exact ofOption fun m hm =>
      .append (identifierName (.inr (.child (h m (by simp [hm])))) .text) (.text _)
  · exact ofOption fun m hm => .append (superclass (h m (by simp [hm]))) (.text _)

theorem Plain.classLike :
    Inline s₁ s₂ n r (Emit.Plain.classLike s₁ n) (Emit.Plain.classLike s₂ n) := by
  unfold Emit.Plain.classLike
  split
  · exact Plain.classOf fun _ h => h
  · exact Plain.classOf fun _ h => h
  · exact expected _

theorem implementsClause {ns : List Node} (h : ∀ c ∈ ns, c ∈ n.children) :
    Inline s₁ s₂ n r (Emit.implementsClause s₁ ns) (Emit.implementsClause s₂ ns) := by
  unfold Emit.implementsClause
  split
  · exact .nil
  · exact .append (.append (.text _) (joined h)) (.text _)

theorem Typed.classOf {c : ClassLike} (h : ∀ m ∈ c.children, m ∈ n.children) :
    Inline s₁ s₂ n r (Emit.Typed.classOf s₁ c) (Emit.Typed.classOf s₂ c) := by
  unfold Emit.Typed.classOf
  refine beside (beside (beside (beside (beside (beside (beside (beside (beside ?_
    (onlyIf _ (.text _))) (onlyIf _ (.text _))) (.text _)) ?_) ?_) (.text _)) ?_) ?_) ?_
  · exact decoratorLines fun m hm => h m (by simp [hm])
  · exact ofOption fun m hm => .append (.text _)
      (identifierName (.inr (.child (h m (by simp [hm])))) .text)
  · exact emit? fun m hm => h m (by simp [hm])
  · exact ofOption fun m hm => .append (.append (superclass (h m (by simp [hm])))
      (emit? fun m' hm' => h m' (by simp [hm']))) (.text _)
  · exact implementsClause fun m hm => h m (by simp [hm])
  · exact emitUnder (h _ (by simp)) (by decide)

theorem Typed.classLike :
    Inline s₁ s₂ n r (Emit.Typed.classLike s₁ n) (Emit.Typed.classLike s₂ n) := by
  unfold Emit.Typed.classLike
  split
  · exact Typed.classOf fun _ h => h
  · exact Typed.classOf fun _ h => h
  · exact expected _

/-! ## §4. Methods and fields. -/

/-- What depends on the function that a method holds: the value is inside the node, and the parts of
the function are inside the value. -/
theorem methodValue {value : Node} {f₁ f₂ : FunctionLike → Doc} (hv : value ∈ n.children)
    (h : ∀ form f, value = .function form f → Inline s₁ s₂ n r (f₁ f) (f₂ f)) :
    Inline s₁ s₂ n r (.ofExcept (Emit.methodValue value) f₁)
      (.ofExcept (Emit.methodValue value) f₂) := by
  unfold Emit.methodValue
  cases value
  case function form f => exact h form f rfl
  all_goals exact .malformed (.inr (.child hv)) _

theorem methodHead {p : Emit.MethodParts} (h : p.key ∈ n.children) :
    Inline s₁ s₂ n r (Emit.methodHead s₁ p) (Emit.methodHead s₂ p) :=
  .append (.append (.append (onlyIf _ (.append (.text _) (.text _))) (onlyIf _ (.text _)))
    (onlyIf _ (.text _))) (key h)

theorem methodModifiers {p : Emit.MethodParts} :
    Inline s₁ s₂ n r (Emit.methodModifiers p) (Emit.methodModifiers p) :=
  ofOption fun _ _ => .append (.append (onlyIf _ (.text _)) (onlyIf _ (.text _)))
    (ofOption fun _ _ => .append (.text _) (.text _))

/-- What depends on the parts of a method: its function is the value of a child of the node, and its
modifiers are those of the node. -/
theorem methodParts {f₁ f₂ : Emit.MethodParts → Doc}
    (h : ∀ p : Emit.MethodParts, p.key ∈ n.children →
      (∃ value ∈ n.children, ∃ form, value = .function form p.value) →
      (∀ m, p.definition = some m → ∀ c ∈ m.children, c ∈ n.children) →
      Inline s₁ s₂ n r (f₁ p) (f₂ p)) :
    Inline s₁ s₂ n r (.ofExcept (Emit.MethodParts.of n) f₁)
      (.ofExcept (Emit.MethodParts.of n) f₂) := by
  unfold Emit.MethodParts.of Emit.MethodParts.ofMethod
  split
  · rw [ofExcept_map, ofExcept_map]
    refine methodValue (by simp) fun form f hf => h _ (by simp) ⟨_, by simp, form, hf⟩ ?_
    rintro _ ⟨⟩ c hc
    exact hc
  · rw [ofExcept_map, ofExcept_map]
    refine methodValue (by simp) fun form f hf => h _ (by simp) ⟨_, by simp, form, hf⟩ ?_
    rintro _ ⟨⟩ c hc
    exact hc
  · rw [ofExcept_map, ofExcept_map]
    exact methodValue (by simp) fun form f hf => h _ (by simp) ⟨_, by simp, form, hf⟩ nofun
  · exact .malformed (.inl rfl) _

theorem Plain.method :
    Inline s₁ s₂ n r (Emit.Plain.method s₁ n) (Emit.Plain.method s₂ n) := by
  refine methodParts fun p hk ⟨value, hv, form, hf⟩ _ => ?_
  subst hf
  refine beside (beside (beside (onlyIf _ (.text _)) (methodHead hk)) (params fun c hc => ?_))
    (ofOption fun c hc => .append (.text _) (.emitAs ?_ (.inl rfl)))
  · exact .deeper (.child (by simp [hc])) hv
  · exact .deeper (.child (by simp [hc])) hv

theorem Typed.method :
    Inline s₁ s₂ n r (Emit.Typed.method s₁ n) (Emit.Typed.method s₂ n) := by
  refine methodParts fun p hk ⟨value, hv, form, hf⟩ hm => ?_
  subst hf
  refine beside (beside (beside (beside (beside (beside ?_ (onlyIf _ (.text _)))
    methodModifiers) (methodHead hk)) ?_) ?_) ?_
  · exact ofOption fun m hd => decoratorLines fun c hc => hm m hd c (by simp [hc])
  · exact ofOption fun m hd => .append (onlyIf _ (.text _))
      (emit? fun c hc => hm m hd c (by simp [hc]))
  · exact Typed.functionSignature (fun c hc => .deeper (.child (by simp [hc])) hv)
      (fun c hc => .deeper (.child (by simp [hc])) hv)
      (fun c hc => .deeper (.child (by simp [hc])) hv)
  · unfold Emit.Typed.methodBody
    split
    next body hbody =>
      exact .append (.text _) (.emitAs (.deeper (.child (by simp [hbody])) hv) (.inl rfl))
    next => exact .text _

theorem Plain.classField :
    Inline s₁ s₂ n r (Emit.Plain.classField s₁ n) (Emit.Plain.classField s₂ n) := by
  unfold Emit.Plain.classField
  split
  · refine .append (.append (onlyIf _ (.text _)) (key (by simp))) ?_
    split
    next value hv => exact .append (.append (.text _) (emit (by simp [hv]))) (.text _)
    next => exact onlyIf _ (.text _)
  · exact expected _

theorem fieldModifiers {form : FieldForm} {f : ClassField} :
    Inline s₁ s₂ n r (Emit.fieldModifiers form f) (Emit.fieldModifiers form f) :=
  .append (.append (.append (.append (onlyIf _ (.text _)) (onlyIf _ (.text _)))
    (onlyIf _ (.text _))) (ofOption fun _ _ => .append (.text _) (.text _))) (onlyIf _ (.text _))

theorem Typed.classField :
    Inline s₁ s₂ n r (Emit.Typed.classField s₁ n) (Emit.Typed.classField s₂ n) := by
  unfold Emit.Typed.classField
  split
  · refine .append (.append (.append (.append (.append (.append (.append (.append
      (decoratorLines ?_) (onlyIf _ (.text _))) (onlyIf _ (.text _))) fieldModifiers) (key ?_))
      (onlyIf _ (.text _))) (onlyIf _ (.text _))) (annot ?_)) ?_
    rotate_right
    · split
      next value hv => exact .append (.append (.text _) (emit (by simp [hv]))) (.text _)
      next => exact onlyIf _ (.text _)
    all_goals simp +contextual
  · exact expected _

/-! ## §5. Imports and exports. -/

theorem kindWord (d : Dialect) {kind : Option String} :
    Inline s₁ s₂ n r (Emit.kindWord d kind) (Emit.kindWord d kind) := by
  cases d with
  | plain => exact .nil
  | typed => exact ofOption fun _ _ => onlyIf _ (.append (.text _) (.text _))

theorem attributeClause {ns : List Node} (h : ∀ c ∈ ns, c ∈ n.children) :
    Inline s₁ s₂ n r (Emit.attributeClause s₁ ns) (Emit.attributeClause s₂ ns) := by
  unfold Emit.attributeClause
  split
  · exact .nil
  · exact .append (.append (.text _) (joinText fun c hc => emitUnder (h c hc) (by decide)))
      (.text _)

theorem importAttribute :
    Inline s₁ s₂ n r (Emit.importAttribute s₁ n) (Emit.importAttribute s₂ n) := by
  unfold Emit.importAttribute
  split
  · exact .append (.append (emit (by simp)) (.text _)) (emitUnder (by simp) (by decide))
  · exact expected _

theorem renamed {first second : String} :
    Inline s₁ s₂ n r (Emit.renamed first second) (Emit.renamed first second) :=
  .append (.text _) (onlyIf _ (.append (.text _) (.text _)))

theorem leadingSpecifiers {sep : Doc} {ns : List Node}
    (hsep : Inline s₁ s₂ n r sep sep) (h : ∀ c ∈ ns, c.Below n) :
    Inline s₁ s₂ n r (Emit.leadingSpecifiers sep ns)
      (Emit.leadingSpecifiers sep ns) := by
  induction ns generalizing sep with
  | nil => exact .nil
  | cons c rest ih =>
    refine beside ?_ (ih (.text _) fun m hm => h m (List.mem_cons_of_mem _ hm))
    have hc : c.Below n := h c List.mem_cons_self
    unfold Emit.leadingName
    split
    · exact identifierName (.inr (.trans (.child (by simp)) hc)) fun _ => .append hsep (.text _)
    · rw [ofExcept_map]
      exact identifierName (.inr (.trans (.child (by simp)) hc)) fun _ => .append hsep (.text _)
    · exact .append hsep (.text _)

theorem importSpecifier (d : Dialect) {c : Node} (h : c.Below n) :
    Inline s₁ s₂ n r (Emit.importSpecifier d c) (Emit.importSpecifier d c) := by
  unfold Emit.importSpecifier
  split
  · refine .append (kindWord d) (exportName (.inr (.trans (.child ?_) h)) fun _ =>
      identifierName (.inr (.trans (.child ?_) h)) fun _ => renamed)
    all_goals simp
  · exact .malformed (.inr h) _

theorem importSpecifiers (d : Dialect) {ns : List Node} (h : ∀ c ∈ ns, c.Below n) :
    Inline s₁ s₂ n r (Emit.importSpecifiers d ns) (Emit.importSpecifiers d ns) := by
  unfold Emit.importSpecifiers
  refine .append (leadingSpecifiers .nil fun c hc => h c ((List.takeWhile_sublist _).subset hc)) ?_
  split
  · exact .nil
  · refine .append (onlyIf _ (.text _)) (braces (joinText fun c hc => importSpecifier d (h c ?_)))
    exact (List.dropWhile_sublist _).subset hc

theorem importDeclaration (d : Dialect) :
    Inline s₁ s₂ n r (Emit.importDeclaration d s₁ n)
      (Emit.importDeclaration d s₂ n) := by
  unfold Emit.importDeclaration
  split
  · refine .append (.append (.append (.append (.append (.text _) (kindWord d)) (onlyIf _
      (.append (importSpecifiers d fun c hc => .child ?_) (.text _)))) (emitUnder (by simp)
      (by decide))) (attributeClause (by simp +contextual))) (.text _)
    simp [hc]
  · exact expected _

theorem Plain.importExpression :
    Inline s₁ s₂ n r (Emit.Plain.importExpression s₁ n) (Emit.Plain.importExpression s₂ n) := by
  unfold Emit.Plain.importExpression
  split
  · exact .append (.append (.text _) (emit (by simp))) (.text _)
  · exact expected _

theorem Typed.importExpression :
    Inline s₁ s₂ n r (Emit.Typed.importExpression s₁ n) (Emit.Typed.importExpression s₂ n) := by
  unfold Emit.Typed.importExpression
  split
  · refine .append (.append (.append (.append (.text _) (emit (by simp)))
      (lead _ fun c hc => ?_)) (lead _ (by simp +contextual))) (.text _)
    have := List.mem_of_head? hc
    simp [this]
  · exact expected _

theorem exportSpecifier (d : Dialect) {c : Node} (h : c.Below n) :
    Inline s₁ s₂ n r (Emit.exportSpecifier d c) (Emit.exportSpecifier d c) := by
  unfold Emit.exportSpecifier
  split
  · refine .append (kindWord d) (exportName (.inr (.trans (.child ?_) h)) fun _ =>
      exportName (.inr (.trans (.child ?_) h)) fun _ => renamed)
    all_goals simp
  · exact .malformed (.inr h) _

theorem exportNamed (d : Dialect) :
    Inline s₁ s₂ n r (Emit.exportNamed d s₁ n) (Emit.exportNamed d s₂ n) := by
  unfold Emit.exportNamed
  split
  next e =>
    refine .append (.text _) ?_
    split
    next declaration hd => exact emit (by simp [hd])
    next =>
      refine .append (.append (.append (.append (kindWord d) (braces (joinText fun c hc =>
        exportSpecifier d (.child ?_)))) (ofOption fun c hc => .append (.text _)
        (emitUnder ?_ (by decide)))) (attributeClause ?_)) (.text _)
      all_goals simp +contextual [*]
  next => exact expected _

theorem exportDefault :
    Inline s₁ s₂ n r (Emit.exportDefault s₁ n) (Emit.exportDefault s₂ n) := by
  unfold Emit.exportDefault
  split
  next declaration =>
    refine .append (.append (.text _) (emit (by simp))) (.mark (fun hr => ?_) (.inr rfl))
    rw [hr.child (c := declaration) (by simp)]
  next => exact expected _

theorem exportAll (d : Dialect) :
    Inline s₁ s₂ n r (Emit.exportAll d s₁ n) (Emit.exportAll d s₂ n) := by
  unfold Emit.exportAll
  split
  · refine .append (.append (.append (.append (.append (.append (.append (.text _) (kindWord d))
      (.text _)) (ofOption fun c hc => .append (.text _) (exportName (.inr (.child ?_)) fun _ =>
      .append (.text _) (.text _)))) (.text _)) (emitUnder (by simp) (by decide)))
      (attributeClause (by simp +contextual))) (.text _)
    simp [hc]
  · exact expected _

end Alike

end Estree
