import Estree.Proofs.Nesting.Skeleton
import Estree.Proofs.Results

/-!
# What the procedures leave open

Each procedure, run where every dispatch is empty on a node without brackets in its texts, closes
what it opens. A procedure that writes no text of its node needs nothing of the node; where one does
write a name, an operator or a raw text, its lemma asks that the node has no brackets in its texts
(`Node.BracketFree`).

There is one lemma for each procedure and for each part that several procedures share, so a change
of one procedure is a change of one lemma. The dispatched nodes do not matter here: `Scope.blank`
writes nothing for them, and the induction over trees puts them back (`Grammar.balanced_emitAs`).

Main results:

* `balanced_…`: a procedure closes what it opens, and no more, whatever was open before.
* `dueAfter_…`: the same of a part, said of the brackets that are due before and after it.
-/

namespace Estree

open Nesting

namespace Emit

variable {n : Node} {rank : Kind → Option Rank} (due : List Char)

attribute [local simp] isFree_append

/-! ## §1. Names of nodes inside. -/

/-- The name of a node without brackets in its texts has none. -/
theorem isFree_identifierName {c : Node} (h : c.BracketFree) {name : String}
    (hn : c.identifierName = .ok name) : IsFree name := by
  cases c with
  | identifier name' _ _ _ =>
    cases hn
    exact h.texts _ List.mem_cons_self
  | _ => cases hn

/-- A part that starts from the name of a node is asked about names without brackets only. -/
theorem dueAfter_identifierName {c : Node} (hc : c.BracketFree) {f : String → Doc}
    (h : ∀ t, IsFree t → (f t).dueAfter due = some due) :
    (Doc.ofExcept c.identifierName f).dueAfter due = some due :=
  Doc.dueAfter_ofExcept due fun _ ht => h _ (isFree_identifierName hc ht)

@[simp] theorem dueAfter_name {c : Node} (hc : c.BracketFree) :
    (Doc.ofExcept c.identifierName Doc.text).dueAfter due = some due :=
  dueAfter_identifierName due hc fun _ ht => Doc.dueAfter_text due ht

/-- A literal value is compact JSON, whose brackets are paired. -/
theorem dueAfter_value {l : Literal} (h : ∀ t ∈ l.texts, IsFree t) :
    Nesting.dueAfter due l.value.compact = some due :=
  dueAfter_compact _ (fun t ht => h t (by simp [Literal.texts, ht])) due

/-- The name of an export is an identifier or a literal. -/
theorem dueAfter_exportName {c : Node} (hc : c.BracketFree) {f : String → Doc}
    (h : ∀ t, (∀ due, (Doc.text t).dueAfter due = some due) → (f t).dueAfter due = some due) :
    (Doc.ofExcept c.exportName f).dueAfter due = some due := by
  cases c with
  | identifier name _ _ _ => exact h name (dueAfter_of_isFree (hc.texts name List.mem_cons_self))
  | literal l =>
    have ht : ∀ t ∈ l.texts, IsFree t := hc.texts
    refine h _ fun due => ?_
    cases hr : l.raw with
    | none => exact dueAfter_value due ht
    | some raw => exact dueAfter_of_isFree (ht raw (by simp [Literal.texts, hr])) due
  | _ => rfl

/-! ## §2. Statements. -/

/-- The statements of a program, each on a line. -/
theorem balanced_program : (program (.blank rank) n).Balanced := by
  unfold program
  split <;> simp

/-- A block is one pair of braces around lines. -/
theorem balanced_block : (block (.blank rank) n).Balanced := by
  unfold block
  split <;> simp

/-- A static block has one pair of braces, after its word. -/
theorem balanced_staticBlock : (staticBlock (.blank rank) n).Balanced := by
  unfold staticBlock
  split <;> simp +decide

/-- An expression may be put in parentheses before its semicolon. -/
theorem balanced_expressionStatement : (expressionStatement (.blank rank) n).Balanced := by
  unfold expressionStatement
  split <;> simp +decide

/-- A `break` or a `continue` has no brackets. -/
theorem balanced_jump : (jump (.blank rank) n).Balanced := by
  unfold jump
  split <;> simp +decide [jumpTo]

/-- A `return` has no brackets of its own. -/
theorem balanced_returnStatement : (returnStatement (.blank rank) n).Balanced := by
  unfold returnStatement
  split <;> simp +decide

/-- A `throw` has no brackets of its own. -/
theorem balanced_throwStatement : (throwStatement (.blank rank) n).Balanced := by
  unfold throwStatement
  split <;> simp +decide

/-- The test of an `if` is in parentheses. -/
theorem balanced_ifStatement : (ifStatement (.blank rank) n).Balanced := by
  unfold ifStatement
  split <;> simp +decide

theorem balanced_labeledStatement : (labeledStatement (.blank rank) n).Balanced := by
  unfold labeledStatement
  split <;> simp +decide

/-- The object of a `with` is in parentheses. -/
theorem balanced_withStatement : (withStatement (.blank rank) n).Balanced := by
  unfold withStatement
  split <;> simp +decide

/-- A case opens no bracket, however many statements it has. -/
@[simp] theorem dueAfter_switchCase (c : SwitchCase) :
    (switchCase (.blank rank) c).dueAfter due = some due := by
  cases h : c.test <;> simp +decide [switchCase, caseHead, h]

/-- A `switch` has a pair of parentheses and a pair of braces. -/
theorem balanced_switchStatement : (switchStatement (.blank rank) n).Balanced := by
  unfold switchStatement
  split <;> simp

/-- The parameter of a handler is in parentheses, if there is one. -/
@[simp] theorem dueAfter_handler (c : CatchClause) :
    (handler (.blank rank) c).dueAfter due = some due := by
  cases h : c.param <;> simp +decide [handler, h]

/-- A `try` adds words to its blocks. -/
theorem balanced_tryStatement : (tryStatement (.blank rank) n).Balanced := by
  unfold tryStatement
  split <;> simp +decide

/-- The test of a `while` is in parentheses. -/
theorem balanced_whileStatement : (whileStatement (.blank rank) n).Balanced := by
  unfold whileStatement
  split <;> simp +decide

/-- The test at the end of a `do` is in parentheses. -/
theorem balanced_doWhileStatement : (doWhileStatement (.blank rank) n).Balanced := by
  unfold doWhileStatement
  split <;> simp +decide

/-- Declarators are separated by commas; the word before them is a text of the node. -/
@[simp] theorem dueAfter_declarators {kind : String} (h : IsFree kind) (ns : List Node) :
    (declarators (.blank rank) kind ns).dueAfter due = some due := by
  simp +decide [declarators, h]

/-- A clause in the head of a loop is a declaration without its semicolon, or a node. -/
theorem balanced_loopHead {c : Node} (h : c.BracketFree) :
    (loopHead (.blank rank) c).Balanced := by
  unfold loopHead
  split
  · next kind _ _ => simp [h.texts kind List.mem_cons_self]
  · simp

/-- The three clauses of a `for` are in one pair of parentheses. -/
theorem balanced_forStatement (h : n.BracketFree) : (forStatement (.blank rank) n).Balanced := by
  unfold forStatement
  split
  next init _ _ _ =>
    have hinit : ∀ c, init = some c → (loopHead (.blank rank) c).Balanced := fun c hc =>
      balanced_loopHead (h.child (by simp [Node.children, hc]))
    simp_all +decide
  next => simp

/-- The two sides of a loop over something are in parentheses. -/
theorem balanced_loopOver {word : String} (hw : IsFree word) {left right body : Node} {await : Bool}
    (h : left.BracketFree) : (loopOver (.blank rank) word left right body await).Balanced := by
  have hleft : (loopHead (.blank rank) left).Balanced := balanced_loopHead h
  simp_all +decide [loopOver]

/-- Loops over keys and over values differ in a word. -/
theorem balanced_forEach (h : n.BracketFree) : (forEach (.blank rank) n).Balanced := by
  unfold forEach
  split
  · exact balanced_loopOver (by decide) (h.child (by simp [Node.children]))
  · exact balanced_loopOver (by decide) (h.child (by simp [Node.children]))
  · simp

/-! ## §3. Functions, variables and classes. -/

/-- The words and the name before the parameters. -/
theorem balanced_functionHead {f : FunctionLike} (h : ∀ c, f.id = some c → c.BracketFree) :
    (functionHead f).Balanced := by
  have hid : ∀ due, (Doc.ofOption f.id fun id => .ofExcept id.identifierName Doc.text).dueAfter due
      = some due := fun due => Doc.dueAfter_ofOption due fun c hc => dueAfter_name due (h c hc)
  simp +decide [functionHead, hid]

/-- A plain function without a body stops after its parameters, with nothing open. -/
theorem Plain.balanced_functionWithBody {f : FunctionLike}
    (h : ∀ c, f.id = some c → c.BracketFree) :
    (Plain.functionWithBody (.blank rank) n f).Balanced := by
  have hhead : (functionHead f).Balanced := balanced_functionHead h
  cases hb : f.body <;> simp_all +decide [Plain.functionWithBody]

/-- Declarations and expressions are written alike. -/
theorem Plain.balanced_function (h : n.BracketFree) :
    (Plain.function (.blank rank) n).Balanced := by
  unfold Plain.function
  split
  · exact Plain.balanced_functionWithBody fun c hc => h.child (by simp [Node.children, hc])
  · exact Plain.balanced_functionWithBody fun c hc => h.child (by simp [Node.children, hc])
  · simp

/-- The types of a function come between brackets of their own nodes. -/
@[simp] theorem Typed.dueAfter_functionSignature (f : FunctionLike) :
    (Typed.functionSignature (.blank rank) f).dueAfter due = some due := by
  simp [Typed.functionSignature]

/-- A typed function has its types around the parameters. -/
theorem Typed.balanced_functionWithBody {f : FunctionLike}
    (h : ∀ c, f.id = some c → c.BracketFree) :
    (Typed.functionWithBody (.blank rank) n f).Balanced := by
  have hhead : (functionHead f).Balanced := balanced_functionHead h
  cases hb : f.body <;> simp_all +decide [Typed.functionWithBody]

/-- So are declarations and expressions with types. -/
theorem Typed.balanced_function (h : n.BracketFree) :
    (Typed.function (.blank rank) n).Balanced := by
  unfold Typed.function
  split
  · exact Typed.balanced_functionWithBody fun c hc => h.child (by simp [Node.children, hc])
  · exact Typed.balanced_functionWithBody fun c hc => h.child (by simp [Node.children, hc])
  · simp

/-- A function that is only declared ends with its signature. -/
theorem balanced_bodilessFunction (h : n.BracketFree) :
    (bodilessFunction (.blank rank) n).Balanced := by
  have hhead : ∀ form f, n = .function form f → (functionHead f).Balanced := by
    rintro form f rfl
    exact balanced_functionHead fun c hc => h.child (by simp [Node.children, hc])
  unfold bodilessFunction
  split <;> simp_all +decide

/-- An object as the body of an arrow is put in parentheses. -/
@[simp] theorem dueAfter_arrowBody (body : Node) :
    (arrowBody (.blank rank) body).dueAfter due = some due := by
  unfold arrowBody
  split <;> simp +decide

/-- A lone name needs no parentheses, any other parameters have a pair. -/
theorem balanced_arrowParams {params : List Node} (h : ∀ c ∈ params, c.BracketFree) :
    (arrowParams (.blank rank) params).Balanced := by
  unfold arrowParams
  split
  next name _ _ _ => simp [(h _ List.mem_cons_self).texts name List.mem_cons_self]
  next => simp

/-- Parameters, the arrow and the body. -/
theorem Plain.balanced_arrowFunction (h : n.BracketFree) :
    (Plain.arrowFunction (.blank rank) n).Balanced := by
  unfold Plain.arrowFunction
  split
  next f =>
    have hparams : (arrowParams (.blank rank) f.params).Balanced :=
      balanced_arrowParams fun c hc => h.child (by simp [Node.children, hc])
    simp_all +decide
  next => simp

/-- The typed arrow has its types around the parameters. -/
theorem Typed.balanced_arrowFunction : (Typed.arrowFunction (.blank rank) n).Balanced := by
  unfold Typed.arrowFunction
  split <;> simp +decide

/-- Decorators in a line, with blanks. -/
@[simp] theorem dueAfter_inlineDecorators (ns : List Node) :
    (inlineDecorators (.blank rank) ns).dueAfter due = some due := by
  simp +decide [inlineDecorators]

/-- Decorators on lines of their own. -/
@[simp] theorem dueAfter_decoratorLines (ns : List Node) :
    (decoratorLines (.blank rank) ns).dueAfter due = some due := by
  simp [decoratorLines]

/-- A decorator is an expression after a sign. -/
theorem balanced_decorator : (decorator (.blank rank) n).Balanced := by
  unfold decorator
  split <;> simp +decide

/-- A plain identifier is its name. -/
theorem Plain.balanced_identifier (h : n.BracketFree) : (Plain.identifier n).Balanced := by
  unfold Plain.identifier
  split
  next name _ _ _ => exact dueAfter_of_isFree (h.texts name List.mem_cons_self)
  next => simp

/-- A typed name has its marks and its annotation after it. -/
theorem Typed.balanced_binding {name : String} (h : IsFree name) (definite optional : Bool)
    (annot : Option Node) (decorators : List Node) :
    (Typed.binding (.blank rank) name definite optional annot decorators).Balanced := by
  simp +decide [Typed.binding, h]

/-- A typed identifier has its decorators before it and its type after it. -/
theorem Typed.balanced_identifier (h : n.BracketFree) :
    (Typed.identifier (.blank rank) n).Balanced := by
  unfold Typed.identifier
  split
  next name _ _ _ => exact Typed.balanced_binding (h.texts name List.mem_cons_self) _ _ _ _
  next => simp

/-- A private name is its text after a sign. -/
theorem balanced_privateIdentifier (h : n.BracketFree) : (privateIdentifier n).Balanced := by
  unfold privateIdentifier
  split
  next name => simp +decide [h.texts name List.mem_cons_self]
  next => simp

/-- A declaration ends with its semicolon. -/
theorem Plain.balanced_variableDeclaration (h : n.BracketFree) :
    (Plain.variableDeclaration (.blank rank) n).Balanced := by
  unfold Plain.variableDeclaration
  split
  next kind _ _ => simp +decide [h.texts kind List.mem_cons_self]
  next => simp

/-- A typed declaration may have a word more. -/
theorem Typed.balanced_variableDeclaration (h : n.BracketFree) :
    (Typed.variableDeclaration (.blank rank) n).Balanced := by
  unfold Typed.variableDeclaration
  split
  next kind _ _ => simp +decide [h.texts kind List.mem_cons_self]
  next => simp

/-- A name and, after a sign, its value. -/
theorem Plain.balanced_variableDeclarator :
    (Plain.variableDeclarator (.blank rank) n).Balanced := by
  unfold Plain.variableDeclarator
  split <;> simp +decide

/-- A declared name with its marks. -/
theorem Typed.balanced_declared {id : Node} (h : id.BracketFree) (definite : Bool) :
    (Typed.declared (.blank rank) id definite).Balanced := by
  unfold Typed.declared
  split
  next name _ _ _ => exact Typed.balanced_binding (h.texts name List.mem_cons_self) _ _ _ _
  next => simp

/-- A typed declarator has the marks between name and value. -/
theorem Typed.balanced_variableDeclarator (h : n.BracketFree) :
    (Typed.variableDeclarator (.blank rank) n).Balanced := by
  unfold Typed.variableDeclarator
  split
  next id init definite =>
    have hid : (Typed.declared (.blank rank) id definite).Balanced :=
      Typed.balanced_declared (h.child (by simp [Node.children])) definite
    simp_all +decide
  next => simp

/-- The word for the accessibility is a text of the node. -/
@[simp] theorem dueAfter_accessibility {o : Option String} (h : ∀ t ∈ o.toList, IsFree t) :
    (Doc.ofOption o fun t => t ++ " ").dueAfter due = some due := by
  refine Doc.dueAfter_ofOption due fun t ht => ?_
  simp +decide [h t (by simp [ht])]

/-- Modifiers before a parameter. -/
theorem balanced_parameterProperty (h : n.BracketFree) :
    (parameterProperty (.blank rank) n).Balanced := by
  unfold parameterProperty
  split
  next p => simp +decide [dueAfter_accessibility _ h.texts]
  next => simp

/-- The head of a plain class; its superclass may be in parentheses. -/
theorem Plain.balanced_classOf {c : ClassLike} (h : ∀ id, c.id = some id → id.BracketFree) :
    (Plain.classOf (.blank rank) c).Balanced := by
  have hid : ∀ due, (Doc.ofOption c.id fun id =>
      .ofExcept id.identifierName Doc.text ++ " ").dueAfter due = some due := by
    intro due
    refine Doc.dueAfter_ofOption due fun id hc => ?_
    simp +decide [h id hc]
  simp +decide [Plain.classOf, superclass, hid]

/-- Declared or in an expression, a plain class is written alike. -/
theorem Plain.balanced_classLike (h : n.BracketFree) :
    (Plain.classLike (.blank rank) n).Balanced := by
  unfold Plain.classLike
  split
  · exact Plain.balanced_classOf fun c hc => h.child (by simp [Node.children, hc])
  · exact Plain.balanced_classOf fun c hc => h.child (by simp [Node.children, hc])
  · simp

/-- The typed head adds decorators, type parameters and the list of what is implemented. -/
theorem Typed.balanced_classOf {c : ClassLike} (h : ∀ id, c.id = some id → id.BracketFree) :
    (Typed.classOf (.blank rank) c).Balanced := by
  have hid : ∀ due, (Doc.ofOption c.id fun id =>
      " " ++ .ofExcept id.identifierName Doc.text).dueAfter due = some due := by
    intro due
    refine Doc.dueAfter_ofOption due fun id hc => ?_
    simp +decide [h id hc]
  simp +decide [Typed.classOf, superclass, implementsClause, hid]

/-- A typed class is balanced as its header and body are. -/
theorem Typed.balanced_classLike (h : n.BracketFree) :
    (Typed.classLike (.blank rank) n).Balanced := by
  unfold Typed.classLike
  split
  · exact Typed.balanced_classOf fun c hc => h.child (by simp [Node.children, hc])
  · exact Typed.balanced_classOf fun c hc => h.child (by simp [Node.children, hc])
  · simp

/-- A class in an expression is written as a declaration. -/
theorem balanced_classExpression : (classExpression (.blank rank) n).Balanced := by
  simp [classExpression]

/-- The kind of a method and its accessibility are texts of its node. -/
theorem MethodParts.mem_texts {p : MethodParts} (h : MethodParts.of n = .ok p) :
    p.kind ∈ n.texts ∧ ∀ m, p.definition = some m → ∀ t ∈ m.accessibility.toList, t ∈ n.texts := by
  unfold MethodParts.of MethodParts.ofMethod at h
  split at h
  · obtain ⟨f, -, rfl⟩ := exists_of_map_eq_ok h
    exact ⟨List.mem_cons_self, fun m hm t ht => Option.some.inj hm ▸ List.mem_cons_of_mem _ ht⟩
  · obtain ⟨f, -, rfl⟩ := exists_of_map_eq_ok h
    exact ⟨List.mem_cons_self, fun m hm t ht => Option.some.inj hm ▸ List.mem_cons_of_mem _ ht⟩
  · obtain ⟨f, -, rfl⟩ := exists_of_map_eq_ok h
    refine ⟨List.mem_cons_self, fun m hm => ?_⟩
    cases hm
  · cases h

/-- Of the words before the key of a method, the accessibility is a text of the node. -/
theorem balanced_methodModifiers {p : MethodParts}
    (h : ∀ m, p.definition = some m → ∀ t ∈ m.accessibility.toList, IsFree t) :
    (methodModifiers p).Balanced := by
  intro due
  refine Doc.dueAfter_ofOption due fun m hm => ?_
  simp +decide [dueAfter_accessibility _ (h m hm)]

/-- The key of a method, in brackets if it is computed. -/
@[simp] theorem dueAfter_methodHead {p : MethodParts} (h : IsFree p.kind) :
    (methodHead (.blank rank) p).dueAfter due = some due := by
  simp +decide [methodHead, h]

/-- A plain method is its head, its parameters and its body. -/
theorem Plain.balanced_method (h : n.BracketFree) : (Plain.method (.blank rank) n).Balanced := by
  intro due
  refine Doc.dueAfter_ofExcept due fun p hp => ?_
  have hk := h.texts _ (MethodParts.mem_texts hp).1
  simp +decide [Plain.methodOf, hk]

/-- A typed method may end with a semicolon in the place of its body. -/
@[simp] theorem Typed.dueAfter_methodBody (body : Option Node) :
    (Typed.methodBody (.blank rank) body).dueAfter due = some due := by
  cases body <;> simp +decide [Typed.methodBody]

/-- A typed method has its types after its key. -/
theorem Typed.balanced_method (h : n.BracketFree) : (Typed.method (.blank rank) n).Balanced := by
  intro due
  refine Doc.dueAfter_ofExcept due fun p hp => ?_
  obtain ⟨hkind, haccess⟩ := MethodParts.mem_texts hp
  have hmods : (methodModifiers p).Balanced :=
    balanced_methodModifiers fun m hm t ht => h.texts t (haccess m hm t ht)
  have hk := h.texts _ hkind
  simp_all +decide [Typed.methodOf]

/-- A plain field is its key and, after a sign, its value. -/
theorem Plain.balanced_classField : (Plain.classField (.blank rank) n).Balanced := by
  unfold Plain.classField
  split
  next f => cases hv : f.value <;> simp +decide
  next => simp

/-- A typed field has marks and an annotation between them. -/
theorem Typed.balanced_classField (h : n.BracketFree) :
    (Typed.classField (.blank rank) n).Balanced := by
  unfold Typed.classField
  split
  next form f =>
    have ha := fun due => dueAfter_accessibility due h.texts
    cases hv : f.value <;> simp_all +decide [fieldModifiers]
  next => simp

/-! ## §4. Imports, exports and namespaces. -/

/-- The kind of an import or an export is a word of the node. -/
theorem balanced_kindWord (d : Dialect) {o : Option String} (h : ∀ t ∈ o.toList, IsFree t) :
    (kindWord d o).Balanced := by
  have hword : ∀ due, (Doc.ofOption o fun k =>
      .onlyIf (k != "value") (k ++ " ")).dueAfter due = some due := by
    intro due
    refine Doc.dueAfter_ofOption due fun t ht => ?_
    simp +decide [h t (by simp [ht])]
  simp [kindWord, hword]

/-- Attributes are in braces, if there are any. -/
@[simp] theorem dueAfter_attributeClause (ns : List Node) :
    (attributeClause (.blank rank) ns).dueAfter due = some due := by
  simp +decide [attributeClause]

theorem balanced_importAttribute : (importAttribute (.blank rank) n).Balanced := by
  unfold importAttribute
  split <;> simp +decide

/-- Two names with a word between them, or one of them. -/
theorem balanced_renamed {first second : String} (hf : (Doc.text first).Balanced)
    (hs : (Doc.text second).Balanced) : (renamed first second).Balanced := by
  simp_all +decide [renamed]

/-- The name of a leading specifier has no brackets. -/
theorem isFree_leadingName {c : Node} (h : c.BracketFree) {name : String}
    (hn : leadingName c = .ok name) : IsFree name := by
  unfold leadingName at hn
  split at hn
  · exact isFree_identifierName (h.child (by simp [Node.children])) hn
  · obtain ⟨name, hname, rfl⟩ := exists_of_map_eq_ok hn
    have := isFree_identifierName (h.child (by simp [Node.children])) hname
    simp +decide [this]
  · cases hn
    decide

/-- Default and namespace specifiers, with commas. -/
theorem balanced_leadingSpecifiers {sep : Doc} (hsep : sep.Balanced) {ns : List Node}
    (h : ∀ c ∈ ns, c.BracketFree) : (leadingSpecifiers sep ns).Balanced := by
  induction ns generalizing sep with
  | nil => simp [leadingSpecifiers]
  | cons c rest ih =>
    have hc := h c List.mem_cons_self
    have hcomma : (Doc.text ", ").Balanced := dueAfter_of_isFree (by decide)
    have hrest := ih hcomma fun c hc => h c (List.mem_cons_of_mem _ hc)
    refine Doc.Balanced.append (fun due => ?_) hrest
    refine Doc.dueAfter_ofExcept due fun name hname => ?_
    simp_all [isFree_leadingName hc hname]

/-- A specifier may have a kind of its own. -/
theorem balanced_importSpecifier (d : Dialect) (h : n.BracketFree) :
    (importSpecifier d n).Balanced := by
  unfold importSpecifier
  split
  next imported localName kind =>
    refine Doc.Balanced.append (balanced_kindWord d h.texts) fun due => ?_
    refine dueAfter_exportName due (h.child (by simp [Node.children])) fun first hf => ?_
    refine dueAfter_identifierName due (h.child (by simp [Node.children])) fun second hs => ?_
    exact balanced_renamed hf (dueAfter_of_isFree hs) due
  next => simp

/-- Named specifiers are in braces. -/
theorem balanced_importSpecifiers (d : Dialect) {ns : List Node}
    (h : ∀ c ∈ ns, c.BracketFree) : (importSpecifiers d ns).Balanced := by
  have hlead : (leadingSpecifiers .nil (ns.takeWhile isLeading)).Balanced :=
    balanced_leadingSpecifiers Doc.dueAfter_nil fun c hc => h c (List.takeWhile_subset _ hc)
  have hnamed : ∀ c ∈ ns.dropWhile isLeading, (importSpecifier d c).Balanced := fun c hc =>
    balanced_importSpecifier d (h c (List.dropWhile_subset _ hc))
  simp_all +decide [importSpecifiers]

/-- An import without specifiers has only its source. -/
theorem balanced_importDeclaration (d : Dialect) (h : n.BracketFree) :
    (importDeclaration d (.blank rank) n).Balanced := by
  unfold importDeclaration
  split
  next specifiers source kind attributes =>
    have hkind : (kindWord d kind).Balanced := balanced_kindWord d h.texts
    have hspec : (importSpecifiers d specifiers).Balanced :=
      balanced_importSpecifiers d fun c hc => h.child (by simp [Node.children, hc])
    simp_all +decide
  next => simp

/-- The parenthesis of an import is part of its word, and is closed after the source. -/
theorem Plain.balanced_importExpression : (Plain.importExpression (.blank rank) n).Balanced := by
  unfold Plain.importExpression
  split <;> simp +decide

/-- The typed one may have options before it is closed. -/
theorem Typed.balanced_importExpression : (Typed.importExpression (.blank rank) n).Balanced := by
  unfold Typed.importExpression
  split <;> simp +decide

/-- A specifier of an export. -/
theorem balanced_exportSpecifier (d : Dialect) (h : n.BracketFree) :
    (exportSpecifier d n).Balanced := by
  unfold exportSpecifier
  split
  next localName exported kind =>
    refine Doc.Balanced.append (balanced_kindWord d h.texts) fun due => ?_
    refine dueAfter_exportName due (h.child (by simp [Node.children])) fun first hf => ?_
    refine dueAfter_exportName due (h.child (by simp [Node.children])) fun second hs => ?_
    exact balanced_renamed hf hs due
  next => simp

/-- An export is a declaration, or specifiers in braces. -/
theorem balanced_exportNamed (d : Dialect) (h : n.BracketFree) :
    (exportNamed d (.blank rank) n).Balanced := by
  unfold exportNamed
  split
  next e =>
    have hkind : (kindWord d e.exportKind).Balanced := balanced_kindWord d h.texts
    have hspec : ∀ c ∈ e.specifiers, (exportSpecifier d c).Balanced := fun c hc =>
      balanced_exportSpecifier d (h.child (by simp [Node.children, hc]))
    cases hd : e.declaration <;> simp_all +decide
  next => simp

/-- A default export may end with a semicolon. -/
theorem balanced_exportDefault : (exportDefault (.blank rank) n).Balanced := by
  unfold exportDefault
  split <;> simp +decide

/-- Everything, or everything under a name. -/
theorem balanced_exportAll (d : Dialect) (h : n.BracketFree) :
    (exportAll d (.blank rank) n).Balanced := by
  unfold exportAll
  split
  next exported source kind attributes =>
    have hkind : (kindWord d kind).Balanced := balanced_kindWord d h.texts
    have hname : ∀ due, (Doc.ofOption exported fun c =>
        "as " ++ .ofExcept c.exportName (fun name => name ++ " ")).dueAfter due = some due := by
      intro due
      refine Doc.dueAfter_ofOption due fun c hc => ?_
      have hword : ∀ due, (Doc.ofExcept c.exportName fun name => name ++ " ").dueAfter due
          = some due := fun due =>
        dueAfter_exportName due (h.child (by simp [Node.children, hc])) fun t ht => by
          simp +decide [ht]
      simp +decide [hword]
    simp_all +decide
  next => simp

/-- A part of the name of a module. -/
theorem balanced_moduleNamePart {id : Node} (h : id.BracketFree) :
    (moduleNamePart (.blank rank) id).Balanced := by
  unfold moduleNamePart
  split
  next l =>
    split
    next name hv =>
      have ht : ∀ t ∈ l.texts, IsFree t := h.texts
      have hname : IsFree name := ht name (by simp [Literal.texts, hv, Json.texts])
      simp +decide [isFree_escape hname]
    next => simp
  next => simp

/-- Modules in a module, down to the body. -/
theorem balanced_moduleRest {body : Option Node} (h : ∀ c, body = some c → c.BracketFree) :
    (moduleRest (.blank rank) body).Balanced := by
  fun_induction moduleRest (.blank rank) body with
  | case1 id body kind global declare ih =>
    have hm := h _ rfl
    have hid : (moduleNamePart (.blank rank) id).Balanced :=
      balanced_moduleNamePart (hm.child (by simp [Node.children]))
    have hbody := ih fun c hc => hm.child (by simp [Node.children, hc])
    simp_all +decide
  | case2 => simp +decide
  | case3 => simp +decide

/-- The global scope has a word for its name. -/
theorem balanced_moduleDeclaration (h : n.BracketFree) :
    (moduleDeclaration (.blank rank) n).Balanced := by
  unfold moduleDeclaration
  split
  next m =>
    have hid : (moduleNamePart (.blank rank) m.id).Balanced :=
      balanced_moduleNamePart (h.child (by simp [Node.children]))
    have hrest : (moduleRest (.blank rank) m.body).Balanced :=
      balanced_moduleRest fun c hc => h.child (by simp [Node.children, hc])
    have hword : IsFree (moduleKeyword m) := by
      unfold moduleKeyword
      repeat' split
      all_goals decide
    have hbody : (moduleBody (.blank rank) m.body).Balanced := by
      cases m.body <;> simp +decide [moduleBody]
    simp_all +decide
  next => simp

/-- The body of a module is a block. -/
theorem balanced_moduleBlock : (moduleBlock (.blank rank) n).Balanced := by
  unfold moduleBlock
  split <;> simp

/-! ## §5. Expressions and patterns. -/

theorem Plain.balanced_restElement : (Plain.restElement (.blank rank) n).Balanced := by
  unfold Plain.restElement
  split <;> simp +decide

/-- A typed rest element has its annotation after it. -/
theorem Typed.balanced_restElement : (Typed.restElement (.blank rank) n).Balanced := by
  unfold Typed.restElement
  split <;> simp +decide

/-- The operand of a `yield` may be in parentheses. -/
theorem balanced_yieldExpression : (yieldExpression (.blank rank) n).Balanced := by
  unfold yieldExpression
  split <;> simp +decide

/-- So may that of an `await`. -/
theorem balanced_awaitExpression : (awaitExpression (.blank rank) n).Balanced := by
  unfold awaitExpression
  split <;> simp +decide

/-- The raw text of a quasi is a text of the node. -/
theorem balanced_templateElement (h : n.BracketFree) : (templateElement n).Balanced := by
  unfold templateElement
  split
  next value _ => simp [h.texts value.raw List.mem_cons_self]
  next => simp

/-- Every hole is in a pair of braces of its own. -/
theorem balanced_interleaved {quasis : List Node} (h : ∀ c ∈ quasis, c.BracketFree)
    (holes : List Node) : (interleaved (.blank rank) quasis holes).Balanced := by
  induction quasis generalizing holes with
  | nil => exact fun _ => rfl
  | cons quasi quasis ih =>
    have hq : (templateElement quasi).Balanced := balanced_templateElement (h _ List.mem_cons_self)
    cases holes with
    | nil =>
      cases quasis with
      | nil => exact hq
      | cons => exact fun _ => rfl
    | cons hole holes =>
      have hrest := ih (fun c hc => h c (List.mem_cons_of_mem _ hc)) holes
      simp_all [interleaved]

/-- Quasis that do not fit the holes are a fault before anything is written. -/
theorem balanced_template {quasis : List Node} (h : ∀ c ∈ quasis, c.BracketFree)
    (holes : List Node) : (template (.blank rank) n quasis holes).Balanced := by
  have hin : (interleaved (.blank rank) quasis holes).Balanced := balanced_interleaved h holes
  simp_all +decide [template]

/-- A template of expressions. -/
theorem balanced_templateLiteral (h : n.BracketFree) :
    (templateLiteral (.blank rank) n).Balanced := by
  unfold templateLiteral
  split
  · exact balanced_template (fun c hc => h.child (by simp [Node.children, hc])) _
  · simp

theorem balanced_templateLiteralType (h : n.BracketFree) :
    (templateLiteralType (.blank rank) n).Balanced := by
  unfold templateLiteralType
  split
  · exact balanced_template (fun c hc => h.child (by simp [Node.children, hc])) _
  · simp

/-- A tag, which may be in parentheses, and a template. -/
theorem balanced_taggedTemplate : (taggedTemplate (.blank rank) n).Balanced := by
  unfold taggedTemplate
  split <;> simp

/-- A hole in a list is a comma. -/
theorem balanced_elementList (es : List (Option Node)) :
    (elementList (.blank rank) es).Balanced := by
  induction es with
  | nil => simp [elementList]
  | cons e rest ih =>
    cases e with
    | none => simp_all +decide [elementList]
    | some c => cases rest <;> simp_all +decide [elementList]

/-- The elements of a list are in brackets. -/
@[simp] theorem dueAfter_elements (es : List (Option Node)) :
    (elements (.blank rank) es).dueAfter due = some due := by
  have hes : (elementList (.blank rank) es).Balanced := balanced_elementList es
  simp_all [elements]

/-- An array is its elements. -/
theorem balanced_arrayExpression : (arrayExpression (.blank rank) n).Balanced := by
  unfold arrayExpression
  split <;> simp

/-- A pattern may have an annotation after them. -/
theorem balanced_arrayPattern : (arrayPattern (.blank rank) n).Balanced := by
  unfold arrayPattern
  split <;> simp

/-- The entries of an object are on lines in braces. -/
@[simp] theorem dueAfter_objectLines (ns : List Node) :
    (objectLines (.blank rank) ns).dueAfter due = some due := by
  simp +decide [objectLines]

/-- An object is its entries. -/
theorem balanced_objectExpression : (objectExpression (.blank rank) n).Balanced := by
  unfold objectExpression
  split <;> simp

/-- The entries of a pattern are in a line in braces. -/
theorem Plain.balanced_objectPattern : (Plain.objectPattern (.blank rank) n).Balanced := by
  unfold Plain.objectPattern
  split <;> simp +decide [objectBraces]

/-- A typed pattern may have an annotation after them. -/
theorem Typed.balanced_objectPattern : (Typed.objectPattern (.blank rank) n).Balanced := by
  unfold Typed.objectPattern
  split <;> simp +decide [objectBraces]

/-- An entry is a method, or a key and a value. -/
theorem balanced_property : (property (.blank rank) n).Balanced := by
  unfold property
  split <;> simp +decide

/-- A sequence is always in parentheses. -/
theorem balanced_sequenceExpression : (sequenceExpression (.blank rank) n).Balanced := by
  unfold sequenceExpression
  split <;> simp

/-- The operator is a text of the node, before or after the operand. -/
theorem balanced_unaryExpression (h : n.BracketFree) :
    (unaryExpression (.blank rank) n).Balanced := by
  unfold unaryExpression
  split
  next operator _ => simp +decide [prefixed, h.texts operator List.mem_cons_self]
  next operator _ => simp [h.texts operator List.mem_cons_self]
  next => simp

/-- The operator of an update is a text of the node, before or after the operand. -/
theorem balanced_updateExpression (h : n.BracketFree) :
    (updateExpression (.blank rank) n).Balanced := by
  unfold updateExpression
  split
  next operator _ => simp [h.texts operator List.mem_cons_self]
  next operator _ => simp [h.texts operator List.mem_cons_self]
  next => simp

/-- The operator of an assignment is a text of the node. -/
theorem balanced_assignmentExpression (h : n.BracketFree) :
    (assignmentExpression (.blank rank) n).Balanced := by
  unfold assignmentExpression
  split
  next operator _ _ => simp +decide [h.texts operator List.mem_cons_self]
  next => simp

/-- A default has a fixed sign. -/
theorem balanced_assignmentPattern : (assignmentPattern (.blank rank) n).Balanced := by
  unfold assignmentPattern
  split <;> simp +decide

/-- A binary expression with the operator `in` is in parentheses as a whole. -/
theorem balanced_binaryExpression (h : n.BracketFree) :
    (binaryExpression (.blank rank) n).Balanced := by
  unfold binaryExpression
  split
  next operator _ _ => simp +decide [infixed, h.texts operator List.mem_cons_self]
  next operator _ _ => simp +decide [infixed, h.texts operator List.mem_cons_self]
  next => simp

/-- The test of a conditional may be in parentheses. -/
theorem balanced_conditionalExpression : (conditionalExpression (.blank rank) n).Balanced := by
  unfold conditionalExpression
  split <;> simp +decide

/-- The callee of a `new` may be in parentheses, the arguments are. -/
theorem Plain.balanced_newExpression : (Plain.newExpression (.blank rank) n).Balanced := by
  unfold Plain.newExpression
  split <;> simp +decide [newCallee]

/-- Type arguments come between them. -/
theorem Typed.balanced_newExpression : (Typed.newExpression (.blank rank) n).Balanced := by
  unfold Typed.newExpression
  split <;> simp +decide [newCallee]

/-- The callee of a call may be in parentheses, the arguments are. -/
theorem Plain.balanced_callExpression : (Plain.callExpression (.blank rank) n).Balanced := by
  unfold Plain.callExpression
  split <;> simp +decide

/-- Type arguments come between them. -/
theorem Typed.balanced_callExpression : (Typed.callExpression (.blank rank) n).Balanced := by
  unfold Typed.callExpression
  split <;> simp +decide

/-- A chain is what it is around. -/
theorem balanced_chainExpression : (chainExpression (.blank rank) n).Balanced := by
  unfold chainExpression
  split <;> simp

/-- A computed member is in brackets. -/
theorem balanced_memberExpression : (memberExpression (.blank rank) n).Balanced := by
  unfold memberExpression
  split <;> simp +decide [memberName]

/-- Two names with a dot between them. -/
theorem balanced_metaProperty (h : n.BracketFree) : (metaProperty n).Balanced := by
  unfold metaProperty
  split
  next object name =>
    intro due
    refine dueAfter_identifierName due (h.child (by simp [Node.children])) fun t ht => ?_
    have hname : name.BracketFree := h.child (by simp [Node.children])
    simp +decide [ht, hname]
  next => simp

/-- The pattern and the flags are texts of the node. -/
theorem balanced_regExp {l : Literal} (h : ∀ t ∈ l.texts, IsFree t) : (regExp n l).Balanced := by
  cases hr : l.regex with
  | none => simp [regExp, hr]
  | some r =>
    have hp : IsFree r.pattern := h _ (by simp [Literal.texts, hr])
    have hf : IsFree r.flags := h _ (by simp [Literal.texts, hr])
    simp +decide [regExp, hr, hp, hf]

/-- A literal is its raw text, an expression, digits, or its value. -/
theorem balanced_literalText {l : Literal} (h : ∀ t ∈ l.texts, IsFree t) :
    (literalText n l).Balanced := by
  unfold literalText
  split
  next raw hraw => exact dueAfter_of_isFree (h raw (by simp [Literal.texts, hraw]))
  next => exact balanced_regExp h
  next digits _ _ hdigits =>
    have hd : IsFree digits := h digits (by simp [Literal.texts, hdigits])
    simp +decide [hd]
  next => exact fun due => dueAfter_value due h

/-- A literal is its text. -/
theorem balanced_literal (h : n.BracketFree) : (literal n).Balanced := by
  unfold literal
  split
  · exact balanced_literalText h.texts
  · exact balanced_literalText h.texts
  · simp

/-- A regular expression that lacks one is a fault. -/
theorem balanced_regExpLiteral (h : n.BracketFree) : (regExpLiteral n).Balanced := by
  unfold regExpLiteral
  split
  · exact balanced_regExp h.texts
  · exact balanced_regExp h.texts
  · simp

/-- What is asserted may be in parentheses. -/
@[simp] theorem dueAfter_asserted (operand : Node) :
    (asserted (.blank rank) operand).dueAfter due = some due := by
  simp [asserted]

/-- An `as` is in parentheses as a whole. -/
theorem balanced_asExpression : (asExpression (.blank rank) n).Balanced := by
  unfold asExpression
  split <;> simp +decide

/-- A `satisfies` is not. -/
theorem balanced_satisfiesExpression : (satisfiesExpression (.blank rank) n).Balanced := by
  unfold satisfiesExpression
  split <;> simp +decide

/-- Angles are no brackets of the nesting. -/
theorem balanced_typeAssertion : (typeAssertion (.blank rank) n).Balanced := by
  unfold typeAssertion
  split <;> simp +decide

theorem balanced_nonNullExpression : (nonNullExpression (.blank rank) n).Balanced := by
  unfold nonNullExpression
  split <;> simp +decide

/-! ## §6. Declarations of types. -/

/-- An interface may extend others. -/
theorem balanced_interfaceDeclaration (h : n.BracketFree) :
    (interfaceDeclaration (.blank rank) n).Balanced := by
  unfold interfaceDeclaration
  split
  next i =>
    have hid : i.id.BracketFree := h.child (by simp [Node.children])
    simp +decide [hid]
  next => simp

/-- The members of an interface are on lines in braces. -/
theorem balanced_interfaceBody : (interfaceBody (.blank rank) n).Balanced := by
  have hline : ∀ due, (Doc.nil ++ ";" : Doc).line.dueAfter due = some due := fun due => by
    simp +decide [Doc.line]
  unfold interfaceBody
  split <;> simp [hline]

/-- A name with type arguments. -/
theorem balanced_heritage : (heritage (.blank rank) n).Balanced := by
  unfold heritage
  split <;> simp

/-- The members of a type are in a line in braces. -/
theorem balanced_typeLiteral : (typeLiteral (.blank rank) n).Balanced := by
  unfold typeLiteral
  split <;> simp +decide

/-- The key may be in brackets. -/
theorem balanced_propertySignature : (propertySignature (.blank rank) n).Balanced := by
  unfold propertySignature
  split <;> simp +decide

/-- The parameters are in parentheses, and the key may be in brackets. -/
theorem balanced_methodSignature (h : n.BracketFree) :
    (methodSignature (.blank rank) n).Balanced := by
  unfold methodSignature
  split
  next m => simp +decide [h.texts m.kind List.mem_cons_self]
  next => simp

/-- The parameters are in brackets. -/
theorem balanced_indexSignature : (indexSignature (.blank rank) n).Balanced := by
  unfold indexSignature
  split <;> simp +decide

/-- The parameters are in parentheses. -/
theorem balanced_callSignature : (callSignature (.blank rank) n).Balanced := by
  unfold callSignature
  split <;> simp +decide [signatureOf]

/-- A name, its type parameters and a type. -/
theorem balanced_typeAlias (h : n.BracketFree) : (typeAlias (.blank rank) n).Balanced := by
  unfold typeAlias
  split
  next id _ _ _ =>
    have hid : id.BracketFree := h.child (by simp [Node.children])
    simp +decide [hid]
  next => simp

/-- The members of an enumeration are in braces. -/
theorem balanced_enumDeclaration (h : n.BracketFree) :
    (enumDeclaration (.blank rank) n).Balanced := by
  unfold enumDeclaration
  split
  next e =>
    have hid : e.id.BracketFree := h.child (by simp [Node.children])
    simp +decide [hid]
  next => simp

/-- The key may be in brackets. -/
theorem balanced_enumMember : (enumMember (.blank rank) n).Balanced := by
  unfold enumMember
  split <;> simp +decide

/-! ## §7. Types. -/

/-- An annotation is the type in it. -/
theorem balanced_typeAnnot : (typeAnnot (.blank rank) n).Balanced := by
  unfold typeAnnot
  split <;> simp

/-- A keyword is a fixed word. -/
theorem balanced_keywordType : (keywordType n).Balanced := by
  unfold keywordType
  split
  next k => cases k <;> exact dueAfter_of_isFree (by decide)
  next => simp

/-- A literal as a type. -/
theorem balanced_literalType : (literalType (.blank rank) n).Balanced := by
  unfold literalType
  split <;> simp

/-- A name with type arguments. -/
theorem balanced_typeReference : (typeReference (.blank rank) n).Balanced := by
  unfold typeReference
  split <;> simp

/-- Two names with a dot between them. -/
theorem balanced_qualifiedName : (qualifiedName (.blank rank) n).Balanced := by
  unfold qualifiedName
  split <;> simp +decide

/-- A word before a name with type arguments. -/
theorem balanced_typeQuery : (typeQuery (.blank rank) n).Balanced := by
  unfold typeQuery
  split <;> simp +decide

/-- A member of a union may be in parentheses. -/
@[simp] theorem dueAfter_memberType (wrapped : List Kind) (type : Node) :
    (memberType (.blank rank) wrapped type).dueAfter due = some due := by
  simp [memberType]

/-- Members with bars between them. -/
theorem balanced_unionType : (unionType (.blank rank) n).Balanced := by
  unfold unionType
  split <;> simp +decide

/-- Members with signs between them. -/
theorem balanced_intersectionType : (intersectionType (.blank rank) n).Balanced := by
  unfold intersectionType
  split <;> simp +decide

/-- The pair of brackets after the type of the elements is one text. -/
theorem balanced_arrayType : (arrayType (.blank rank) n).Balanced := by
  unfold arrayType
  split <;> simp

/-- An index is in brackets. -/
theorem balanced_indexedAccessType : (indexedAccessType (.blank rank) n).Balanced := by
  unfold indexedAccessType
  split <;> simp

/-- The operator is a text of the node. -/
theorem balanced_typeOperator (h : n.BracketFree) :
    (typeOperator (.blank rank) n).Balanced := by
  unfold typeOperator
  split
  next operator _ => simp +decide [h.texts operator List.mem_cons_self]
  next => simp

theorem balanced_parenthesizedType : (parenthesizedType (.blank rank) n).Balanced := by
  unfold parenthesizedType
  split <;> simp

/-- The elements of a tuple are in brackets. -/
theorem balanced_tupleType : (tupleType (.blank rank) n).Balanced := by
  unfold tupleType
  split <;> simp +decide

theorem balanced_optionalType : (optionalType (.blank rank) n).Balanced := by
  unfold optionalType
  split <;> simp +decide

theorem balanced_restType : (restType (.blank rank) n).Balanced := by
  unfold restType
  split <;> simp +decide

theorem balanced_namedTupleMember : (namedTupleMember (.blank rank) n).Balanced := by
  unfold namedTupleMember
  split <;> simp +decide

/-- The parameters are in parentheses, the result comes after an arrow. -/
theorem balanced_functionType : (functionType (.blank rank) n).Balanced := by
  unfold functionType
  split <;> simp +decide [functionTypeOf, functionTypeHead]

/-- Four types with words and signs between them. -/
theorem balanced_conditionalType : (conditionalType (.blank rank) n).Balanced := by
  unfold conditionalType
  split <;> simp +decide

/-- A word before a type parameter. -/
theorem balanced_inferType : (inferType (.blank rank) n).Balanced := by
  unfold inferType
  split <;> simp +decide

/-- A name, a word and a type. -/
theorem balanced_typePredicate : (typePredicate (.blank rank) n).Balanced := by
  unfold typePredicate
  split <;> simp +decide

/-- The name is a text of the node, or a node. -/
theorem balanced_typeParameterName {p : TypeParameter}
    (h : (Node.tsTypeParameter p).BracketFree) :
    (typeParameterName (.blank rank) p.name).Balanced := by
  obtain ⟨name, _, _, _, _, _⟩ := p
  cases name with
  | node c => simp [typeParameterName]
  | plain name => simp [typeParameterName, h.texts name List.mem_cons_self]

/-- Words before the name, a constraint and a default after it. -/
theorem balanced_typeParameter (h : n.BracketFree) :
    (typeParameter (.blank rank) n).Balanced := by
  unfold typeParameter
  split
  next p =>
    have hname : (typeParameterName (.blank rank) p.name).Balanced := balanced_typeParameterName h
    simp_all +decide
  next => simp

/-- Angles are no brackets of the nesting. -/
theorem balanced_typeParameters : (typeParameters (.blank rank) n).Balanced := by
  unfold typeParameters
  split <;> simp +decide

/-- A modifier is a sign, which is a text of the node, and a word. -/
theorem balanced_mappedModifier (m : Option MappedModifier) (word : String) (h : IsFree word) :
    (mappedModifier m word).Balanced := by
  intro due
  refine Doc.dueAfter_ofOption due fun lead hlead => ?_
  obtain ⟨m, rfl, hm⟩ := Option.bind_eq_some_iff.mp hlead
  have hl : IsFree lead := by
    unfold MappedModifier.lead? at hm
    split at hm
    · cases hm
      decide
    · cases hm
    · next s =>
      split at hm
      next hs =>
        cases hm
        rcases hs with rfl | rfl <;> decide
      next =>
        cases hm
        decide
  simp [hl, h]

/-- The variable comes from one of two places. -/
theorem balanced_mappedKey {m : MappedType} (h : (Node.tsMappedType m).BracketFree) :
    (mappedKey (.blank rank) n m).Balanced := by
  unfold mappedKey
  split
  next p hp =>
    have hname : (typeParameterName (.blank rank) p.name).Balanced :=
      balanced_typeParameterName (h.child (by simp [Node.children, hp]))
    simp_all +decide
  all_goals simp +decide

/-- A mapped type has a pair of braces and in it a pair of brackets. -/
theorem balanced_mappedType (h : n.BracketFree) : (mappedType (.blank rank) n).Balanced := by
  unfold mappedType
  split
  next m =>
    have hkey : (mappedKey (.blank rank) (.tsMappedType m) m).Balanced := balanced_mappedKey h
    have hread := balanced_mappedModifier m.readonly "readonly " (by decide)
    have hopt := balanced_mappedModifier m.optional "?" (by decide)
    simp_all +decide
  next => simp

end Emit

/-! ## §8. All procedures. -/

open Emit in
/-- **The skeleton of a node closes what it opens** if no text of the node has brackets. -/
theorem Procedure.balanced_blank (p : Procedure) {n : Node} (h : n.BracketFree)
    (rank : Kind → Option Rank) : (p.doc (.blank rank) n).Balanced := by
  cases p with
  -- statements
  | emptyStatement | debuggerStatement | thisExpression | superExpression =>
    exact dueAfter_of_isFree (by decide)
  | program => exact balanced_program
  | block => exact balanced_block
  | staticBlock => exact balanced_staticBlock
  | expressionStatement => exact balanced_expressionStatement
  | ifStatement => exact balanced_ifStatement
  | labeledStatement => exact balanced_labeledStatement
  | jump => exact balanced_jump
  | withStatement => exact balanced_withStatement
  | switchStatement => exact balanced_switchStatement
  | returnStatement => exact balanced_returnStatement
  | throwStatement => exact balanced_throwStatement
  | tryStatement => exact balanced_tryStatement
  | whileStatement => exact balanced_whileStatement
  | doWhileStatement => exact balanced_doWhileStatement
  | forStatement => exact balanced_forStatement h
  | forEach => exact balanced_forEach h
  -- functions, variables and classes
  | function d =>
    cases d with
    | plain => exact Plain.balanced_function h
    | typed => exact Typed.balanced_function h
  | bodilessFunction => exact balanced_bodilessFunction h
  | arrowFunction d =>
    cases d with
    | plain => exact Plain.balanced_arrowFunction h
    | typed => exact Typed.balanced_arrowFunction
  | variableDeclaration d =>
    cases d with
    | plain => exact Plain.balanced_variableDeclaration h
    | typed => exact Typed.balanced_variableDeclaration h
  | variableDeclarator d =>
    cases d with
    | plain => exact Plain.balanced_variableDeclarator
    | typed => exact Typed.balanced_variableDeclarator h
  | classLike d =>
    cases d with
    | plain => exact Plain.balanced_classLike h
    | typed => exact Typed.balanced_classLike h
  | classExpression => exact balanced_classExpression
  | method d =>
    cases d with
    | plain => exact Plain.balanced_method h
    | typed => exact Typed.balanced_method h
  | classField d =>
    cases d with
    | plain => exact Plain.balanced_classField
    | typed => exact Typed.balanced_classField h
  | parameterProperty => exact balanced_parameterProperty h
  | decorator => exact balanced_decorator
  -- imports, exports and namespaces
  | importDeclaration d => exact balanced_importDeclaration d h
  | importAttribute => exact balanced_importAttribute
  | importExpression d =>
    cases d with
    | plain => exact Plain.balanced_importExpression
    | typed => exact Typed.balanced_importExpression
  | exportNamed d => exact balanced_exportNamed d h
  | exportDefault => exact balanced_exportDefault
  | exportAll d => exact balanced_exportAll d h
  | moduleDeclaration => exact balanced_moduleDeclaration h
  | moduleBlock => exact balanced_moduleBlock
  -- expressions and patterns
  | restElement d =>
    cases d with
    | plain => exact Plain.balanced_restElement
    | typed => exact Typed.balanced_restElement
  | yieldExpression => exact balanced_yieldExpression
  | awaitExpression => exact balanced_awaitExpression
  | templateLiteral => exact balanced_templateLiteral h
  | templateElement => exact balanced_templateElement h
  | taggedTemplate => exact balanced_taggedTemplate
  | arrayExpression => exact balanced_arrayExpression
  | arrayPattern => exact balanced_arrayPattern
  | objectExpression => exact balanced_objectExpression
  | objectPattern d =>
    cases d with
    | plain => exact Plain.balanced_objectPattern
    | typed => exact Typed.balanced_objectPattern
  | property => exact balanced_property
  | sequenceExpression => exact balanced_sequenceExpression
  | unaryExpression => exact balanced_unaryExpression h
  | updateExpression => exact balanced_updateExpression h
  | assignmentExpression => exact balanced_assignmentExpression h
  | assignmentPattern => exact balanced_assignmentPattern
  | binaryExpression => exact balanced_binaryExpression h
  | conditionalExpression => exact balanced_conditionalExpression
  | newExpression d =>
    cases d with
    | plain => exact Plain.balanced_newExpression
    | typed => exact Typed.balanced_newExpression
  | callExpression d =>
    cases d with
    | plain => exact Plain.balanced_callExpression
    | typed => exact Typed.balanced_callExpression
  | chainExpression => exact balanced_chainExpression
  | memberExpression => exact balanced_memberExpression
  | metaProperty => exact balanced_metaProperty h
  | identifier d =>
    cases d with
    | plain => exact Plain.balanced_identifier h
    | typed => exact Typed.balanced_identifier h
  | privateIdentifier => exact balanced_privateIdentifier h
  | literal => exact balanced_literal h
  | regExpLiteral => exact balanced_regExpLiteral h
  -- typed expressions and declarations of types
  | asExpression => exact balanced_asExpression
  | satisfiesExpression => exact balanced_satisfiesExpression
  | typeAssertion => exact balanced_typeAssertion
  | nonNullExpression => exact balanced_nonNullExpression
  | interfaceDeclaration => exact balanced_interfaceDeclaration h
  | interfaceBody => exact balanced_interfaceBody
  | heritage => exact balanced_heritage
  | typeAlias => exact balanced_typeAlias h
  | enumDeclaration => exact balanced_enumDeclaration h
  | enumMember => exact balanced_enumMember
  | typeLiteral => exact balanced_typeLiteral
  | propertySignature => exact balanced_propertySignature
  | methodSignature => exact balanced_methodSignature h
  | indexSignature => exact balanced_indexSignature
  | callSignature => exact balanced_callSignature
  -- types
  | typeAnnot => exact balanced_typeAnnot
  | keywordType => exact balanced_keywordType
  | literalType => exact balanced_literalType
  | templateLiteralType => exact balanced_templateLiteralType h
  | typeReference => exact balanced_typeReference
  | qualifiedName => exact balanced_qualifiedName
  | typeQuery => exact balanced_typeQuery
  | unionType => exact balanced_unionType
  | intersectionType => exact balanced_intersectionType
  | functionType => exact balanced_functionType
  | tupleType => exact balanced_tupleType
  | optionalType => exact balanced_optionalType
  | restType => exact balanced_restType
  | parenthesizedType => exact balanced_parenthesizedType
  | namedTupleMember => exact balanced_namedTupleMember
  | arrayType => exact balanced_arrayType
  | indexedAccessType => exact balanced_indexedAccessType
  | typeOperator => exact balanced_typeOperator h
  | conditionalType => exact balanced_conditionalType
  | inferType => exact balanced_inferType
  | typePredicate => exact balanced_typePredicate
  | mappedType => exact balanced_mappedType h
  | typeParameters => exact balanced_typeParameters
  | typeParameter => exact balanced_typeParameter h

end Estree
