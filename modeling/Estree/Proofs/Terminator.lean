import Estree.Proofs.Dispatch

/-!
# How statements end

A statement ends where the statement inside it that comes last ends: the alternate of a conditional,
the body of a loop, the declaration of an export. What comes last of all ends with a semicolon or a
closing brace of its own (`Doc.Closes`), but for one: a default export of an expression is
terminated only if its kind has a rank, and three kinds of expressions have none (`unrankedKinds`).
Such an export leaves the expression bare at the end of the text (`generate_endsStatement`), and the
next line goes on with it (`generate_defaultImport`).

Main results:

* `IsStatement.finishes`: every statement ends where its last part ends.
* `generate_endsStatement`: it is terminated, but for one form.
* `generate_defaultImport`: a text of this form.
-/

namespace Estree

/-- The text ends with a semicolon or a closing brace. -/
def EndsStatement (text : String) : Prop := text.toList.getLast? ∈ [some ';', some '\x7d']

instance (text : String) : Decidable (EndsStatement text) :=
  inferInstanceAs (Decidable (_ ∈ _))

/-- What stands before does not matter. -/
theorem EndsStatement.append {b : String} (h : EndsStatement b) (a : String) :
    EndsStatement (a ++ b) := by
  rw [EndsStatement, String.toList_append, List.getLast?_append]
  unfold EndsStatement at h
  cases hb : b.toList.getLast? with
  | none =>
    rw [hb] at h
    exact absurd h (by decide)
  | some c =>
    rw [hb] at h
    exact h

/-! ## §1. The ends of documents. -/

namespace Doc

/-- If the document is written to its end, its text ends a statement. -/
def Closes (d : Doc) : Prop :=
  d.halt? = none → ∀ (l : Layout) (level : Level),
    EndsStatement (Piece.renderAll l (d.pieces level))

/-- If the document `d` is written to its end, so is `e`; the text of `d` ends with that of `e`, and
writing then stands at the same level. -/
def EndsLike (d e : Doc) : Prop :=
  d.halt? = none → e.halt? = none ∧ ∀ (l : Layout) (level : Level), ∃ (before : String)
    (level' : Level),
    Piece.renderAll l (d.pieces level) = before ++ Piece.renderAll l (e.pieces level') ∧
      d.levelAfter level.now = e.levelAfter level'.now

namespace EndsLike

variable {a b c : Doc}

/-- A document ends like itself. -/
theorem refl (d : Doc) : EndsLike d d := fun h => ⟨h, fun _ level => ⟨"", level, by simp, rfl⟩⟩

/-- Ending alike goes from one document to the next. -/
theorem trans (h : EndsLike a b) (h' : EndsLike b c) : EndsLike a c := by
  intro ha
  obtain ⟨hb, htext⟩ := h ha
  obtain ⟨hc, htext'⟩ := h' hb
  refine ⟨hc, fun l level => ?_⟩
  obtain ⟨before, level₁, heq, hlevel⟩ := htext l level
  obtain ⟨before', level₂, heq', hlevel'⟩ := htext' l level₁
  exact ⟨before ++ before', level₂, by rw [heq, heq', String.append_assoc], hlevel.trans hlevel'⟩

/-- A document that is put after another ends it. -/
theorem append (a : Doc) (h : EndsLike b c) : EndsLike (a ++ b) c := by
  intro hab
  obtain ⟨ha, hb, -⟩ := renderAll_pieces_append hab {} .start
  obtain ⟨hc, htext⟩ := h hb
  refine ⟨hc, fun l level => ?_⟩
  obtain ⟨before, level', heq, hlevel⟩ := htext l (a.after level)
  refine ⟨Piece.renderAll l (a.pieces level) ++ before, level', ?_, ?_⟩
  · rw [(renderAll_pieces_append hab l level).2.2, heq, String.append_assoc]
  · rw [levelAfter_append, ha]
    exact hlevel

/-- Nothing at the end changes nothing. -/
theorem append_nil (a : Doc) : EndsLike (a ++ .nil) a := by
  intro h
  obtain ⟨ha, -⟩ := Option.or_eq_none_iff.mp h
  refine ⟨ha, fun l level => ⟨"", level, ?_, ?_⟩⟩
  · simp [pieces_append, ha, pieces]
  · simp [levelAfter_append, ha, levelAfter]

/-- Of steady documents both stand at the level at which they end, so the text of `d` ends with that
of `e` at the same level. -/
theorem exists_before (h : EndsLike a b) (ha : a.Steady) (hb : b.Steady) (hh : a.halt? = none)
    (l : Layout) (level : Level) : ∃ before,
      Piece.renderAll l (a.pieces level) = before ++ Piece.renderAll l (b.pieces level) := by
  obtain ⟨hhb, htext⟩ := h hh
  obtain ⟨before, level', heq, hlevel⟩ := htext l level
  have hnow : level'.now = level.now := by
    have hstart := ha.ends hh level.now
    have hend := hb.ends hhb level'.now
    simp only [Nat.add_zero] at hstart hend
    rw [← hend, ← hlevel, hstart]
  have hpieces : b.pieces level' = b.pieces level := by
    have hforgets := hb.forgets rfl level'.now level'.anchor level.anchor
    simp only [Nat.add_zero, hnow] at hforgets
    rw [← hforgets, ← hnow]
  exact ⟨before, hpieces ▸ heq⟩

end EndsLike

namespace Closes

variable {a b : Doc}

/-- What ends like a closed document is closed. -/
theorem of_endsLike (h : EndsLike a b) (hb : b.Closes) : a.Closes := by
  intro ha l level
  obtain ⟨hhalt, htext⟩ := h ha
  obtain ⟨before, level', heq, -⟩ := htext l level
  rw [heq]
  exact (hb hhalt l level').append before

/-- A text that ends a statement. -/
theorem text {s : String} (h : EndsStatement s) : (Doc.text s).Closes := by
  intro _ l level
  simpa [pieces, Piece.render] using h

/-- What stands before a closed document does not matter. -/
theorem append (a : Doc) (hb : b.Closes) : (a ++ b).Closes := of_endsLike (.append a (.refl b)) hb

/-- Remembering a depth does not matter. -/
theorem anchored (h : a.Closes) :
    a.anchored.Closes := fun ha l level => h ha l ⟨level.now, level.now⟩

/-- A brace closes. -/
theorem braces (d : Doc) : d.braces.Closes := append _ (text (by decide))

/-- A document that stops has no end. -/
theorem of_halt {h : Halt} (ha : a.halt? = some h) : a.Closes :=
  fun hnone => nomatch ha.symm.trans hnone

/-- A part that may be absent ends a statement if it does so when it is there. -/
theorem append_ofOption {α : Type} (ha : a.Closes) (o : Option α) {f : α → Doc}
    (hf : ∀ x, o = some x → (f x).Closes) : (a ++ ofOption o f).Closes := by
  cases o with
  | none => exact of_endsLike (.append_nil a) ha
  | some x => exact append a (hf x rfl)

end Closes

end Doc

namespace Terminator

open Dialect (doc doc_eq)

/-! ## §2. Statements. -/

/-- The kinds of expressions. -/
def expressionKinds : List Kind :=
  [.thisExpression, .super, .yieldExpression, .awaitExpression, .templateLiteral,
    .taggedTemplateExpression, .arrayExpression, .objectExpression, .sequenceExpression,
    .unaryExpression, .updateExpression, .assignmentExpression, .binaryExpression,
    .logicalExpression, .conditionalExpression, .newExpression, .callExpression, .chainExpression,
    .memberExpression, .metaProperty, .importExpression, .identifier, .privateIdentifier, .literal,
    .regExpLiteral, .functionExpression, .arrowFunctionExpression, .classExpression,
    .tsAsExpression, .tsSatisfiesExpression, .tsTypeAssertion, .tsNonNullExpression]

/-- The kinds of expressions that the plain dialect writes and that have no rank. -/
def unrankedKinds : List Kind := [.importExpression, .metaProperty, .regExpLiteral]

/-- Whether a node is a block of statements. -/
def isBlock : Node → Bool
  | .block .statement _ => true
  | _ => false

/-- The body of a function, if it has one, is a block. -/
def HasBlock (f : FunctionLike) : Prop := ∀ body, f.body = some body → isBlock body = true

/-- What can stand after `export` as it is. -/
def declarationKinds : List Kind := [.variableDeclaration, .functionDeclaration, .classDeclaration]

/-- The statements. Where a statement has to stand there is one, and the bodies of functions and the
parts of a `try` are blocks; nothing is asked of statements in a block, of expressions and of names.
-/
inductive IsStatement : Node → Prop where
  | block {body : List Node} : IsStatement (.block .statement body)
  | initializer {body : List Node} : IsStatement (.block .static body)
  | empty : IsStatement .emptyStatement
  | debugger : IsStatement .debuggerStatement
  | expression {e : Node} {directive : Option String} :
      IsStatement (.expressionStatement e directive)
  | when {test c : Node} : IsStatement c → IsStatement (.ifStatement test c none)
  | choice {test c a : Node} : IsStatement c → IsStatement a →
      IsStatement (.ifStatement test c (some a))
  | labeled {label body : Node} : IsStatement body → IsStatement (.labeledStatement label body)
  | leave {label : Option Node} : IsStatement (.breakStatement label)
  | next {label : Option Node} : IsStatement (.continueStatement label)
  | scope {object body : Node} : IsStatement body → IsStatement (.withStatement object body)
  | switch {discriminant : Node} {cases : List SwitchCase} :
      IsStatement (.switchStatement discriminant cases)
  | answer {argument : Option Node} : IsStatement (.returnStatement argument)
  | raise {argument : Node} : IsStatement (.throwStatement argument)
  | attempt {tried : Node} {clause : Option CatchClause} {finalizer : Option Node} :
      isBlock tried = true → (∀ c, clause = some c → isBlock c.body = true) →
      (∀ n, finalizer = some n → isBlock n = true) →
      IsStatement (.tryStatement tried clause finalizer)
  | loop {test body : Node} : IsStatement body → IsStatement (.whileStatement test body)
  | loopLast {test body : Node} : IsStatement body → IsStatement (.doWhileStatement test body)
  | loopFor {init test update : Option Node} {body : Node} : IsStatement body →
      IsStatement (.forStatement init test update body)
  | loopIn {left right body : Node} {await : Bool} : IsStatement body →
      IsStatement (.forInStatement left right body await)
  | loopOf {left right body : Node} {await : Bool} : IsStatement body →
      IsStatement (.forOfStatement left right body await)
  | function {f : FunctionLike} : HasBlock f → IsStatement (.function .declaration f)
  | bindings {kind : String} {declarations : List Node} {declare : Bool} :
      IsStatement (.variableDeclaration kind declarations declare)
  | classes {c : ClassLike} : IsStatement (.classDeclaration c)
  | imports {specifiers : List Node} {source : Node} {kind : Option String}
      {attributes : List Node} : IsStatement (.importDeclaration specifiers source kind attributes)
  | exportNames {e : ExportNamed} : e.declaration = none → IsStatement (.exportNamedDeclaration e)
  | exportDeclaration {e : ExportNamed} {n : Node} : e.declaration = some n →
      n.kind ∈ declarationKinds → IsStatement n → IsStatement (.exportNamedDeclaration e)
  | exportDefault {n : Node} : n.kind ∈ [.functionDeclaration, .classDeclaration] → IsStatement n →
      IsStatement (.exportDefaultDeclaration n)
  | exportExpression {e : Node} : e.kind ∈ expressionKinds →
      (∀ f, e = .function .expression f → HasBlock f) → IsStatement (.exportDefaultDeclaration e)
  | exportAll {exported : Option Node} {source : Node} {kind : Option String}
      {attributes : List Node} : IsStatement (.exportAllDeclaration exported source kind attributes)

/-- The expression without a rank that a default export leaves bare at the end of a statement, if
there is one. -/
def bareExport? : Node → Option Node
  | .ifStatement _ _ (some alternate) => bareExport? alternate
  | .ifStatement _ consequent none => bareExport? consequent
  | .labeledStatement _ body | .withStatement _ body | .whileStatement _ body => bareExport? body
  | .forStatement _ _ _ body => bareExport? body
  | .forInStatement _ _ body _ | .forOfStatement _ _ body _ => bareExport? body
  | .exportDefaultDeclaration e => if e.kind ∈ unrankedKinds then some e else none
  | _ => none

/-! ## §3. The end of a statement. -/

/-- A block is closed. -/
theorem closes_of_isBlock {n : Node} (h : isBlock n = true) : (doc .plain n).Closes := by
  unfold isBlock at h
  split at h
  · rw [doc_eq rfl]
    exact .braces _
  · cases h

/-- Whatever writes the body of a class ends with a brace. -/
theorem closes_classBody (n : Node) : (Grammar.javaScript.scope.emitAs .classBody n).Closes := by
  rw [Grammar.scope_emitAs]
  change (Emit.block Grammar.javaScript.scope n).Closes
  unfold Emit.block
  split
  · exact .braces _
  · exact .braces _
  · exact .of_halt rfl

/-- A function with a body is. -/
theorem closes_function {n : Node} {f : FunctionLike} (h : HasBlock f) :
    (Emit.Plain.functionWithBody Grammar.javaScript.scope n f).Closes := by
  unfold Emit.Plain.functionWithBody
  refine .append _ ?_
  split
  · next body hbody => exact closes_of_isBlock (h body hbody)
  · exact .of_halt rfl

/-- The kinds without a rank are the three. -/
theorem rank_isSome {k : Kind} (h : k ∈ expressionKinds) (hk : k ∉ unrankedKinds)
    (hb : (Registry.base.get? k).isSome) : (PrecedenceTable.javaScript.rank k).isSome := by
  revert h hk hb
  cases k <;> decide

/-- What is at the end of a document: its own end, or a default export that leaves an expression
bare. -/
def Finishes (d : Doc) : Option Node → Prop
  | none => d.Closes
  | some e => d.EndsLike ("export default " ++ doc .plain e)

/-- What ends like something finished is finished. -/
theorem Finishes.of_endsLike {a b : Doc} {o : Option Node} (h : a.EndsLike b) (hb : Finishes b o) :
    Finishes a o := by
  cases o with
  | none => exact Doc.Closes.of_endsLike h hb
  | some e => exact h.trans hb

/-- The class ends with its body. -/
theorem closes_class (c : ClassLike) : (Emit.Plain.classOf Grammar.javaScript.scope c).Closes :=
  .append _ (closes_classBody c.body)

/-- A function or class is closed by its body. -/
theorem closes_of_isDeclarationLike {n : Node} (h : Emit.isDeclarationLike n = true)
    (hf : ∀ form f, n = .function form f → HasBlock f) : (doc .plain n).Closes := by
  unfold Emit.isDeclarationLike at h
  split at h
  · rw [doc_eq rfl]
    exact closes_function (hf _ _ rfl)
  · rw [doc_eq rfl]
    exact closes_function (hf _ _ rfl)
  · rw [doc_eq rfl]
    exact closes_class _
  · -- a class expression is handed on as a class declaration
    rw [doc_eq rfl]
    change (Grammar.javaScript.scope.emitAs .classDeclaration _).Closes
    rw [Grammar.scope_emitAs]
    exact closes_class _
  · cases h

/-- What stands after `export default`, and the terminator after it. -/
theorem doc_exportDefault (n : Node) : doc .plain (.exportDefaultDeclaration n) =
    "export default " ++ doc .plain n ++ .onlyIf
      ((PrecedenceTable.javaScript.rank n.kind).isSome && !Emit.isDeclarationLike n) ";" := by
  rw [doc_eq rfl]
  rfl

/-- A default export that is not terminated ends as what it exports. -/
theorem endsLike_exportDefault {n : Node}
    (h : ((PrecedenceTable.javaScript.rank n.kind).isSome && !Emit.isDeclarationLike n) = false) :
    (doc .plain (.exportDefaultDeclaration n)).EndsLike ("export default " ++ doc .plain n) := by
  rw [doc_exportDefault, h]
  exact .append_nil _

/-- The export of a declaration is closed by it. -/
theorem closes_exportDefault {n : Node} (h : Emit.isDeclarationLike n = true)
    (hf : ∀ form f, n = .function form f → HasBlock f) :
    (doc .plain (.exportDefaultDeclaration n)).Closes := by
  refine .of_endsLike (endsLike_exportDefault (by simp [h])) ?_
  exact .append _ (closes_of_isDeclarationLike h hf)

/-- A default export of an expression: with a terminator if there is a rank, and bare if not. -/
theorem finishes_exportExpression {e : Node} (he : e.kind ∈ expressionKinds)
    (hf : ∀ f, e = .function .expression f → HasBlock f) :
    Finishes (doc .plain (.exportDefaultDeclaration e))
      (bareExport? (.exportDefaultDeclaration e)) := by
  rw [bareExport?]
  split
  next hk =>
    -- no terminator is written without a rank, so this ends as the expression does
    have hnone : ∀ k ∈ unrankedKinds, (PrecedenceTable.javaScript.rank k).isSome = false := by
      decide
    exact endsLike_exportDefault (by rw [hnone _ hk, Bool.false_and])
  next hk =>
    change (doc .plain (.exportDefaultDeclaration e)).Closes
    cases hd : Emit.isDeclarationLike e with
    | true =>
      have hform : ∀ form : FunctionForm, form.kind ∈ expressionKinds → form = .expression := by
        intro form
        cases form <;> decide
      refine closes_exportDefault hd fun form f heq => ?_
      subst heq
      obtain rfl := hform form he
      exact hf f rfl
    | false =>
      cases hp : Registry.base.get? e.kind with
      | none =>
        -- what is not written has no end
        have hhalt : (doc .plain e).halt? = _ := Grammar.halt?_of_unbound (g := .javaScript) hp
        refine .of_halt (h := .error (.unsupported e.kind e)) ?_
        rw [doc_exportDefault, Doc.halt?_append, Doc.halt?_append, hhalt]
        rfl
      | some p =>
        rw [doc_exportDefault, rank_isSome he hk (by simp [hp]), hd]
        exact .append _ (.text (by decide))

/-- A declaration leaves nothing bare. -/
theorem bareExport?_of_declaration {n : Node} (h : n.kind ∈ declarationKinds) :
    bareExport? n = none := by
  unfold bareExport?
  split
  all_goals first
    | rfl
    | exact absurd h (by simp [Node.kind, declarationKinds])

/-- **Every statement ends where its last part ends.** The induction is on the statement; a form
that ends with a statement ends as that one does. -/
theorem IsStatement.finishes {n : Node} (h : IsStatement n) :
    Finishes (doc .plain n) (bareExport? n) := by
  induction h with
  | block =>
    rw [doc_eq rfl]
    exact .braces _
  | initializer =>
    rw [doc_eq rfl]
    exact .append _ (.braces _)
  | empty | debugger =>
    rw [doc_eq rfl]
    exact .text (by decide)
  | expression | leave | next | answer | raise | bindings | loopLast | imports | exportAll =>
    rw [doc_eq rfl]
    exact .append _ (.text (by decide))
  | switch =>
    rw [doc_eq rfl]
    exact .anchored (.append _ (.text (by decide)))
  | when _ ih =>
    refine .of_endsLike ?_ ih
    rw [doc_eq rfl]
    exact .trans (.append_nil _) (.append _ (.refl _))
  | choice _ _ _ ih =>
    refine .of_endsLike ?_ ih
    rw [doc_eq rfl]
    exact .append _ (.append _ (.refl _))
  | labeled _ ih | scope _ ih | loop _ ih | loopFor _ ih | loopIn _ ih | loopOf _ ih =>
    refine .of_endsLike ?_ ih
    rw [doc_eq rfl]
    exact .append _ (.refl _)
  | attempt htried hclause hfinalizer =>
    rw [doc_eq rfl]
    -- all three parts end with a block, whichever of them is the last
    refine .append_ofOption (.append_ofOption (.append _ (closes_of_isBlock htried)) _ ?_) _ ?_
    · intro c hc
      exact .append _ (closes_of_isBlock (hclause c hc))
    · intro n hn
      exact .append _ (closes_of_isBlock (hfinalizer n hn))
  | function hf =>
    rw [doc_eq rfl]
    exact closes_function hf
  | classes =>
    rw [doc_eq rfl]
    exact closes_class _
  | exportNames hnone =>
    rw [doc_eq rfl]
    simp only [Procedure.doc, Emit.exportNamed, hnone]
    exact .append _ (.append _ (.text (by decide)))
  | exportDeclaration hsome hk _ ih =>
    rw [doc_eq rfl]
    simp only [Procedure.doc, Emit.exportNamed, hsome]
    -- the declaration is no default export, so it ends by itself
    rw [bareExport?_of_declaration hk] at ih
    exact .append _ ih
  | exportDefault hk h =>
    cases h with
    | function hf => exact closes_exportDefault rfl fun _ _ heq => by cases heq; exact hf
    | classes => exact closes_exportDefault rfl fun _ _ heq => by cases heq
    | _ => exact absurd hk (by simp [Node.kind, BlockForm.kind])
  | exportExpression he hf => exact finishes_exportExpression he hf

/-! ## §4. Texts. -/

/-- A bare expression after `export default` ends the text as it ends itself. -/
theorem endsStatement_bare_iff (before t : String) :
    EndsStatement (before ++ "export default " ++ t) ↔ EndsStatement t := by
  refine ⟨fun h => ?_, fun h => h.append _⟩
  rw [EndsStatement, String.toList_append, List.getLast?_append] at h
  cases ht : t.toList.getLast? with
  | none =>
    -- a blank would be the last character
    have hblank : "export default ".toList.getLast? = some ' ' := by decide
    rw [ht, String.toList_append, List.getLast?_append, hblank] at h
    simp at h
  | some c =>
    rw [ht] at h
    rwa [EndsStatement, ht]

/-- **Every statement is terminated**, but for a default export of an expression without a rank at
its end: the text then ends with the bare expression. -/
theorem generate_endsStatement {n : Node} (h : IsStatement n) {l : Layout} {text : String}
    (ht : (Generator.ofDialect .plain l).generate n = .ok text) :
    (bareExport? n = none → EndsStatement text) ∧
    ∀ e, bareExport? n = some e → ∃ before t, (Generator.ofDialect .plain l).generate e = .ok t ∧
      text = before ++ "export default " ++ t ∧ (EndsStatement text ↔ EndsStatement t) := by
  obtain ⟨hhalt, htext⟩ := Generator.generate_eq_ok_iff.mp ht
  change Piece.renderAll l ((doc .plain n).pieces .start) = text at htext
  have hfinish := h.finishes
  refine ⟨fun hnone => ?_, fun e he => ?_⟩
  · rw [hnone] at hfinish
    rw [← htext]
    exact hfinish hhalt l .start
  · rw [he] at hfinish
    have hsteady : (Doc.text "export default " ++ doc .plain e).Steady :=
      .append (.text _) (Dialect.steady_doc _ e)
    obtain ⟨hbare, -⟩ := hfinish hhalt
    -- the export is the last part, so the text ends with it
    obtain ⟨before, heq⟩ :=
      Doc.EndsLike.exists_before hfinish (Dialect.steady_doc _ n) hsteady hhalt l .start
    have hshape :
        text = before ++ "export default " ++ Piece.renderAll l ((doc .plain e).pieces .start) := by
      rw [← htext, heq, Doc.pieces_append, Piece.renderAll_append, String.append_assoc]
      simp [Doc.pieces, Piece.render]
    refine ⟨before, _, Generator.generate_eq_ok_iff.mpr ⟨hbare, rfl⟩, hshape, ?_⟩
    rw [hshape]
    exact endsStatement_bare_iff _ _

/-- An `else` whose statement is a labeled default export of a name: there is a rank, and the text
is terminated. -/
theorem generate_endsStatement_else :
    let n : Node := .ifStatement (.identifier "a" false none []) .emptyStatement
      (some (.labeledStatement (.identifier "b" false none [])
        (.exportDefaultDeclaration (.identifier "c" false none []))))
    (IsStatement n ∧ bareExport? n = none ∧
      (Generator.ofDialect .plain {}).generate n = .ok "if (a) ; else b: export default c;") ∧
    EndsStatement "if (a) ; else b: export default c;" := by
  intro n
  have h : IsStatement n :=
    .choice .empty (.labeled (.exportExpression (by simp [Node.kind, expressionKinds]) nofun))
  have ht : (Generator.ofDialect .plain {}).generate n =
      .ok "if (a) ; else b: export default c;" := rfl
  exact ⟨⟨h, rfl, ht⟩, (generate_endsStatement h ht).1 rfl⟩

/-- A default export of a dynamic import. -/
def defaultImport : Node :=
  .exportDefaultDeclaration (.importExpression (.identifier "m" false none []) [] none)

/-- **A default export of a dynamic import is not terminated**: the next line goes on with it. -/
theorem generate_defaultImport :
    IsStatement defaultImport ∧
      (Generator.ofDialect .plain {}).generate defaultImport = .ok "export default import(m)" ∧
      ¬ EndsStatement "export default import(m)" :=
  ⟨.exportExpression (by simp [Node.kind, expressionKinds]) nofun, rfl, by decide⟩

end Terminator

end Estree
