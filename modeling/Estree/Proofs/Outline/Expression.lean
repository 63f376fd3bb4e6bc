import Estree.Proofs.Opening.Expression
import Estree.Proofs.Outline.Document

/-!
# Expressions outside of brackets

The text of an expression or a pattern is made of the texts of its operands with links between them,
as far as it is outside of brackets. So a comma, a semicolon or the word `in` is there only if a
name, an operator or another string of the tree has it: lists are always in brackets, and so is the
operator `in`.

`Term v n` says what has to be known of the nodes that are written outside of brackets. Their
strings are in the vocabulary `v`, and the parts that are written as they stand are terms
themselves. Nothing but that there are no brackets in strings is asked of what is written inside of
brackets. If what is looked for is in no string of the vocabulary, it is not outside of brackets in
a term (`Term.isClear`).

Main results:

* `Term`: what has to be known of the nodes outside of brackets.
* `Term.isClear`: nothing that the vocabulary lacks is outside of brackets in a term.
-/

namespace Estree.Outline

open Nesting
open Dialect (doc doc_eq)

/-! ## §1. Terms. -/

/-- Which strings of a tree are written outside of brackets. -/
structure Vocabulary where
  /-- Names and raw texts, and big integers with the letter after them. -/
  name : String → Prop
  /-- Operators, the texts of templates, and the parts of regular expressions. -/
  field : String → Prop
  /-- Strings that are written as JSON. -/
  value : String → Prop
  /-- Whether nothing has to keep an operator or a tag apart from what stands next to it. -/
  loose : Prop

/-- What is looked for is in no string of the vocabulary. -/
structure Vocabulary.Lacks (v : Vocabulary) (q : Sought) : Prop where
  name : ∀ x, v.name x → q.Absent x.toList
  field : ∀ x, v.field x → q.Absent x.toList
  value : ∀ s, v.value s → q.Absent (Json.quoted s).toList
  loose : v.loose → q.part? = none

/-- The text of a literal: what is inside of a value that is no string does not matter. -/
def LiteralTerm (v : Vocabulary) (l : Literal) : Prop :=
  match l.raw, l.regex, l.bigint with
  | some raw, _, _ => v.name raw
  | none, some r, _ => v.field r.pattern ∧ v.field r.flags
  | none, none, some digits => v.name (digits ++ "n")
  | none, none, none => ∀ s, l.value = .string s → v.value s

/-- An operator right before or after its operand: it brings no `i` before an `n` of the operand,
unless a blank is between them, and no `n` after an `i`. -/
def Operator (v : Vocabulary) (before blank : Bool) (op : String) : Prop :=
  v.field op ∧
    (v.loose ∨ if before then blank = true ∨ op.toList.getLast? ≠ some 'i'
      else op.toList.head? ≠ some 'n')

/-- Whether all of a node but a word before it is in brackets. -/
def isBracketed : Node → Bool
  | .arrayExpression _ _ | .arrayPattern _ _ | .objectExpression _ _ | .objectPattern _ _
  | .sequenceExpression _ | .importExpression _ _ _ | .block .statement _ => true
  | _ => false

/-- Expressions and patterns whose strings are in the vocabulary, as far as they are written outside
of brackets. Blocks are among them as bodies of functions. -/
inductive Term (v : Vocabulary) : Node → Prop where
  /-- A node of a kind that is not written. -/
  | unwritten {n : Node} : Registry.base.get? n.kind = none → Term v n
  | bracketed {n : Node} : isBracketed n = true → Term v n
  | this : Term v .thisExpression
  | super : Term v .super
  | name {x : String} {optional : Bool} {annot : Option Node} {decorators : List Node} :
      v.name x → Term v (.identifier x optional annot decorators)
  | privateName {x : String} : v.field x → Term v (.privateIdentifier x)
  | metaProperty {object name : Node} : (∀ x, object.identifierName? = some x → v.name x) →
      (∀ x, name.identifierName? = some x → v.field x) → Term v (.metaProperty object name)
  | literal {l : Literal} : LiteralTerm v l → Term v (.literal l)
  | regExp {l : Literal} : (∀ r, l.regex = some r → v.field r.pattern ∧ v.field r.flags) →
      Term v (.regExpLiteral l)
  | template {quasis holes : List Node} :
      (∀ value tail, .templateElement value tail ∈ quasis → v.field value.raw) →
      Term v (.templateLiteral quasis holes)
  | tagged {tag : Node} {quasis holes : List Node} : Term v tag →
      (∀ value tail, .templateElement value tail ∈ quasis → v.field value.raw) →
      Term v (.taggedTemplateExpression tag (.templateLiteral quasis holes))
  /-- Anything but a template may stand after a tag in a loose vocabulary. -/
  | sideBySide {tag quasi : Node} : v.loose → Term v tag → Term v quasi →
      Term v (.taggedTemplateExpression tag quasi)
  | rest {argument : Node} {annot : Option Node} : Term v argument →
      Term v (.restElement argument annot)
  | spread {argument : Node} {annot : Option Node} : Term v argument →
      Term v (.spreadElement argument annot)
  | yield {argument : Option Node} {delegate : Bool} : (∀ n, argument = some n → Term v n) →
      Term v (.yieldExpression argument delegate)
  | await {argument : Node} : Term v argument → Term v (.awaitExpression argument)
  /-- A blank follows a prefix operator of more than one byte. -/
  | unary {op : String} {before : Bool} {argument : Node} :
      Operator v before (Emit.isLong op) op →
      Term v argument → Term v (.unaryExpression op before argument)
  | update {op : String} {before : Bool} {argument : Node} : Operator v before false op →
      Term v argument → Term v (.updateExpression op before argument)
  | assign {op : String} {left right : Node} : v.field op → Term v left → Term v right →
      Term v (.assignmentExpression op left right)
  | default {left right : Node} : Term v left → Term v right →
    Term v (.assignmentPattern left right)
  | binary {op : String} {left right : Node} : v.field op → Term v left → Term v right →
      Term v (.binaryExpression op left right)
  | logical {op : String} {left right : Node} : v.field op → Term v left → Term v right →
      Term v (.logicalExpression op left right)
  /-- The operator `in` is in parentheses with its operands. -/
  | isIn {left right : Node} : Term v (.binaryExpression "in" left right)
  | logicalIn {left right : Node} : Term v (.logicalExpression "in" left right)
  | conditional {test consequent alternate : Node} : Term v test → Term v consequent →
      Term v alternate → Term v (.conditionalExpression test consequent alternate)
  | new {callee : Node} {args : List Node} {optional : Bool} {types : Option Node} : Term v callee →
      Term v (.newExpression callee args optional types)
  | call {callee : Node} {args : List Node} {optional : Bool} {types : Option Node} :
      Term v callee → Term v (.callExpression callee args optional types)
  | chain {e : Node} : Term v e → Term v (.chainExpression e)
  | index {object property : Node} {optional : Bool} : Term v object →
      Term v (.memberExpression object property true optional)
  | member {object property : Node} {optional : Bool} : Term v object → Term v property →
      Term v (.memberExpression object property false optional)
  | function {f : FunctionLike} :
      (∀ id x, f.id = some id → id.identifierName? = some x → v.field x) →
      (∀ body, f.body = some body → Term v body) → Term v (.function .expression f)
  /-- A lone parameter that is a name has no parentheses. -/
  | arrow {f : ArrowFunction} :
      (∀ x optional annot decorators, f.params = [.identifier x optional annot decorators] →
        v.name x) →
      Term v f.body → Term v (.arrowFunctionExpression f)
  | classLike {c : ClassLike} :
      (∀ id x, c.id = some id → id.identifierName? = some x → v.field x) →
      (∀ n, c.superClass = some n → Term v n) → Term v (.classExpression c)

/-! ## §2. Documents of nodes. -/

/-- The scope of the plain dialect. -/
abbrev scope : Scope := (Grammar.ofDialect .plain).scope

variable {v : Vocabulary} {q : Sought} {l : Layout} {n : Node}

/-- The text of a tree without brackets in its strings is balanced. -/
theorem balanced_doc (hn : n.BracketFree) : (doc .plain n).Balanced :=
  Grammar.balanced_emitAs _ _ _ n hn

/-- The text of a list of such trees is balanced. -/
theorem balanced_list {sep : Doc} (hsep : sep.Balanced) {ns : List Node}
    (hns : ∀ n ∈ ns, n.BracketFree) : (Doc.join sep (ns.map (doc .plain))).Balanced := by
  refine fun due => Doc.dueAfter_join due hsep fun d hd => ?_
  obtain ⟨n, hn, rfl⟩ := List.mem_map.mp hd
  exact balanced_doc (hns n hn)

/-- A list of nodes in parentheses. -/
theorem isLink_sequence (hl : l.BracketFree) {ns : List Node} (hns : ∀ n ∈ ns, n.BracketFree) :
    (scope.sequence ns).IsLink l :=
  Doc.isLink_parens hl (balanced_list (fun due => Doc.dueAfter_text due (by decide)) hns)

/-- The text of a list with holes is balanced. -/
theorem balanced_elementList {es : List (Option Node)} (hes : ∀ n, some n ∈ es → n.BracketFree) :
    (Emit.elementList scope es).Balanced := by
  have hcomma : (Doc.text ", ").Balanced := fun due => Doc.dueAfter_text due (by decide)
  induction es with
  | nil => exact fun _ => rfl
  | cons e rest ih =>
    have hrest := ih fun n hn => hes n (List.mem_cons_of_mem _ hn)
    cases e with
    | none => exact hcomma.append hrest
    | some n =>
      have hn : (doc .plain n).Balanced := balanced_doc (hes n List.mem_cons_self)
      cases rest with
      | nil => exact hn
      | cons e rest => exact (hn.append hcomma).append hrest

/-- The elements of a list are in brackets. -/
theorem isLink_elements (hl : l.BracketFree) {es : List (Option Node)}
    (hes : ∀ n, some n ∈ es → n.BracketFree) : (Emit.elements scope es).IsLink l :=
  Doc.isLink_brackets hl (balanced_elementList hes)

/-- The entries of an object are in braces. -/
theorem isLink_objectLines (hl : l.BracketFree) {ns : List Node} (hns : ∀ n ∈ ns, n.BracketFree) :
    (Emit.objectLines scope ns).IsLink l := by
  refine Doc.isLink_braces hl fun due => ?_
  have hlines : (Doc.join ("," ++ .lineEnd)
      (ns.map fun n => .indent ++ scope.emit n)).dueAfter due = some due := by
    refine Doc.dueAfter_join due (fun due => ?_) fun d hd => ?_
    · simp +decide
    · obtain ⟨n, hn, rfl⟩ := List.mem_map.mp hd
      exact fun due => balanced_doc (hns n hn) due
  split
  · rfl
  · simp [hlines]

/-- A block of statements, or the body of a class. -/
theorem isLink_block (hl : l.BracketFree) {ns : List Node} (hns : ∀ n ∈ ns, n.BracketFree) :
    (scope.block ns).IsLink l := by
  have hlines : (scope.lines ns).Balanced := by
    refine fun due => Doc.dueAfter_concat due fun d hd => ?_
    obtain ⟨n, hn, rfl⟩ := List.mem_map.mp hd
    intro due
    have hdoc : (scope.emit n).dueAfter due = some due := balanced_doc (hns n hn) due
    simp [Doc.line, hdoc]
  refine Doc.isLink_braces hl fun due => ?_
  split
  · rfl
  · simp [hlines due]

/-- Anything may be put after what is in brackets but for a word before it. -/
theorem isAhead_of_isBracketed (hl : l.BracketFree) (h : isBracketed n = true)
    (hn : n.BracketFree) : (doc .plain n).IsAhead q l := by
  unfold isBracketed at h
  split at h
  · rw [doc_eq (p := .arrayExpression) rfl]
    exact (isLink_elements hl fun m hm => hn.child (by simp [hm])).isAhead
  · rw [doc_eq (p := .arrayExpression) rfl]
    exact (isLink_elements hl fun m hm => hn.child (by simp [hm])).isAhead
  · rw [doc_eq (p := .objectExpression) rfl]
    exact (isLink_objectLines hl fun m hm => hn.child (by simp [hm])).isAhead
  · rw [doc_eq (p := .objectPattern .plain) rfl]
    refine (Doc.isLink_braces hl (balanced_list ?_ fun m hm => ?_)).isAhead
    · exact fun due => Doc.dueAfter_text due (by decide)
    · exact hn.child (by simp [hm])
  · rw [doc_eq (p := .sequenceExpression) rfl]
    exact (isLink_sequence hl fun m hm => hn.child (by simpa using hm)).isAhead
  · next source _ _ =>
    rw [doc_eq (p := .importExpression .plain) rfl]
    -- the word and its parenthesis are one text, so the pair of brackets is put together here
    have hopen : (Doc.nil ++ Doc.text "import(").LeavesOpen q l '(' :=
      Doc.isAhead_nil.isClear.leavesOpen (x := "import") (by decide) (by decide) rfl
    have hsource : (Doc.text "import(" ++ doc .plain source).LeavesOpen q l '(' :=
      Doc.LeavesOpen.append hl hopen (balanced_doc (hn.child (by simp)))
    exact Doc.LeavesOpen.close hsource rfl rfl
  · rw [doc_eq (p := .block) rfl]
    exact (isLink_block hl fun m hm => hn.child (by simpa using hm)).isAhead
  · cases h

/-! ## §3. Operands. -/

/-- An operand is clear in parentheses or without them. -/
theorem isClear_operandOf (hl : l.BracketFree) (hn : n.BracketFree) (h : (doc .plain n).IsClear q l)
    (parent : Node) (right : Bool) : (scope.operandOf n parent right).IsClear q l :=
  h.parensIf hl (balanced_doc hn) _

theorem isClear_operand (hl : l.BracketFree) (hn : n.BracketFree) (h : (doc .plain n).IsClear q l)
    (position : Kind) : (scope.operand n position).IsClear q l :=
  h.parensIf hl (balanced_doc hn) _

/-- A prefix operator without a blank after it. -/
theorem isAhead_operator (hv : v.Lacks q) {op : String} (hfree : IsFree op)
    (h : Operator v true false op) : (Doc.text op).IsAhead q l := by
  refine Doc.writes_text ⟨clear_of_isFree hfree (hv.field op h.1), h.2.imp hv.loose fun hlast => ?_⟩
  rw [outline_of_isFree hfree]
  exact hlast.resolve_left Bool.false_ne_true

/-- A prefix operator with the blank after it, if there is one. -/
theorem isAhead_operator_blank (hv : v.Lacks q) {op : String} {blank cond : Bool}
    (hfree : IsFree op) (h : Operator v true blank op) (hcond : blank = true → cond = true) :
    (Doc.text op ++ Doc.onlyIf cond " ").IsAhead q l := by
  have hclear : (Doc.text op).IsClear q l := Doc.isClear_text hfree (hv.field op h.1)
  cases cond with
  | true => exact hclear.link Doc.isLink_space
  | false =>
    obtain rfl : blank = false := by simpa using hcond
    exact Doc.Writes.append_nil (isAhead_operator hv hfree h)

/-- An operator after its operand. -/
theorem isClear_operator (hv : v.Lacks q) {op : String} {blank : Bool} {d : Doc} (hfree : IsFree op)
    (h : Operator v false blank op) (hd : d.IsClear q l) : (d ++ .text op).IsClear q l := by
  refine Doc.Writes.append hd (Doc.writes_text (P := (· = op.toList)) rfl) ?_
  rintro cs _ hcs rfl
  refine hcs.append (clear_of_isFree hfree (hv.field op h.1))
    (h.2.imp hv.loose fun hhead => .inr ?_)
  rwa [outline_of_isFree hfree]

/-- The name of an identifier is one of its texts. -/
theorem mem_texts_of_identifierName? {x : String} (h : n.identifierName? = some x) :
    x ∈ n.texts := by
  unfold Node.identifierName? at h
  split at h
  · cases h
    exact List.mem_singleton_self _
  · cases h

/-- What is written with the name of a node, if it is an identifier. -/
theorem isClear_ofName {f : String → Doc}
    (h : ∀ x, n.identifierName? = some x → (f x).IsClear q l) :
    (Doc.ofExcept n.identifierName f).IsClear q l := by
  unfold Node.identifierName
  cases hname : n.identifierName? with
  | none => exact .of_halt rfl
  | some x => exact h x hname

/-- A name that is written as it is. -/
theorem isClear_identifierName (hn : n.BracketFree)
    (h : ∀ x, n.identifierName? = some x → q.Absent x.toList) :
    (Doc.ofExcept n.identifierName Doc.text).IsClear q l :=
  isClear_ofName fun x hx =>
    Doc.isClear_text (hn.texts x (mem_texts_of_identifierName? hx)) (h x hx)

/-! ## §4. Literals and templates. -/

/-- Nothing sought is in a number. -/
theorem absent_number (x : Number) : q.Absent x.text.toList := by
  have hnumeral := isNumeral_of_mem_text x
  refine ⟨fun hm => ?_, fun part _ hin => ?_⟩
  · have hmarks : ([',', ';'].all fun c => !isNumeral c) = true := by decide
    have hmark := List.all_eq_true.mp hmarks q.mark q.mark_mem
    rw [hnumeral _ hm] at hmark
    cases hmark
  · have hi : 'i' ∈ x.text.toList := hin.isInfix.mem (by simp)
    exact absurd (hnumeral _ hi) (by decide)

/-- A JSON value: arrays and objects are in brackets. -/
theorem clear_compact {j : Json} (htexts : ∀ t ∈ j.texts, IsFree t)
    (h : ∀ s, j = .string s → q.Absent (Json.quoted s).toList) : q.Clear j.compact.toList := by
  -- whatever stands between a pair of brackets is not seen
  have hpair : ∀ {u w : Char} {x : String}, closing? u = some w → dueAfter [] x = some [] →
      q.Clear (u :: (x.toList ++ [w])) := fun huw hx =>
    (Sought.ahead_nil.1.link (link_pair huw (wellNested_iff.mpr hx))).1
  cases j with
  | null => exact clear_of_isFree (x := "null") (by decide) (absent_of_isLead (by decide))
  | bool b =>
    cases b with
    | true => exact clear_of_isFree (x := "true") (by decide) (absent_of_isLead (by decide))
    | false => exact clear_of_isFree (x := "false") (by decide) (absent_of_isLead (by decide))
  | number x => exact clear_of_isFree (isFree_text x) (absent_number x)
  | string s => exact clear_of_isFree (isFree_quoted (htexts s (by simp [Json.texts]))) (h s rfl)
  | array items =>
    cases items with
    | nil => exact hpair (x := "") rfl rfl
    | cons j rest =>
      simp only [Json.texts, Json.itemTexts, List.mem_append, or_imp, forall_and] at htexts
      have hinner := dueAfter_append_of_eq (dueAfter_compact j htexts.1 [])
        (dueAfter_compactItems rest htexts.2 [])
      have hclear := hpair (u := '[') rfl hinner
      simpa [Json.compact] using hclear
  | object members =>
    cases members with
    | nil => exact hpair (x := "") rfl rfl
    | cons m rest =>
      obtain ⟨k, j⟩ := m
      simp only [Json.texts, Json.memberTexts, List.mem_cons, List.mem_append, or_imp, forall_and,
        forall_eq] at htexts
      have hkey := dueAfter_of_isFree (isFree_quoted htexts.1) []
      have hmember := dueAfter_append_of_eq (dueAfter_append_of_eq (t := ":") hkey rfl)
        (dueAfter_compact j htexts.2.1 [])
      have hinner := dueAfter_append_of_eq hmember (dueAfter_compactMembers rest htexts.2.2 [])
      have hclear := hpair (u := '\x7b') rfl hinner
      simpa [Json.compact] using hclear

theorem isClear_regExp {lit : Literal} (htexts : ∀ t ∈ lit.texts, IsFree t)
    (h : ∀ r, lit.regex = some r → q.Absent r.pattern.toList ∧ q.Absent r.flags.toList) :
    (Emit.regExp n lit).IsClear q l := by
  unfold Emit.regExp
  cases hregex : lit.regex with
  | none => exact .of_halt rfl
  | some r =>
    obtain ⟨hpattern, hflags⟩ := h r hregex
    have hslash : (Doc.text "/").IsLink l := Doc.isLink_text (by decide) (by decide)
    have hbody : (Doc.text r.pattern).IsClear q l :=
      Doc.isClear_text (htexts _ (by simp [Literal.texts, hregex])) hpattern
    have hend : (Doc.text r.flags).IsClear q l :=
      Doc.isClear_text (htexts _ (by simp [Literal.texts, hregex])) hflags
    exact ((hslash.isAhead.append hbody).link hslash).append hend

/-- A literal is clear where its text is in the vocabulary. -/
theorem isClear_literalText (hv : v.Lacks q) {lit : Literal} (htexts : ∀ t ∈ lit.texts, IsFree t)
    (h : LiteralTerm v lit) : (Emit.literalText n lit).IsClear q l := by
  unfold LiteralTerm at h
  unfold Emit.literalText
  cases hraw : lit.raw with
  | some raw =>
    rw [hraw] at h
    exact Doc.isClear_text (htexts _ (by simp [Literal.texts, hraw])) (hv.name raw h)
  | none =>
    cases hregex : lit.regex with
    | some r =>
      rw [hraw, hregex] at h
      refine isClear_regExp htexts fun r' hr' => ?_
      obtain rfl := Option.some.inj (hregex.symm.trans hr')
      exact ⟨hv.field _ h.1, hv.field _ h.2⟩
    | none =>
      cases hbigint : lit.bigint with
      | some digits =>
        -- the digits and the letter after them are looked at as one text
        have hname : v.name (digits ++ "n") := by rwa [hraw, hregex, hbigint] at h
        have hfree : IsFree (digits ++ "n") :=
          isFree_append.mpr ⟨htexts _ (by simp [Literal.texts, hbigint]), by decide⟩
        refine Doc.Writes.append (P := (· = digits.toList)) (Q := (· = "n".toList))
          (Doc.writes_text rfl) (Doc.writes_text rfl) ?_
        rintro _ _ rfl rfl
        rw [← String.toList_append]
        exact clear_of_isFree hfree (hv.name _ hname)
      | none =>
        have hvalue : ∀ s, lit.value = .string s → v.value s := by rwa [hraw, hregex, hbigint] at h
        refine Doc.writes_text (clear_compact (fun t ht => htexts t ?_) fun s hs => ?_)
        · simp [Literal.texts, ht]
        · exact hv.value s (hvalue s hs)

/-- The texts of a template with the holes between them. -/
theorem isClear_interleaved (hl : l.BracketFree) (hv : v.Lacks q) {quasis holes : List Node}
    (hq : ∀ c ∈ quasis, c.BracketFree) (hh : ∀ c ∈ holes, c.BracketFree)
    (h : ∀ value tail, .templateElement value tail ∈ quasis → v.field value.raw) :
    (Emit.interleaved scope quasis holes).IsClear q l := by
  have helement : ∀ c ∈ quasis, (Emit.templateElement c).IsClear q l := by
    intro c hc
    unfold Emit.templateElement
    split
    next value tail =>
      exact Doc.isClear_text ((hq _ hc).texts _ (by simp [Node.texts])) (hv.field _ (h _ _ hc))
    next => exact .of_halt rfl
  induction quasis generalizing holes with
  | nil => exact Doc.isAhead_nil.isClear
  | cons c quasis ih =>
    have hc := helement c List.mem_cons_self
    have hrest : ∀ {holes : List Node}, (∀ c ∈ holes, c.BracketFree) →
        (Emit.interleaved scope quasis holes).IsClear q l := fun hh =>
      ih (fun c hc => hq c (List.mem_cons_of_mem _ hc)) hh
        (fun value tail ht => h value tail (List.mem_cons_of_mem _ ht))
        fun c hc => helement c (List.mem_cons_of_mem _ hc)
    cases holes with
    | nil =>
      -- quasis that are left over are not written
      cases quasis with
      | nil => exact hc
      | cons => exact Doc.isAhead_nil.isClear
    | cons hole holes =>
      obtain ⟨hhole, hholes⟩ := List.forall_mem_cons.mp hh
      have hopen : (Emit.templateElement c ++ Doc.text "$\x7b").LeavesOpen q l '\x7b' :=
        hc.leavesOpen (x := "$") (by decide) (by decide) rfl
      have hclosed := (hopen.append hl (balanced_doc hhole)).close (e := "\x7d") rfl rfl
      exact hclosed.append (hrest hholes)

/-- A template may stand right after its tag. -/
theorem isClear_template (hl : l.BracketFree) (hv : v.Lacks q) {quasis holes : List Node}
    (hn : (Node.templateLiteral quasis holes).BracketFree)
    (h : ∀ value tail, .templateElement value tail ∈ quasis → v.field value.raw) {d : Doc}
    (hd : d.IsClear q l) : (d ++ doc .plain (.templateLiteral quasis holes)).IsClear q l := by
  rw [doc_eq (p := .templateLiteral) rfl]
  change (d ++ Emit.template scope _ quasis holes).IsClear q l
  unfold Emit.template
  split
  · have hquote : (Doc.text "`").IsLink l := Doc.isLink_text (by decide) (by decide)
    have hbody : (Emit.interleaved scope quasis holes).IsClear q l :=
      isClear_interleaved hl hv (fun c hc => hn.child (by simp [hc]))
        (fun c hc => hn.child (by simp [hc])) h
    have hopen : (d ++ (Doc.text "`" ++ Emit.interleaved scope quasis holes)).IsClear q l :=
      Doc.Writes.assoc ((hd.link hquote).append hbody)
    exact Doc.Writes.assoc (hopen.link hquote).isClear
  · exact Doc.Writes.append hd (.of_halt rfl) fun _ _ _ => False.elim

/-! ## §5. Functions and classes. -/

/-- The name of a function or of a class, if it has one. -/
theorem isClear_optionalName {a : Doc} (ha : a.IsAhead q l) {id : Option Node}
    (hid : ∀ n, id = some n → n.BracketFree)
    (h : ∀ n x, id = some n → n.identifierName? = some x → q.Absent x.toList) :
    (a ++ Doc.ofOption id fun n => Doc.ofExcept n.identifierName Doc.text).IsClear q l := by
  cases id with
  | none => exact Doc.Writes.append_nil ha.isClear
  | some n => exact ha.append (isClear_identifierName (hid n rfl) fun x hx => h n x rfl hx)

theorem isClear_functionHead {f : FunctionLike} (hid : ∀ n, f.id = some n → n.BracketFree)
    (h : ∀ n x, f.id = some n → n.identifierName? = some x → q.Absent x.toList) :
    (Emit.functionHead f).IsClear q l := by
  refine isClear_optionalName ?_ hid h
  have hasync : (Doc.onlyIf f.async "async ").IsAhead q l :=
    Doc.isAhead_onlyIf (Doc.isLink_text (by decide) (by decide)) _
  refine Doc.IsAhead.link hasync ?_
  split
  all_goals exact Doc.isLink_text (by decide) (by decide)

/-- A function: its parameters are in parentheses. -/
theorem isClear_function (hl : l.BracketFree) {f : FunctionLike}
    (hn : (Node.function .expression f).BracketFree)
    (hid : ∀ n x, f.id = some n → n.identifierName? = some x → q.Absent x.toList)
    (hbody : ∀ body, f.body = some body → (doc .plain body).IsClear q l) :
    (doc .plain (.function .expression f)).IsClear q l := by
  rw [doc_eq (p := .function .plain) rfl]
  have hhead : (Emit.functionHead f).IsClear q l :=
    isClear_functionHead (fun n h => hn.child (by simp [h])) hid
  have hparams : (scope.sequence f.params).IsLink l :=
    isLink_sequence hl fun n h => hn.child (by simp [h])
  have hopening := (hhead.link hparams).link Doc.isLink_space
  refine hopening.append ?_
  cases h : f.body with
  | none => exact .of_halt rfl
  | some body => exact hbody body h

/-- An arrow: a lone name is outside of brackets. -/
theorem isClear_arrow (hl : l.BracketFree) {f : ArrowFunction}
    (hn : (Node.arrowFunctionExpression f).BracketFree)
    (hparams : ∀ x optional annot decorators,
      f.params = [.identifier x optional annot decorators] → q.Absent x.toList)
    (hbody : (doc .plain f.body).IsClear q l) :
    (doc .plain (.arrowFunctionExpression f)).IsClear q l := by
  rw [doc_eq (p := .arrowFunction .plain) rfl]
  have hasync : (Doc.onlyIf f.async "async ").IsAhead q l :=
    Doc.isAhead_onlyIf (Doc.isLink_text (by decide) (by decide)) _
  have hlist : (Emit.arrowParams scope f.params).IsClear q l := by
    unfold Emit.arrowParams
    split
    next x optional annot decorators hone =>
      have hmem : .identifier x optional annot decorators ∈ f.params := by simp [hone]
      have hx : Node.BracketFree (.identifier x optional annot decorators) :=
        hn.child (by simp [hmem])
      exact Doc.isClear_text (hx.texts _ (by simp [Node.texts])) (hparams _ _ _ _ hone)
    next => exact (isLink_sequence hl fun n h => hn.child (by simp [h])).isClear
  have harrow := (hasync.append hlist).link (Doc.isLink_text (x := " => ") (by decide) (by decide))
  have hfree : f.body.BracketFree := hn.child (by simp)
  refine Doc.Writes.assoc (harrow.append ?_)
  -- an object would be read as a block, so it is in parentheses
  have hobject : ((scope.emitAs .objectExpression f.body).parens).IsClear q l :=
    (Doc.isLink_parens hl (Grammar.balanced_emitAs _ _ _ _ hfree)).isClear
  split
  · exact hobject
  · exact hobject
  · exact hbody

/-- A superclass may be in parentheses. -/
theorem isClear_superclass (hl : l.BracketFree) (hn : n.BracketFree)
    (h : (doc .plain n).IsClear q l) :
    (Emit.superclass scope n).IsClear q l :=
  (Doc.isLink_text (by decide) (by decide)).isAhead.append (h.parensIf hl (balanced_doc hn) _)

/-- A class expression is written by whatever writes class declarations. -/
theorem doc_classExpression (c : ClassLike) :
    doc .plain (.classExpression c) = Emit.Plain.classOf scope c := by
  rw [doc_eq (p := .classExpression) rfl]
  exact Grammar.scope_emitAs _ _ _

/-- A class: its body is in braces. -/
theorem isClear_class (hl : l.BracketFree) {c : ClassLike}
    (hn : (Node.classExpression c).BracketFree)
    (hid : ∀ n x, c.id = some n → n.identifierName? = some x → q.Absent x.toList)
    (hsuper : ∀ n, c.superClass = some n → (doc .plain n).IsClear q l) :
    (doc .plain (.classExpression c)).IsClear q l := by
  rw [doc_classExpression]
  have hname : (Doc.text "class " ++ Doc.ofOption c.id
      fun id => Doc.ofExcept id.identifierName Doc.text ++ " ").IsAhead q l := by
    have hclass : (Doc.text "class ").IsAhead q l := Doc.isAhead_text (by decide) (by decide)
    cases h : c.id with
    | none => exact Doc.Writes.append_nil hclass
    | some id =>
      have hid' : (Doc.ofExcept id.identifierName Doc.text).IsClear q l :=
        isClear_identifierName (hn.child (by simp [h])) fun x hx => hid id x h hx
      exact hclass.append_ahead (hid'.link Doc.isLink_space)
  -- the body is in braces, so nothing has to be known of the members
  have hbody : (scope.emitAs .classBody c.body).IsClear q l := by
    have hfree : c.body.BracketFree := hn.child (by simp)
    rw [Grammar.scope_emitAs]
    change (Emit.block scope c.body).IsClear q l
    unfold Emit.block
    split
    next body hb => exact (isLink_block hl fun n h => hfree.child (by simpa [hb] using h)).isClear
    next body hb => exact (isLink_block hl fun n h => hfree.child (by simpa [hb] using h)).isClear
    next => exact .of_halt rfl
  have hextends : (Doc.ofOption c.superClass fun n =>
      Emit.superclass scope n ++ Doc.text " ").IsAhead q l := by
    cases h : c.superClass with
    | none => exact Doc.isAhead_nil
    | some n =>
      have hclear : (Emit.superclass scope n).IsClear q l :=
        isClear_superclass hl (hn.child (by simp [h])) (hsuper n h)
      exact hclear.link Doc.isLink_space
  exact (hname.append_ahead hextends).append hbody

/-! ## §6. Operators. -/

/-- An operator before its operand, and perhaps a blank between them. -/
theorem isClear_prefixed (hl : l.BracketFree) {parent : Node} {op : String}
    (hop : ∀ cond, (Emit.isLong op = true → cond = true) →
      (Doc.text op ++ Doc.onlyIf cond " ").IsAhead q l)
    (hn : n.BracketFree) (h : (doc .plain n).IsClear q l) :
    (Emit.prefixed scope parent op n).IsClear q l := by
  unfold Emit.prefixed
  split
  · exact (hop _ id).append (Doc.isLink_parens hl (balanced_doc hn)).isClear
  · exact (hop _ fun hlong => by simp [hlong]).append h

theorem balanced_parensIf {d : Doc} (hd : d.Balanced) (cond : Bool) :
    (d.parensIf cond).Balanced := by
  cases cond with
  | true => exact fun due => by simp [Doc.parensIf, hd (')' :: due)]
  | false => exact hd

/-- An operator between its operands; all of it is in parentheses if it is `in`. -/
theorem isClear_infixed (hl : l.BracketFree) {parent left right : Node} {op : String}
    (hfree : IsFree op) (hleft : left.BracketFree) (hright : right.BracketFree)
    (h : op = "in" ∨ q.Absent op.toList ∧ (doc .plain left).IsClear q l ∧
      (doc .plain right).IsClear q l) :
    (Emit.infixed scope parent op left right).IsClear q l := by
  have hbalanced : (scope.operandOf left parent false ++ Doc.text " " ++ Doc.text op ++ Doc.text " "
      ++ scope.operandOf right parent true).Balanced := by
    have hleft' : (scope.operandOf left parent false).Balanced :=
      balanced_parensIf (balanced_doc hleft) _
    have hright' : (scope.operandOf right parent true).Balanced :=
      balanced_parensIf (balanced_doc hright) _
    have htexts : (Doc.text " ").Balanced ∧ (Doc.text op).Balanced :=
      ⟨fun due => Doc.dueAfter_text due (by decide), fun due => Doc.dueAfter_text due hfree⟩
    exact (((hleft'.append htexts.1).append htexts.2).append htexts.1).append hright'
  rcases h with rfl | ⟨hop, hl', hr⟩
  · exact (Doc.isLink_parens hl hbalanced).isClear
  · have hbefore := (isClear_operandOf hl hleft hl' parent false).link Doc.isLink_space
    have hmiddle := (hbefore.append (Doc.isClear_text hfree hop)).link Doc.isLink_space
    exact (hmiddle.append (isClear_operandOf hl hright hr parent true)).parensIf hl hbalanced _

theorem isClear_unary (hl : l.BracketFree) (hv : v.Lacks q) {op : String} {before : Bool}
    (hn : (Node.unaryExpression op before n).BracketFree)
    (hop : Operator v before (Emit.isLong op) op)
    (h : (doc .plain n).IsClear q l) : (doc .plain (.unaryExpression op before n)).IsClear q l := by
  rw [doc_eq (p := .unaryExpression) rfl]
  have hfree := hn.texts op (by simp [Node.texts])
  cases before with
  | true =>
    exact isClear_prefixed hl (fun _ => isAhead_operator_blank hv hfree hop) (hn.child (by simp)) h
  | false => exact isClear_operator hv hfree hop h

theorem isClear_update (hv : v.Lacks q) {op : String} {before : Bool}
    (hn : (Node.updateExpression op before n).BracketFree) (hop : Operator v before false op)
    (h : (doc .plain n).IsClear q l) :
    (doc .plain (.updateExpression op before n)).IsClear q l := by
  rw [doc_eq (p := .updateExpression) rfl]
  have hfree := hn.texts op (by simp [Node.texts])
  cases before with
  | true => exact (isAhead_operator hv hfree hop).append h
  | false => exact isClear_operator hv hfree hop h

/-- The star of a `yield` is part of its word. -/
theorem isClear_yield {argument : Option Node} {delegate : Bool}
    (h : ∀ n, argument = some n → (doc .plain n).IsClear q l) :
    (doc .plain (.yieldExpression argument delegate)).IsClear q l := by
  rw [doc_eq (p := .yieldExpression) rfl]
  have hword : (Doc.text (if delegate then "yield*" else "yield")).IsAhead q l := by
    split
    all_goals exact Doc.isAhead_text (by decide) (by decide)
  cases argument with
  | none => exact Doc.Writes.append_nil hword.isClear
  | some n => exact hword.append (Doc.isLink_space.isAhead.append (h n rfl))

theorem isClear_conditional (hl : l.BracketFree) {test consequent alternate : Node}
    (htest : test.BracketFree) (ht : (doc .plain test).IsClear q l)
    (hc : (doc .plain consequent).IsClear q l) (ha : (doc .plain alternate).IsClear q l) :
    (doc .plain (.conditionalExpression test consequent alternate)).IsClear q l := by
  rw [doc_eq (p := .conditionalExpression) rfl]
  have hmark : (Doc.text " ? ").IsLink l := Doc.isLink_text (by decide) (by decide)
  have hcolon : (Doc.text " : ").IsLink l := Doc.isLink_text (by decide) (by decide)
  have hwrapped := ht.parensIf hl (balanced_doc htest) (Emit.testNeedsParens scope test)
  exact (((hwrapped.link hmark).append hc).link hcolon).append ha

/-! ## §7. Calls and members. -/

theorem isClear_metaProperty {object name : Node} (hn : (Node.metaProperty object name).BracketFree)
    (ho : ∀ x, object.identifierName? = some x → q.Absent x.toList)
    (hname : ∀ x, name.identifierName? = some x → q.Absent x.toList) :
    (doc .plain (.metaProperty object name)).IsClear q l := by
  rw [doc_eq (p := .metaProperty) rfl]
  have hobject : object.BracketFree := hn.child (by simp)
  have hdot : (Doc.text ".").IsLink l := Doc.isLink_text (by decide) (by decide)
  refine isClear_ofName fun x hx => ?_
  have hclear : (Doc.text x).IsClear q l :=
    Doc.isClear_text (hobject.texts x (mem_texts_of_identifierName? hx)) (ho x hx)
  exact (hclear.link hdot).append (isClear_identifierName (hn.child (by simp)) hname)

/-- A `new`: its arguments are in parentheses. -/
theorem isClear_new (hl : l.BracketFree) {callee : Node} {args : List Node} {optional : Bool}
    {types : Option Node} (hn : (Node.newExpression callee args optional types).BracketFree)
    (h : (doc .plain callee).IsClear q l) :
    (doc .plain (.newExpression callee args optional types)).IsClear q l := by
  rw [doc_eq (p := .newExpression .plain) rfl]
  have hword : (Doc.text "new ").IsAhead q l := Doc.isAhead_text (by decide) (by decide)
  have hhead : (Emit.newCallee scope callee).IsClear q l :=
    hword.append (h.parensIf hl (balanced_doc (hn.child (by simp))) _)
  have hargs := isLink_sequence hl fun n (h : n ∈ args) => hn.child (by simp [h])
  exact (hhead.link hargs).isClear

/-- A call: its arguments are in parentheses. -/
theorem isClear_call (hl : l.BracketFree) {callee : Node} {args : List Node} {optional : Bool}
    {types : Option Node} (hn : (Node.callExpression callee args optional types).BracketFree)
    (h : (doc .plain callee).IsClear q l) :
    (doc .plain (.callExpression callee args optional types)).IsClear q l := by
  rw [doc_eq (p := .callExpression .plain) rfl]
  have hmark : (Doc.text "?.").IsLink l := Doc.isLink_text (by decide) (by decide)
  have hcallee := isClear_operand hl (hn.child (by simp)) h .callExpression
  have hargs := isLink_sequence hl fun n (h : n ∈ args) => hn.child (by simp [h])
  exact ((hcallee.onlyIf hmark optional).link hargs).isClear

/-- A property in brackets need not be clear. -/
theorem isClear_index (hl : l.BracketFree) {object property : Node} {optional : Bool}
    (hn : (Node.memberExpression object property true optional).BracketFree)
    (h : (doc .plain object).IsClear q l) :
    (doc .plain (.memberExpression object property true optional)).IsClear q l := by
  rw [doc_eq (p := .memberExpression) rfl]
  have hmark : (Doc.text "?.").IsLink l := Doc.isLink_text (by decide) (by decide)
  have hobject := isClear_operand hl (hn.child (by simp)) h .memberExpression
  have hproperty : (doc .plain property).brackets.IsLink l :=
    Doc.isLink_brackets hl (balanced_doc (hn.child (by simp)))
  exact Doc.Writes.assoc ((hobject.onlyIf hmark optional).link hproperty).isClear

/-- A member: its name is outside of brackets. -/
theorem isClear_member (hl : l.BracketFree) {object property : Node} {optional : Bool}
    (hobject : object.BracketFree) (ho : (doc .plain object).IsClear q l)
    (hp : (doc .plain property).IsClear q l) :
    (doc .plain (.memberExpression object property false optional)).IsClear q l := by
  rw [doc_eq (p := .memberExpression) rfl]
  have hbefore := isClear_operand hl hobject ho .memberExpression
  refine Doc.Writes.assoc (Doc.IsAhead.append (hbefore.link ?_) hp)
  split
  all_goals exact Doc.isLink_text (by decide) (by decide)

/-! ## §8. Terms are clear. -/

/-- **Nothing that the vocabulary lacks is outside of brackets in a term.** The induction is on what
is known of the nodes. -/
theorem Term.isClear (hv : v.Lacks q) (hl : l.BracketFree) (h : Term v n) :
    n.BracketFree → (doc .plain n).IsClear q l := by
  induction h with
  | unwritten h => exact fun _ => Doc.Writes.of_halt (Grammar.halt?_of_unbound h)
  | bracketed h => exact fun hn => (isAhead_of_isBracketed hl h hn).isClear
  | this =>
    intro _
    rw [doc_eq (p := .thisExpression) rfl]
    exact Doc.isClear_text (by decide) (absent_of_isLead (by decide))
  | super =>
    intro _
    rw [doc_eq (p := .superExpression) rfl]
    exact Doc.isClear_text (by decide) (absent_of_isLead (by decide))
  | name hx =>
    intro hn
    rw [doc_eq (p := .identifier .plain) rfl]
    exact Doc.isClear_text (hn.texts _ (by simp [Node.texts])) (hv.name _ hx)
  | privateName hx =>
    intro hn
    rw [doc_eq (p := .privateIdentifier) rfl]
    have hhash : (Doc.text "#").IsLink l := Doc.isLink_text (by decide) (by decide)
    exact hhash.isAhead.append
      (Doc.isClear_text (hn.texts _ (by simp [Node.texts])) (hv.field _ hx))
  | metaProperty ho hname =>
    intro hn
    exact isClear_metaProperty hn (fun x hx => hv.name x (ho x hx)) fun x hx =>
      hv.field x (hname x hx)
  | @literal lit h =>
    intro hn
    rw [doc_eq (p := .literal) rfl]
    exact isClear_literalText hv hn.texts h
  | @regExp lit h =>
    intro hn
    rw [doc_eq (p := .regExpLiteral) rfl]
    exact isClear_regExp hn.texts fun r hr => ⟨hv.field _ (h r hr).1, hv.field _ (h r hr).2⟩
  | template h =>
    intro hn
    exact isClear_template hl hv hn h Doc.isAhead_nil.isClear
  | @tagged tag quasis holes htag h ih =>
    intro hn
    rw [doc_eq (p := .taggedTemplate) rfl]
    have htag := isClear_operand hl (hn.child (c := tag) (by simp)) (ih (hn.child (by simp)))
    exact isClear_template hl hv (hn.child (by simp)) h (htag _)
  | @sideBySide tag quasi hloose _ _ iht ihq =>
    intro hn
    rw [doc_eq (p := .taggedTemplate) rfl]
    have htag := isClear_operand hl (hn.child (c := tag) (by simp)) (iht (hn.child (by simp)))
    -- the two may run together to one word, but no word is looked for
    exact ((htag _).isAhead (hv.loose hloose)).append (ihq (hn.child (by simp)))
  | rest _ ih | spread _ ih =>
    intro hn
    rw [doc_eq (p := .restElement .plain) rfl]
    have hdots : (Doc.text "...").IsLink l := Doc.isLink_text (by decide) (by decide)
    exact hdots.isAhead.append (ih (hn.child (by simp)))
  | yield _ ih =>
    intro hn
    exact isClear_yield fun n h => ih n h (hn.child (by simp [h]))
  | await _ ih =>
    intro hn
    rw [doc_eq (p := .awaitExpression) rfl]
    have hword : (Doc.text "await ").IsLink l := Doc.isLink_text (by decide) (by decide)
    exact hword.isAhead.append
      (isClear_operandOf hl (hn.child (by simp)) (ih (hn.child (by simp))) _ _)
  | unary hop _ ih => exact fun hn => isClear_unary hl hv hn hop (ih (hn.child (by simp)))
  | update hop _ ih => exact fun hn => isClear_update hv hn hop (ih (hn.child (by simp)))
  | assign hop _ _ ihl ihr =>
    intro hn
    rw [doc_eq (p := .assignmentExpression) rfl]
    have htext : (Doc.text _).IsClear q l :=
      Doc.isClear_text (hn.texts _ (by simp [Node.texts])) (hv.field _ hop)
    have hbefore := ((ihl (hn.child (by simp))).link Doc.isLink_space).append htext
    exact (hbefore.link Doc.isLink_space).append (ihr (hn.child (by simp)))
  | default _ _ ihl ihr =>
    intro hn
    rw [doc_eq (p := .assignmentPattern) rfl]
    have hequals : (Doc.text " = ").IsLink l := Doc.isLink_text (by decide) (by decide)
    exact ((ihl (hn.child (by simp))).link hequals).append (ihr (hn.child (by simp)))
  | binary hop _ _ ihl ihr | logical hop _ _ ihl ihr =>
    intro hn
    rw [doc_eq (p := .binaryExpression) rfl]
    exact isClear_infixed hl (hn.texts _ (by simp [Node.texts])) (hn.child (by simp))
      (hn.child (by simp))
      (.inr ⟨hv.field _ hop, ihl (hn.child (by simp)), ihr (hn.child (by simp))⟩)
  | isIn | logicalIn =>
    intro hn
    rw [doc_eq (p := .binaryExpression) rfl]
    -- the operands may be anything, since there are parentheses around all of it
    exact isClear_infixed hl (by decide) (hn.child (by simp)) (hn.child (by simp)) (.inl rfl)
  | conditional _ _ _ iht ihc iha =>
    intro hn
    exact isClear_conditional hl (hn.child (by simp)) (iht (hn.child (by simp)))
      (ihc (hn.child (by simp))) (iha (hn.child (by simp)))
  | new _ ih => exact fun hn => isClear_new hl hn (ih (hn.child (by simp)))
  | call _ ih => exact fun hn => isClear_call hl hn (ih (hn.child (by simp)))
  | chain _ ih =>
    intro hn
    rw [doc_eq (p := .chainExpression) rfl]
    exact ih (hn.child (by simp))
  | index _ ih => exact fun hn => isClear_index hl hn (ih (hn.child (by simp)))
  | member _ _ iho ihp =>
    intro hn
    exact isClear_member hl (hn.child (by simp)) (iho (hn.child (by simp)))
      (ihp (hn.child (by simp)))
  | function hid _ ih =>
    intro hn
    exact isClear_function hl hn (fun n x hn' hx => hv.field x (hid n x hn' hx)) fun body hbody =>
      ih body hbody (hn.child (by simp [hbody]))
  | arrow hparams _ ih =>
    intro hn
    exact isClear_arrow hl hn (fun x o a ds hone => hv.name x (hparams x o a ds hone))
      (ih (hn.child (by simp)))
  | classLike hid _ ih =>
    intro hn
    exact isClear_class hl hn (fun n x hn' hx => hv.field x (hid n x hn' hx)) fun m hm =>
      ih m hm (hn.child (by simp [hm]))

end Estree.Outline
