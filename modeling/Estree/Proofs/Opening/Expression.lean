import Estree.Proofs.Dispatch
import Estree.Proofs.Opening.Texts

/-!
# The left edge of an expression

The text of an expression begins with the text of the operand that stands first in it, and so on
down to an operand that is put in parentheses or that begins with a text of its own. `Led os n` says
what has to be known of the nodes on this way so that no opener of `os` comes to stand at the
beginning: names and raw texts are clear of them, and the parts that are written as they stand are
of the kinds that belong there. Nothing is asked of what stands elsewhere in the tree.

Four kinds of expressions begin with an opener, and so does an assignment to an object. Wherever an
operand stands first these are put in parentheses (`Led.begins`), so they matter at the top only.

Main results:

* `Led`: what has to be known along the left edge.
* `Led.begins`: the first text of an expression is no opener.
-/

namespace Estree.Opening

open Expression (unaryOperators updateOperators isTarget)
open Dialect (doc doc_eq)

/-! ## §1. Expressions. -/

/-- The kinds that are marked to be wrapped. -/
def wrappedKinds : List Kind :=
  [.arrowFunctionExpression, .classExpression, .functionExpression, .objectExpression]

/-- Whether an expression begins with an opener unless it is wrapped. -/
def isExposed (n : Node) : Bool := wrappedKinds.contains n.kind || Emit.assignsObject n

/-- The text with which an expression begins, if it has one of its own. -/
def lead? : Node → Option String
  | .thisExpression => some "this"
  | .super => some "super"
  | .yieldExpression _ _ => some "yield"
  | .awaitExpression _ => some "await "
  | .templateLiteral _ _ => some "`"
  | .arrayExpression _ _ => some "["
  | .sequenceExpression _ => some "("
  | .newExpression _ _ _ _ => some "new "
  | .importExpression _ _ _ => some "import("
  | .privateIdentifier _ => some "#"
  | .regExpLiteral _ => some "/"
  | .tsAsExpression _ _ => some "("
  | .tsTypeAssertion _ _ => some "<"
  | _ => none

/-- The text of a literal is clear of openers: the raw text, or the digits of a big integer with the
letter after them. Without either the literal is a regular expression or a scalar. -/
def LiteralStarts (os : Openers) (l : Literal) : Prop :=
  match l.raw, l.regex, l.bigint with
  | some raw, _, _ => Starts os raw
  | none, some _, _ => True
  | none, none, some digits => Starts os digits ∧ digits ++ "n" ∉ os.texts
  | none, none, none => isScalar l.value = true

/-- Expressions that are written so that no opener stands at the beginning, unless they are exposed.
-/
inductive Led (os : Openers) : Node → Prop where
  /-- An expression with a beginning of its own. -/
  | fixed {n : Node} {x : String} : lead? n = some x → Led os n
  | wrapped {n : Node} : n.kind ∈ wrappedKinds → Led os n
  /-- A name; decorators may stand before it if their sign is no opener. -/
  | name {x : String} {optional : Bool} {annot : Option Node} {decorators : List Node} :
      Starts os x → (∀ m ∈ decorators, m.kind = .decorator ∧ os.texts.all (apart · "@") = true) →
      Led os (.identifier x optional annot decorators)
  | metaProperty {object name : Node} : (∀ x, object.identifierName? = some x → Starts os x) →
      Led os (.metaProperty object name)
  | literal {l : Literal} : LiteralStarts os l → Led os (.literal l)
  | unary {op : String} {a : Node} : op ∈ unaryOperators → Led os (.unaryExpression op true a)
  | updateBefore {op : String} {a : Node} : op ∈ updateOperators →
      Led os (.updateExpression op true a)
  | updateAfter {op : String} {a : Node} : op ∈ updateOperators → isTarget a = true → Led os a →
      Led os (.updateExpression op false a)
  | assign {op : String} {l r : Node} : isTarget l = true → Led os l →
      Led os (.assignmentExpression op l r)
  | assignArray {op : String} {elements : List (Option Node)} {annot : Option Node} {r : Node} :
      Led os (.assignmentExpression op (.arrayPattern elements annot) r)
  | assignObject {op : String} {properties : List Node} {annot : Option Node} {r : Node} :
      Led os (.assignmentExpression op (.objectPattern properties annot) r)
  | binary {op : String} {l r : Node} : Led os l → Led os (.binaryExpression op l r)
  | logical {op : String} {l r : Node} : Led os l → Led os (.logicalExpression op l r)
  | conditional {test c a : Node} : Led os test → Led os (.conditionalExpression test c a)
  /-- Type arguments stand right after the callee, so they must not go on with a name. -/
  | call {c : Node} {args : List Node} {optional : Bool} {types : Option Node} : Led os c →
      (∀ t, types = some t → os.single = true ∨ t.kind = .tsTypeParameterInstantiation) →
      Led os (.callExpression c args optional types)
  | member {o p : Node} {computed optional : Bool} : Led os o →
      Led os (.memberExpression o p computed optional)
  | tagged {tag quasi : Node} : Led os tag → quasi.kind = .templateLiteral →
      Led os (.taggedTemplateExpression tag quasi)
  | chain {e : Node} : e.kind ∈ [.memberExpression, .callExpression] → Led os e →
      Led os (.chainExpression e)
  | satisfies {e type : Node} : Led os e → Led os (.tsSatisfiesExpression e type)
  | nonNull {e : Node} : Led os e → Led os (.tsNonNullExpression e)

/-! ## §2. Operands. -/

variable {d : Dialect} {os : Openers} {n : Node}

/-- What the plain dialect does not write says anything. -/
theorem says_of_unbound {P : List Char → Prop}
    (h : (Grammar.ofDialect d).registry.get? n.kind = none) : (doc d n).Says P :=
  .of_halt (Grammar.halt?_of_unbound h)

/-- The kinds of exposed expressions. -/
def exposedKinds : List Kind := .assignmentExpression :: wrappedKinds

/-- The kinds of trees whose first text is that of a tree inside. -/
theorem kind_mem_of_isExposed (h : isExposed n = true) : n.kind ∈ exposedKinds := by
  rcases Bool.or_eq_true_iff.mp h with h | h
  · exact List.mem_cons_of_mem _ (by simpa using h)
  · unfold Emit.assignsObject at h
    split at h
    · exact List.mem_cons_self
    · exact List.mem_cons_self
    · cases h

/-- An operand that is wrapped whenever it is exposed begins with no opener. -/
theorem begins_parensIf {wrap : Bool} (hwrap : n.kind ∈ exposedKinds → wrap = true)
    (ih : isExposed n = false → (doc d n).Begins os) : ((doc d n).parensIf wrap).Begins os := by
  cases wrap with
  | true => exact ((Doc.LedBy.parens _).opens (by decide)).begins
  | false =>
    refine ih (Bool.eq_false_iff.mpr fun h => ?_)
    cases hwrap (kind_mem_of_isExposed h)

/-- Exposed kinds are wrapped before a member and before arguments. -/
theorem ranksBelow_of_exposed {k position : Kind} (hk : k ∈ exposedKinds)
    (hp : position ∈ [Kind.memberExpression, .callExpression]) :
    (Grammar.ofDialect d).scope.ranksBelow k position = true := by
  have hall : ∀ k ∈ exposedKinds, ∀ p ∈ [Kind.memberExpression, .callExpression],
      (Grammar.ofDialect d).scope.ranksBelow k p = true := by
    cases d <;> decide
  exact hall k hk position hp

/-- Exposed kinds are wrapped before an assertion. -/
theorem ranksBelow_typed_of_exposed {k position : Kind} (hk : k ∈ exposedKinds)
    (hp : position ∈ [Kind.tsNonNullExpression, .tsSatisfiesExpression]) :
    (Grammar.ofDialect .typed).scope.ranksBelow k position = true := by
  have hall : ∀ k ∈ exposedKinds, ∀ p ∈ [Kind.tsNonNullExpression, .tsSatisfiesExpression],
      (Grammar.ofDialect .typed).scope.ranksBelow k p = true := by
    decide
  exact hall k hk position hp

/-- They are wrapped, or rank low. -/
theorem rank_of_exposed {k : Kind} (hk : k ∈ exposedKinds) :
    (Grammar.ofDialect d).scope.rank k = some Rank.wrapped ∨
      (Grammar.ofDialect d).scope.rank k = some 3 := by
  revert hk
  cases d <;> cases k <;> decide

/-- Exposed kinds are wrapped before a binary operator. -/
theorem needsParens_of_exposed {m : Node} (hn : n.kind ∈ exposedKinds)
    (hm : m.kind ∈ [Kind.binaryExpression, .logicalExpression]) :
    (Grammar.ofDialect d).scope.needsParens n m false = true := by
  have hrank : (Grammar.ofDialect d).scope.rank m.kind = some Rank.binary ∨
      (Grammar.ofDialect d).scope.rank m.kind = some Rank.logical := by
    have hall : ∀ k ∈ [Kind.binaryExpression, .logicalExpression],
        (Grammar.ofDialect d).scope.rank k = some Rank.binary ∨
          (Grammar.ofDialect d).scope.rank k = some Rank.logical := by
      cases d <;> decide
    exact hall _ hm
  unfold Scope.needsParens
  rcases rank_of_exposed (d := d) hn with h | h <;> rcases hrank with h' | h' <;>
    simp [h, h', Rank.wrapped, Rank.binary, Rank.logical, Rank.unary]

/-- Exposed kinds are wrapped as the test of a conditional. -/
theorem testNeedsParens_of_exposed (hn : n.kind ∈ exposedKinds) :
    Emit.testNeedsParens (Grammar.ofDialect d).scope n = true := by
  have hconditional : (Grammar.ofDialect d).scope.rank .conditionalExpression = some 4 := by
    cases d <;> rfl
  unfold Emit.testNeedsParens
  rcases rank_of_exposed (d := d) hn with h | h <;> simp [h, hconditional, Rank.wrapped]

/-! ## §3. The first text. -/

/-- A regular expression begins with a slash. -/
theorem ledBy_regExp (n : Node) (l : Literal) : (Emit.regExp n l).LedBy "/" := by
  unfold Emit.regExp
  split
  · exact .append (.append (.append (Doc.ledBy_self _) _) _) _
  · exact .of_halt rfl

/-- A template begins with its quote. -/
theorem ledBy_template (h : n.kind = .templateLiteral) : (doc d n).LedBy "`" := by
  rw [doc_eq (p := .templateLiteral) (by rw [h]; cases d <;> rfl)]
  change (Emit.templateLiteral _ n).LedBy _
  unfold Emit.templateLiteral
  split
  · unfold Emit.template
    split
    · exact .append (.append (Doc.ledBy_self _) _) _
    · exact .of_halt rfl
  · exact .of_halt rfl

/-- The leads of the other kinds are fixed texts. -/
theorem mem_leads_of_lead? {x : String} (h : lead? n = some x) : x ∈ leads := by
  unfold lead? at h
  split at h <;> cases h <;> decide

/-- An expression with a beginning of its own begins with it. -/
theorem ledBy_of_lead? {x : String} (h : lead? n = some x) : (doc d n).LedBy x := by
  cases n with
  | thisExpression =>
    obtain rfl := Option.some.inj h
    rw [doc_eq (p := .thisExpression) (by cases d <;> rfl)]
    exact Doc.ledBy_self _
  | super =>
    obtain rfl := Option.some.inj h
    rw [doc_eq (p := .superExpression) (by cases d <;> rfl)]
    exact Doc.ledBy_self _
  | yieldExpression argument delegate =>
    obtain rfl := Option.some.inj h
    rw [doc_eq (p := .yieldExpression) (by cases d <;> rfl)]
    refine .append (Doc.ledBy_text ?_) _
    cases delegate <;> decide
  | awaitExpression =>
    obtain rfl := Option.some.inj h
    rw [doc_eq (p := .awaitExpression) (by cases d <;> rfl)]
    exact .append (Doc.ledBy_self _) _
  | templateLiteral quasis expressions =>
    obtain rfl := Option.some.inj h
    exact ledBy_template rfl
  | arrayExpression =>
    obtain rfl := Option.some.inj h
    rw [doc_eq (p := .arrayExpression) (by cases d <;> rfl)]
    exact .append (.append (Doc.ledBy_self _) _) _
  | sequenceExpression =>
    obtain rfl := Option.some.inj h
    rw [doc_eq (p := .sequenceExpression) (by cases d <;> rfl)]
    exact .parens _
  | newExpression =>
    obtain rfl := Option.some.inj h
    rw [doc_eq (p := .newExpression d) (by cases d <;> rfl)]
    cases d with
    | plain => exact .append (.append (Doc.ledBy_self _) _) _
    | typed => exact .append (.append (.append (Doc.ledBy_self _) _) _) _
  | importExpression =>
    obtain rfl := Option.some.inj h
    rw [doc_eq (p := .importExpression d) (by cases d <;> rfl)]
    cases d with
    | plain => exact .append (.append (Doc.ledBy_self _) _) _
    | typed => exact .append (.append (.append (.append (Doc.ledBy_self _) _) _) _) _
  | privateIdentifier =>
    obtain rfl := Option.some.inj h
    rw [doc_eq (p := .privateIdentifier) (by cases d <;> rfl)]
    exact .append (Doc.ledBy_self _) _
  | regExpLiteral l =>
    obtain rfl := Option.some.inj h
    rw [doc_eq (p := .regExpLiteral) (by cases d <;> rfl)]
    exact ledBy_regExp _ l
  | tsAsExpression =>
    obtain rfl := Option.some.inj h
    cases d with
    | plain => exact says_of_unbound rfl
    | typed =>
      rw [doc_eq (p := .asExpression) rfl]
      exact .parens _
  | tsTypeAssertion =>
    obtain rfl := Option.some.inj h
    cases d with
    | plain => exact says_of_unbound rfl
    | typed =>
      rw [doc_eq (p := .typeAssertion) rfl]
      exact .append (.append (.append (Doc.ledBy_self _) _) _) _
  | _ => cases h

/-- A literal begins with no opener. -/
theorem begins_literal {l : Literal} (h : LiteralStarts os l) : (doc d (.literal l)).Begins os := by
  rw [doc_eq (p := .literal) (by cases d <;> rfl)]
  change (Emit.literalText _ l).Begins os
  unfold LiteralStarts at h
  unfold Emit.literalText
  cases hraw : l.raw with
  | some raw =>
    rw [hraw] at h
    exact Doc.begins_text h
  | none =>
    cases hregex : l.regex with
    | some r => exact ((ledBy_regExp _ l).opens (by decide)).begins
    | none =>
      cases hbigint : l.bigint with
      | some digits =>
        rw [hraw, hregex, hbigint] at h
        exact Doc.begins_text_append (starts_bigint h.1 h.2)
      | none =>
        rw [hraw, hregex, hbigint] at h
        exact Doc.begins_text (starts_compact h)

/-- A decorator begins with its sign, in the dialect that has decorators. -/
theorem ledBy_decorator (h : n.kind = .decorator) : (doc d n).LedBy "@" := by
  cases d with
  | plain => exact says_of_unbound (by rw [h]; rfl)
  | typed =>
    rw [doc_eq (p := .decorator) (by rw [h]; rfl)]
    change (Emit.decorator _ n).LedBy _
    unfold Emit.decorator
    split
    · exact .append (Doc.ledBy_self _) _
    · exact .of_halt rfl

/-- Type parameters and arguments begin with a bracket, in the dialect that has types. -/
theorem ledBy_typeParameters
    (h : n.kind ∈ [.tsTypeParameterDeclaration, .tsTypeParameterInstantiation]) :
    (doc d n).LedBy "<" := by
  have hall : ∀ k ∈ [Kind.tsTypeParameterDeclaration, .tsTypeParameterInstantiation],
      Registry.base.get? k = none ∧ Registry.full.get? k = some .typeParameters := by
    decide
  cases d with
  | plain => exact says_of_unbound (hall _ h).1
  | typed =>
    rw [doc_eq (d := .typed) (n := n) (hall _ h).2]
    change (Emit.typeParameters _ n).LedBy _
    unfold Emit.typeParameters
    split
    · exact .append (.append (Doc.ledBy_self _) _) _
    · exact .append (.append (Doc.ledBy_self _) _) _
    · exact .of_halt rfl

/-- An array pattern begins with a bracket. -/
theorem ledBy_arrayPattern (elements : List (Option Node)) (annot : Option Node) :
    (doc d (.arrayPattern elements annot)).LedBy "[" := by
  have hbrackets : ∀ a : Doc, a.brackets.LedBy "[" := fun a =>
    .append (.append (Doc.ledBy_self _) _) _
  cases d with
  | plain =>
    rw [doc_eq (p := .arrayExpression) rfl]
    exact hbrackets _
  | typed =>
    rw [doc_eq (p := .arrayPattern) rfl]
    exact .append (hbrackets _) _

/-- A name begins with its decorators or with itself. -/
theorem begins_identifier {x : String} {optional : Bool} {annot : Option Node}
    {decorators : List Node} (hx : Starts os x)
    (hd : ∀ m ∈ decorators, m.kind = .decorator ∧ os.texts.all (apart · "@") = true) :
    (doc d (.identifier x optional annot decorators)).Begins os := by
  rw [doc_eq (p := .identifier d) (by cases d <;> rfl)]
  cases d with
  | plain => exact Doc.begins_text hx
  | typed =>
    change (Emit.Typed.binding _ x false optional annot decorators).Begins os
    cases decorators with
    | nil =>
      -- what may follow the name begins with no letter, so it makes no longer word of it
      have hannot : ((Grammar.ofDialect .typed).scope.annot annot).Divides := by
        cases annot with
        | none => exact Doc.divides_nil
        | some t => exact (Doc.LedBy.append (Doc.ledBy_self _) _).divides (by decide)
      have hname : (Doc.nil ++ Doc.text x).Begins os := Doc.begins_text hx
      refine .append (.append (.append hname (Doc.Divides.onlyIf _ ?_)) (Doc.Divides.onlyIf _ ?_))
        hannot
      · exact Doc.divides_text (by decide)
      · exact Doc.divides_text (by decide)
    | cons m rest =>
      obtain ⟨hkind, hapart⟩ := hd m List.mem_cons_self
      have hsign : (Emit.inlineDecorators (Grammar.ofDialect .typed).scope (m :: rest)).LedBy "@" :=
        .append (.append (ledBy_decorator hkind) _) _
      have hopens := hsign.opens_of_apart (by decide) hapart
      exact ((((hopens.append _).append _).append _).append _).begins

/-- An operand before a member or before arguments. -/
theorem begins_operand {position : Kind} (hp : position ∈ [Kind.memberExpression, .callExpression])
    (ih : isExposed n = false → (doc d n).Begins os) :
    ((Grammar.ofDialect d).scope.operand n position).Begins os :=
  begins_parensIf (fun hk => ranksBelow_of_exposed hk hp) ih

/-- The left operand of a binary operator. -/
theorem begins_infixed {m r : Node} {op : String}
    (hm : m.kind ∈ [Kind.binaryExpression, .logicalExpression])
    (ih : isExposed n = false → (doc d n).Begins os) :
    (Emit.infixed (Grammar.ofDialect d).scope m op n r).Begins os := by
  unfold Emit.infixed
  cases op == "in" with
  | true => exact ((Doc.LedBy.parens _).opens (by decide)).begins
  | false =>
    have hleft := begins_parensIf (fun hk => needsParens_of_exposed (d := d) hk hm) ih
    exact ((((hleft.opens (by decide)).append _).append _).append _).begins

/-- A meta property begins with the name of its object. -/
theorem begins_metaProperty {object name : Node}
    (h : ∀ x, object.identifierName? = some x → Starts os x) :
    (doc d (.metaProperty object name)).Begins os := by
  rw [doc_eq (p := .metaProperty) (by cases d <;> rfl)]
  change (Doc.ofExcept object.identifierName _).Begins os
  unfold Node.identifierName
  cases hname : object.identifierName? with
  | none => exact .of_halt rfl
  | some x => exact (((Doc.begins_text (h x hname)).opens (by decide)).append _).begins

/-- An operator before its operand, whether the operand is wrapped or not. -/
theorem begins_prefixed {parent : Node} {op : String} (hop : op ∈ leads) :
    (Emit.prefixed (Grammar.ofDialect d).scope parent op n).Begins os := by
  unfold Emit.prefixed
  split
  · exact (Doc.LedBy.opens hop (.append (.append (Doc.ledBy_self _) _) _)).begins
  · exact (Doc.LedBy.opens hop (.append (.append (Doc.ledBy_self _) _) _)).begins

/-- Type arguments come between the callee and the parentheses. They begin with a bracket, unless
the first character of the callee is all that matters. -/
theorem begins_call {args : List Node} {optional : Bool} {types : Option Node}
    (htypes : ∀ t, types = some t → os.single = true ∨ t.kind = .tsTypeParameterInstantiation)
    (ih : isExposed n = false → (doc d n).Begins os) :
    (doc d (.callExpression n args optional types)).Begins os := by
  rw [doc_eq (p := .callExpression d) (by cases d <;> rfl)]
  have hcallee : ((Grammar.ofDialect d).scope.operand n .callExpression ++
      Doc.onlyIf optional "?.").Begins os :=
    .append (begins_operand (by decide) ih) (.onlyIf _ (Doc.divides_text (by decide)))
  have harguments : ((Grammar.ofDialect d).scope.sequence args).Divides :=
    (Doc.LedBy.parens _).divides (by decide)
  cases d with
  | plain => exact hcallee.append harguments
  | typed =>
    refine .append ?_ harguments
    cases types with
    | none => exact hcallee.append Doc.divides_nil
    | some t =>
      -- type arguments divide the callee from what follows, or only its first character matters
      rcases htypes t rfl with hsingle | hkind
      · exact hcallee.append_of_single hsingle _
      · refine hcallee.append ?_
        exact (ledBy_typeParameters (d := .typed) (by simp [hkind])).divides (by decide)

/-- A member begins with its object, which may be in parentheses. -/
theorem begins_member {property : Node} {computed optional : Bool}
    (ih : isExposed n = false → (doc d n).Begins os) :
    (doc d (.memberExpression n property computed optional)).Begins os := by
  rw [doc_eq (p := .memberExpression) (by cases d <;> rfl)]
  refine .append (begins_operand (by decide) ih) ?_
  cases computed with
  | false =>
    refine (Doc.LedBy.append (Doc.ledBy_self _) _).divides ?_
    cases optional <;> decide
  | true =>
    refine .append (.onlyIf _ (Doc.divides_text (by decide))) ?_
    exact (Doc.LedBy.append (.append (Doc.ledBy_self _) _) _).divides (x := "[") (by decide)

/-- What can be assigned to is not exposed. -/
theorem isExposed_of_isTarget (h : isTarget n = true) : isExposed n = false := by
  cases n with
  | identifier | memberExpression => rfl
  | _ => cases h

/-- **The first text of an expression is no opener**, unless the expression is exposed. The
induction is on the way down the left edge: an operand on it is wrapped if it is exposed, and what
follows a name there begins with no letter. -/
theorem Led.begins (h : Led os n) : isExposed n = false → (doc d n).Begins os := by
  induction h with
  | fixed h => exact fun _ => ((ledBy_of_lead? h).opens (mem_leads_of_lead? h)).begins
  | wrapped hk =>
    intro hexposed
    simp [isExposed, hk] at hexposed
  | name hx hd => exact fun _ => begins_identifier hx hd
  | metaProperty hx => exact fun _ => begins_metaProperty hx
  | literal hl => exact fun _ => begins_literal hl
  | @unary op a hop =>
    intro _
    have hlead : op ∈ leads := List.mem_append_left _ (List.mem_append_right _ hop)
    rw [doc_eq (p := .unaryExpression) (by cases d <;> rfl)]
    exact begins_prefixed hlead
  | updateBefore hop =>
    intro _
    rw [doc_eq (p := .updateExpression) (by cases d <;> rfl)]
    exact (Doc.LedBy.opens (List.mem_append_right _ hop)
      (.append (Doc.ledBy_self _) _)).begins
  | updateAfter hop ha _ ih =>
    intro _
    have hdivides : ∀ op ∈ updateOperators, op.toList.head?.all (!·.isAlpha) = true := by decide
    rw [doc_eq (p := .updateExpression) (by cases d <;> rfl)]
    exact (ih (isExposed_of_isTarget ha)).append (Doc.divides_text (hdivides _ hop))
  | assign hl _ ih =>
    intro _
    rw [doc_eq (p := .assignmentExpression) (by cases d <;> rfl)]
    -- a target is never exposed, so it needs no parentheses
    have hleft := ih (isExposed_of_isTarget hl)
    exact ((((hleft.opens (by decide)).append _).append _).append _).begins
  | @assignArray _ elements annot _ =>
    intro _
    rw [doc_eq (p := .assignmentExpression) (by cases d <;> rfl)]
    have hleft := ledBy_arrayPattern (d := d) elements annot
    exact ((((hleft.opens (by decide)).append _).append _).append _ |>.append _).begins
  | assignObject =>
    intro hexposed
    cases hexposed
  | binary _ ih | logical _ ih =>
    intro _
    rw [doc_eq (p := .binaryExpression) (by cases d <;> rfl)]
    exact begins_infixed (by simp [Node.kind]) ih
  | conditional _ ih =>
    intro _
    rw [doc_eq (p := .conditionalExpression) (by cases d <;> rfl)]
    have htest := begins_parensIf (testNeedsParens_of_exposed (d := d)) ih
    exact ((((htest.opens (by decide)).append _).append _).append _).begins
  | call _ htypes ih => exact fun _ => begins_call htypes ih
  | member _ ih => exact fun _ => begins_member ih
  | tagged _ hquasi ih =>
    intro _
    rw [doc_eq (p := .taggedTemplate) (by cases d <;> rfl)]
    exact .append (begins_operand (by decide) ih) ((ledBy_template hquasi).divides (by decide))
  | chain hk _ ih =>
    intro _
    -- the members and calls of a chain are never exposed
    have hall : ∀ k ∈ [Kind.memberExpression, .callExpression], k ∉ exposedKinds := by decide
    rw [doc_eq (p := .chainExpression) (by cases d <;> rfl)]
    exact ih (Bool.eq_false_iff.mpr fun h => hall _ hk (kind_mem_of_isExposed h))
  | satisfies _ ih =>
    intro _
    cases d with
    | plain => exact says_of_unbound rfl
    | typed =>
      rw [doc_eq (p := .satisfiesExpression) rfl]
      refine ((Doc.Begins.opens (begins_parensIf (fun hk => ?_) ih) (by decide)).append _).begins
      rw [Bool.or_eq_true]
      exact .inr (ranksBelow_typed_of_exposed hk (by decide))
  | nonNull _ ih =>
    intro _
    cases d with
    | plain => exact says_of_unbound rfl
    | typed =>
      rw [doc_eq (p := .nonNullExpression) rfl]
      refine .append (begins_parensIf (fun hk => ?_) ih) (Doc.divides_text (by decide))
      exact ranksBelow_typed_of_exposed hk (by decide)

end Estree.Opening
