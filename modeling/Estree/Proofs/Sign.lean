import Estree.Proofs.Opening.Expression

/-!
# Signs before their operands

A sign and an operand that begins with the same sign would be read as one operator: `- -a` is no
`--a`. A blank keeps them apart if the operand is a unary or an update expression with the sign
before it. Operands that bind looser are put in parentheses, and all others begin with a name, a
word or a bracket (`Edge.avoids`), but for one: a literal that is given by a negative number begins
with a minus of its own, and no blank is written before it (`generate_sign_iff`).

Main results:

* `Sign.head?_compact`: only negative numbers begin with a sign among the JSON values.
* `Edge.avoids`: the left edge of an operand has no sign.
* `generate_sign_iff`: a sign is read as part of its operand when that is a negative number.
-/

namespace Estree

/-! ## §1. Signs. -/

/-- The operators that are signs. -/
inductive Sign where
  | plus | minus
  deriving DecidableEq, Repr

namespace Sign

/-- The character of a sign. -/
def char : Sign → Char
  | plus => '+'
  | minus => '-'

/-- The sign as an operator. -/
def text : Sign → String
  | plus => "+"
  | minus => "-"

/-- A sign is one character. -/
theorem toList_text (s : Sign) : s.text.toList = [s.char] := by
  cases s <;> rfl

end Sign

namespace Doc

/-- What is known of two documents in a row is known of what follows a text before them. -/
theorem Says.after_text {b c : Doc} {P : List Char → Prop} (h : (b ++ c).Says P) (x : String) :
    (text x ++ b ++ c).Says fun cs => ∃ rest, cs = x.toList ++ rest ∧ P rest := by
  intro hd l level
  obtain ⟨hxb, hc, htext⟩ := renderAll_pieces_append hd l level
  obtain ⟨-, hb, htext'⟩ := renderAll_pieces_append hxb l level
  have hbc : (b ++ c).halt? = none := by simp [hb, hc]
  refine ⟨_, ?_, h hbc l level⟩
  rw [htext, htext', (renderAll_pieces_append hbc l level).2.2]
  simp [pieces, Piece.render, after_append (a := text x) rfl]

/-- What is in parentheses starts with no sign. -/
theorem avoids_parens (d : Doc) (s : Sign) : d.parens.Avoids s.char :=
  (LedBy.parens d).avoids (by cases s <;> decide)

end Doc

/-! ## §2. Negative numbers. -/

/-- Whether a value is a number with a minus. -/
def Json.isNegative : Json → Bool
  | .number (.int i) => decide (i < 0)
  | .number (.float x) => x.negative
  | _ => false

/-- Whether a literal is given by a negative number. -/
def Literal.isNegative (l : Literal) : Bool :=
  l.raw.isNone && l.regex.isNone && l.bigint.isNone && l.value.isNegative

namespace Sign

variable {s : Sign} {cs : List Char}

/-- A number begins with a sign only if it is negative. -/
theorem head?_signed (h : Opening.Numeric cs) (negative : Prop) [Decidable negative] :
    (String.ofList (if negative then '-' :: cs else cs)).toList.head? = some s.char ↔
      s = .minus ∧ negative := by
  rw [String.toList_ofList]
  split
  next hn => cases s <;> simp [char, hn]
  next hn =>
    refine iff_of_false (h.avoids (by cases s <;> rfl)).head?_ne ?_
    exact fun hs => hn hs.2

/-- A number starts with a minus when it is negative, and with no other sign. -/
theorem head?_number (x : Number) :
    x.text.toList.head? = some s.char ↔ s = .minus ∧ (Json.number x).isNegative = true := by
  cases x with
  | int i =>
    rw [Json.isNegative, decide_eq_true_iff]
    exact head?_signed (Opening.numeric_toDigits i.natAbs) (i < 0)
  | float x =>
    refine head?_signed ?_ (x.negative = true)
    split
    · rfl
    · dsimp only
      split
      · exact Opening.numeric_plain _
      · exact Opening.numeric_scientific _

/-- **Only negative numbers begin with a sign** among the JSON values. -/
theorem head?_compact (v : Json) :
    v.compact.toList.head? = some s.char ↔ s = .minus ∧ v.isNegative = true := by
  have hother : (∀ x, v ≠ .number x) → v.isNegative = false →
      (v.compact.toList.head? = some s.char ↔ s = .minus ∧ v.isNegative = true) := by
    intro hv hpositive
    have havoids := Opening.avoids_compact (c := s.char) (by cases s <;> decide) hv
    refine iff_of_false havoids.head?_ne fun h => ?_
    rw [hpositive] at h
    cases h.2
  cases v with
  | number x => exact head?_number x
  | null | bool | string | array | object => exact hother (by simp) rfl

end Sign

namespace Sign

open Expression (unaryOperators isTarget)
open Dialect (doc doc_eq)
open Opening (Avoids lead? says_of_unbound)

/-! ## §3. The left edge of an operand. -/

/-- The kinds of expressions that are put in parentheses after a sign and before a member. -/
def looseKinds : List Kind :=
  [.arrowFunctionExpression, .classExpression, .functionExpression, .objectExpression,
    .assignmentExpression, .binaryExpression, .logicalExpression, .conditionalExpression,
    .tsSatisfiesExpression]

/-- No raw text and no big integer of a literal begins with the sign. -/
def LiteralAvoids (s : Sign) (l : Literal) : Prop :=
  match l.raw, l.regex, l.bigint with
  | some raw, _, _ => raw.toList.head? ≠ some s.char
  | none, none, some digits => digits.toList.head? ≠ some s.char
  | _, _, _ => True

/-- Expressions that are written so that the sign stands at the beginning only if it is an operator
or the minus of a number. Nothing is asked of what stands elsewhere in the tree. -/
inductive Edge (s : Sign) : Node → Prop where
  /-- An expression with a beginning of its own. -/
  | fixed {n : Node} {x : String} : lead? n = some x → Edge s n
  | loose {n : Node} : n.kind ∈ looseKinds → Edge s n
  | name {x : String} {optional : Bool} {annot : Option Node} {decorators : List Node} :
      Avoids s.char x.toList → (∀ m ∈ decorators, m.kind = .decorator) →
      Edge s (.identifier x optional annot decorators)
  | metaProperty {object name : Node} :
      (∀ x, object.identifierName? = some x → Avoids s.char x.toList) →
      Edge s (.metaProperty object name)
  | literal {l : Literal} : LiteralAvoids s l → Edge s (.literal l)
  | unary {op : String} {a : Node} : op ∈ unaryOperators → Edge s (.unaryExpression op true a)
  | update {op : String} {before : Bool} {a : Node} : isTarget a = true → Edge s a →
      Edge s (.updateExpression op before a)
  | call {c : Node} {args : List Node} {optional : Bool} {types : Option Node} : Edge s c →
      Edge s (.callExpression c args optional types)
  | member {o p : Node} {computed optional : Bool} : Edge s o →
      Edge s (.memberExpression o p computed optional)
  | tagged {tag quasi : Node} : Edge s tag → Edge s (.taggedTemplateExpression tag quasi)
  | chain {e : Node} : e.kind ∈ [.memberExpression, .callExpression] → Edge s e →
      Edge s (.chainExpression e)
  | nonNull {e : Node} : Edge s e → Edge s (.tsNonNullExpression e)

variable {s : Sign} {d : Dialect} {n : Node}

/-- The kinds of expressions that can begin with a sign; none of them stands before a member without
parentheses. -/
def signedKinds : List Kind := .literal :: .unaryExpression :: .updateExpression :: looseKinds

/-- What can begin with a sign is wrapped before a member and before arguments, if it is written. -/
theorem ranksBelow_of_signed {k position : Kind} (hk : k ∈ signedKinds)
    (hp : position ∈ [Kind.memberExpression, .callExpression, .tsNonNullExpression])
    (hposition : ((Grammar.ofDialect d).registry.get? position).isSome) :
    (Grammar.ofDialect d).scope.ranksBelow k position = true ∨
      (Grammar.ofDialect d).registry.get? k = none := by
  have hall : ∀ k ∈ signedKinds,
      ∀ p ∈ [Kind.memberExpression, .callExpression, .tsNonNullExpression],
        ((Grammar.ofDialect d).registry.get? p).isSome →
        (Grammar.ofDialect d).scope.ranksBelow k p = true ∨
          (Grammar.ofDialect d).registry.get? k = none := by
    cases d <;> decide
  exact hall k hk position hp hposition

/-- An operand before a member or before arguments. -/
theorem avoids_operand {position : Kind}
    (hp : position ∈ [Kind.memberExpression, .callExpression, .tsNonNullExpression])
    (hposition : ((Grammar.ofDialect d).registry.get? position).isSome)
    (ih : n.kind ∉ signedKinds → (doc d n).Avoids s.char) :
    ((Grammar.ofDialect d).scope.operand n position).Avoids s.char := by
  rw [Scope.operand]
  cases hwrap : (Grammar.ofDialect d).scope.ranksBelow n.kind position with
  | true => exact Doc.avoids_parens _ s
  | false =>
    by_cases hk : n.kind ∈ signedKinds
    · refine says_of_unbound ((ranksBelow_of_signed hk hp hposition).resolve_left ?_)
      simp [hwrap]
    · exact ih hk

/-- What an expression has of its own at the beginning is no sign. -/
theorem avoids_of_lead? {x : String} (h : lead? n = some x) : (doc d n).Avoids s.char := by
  refine (Opening.ledBy_of_lead? h).avoids ?_
  unfold lead? at h
  cases s <;> split at h <;> cases h <;> decide

/-- A name begins with its decorators or with itself. -/
theorem avoids_identifier {x : String} {optional : Bool} {annot : Option Node}
    {decorators : List Node} (hx : Avoids s.char x.toList)
    (hd : ∀ m ∈ decorators, m.kind = .decorator) :
    (doc d (.identifier x optional annot decorators)).Avoids s.char := by
  rw [doc_eq (p := .identifier d) (by cases d <;> rfl)]
  cases d with
  | plain => exact Doc.avoids_text hx
  | typed =>
    change (Emit.Typed.binding _ x false optional annot decorators).Avoids s.char
    cases decorators with
    | nil =>
      have hname : (Doc.nil ++ Doc.text x).Avoids s.char := Doc.avoids_text hx
      exact ((hname.append _).append _).append _
    | cons m rest =>
      have hsign := Opening.ledBy_decorator (d := .typed) (hd m List.mem_cons_self)
      have havoids : (doc .typed m).Avoids s.char := hsign.avoids (by cases s <;> decide)
      exact (((((havoids.append _).append _).append _).append _).append _).append _

/-- What can be assigned to has no sign of its own. -/
theorem kind_of_isTarget (h : isTarget n = true) : n.kind ∉ signedKinds := by
  cases n with
  | identifier | memberExpression => simp [Node.kind, signedKinds, looseKinds]
  | _ => cases h

/-- **The left edge of an operand has no sign**, unless the operand is of a kind that can have one.
The induction is on the way down the left edge. -/
theorem Edge.avoids (h : Edge s n) : n.kind ∉ signedKinds → (doc d n).Avoids s.char := by
  induction h with
  | fixed h => exact fun _ => avoids_of_lead? h
  | loose h => exact fun hk => absurd (by simp [signedKinds, h]) hk
  | name hx hd => exact fun _ => avoids_identifier hx hd
  | @metaProperty object name hx =>
    intro _
    rw [doc_eq (p := .metaProperty) (by cases d <;> rfl)]
    change (Doc.ofExcept object.identifierName _).Avoids s.char
    unfold Node.identifierName
    cases hname : object.identifierName? with
    | none => exact .of_halt rfl
    | some x => exact ((Doc.avoids_text (hx x hname)).append _).append _
  | literal | unary | update => exact fun hk => absurd (by simp [Node.kind, signedKinds]) hk
  | call _ ih =>
    intro _
    rw [doc_eq (p := .callExpression d) (by cases d <;> rfl)]
    have hregistered : ((Grammar.ofDialect d).registry.get? .callExpression).isSome := by
      cases d <;> rfl
    have hcallee := avoids_operand (by decide) hregistered ih
    -- the typed dialect has the type arguments between the callee and the arguments
    cases d with
    | plain => exact (hcallee.append _).append _
    | typed => exact ((hcallee.append _).append _).append _
  | member _ ih =>
    intro _
    rw [doc_eq (p := .memberExpression) (by cases d <;> rfl)]
    exact (avoids_operand (by decide) (by cases d <;> rfl) ih).append _
  | tagged _ ih =>
    intro _
    rw [doc_eq (p := .taggedTemplate) (by cases d <;> rfl)]
    exact (avoids_operand (by decide) (by cases d <;> rfl) ih).append _
  | chain hk _ ih =>
    intro _
    -- a chain is around a member or a call, and neither kind can have a sign
    have hall : ∀ k ∈ [Kind.memberExpression, .callExpression], k ∉ signedKinds := by decide
    rw [doc_eq (p := .chainExpression) (by cases d <;> rfl)]
    exact ih (hall _ hk)
  | nonNull _ ih =>
    intro _
    cases d with
    | plain => exact says_of_unbound rfl
    | typed =>
      rw [doc_eq (p := .nonNullExpression) rfl]
      exact (avoids_operand (by decide) rfl ih).append _

/-! ## §4. What follows a sign. -/

/-- Whether a node is a literal that is given by a negative number. -/
def isNegative : Node → Bool
  | .literal l => l.isNegative
  | _ => false

/-- A literal begins with the sign only if it is a negative number. -/
theorem says_literal {l : Literal} (h : LiteralAvoids s l) :
    (doc d (.literal l)).Says fun cs =>
      cs.head? = some s.char ↔ s = .minus ∧ l.isNegative = true := by
  have hother : ∀ {cs : List Char}, l.isNegative = false → cs.head? ≠ some s.char →
      (cs.head? = some s.char ↔ s = .minus ∧ l.isNegative = true) := by
    intro cs hl hcs
    refine iff_of_false hcs fun hs => ?_
    rw [hl] at hs
    cases hs.2
  rw [doc_eq (p := .literal) (by cases d <;> rfl)]
  change (Emit.literalText _ l).Says _
  unfold LiteralAvoids at h
  unfold Emit.literalText
  cases hraw : l.raw with
  | some raw =>
    rw [hraw] at h
    exact Doc.says_text (hother (by simp [Literal.isNegative, hraw]) h)
  | none =>
    cases hregex : l.regex with
    | some r =>
      have hslash := (Opening.ledBy_regExp (.literal l) l).avoids (c := s.char)
        (by cases s <;> decide)
      exact hslash.mono fun cs hp => hother (by simp [Literal.isNegative, hregex]) hp.head?_ne
    | none =>
      cases hbigint : l.bigint with
      | some digits =>
        have hhead : digits.toList.head? ≠ some s.char := by rwa [hraw, hregex, hbigint] at h
        refine .append (P := (· = digits.toList)) (Q := (· = ['n'])) (Doc.says_text rfl)
          (Doc.says_text rfl) ?_
        rintro _ _ rfl rfl
        refine hother (by simp [Literal.isNegative, hbigint]) ?_
        cases hdigits : digits.toList with
        | nil => cases s <;> decide
        | cons c cs =>
          rw [hdigits] at hhead
          exact hhead
      | none =>
        -- what is left is written by its value, with the sign of a number
        refine Doc.says_text ?_
        rw [head?_compact, Literal.isNegative, hraw, hregex, hbigint]
        rfl

/-- After a sign the looser kinds are wrapped, if they are written. -/
theorem needsParens_of_loose (hn : n.kind ∈ looseKinds) :
    (Grammar.ofDialect d).scope.needsParens n (.unaryExpression s.text true n) false = true ∨
      (Grammar.ofDialect d).registry.get? n.kind = none := by
  -- each of them has a rank below that of unary operators, or is wrapped
  have hall : ∀ k ∈ looseKinds, (Grammar.ofDialect d).registry.get? k = none ∨
      ((Grammar.ofDialect d).scope.rank k).any
        (fun r => r == Rank.wrapped || decide (r < Rank.unary)) = true := by
    cases d <;> decide
  have hunary : (Grammar.ofDialect d).scope.rank .unaryExpression = some Rank.unary := by
    cases d <;> rfl
  refine (hall n.kind hn).elim .inr fun hrank => .inl ?_
  obtain ⟨r, hr, hlow⟩ := Option.any_eq_true _ _ |>.mp hrank
  unfold Scope.needsParens
  rw [hr, show (Node.unaryExpression s.text true n).kind = .unaryExpression from rfl, hunary]
  dsimp only
  split
  · rfl
  next hne =>
    have hlt : r < Rank.unary := by simpa [hne] using hlow
    have hr' : r ≠ Rank.unary := Nat.ne_of_lt hlt
    simp [hr', hlt]

/-- A literal is not wrapped after a sign. -/
theorem kind_of_needsParens
    (h : (Grammar.ofDialect d).scope.needsParens n (.unaryExpression s.text true n) false = true) :
    n.kind ≠ .literal := by
  intro hk
  have hrank : (Grammar.ofDialect d).scope.rank .literal = some 18 ∧
      (Grammar.ofDialect d).scope.rank .unaryExpression = some Rank.unary := by
    cases d <;> exact ⟨rfl, rfl⟩
  unfold Scope.needsParens at h
  rw [hk, hrank.1, show (Node.unaryExpression s.text true n).kind = .unaryExpression from rfl,
    hrank.2] at h
  cases h

/-- Only a literal is a negative number. -/
theorem isNegative_eq_false (h : n.kind ≠ .literal) : isNegative n = false := by
  unfold isNegative
  split
  · exact absurd rfl h
  · rfl

/-- An expression with a beginning of its own is of no kind that can begin with a sign. -/
theorem kind_of_lead? {x : String} (h : lead? n = some x) : n.kind ∉ signedKinds := by
  unfold lead? at h
  split at h <;> cases h <;> simp [Node.kind, signedKinds, looseKinds]

/-- What stands between a sign and an operand without parentheses. -/
def gap (s : Sign) (n : Node) : Doc :=
  .onlyIf (Emit.isLong s.text || Emit.repeatsSign n s.text) " "

/-- The gap is the blank that the printer writes. -/
theorem gap_eq (s : Sign) (n : Node) :
    s.gap n = .onlyIf (Emit.repeatsSign n s.text) " " := by
  have hshort : Emit.isLong s.text = false := by cases s <;> decide
  rw [gap, hshort, Bool.false_or]

/-- An operator that does not repeat the sign does not begin with it. -/
theorem avoids_of_startsWith {op : String} (hne : op.toList ≠ [])
    (h : op.startsWith s.text = false) : Avoids s.char op.toList := by
  obtain ⟨c, cs, hcs⟩ := List.exists_cons_of_ne_nil hne
  rw [hcs]
  refine bne_iff_ne.mpr fun hc => ?_
  have hprefix : op.startsWith s.text = true := by
    rw [String.startsWith_string_iff, toList_text, hcs, hc]
    exact ⟨cs, rfl⟩
  rw [h] at hprefix
  cases hprefix

/-- A unary operator repeats a sign when it starts with it. -/
theorem repeatsSign_unary (op : String) (a : Node) :
    Emit.repeatsSign (.unaryExpression op true a) s.text = op.startsWith s.text := by
  cases s <;> rfl

/-- An update before its operand repeats a sign when it starts with it. -/
theorem repeatsSign_update (op : String) (a : Node) :
    Emit.repeatsSign (.updateExpression op true a) s.text = op.startsWith s.text := by
  cases s <;> rfl

/-- A unary expression begins with its operator. -/
theorem avoids_unary {op : String} {a : Node} (hop : op ∈ unaryOperators)
    (h : op.startsWith s.text = false) : (doc d (.unaryExpression op true a)).Avoids s.char := by
  have hall : ∀ op ∈ unaryOperators, op.toList ≠ [] := by decide
  have havoids := Doc.avoids_text (avoids_of_startsWith (hall op hop) h)
  rw [doc_eq (p := .unaryExpression) (by cases d <;> rfl)]
  change (Emit.prefixed _ _ _ _).Avoids s.char
  unfold Emit.prefixed
  split
  · exact (havoids.append _).append _
  · exact (havoids.append _).append _

/-- An update expression begins with its operator or with its target. -/
theorem avoids_update {op : String} {before : Bool} {a : Node} (ha : (doc d a).Avoids s.char)
    (h : before = true → op.startsWith s.text = false) :
    (doc d (.updateExpression op before a)).Avoids s.char := by
  rw [doc_eq (p := .updateExpression) (by cases d <;> rfl)]
  cases before with
  | false => exact ha.append _
  | true =>
    by_cases hop : op.toList = []
    · refine Doc.Says.append (P := (· = [])) (Doc.says_text hop) ha ?_
      rintro _ ds rfl hds
      exact hds
    · exact (Doc.avoids_text (avoids_of_startsWith hop (h rfl))).append _

/-- **An operand without parentheses begins with the sign only if it is a negative number.** -/
theorem Edge.says_operand (h : Edge s n)
    (hw : (Grammar.ofDialect d).scope.needsParens n (.unaryExpression s.text true n) false
      = false) :
    (s.gap n ++ doc d n).Says fun cs =>
      cs.head? = some s.char ↔ s = .minus ∧ isNegative n = true := by
  have hdone : n.kind ≠ .literal → (Emit.repeatsSign n s.text = false → (doc d n).Avoids s.char) →
      (s.gap n ++ doc d n).Says fun cs =>
        cs.head? = some s.char ↔ s = .minus ∧ isNegative n = true := by
    intro hn havoids
    have hall : (s.gap n ++ doc d n).Avoids s.char := by
      rw [gap_eq]
      cases hrepeats : Emit.repeatsSign n s.text with
      | true => exact (Doc.avoids_text (x := " ") (by cases s <;> decide)).append _
      | false => exact .nil_append (havoids hrepeats)
    refine hall.mono fun cs hcs => iff_of_false hcs.head?_ne fun hs => ?_
    rw [isNegative_eq_false hn] at hs
    cases hs.2
  -- the kinds that can have a sign are looked at one by one; the left edge of any other has none
  by_cases hk : n.kind ∈ signedKinds
  · cases h with
    | fixed h => exact absurd hk (kind_of_lead? h)
    | loose h =>
      have hunbound := (needsParens_of_loose (s := s) (d := d) h).resolve_left (by simp [hw])
      exact .append (P := fun _ => True) (Q := fun _ => False) (fun _ _ _ => trivial)
        (says_of_unbound hunbound) fun _ _ _ hfalse => hfalse.elim
    | literal hl =>
      have hrepeats : ∀ l, Emit.repeatsSign (.literal l) s.text = false := by
        cases s <;> exact fun _ => rfl
      rw [gap_eq, hrepeats]
      exact .nil_append (says_literal hl)
    | unary hop =>
      refine hdone (by simp [Node.kind]) fun hrepeats => avoids_unary hop ?_
      rwa [repeatsSign_unary] at hrepeats
    | @update op before a ha hedge =>
      refine hdone (by simp [Node.kind]) fun hrepeats =>
        avoids_update (hedge.avoids (kind_of_isTarget ha)) ?_
      rintro rfl
      rwa [repeatsSign_update] at hrepeats
    | _ => simp [Node.kind, signedKinds, looseKinds] at hk
  · refine hdone (fun heq => hk (by simp [heq, signedKinds])) fun _ => h.avoids hk

/-- What follows a sign begins with it only if it is a negative number. -/
theorem Edge.says_unary (h : Edge s n) :
    (doc d (.unaryExpression s.text true n)).Says fun cs => ∃ rest, cs = s.char :: rest ∧
      (rest.head? = some s.char ↔ s = .minus ∧ isNegative n = true) := by
  rw [doc_eq (p := .unaryExpression) (by cases d <;> rfl)]
  change (Emit.prefixed _ _ _ _).Says _
  -- the sign is the first character, so only the second is left to look at
  have hfound : ∀ {b c : Doc}, (b ++ c).Says (fun cs =>
      cs.head? = some s.char ↔ s = .minus ∧ isNegative n = true) →
      (Doc.text s.text ++ b ++ c).Says fun cs => ∃ rest, cs = s.char :: rest ∧
        (rest.head? = some s.char ↔ s = .minus ∧ isNegative n = true) := by
    intro b c hbc
    refine (hbc.after_text s.text).mono ?_
    rintro cs ⟨rest, rfl, hrest⟩
    exact ⟨rest, by rw [toList_text]; rfl, hrest⟩
  unfold Emit.prefixed
  split
  next hw =>
    -- an operand in parentheses begins with the parenthesis
    have hparens : (Doc.onlyIf (Emit.isLong s.text) " " ++
        (Grammar.ofDialect d).scope.parenthesized n).Avoids s.char := by
      have hshort : Emit.isLong s.text = false := by cases s <;> decide
      rw [hshort]
      exact Doc.Says.nil_append (Doc.avoids_parens _ s)
    refine hfound (hparens.mono fun cs hcs => iff_of_false hcs.head?_ne fun hs => ?_)
    rw [isNegative_eq_false (kind_of_needsParens hw)] at hs
    cases hs.2
  next hw => exact hfound (h.says_operand (by simpa using hw))

/-- **A sign is read as part of what follows it exactly if that is a negative number.** -/
theorem generate_sign_iff (h : Edge s n) {l : Layout} {text : String}
    (ht : (Generator.ofDialect d l).generate (.unaryExpression s.text true n) = .ok text) :
    ∃ rest, text = s.text ++ rest ∧
      (rest.toList.head? = some s.char ↔ s = .minus ∧ isNegative n = true) := by
  obtain ⟨hhalt, rfl⟩ := Generator.generate_eq_ok_iff.mp ht
  obtain ⟨rest, hrest, hiff⟩ := h.says_unary hhalt l .start
  refine ⟨String.ofList rest, String.toList_inj.mp ?_, by rwa [String.toList_ofList]⟩
  rw [String.toList_append, toList_text, String.toList_ofList]
  exact hrest

/-- A decrement after a minus, and a member of a negative number: a blank and a parenthesis. -/
theorem generate_sign_iff_member :
    let one : Node := .literal { value := .number (.int (-1)) }
    let n : Node := .updateExpression "--" true
      (.memberExpression one (.identifier "a" false none []) false false)
    (Edge .minus n ∧ (Generator.ofDialect .plain {}).generate (.unaryExpression "-" true n) =
      .ok "- --(-1).a") ∧
    ∃ rest, "- --(-1).a" = "-" ++ rest ∧
      (rest.toList.head? = some '-' ↔ Sign.minus = .minus ∧ isNegative n = true) := by
  intro one n
  have h : Edge .minus n := .update rfl (.member (.literal trivial))
  have ht : (Generator.ofDialect .plain {}).generate (.unaryExpression "-" true n) =
      .ok "- --(-1).a" := by with_unfolding_all rfl
  exact ⟨⟨h, ht⟩, generate_sign_iff (s := .minus) h ht⟩

/-- The literal of a negative number. -/
def negativeOne : Node := .literal { value := .number (.int (-1)) }

/-- **A minus before a negative number is read as a decrement**, where one before a unary minus has
a blank after it. -/
theorem generate_negativeOne :
    Edge .minus negativeOne ∧ ∀ d : Dialect,
      (Generator.ofDialect d {}).generate (.unaryExpression "-" true negativeOne) = .ok "--1" ∧
      (Generator.ofDialect d {}).generate (.unaryExpression "-" true (.unaryExpression "-" true
        (.literal { value := .number (.int 1) }))) = .ok "- -1" := by
  refine ⟨.literal trivial, fun d => ?_⟩
  cases d <;> exact ⟨rfl, by with_unfolding_all rfl⟩

end Sign

end Estree
