import Estree.Proofs.Expression.Positions
import Estree.Proofs.Expression.Spelling

/-!
# Expressions are written as they are read

The document of every tree spells tokens that the grammar reads as the tree (`Written`), if the
documents of its parts do. There is one lemma for each procedure. Each one takes its parts in
parentheses or without, by what is known of the position (`Reads.parensIf`), and puts the tokens
together as the production of the grammar has them.

The dialect `g` of the grammar and the dialect `d` of the writer are two parameters: what is written
without assertions is read by either grammar, whichever dialect has written it. Only the lemmas
about assertions need the typed dialect on both sides.

Main results:

  * `written_unary`, `written_binary`, `written_call` and so on: one lemma for each sort of tree,
    for
    both dialects;
  * `written_as`, `written_satisfies`, `written_typeAssertion`, `written_nonNull`: the assertions.
-/

namespace Estree.Expression

/-! ## §1. Documents that are read as a tree. -/

/-- The document spells tokens that the grammar of a dialect reads as the tree. -/
def Reads (g : Dialect) (d : Doc) (a : NonTerminal) (n : Node) : Prop :=
  ∃ ts, Spells d ts ∧ Derives g a ts n

namespace Reads

variable {g : Dialect} {d : Doc} {a b : NonTerminal} {n : Node}

/-- What is read as a nonterminal is read as every looser one. -/
theorem mono (h : Reads g d a n) (hab : a ≤ b) : Reads g d b n := by
  obtain ⟨ts, hs, hd⟩ := h
  exact ⟨ts, hs, hd.mono hab⟩

/-- In parentheses every tree is a primary expression. -/
theorem parens (h : Reads g d .assignment n) : Reads g d.parens .primary n := by
  obtain ⟨ts, hs, hd⟩ := h
  exact ⟨_, hs.parens, .parens (.unit (by decide) hd)⟩

/-- A tree in a position, in parentheses where it would not stand otherwise. -/
theorem parensIf {wrapped : Bool} (h : Reads g d a n) (ha : a ≤ .assignment)
    (hp : wrapped = true → .primary ≤ b) (hw : wrapped = false → a ≤ b) :
    Reads g (d.parensIf wrapped) b n := by
  cases wrapped with
  | false => exact h.mono (hw rfl)
  | true => exact (h.mono ha).parens.mono (hp rfl)

end Reads

/-- The dialect `d` writes the tree as what the grammar of `g` reads as an `a`, and ranks it as
such. -/
structure Written (g d : Dialect) (a : NonTerminal) (n : Node) : Prop where
  stands : Stands d a n
  reads : Reads g (d.doc n) a n

variable {g d : Dialect} {a b c : NonTerminal} {n : Node}

/-- Between delimiters there may be any tree. -/
theorem Written.reads_assignment (h : Written g d a n) :
    Reads g (d.doc n) .assignment n :=
  h.reads.mono h.stands.le_assignment

/-- A tree is written as what the document of its procedure is read as. -/
theorem written_of {p : Procedure} {r : Nat}
    (hp : (Grammar.ofDialect d).registry.get? n.kind = some p)
    (hr : (Grammar.ofDialect d).scope.rank n.kind = some r) (hs : Shape r a n)
    (h : Reads g (p.doc (Grammar.ofDialect d).scope n) a n) : Written g d a n := by
  refine ⟨⟨r, hr, hs⟩, ?_⟩
  rwa [Dialect.doc_eq hp]

/-- The arguments of a call in their parentheses. -/
theorem reads_arguments {ns : List Node} (h : ∀ n ∈ ns, ∃ a, Written g d a n) :
    ∃ items : List Item, trees items = ns ∧ (∀ i ∈ items, Derives g .assignment i.1 i.2) ∧
      Spells (argumentsDoc d ns) ("(" :: (commaSeparated items ++ [")"])) := by
  obtain ⟨items, htrees, hitems, hspells⟩ := spells_sequence (g := id) fun n hn =>
    (h n hn).elim fun _ hw => hw.reads_assignment
  exact ⟨items, by rw [htrees, List.map_id], hitems, hspells⟩

/-! ## §2. Names and operators before their operands. -/

/-- A name is spelled as it is, in the typed dialect with no decorators and no annotation. -/
theorem spells_identifier {x : String} (hx : IsIdentifier x) : Spells (d.doc (named x)) [x] :=
  (Spells.word hx.1).of_line?_eq (line?_named d x)

/-- A name is a primary expression. -/
theorem written_identifier {x : String} (hx : IsIdentifier x) : Written g d .primary (named x) :=
  ⟨⟨20, by cases d <;> rfl, .tight (.inr rfl) (by decide)⟩, _, spells_identifier hx, .identifier hx⟩

/-- An operator right before its operand, or with a space where the two would be read as one. -/
theorem spells_operator {op : Token} {us : List Token} {e : Doc} {space : Bool} (hop : IsToken op)
    (h : Spells e us) (hs : space = false → Apart op us) :
    Spells (.text op ++ .onlyIf space " " ++ e) (op :: us) := by
  cases space with
  | false => exact (h.after hop (hs rfl)).of_line?_eq (by simp [Doc.onlyIf])
  | true => exact h.spaced hop

/-- The unary operators that are signs. -/
def signs : List Token := ["+", "-", "~", "!"]

/-- A unary operator of one character is a sign. -/
theorem mem_signs {op : Token} (hop : op ∈ unaryOperators) (hl : Emit.isLong op = false) :
    op ∈ signs := by
  have hall : ∀ op ∈ unaryOperators, Emit.isLong op = false → op ∈ signs := by decide
  exact hall op hop hl

/-- A parenthesis or the bracket of an assertion does not continue a sign or such a bracket. -/
theorem apart_opening {op t : Token} (hop : op ∈ ">" :: signs) (ht : t ∈ ["(", "<"])
    (ts : List Token) : Apart op (t :: ts) := by
  have hall : ∀ op ∈ ">" :: signs, ∀ t ∈ ["(", "<"],
      (t.toList.head?.all fun c => !continues op c) = true := by decide
  rintro _ ⟨⟩ c hc
  simpa using (Option.all_eq_true _ _).mp (hall op hop t ht) c hc

/-- A sign is not read as part of the operand, unless that begins with the sign. -/
theorem apart_of_not_repeatsSign {op : Token} {us : List Token} (hop : op ∈ signs)
    (hd : Derives g .unary us n) (hs : Emit.repeatsSign n op = false) : Apart op us := by
  have hword : ∀ op ∈ signs, isWord op = false := by decide
  obtain ⟨t, more, rfl, ht⟩ := hd.opens_unary
  rcases ht with ht | ht | ⟨ht, m, hn⟩
  · exact apart_of_isWord (hword op hop) ht
  · exact apart_opening (List.mem_cons_of_mem _ hop) ht more
  · have hall : ∀ op ∈ signs, ∀ t ∈ unaryOperators ++ updateOperators,
        (if op = "+" ∨ op = "-" then t.startsWith op else false) = false →
        (t.toList.head?.all fun c => !continues op c) = true := by decide +kernel
    have hrepeats : (if op = "+" ∨ op = "-" then t.startsWith op else false) = false := by
      rcases hn with rfl | rfl
      · exact hs
      · exact hs
    rintro _ ⟨⟩ c hc
    simpa using (Option.all_eq_true _ _).mp (hall op hop t ht hrepeats) c hc

/-- A unary operator and its operand, in parentheses where that binds less tightly. -/
theorem written_unary {op : Token} (hop : op ∈ unaryOperators) (h : Written g d a n) :
    Written g d .unary (.unaryExpression op true n) := by
  have htoken : ∀ op ∈ unaryOperators, isWord op = true ∨ op ∈ punctuators := by decide
  refine written_of (p := .unaryExpression) (by cases d <;> rfl) (by cases d <;> rfl)
    (.unary rfl rfl) ?_
  change Reads g (Emit.prefixed _ _ op n) _ _
  unfold Emit.prefixed
  split
  · obtain ⟨ts, hs, hd⟩ := h.reads_assignment
    exact ⟨_, spells_operator (htoken op hop) hs.parens
        fun hl => apart_opening (List.mem_cons_of_mem _ (mem_signs hop hl)) (by decide) _,
      .unaryOperator hop (.mono (by decide) (.parens (.unit (by decide) hd)))⟩
  next hw =>
    obtain ⟨ts, hs, hd⟩ := h.reads.mono (h.stands.le_unary (by cases d <;> rfl)
      (Bool.not_eq_true _ ▸ hw))
    refine ⟨_, spells_operator (htoken op hop) hs fun hl => ?_, .unaryOperator hop hd⟩
    rw [Bool.or_eq_false_iff] at hl
    exact apart_of_not_repeatsSign (mem_signs hop hl.1) hd hl.2

/-- The operand of `await` stands in parentheses where it binds less tightly. -/
theorem written_await (h : Written g d a n) : Written g d .unary (.awaitExpression n) := by
  refine written_of (p := .awaitExpression) (by cases d <;> rfl) (by cases d <;> rfl)
    (.unary rfl rfl) ?_
  have hpos : (Grammar.ofDialect d).scope.needsParens n (.awaitExpression n) false = false →
      a ≤ .unary := h.stands.le_unary (by cases d <;> rfl)
  obtain ⟨ts, hs, hd⟩ := h.reads.parensIf h.stands.le_assignment (fun _ => by decide) hpos
  refine ⟨_, (hs.spaced (t := "await") (.inl (by decide))).of_line?_eq ?_, .await hd⟩
  simp [Procedure.doc, Emit.awaitExpression, Scope.operandOf]

/-- An increment or decrement, before or after what it changes: a target needs no parentheses. -/
theorem written_update {op : Token} {isPrefix : Bool} (hop : op ∈ updateOperators)
    (ht : isTarget n = true) (h : Written g d a n) :
    Written g d .update (.updateExpression op isPrefix n) := by
  have htight : ∀ a ∈ [NonTerminal.primary, .member, .call], a ≤ .leftHandSide ∧ a ≤ .unary := by
    decide
  have hops : ∀ op ∈ updateOperators, op ∈ solidTokens ∧ op ∈ punctuators ∧
      op.toList.head? ≠ some '=' := by decide
  obtain ⟨hleft, hunary⟩ := htight a (h.stands.tight_of_target ht)
  obtain ⟨hsolid, hpunctuator, hne⟩ := hops op hop
  refine written_of (p := .updateExpression) (by cases d <;> rfl) (by cases d <;> rfl)
    (.update rfl rfl) ?_
  cases isPrefix with
  | true =>
    obtain ⟨ts, hs, hd⟩ := h.reads.mono hunary
    exact ⟨_, hs.after (.inr hpunctuator) fun _ _ c _ => continues_of_solid hsolid c,
      .updateBefore hop ht hd⟩
  | false =>
    obtain ⟨ts, hs, hd⟩ := h.reads.mono hleft
    refine ⟨_, hs.append (.solid hsolid) ?_, .updateAfter hop ht hd⟩
    rintro _ ⟨⟩
    exact ⟨hpunctuator, hne⟩

/-! ## §3. Operators between operands. -/

/-- Operands of the sorts that an operator takes make an operation. -/
theorem operation_derives {op : Token} (hop : op ∈ binaryOperators ++ logicalOperators)
    {l r : List Token} {nl nr : Node} (hl : Derives g (operandSort op false) l nl)
    (hr : Derives g (operandSort op true) r nr) :
    Derives g (operatorSort op) (l ++ op :: r) (operation op nl nr) := by
  have hall : ∀ op ∈ binaryOperators ++ logicalOperators, op = "**" ∨ op = "??" ∨
      (op ∈ (operatorSort op).operators ∧ operandSort op false = operatorSort op ∧
        operandSort op true ∈ (operatorSort op).units) := by decide
  rcases hall op hop with rfl | rfl | ⟨hmem, hleft, hunit⟩
  · exact .power hl hr
  · exact .coalesce hl hr
  · rw [hleft] at hl
    exact .operator hmem hunit hl hr

/-- Operands on both sides of an operator. -/
theorem reads_infixed {op : Token} {l r : Node} (hop : op ∈ binaryOperators ++ logicalOperators)
    (hn : n = operation op l r) (hl : Written g d a l) (hr : Written g d b r)
    (hpos : ∀ {c : NonTerminal} {m : Node} {right : Bool}, Stands d c m →
      (Grammar.ofDialect d).scope.needsParens m n right = false → c ≤ operandSort op right) :
    Reads g (Emit.infixed (Grammar.ofDialect d).scope n op l r)
      (if op = "in" then .primary else operatorSort op) n := by
  have htoken :
      ∀ op ∈ binaryOperators ++ logicalOperators, isWord op = true ∨ op ∈ punctuators := by
    decide
  have hprimary : ∀ right, NonTerminal.primary ≤ operandSort op right :=
    fun right => le_operandSort hop right (by decide)
  obtain ⟨ts, hs, hd⟩ := hl.reads.parensIf hl.stands.le_assignment (fun _ => hprimary false)
    (hpos hl.stands)
  obtain ⟨us, hs', hd'⟩ := hr.reads.parensIf hr.stands.le_assignment (fun _ => hprimary true)
    (hpos hr.stands)
  have hcore : Reads g _ (operatorSort op) n :=
    ⟨_, hs.between (htoken op hop) hs', hn ▸ operation_derives hop hd hd'⟩
  -- an `in` is written in parentheses, wherever it stands
  unfold Emit.infixed
  split
  next hin =>
    subst hin
    exact (hcore.mono (by decide)).parens
  next hin => rwa [beq_eq_false_iff_ne.mpr hin]

/-- A binary operation. An `in` stands in parentheses of its own, so it is a primary expression. -/
theorem written_binary {op : Token} {l r : Node} (hop : op ∈ binaryOperators) (hl : Written g d a l)
    (hr : Written g d b r) :
    Written g d (if op = "in" then .primary else operatorSort op) (.binaryExpression op l r) := by
  refine written_of (p := .binaryExpression) (by cases d <;> rfl) (scope_rank_binary d op l r)
    (.binary hop rfl rfl rfl) ?_
  exact reads_infixed (List.mem_append_left _ hop) (operation_of_binary hop l r).symm hl hr
    fun hm hw => hm.le_binary hop hw

theorem written_logical {op : Token} {l r : Node} (hop : op ∈ logicalOperators)
    (hl : Written g d a l) (hr : Written g d b r) :
    Written g d (operatorSort op) (.logicalExpression op l r) := by
  have hne : ∀ op ∈ logicalOperators, op ≠ "in" := by decide
  refine written_of (p := .binaryExpression) (by cases d <;> rfl) (scope_rank_logical d op l r)
    (.logical hop rfl rfl rfl) ?_
  have h := reads_infixed (List.mem_append_right _ hop) (operation_of_logical hop l r).symm hl hr
    fun hm hw => hm.le_logical hop hw
  rwa [if_neg (hne op hop)] at h

/-- The test of a conditional stands in parentheses where it is one itself or an assignment; its
other parts are written as they are. -/
theorem written_conditional {t l r : Node} (ht : Written g d a t) (hl : Written g d b l)
    (hr : Written g d c r) : Written g d .conditional (.conditionalExpression t l r) := by
  refine written_of (p := .conditionalExpression) (by cases d <;> rfl) (by cases d <;> rfl)
    (.loose (.inr rfl) (by decide)) ?_
  obtain ⟨ts, hst, hdt⟩ := ht.reads.parensIf ht.stands.le_assignment (fun _ => by decide)
    ht.stands.le_shortCircuit
  obtain ⟨us, hsl, hdl⟩ := hl.reads_assignment
  obtain ⟨vs, hsr, hdr⟩ := hr.reads_assignment
  have hs := hst.between (t := "?") (.inr (by decide))
    (hsl.between (t := ":") (.inr (by decide)) hsr)
  refine ⟨_, hs.of_line?_eq ?_, .conditional hdt hdl hdr⟩
  obtain ⟨cs, hcs, -⟩ := hst
  obtain ⟨as, has, -⟩ := hsl
  obtain ⟨bs, hbs, -⟩ := hsr
  simp [Procedure.doc, Emit.conditionalExpression, hcs, has, hbs]

/-- An assignment to a target. -/
theorem written_assignment {op : Token} {l r : Node} (hop : op ∈ assignmentOperators)
    (ht : isTarget l = true) (hl : Written g d a l) (hr : Written g d b r) :
    Written g d .assignment (.assignmentExpression op l r) := by
  have htight : ∀ a ∈ [NonTerminal.primary, .member, .call], a ≤ .leftHandSide := by decide
  have htoken : ∀ op ∈ assignmentOperators, isWord op = true ∨ op ∈ punctuators := by decide
  refine written_of (p := .assignmentExpression) (by cases d <;> rfl) (by cases d <;> rfl)
    (.loose (.inl rfl) (by decide)) ?_
  obtain ⟨ts, hs, hd⟩ := hl.reads.mono (htight a (hl.stands.tight_of_target ht))
  obtain ⟨us, hs', hd'⟩ := hr.reads_assignment
  exact ⟨_, hs.between (htoken op hop) hs', .assign hop ht hd hd'⟩

/-- A sequence stands in parentheses of its own. -/
theorem written_sequence {ns : List Node} (hlen : 2 ≤ ns.length)
    (h : ∀ n ∈ ns, ∃ a, Written g d a n) : Written g d .primary (.sequenceExpression ns) := by
  refine written_of (p := .sequenceExpression) (by cases d <;> rfl) (by cases d <;> rfl)
    (.tight (.inr rfl) (by decide)) ?_
  obtain ⟨items, rfl, hitems, hs⟩ := reads_arguments h
  refine ⟨_, hs, .parens (.sequence ?_ hitems)⟩
  simpa [trees] using hlen

/-! ## §4. Members and calls. -/

/-- What a tree is read as before a member, before arguments or before an exclamation mark. -/
def base (a : NonTerminal) : NonTerminal := if a = .call then .call else .member

/-- Before a member, arguments or an exclamation mark stands a member or a call. -/
theorem base_mem (a : NonTerminal) : base a ∈ [NonTerminal.member, .call] := by
  unfold base
  split <;> decide

/-- A tree in such a position, where the position ranks with the members. -/
theorem reads_base (position : Kind) (hp : (Grammar.ofDialect d).scope.rank position = some 19)
    (h : Written g d a n) :
    Reads g ((Grammar.ofDialect d).scope.operand n position) (base a) n := by
  refine h.reads.parensIf h.stands.le_assignment (fun hw => ?_) fun hw => ?_
  · have hne := h.stands.ne_call_of_ranksBelow hp hw
    rw [base, if_neg hne]
    decide
  · obtain ⟨r, hr, hs⟩ := h.stands.le_of_ranksBelow hp hw
    have htight : ∀ a ∈ [NonTerminal.primary, .member, .call], a ≤ base a := by decide
    exact htight a (hs.tight_of_le hr)

theorem written_field {o : Node} {x : Token} (hx : IsIdentifier x) (h : Written g d a o) :
    Written g d (base a) (.memberExpression o (named x) false false) := by
  refine written_of (p := .memberExpression) (by cases d <;> rfl) (by cases d <;> rfl)
    (.tight (.inl rfl) (List.mem_cons_of_mem _ (base_mem a))) ?_
  obtain ⟨ts, hs, hd⟩ := reads_base .memberExpression (by cases d <;> rfl) h
  have hname : Spells _ [".", x] :=
    (spells_identifier (d := d) hx).after (.inr (by decide)) (apart_of_isWord (by decide) hx.1)
  exact ⟨_, hs.append hname (by rintro _ ⟨⟩; decide), .field (base_mem a) hx.1 hd⟩

/-- A member by an expression in brackets. -/
theorem written_index {o i : Node} (h : Written g d a o) (h' : Written g d b i) :
    Written g d (base a) (.memberExpression o i true false) := by
  refine written_of (p := .memberExpression) (by cases d <;> rfl) (by cases d <;> rfl)
    (.tight (.inl rfl) (List.mem_cons_of_mem _ (base_mem a))) ?_
  obtain ⟨ts, hs, hd⟩ := reads_base .memberExpression (by cases d <;> rfl) h
  obtain ⟨us, hs', hd'⟩ := h'.reads_assignment
  refine ⟨_, (hs.append hs'.brackets (by rintro _ ⟨⟩; decide)).of_line?_eq ?_,
    .index (base_mem a) hd (.unit (by decide) hd')⟩
  simp [Procedure.doc, Emit.memberExpression, Emit.memberName, Doc.onlyIf]

/-- A call without type arguments. -/
theorem written_call {f : Node} {args : List Node} (h : Written g d a f)
    (hargs : ∀ n ∈ args, ∃ a, Written g d a n) :
    Written g d .call (.callExpression f args false none) := by
  refine written_of (p := .callExpression d) (by cases d <;> rfl) (by cases d <;> rfl)
    (.tight (.inl rfl) (by decide)) ?_
  obtain ⟨ts, hs, hd⟩ := reads_base .callExpression (by cases d <;> rfl) h
  obtain ⟨items, rfl, hitems, hs'⟩ := reads_arguments hargs
  refine ⟨_, (hs.append hs' (by rintro _ ⟨⟩; decide)).of_line?_eq ?_,
    .call (base_mem a) hd hitems (mem_closings ")" items)⟩
  cases d with
  | plain => simp [Procedure.doc, Emit.Plain.callExpression, Doc.onlyIf]
  | typed => simp [Procedure.doc, Emit.Typed.callExpression, Doc.onlyIf, Scope.emit?, Doc.ofOption]

/-- The callee of `new` must not be a call, nor a member of one. -/
theorem written_new {f : Node} {args : List Node} (h : Written g d a f)
    (hcall : f.hasCall = false → a ≠ .call) (hargs : ∀ n ∈ args, ∃ a, Written g d a n) :
    Written g d .member (.newExpression f args false none) := by
  refine written_of (p := .newExpression d) (by cases d <;> rfl) (by cases d <;> rfl)
    (.tight (.inl rfl) (by decide)) ?_
  have hpos : ((Grammar.ofDialect d).scope.ranksBelow f.kind .callExpression || f.hasCall) = false →
      a ≤ .member := by
    intro hw
    rw [Bool.or_eq_false_iff] at hw
    obtain ⟨r, hr, hs⟩ := h.stands.le_of_ranksBelow (p := 19) (by cases d <;> rfl) hw.1
    have htight : ∀ a ∈ [NonTerminal.primary, .member, .call], a ≠ .call → a ≤ .member := by decide
    exact htight a (hs.tight_of_le hr) (hcall hw.2)
  obtain ⟨ts, hs, hd⟩ := h.reads.parensIf h.stands.le_assignment (fun _ => by decide) hpos
  obtain ⟨items, rfl, hitems, hs'⟩ := reads_arguments hargs
  have hcallee : Spells _ ("new" :: ts) := hs.spaced (.inl (by decide))
  refine ⟨_, (hcallee.append hs' (by rintro _ ⟨⟩; decide)).of_line?_eq ?_,
    .newWith hd hitems (mem_closings ")" items)⟩
  cases d with
  | plain => simp [Procedure.doc, Emit.Plain.newExpression, Emit.newCallee]
  | typed =>
    simp [Procedure.doc, Emit.Typed.newExpression, Emit.newCallee, Scope.emit?, Doc.ofOption]

/-! ## §5. Assertions. -/

/-- A type with a name is spelled as the name. -/
theorem spells_typeNamed {x : String} (hx : IsIdentifier x) :
    Spells (Dialect.doc .typed (typeNamed x)) [x] := by
  rw [Dialect.doc_eq (p := .typeReference) rfl]
  refine (spells_identifier (d := .typed) hx).of_line?_eq ?_
  simp [Procedure.doc, Emit.typeReference, typeNamed, Scope.emit?, Doc.ofOption]

/-- The operand of an assertion, the word in spaces and the type. -/
theorem spells_asserted {s w x : String} (hs : s.toList = ' ' :: (w.toList ++ [' ']))
    (hw : isWord w = true) (hx : IsIdentifier x) (h : Written .typed .typed a n) :
    ∃ ts, Derives .typed .relational ts n ∧
      Spells (Emit.asserted (Grammar.ofDialect .typed).scope n ++ .text s ++
        Dialect.doc .typed (typeNamed x)) (ts ++ [w, x]) := by
  obtain ⟨ts, hoperand, hd⟩ := h.reads.parensIf h.stands.le_assignment (fun _ => by decide)
    h.stands.le_relational
  have hbetween := hoperand.between (.inl hw) (spells_typeNamed hx)
  obtain ⟨cs, hcs, -⟩ := hoperand
  obtain ⟨ds, hds, -⟩ := spells_typeNamed hx
  refine ⟨ts, hd, hbetween.of_line?_eq ?_⟩
  simp [Emit.asserted, hcs, hds, hs]

/-- An `as` stands in parentheses of its own. -/
theorem written_as {x : String} (hx : IsIdentifier x) (h : Written .typed .typed a n) :
    Written .typed .typed .primary (.tsAsExpression n (typeNamed x)) := by
  refine written_of (p := .asExpression) rfl rfl (.tight (.inr rfl) (by decide)) ?_
  obtain ⟨ts, hd, hs⟩ := spells_asserted (s := " as ") (w := "as") (by decide) (by decide) hx h
  exact Reads.parens ⟨_, hs, .mono (by decide) (.as rfl hx hd)⟩

/-- A `satisfies` is written as it is. -/
theorem written_satisfies {x : String} (hx : IsIdentifier x) (h : Written .typed .typed a n) :
    Written .typed .typed .relational (.tsSatisfiesExpression n (typeNamed x)) := by
  refine written_of (p := .satisfiesExpression) rfl rfl (.assertion rfl rfl rfl) ?_
  obtain ⟨ts, hd, hs⟩ := spells_asserted (s := " satisfies ") (w := "satisfies") (by decide)
    (by decide) hx h
  exact ⟨_, hs, .satisfies rfl hx hd⟩

/-- No unary expression continues the bracket of an assertion. -/
theorem apart_of_unary {us : List Token} (hd : Derives g .unary us n) : Apart ">" us := by
  obtain ⟨t, more, rfl, ht⟩ := hd.opens_unary
  rcases ht with ht | ht | ⟨ht, -⟩
  · exact apart_of_isWord (by decide) ht
  · exact apart_opening (by decide) ht more
  · have hall : ∀ t ∈ unaryOperators ++ updateOperators,
        (t.toList.head?.all fun c => !continues ">" c) = true := by decide
    rintro _ ⟨⟩ c hc
    simpa using (Option.all_eq_true _ _).mp (hall t ht) c hc

/-- The operand of an assertion in front stands in parentheses where it binds less tightly. -/
theorem written_typeAssertion {x : String} (hx : IsIdentifier x) (h : Written .typed .typed a n) :
    Written .typed .typed .unary (.tsTypeAssertion n (typeNamed x)) := by
  refine written_of (p := .typeAssertion) rfl rfl (.unary rfl rfl) ?_
  have hpos : (Grammar.ofDialect .typed).scope.ranksBelow n.kind .tsTypeAssertion = false →
      a ≤ .unary := by
    intro hw
    obtain ⟨r, hr, hs⟩ := h.stands.le_of_ranksBelow (p := 15) rfl hw
    exact hs.le_unary hr
  obtain ⟨ts, hs, hd⟩ := h.reads.parensIf h.stands.le_assignment (fun _ => by decide) hpos
  have hclosed : Spells _ (">" :: ts) := hs.after (.inr (by decide)) (apart_of_unary hd)
  have hname : Spells _ (x :: ">" :: ts) :=
    (spells_typeNamed hx).append hclosed (by rintro _ ⟨⟩; decide)
  have hopened : Spells _ ("<" :: x :: ">" :: ts) :=
    hname.after (.inr (by decide)) (apart_of_isWord (by decide) hx.1)
  refine ⟨_, hopened.of_line?_eq ?_, .typeAssertion rfl hx hd⟩
  obtain ⟨cs, hcs, -⟩ := hs
  obtain ⟨ds, hds, -⟩ := spells_typeNamed hx
  simp [Procedure.doc, Emit.typeAssertion, Scope.operand, hcs, hds]

/-- An exclamation mark stands right after its operand. -/
theorem written_nonNull (h : Written .typed .typed a n) :
    Written .typed .typed (base a) (.tsNonNullExpression n) := by
  refine written_of (p := .nonNullExpression) rfl rfl
    (.tight (.inl rfl) (List.mem_cons_of_mem _ (base_mem a))) ?_
  obtain ⟨ts, hs, hd⟩ := reads_base .tsNonNullExpression rfl h
  exact ⟨_, hs.bang, .nonNull rfl (base_mem a) hd⟩

end Estree.Expression
