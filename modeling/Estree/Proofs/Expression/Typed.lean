import Estree.Proofs.Expression

/-!
# Typed expressions are read back

The text of an expression with type assertions is read as the expression that it was written from,
and as no other, in every layout (`Expression.Typed.generate_readsAs_typed`). An `as` is written in
parentheses of its own and stands anywhere. The other assertions stand without: `satisfies` has the
rank of the binary operators but no operator of its own, so it is wrapped under each of them.

The grammar is that of the typed dialect (`Derives .typed`), in which all the rules of the plain one
stand as well. A `new` is left out of the trees here: the search for calls in its callee does not go
through assertions.

Main results:

* `Fragment.exists_written`: every tree is written as what it is read as.
* `generate_readsAs_typed`: it is read as the tree and as nothing else.
-/

namespace Estree.Expression.Typed

/-- The trees of names, operators, members, calls and type assertions. -/
inductive Fragment : Node → Prop where
  | identifier {x : String} : IsIdentifier x → Fragment (named x)
  | unary {op : String} {n : Node} : op ∈ unaryOperators → Fragment n →
      Fragment (.unaryExpression op true n)
  | await {n : Node} : Fragment n → Fragment (.awaitExpression n)
  | binary {op : String} {l r : Node} : op ∉ logicalOperators → (operatorRank? op).isSome →
      Fragment l → Fragment r → Fragment (.binaryExpression op l r)
  | logical {op : String} {l r : Node} : op ∈ logicalOperators → Fragment l → Fragment r →
      Fragment (.logicalExpression op l r)
  | conditional {t a b : Node} : Fragment t → Fragment a → Fragment b →
      Fragment (.conditionalExpression t a b)
  | assignment {op : String} {l r : Node} : op ∈ assignmentOperators → isTarget l → Fragment l →
      Fragment r → Fragment (.assignmentExpression op l r)
  | sequence {ns : List Node} : 2 ≤ ns.length → (∀ n ∈ ns, Fragment n) →
      Fragment (.sequenceExpression ns)
  | field {o : Node} {x : String} : Fragment o → IsIdentifier x →
      Fragment (.memberExpression o (named x) false false)
  | index {o i : Node} : Fragment o → Fragment i → Fragment (.memberExpression o i true false)
  | call {c : Node} {args : List Node} : Fragment c → (∀ n ∈ args, Fragment n) →
      Fragment (.callExpression c args false none)
  | as {n : Node} {x : String} : Fragment n → IsIdentifier x →
      Fragment (.tsAsExpression n (typeNamed x))
  | satisfies {n : Node} {x : String} : Fragment n → IsIdentifier x →
      Fragment (.tsSatisfiesExpression n (typeNamed x))
  | typeAssertion {n : Node} {x : String} : Fragment n → IsIdentifier x →
      Fragment (.tsTypeAssertion n (typeNamed x))
  | nonNull {n : Node} : Fragment n → Fragment (.tsNonNullExpression n)

/-- **Every tree is written as what it is read as**, by induction on the tree. -/
theorem Fragment.exists_written {n : Node} (h : Fragment n) : ∃ a, Written .typed .typed a n := by
  induction h with
  | identifier hx => exact ⟨_, written_identifier hx⟩
  | unary hop _ ih => exact ih.elim fun _ h => ⟨_, written_unary hop h⟩
  | await _ ih => exact ih.elim fun _ h => ⟨_, written_await h⟩
  | binary hl hr _ _ ihl ihr =>
    obtain ⟨a, hl'⟩ := ihl
    obtain ⟨b, hr'⟩ := ihr
    exact ⟨_, written_binary (mem_binaryOperators hl hr) hl' hr'⟩
  | logical hop _ _ ihl ihr =>
    obtain ⟨a, hl⟩ := ihl
    obtain ⟨b, hr⟩ := ihr
    exact ⟨_, written_logical hop hl hr⟩
  | conditional _ _ _ iht ihl ihr =>
    obtain ⟨a, ht⟩ := iht
    obtain ⟨b, hl⟩ := ihl
    obtain ⟨c, hr⟩ := ihr
    exact ⟨_, written_conditional ht hl hr⟩
  | assignment hop ht _ _ ihl ihr =>
    obtain ⟨a, hl⟩ := ihl
    obtain ⟨b, hr⟩ := ihr
    exact ⟨_, written_assignment hop ht hl hr⟩
  | sequence hlen _ ih => exact ⟨_, written_sequence hlen ih⟩
  | field _ hx ih => exact ih.elim fun _ h => ⟨_, written_field hx h⟩
  | index _ _ iho ihi =>
    obtain ⟨a, ho⟩ := iho
    obtain ⟨b, hi⟩ := ihi
    exact ⟨_, written_index ho hi⟩
  | call _ _ ih iha => exact ih.elim fun _ h => ⟨_, written_call h iha⟩
  | as _ hx ih => exact ih.elim fun _ h => ⟨_, written_as hx h⟩
  | satisfies _ hx ih => exact ih.elim fun _ h => ⟨_, written_satisfies hx h⟩
  | typeAssertion _ hx ih => exact ih.elim fun _ h => ⟨_, written_typeAssertion hx h⟩
  | nonNull _ ih => exact ih.elim fun _ h => ⟨_, written_nonNull h⟩

/-- **Typed expressions are read back.** The text of a tree is read as the tree and as nothing
else. -/
theorem generate_readsAs_typed {e : Node} (h : Fragment e) :
    ∃ text, (∀ l, (Generator.ofDialect .typed l).generate e = .ok text) ∧
      ∀ n, ReadsAs .typed text n ↔ n = e := by
  obtain ⟨a, hw⟩ := h.exists_written
  exact hw.readsAs

/-- A tree with every assertion, `(<T>a!.b satisfies U) < await (c as V)!(d)`. -/
theorem generate_readsAs_typed_assertions :
    let e : Node := .binaryExpression "<"
      (.tsSatisfiesExpression
        (.tsTypeAssertion
          (.memberExpression (.tsNonNullExpression (named "a")) (named "b") false false)
          (typeNamed "T")) (typeNamed "U"))
      (.awaitExpression (.callExpression
        (.tsNonNullExpression (.tsAsExpression (named "c") (typeNamed "V")))
        [named "d"] false none))
    Fragment e ∧ ∃ text, (∀ l, (Generator.ofDialect .typed l).generate e = .ok text) ∧
      ∀ n, ReadsAs .typed text n ↔ n = e := by
  intro e
  have hx : ∀ x ∈ ["a", "b", "c", "d", "T", "U", "V"], IsIdentifier x := by
    unfold IsIdentifier
    decide
  have hname : ∀ x ∈ ["a", "b", "c", "d", "T", "U", "V"], Fragment (named x) :=
    fun x h => .identifier (hx x h)
  have hleft : Fragment (.tsSatisfiesExpression (.tsTypeAssertion (.memberExpression
      (.tsNonNullExpression (named "a")) (named "b") false false) (typeNamed "T"))
      (typeNamed "U")) :=
    .satisfies (.typeAssertion (.field (.nonNull (hname "a" (by decide))) (hx "b" (by decide)))
      (hx "T" (by decide))) (hx "U" (by decide))
  have hcallee : Fragment (.tsNonNullExpression (.tsAsExpression (named "c") (typeNamed "V"))) :=
    .nonNull (.as (hname "c" (by decide)) (hx "V" (by decide)))
  have he : Fragment e :=
    .binary (by decide) (by decide) hleft
      (.await (.call hcallee (by simpa using hname "d" (by decide))))
  exact ⟨he, generate_readsAs_typed he⟩

end Estree.Expression.Typed
