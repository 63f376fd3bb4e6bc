import Estree.Generator
import Estree.Proofs.Dispatch
import Estree.Proofs.Erasure.Typed

/-!
# Erasing what only the typed dialect writes

The typed dialect has procedures of its own for twenty kinds that the plain dialect writes too. On a
tree from which everything is erased that only those procedures read, the two dialects give the same
text or the same error, and it is what the plain dialect gives on the tree as it was
(`Generator.generate_erase`). The proof goes in two steps. The plain dialect does not read what is
erased (`Grammar.plain_erase`), and on an erased tree the dialects write alike
(`Grammar.typed_of_erased`). Both are inductions over what a dialect dispatches
(`Grammar.dispatched_induction`).

Main results:

* `Grammar.dispatched_induction`: induction over what a dialect dispatches.
* `Grammar.plain_erase`: the plain dialect on a tree and on what is left of it.
* `Grammar.typed_of_erased`: the two dialects on an erased tree.
* `Generator.generate_erase`: the two together, for texts and errors.
-/

namespace Estree

/-- The error with the node that it carries erased. -/
def EmitError.erase : EmitError → EmitError
  | .unsupported k n => .unsupported k n.erase
  | .malformed k d => .malformed k d

namespace GenerateError

/-- The error with a function applied to the error of the tree. -/
def map (f : EmitError → EmitError) : GenerateError → GenerateError
  | .emit e => .emit (f e)
  | e => e

/-- The error with the node that it carries erased. -/
def erase : GenerateError → GenerateError := map EmitError.erase

end GenerateError

/-! ## §1. What a dialect dispatches. -/

theorem Procedure.redirect_erase (p : Procedure) (n : Node) :
    p.redirect n.erase = p.redirect n := by
  rw [Node.erase_eq]
  cases p with
  | property => cases n <;> rfl
  | _ => rfl

/-- Under a kind where nodes are dispatched again, the class or method behind is dispatched. -/
theorem Node.DispatchedAs.redirect {n : Node} {k k' : Kind} (hk : n.DispatchedAs k)
    (hr : Grammar.javaScript.redirect k n = some k') : n.DispatchedAs k' := by
  obtain ⟨p, hp, hr⟩ := Option.bind_eq_some_iff.mp hr
  unfold Procedure.redirect at hr
  split at hr
  · cases hr
    have hclass : k = .classExpression := by
      revert hp
      cases k <;> decide
    subst hclass
    exact .classExpression (hk.eq_kind (by decide))
  · split at hr
    next hm =>
      cases hr
      exact .method (if_pos hm)
    next => cases hr
  · cases hr

/-- A kind without a procedure is the node's own. -/
theorem Node.DispatchedAs.kind_of_none {n : Node} {k : Kind} (hk : n.DispatchedAs k)
    (h : Registry.base.get? k = none) : n.kind = k := by
  refine hk.eq_kind ?_
  revert h
  cases k <;> decide

/-- The typed dialect writes every kind that the plain dialect writes. -/
theorem Registry.exists_full {k : Kind} {p : Procedure} (h : base.get? k = some p) :
    ∃ p', full.get? k = some p' := by
  change ∃ p', (extension.get? k).or (base.get? k) = some p'
  cases extension.get? k with
  | none => exact ⟨p, h⟩
  | some p' => exact ⟨p', rfl⟩

namespace Grammar

theorem redirect_typeScript (k : Kind) (n : Node) :
    typeScript.redirect k n = javaScript.redirect k n := by
  cases k <;> rfl

/-- Induction over what a dialect dispatches: a node goes to a procedure that writes it from the
nodes inside, at once or after it is dispatched again. -/
theorem dispatched_induction {motive : Kind → Node → Prop}
    (direct : ∀ k n, n.DispatchedAs k → javaScript.redirect k n = none →
      (∀ k' c, c.Below n → k' = c.kind ∨ k' ∈ assignedKinds → motive k' c) → motive k n)
    (redirected : ∀ k k' n, javaScript.redirect k n = some k' → motive k' n → motive k n)
    {n : Node} : ∀ {k : Kind}, n.DispatchedAs k → motive k n := by
  induction n using Node.below_induction with
  | step n ih =>
    have hdirect : ∀ k, n.DispatchedAs k → javaScript.redirect k n = none → motive k n :=
      fun k hk hr => direct k n hk hr fun k' c hc hk' => ih c hc (.of_or hk')
    intro k hk
    cases hr : javaScript.redirect k n with
    | none => exact hdirect k hk hr
    | some k' =>
      refine redirected k k' n hr (hdirect k' (hk.redirect hr) ?_)
      rcases redirect_mem hr with rfl | rfl <;> rfl

/-! ## §2. The two steps. -/

/-- The dialects agree on every rank that is looked up for a plain node. -/
theorem ranksAgree {n : Node} (hn : n.AllPlain) :
    javaScript.scope.RanksAgree typeScript.scope n := by
  rintro k (rfl | ⟨c, hc, rfl⟩ | hk | ⟨-, hk⟩)
  · exact PrecedenceTable.rank_eq hn.1.kind
  · exact PrecedenceTable.rank_eq (hn.2 c hc).kind
  · refine PrecedenceTable.rank_eq ?_
    revert hk
    cases k <;> decide
  · exact absurd hn.1.kind (by rw [hk]; decide)

/-- **The plain dialect does not read what is erased.** -/
theorem plain_erase {n : Node} {k : Kind} (hk : n.DispatchedAs k) :
    (javaScript.scope.emitAs k n).SameUpTo EmitError.erase (javaScript.scope.emitAs k n.erase) := by
  refine dispatched_induction (motive := fun k n => (javaScript.scope.emitAs k n).SameUpTo
    EmitError.erase (javaScript.scope.emitAs k n.erase)) ?_ ?_ hk
  · intro k n hk hr ih
    rw [scope_emitAs, scope_emitAs]
    cases hp : javaScript.registry.get? k with
    | none => exact ⟨rfl, fun _ => rfl, fun _ _ => rfl⟩
    | some p =>
      have hr : p.redirect n = none := by simpa [Grammar.redirect, hp] using hr
      obtain ⟨_, ha⟩ := Procedure.exists_alike hr javaScript.scope javaScript.scope.erased
      simp only [Registry.base_doc_erase hk hp]
      exact ha.sameUpTo (fun _ _ => rfl) (fun _ _ => rfl) ih
  · intro k k' n hr h
    have hr' : javaScript.redirect k n.erase = some k' := by
      simpa only [Grammar.redirect, Procedure.redirect_erase] using hr
    rwa [scope_of_redirect hr, scope_of_redirect hr']

/-- **On an erased tree the dialects write alike.** -/
theorem typed_of_erased {n : Node} {k : Kind} (hk : n.DispatchedAs k) (hn : n.AllPlain)
    (hc : n.clear = n) (hb : ∀ c : Node, c.Below n → c.clear = c) :
    (javaScript.scope.emitAs k n).SameUpTo id (typeScript.scope.emitAs k n) := by
  refine dispatched_induction (motive := fun k n => n.AllPlain → n.clear = n →
    (∀ c : Node, c.Below n → c.clear = c) →
    (javaScript.scope.emitAs k n).SameUpTo id (typeScript.scope.emitAs k n)) ?_ ?_ hk hn hc hb
  · intro k n hk hr ih hn hc hb
    rw [scope_emitAs, scope_emitAs]
    cases hp : javaScript.registry.get? k with
    | none =>
      rw [show typeScript.registry.get? k = none from
        Registry.full_eq_none hp (hk.kind_of_none hp ▸ hn.1.kind)]
      exact .refl _
    | some p =>
      have hr : p.redirect n = none := by simpa [Grammar.redirect, hp] using hr
      obtain ⟨_, ha⟩ := Procedure.exists_alike hr javaScript.scope typeScript.scope
      obtain ⟨p', hp'⟩ := Registry.exists_full hp
      rw [show typeScript.registry.get? k = some p' from hp']
      -- the same procedure in the two scopes, then the two procedures in the same scope
      have hscopes := ha.sameUpTo (fun _ _ => rfl) (ranksAgree hn) fun k' c hc hk' =>
        ih k' c hc hk' (hn.below hc) (hb c hc) fun m hm => hb m (hm.trans hc)
      exact hscopes.trans (Registry.full_doc hp hp' hc (fun c hc => hb c (.child hc)) hn.1 hk _)
  · intro k k' n hr h
    have hr' : typeScript.redirect k n = some k' := by rw [redirect_typeScript, hr]
    rwa [scope_of_redirect hr, scope_of_redirect hr']

end Grammar

/-! ## §3. Texts. -/

namespace Generator

/-- Documents that are written alike give the same text or the same error. -/
theorem generate_of_sameUpTo (d e : Dialect) {l : Layout} {m n : Node} {f : EmitError → EmitError}
    (h : ((Grammar.ofDialect d).emit m).SameUpTo f ((Grammar.ofDialect e).emit n)) :
    (ofDialect e l).generate n = ((ofDialect d l).generate m).mapError (.map f) := by
  rw [generate_eq, generate_eq]
  simp only [ofDialect, h.halt?, h.text]
  cases ((Grammar.ofDialect d).emit m).halt? with
  | none => rfl
  | some x => cases x <;> rfl

/-- **The typed dialect on an erased tree is the plain dialect**, on the erased tree and on the tree
as it was: the same text in every layout, or the same error. -/
theorem generate_erase {t : Node} (ht : t.erase.AllPlain) (l : Layout) :
    (ofDialect .typed l).generate t.erase = (ofDialect .plain l).generate t.erase ∧
      (ofDialect .typed l).generate t.erase =
        ((ofDialect .plain l).generate t).mapError .erase := by
  have hplain : (Grammar.javaScript.emit t).SameUpTo EmitError.erase
      (Grammar.javaScript.emit t.erase) := by
    have h := Grammar.plain_erase (n := t) .own
    change Doc.SameUpTo _ _ (Grammar.javaScript.scope.emitAs t.erase.kind t.erase)
    rwa [t.kind_erase]
  have htyped : (Grammar.javaScript.emit t.erase).SameUpTo id (Grammar.typeScript.emit t.erase) :=
    Grammar.typed_of_erased .own ht t.clear_erase fun _ hc => Node.clear_of_below_erase hc
  constructor
  · rw [generate_of_sameUpTo .plain .typed htyped]
    cases (ofDialect .plain l).generate t.erase with
    | ok text => rfl
    | error e => cases e <;> rfl
  · exact generate_of_sameUpTo .plain .typed (hplain.trans htyped)

/-- The hypotheses hold of `abstract class A<T> { m(x?: number): T {} }`. -/
theorem generate_erase_class :
    let name (x : String) : Node := .identifier x false none []
    let t : Node := .classDeclaration
      { id := some (name "A"), superClass := none, abstract := true
        typeParameters := some (.tsTypeParameterDeclaration [.keywordType .any])
        body := .block .classBody [.methodDefinition
          { key := name "m"
            value := .function .expression
              { id := none, body := some (.block .statement [])
                params := [.identifier "x" true (some (.tsTypeAnnot (.keywordType .number))) []]
                returnType := some (.tsTypeAnnot (.tsTypeReference (name "T") none)) } }] }
    t.erase.AllPlain ∧
      (ofDialect .typed {}).generate t.erase = (ofDialect .plain {}).generate t.erase ∧
      (ofDialect .typed {}).generate t.erase =
        ((ofDialect .plain {}).generate t).mapError .erase := by
  intro name t
  -- from the leaves up
  have hname : ∀ x, (name x).AllPlain :=
    fun x => Node.allPlain_iff.mpr ⟨⟨rfl, nofun, nofun⟩, nofun⟩
  have hblock : (Node.block .statement []).AllPlain :=
    Node.allPlain_iff.mpr ⟨⟨rfl, nofun, nofun⟩, nofun⟩
  let f : FunctionLike :=
    { id := none, params := [name "x"], body := some (.block .statement []) }
  have hvalue : (Node.function .expression f).AllPlain :=
    Node.allPlain_iff.mpr ⟨⟨rfl, nofun, nofun⟩, by simp [f, hname, hblock]⟩
  let m : Method := { key := name "m", value := .function .expression f }
  have hmethod : (Node.methodDefinition m).AllPlain := by
    refine Node.allPlain_iff.mpr ⟨⟨rfl, nofun, ?_⟩, by simp [m, hname, hvalue]⟩
    rintro _ _ ⟨⟩ ⟨⟩
    exact nofun
  have hbody : (Node.block .classBody [.methodDefinition m]).AllPlain :=
    Node.allPlain_iff.mpr ⟨⟨rfl, nofun, nofun⟩, by simpa using hmethod⟩
  have ht : t.erase.AllPlain := by
    change (Node.classDeclaration { id := some (name "A"), superClass := none, body := _ }).AllPlain
    exact Node.allPlain_iff.mpr ⟨⟨rfl, nofun, nofun⟩, by simpa using ⟨hname "A", hbody⟩⟩
  exact ⟨ht, generate_erase ht {}⟩

end Generator

end Estree
