import Estree.Proofs.Descent
import Estree.Proofs.Expression.Grammar

/-!
# The boundaries of optional chains

A chain ends the short circuit of the optional links on its spine, the way down its objects and
callees. The trees here (`Tree`) are those of names, members and calls in which every optional link
stands on the spine of a chain and every chain has one. `unchained` takes the boundaries of all
chains away, and `rechained` puts one around every spine with an optional link. A boundary can be
put back unless a member or a call goes on with the chain (`continuesChain`):

    rechained (unchained n) = n

Main results:

  * `Tree.spine_of_hasOptionalLink`: an optional link stands on the spine of a chain;
  * `Tree.restored`: in a tree in which nothing goes on with a chain, every boundary can be put
    back.
-/

namespace Estree.Expression.Chain

/-! ## §1. Trees. -/

/-- Whether an optional link stands on the spine of a node; a chain inside ends the spine. -/
def hasOptionalLink : Node → Bool
  | .memberExpression object _ _ optional => optional || hasOptionalLink object
  | .callExpression callee _ optional _ => optional || hasOptionalLink callee
  | _ => false

/-- The trees of names, members, calls and chains. Optional links stand only on the spines of
chains: `spine` says whether the tree stands on one. -/
inductive Tree : (spine : Bool) → Node → Prop where
  | name {spine : Bool} {x : String} : IsIdentifier x → Tree spine (named x)
  | field {spine optional : Bool} {o : Node} {x : String} : (optional = true → spine = true) →
      Tree spine o → IsIdentifier x → Tree spine (.memberExpression o (named x) false optional)
  | index {spine optional : Bool} {o i : Node} : (optional = true → spine = true) → Tree spine o →
      Tree false i → Tree spine (.memberExpression o i true optional)
  | call {spine optional : Bool} {c : Node} {args : List Node} : (optional = true → spine = true) →
      Tree spine c → (∀ n ∈ args, Tree false n) → Tree spine (.callExpression c args optional none)
  | chain {spine : Bool} {e : Node} : hasOptionalLink e = true → Tree true e →
      Tree spine (.chainExpression e)

/-- Optional links stand on the spines of chains. -/
theorem Tree.spine_of_hasOptionalLink {spine : Bool} {n : Node} (h : Tree spine n)
    (hn : hasOptionalLink n = true) : spine = true := by
  induction h with
  | name | chain => cases hn
  | field ho _ _ ih | index ho _ _ ih | call ho _ _ ih =>
    rcases Bool.or_eq_true_iff.mp hn with hn | hn
    · exact ho hn
    · exact ih hn

/-- A tree that stands on no spine has no optional link on its own. -/
theorem Tree.hasOptionalLink_eq_false {n : Node} (h : Tree false n) : hasOptionalLink n = false :=
  Bool.eq_false_iff.mpr fun hn => Bool.false_ne_true (h.spine_of_hasOptionalLink hn)

/-! ## §2. Boundaries. -/

mutual

/-- The tree without the boundaries of its chains. -/
def unchained : Node → Node
  | .memberExpression object property computed optional =>
    .memberExpression (unchained object) (unchained property) computed optional
  | .callExpression callee arguments optional typeArguments =>
    .callExpression (unchained callee) (unchainedAll arguments) optional typeArguments
  | .chainExpression e => unchained e
  | n => n

/-- The trees without the boundaries of their chains. -/
def unchainedAll : List Node → List Node
  | [] => []
  | n :: rest => unchained n :: unchainedAll rest

end

/-- Trees are taken one by one. -/
theorem unchainedAll_eq_map (ns : List Node) : unchainedAll ns = ns.map unchained :=
  eq_map_of_elementwise rfl (fun _ _ => rfl) ns

/-- The boundary of a chain around what has been made of a tree, if its spine has an optional link.
-/
def bounded (n made : Node) : Node := if hasOptionalLink n then .chainExpression made else made

mutual

/-- The tree with a boundary around every spine with an optional link, but for its own spine. -/
def links : Node → Node
  | .memberExpression object property computed optional =>
    .memberExpression (links object) (bounded property (links property)) computed optional
  | .callExpression callee arguments optional typeArguments =>
    .callExpression (links callee) (rechainedAll arguments) optional typeArguments
  | n => n

/-- The trees with a boundary around every spine with an optional link. -/
def rechainedAll : List Node → List Node
  | [] => []
  | n :: rest => bounded n (links n) :: rechainedAll rest

end

/-- The tree with a boundary around every spine with an optional link. -/
def rechained (n : Node) : Node := bounded n (links n)

/-- Trees are taken one by one. -/
theorem rechainedAll_eq_map (ns : List Node) : rechainedAll ns = ns.map rechained :=
  eq_map_of_elementwise rfl (fun _ _ => rfl) ns

/-! ## §3. Boundaries that can be put back. -/

/-- Whether a node is a chain. -/
def isChain : Node → Bool
  | .chainExpression _ => true
  | _ => false

/-- A chain ends the spine, so what has an optional link on it is none. -/
theorem isChain_eq_false {n : Node} (h : hasOptionalLink n = true) : isChain n = false := by
  unfold isChain
  split
  · cases h
  · rfl

/-- Whether a node is a member of a chain or a call of one. -/
def continuesChain : Node → Bool
  | .memberExpression object _ _ _ => isChain object
  | .callExpression callee _ _ _ => isChain callee
  | _ => false

/-- No chain in the tree is gone on with by a member or a call. -/
def NoneContinued (n : Node) : Prop := n.Throughout (continuesChain · = false)

/-- What is left of the boundaries of a tree that stands on a spine, or that is put back in one that
does not. -/
structure Restored (spine : Bool) (n : Node) : Prop where
  /-- A spine keeps its optional links, and a tree on it is made again. -/
  linked : isChain n = false →
    hasOptionalLink (unchained n) = hasOptionalLink n ∧ links (unchained n) = n
  /-- A tree that stands on no spine is made again with its own boundary. -/
  whole : spine = false → rechained (unchained n) = n

/-- What is made again link by link and has no optional link on a free spine is made again whole. -/
theorem Restored.of_linked {spine : Bool} {n : Node} (hn : Tree spine n)
    (h : hasOptionalLink (unchained n) = hasOptionalLink n ∧ links (unchained n) = n) :
    Restored spine n := by
  refine ⟨fun _ => h, fun hs => ?_⟩
  subst hs
  rw [rechained, bounded, h.1, hn.hasOptionalLink_eq_false, h.2]
  rfl

/-- **Boundaries can be put back** where no member and no call goes on with a chain. The induction
is on the tree: on a spine the links are made again one by one, and a chain takes its boundary back
because its spine has kept the optional link. -/
theorem Tree.restored {spine : Bool} {n : Node} (h : Tree spine n) :
    NoneContinued n → Restored spine n := by
  induction h with
  | name hx => exact fun _ => .of_linked (.name hx) ⟨rfl, rfl⟩
  -- no chain is right under a link, so the object is linked as it was, without a boundary
  | @field spine optional o x ho h hx ih =>
    intro hn
    obtain ⟨hlink, hmade⟩ := (ih (hn.child (by simp))).linked hn.self
    refine .of_linked (.field ho h hx) ⟨?_, ?_⟩
    · rw [unchained, hasOptionalLink, hasOptionalLink, hlink]
    · rw [unchained, links, hmade]
      rfl
  | @index spine optional o i ho h hi ih ihi =>
    intro hn
    obtain ⟨hlink, hmade⟩ := (ih (hn.child (by simp))).linked hn.self
    -- an index is a whole expression of its own
    have hwhole := (ihi (hn.child (by simp))).whole rfl
    refine .of_linked (.index ho h hi) ⟨?_, ?_⟩
    · rw [unchained, hasOptionalLink, hasOptionalLink, hlink]
    · rw [unchained, links, hmade, ← rechained, hwhole]
  | @call spine optional c args ho h hargs ih iha =>
    intro hn
    obtain ⟨hlink, hmade⟩ := (ih (hn.child (by simp))).linked hn.self
    refine .of_linked (.call ho h hargs) ⟨?_, ?_⟩
    · rw [unchained, hasOptionalLink, hasOptionalLink, hlink]
    · have hall : ∀ a ∈ args, (rechained ∘ unchained) a = id a := fun a ha =>
        (iha a ha (hn.child (by simp [ha]))).whole rfl
      rw [unchained, links, hmade, rechainedAll_eq_map, unchainedAll_eq_map, List.map_map,
        List.map_congr_left hall, List.map_id]
  | @chain spine e hlink h ih =>
    intro hn
    -- here the boundary goes back: the spine below has an optional link
    obtain ⟨hkept, hmade⟩ := (ih (hn.child (by simp))).linked (isChain_eq_false hlink)
    refine ⟨fun hc => ?_, fun _ => ?_⟩
    · cases hc
    · rw [unchained, rechained, bounded, hkept, hlink, hmade]
      rfl

end Estree.Expression.Chain
