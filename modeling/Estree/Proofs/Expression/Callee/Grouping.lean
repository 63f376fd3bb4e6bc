import Estree.Node.Query
import Estree.Proofs.Descent
import Estree.Proofs.Expression.Grammar

/-!
# What `new` takes for its callee

`new` takes the arguments that come first. A call that is reached from the callee along members,
tags and `!` comes before the arguments of the instantiation, so the callee has to be wrapped. It is
wrapped if the call is reached along members alone (`Node.hasCall`). Otherwise the text is read as
another tree: the innermost call on the way becomes the instantiation, and the instantiation becomes
a call (`capture`).

`regrouped` makes of a tree the one that its text is read as. There an instantiation has a wrapped
callee or one from which no call is reached (`Canonical`). A tree in which this is so from the
beginning (`NoneCaptured`) is left as it is, but for the fields of its templates that are not
written (`bare`).

Main results:

  * `Tree.canonical`: what a text is read as is canonical;
  * `Tree.regrouped_eq_bare`: a tree without captured `new` is read as it is.
-/

namespace Estree.Expression.Callee

/-! ## §1. Trees. -/

/-- A template without holes. -/
def template (raw : String) (cooked : Option String) (tail : Bool) : Node :=
  .templateLiteral [.templateElement ⟨raw, cooked⟩ tail] []

/-- A template with the text that is written. -/
def plainTemplate (raw : String) : Node := template raw none true

/-- The trees of names, members, calls, instantiations, tagged templates and `!`. -/
inductive Tree : Node → Prop where
  | name {x : String} : IsIdentifier x → Tree (named x)
  | field {o : Node} {x : String} : Tree o → IsIdentifier x →
      Tree (.memberExpression o (named x) false false)
  | index {o i : Node} : Tree o → Tree i → Tree (.memberExpression o i true false)
  | call {c : Node} {args : List Node} : Tree c → (∀ n ∈ args, Tree n) →
      Tree (.callExpression c args false none)
  | new {c : Node} {args : List Node} : Tree c → (∀ n ∈ args, Tree n) →
      Tree (.newExpression c args false none)
  | tagged {tag : Node} {raw : String} {cooked : Option String} {tail : Bool} : Tree tag →
      raw.toList.all Char.isAlpha = true →
      Tree (.taggedTemplateExpression tag (template raw cooked tail))
  | nonNull {e : Node} : Tree e → Tree (.tsNonNullExpression e)

/-- Whether a call is reached along members, tags and `!`. -/
def reachesCall : Node → Bool
  | .callExpression _ _ _ _ => true
  | .memberExpression object _ _ _ => reachesCall object
  | .taggedTemplateExpression tag _ => reachesCall tag
  | .tsNonNullExpression e => reachesCall e
  | _ => false

/-- A call that is reached along members alone is reached. -/
theorem reachesCall_of_hasCall {n : Node} (h : n.hasCall = true) : reachesCall n = true := by
  induction n using Node.hasCall.induct with
  | case1 => rfl
  | case2 object _ _ _ ih => exact ih h
  | case3 n hcall hmember =>
    rw [Node.hasCall] at h
    · cases h
    · exact hcall
    · exact hmember

/-! ## §2. Instantiations that are read otherwise. -/

/-- What a tree is read as with `new` before it: its innermost call becomes the instantiation. -/
def capture : Node → Node
  | .callExpression callee arguments optional typeArguments =>
    if reachesCall callee then .callExpression (capture callee) arguments optional typeArguments
    else .newExpression callee arguments false none
  | .memberExpression object property computed optional =>
    .memberExpression (capture object) property computed optional
  | .taggedTemplateExpression tag quasi => .taggedTemplateExpression (capture tag) quasi
  | .tsNonNullExpression e => .tsNonNullExpression (capture e)
  | n => n

/-- The template element with the text that is written. -/
def bareElement : Node → Node
  | .templateElement value _ => .templateElement ⟨value.raw, none⟩ true
  | n => n

/-- The template with the texts that are written. -/
def bareTemplate : Node → Node
  | .templateLiteral quasis holes => .templateLiteral (quasis.map bareElement) holes
  | n => n

mutual

/-- The tree with bare templates. An instantiation is made of its parts, and of whether its callee
is wrapped. -/
def rebuilt (make : (wrapped : Bool) → Node → List Node → Node) : Node → Node
  | .memberExpression object property computed optional =>
    .memberExpression (rebuilt make object) (rebuilt make property) computed optional
  | .callExpression callee arguments optional typeArguments =>
    .callExpression (rebuilt make callee) (rebuiltAll make arguments) optional typeArguments
  | .newExpression callee arguments _ _ =>
    make callee.hasCall (rebuilt make callee) (rebuiltAll make arguments)
  | .taggedTemplateExpression tag quasi =>
    .taggedTemplateExpression (rebuilt make tag) (bareTemplate quasi)
  | .tsNonNullExpression e => .tsNonNullExpression (rebuilt make e)
  | n => n

/-- The trees with bare templates. -/
def rebuiltAll (make : (wrapped : Bool) → Node → List Node → Node) : List Node → List Node
  | [] => []
  | n :: rest => rebuilt make n :: rebuiltAll make rest

end

/-- Trees are taken one by one. -/
theorem rebuiltAll_eq_map (make : Bool → Node → List Node → Node) (ns : List Node) :
    rebuiltAll make ns = ns.map (rebuilt make) :=
  eq_map_of_elementwise rfl (fun _ _ => rfl) ns

/-- The tree without the fields of its templates that are not written. -/
def bare : Node → Node :=
  rebuilt fun _ callee arguments => .newExpression callee arguments false none

/-- An instantiation as it is read: if the callee is not wrapped, a call in it captures the `new`.
-/
def instantiated : (wrapped : Bool) → Node → List Node → Node
  | true, callee, arguments => .newExpression callee arguments false none
  | false, callee, arguments =>
    if reachesCall callee then .callExpression (capture callee) arguments false none
    else .newExpression callee arguments false none

/-- The tree that the text of a tree is read as. -/
def regrouped : Node → Node := rebuilt instantiated

section Forms

variable (c : Node) (args : List Node) (optional : Bool) (types : Option Node)

/-- With `new` before it, a call is the instantiation unless its callee reaches another call. -/
theorem capture_call : capture (.callExpression c args optional types) =
    if reachesCall c then .callExpression (capture c) args optional types
    else .newExpression c args false none :=
  rfl

/-- A call is regrouped part by part. -/
theorem regrouped_call : regrouped (.callExpression c args optional types) =
    .callExpression (regrouped c) (args.map regrouped) optional types :=
  congrArg (Node.callExpression _ · _ _) (rebuiltAll_eq_map instantiated args)

/-- An instantiation is regrouped by what its callee reaches. -/
theorem regrouped_new : regrouped (.newExpression c args optional types) =
    instantiated c.hasCall (regrouped c) (args.map regrouped) :=
  congrArg (instantiated _ _) (rebuiltAll_eq_map instantiated args)

/-- A call is made bare part by part. -/
theorem bare_call : bare (.callExpression c args optional types) =
    .callExpression (bare c) (args.map bare) optional types :=
  congrArg (Node.callExpression _ · _ _) (rebuiltAll_eq_map _ args)

/-- So is an instantiation. -/
theorem bare_new : bare (.newExpression c args optional types) =
    .newExpression (bare c) (args.map bare) false none :=
  congrArg (Node.newExpression _ · _ _) (rebuiltAll_eq_map _ args)

end Forms

/-! ## §3. Trees that are read as they are. -/

/-- Bare trees in which a call is reached from the callee of an instantiation only if that is
wrapped. -/
inductive Canonical : Node → Prop where
  | name {x : String} : IsIdentifier x → Canonical (named x)
  | field {o : Node} {x : String} : Canonical o → IsIdentifier x →
      Canonical (.memberExpression o (named x) false false)
  | index {o i : Node} : Canonical o → Canonical i → Canonical (.memberExpression o i true false)
  | call {c : Node} {args : List Node} : Canonical c → (∀ n ∈ args, Canonical n) →
      Canonical (.callExpression c args false none)
  | newBare {c : Node} {args : List Node} : reachesCall c = false → Canonical c →
      (∀ n ∈ args, Canonical n) → Canonical (.newExpression c args false none)
  | newWrapped {c : Node} {args : List Node} : c.hasCall = true → Canonical c →
      (∀ n ∈ args, Canonical n) → Canonical (.newExpression c args false none)
  | tagged {tag : Node} {raw : String} : Canonical tag → raw.toList.all Char.isAlpha = true →
      Canonical (.taggedTemplateExpression tag (plainTemplate raw))
  | nonNull {e : Node} : Canonical e → Canonical (.tsNonNullExpression e)

/-- What captures a `new` is canonical. -/
theorem Canonical.capture {n : Node} (h : Canonical n) :
    reachesCall n = true → Canonical (Callee.capture n) := by
  induction h with
  | name | newBare | newWrapped =>
    intro hn
    cases hn
  | field _ hx ih => exact fun hn => .field (ih hn) hx
  | index _ hi ih _ => exact fun hn => .index (ih hn) hi
  | @call c args hc hargs ih _ =>
    intro _
    rw [capture_call]
    split
    · next hreach => exact .call (ih hreach) hargs
    · next hreach => exact .newBare (by simpa using hreach) hc hargs
  | tagged _ hraw ih => exact fun hn => .tagged (ih hn) hraw
  | nonNull _ ih => exact fun hn => .nonNull (ih hn)

/-- A wrapped callee is wrapped again. -/
theorem Tree.hasCall_regrouped {n : Node} (h : Tree n) : n.hasCall = true →
    (regrouped n).hasCall = true := by
  induction h with
  | name | new | tagged | nonNull =>
    intro hn
    cases hn
  | field _ _ ih => exact ih
  | index _ _ ih _ => exact ih
  | call => exact fun _ => rfl

/-- **What a text is read as is canonical.** -/
theorem Tree.canonical {n : Node} (h : Tree n) : Canonical (regrouped n) := by
  induction h with
  | name hx => exact .name hx
  | field _ hx ih => exact .field ih hx
  | index _ _ ih ihi => exact .index ih ihi
  | call _ _ ih iha =>
    rw [regrouped_call]
    exact .call ih (List.forall_mem_map.mpr iha)
  | @new c args h _ ih iha =>
    have hargs := List.forall_mem_map.mpr iha
    rw [regrouped_new]
    -- without parentheses `new` takes the innermost call that the callee reaches
    cases hwrapped : c.hasCall with
    | true => exact .newWrapped (h.hasCall_regrouped hwrapped) ih hargs
    | false =>
      rw [instantiated]
      split
      · next hreach => exact .call (ih.capture hreach) hargs
      · next hreach => exact .newBare (by simpa using hreach) ih hargs
  | tagged _ hraw ih => exact .tagged ih hraw
  | nonNull _ ih => exact .nonNull ih

/-- Whether a node is an instantiation whose `new` a call in its callee captures. -/
def isCaptured : Node → Bool
  | .newExpression callee _ _ _ => reachesCall callee && !callee.hasCall
  | _ => false

/-- No `new` in the tree is captured. -/
def NoneCaptured (n : Node) : Prop := n.Throughout (isCaptured · = false)

/-- Bare templates neither hide a call nor show one. -/
theorem Tree.reachesCall_bare {n : Node} (h : Tree n) : reachesCall (bare n) = reachesCall n := by
  induction h with
  | name | call | new => rfl
  | field _ _ ih => exact ih
  | index _ _ ih _ => exact ih
  | tagged _ _ ih => exact ih
  | nonNull _ ih => exact ih

/-- **A tree without captured `new` is read as it is.** -/
theorem Tree.regrouped_eq_bare {n : Node} (h : Tree n) : NoneCaptured n → regrouped n = bare n := by
  induction h with
  | name => exact fun _ => rfl
  | @field o x _ _ ih =>
    intro hn
    exact congrArg (Node.memberExpression · (named x) false false) (ih (hn.child (by simp)))
  | @index o i _ _ ih ihi =>
    intro hn
    change Node.memberExpression (regrouped o) (regrouped i) true false =
      .memberExpression (bare o) (bare i) true false
    rw [ih (hn.child (by simp)), ihi (hn.child (by simp))]
  | call _ _ ih iha =>
    intro hn
    rw [regrouped_call, bare_call, ih (hn.child (by simp)),
      List.map_congr_left fun n hmem => iha n hmem (hn.child (by simp [hmem]))]
  | @new c args h _ ih iha =>
    intro hn
    rw [regrouped_new, bare_new, ih (hn.child (by simp)),
      List.map_congr_left fun n hmem => iha n hmem (hn.child (by simp [hmem]))]
    cases hwrapped : c.hasCall with
    | true => rfl
    | false =>
      -- nothing is captured here, so a callee that is written bare reaches no call
      have hself : (reachesCall c && !c.hasCall) = false := hn.self
      have hreach : reachesCall (bare c) = false := by
        rw [h.reachesCall_bare]
        simpa [hwrapped] using hself
      rw [instantiated, if_neg (by simp [hreach])]
  | tagged _ _ ih =>
    intro hn
    exact congrArg (Node.taggedTemplateExpression · _) (ih (hn.child (by simp)))
  | nonNull _ ih =>
    intro hn
    exact congrArg Node.tsNonNullExpression (ih (hn.child (by simp)))

end Estree.Expression.Callee
