import Estree.Proofs.Expression.Grammar

/-!
# Comparisons and type arguments

The characters `<` and `>` compare, and they enclose the type arguments of a call. In the tokens
`marked n` of a tree the brackets of type arguments are the tokens `‹` and `›`, so that both uses
are told apart; `plain` takes the difference away, as the text does.

Who reads the text has to find the difference again. It looks ahead: a `<` opens type arguments if
only names and commas come up to a `>`, and then a parenthesis (`opensTypes`). `remark` marks plain
tokens by this rule.

Main results:

  * `Tree.marks`: in the tokens of a tree, type arguments hold names and commas only, and a
    parenthesis
    comes after them;
  * `Marks.opensTypes`: looking ahead finds them;
  * `Marks.remark_plain_iff`: the marks are found exactly if no comparison is followed by what looks
    like the rest of type arguments.
-/

namespace Estree.Expression.Comparison

/-! ## §1. Trees. -/

/-- The comparisons that look like brackets. -/
def comparisons : List Token := ["<", ">"]

/-- Type arguments given by their names. -/
def typeArguments (xs : List Token) : Node := .tsTypeParameterInstantiation (xs.map typeNamed)

/-- The trees of names, comparisons, sequences and calls, with type arguments or without. -/
inductive Tree : Node → Prop where
  | name {x : Token} : IsIdentifier x → Tree (named x)
  | compare {op : Token} {l r : Node} : op ∈ comparisons → Tree l → Tree r →
      Tree (.binaryExpression op l r)
  | sequence {ns : List Node} : 2 ≤ ns.length → (∀ n ∈ ns, Tree n) → Tree (.sequenceExpression ns)
  | call {c : Node} {args : List Node} : Tree c → (∀ n ∈ args, Tree n) →
      Tree (.callExpression c args false none)
  | generic {c : Node} {xs : List Token} {args : List Node} : Tree c →
      (∀ x ∈ xs, IsIdentifier x) → (∀ n ∈ args, Tree n) →
      Tree (.callExpression c args false (some (typeArguments xs)))

/-- Whether a node is a comparison. -/
def isComparison : Node → Bool
  | .binaryExpression _ _ _ => true
  | _ => false

/-! ## §2. Marked tokens. -/

/-- Tokens in parentheses, if so. -/
def enclosedIf (wrapped : Bool) (ts : List Token) : List Token :=
  if wrapped then "(" :: (ts ++ [")"]) else ts

mutual

/-- The tokens of a tree, with `‹` and `›` around type arguments. A comparison is in parentheses as
a right operand and as a callee. -/
def marked : Node → List Token
  | .identifier x _ _ _ => [x]
  | .binaryExpression op l r => marked l ++ op :: enclosedIf (isComparison r) (marked r)
  | .sequenceExpression ns => "(" :: (markedList ns ++ [")"])
  | .callExpression c args _ none =>
    enclosedIf (isComparison c) (marked c) ++ "(" :: (markedList args ++ [")"])
  | .callExpression c args _ (some types) =>
    enclosedIf (isComparison c) (marked c) ++ (marked types ++ "(" :: (markedList args ++ [")"]))
  | .tsTypeParameterInstantiation types => "‹" :: (markedList types ++ ["›"])
  | .tsTypeReference x _ => marked x
  | _ => []

/-- The tokens of trees with commas between them. -/
def markedList : List Node → List Token
  | [] => []
  | [n] => marked n
  | n :: m :: ns => marked n ++ "," :: markedList (m :: ns)

end

/-- The tokens of a tree with the tree. -/
def item (n : Node) : Item := (marked n, n)

/-- The tokens of trees are those of the items. -/
theorem markedList_eq (ns : List Node) : markedList ns = commaSeparated (ns.map item) := by
  induction ns with
  | nil => rfl
  | cons n ns ih =>
    cases ns with
    | nil => rfl
    | cons m ns =>
      rw [markedList, ih]
      rfl

/-- The trees of the items are the trees. -/
theorem trees_map_item (ns : List Node) : trees (ns.map item) = ns := by
  rw [trees, List.map_map]
  exact List.map_id ns

/-- A token as it is written. -/
def plainToken (t : Token) : Token := if t = "‹" then "<" else if t = "›" then ">" else t

/-- The tokens as they are written. -/
def plain (ts : List Token) : List Token := ts.map plainToken

/-! ## §3. Looking ahead. -/

/-- Whether tokens go on as type arguments do after their `<`: with names and commas up to a `>`,
and with a parenthesis after it. -/
def opensTypes : List Token → Bool
  | [] => false
  | t :: ts => if t = ">" then ts.head? == some "(" else (isWord t || t == ",") && opensTypes ts

/-- The tokens with the brackets of type arguments marked, where they are found by looking ahead. -/
def remark : (inTypes : Bool) → List Token → List Token
  | _, [] => []
  | inTypes, t :: ts =>
    if t = "<" ∧ opensTypes ts = true then "‹" :: remark true ts
    else if t = ">" ∧ inTypes = true then "›" :: remark false ts
    else t :: remark inTypes ts

/-- Whether some comparison `<` is followed by what looks like the rest of type arguments. -/
def exposed : List Token → Bool
  | [] => false
  | t :: ts => (t == "<" && opensTypes (plain ts)) || exposed ts

/-- The tokens outside of type arguments. -/
def isOuter (t : Token) : Bool := isWord t || ["(", ")", ",", "<", ">"].contains t

/-- The tokens inside of type arguments. -/
def isInner (t : Token) : Bool := isWord t || t == ","

/-- `Marks inTypes ts`: type arguments are closed, hold names and commas only, and a parenthesis
comes after them. -/
inductive Marks : Bool → List Token → Prop where
  | nil : Marks false []
  | outer {t : Token} {ts : List Token} : isOuter t = true → Marks false ts → Marks false (t :: ts)
  | opens {ts : List Token} : Marks true ts → Marks false ("‹" :: ts)
  | inner {t : Token} {ts : List Token} : isInner t = true → Marks true ts → Marks true (t :: ts)
  | closes {ts : List Token} : Marks false ("(" :: ts) → Marks true ("›" :: "(" :: ts)

namespace Marks

variable {b : Bool} {t : Token} {ts us : List Token}

/-- Outside of type arguments tokens may be put one after the other. -/
theorem append (h : Marks b ts) (h' : Marks false us) : Marks b (ts ++ us) := by
  induction h with
  | nil => exact h'
  | outer ht _ ih => exact .outer ht ih
  | opens _ ih => exact .opens ih
  | inner ht _ ih => exact .inner ht ih
  | closes _ ih => exact .closes ih

/-- Inside of them names and commas may come first. -/
theorem inners (hts : ∀ t ∈ ts, isInner t = true) (h : Marks true us) : Marks true (ts ++ us) := by
  induction ts with
  | nil => exact h
  | cons t ts ih =>
    obtain ⟨ht, hts⟩ := List.forall_mem_cons.mp hts
    exact .inner ht (ih hts)

theorem enclosed (h : Marks false ts) (hu : Marks false us) :
    Marks false ("(" :: (ts ++ ")" :: us)) :=
  .outer (by decide) (h.append (.outer (by decide) hu))

/-- Tokens in parentheses, if so. -/
theorem enclosedIf (h : Marks false ts) (wrapped : Bool) :
    Marks false (enclosedIf wrapped ts) := by
  cases wrapped with
  | true => exact h.enclosed .nil
  | false => exact h

end Marks

/-! ## §4. What looking ahead finds. -/

/-- A token that is no mark is written as it is. -/
theorem plainToken_of_isOuter {t : Token} (h : isOuter t = true) : plainToken t = t := by
  rw [plainToken, if_neg, if_neg] <;>
  · rintro rfl
    exact absurd h (by decide)

/-- What may stand inside of type arguments may stand outside. -/
theorem isOuter_of_isInner {t : Token} (h : isInner t = true) : isOuter t = true := by
  rcases Bool.or_eq_true_iff.mp h with hword | hcomma
  · simp [isOuter, hword]
  · simp [isOuter, beq_iff_eq.mp hcomma]

/-- No name and no comma is a bracket. -/
theorem ne_of_isInner {t u : Token} (h : isInner t = true) (hu : isInner u = false) : t ≠ u := by
  rintro rfl
  rw [h] at hu
  cases hu

/-- Type arguments are found. -/
theorem Marks.opensTypes {ts : List Token} (h : Marks true ts) : opensTypes (plain ts) = true := by
  generalize hb : true = b at h
  induction h with
  | nil | outer | opens => cases hb
  | @inner t ts ht h ih =>
    rw [plain, List.map_cons, plainToken_of_isOuter (isOuter_of_isInner ht), Comparison.opensTypes,
      if_neg (ne_of_isInner ht (by decide))]
    exact Bool.and_eq_true_iff.mpr ⟨ht, ih rfl⟩
  | closes => rfl

/-- **The marks are found again exactly if no comparison is taken for them.** The induction is on
how the tokens are marked: inside of type arguments there is no `<`, and outside of them a `>` is
left as it is. -/
theorem Marks.remark_plain_iff {b : Bool} {ts : List Token} (h : Marks b ts) :
    remark b (plain ts) = ts ↔ exposed ts = false := by
  induction h with
  | nil => exact ⟨fun _ => rfl, fun _ => rfl⟩
  | @outer t ts ht _ ih =>
    rw [plain, List.map_cons, plainToken_of_isOuter ht, ← plain, remark, exposed]
    -- a `<` that looks like type arguments is marked, and this makes the tokens differ
    by_cases hless : t = "<" ∧ Comparison.opensTypes (plain ts) = true
    · simp [hless]
    · have hfree : (t == "<" && Comparison.opensTypes (plain ts)) = false := by
        simpa [Bool.and_eq_false_iff] using hless
      rw [if_neg hless, if_neg (by simp), hfree, Bool.false_or, ← ih]
      simp
  | @opens ts h ih =>
    have hplain : plain ("‹" :: ts) = "<" :: plain ts := rfl
    have hexposed : exposed ("‹" :: ts) = exposed ts := rfl
    rw [hplain, remark, if_pos ⟨rfl, h.opensTypes⟩, hexposed, ← ih]
    simp
  | @inner t ts ht _ ih =>
    have hless : t ≠ "<" := ne_of_isInner ht (by decide)
    have hgreater : t ≠ ">" := ne_of_isInner ht (by decide)
    rw [plain, List.map_cons, plainToken_of_isOuter (isOuter_of_isInner ht), ← plain, remark,
      if_neg (by simp [hless]), if_neg (by simp [hgreater]), exposed, beq_false_of_ne hless,
      Bool.false_and, Bool.false_or, ← ih]
    simp
  | @closes ts _ ih =>
    have hplain : plain ("›" :: "(" :: ts) = ">" :: plain ("(" :: ts) := rfl
    have hexposed : exposed ("›" :: "(" :: ts) = exposed ("(" :: ts) := rfl
    rw [hplain, remark, if_neg (by simp), if_pos ⟨rfl, rfl⟩, hexposed, ← ih]
    simp

/-! ## §5. The marks of a tree. -/

/-- The names of types and the commas between them. -/
theorem isInner_of_mem_markedList {xs : List Token} (hxs : ∀ x ∈ xs, IsIdentifier x) :
    ∀ t ∈ markedList (xs.map typeNamed), isInner t = true := by
  induction xs with
  | nil => exact fun t ht => absurd ht List.not_mem_nil
  | cons x xs ih =>
    obtain ⟨hx, hxs⟩ := List.forall_mem_cons.mp hxs
    have hword : isInner x = true := by simp [isInner, hx.1]
    cases xs with
    | nil => exact List.forall_mem_singleton.mpr hword
    | cons y xs =>
      exact List.forall_mem_cons.mpr ⟨hword, List.forall_mem_cons.mpr ⟨by decide, ih hxs⟩⟩

/-- Trees with commas between them are well marked. -/
theorem marks_markedList {ns : List Node} (h : ∀ n ∈ ns, Marks false (marked n)) :
    Marks false (markedList ns) := by
  induction ns with
  | nil => exact .nil
  | cons n ns ih =>
    obtain ⟨hn, hns⟩ := List.forall_mem_cons.mp h
    cases ns with
    | nil => exact hn
    | cons m ns => exact hn.append (.outer (by decide) (ih hns))

/-- The tokens of a tree are well marked. -/
theorem Tree.marks {n : Node} (h : Tree n) : Marks false (marked n) := by
  induction h with
  | name hx => exact .outer (by simp [isOuter, hx.1]) .nil
  | compare hop _ _ ihl ihr =>
    have houter : ∀ op ∈ comparisons, isOuter op = true := by decide
    exact ihl.append (.outer (houter _ hop) (ihr.enclosedIf _))
  | sequence _ _ ih => exact (marks_markedList ih).enclosed .nil
  | call _ _ ihc iha =>
    exact (ihc.enclosedIf _).append ((marks_markedList iha).enclosed .nil)
  | @generic c xs args _ hxs _ ihc iha =>
    have htypes : Marks false (marked (typeArguments xs) ++ "(" :: (markedList args ++ [")"])) := by
      have hparens : Marks false ("(" :: (markedList args ++ [")"])) :=
        (marks_markedList iha).enclosed .nil
      have hrest : Marks true (markedList (xs.map typeNamed) ++ "›" :: "(" ::
          (markedList args ++ [")"])) :=
        .inners (isInner_of_mem_markedList hxs) (.closes hparens)
      rw [typeArguments, marked, List.cons_append, List.append_assoc]
      exact .opens hrest
    exact (ihc.enclosedIf _).append htypes

end Estree.Expression.Comparison
