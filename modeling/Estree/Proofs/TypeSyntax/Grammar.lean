import Estree.Proofs.Reading

/-!
# The grammar of types

The type grammar of TypeScript, as far as it goes with keywords, names, unions, intersections, type
operators, arrays, members, tuples, functions and conditions: `Derives a ts n` says that the tokens
`ts` are an `a` of the grammar and that `n` is their tree. Parentheses leave no trace in the tree.
The keywords and the operators stand in the grammar's own tables, so that nothing here is taken from
how types are written.

Main results:

  * `Derives.mono`: a tree of a nonterminal is one of every looser one;
  * `Derives.opens`: which tokens a type or a parameter can begin with.
-/

namespace Estree.TypeSyntax

open Expression (Item separated trees named IsIdentifier isWord)

/-- A token is its text. -/
abbrev Token := String

/-! ## §1. Words. -/

/-- The operators before a type. -/
def typeOperators : List Token := ["keyof", "unique", "readonly"]

/-- The words that are types, with the types that they are. -/
def keywords : List (Token × KeywordType) :=
  [("any", .any), ("bigint", .bigint), ("boolean", .boolean), ("intrinsic", .intrinsic),
    ("never", .never), ("null", .null), ("number", .number), ("object", .object),
    ("string", .string), ("symbol", .symbol), ("undefined", .undefined), ("unknown", .unknown),
    ("void", .void), ("this", .this)]

/-- The word can be the name of a type. -/
def IsTypeName (x : Token) : Prop :=
  IsIdentifier x ∧ x ∉ typeOperators ∧ x ∉ keywords.map Prod.fst

/-! ## §2. Trees. -/

/-- A parameter of a function type. -/
structure Parameter where
  name : Token
  optional : Bool
  type : Node

/-- The node of a parameter. -/
def Parameter.node (p : Parameter) : Node :=
  .identifier p.name p.optional (some (.tsTypeAnnot p.type)) []

/-- The types with an arrow. -/
inductive Arrow where
  | function
  | constructor (abstract : Bool)

namespace Arrow

/-- The words before the parameters. -/
def words : Arrow → List Token
  | function => []
  | constructor false => ["new"]
  | constructor true => ["abstract", "new"]

/-- The node with parameters and a result. -/
def node (params : List Node) (result : Node) : Arrow → Node
  | function => .signature .function params (some (.tsTypeAnnot result)) none false
  | constructor abstract =>
    .signature .constructor params (some (.tsTypeAnnot result)) none abstract

end Arrow

/-- The node of a name with arguments, if there are any. -/
def reference (x : Token) (arguments : Option (List Node)) : Node :=
  .tsTypeReference (named x) (arguments.map .tsTypeParameterInstantiation)

/-! ## §3. Derivations. -/

/-- The nonterminals: those of types, from the loosest to the tightest, and the parameters. -/
inductive NonTerminal where
  | type | union | intersection | operator | suffixed | primary | parameter
  deriving DecidableEq

/-- The nonterminal that is one of a nonterminal as it stands. -/
def NonTerminal.unit? : NonTerminal → Option NonTerminal
  | type => some union
  | union => some intersection
  | intersection => some operator
  | operator => some suffixed
  | suffixed => some primary
  | primary | parameter => none

/-- `Derives a ts n`: the tokens `ts` are an `a` with the tree `n`. -/
inductive Derives : NonTerminal → List Token → Node → Prop where
  | unit {a b : NonTerminal} {ts : List Token} {n : Node} : b.unit? = some a →
      Derives a ts n → Derives b ts n
  | keyword {x : Token} {k : KeywordType} : (x, k) ∈ keywords →
      Derives .primary [x] (.keywordType k)
  | name {x : Token} : IsTypeName x → Derives .primary [x] (reference x none)
  | applied {x : Token} {items : List Item} : IsTypeName x →
      (∀ i ∈ items, Derives .type i.1 i.2) →
      Derives .primary (x :: "<" :: (separated "," items ++ [">"])) (reference x (trees items))
  | parens {ts : List Token} {n : Node} : Derives .type ts n →
      Derives .primary ("(" :: (ts ++ [")"])) n
  | tuple {items : List Item} : (∀ i ∈ items, Derives .type i.1 i.2) →
      Derives .primary ("[" :: (separated "," items ++ ["]"])) (.tsTupleType (trees items))
  | array {ts : List Token} {n : Node} : Derives .suffixed ts n →
      Derives .suffixed (ts ++ ["[", "]"]) (.tsArrayType n)
  | index {o k : List Token} {no nk : Node} : Derives .suffixed o no → Derives .type k nk →
      Derives .suffixed (o ++ "[" :: (k ++ ["]"])) (.tsIndexedAccessType no nk)
  | operator {op : Token} {ts : List Token} {n : Node} : op ∈ typeOperators →
      Derives .operator ts n → Derives .operator (op :: ts) (.tsTypeOperator op n)
  | intersection {items : List Item} : 2 ≤ items.length →
      (∀ i ∈ items, Derives .operator i.1 i.2) →
      Derives .intersection (separated "&" items) (.tsIntersectionType (trees items))
  | union {items : List Item} : 2 ≤ items.length →
      (∀ i ∈ items, Derives .intersection i.1 i.2) →
      Derives .union (separated "|" items) (.tsUnionType (trees items))
  | arrow (f : Arrow) {items : List Item} {r : List Token} {nr : Node} :
      (∀ i ∈ items, Derives .parameter i.1 i.2) → Derives .type r nr →
      Derives .type (f.words ++ "(" :: (separated "," items ++ ")" :: "=>" :: r))
        (f.node (trees items) nr)
  | conditional {c e t f : List Token} {nc ne nt nf : Node} : Derives .union c nc →
      Derives .union e ne → Derives .type t nt → Derives .type f nf →
      Derives .type (c ++ "extends" :: (e ++ "?" :: (t ++ ":" :: f)))
        (.tsConditionalType nc ne nt nf)
  | parameter {x : Token} {ts : List Token} {n : Node} : IsIdentifier x → Derives .type ts n →
      Derives .parameter (x :: ":" :: ts) (Parameter.node ⟨x, false, n⟩)
  | parameterOptional {x : Token} {ts : List Token} {n : Node} : IsIdentifier x →
      Derives .type ts n → Derives .parameter (x :: "?" :: ":" :: ts) (Parameter.node ⟨x, true, n⟩)

/-! ## §4. Looser nonterminals. -/

/-- Whether every one of `a` is one of a nonterminal, by so many unit productions at most. -/
def NonTerminal.includes (a : NonTerminal) : (steps : Nat) → NonTerminal → Bool
  | 0, b => decide (a = b)
  | steps + 1, b => decide (a = b) || b.unit?.any (a.includes steps)

/-- `a ≤ b`: every `a` is a `b` as it stands. -/
instance : LE NonTerminal := ⟨fun a b => a.includes 5 b = true⟩

instance (a b : NonTerminal) : Decidable (a ≤ b) :=
  inferInstanceAs (Decidable (a.includes 5 b = true))

/-- A tree of a nonterminal is one of every looser one. -/
theorem Derives.mono {a b : NonTerminal} {ts : List Token} {n : Node} (hab : a ≤ b)
    (h : Derives a ts n) : Derives b ts n := by
  have hsteps : ∀ steps (b : NonTerminal), a.includes steps b = true → Derives b ts n := by
    intro steps
    induction steps with
    | zero =>
      intro b hb
      rwa [← of_decide_eq_true hb]
    | succ steps ih =>
      intro b hb
      rw [NonTerminal.includes, Bool.or_eq_true, decide_eq_true_eq] at hb
      rcases hb with rfl | hb
      · exact h
      · cases hc : b.unit? with
        | none => simp [hc] at hb
        | some c => exact .unit hc (ih c (by simpa [hc] using hb))
  exact hsteps 5 b hab

/-! ## §5. First tokens. -/

/-- The token can begin a type or a parameter. -/
def Starts (t : Token) : Prop := isWord t = true ∨ t = "(" ∨ t = "["

/-- What begins a type is neither a punctuator nor an opening of another sort. -/
theorem Starts.ne {t u : Token} (ht : Starts t) (hu : isWord u = false ∧ u ≠ "(" ∧ u ≠ "[") :
    t ≠ u := by
  rintro rfl
  rcases ht with ht | ht | ht
  · exact absurd ht (by simp [hu.1])
  · exact hu.2.1 ht
  · exact hu.2.2 ht

/-- The tokens do not go on like a parameter after its name. -/
def Unmarked (ts : List Token) : Prop := ts.head? ≠ some ":" ∧ ts.head? ≠ some "?"

/-- What begins a type is no mark of a parameter. -/
theorem Starts.unmarked {t : Token} (ht : Starts t) (ts : List Token) : Unmarked (t :: ts) := by
  have hcolon : t ≠ ":" := ht.ne (by decide)
  have hmark : t ≠ "?" := ht.ne (by decide)
  simp [Unmarked, hcolon, hmark]

/-- The tokens begin as an `a` does: a colon comes after the first one in a parameter only. -/
def Opens (a : NonTerminal) (ts : List Token) : Prop :=
  ∃ t more, ts = t :: more ∧ Starts t ∧ (a ≠ .parameter → Unmarked more)

theorem Opens.of_ne {a b : NonTerminal} {ts : List Token} (h : Opens a ts) (ha : a ≠ .parameter) :
    Opens b ts := by
  obtain ⟨t, more, rfl, ht, hmore⟩ := h
  exact ⟨t, more, rfl, ht, fun _ => hmore ha⟩

/-- What follows must not be taken for the rest of a parameter. -/
theorem Opens.append {a : NonTerminal} {ts us : List Token} (h : Opens a ts) (hu : Unmarked us) :
    Opens a (ts ++ us) := by
  obtain ⟨t, more, rfl, ht, hmore⟩ := h
  refine ⟨t, more ++ us, rfl, ht, fun ha => ?_⟩
  cases more with
  | nil => exact hu
  | cons u more => exact hmore ha

/-- A list does not begin like the rest of a parameter. -/
theorem unmarked_separated {a : NonTerminal} {sep : Token} {items : List Item} {ts : List Token}
    (hitems : ∀ i ∈ items, Opens a i.1) (hts : Unmarked ts) :
    Unmarked (separated sep items ++ ts) := by
  cases items with
  | nil => exact hts
  | cons i items =>
    obtain ⟨t, more, hi, ht, -⟩ := hitems i List.mem_cons_self
    cases items with
    | nil => simpa [separated, hi] using ht.unmarked _
    | cons j items => simpa [separated, hi] using ht.unmarked _

/-- A list of two or more begins with its first item and a separator. -/
theorem opens_separated {a : NonTerminal} {sep : Token} {items : List Item}
    (hlen : 2 ≤ items.length) (hitems : ∀ i ∈ items, Opens a i.1) (hsep : Unmarked [sep]) :
    Opens a (separated sep items) := by
  match items, hlen with
  | i :: j :: items, _ =>
    have hfirst : Opens a (i.1 ++ sep :: separated sep (j :: items)) :=
      (hitems i List.mem_cons_self).append hsep
    exact hfirst

/-- A keyword is a word, and none that stands before a type. -/
theorem isWord_of_mem_keywords {x : Token} {k : KeywordType} (h : (x, k) ∈ keywords) :
    isWord x = true ∧ x ∉ "new" :: typeOperators := by
  have hall : ∀ p ∈ keywords, isWord p.1 = true ∧ p.1 ∉ "new" :: typeOperators := by decide
  exact hall (x, k) h

/-- **How trees begin**: with a word or an opening, and a mark comes next in a parameter only. -/
theorem Derives.opens {a : NonTerminal} {ts : List Token} {n : Node} (h : Derives a ts n) :
    Opens a ts := by
  induction h with
  | @unit a b _ _ hab _ ih =>
    refine ih.of_ne ?_
    rintro rfl
    revert hab
    cases b <;> decide
  | keyword hk =>
    exact ⟨_, _, rfl, .inl (isWord_of_mem_keywords hk).1, fun _ => by simp [Unmarked]⟩
  | name hx => exact ⟨_, _, rfl, .inl hx.1.1, fun _ => by simp [Unmarked]⟩
  | applied hx => exact ⟨_, _, rfl, .inl hx.1.1, fun _ => by simp [Unmarked]⟩
  | parens _ ih =>
    obtain ⟨t, more, rfl, ht, -⟩ := ih
    exact ⟨_, _, rfl, .inr (.inl rfl), fun _ => ht.unmarked _⟩
  | tuple _ ih =>
    exact ⟨_, _, rfl, .inr (.inr rfl), fun _ => unmarked_separated ih (by simp [Unmarked])⟩
  -- what stands behind does not change the beginning
  | array _ ih => exact ih.append (by simp [Unmarked])
  | index _ _ ih => exact ih.append (by simp [Unmarked])
  | @operator op _ _ hop _ ih =>
    have hword : ∀ op ∈ typeOperators, isWord op = true := by decide
    obtain ⟨t, more, rfl, ht, -⟩ := ih
    exact ⟨_, _, rfl, .inl (hword op hop), fun _ => ht.unmarked _⟩
  | intersection hlen _ ih =>
    exact (opens_separated hlen ih (by simp [Unmarked])).of_ne (by decide)
  | union hlen _ ih => exact (opens_separated hlen ih (by simp [Unmarked])).of_ne (by decide)
  | arrow f _ _ ih =>
    cases f with
    | function =>
      exact ⟨_, _, rfl, .inr (.inl rfl), fun _ => unmarked_separated ih (by simp [Unmarked])⟩
    | constructor abstract =>
      cases abstract with
      | false => exact ⟨_, _, rfl, .inl (by decide), fun _ => by simp [Unmarked]⟩
      | true => exact ⟨_, _, rfl, .inl (by decide), fun _ => by simp [Unmarked]⟩
  | conditional _ _ _ _ ih =>
    exact (ih.append (by simp [Unmarked])).of_ne (by decide)
  -- in a parameter a mark may follow the name
  | parameter hx => exact ⟨_, _, rfl, .inl hx.1, fun h => absurd rfl h⟩
  | parameterOptional hx => exact ⟨_, _, rfl, .inl hx.1, fun h => absurd rfl h⟩

end Estree.TypeSyntax
