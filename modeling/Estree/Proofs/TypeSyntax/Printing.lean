import Estree.Proofs.Dispatch
import Estree.Proofs.TypeSyntax.Spelling

/-!
# Types are written as they are read

The document of every type spells tokens that the grammar reads as the type (`Writes`), if the
documents of its parts do. A type in a position stands in parentheses if the position lists its
kind; what the position does not list is read there as it stands (`sort_le`), but for a union among
the members of a union and an intersection among those of an intersection.

Main results:

  * `text_mem_keywords`: every keyword type is written as the word that the grammar has for it;
  * `writes_array`, `writes_union`, `writes_arrow` and so on: one lemma for each sort of type.
-/

namespace Estree.TypeSyntax

open Expression (Item separated trees named IsIdentifier isWord)

/-! ## §1. Positions. -/

/-- The nonterminal that a type without parentheses is read as. -/
def sort : Kind → NonTerminal
  | .tsFunctionType | .tsConstructorType | .tsConditionalType => .type
  | .tsUnionType => .union
  | .tsIntersectionType => .intersection
  | .tsTypeOperator => .operator
  | .tsArrayType | .tsIndexedAccessType => .suffixed
  | _ => .primary

/-- The kinds that are not primary. -/
def compoundKinds : List Kind :=
  [.tsFunctionType, .tsConstructorType, .tsConditionalType, .tsUnionType, .tsIntersectionType,
    .tsTypeOperator, .tsArrayType, .tsIndexedAccessType]

/-- A kind that a position does not list is read there as it stands, if this is so of the compound
kinds. -/
theorem sort_le (wrapped : List Kind) {a : NonTerminal} (ha : .primary ≤ a)
    (hall : ∀ k ∈ compoundKinds, wrapped.contains k = false → sort k ≤ a) {k : Kind}
    (h : wrapped.contains k = false) : sort k ≤ a := by
  have hk : k ∈ compoundKinds ∨ sort k = .primary := by
    unfold sort
    split <;> first | exact .inr rfl | exact .inl (by decide)
  rcases hk with hk | hk
  · exact hall k hk h
  · rwa [hk]

/-- Every type is a type as it stands. -/
theorem sort_le_type (k : Kind) : sort k ≤ .type :=
  sort_le [] (by decide) (by decide) rfl

/-! ## §2. Documents that are read as a tree. -/

/-- The document spells tokens that the grammar reads as the tree. -/
def Reads (d : Doc) (a : NonTerminal) (n : Node) : Prop := ∃ ts, Spells d ts ∧ Derives a ts n

namespace Reads

variable {d : Doc} {a b : NonTerminal} {n : Node}

/-- What is read as a nonterminal is read as every looser one. -/
theorem mono (h : Reads d a n) (hab : a ≤ b) : Reads d b n := by
  obtain ⟨ts, hs, hd⟩ := h
  exact ⟨ts, hs, hd.mono hab⟩

/-- In parentheses every type is primary. -/
theorem parens (h : Reads d .type n) : Reads d.parens .primary n := by
  obtain ⟨ts, hs, hd⟩ := h
  exact ⟨_, hs.enclosed (by decide) (by decide), .parens hd⟩

/-- A type in a position, in parentheses where it would not stand otherwise. -/
theorem memberType {s : Scope} (wrapped : List Kind) (h : Reads (s.emit n) (sort n.kind) n)
    (ha : .primary ≤ a) (hw : wrapped.contains n.kind = false → sort n.kind ≤ a) :
    Reads (Emit.memberType s wrapped n) a n := by
  unfold Emit.memberType
  cases hk : wrapped.contains n.kind with
  | false => exact h.mono (hw hk)
  | true => exact (h.mono (sort_le_type _)).parens.mono ha

end Reads

/-- The documents of trees, with a separator between them. -/
theorem reads_joined {f : Node → Doc} {a : NonTerminal} {g s : String} (hg : Divides g [s])
    {ns : List Node} (h : ∀ n ∈ ns, Reads (f n) a n) : ∃ items : List Item, trees items = ns ∧
      (∀ i ∈ items, Derives a i.1 i.2) ∧ Spells (.join g (ns.map f)) (separated s items) := by
  induction ns with
  | nil => exact ⟨[], rfl, nofun, .nil⟩
  | cons n ns ih =>
    obtain ⟨ts, hs, hd⟩ := h n List.mem_cons_self
    obtain ⟨items, rfl, hitems, hspells⟩ := ih fun m hm => h m (List.mem_cons_of_mem _ hm)
    refine ⟨(ts, n) :: items, rfl, List.forall_mem_cons.mpr ⟨hd, hitems⟩, ?_⟩
    cases items with
    | nil => exact hs
    | cons j items => exact hs.divided hg hspells

/-! ## §3. The types. -/

/-- The types and their parts as they are written. -/
abbrev scope : Scope := (Grammar.ofDialect .typed).scope

/-- The tree is written as one of the nonterminal. -/
def Writes (a : NonTerminal) (n : Node) : Prop := Reads (scope.emit n) a n

/-- A name is spelled as it is. -/
theorem spells_name {x : Token} (hx : isWord x = true) : Spells (scope.emit (named x)) [x] :=
  (Spells.word hx).of_line?_eq (Expression.line?_named .typed x)

/-- **Keywords are written as the grammar has them.** -/
theorem text_mem_keywords (k : KeywordType) : (k.text, k) ∈ keywords := by
  cases k <;> decide

/-- A keyword is a primary type. -/
theorem writes_keyword (k : KeywordType) : Writes .primary (.keywordType k) := by
  have hk := text_mem_keywords k
  refine ⟨_, ?_, .keyword hk⟩
  rw [Grammar.scope_emit (p := .keywordType) (by cases k <;> rfl)]
  exact .word (isWord_of_mem_keywords hk).1

theorem writes_name {x : Token} (hx : IsTypeName x) : Writes .primary (reference x none) := by
  refine ⟨_, ?_, .name hx⟩
  rw [Grammar.scope_emit (p := .typeReference) rfl]
  refine (spells_name hx.1.1).of_line?_eq ?_
  simp [Procedure.doc, reference, Emit.typeReference, Scope.emit?, Doc.ofOption]

/-- A name with type arguments. -/
theorem writes_applied {x : Token} (hx : IsTypeName x) {ns : List Node}
    (h : ∀ n ∈ ns, Writes .type n) : Writes .primary (reference x ns) := by
  obtain ⟨items, rfl, hitems, hs⟩ := reads_joined (g := ", ") (s := ",") (by decide) h
  have hlist : scope.emit (.tsTypeParameterInstantiation (trees items)) =
      "<" ++ scope.joined ", " (trees items) ++ ">" :=
    Grammar.scope_emit (p := .typeParameters) rfl
  refine ⟨_, ?_, .applied hx hitems⟩
  rw [Grammar.scope_emit (p := .typeReference) rfl]
  show Spells (scope.emit (named x) ++ scope.emit (.tsTypeParameterInstantiation (trees items))) _
  rw [hlist]
  exact (spells_name hx.1.1).append (hs.enclosed (by decide) (by decide))
    (((breaks_text (by decide)).append _).append _)

theorem writes_tuple {ns : List Node} (h : ∀ n ∈ ns, Writes .type n) :
    Writes .primary (.tsTupleType ns) := by
  obtain ⟨items, rfl, hitems, hs⟩ := reads_joined (g := ", ") (s := ",") (by decide) h
  refine ⟨_, ?_, .tuple hitems⟩
  rw [Grammar.scope_emit (p := .tupleType) rfl]
  exact hs.enclosed (by decide) (by decide)

/-- An array, with its element in parentheses where it is looser. -/
theorem writes_array {n : Node} (h : Writes (sort n.kind) n) :
    Writes .suffixed (.tsArrayType n) := by
  obtain ⟨ts, hs, hd⟩ := h.memberType Emit.inSuffixed (a := .suffixed) (by decide)
    (sort_le _ (by decide) (by decide))
  refine ⟨_, ?_, .array hd⟩
  rw [Grammar.scope_emit (p := .arrayType) rfl]
  exact hs.followed (by decide)

theorem writes_index {o k : Node} (ho : Writes (sort o.kind) o) (hk : Writes .type k) :
    Writes .suffixed (.tsIndexedAccessType o k) := by
  obtain ⟨ts, hs, hd⟩ := ho.memberType Emit.inSuffixed (a := .suffixed) (by decide)
    (sort_le _ (by decide) (by decide))
  obtain ⟨us, hs', hd'⟩ := hk
  refine ⟨_, ?_, .index hd hd'⟩
  rw [Grammar.scope_emit (p := .indexedAccessType) rfl]
  exact hs.append (hs'.enclosed (by decide) (by decide))
    (((breaks_text (by decide)).append _).append _)

/-- An operator before a type. -/
theorem writes_operator {op : Token} (hop : op ∈ typeOperators) {n : Node}
    (h : Writes (sort n.kind) n) : Writes .operator (.tsTypeOperator op n) := by
  have hword : ∀ op ∈ typeOperators, isWord op = true := by decide
  obtain ⟨ts, hs, hd⟩ := h.memberType Emit.inTypeOperator (a := .operator) (by decide)
    (sort_le _ (by decide) (by decide))
  refine ⟨_, ?_, .operator hop hd⟩
  rw [Grammar.scope_emit (p := .typeOperator) rfl]
  have hspells : Spells _ ([op] ++ ([] ++ ts)) :=
    (Spells.word (hword op hop)).divided (g := " ") (by decide) hs
  exact hspells

/-- Members in a position that does not list the kind `own`, which none of them is of. -/
theorem reads_members (wrapped : List Kind) {own : Kind} {a : NonTerminal} {g s : String}
    (hg : Divides g [s]) (ha : .primary ≤ a)
    (hall : ∀ k ∈ compoundKinds, (own :: wrapped).contains k = false → sort k ≤ a) {ns : List Node}
    (hne : ∀ n ∈ ns, n.kind ≠ own) (h : ∀ n ∈ ns, Writes (sort n.kind) n) :
    ∃ items : List Item, trees items = ns ∧ (∀ i ∈ items, Derives a i.1 i.2) ∧
      Spells (.join g (ns.map (Emit.memberType scope wrapped))) (separated s items) := by
  refine reads_joined hg fun n hn => (h n hn).memberType wrapped ha fun hw =>
    sort_le (own :: wrapped) ha hall ?_
  rw [List.contains_cons, hw, Bool.or_false]
  exact beq_false_of_ne (hne n hn)

/-- An intersection none of whose members is one. -/
theorem writes_intersection {ns : List Node} (hlen : 2 ≤ ns.length)
    (hne : ∀ n ∈ ns, n.kind ≠ .tsIntersectionType) (h : ∀ n ∈ ns, Writes (sort n.kind) n) :
    Writes .intersection (.tsIntersectionType ns) := by
  obtain ⟨items, rfl, hitems, hs⟩ := reads_members Emit.inIntersection (g := " & ")
    (s := "&") (a := .operator) (by decide) (by decide) (by decide) hne h
  refine ⟨_, ?_, .intersection (by simpa [trees] using hlen) hitems⟩
  rw [Grammar.scope_emit (p := .intersectionType) rfl]
  exact hs

/-- A union none of whose members is one. -/
theorem writes_union {ns : List Node} (hlen : 2 ≤ ns.length)
    (hne : ∀ n ∈ ns, n.kind ≠ .tsUnionType) (h : ∀ n ∈ ns, Writes (sort n.kind) n) :
    Writes .union (.tsUnionType ns) := by
  obtain ⟨items, rfl, hitems, hs⟩ := reads_members Emit.inUnion (g := " | ")
    (s := "|") (a := .intersection) (by decide) (by decide) (by decide) hne h
  refine ⟨_, ?_, .union (by simpa [trees] using hlen) hitems⟩
  rw [Grammar.scope_emit (p := .unionType) rfl]
  exact hs

/-! ## §4. Arrows and conditions. -/

/-- An annotation is written as its type. -/
theorem emit_typeAnnot (n : Node) : scope.emit (.tsTypeAnnot n) = scope.emit n :=
  Grammar.scope_emit (p := .typeAnnot) rfl

/-- A parameter, optional or not. -/
theorem writes_parameter {p : Parameter} (hx : IsIdentifier p.name) (h : Writes .type p.type) :
    Writes .parameter p.node := by
  obtain ⟨ts, hs, hd⟩ := h
  have hmark : Divides (if p.optional then "?: " else ": ")
      (if p.optional then ["?", ":"] else [":"]) := by
    cases p.optional <;> decide
  have hline : (scope.emit p.node).line? = (Doc.text p.name ++
      .text (if p.optional then "?: " else ": ") ++ scope.emit p.type).line? := by
    rw [Grammar.scope_emit (p := .identifier .typed) rfl]
    cases hopt : p.optional <;>
      simp [Procedure.doc, Emit.Typed.identifier, Parameter.node, Emit.Typed.binding,
        Emit.inlineDecorators, Doc.concat, Doc.onlyIf, Scope.annot, Doc.ofOption, emit_typeAnnot,
        Function.comp_def, hopt]
  have hspells := ((Spells.word hx.1).divided hmark hs).of_line?_eq hline
  obtain ⟨x, optional, n⟩ := p
  cases optional with
  | false => exact ⟨_, hspells, .parameter hx hd⟩
  | true => exact ⟨_, hspells, .parameterOptional hx hd⟩

/-- What is written before the parameters of an arrow. -/
def Arrow.lead : Arrow → String
  | function => ""
  | constructor false => "new "
  | constructor true => "abstract new "

/-- What is written before the parameters is the words of the arrow. -/
theorem Arrow.introduces_lead (f : Arrow) : Introduces f.lead f.words := by
  match f with
  | function | constructor false | constructor true => decide

theorem line?_arrow (f : Arrow) (params : List Node) (r : Node) :
    (scope.emit (f.node params r)).line? =
      (Doc.text f.lead ++ scope.sequence params ++ " => " ++ scope.emit r).line? := by
  rw [Grammar.scope_emit (p := .functionType) (by cases f <;> rfl)]
  match f with
  | .function | .constructor false | .constructor true =>
    simp [Procedure.doc, Arrow.node, Arrow.lead, Emit.functionType, Emit.functionTypeOf,
      Emit.functionTypeHead, Doc.onlyIf, Scope.emit?, Doc.ofOption, emit_typeAnnot]

/-- A function or constructor type takes everything that comes after its arrow. -/
theorem writes_arrow (f : Arrow) {ps : List Parameter} {r : Node}
    (hnames : ∀ p ∈ ps, IsIdentifier p.name) (h : ∀ p ∈ ps, Writes .type p.type)
    (hr : Writes .type r) : Writes .type (f.node (ps.map Parameter.node) r) := by
  have hparams : ∀ n ∈ ps.map Parameter.node, Writes .parameter n :=
    List.forall_mem_map.mpr fun p hp => writes_parameter (hnames p hp) (h p hp)
  obtain ⟨items, hitems, hd, hs⟩ := reads_joined (g := ", ") (s := ",") (by decide) hparams
  obtain ⟨ts, hs', hd'⟩ := hr
  have hhead := (hs.enclosed (o := "(") (c := ")") (by decide) (by decide)).introduced
    f.introduces_lead
  have harrow : Spells _ (f.words ++ "(" :: (separated "," items ++ [")"]) ++ (["=>"] ++ ts)) :=
    hhead.divided (g := " => ") (by decide) hs'
  have hspells := harrow.of_line?_eq (line?_arrow f _ r)
  rw [← hitems] at hspells ⊢
  exact ⟨_, by simpa using hspells, .arrow f hd hd'⟩

theorem writes_conditional {c e t f : Node} (hc : Writes .union c) (he : Writes .union e)
    (ht : Writes .type t) (hf : Writes .type f) : Writes .type (.tsConditionalType c e t f) := by
  obtain ⟨cs, hcs, hc⟩ := hc
  obtain ⟨es, hes, he⟩ := he
  obtain ⟨ts, hts, ht⟩ := ht
  obtain ⟨fs, hfs, hf⟩ := hf
  have htest : Spells _ (cs ++ (["extends"] ++ es)) :=
    hcs.divided (g := " extends ") (by decide) hes
  have hthen : Spells _ (cs ++ (["extends"] ++ es) ++ (["?"] ++ ts)) :=
    htest.divided (g := " ? ") (by decide) hts
  have hspells : Spells _ (cs ++ (["extends"] ++ es) ++ (["?"] ++ ts) ++ ([":"] ++ fs)) :=
    hthen.divided (g := " : ") (by decide) hfs
  simp only [List.cons_append, List.nil_append, List.append_assoc] at hspells
  refine ⟨_, ?_, .conditional hc he ht hf⟩
  rw [Grammar.scope_emit (p := .conditionalType) rfl]
  exact hspells

end Estree.TypeSyntax
