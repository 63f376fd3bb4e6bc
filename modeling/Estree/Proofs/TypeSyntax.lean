import Estree.Generator
import Estree.Proofs.TypeSyntax.Printing
import Estree.Proofs.TypeSyntax.Unambiguous

/-!
# Types are read back

The text of a type of keywords, names, unions, intersections, type operators, arrays, members,
tuples, functions, constructors and conditions is read as the type that it was written from, and as
no other, in every layout (`TypeSyntax.generate_readsAs_type`). Writing decides on parentheses by
four lists of kinds. Reading does not know them: it cuts the text into tokens (`tokens`) and follows
the grammar of TypeScript (`Derives`), in which a function or a condition takes everything that
comes after its arrow or its colon.

Main results:

  * `Fragment.writes`: every type of the fragment is written as what it is read as;
  * `generate_readsAs_type`: its text is read as the type and as nothing else.
-/

namespace Estree.TypeSyntax

open Expression (named IsIdentifier)

/-- The types that are read back: a union has two members or more and none that is a union, an
intersection likewise, and no arrow or condition stands before the question mark of a condition. -/
inductive Fragment : Node → Prop where
  | keyword (k : KeywordType) : Fragment (.keywordType k)
  | name {x : Token} : IsTypeName x → Fragment (reference x none)
  | applied {x : Token} {ns : List Node} : IsTypeName x → (∀ n ∈ ns, Fragment n) →
      Fragment (reference x ns)
  | tuple {ns : List Node} : (∀ n ∈ ns, Fragment n) → Fragment (.tsTupleType ns)
  | array {n : Node} : Fragment n → Fragment (.tsArrayType n)
  | index {o k : Node} : Fragment o → Fragment k → Fragment (.tsIndexedAccessType o k)
  | operator {op : Token} {n : Node} : op ∈ typeOperators → Fragment n →
      Fragment (.tsTypeOperator op n)
  | intersection {ns : List Node} : 2 ≤ ns.length → (∀ n ∈ ns, n.kind ≠ .tsIntersectionType) →
      (∀ n ∈ ns, Fragment n) → Fragment (.tsIntersectionType ns)
  | union {ns : List Node} : 2 ≤ ns.length → (∀ n ∈ ns, n.kind ≠ .tsUnionType) →
      (∀ n ∈ ns, Fragment n) → Fragment (.tsUnionType ns)
  | arrow (f : Arrow) {ps : List Parameter} {r : Node} : (∀ p ∈ ps, IsIdentifier p.name) →
      (∀ p ∈ ps, Fragment p.type) → Fragment r → Fragment (f.node (ps.map Parameter.node) r)
  | conditional {c e t f : Node} :
      (∀ n ∈ [c, e], n.kind ∉ [.tsFunctionType, .tsConstructorType, .tsConditionalType]) →
      Fragment c → Fragment e → Fragment t → Fragment f → Fragment (.tsConditionalType c e t f)

/-- **Every type is written as what it is read as**, by induction on the type. -/
theorem Fragment.writes {n : Node} (h : Fragment n) : Writes (sort n.kind) n := by
  -- between delimiters there may be any type
  have htype : ∀ {n : Node}, Writes (sort n.kind) n → Writes .type n := fun h =>
    h.mono (sort_le_type _)
  induction h with
  | keyword k =>
    have hk : sort k.kind = .primary := by cases k <;> rfl
    show Writes (sort k.kind) _
    rw [hk]
    exact writes_keyword k
  | name hx => exact writes_name hx
  | applied hx _ ih => exact writes_applied hx fun n hn => htype (ih n hn)
  | tuple _ ih => exact writes_tuple fun n hn => htype (ih n hn)
  | array _ ih => exact writes_array ih
  | index _ _ iho ihk => exact writes_index iho (htype ihk)
  | operator hop _ ih => exact writes_operator hop ih
  | intersection hlen hne _ ih => exact writes_intersection hlen hne ih
  | union hlen hne _ ih => exact writes_union hlen hne ih
  | arrow f hx _ _ ih ihr =>
    have hsort : ∀ ps r, sort (f.node ps r).kind = .type := by cases f <;> exact fun _ _ => rfl
    rw [hsort]
    exact writes_arrow f hx (fun p hp => htype (ih p hp)) (htype ihr)
  | @conditional c e t f hne _ _ _ _ ihc ihe iht ihf =>
    have htest : ∀ n ∈ [c, e], sort n.kind ≤ .union := fun n hn =>
      sort_le Emit.inUnion (by decide) (by decide)
        (by simpa [Emit.inUnion] using hne n hn)
    exact writes_conditional (ihc.mono (htest c (by simp))) (ihe.mono (htest e (by simp)))
      (htype iht) (htype ihf)

/-- The grammar reads the text as the type. -/
def ReadsAs (text : String) (n : Node) : Prop := ∃ ts, tokens text = some ts ∧ Derives .type ts n

/-- A text is read as one type at most. -/
theorem ReadsAs.unique {text : String} {m n : Node} (hm : ReadsAs text m) (hn : ReadsAs text n) :
    m = n := by
  obtain ⟨ts, hts, hm⟩ := hm
  obtain ⟨us, hus, hn⟩ := hn
  obtain rfl := Option.some.inj (hts.symm.trans hus)
  exact hm.unique hn

/-- **Types are read back.** The text of a type is read as the type and as nothing else. -/
theorem generate_readsAs_type {t : Node} (h : Fragment t) :
    ∃ text, (∀ l, (Generator.ofDialect .typed l).generate t = .ok text) ∧
      ∀ n, ReadsAs text n ↔ n = t := by
  obtain ⟨ts, ⟨cs, hline, hscan⟩, hd⟩ := h.writes.mono (sort_le_type _)
  refine ⟨String.ofList cs, Generator.generate_of_line? hline, fun n => ?_⟩
  have hread : ReadsAs (String.ofList cs) t := ⟨ts, by rwa [tokens, String.toList_ofList], hd⟩
  constructor
  · exact fun hn => hn.unique hread
  · rintro rfl
    exact hread

/-- A condition about a union, with an arrow for each of its outcomes: `keyof (A & B)[] | ((a?:
C<D<E>>) => void) extends (keyof A)[string] ? abstract new () => [] : never`. -/
theorem generate_readsAs_type_conditional :
    let t : Node := .tsConditionalType
      (.tsUnionType
        [.tsTypeOperator "keyof" (.tsArrayType (.tsIntersectionType [reference "A" none,
          reference "B" none])),
         Arrow.function.node [Parameter.node ⟨"a", true, reference "C" (some [reference "D" (some
          [reference "E" none])])⟩] (.keywordType .void)])
      (.tsIndexedAccessType (.tsTypeOperator "keyof" (reference "A" none)) (.keywordType .string))
      ((Arrow.constructor true).node [] (.tsTupleType []))
      (.keywordType .never)
    Fragment t ∧ ∃ text, (∀ l, (Generator.ofDialect .typed l).generate t = .ok text) ∧
      ∀ n, ReadsAs text n ↔ n = t := by
  intro t
  have hx : ∀ x ∈ ["A", "B", "C", "D", "E"], IsTypeName x := by
    unfold IsTypeName IsIdentifier
    decide
  have hname : ∀ x ∈ ["A", "B", "E"], Fragment (reference x none) := fun x h =>
    .name (hx x (by revert x; decide))
  have hpair : ∀ n ∈ [reference "A" none, reference "B" none], Fragment n := by
    simp only [List.forall_mem_cons]
    exact ⟨hname "A" (by decide), hname "B" (by decide), nofun⟩
  have hkeys : Fragment (.tsTypeOperator "keyof" (.tsArrayType (.tsIntersectionType
      [reference "A" none, reference "B" none]))) :=
    .operator (by decide) (.array (.intersection (by decide) (by decide) hpair))
  have hlist : Fragment (reference "C" (some [reference "D" (some [reference "E" none])])) :=
    .applied (hx "C" (by decide)) (by
      simpa using Fragment.applied (hx "D" (by decide)) (by simpa using hname "E" (by decide)))
  have hfunction : Fragment (Arrow.function.node [Parameter.node ⟨"a", true, reference "C" (some
      [reference "D" (some [reference "E" none])])⟩] (.keywordType .void)) :=
    @Fragment.arrow .function [⟨"a", true, _⟩] _ (by unfold IsIdentifier; decide)
      (by simpa using hlist) (.keyword .void)
  have hindex : Fragment (.tsIndexedAccessType (.tsTypeOperator "keyof" (reference "A" none))
      (.keywordType .string)) :=
    .index (.operator (by decide) (hname "A" (by decide))) (.keyword .string)
  have ht : Fragment t :=
    .conditional (by decide)
      (.union (by decide) (by decide) (by simpa using ⟨hkeys, hfunction⟩)) hindex
      (@Fragment.arrow (.constructor true) [] _ nofun nofun (.tuple nofun)) (.keyword .never)
  exact ⟨ht, generate_readsAs_type ht⟩

end Estree.TypeSyntax
