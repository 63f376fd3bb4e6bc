import Estree.Proofs.TextLoading.Grammar
import Estree.Proofs.TextLoading.KeyOrder

/-!
# Loading from a text

A text is loaded as a stream, in the order of its keys; a value is loaded with its keys sorted.
Where the text is one value, nested no deeper than a text may be, the stream reads that value and
loads it as it stands (`Node.ofText_eq_ok_iff_ofRoot`). Where no object repeats a key either, the
order of the keys does not matter, and the two agree.

Main results:

* `Node.ofText_eq_ok_iff_ofRoot`: the stream reads the value.
* `Node.ofText_eq_ok_iff_ofValue`: text and value agree.
-/

namespace Estree

theorem Json.Reordered.nesting_le_iff {v w : Json} (h : v.Reordered w) (room : Nat) :
    v.nesting ≤ room ↔ w.nesting ≤ room := by
  induction h generalizing room with
  | refl v => exact Iff.rfl
  | @array parts _ ih =>
    cases room with
    | zero => simp [nesting]
    | succ room =>
      rw [nesting_array_le_iff, nesting_array_le_iff, List.forall_mem_map, List.forall_mem_map]
      exact forall₂_congr fun p hp => ih p hp room
  | @object parts ms _ hms ih =>
    cases room with
    | zero => simp [nesting]
    | succ room =>
      -- the members are the same up to their order
      have hright : (∀ m ∈ ms, m.2.nesting ≤ room) ↔ ∀ p ∈ parts, p.2.2.nesting ≤ room := by
        rw [← List.forall_mem_map (f := fun p : String × Json × Json => (p.1, p.2.2))
          (P := fun m => m.2.nesting ≤ room)]
        exact forall_congr' fun m => imp_congr_left hms.mem_iff.symm
      rw [nesting_object_le_iff, nesting_object_le_iff, hright, List.forall_mem_map]
      exact forall₂_congr fun p hp => ih p hp room

namespace Node

/-- Only an object is the root of a tree. -/
theorem ofRoot_ne_ok_of_ne_object {v : Json} (h : ∀ ms, v ≠ .object ms) (n : Node) :
    ofRoot v ≠ .ok n := by
  cases v with
  | object ms => exact absurd rfl (h ms)
  | _ => simp [ofRoot, ofJson]

/-- **The stream reads the value**: a text that is one value, not nested too deep, loads as that
value does in the order of its keys. -/
theorem ofText_eq_ok_iff_ofRoot {text : String} {v : Json} (h : v.Spelled (Token.ofText text))
    (hdepth : v.nesting ≤ maxNesting) (n : Node) : ofText text = .ok n ↔ ofRoot v = .ok n := by
  unfold ofText
  generalize Token.ofText text = ts at h
  cases h with
  | @scalar t v ht =>
    have hv : ∀ ms, v ≠ .object ms := by
      rintro ms rfl
      cases t with
      | numeral t =>
        obtain ⟨x, -, h⟩ := Option.map_eq_some_iff.mp ht
        cases h
      | _ => cases ht
    have hno := ofRoot_ne_ok_of_ne_object hv n
    cases t with
    | openBrace | openBracket => cases ht
    | _ => simp [ht, hno]
  | array _ => simp [ofRoot, ofJson]
  | @object parts hparts =>
    -- the object itself takes one level of the nesting
    have hread : ∀ p ∈ parts, Json.ReadAs (maxNesting - 1) p.2.1 p.2.2 := fun p hp =>
      (hparts p hp).readAs (Json.nesting_object_le_iff.mp hdepth (p.1, p.2.1)
        (List.mem_map_of_mem hp))
    simp only
    rw [Json.braced_joined hread (by simp)]
    rw [ofRoot_object]
    cases Kind.ofMembers Kind.ofTagJson none (parts.map fun p => (p.1, p.2.1)) with
    | error e => simp [Except.bind]
    | ok found => cases ofJson (.object (parts.map fun p => (p.1, p.2.1))) <;> simp [Except.bind]

/-- **Text and value agree**: a text that is one value, not nested too deep and without repeated
keys, loads exactly when the value does, as the same node; and so does every text with the same
members in another order. -/
theorem ofText_eq_ok_iff_ofValue {text : String} {v : Json} (hread : Json.read? text = some v)
    (hkeys : v.UniqueKeys) (hdepth : v.nesting ≤ maxNesting) :
    (∀ n, ofText text = .ok n ↔ ofValue v = .ok n) ∧
      ∀ (text' : String) (w : Json), Json.read? text' = some w → v.Reordered w →
        ∀ n, ofText text' = .ok n ↔ ofText text = .ok n := by
  have hstream := ofText_eq_ok_iff_ofRoot (Json.read?_eq_some_iff.mp hread) hdepth
  refine ⟨fun n => (hstream n).trans (ofRoot_eq_ok_iff_ofValue hkeys n), ?_⟩
  intro text' w hread' hvw n
  have hstream' := ofText_eq_ok_iff_ofRoot (Json.read?_eq_some_iff.mp hread')
    ((hvw.nesting_le_iff _).mp hdepth)
  rw [hstream', hstream]
  exact (ofRoot_eq_ok_iff_of_reordered hvw hkeys n).symm

/-- The tags come first in one text and last in the other. -/
theorem ofText_eq_ok_iff_ofValue_spread :
    let text :=
      " \x7b\"type\":\"SpreadElement\",\"argument\":\x7b\"type\":\"Identifier\",\"name\":\"a\"\x7d\x7d"
    let text' :=
      "\x7b\"argument\":\x7b\"name\":\"a\",\"type\":\"Identifier\"\x7d,\"type\":\"SpreadElement\"\x7d\n"
    let inner : List (String × Json) := [("type", .string "Identifier"), ("name", .string "a")]
    let outer (argument : Json) : List (String × Json) :=
      [("type", .string "SpreadElement"), ("argument", argument)]
    let node : Node := .spreadElement (.identifier "a" false none []) none
    Json.read? text = some (.object (outer (.object inner))) ∧
      Json.read? text' = some (.object (outer (.object inner.reverse)).reverse) ∧
      ofText text = .ok node ∧ ofText text' = .ok node := by
  intro text text' inner outer node
  have hread : Json.read? text = some (.object (outer (.object inner))) := by
    simp only [text, outer, inner]
    with_unfolding_all rfl
  have hread' : Json.read? text' = some (.object (outer (.object inner.reverse)).reverse) := by
    simp only [text', outer, inner]
    with_unfolding_all rfl
  have hkeys : (Json.object (outer (.object inner))).UniqueKeys := by
    simp [outer, inner, Json.UniqueKeys, Json.UniqueKeysMembers]
  have hinner : Json.Reordered (.object inner) (.object inner.reverse) :=
    @Json.Reordered.object_map _ _ id (fun m _ => .refl m.2) (List.reverse_perm inner).symm
  have hreordered : (Json.object (outer (.object inner))).Reordered
      (.object (outer (.object inner.reverse)).reverse) :=
    @Json.Reordered.object [("type", .string "SpreadElement", .string "SpreadElement"),
      ("argument", .object inner, .object inner.reverse)] _
      (by simp [Json.Reordered.refl, hinner]) (List.reverse_perm _).symm
  have hagree := ofText_eq_ok_iff_ofValue hread hkeys (by decide)
  have htext : ofText text = .ok node := (hagree.1 node).mpr rfl
  exact ⟨hread, hread', htext, (hagree.2 text' _ hread' hreordered node).mpr htext⟩

end Node

end Estree
