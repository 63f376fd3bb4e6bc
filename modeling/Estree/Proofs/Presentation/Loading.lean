import Estree.Proofs.Descent
import Estree.Proofs.Kinds
import Estree.Proofs.Presentation.Schema
import Estree.Proofs.Results
import Mathlib.Data.List.Nodup

/-!
# Loading and the format

One step of the correspondence between loading and the format: a value loads as a node exactly when
it has the format of the node, where what loads as a node stands for the nodes inside. The parts of
the step follow the loader: the tag, the fields, the lists, the records.

The root of a tree is loaded as any other node is, but for its tag, which has to be a text there.

Main results:

* `Json.loadsAsFits`: what a value loads as, in every shape a field may have.
* `Node.loads_iff_format`: the step, for a node inside another one.
* `Node.ofValue_eq_ok_iff_loads`: the root of a tree.
-/

namespace Estree

/-! ## §1. Tags. -/

namespace Kind

/-- The root has the tag of a kind as a text. -/
theorem ofTagJson_eq_ok_iff {v : Json} {k : Kind} : ofTagJson v = .ok k ↔ v = .string k.tag := by
  cases v with
  | string s =>
    rw [ofTagJson, Json.string.injEq, ← ofTag?_eq_some_iff]
    cases ofTag? s <;> simp
  | _ => simp [ofTagJson]

/-- Inside another node the position of the kind is as good as its tag. -/
theorem ofInnerTagJson_eq_ok_iff {v : Json} {k : Kind} :
    ofInnerTagJson v = .ok k ↔ v = .string k.tag ∨ v = .number (.int k.index) := by
  unfold ofInnerTagJson
  split
  next i =>
    have hindex : (Json.number (.int i) = .string k.tag ∨
        Json.number (.int i) = .number (.int k.index)) ↔ i = k.index := by simp
    rw [hindex]
    split
    next hneg => exact ⟨fun h => (by cases h), fun h => (by omega)⟩
    next hpos =>
      have hi : i = k.index ↔ ofIndex? i.toNat = some k := by
        rw [ofIndex?_eq_some_iff]
        omega
      rw [hi]
      cases ofIndex? i.toNat <;> simp
  next v hv =>
    rw [ofTagJson_eq_ok_iff]
    exact ⟨.inl, fun h => h.resolve_right (hv _)⟩

end Kind

/-! ## §2. Fields. -/

namespace Json

theorem canonical_object (ms : List (String × Json)) :
    (object ms).canonical = .object (canonicalMembers [] ms) := rfl

theorem canonicalItems_eq_map (items : List Json) : canonicalItems items = items.map canonical :=
  eq_map_of_elementwise rfl (fun _ _ => rfl) items

/-- A text is the canonical form of itself alone. -/
theorem canonical_eq_string_iff {v : Json} {s : String} :
    v.canonical = .string s ↔ v = .string s := by
  cases v <;> simp [canonical]

/-- A number is the canonical form of itself alone. -/
theorem canonical_eq_number_iff {v : Json} {i : Number} :
    v.canonical = .number i ↔ v = .number i := by
  cases v <;> simp [canonical]

section Keys

-- the selected keys are the names of a field, or the key of the tag
variable {sel : String → Bool} {names : List String} {ms : List (String × Json)}

/-- There is no value under keys that no member has. -/
theorem valuesAt_eq_nil_iff (hsel : ∀ k, sel k = true ↔ k ∈ names) :
    valuesAt sel ms = [] ↔ ∀ k ∈ names, ms.lookup k = none := by
  simp only [valuesAt, List.map_eq_nil_iff, List.filter_eq_nil_iff, hsel,
    List.lookup_eq_none_iff, bne_iff_ne, ne_eq]
  exact ⟨fun h k hk m hm hkm => h m hm (hkm ▸ hk), fun h m hm hk => h m.1 hk m hm rfl⟩

/-- A selection has one element when it takes that one and no other. -/
theorem filter_eq_singleton_iff {α : Type} {p : α → Bool} {as : List α} (h : as.Nodup) {a : α} :
    as.filter p = [a] ↔ a ∈ as ∧ p a = true ∧ ∀ b ∈ as, p b = true → b = a := by
  rw [← List.perm_singleton, List.perm_ext_iff_of_nodup (h.filter p) (List.nodup_singleton a)]
  simp only [List.mem_filter, List.mem_singleton]
  refine ⟨fun h => ⟨((h a).mpr rfl).1, ((h a).mpr rfl).2, fun b hb hp => (h b).mp ⟨hb, hp⟩⟩, ?_⟩
  rintro ⟨ha, hp, hall⟩ b
  refine ⟨fun hb => hall b hb.1 hb.2, ?_⟩
  rintro rfl
  exact ⟨ha, hp⟩

/-- Among sorted members there is one value under keys when just one of them has one. -/
theorem valuesAt_eq_singleton_iff (hsel : ∀ k, sel k = true ↔ k ∈ names) (h : Sorted ms)
    {z : Json} : valuesAt sel ms = [z] ↔ ∃ k ∈ names, ms.lookup k = some z ∧
      ∀ l ∈ names, l ≠ k → ms.lookup l = none := by
  -- sorted keys are different
  have hnodup : ms.Nodup := by
    refine List.Pairwise.imp ?_ h
    rintro a b hab rfl
    exact String.lt_irrefl a.1 hab
  constructor
  · intro hv
    obtain ⟨⟨k, w⟩, hfilter, rfl⟩ := List.map_eq_singleton_iff.mp hv
    obtain ⟨hmem, hnamed, hall⟩ := (filter_eq_singleton_iff hnodup).mp hfilter
    refine ⟨k, (hsel k).mp hnamed, h.lookup_eq_some_iff.mpr hmem, fun l hl hlk => ?_⟩
    refine Option.eq_none_iff_forall_ne_some.mpr fun x hx => hlk ?_
    -- another value under a selected key would be a second one
    have hlx := hall (l, x) (h.lookup_eq_some_iff.mp hx) ((hsel l).mpr hl)
    exact congrArg Prod.fst hlx
  · rintro ⟨k, hk, hz, hothers⟩
    refine List.map_eq_singleton_iff.mpr ⟨(k, z), (filter_eq_singleton_iff hnodup).mpr ?_, rfl⟩
    refine ⟨h.lookup_eq_some_iff.mp hz, (hsel k).mpr hk, fun ⟨l, x⟩ hm hl => ?_⟩
    have hx := h.lookup_eq_some_iff.mpr hm
    by_cases hlk : l = k
    · subst hlk
      rw [hz] at hx
      cases hx
      rfl
    · rw [hothers l ((hsel l).mp hl) hlk] at hx
      cases hx

/-- The canonical members have no value under keys when the object has none. -/
theorem valuesAt_canonical_eq_nil_iff (hsel : ∀ k, sel k = true ↔ k ∈ names) :
    valuesAt sel (canonicalMembers [] ms) = [] ↔ (object ms).Under names none := by
  rw [valuesAt_eq_nil_iff hsel]
  refine forall₂_congr fun k _ => ?_
  simp [lookup_canonicalMembers, field?]

/-- The canonical members have one value under keys when the object has one under just one of
them. -/
theorem valuesAt_canonical_eq_singleton_iff (hsel : ∀ k, sel k = true ↔ k ∈ names) {z : Json} :
    valuesAt sel (canonicalMembers [] ms) = [z] ↔
      ∃ x, x.canonical = z ∧ (object ms).Under names (some x) := by
  rw [valuesAt_eq_singleton_iff hsel (sorted_canonicalMembers .nil ms)]
  simp only [lookup_canonicalMembers, List.lookup_nil, Option.or_none,
    Option.map_eq_some_iff, Option.map_eq_none_iff, Under, field?]
  constructor
  · rintro ⟨k, hk, ⟨x, hx, rfl⟩, hothers⟩
    exact ⟨x, rfl, k, hk, hx, hothers⟩
  · rintro ⟨x, rfl, k, hk, hx, hothers⟩
    exact ⟨k, hk, ⟨x, hx, rfl⟩, hothers⟩

end Keys

end Json

namespace Kind

/-- The tag of an object in canonical form is the value that the object has under its key. -/
theorem ofMembers_canonical_eq_ok_iff {read : Json → Except LoadError Kind}
    {ms : List (String × Json)} {k : Kind} :
    ofMembers read none (Json.canonicalMembers [] ms) = .ok (some k) ↔
      ∃ t, (Json.object ms).field? "type" = some t ∧ read t.canonical = .ok k := by
  have hsel : ∀ key : String, (key == "type") = true ↔ key ∈ ["type"] := by simp
  have hunder : ∀ x, (Json.object ms).Under ["type"] (some x) ↔
      (Json.object ms).field? "type" = some x := by simp [Json.Under]
  simp only [ofMembers_eq_ok_some_iff, Json.valuesAt_canonical_eq_singleton_iff hsel, hunder]
  constructor
  · rintro ⟨_, ⟨t, rfl, ht⟩, hk⟩
    exact ⟨t, ht, hk⟩
  · rintro ⟨t, ht, hk⟩
    exact ⟨_, ⟨t, rfl, ht⟩, hk⟩

/-- The tag of a root selects the kind that the root has the tag of. -/
theorem ofMembers_root_iff {ms : List (String × Json)} {k : Kind} :
    ofMembers ofTagJson none (Json.canonicalMembers [] ms) = .ok (some k) ↔
      (Json.object ms).HasTag k := by
  simp only [ofMembers_canonical_eq_ok_iff, ofTagJson_eq_ok_iff, Json.canonical_eq_string_iff,
    exists_eq_right, Json.HasTag]

/-- The tag of a node inside another one selects the kind that it stands for there. -/
theorem ofMembers_inner_iff {ms : List (String × Json)} {k : Kind} :
    ofMembers ofInnerTagJson none (Json.canonicalMembers [] ms) = .ok (some k) ↔
      (Json.object ms).HasInnerTag k := by
  simp only [ofMembers_canonical_eq_ok_iff, ofInnerTagJson_eq_ok_iff,
    Json.canonical_eq_string_iff, Json.canonical_eq_number_iff, and_or_left, exists_or,
    exists_eq_right, Json.HasInnerTag, Json.HasTag]

end Kind

namespace Json

/-- An object stands for one kind. -/
theorem HasInnerTag.kind_eq {k l : Kind} {v : Json} (hk : v.HasInnerTag k) (hl : v.HasInnerTag l) :
    k = l := by
  unfold HasInnerTag HasTag at hk hl
  rcases hk with hk | hk <;> rcases hl with hl | hl <;> rw [hk] at hl
  · have htag : k.tag = l.tag := string.inj (Option.some.inj hl)
    have hkind : Kind.ofTag? k.tag = some l := htag ▸ l.ofTag?_tag
    rw [k.ofTag?_tag] at hkind
    exact Option.some.inj hkind
  · cases hl
  · cases hl
  · have hnumber : (k.index : Int) = l.index := Number.int.inj (number.inj (Option.some.inj hl))
    have hindex : k.index = l.index := Int.ofNat.inj hnumber
    have hkind : Kind.all[k.index]? = some l := hindex ▸ l.getElem?_index
    rw [k.getElem?_index] at hkind
    exact Option.some.inj hkind

/-- What stands for a kind is an object. -/
theorem HasInnerTag.object {k : Kind} {v : Json} (h : v.HasInnerTag k) : ∃ ms, v = .object ms := by
  cases v with
  | object ms => exact ⟨ms, rfl⟩
  | _ => rcases h with h | h <;> cases h

theorem HasTag.inner {k : Kind} {v : Json} (h : v.HasTag k) : v.HasInnerTag k := .inl h

end Json

/-- What stands under names is smaller than the object. -/
theorem Json.Under.sizeOf_lt {v x : Json} {names : List String} (h : v.Under names (some x)) :
    sizeOf x < sizeOf v := by
  obtain ⟨k, -, hk, -⟩ := h
  exact sizeOf_field?_lt hk

/-! ## §3. Lists. -/

/-- The value loads as the node inside another one. -/
def Node.Loads (n : Node) (v : Json) : Prop := Node.ofJson v.canonical = .ok n

/-- A loader that goes through the items one by one loads a list item by item. -/
theorem items_eq_ok_iff {α : Type} {load : Json → Except LoadError α}
    {loadAll : List Json → Except LoadError (List α)} (hnil : loadAll [] = .ok [])
    (hcons : ∀ v rest, loadAll (v :: rest) = (load v).bind fun a => (loadAll rest).map (a :: ·))
    (as : List α) (items : List Json) :
    loadAll items = .ok as ↔ List.Forall₂ (fun a v => load v = .ok a) as items := by
  induction items generalizing as with
  | nil =>
    rw [hnil, List.forall₂_nil_right_iff]
    exact ⟨fun h => (Except.ok.inj h).symm, fun h => h ▸ rfl⟩
  | cons v rest ih =>
    rw [hcons, List.forall₂_cons_right_iff]
    constructor
    · intro h
      obtain ⟨a, hv, h⟩ := exists_of_bind_eq_ok h
      obtain ⟨bs, hrest, rfl⟩ := exists_of_map_eq_ok h
      exact ⟨a, bs, hv, (ih bs).mp hrest, rfl⟩
    · rintro ⟨a, bs, hv, hbs, rfl⟩
      rw [hv, (ih bs).mpr hbs]
      rfl

/-- What is said of two lists, element by element, may be weakened at the elements. -/
theorem forall₂_imp_of_mem {α β : Type} {P Q : α → β → Prop} {as : List α} {bs : List β}
    (hP : List.Forall₂ P as bs) (h : ∀ a, ∀ b ∈ bs, P a b → Q a b) : List.Forall₂ Q as bs := by
  induction hP with
  | nil => exact .nil
  | cons hab _ ih =>
    exact .cons (h _ _ List.mem_cons_self hab) (ih fun a b hb => h a b (List.mem_cons_of_mem _ hb))

/-- What the elements of a list are asked may be weakened at the items. -/
theorem Entry.Listed.imp {α : Type} {P Q : α → Json → Prop} {as : List α} {v : Json}
    (hP : Listed P as v) (h : ∀ a x, sizeOf x < sizeOf v → P a x → Q a x) : Listed Q as v := by
  obtain ⟨items, rfl, hitems⟩ := hP
  exact ⟨items, rfl, forall₂_imp_of_mem hitems fun a x hx => h a x (Json.sizeOf_item_lt hx)⟩

/-- Lists that go with the same items, element by element. -/
theorem Entry.listed_congr {α : Type} {P Q : α → Json → Prop} {as : List α} {v : Json}
    (h : ∀ a x, sizeOf x < sizeOf v → (P a x ↔ Q a x)) : Listed P as v ↔ Listed Q as v :=
  ⟨fun hP => hP.imp fun a x hx => (h a x hx).mp, fun hQ => hQ.imp fun a x hx => (h a x hx).mpr⟩

/-- A list in canonical form is loaded item by item. -/
theorem loadAll_canonicalItems {α : Type} (load : Json → Except LoadError α)
    {loadAll : List Json → Except LoadError (List α)} (hnil : loadAll [] = .ok [])
    (hcons : ∀ v rest, loadAll (v :: rest) = (load v).bind fun a => (loadAll rest).map (a :: ·))
    (as : List α) (items : List Json) :
    loadAll (Json.canonicalItems items) = .ok as ↔
      Entry.Listed (fun a x => load x.canonical = .ok a) as (.array items) := by
  rw [Json.canonicalItems_eq_map, items_eq_ok_iff hnil hcons, List.forall₂_map_right_iff]
  refine ⟨fun h => ⟨items, rfl, h⟩, ?_⟩
  rintro ⟨_, ⟨⟩, h⟩
  exact h

/-- A value that may be null, of which something is known when it is not. -/
theorem orNull_iff {α : Type} {v : Json} (load : Except LoadError α) {P : α → Prop}
    {full : Except LoadError (Option α)} (hnull : v = .null → full = .ok none ∧ ∀ a, ¬P a)
    (hfull : v ≠ .null → full = load.map some) (hload : ∀ a, load = .ok a ↔ P a) (y : Option α) :
    full = .ok y ↔ (y = none ∧ v = .null) ∨ ∃ a, y = some a ∧ P a := by
  by_cases hv : v = .null
  · obtain ⟨hok, hno⟩ := hnull hv
    simp [hok, hv, hno, eq_comm]
  · rw [hfull hv]
    cases load with
    | error e =>
      have hno : ∀ a, ¬P a := fun a ha => by cases (hload a).mpr ha
      simp [Except.map, hv, hno]
    | ok b =>
      have hP : ∀ a, P a ↔ a = b := fun a => by rw [← hload, Except.ok.injEq, eq_comm]
      simp [Except.map, hv, hP, eq_comm]

namespace Node

/-- Only an object is a node. -/
theorem not_loads_of_ne_object {v : Json} (h : ∀ ms, v ≠ .object ms) (n : Node) :
    ¬n.Loads v := by
  have hcanonical : ∀ ms, v.canonical ≠ .object ms := by
    cases v with
    | object ms => exact absurd rfl (h ms)
    | _ => exact fun ms h => (by cases h)
  unfold Loads
  rw [ofJson]
  · exact fun h => (by cases h)
  · exact hcanonical

theorem listOfItems_cons (v : Json) (rest : List Json) :
    listOfItems (v :: rest) = (ofJson v).bind fun n => (listOfItems rest).map (n :: ·) := by
  rw [listOfItems]
  cases ofJson v <;> rfl

theorem recordsOfItems_cons (r : RecordType) (v : Json) (rest : List Json) :
    recordsOfItems r (v :: rest)
      = (recordOfJson r v).bind fun y => (recordsOfItems r rest).map (y :: ·) := by
  rw [recordsOfItems]
  cases recordOfJson r v <;> rfl

theorem listOfJson_canonical {v : Json} {ns : List Node} :
    listOfJson v.canonical = .ok ns ↔ Entry.Listed Loads ns v := by
  cases v with
  | array items =>
    rw [Json.canonical, listOfJson]
    exact loadAll_canonicalItems ofJson listOfItems.eq_1 listOfItems_cons ns items
  | _ => simp [Json.canonical, listOfJson, Entry.Listed]

theorem recordsOfJson_canonical {r : RecordType} {v : Json} {ys : List r.Value} :
    recordsOfJson r v.canonical = .ok ys ↔
      Entry.Listed (fun y x => recordOfJson r x.canonical = .ok y) ys v := by
  cases v with
  | array items =>
    rw [Json.canonical, recordsOfJson]
    exact loadAll_canonicalItems (recordOfJson r) (recordsOfItems.eq_1 r)
      (recordsOfItems_cons r) ys items
  | _ => simp [Json.canonical, recordsOfJson, Entry.Listed]

/-- Loads a node or a hole. -/
def holeOfJson : Json → Except LoadError (Option Node)
  | .null => .ok none
  | v => (ofJson v).map some

theorem holeOfJson_eq_loadAs (v : Json) : holeOfJson v = v.loadAs .node? := by
  cases v <;> rfl

theorem holesOfItems_cons (v : Json) (rest : List Json) :
    holesOfItems (v :: rest) = (holeOfJson v).bind fun n => (holesOfItems rest).map (n :: ·) := by
  cases v with
  | null => rfl
  | _ =>
    rw [holesOfItems, holeOfJson]
    · cases ofJson _ <;> rfl
    all_goals exact fun h => by cases h

theorem holeOfJson_canonical (v : Json) (n : Option Node) :
    holeOfJson v.canonical = .ok n ↔ (n = none ∧ v = .null) ∨ ∃ m, n = some m ∧ m.Loads v := by
  refine orNull_iff (ofJson v.canonical) ?_ ?_ (fun m => Iff.rfl) n
  · rintro rfl
    exact ⟨rfl, not_loads_of_ne_object fun _ h => (by cases h)⟩
  · intro hv
    cases v with
    | null => exact absurd rfl hv
    | _ => rfl

/-- A list of nodes with holes. -/
theorem holesOfJson_canonical {v : Json} {ns : List (Option Node)} :
    holesOfJson v.canonical = .ok ns ↔ Entry.Listed
      (fun n x => (n = none ∧ x = .null) ∨ ∃ m, n = some m ∧ m.Loads x) ns v := by
  refine Iff.trans ?_ (Entry.listed_congr fun n x _ => holeOfJson_canonical x n)
  cases v with
  | array items =>
    rw [Json.canonical, holesOfJson]
    exact loadAll_canonicalItems holeOfJson holesOfItems.eq_1 holesOfItems_cons ns items
  | _ => simp [Json.canonical, holesOfJson, Entry.Listed]

end Node

/-! ## §4. Shapes and records. -/

/-- The values of every shape that a value loads as are those that it stands for. -/
def Json.LoadsAsFits (x : Json) : Prop :=
  ∀ (s : Shape) (y : s.Value), x.canonical.loadAs s = .ok y ↔ s.Fits Node.Loads y x

/-- A field is found in an object when its entry is met. -/
theorem FieldSpec.found_iff {f : FieldSpec} {ms : List (String × Json)} {y : f.shape.Value}
    (h : ∀ x : Json, sizeOf x < sizeOf (Json.object ms) → x.LoadsAsFits) :
    f.Found (Json.canonicalMembers [] ms) y ↔
      ∃ o, (Json.object ms).Under f.names o ∧ (f.entry y).fits Node.Loads o := by
  constructor
  · rintro (⟨hv, habsent⟩ | ⟨_, hv, hy⟩)
    · exact ⟨none, (Json.valuesAt_canonical_eq_nil_iff fun _ => named_iff).mp hv,
        .inl ⟨rfl, habsent⟩⟩
    · obtain ⟨x, rfl, hx⟩ :=
        (Json.valuesAt_canonical_eq_singleton_iff fun _ => named_iff).mp hv
      exact ⟨some x, hx, .inr ⟨x, rfl, (h x hx.sizeOf_lt _ y).mp hy⟩⟩
  · rintro ⟨o, ho, ⟨rfl, habsent⟩ | ⟨x, rfl, hy⟩⟩
    · exact .inl ⟨(Json.valuesAt_canonical_eq_nil_iff fun _ => named_iff).mpr ho, habsent⟩
    · refine .inr ⟨x.canonical,
        (Json.valuesAt_canonical_eq_singleton_iff fun _ => named_iff).mpr ⟨x, rfl, ho⟩, ?_⟩
      exact (h x ho.sizeOf_lt _ y).mpr hy

namespace Node

/-- **The fields of an object** are found exactly when their entries are met. -/
theorem found_iff_meets {fs : List FieldSpec} {ms : List (String × Json)} {xs : Values fs}
    (h : ∀ x : Json, sizeOf x < sizeOf (Json.object ms) → x.LoadsAsFits) :
    (∀ p : Place fs, p.field.Found (Json.canonicalMembers [] ms) (xs.get p)) ↔
      (Json.object ms).Meets Loads (Values.entries fs xs) := by
  have hentries : (Json.object ms).Meets Loads (Values.entries fs xs) ↔
      ∀ e ∈ Values.entries fs xs, ∃ o, (Json.object ms).Under e.names o ∧ e.fits Loads o :=
    ⟨fun hm => hm.2, fun hm => ⟨⟨ms, rfl⟩, hm⟩⟩
  rw [hentries, Values.forall_entries]
  exact forall_congr' fun p => FieldSpec.found_iff h

/-- An object loads as a record exactly when each field of the record is found. -/
theorem recordOfJson_object_eq_ok_iff {r : RecordType} {ms : List (String × Json)} {y : r.Value} :
    recordOfJson r (.object ms) = .ok y ↔ ∃ xs, r.schema.build xs = y ∧
      ∀ p : Place r.schema.fields, p.field.Found ms (xs.get p) := by
  rw [recordOfJson_object]
  constructor
  · intro h
    obtain ⟨t, ht, h⟩ := exists_of_bind_eq_ok h
    obtain ⟨xs, hxs, rfl⟩ := exists_of_map_eq_ok h
    exact ⟨xs, rfl, (exists_visit_iff r.distinct).mp ⟨t, ht, hxs⟩⟩
  · rintro ⟨xs, rfl, hfound⟩
    obtain ⟨t, ht, hxs⟩ := (exists_visit_iff r.distinct).mpr hfound
    rw [ht]
    show t.complete.map r.schema.build = _
    rw [hxs]
    rfl

/-- **A record** is loaded exactly when its entries are met. -/
theorem recordOfJson_canonical {r : RecordType} {v : Json} {y : r.Value}
    (h : ∀ x : Json, sizeOf x < sizeOf v → x.LoadsAsFits) :
    recordOfJson r v.canonical = .ok y ↔ v.Meets Loads (r.entries y) := by
  cases v with
  | object ms =>
    rw [Json.canonical_object, recordOfJson_object_eq_ok_iff]
    constructor
    · rintro ⟨xs, rfl, hfound⟩
      rw [r.entries_build]
      exact (found_iff_meets h).mp hfound
    · intro hy
      obtain ⟨xs, rfl⟩ := r.exists_build y
      rw [r.entries_build] at hy
      exact ⟨xs, rfl, (found_iff_meets h).mpr hy⟩
  | _ => simp [Json.canonical, recordOfJson, Json.Meets]

end Node

namespace Json

theorem loadAs_flag (x : Json) (b : Bool) :
    x.canonical.loadAs .flag = .ok b ↔ x = .bool b := by
  cases x with
  | bool c => exact ⟨fun h => congrArg bool (Except.ok.inj h), fun h => (by cases h; rfl)⟩
  | _ => exact ⟨fun h => (by cases h), fun h => (by cases h)⟩

theorem loadAs_text (x : Json) (s : String) :
    x.canonical.loadAs .text = .ok s ↔ x = .string s := by
  cases x with
  | string t => exact ⟨fun h => congrArg string (Except.ok.inj h), fun h => (by cases h; rfl)⟩
  | _ => exact ⟨fun h => (by cases h), fun h => (by cases h)⟩

/-- A list of nodes that may be null. -/
theorem loadAs_nodes? (x : Json) (ns : List Node) :
    x.canonical.loadAs .nodes? = .ok ns ↔
      (ns = [] ∧ x = .null) ∨ Entry.Listed Node.Loads ns x := by
  cases x with
  | null =>
    refine ⟨fun h => .inl ⟨(Except.ok.inj h).symm, rfl⟩, ?_⟩
    rintro (⟨rfl, -⟩ | ⟨_, h, -⟩)
    · rfl
    · cases h
  | _ =>
    refine Node.listOfJson_canonical.trans ⟨.inr, ?_⟩
    rintro (⟨-, h⟩ | h)
    · cases h
    · exact h

/-- The name of a type parameter. -/
theorem loadAs_typeParameterName (x : Json) (p : TypeParameterName) :
    x.canonical.loadAs .typeParameterName = .ok p ↔
      (∃ s, p = .plain s ∧ x = .string s) ∨ ∃ n, p = .node n ∧ n.Loads x := by
  cases x with
  | string s =>
    refine ⟨fun h => .inl ⟨s, (Except.ok.inj h).symm, rfl⟩, ?_⟩
    rintro (⟨t, rfl, h⟩ | ⟨n, -, h⟩)
    · cases h
      rfl
    · exact absurd h (n.not_loads_of_ne_object fun _ h => (by cases h))
  | _ =>
    unfold loadAs Shape.load Node.Loads
    simp only [canonical, readings]
    cases Node.ofJson _ with
    | error e => simp
    | ok n =>
      refine ⟨fun h => .inr ⟨n, (Except.ok.inj h).symm, rfl⟩, ?_⟩
      rintro (⟨s, -, h⟩ | ⟨m, rfl, h⟩)
      · cases h
      · cases h
        rfl

/-- A modifier of a mapped type. -/
theorem loadAs_mappedModifier? (x : Json) (m : Option MappedModifier) :
    x.canonical.loadAs .mappedModifier? = .ok m ↔ (m = none ∧ x = .null) ∨
      ∃ k, m = some k ∧ ((∃ b, k = .flag b ∧ x = .bool b) ∨ ∃ s, k = .sign s ∧ x = .string s) := by
  cases x with
  -- each form of value is read in one way, and stands for one modifier
  | null =>
    refine ⟨fun h => .inl ⟨(Except.ok.inj h).symm, rfl⟩, ?_⟩
    rintro (⟨rfl, -⟩ | ⟨k, -, ⟨b, -, h⟩ | ⟨s, -, h⟩⟩)
    · rfl
    · cases h
    · cases h
  | bool c =>
    refine ⟨fun h => .inr ⟨_, (Except.ok.inj h).symm, .inl ⟨c, rfl, rfl⟩⟩, ?_⟩
    rintro (⟨-, h⟩ | ⟨k, rfl, ⟨b, rfl, h⟩ | ⟨s, -, h⟩⟩)
    all_goals cases h
    rfl
  | string t =>
    refine ⟨fun h => .inr ⟨_, (Except.ok.inj h).symm, .inr ⟨t, rfl, rfl⟩⟩, ?_⟩
    rintro (⟨-, h⟩ | ⟨k, rfl, ⟨b, -, h⟩ | ⟨s, rfl, h⟩⟩)
    all_goals cases h
    rfl
  | _ =>
    refine ⟨fun h => (by cases h), ?_⟩
    rintro (⟨-, h⟩ | ⟨k, -, ⟨b, -, h⟩ | ⟨s, -, h⟩⟩) <;> cases h

/-- **What a value loads as**, in every shape. -/
theorem loadsAsFits (x : Json) : x.LoadsAsFits := by
  intro s y
  cases s with
  | node => exact Iff.rfl
  | node? =>
    refine orNull_iff (Node.ofJson x.canonical) ?_ ?_ (fun m => Iff.rfl) y
    · rintro rfl
      exact ⟨rfl, Node.not_loads_of_ne_object fun _ h => (by cases h)⟩
    · intro hx
      cases x with
      | null => exact absurd rfl hx
      | _ => rfl
  | nodes => exact Node.listOfJson_canonical
  | nodes? => exact x.loadAs_nodes? y
  | holes => exact Node.holesOfJson_canonical
  -- records are read field by field, and what stands under a field is smaller
  | record r => exact Node.recordOfJson_canonical fun z hz => z.loadsAsFits
  | record? r =>
    refine orNull_iff (Node.recordOfJson r x.canonical) ?_ ?_
      (fun z => Node.recordOfJson_canonical fun w hw => w.loadsAsFits) y
    · rintro rfl
      exact ⟨rfl, fun z ⟨⟨_, h⟩, _⟩ => (by cases h)⟩
    · intro hx
      cases x with
      | null => exact absurd rfl hx
      | _ => rfl
  | records r =>
    refine Node.recordsOfJson_canonical.trans (Entry.listed_congr fun z w hw => ?_)
    exact Node.recordOfJson_canonical fun u hu => u.loadsAsFits
  | flag => exact x.loadAs_flag y
  | text => exact x.loadAs_text y
  | text? =>
    refine orNull_iff (x.canonical.loadAs .text) ?_ ?_ (loadAs_text x) y
    · rintro rfl
      exact ⟨rfl, fun s h => (by cases h)⟩
    · intro hx
      cases x with
      | null => exact absurd rfl hx
      | _ => rfl
  | json =>
    have hload : x.canonical.loadAs .json = .ok x.canonical :=
      congrArg Except.ok x.canonical_canonical
    rw [hload]
    exact ⟨fun h => (Except.ok.inj h).symm, fun h => congrArg Except.ok h.symm⟩
  | typeParameterName => exact x.loadAs_typeParameterName y
  | mappedModifier? => exact x.loadAs_mappedModifier? y
termination_by sizeOf x

end Json

/-! ## §5. Nodes. -/

namespace Node

/-- An object loads as a node exactly when it has the tag of its kind, once, and each field of the
kind is found. -/
theorem ofJson_object_eq_ok_iff {ms : List (String × Json)} {n : Node} :
    ofJson (.object ms) = .ok n ↔
      Kind.ofMembers Kind.ofInnerTagJson none ms = .ok (some n.kind) ∧ ∃ xs,
        n.kind.schema.build xs = n ∧
          ∀ p : Place n.kind.schema.fields, p.field.Found ms (xs.get p) := by
  constructor
  · intro h
    cases hk : Kind.ofMembers Kind.ofInnerTagJson none ms with
    | error e => simp [ofJson, hk] at h
    | ok found =>
      cases found with
      | none => simp [ofJson, hk] at h
      | some k =>
        -- first all members are visited, then the table is completed
        rw [ofJson_object hk] at h
        obtain ⟨t, ht, h⟩ := exists_of_bind_eq_ok h
        obtain ⟨xs, hxs, rfl⟩ := exists_of_map_eq_ok h
        rw [k.kind_build]
        exact ⟨rfl, xs, rfl, (exists_visit_iff k.distinct).mp ⟨t, ht, hxs⟩⟩
  · rintro ⟨htag, xs, hbuild, hfound⟩
    obtain ⟨t, ht, hxs⟩ := (exists_visit_iff n.kind.distinct).mpr hfound
    rw [ofJson_object htag, ht]
    show t.complete.map n.kind.schema.build = _
    rw [hxs]
    exact congrArg Except.ok hbuild

/-- **One step**: inside another node a value loads as a node exactly when it has the format of the
node, where what loads as a node stands for the nodes inside. -/
theorem loads_iff_format {n : Node} {v : Json} :
    n.Loads v ↔ n.Format Json.HasInnerTag Loads v := by
  cases v with
  | object ms =>
    refine ofJson_object_eq_ok_iff.trans (and_congr Kind.ofMembers_inner_iff ?_)
    constructor
    · rintro ⟨xs, hbuild, hfound⟩
      rw [← hbuild, n.kind.entries_build]
      exact (found_iff_meets fun x _ => x.loadsAsFits).mp hfound
    · intro hmeets
      -- every node is built from its values, so its entries are theirs
      obtain ⟨xs, hbuild⟩ := n.exists_build
      rw [← hbuild, n.kind.entries_build] at hmeets
      exact ⟨xs, hbuild, (found_iff_meets fun x _ => x.loadsAsFits).mpr hmeets⟩
  | _ =>
    refine ⟨fun h => absurd h (n.not_loads_of_ne_object fun _ h => (by cases h)), ?_⟩
    rintro ⟨h | h, -⟩ <;> cases h

/-- The root loads as a node exactly when it does so inside another node and its tag selects the
kind of the node as a text. -/
theorem ofRoot_object_eq_ok_iff {ms : List (String × Json)} {n : Node} :
    ofRoot (.object ms) = .ok n ↔
      Kind.ofMembers Kind.ofTagJson none ms = .ok (some n.kind) ∧ ofJson (.object ms) = .ok n := by
  rw [ofRoot_object]
  cases hfound : Kind.ofMembers Kind.ofTagJson none ms with
  | error e => exact ⟨fun h => (by cases h), fun h => (by cases h.1)⟩
  | ok found =>
    show ofJson (.object ms) = .ok n ↔ _
    refine ⟨fun h => ⟨?_, h⟩, And.right⟩
    -- both readings of the tag see the same value, and a text selects the same kind for both
    obtain ⟨t, hvalues, ht⟩ := Kind.ofMembers_eq_ok_some_iff.mp (ofJson_object_eq_ok_iff.mp h).1
    cases found with
    | none =>
      rw [Kind.ofMembers_eq_ok_none_iff.mp hfound] at hvalues
      cases hvalues
    | some k =>
      obtain ⟨u, hu, hk⟩ := Kind.ofMembers_eq_ok_some_iff.mp hfound
      cases hu.symm.trans hvalues
      have hinner := Kind.ofInnerTagJson_eq_ok_iff.mpr (.inl (Kind.ofTagJson_eq_ok_iff.mp hk))
      rw [ht] at hinner
      rw [Except.ok.inj hinner]

/-- **The root** loads as a node exactly when it does so inside another node and has the tag of the
node as a text. -/
theorem ofValue_eq_ok_iff_loads {n : Node} {v : Json} :
    ofValue v = .ok n ↔ v.HasTag n.kind ∧ n.Loads v := by
  cases v with
  | object ms => exact ofRoot_object_eq_ok_iff.trans (and_congr_left' Kind.ofMembers_root_iff)
  | _ =>
    refine ⟨fun h => absurd h (n.not_loads_of_ne_object fun _ h => (by cases h)), ?_⟩
    rintro ⟨h, -⟩
    cases h

end Node

end Estree
