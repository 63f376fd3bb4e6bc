import Estree.Proofs.Presentation.Loading

/-!
# Reading, field by field

Loading without its messages: what a value is read as inside a node is an option. An object is read
by reading the fields of its kind one by one, each from what stands under its names, so that two
objects are compared by comparing what they have under single keys.

Main results:

* `Json.read_eq_some_iff`: reading is loading, said with the format.
* `Json.read_node`, `Json.read_record`: objects are read field by field.
* `Json.read_nodes_array` and the like: lists are read item by item.
-/

namespace Estree

/-! ## §1. Definitions. -/

namespace Json

/-- What the value is in a shape, if anything. -/
def read (s : Shape) (v : Json) : Option s.Value := (v.canonical.loadAs s).toOption

end Json

/-- What a field is in an object, if anything. -/
def FieldSpec.read (f : FieldSpec) (v : Json) : Option f.shape.Value :=
  match f.names.filterMap v.field? with
  | [] => f.absent
  | [x] => x.read f.shape
  | _ => none

/-- What fields are in an object, if all of them are something. -/
def Values.read : (fs : List FieldSpec) → Json → Option (Values fs)
  | [], _ => some ()
  | f :: fs, v => (f.read v).bind fun x => (Values.read fs v).map fun xs => (x, xs)

/-! ## §2. Reading is loading. -/

namespace Json

/-- What a value is read as is what it stands for. -/
theorem read_eq_some_iff {s : Shape} {v : Json} {y : s.Value} :
    v.read s = some y ↔ s.Fits Node.Loads y v :=
  toOption_eq_some_iff.trans (v.loadsAsFits s y)

end Json

/-- What stands under names is all that they have. -/
theorem Json.under_iff {names : List String} (h : names.Nodup) {v : Json} {o : Option Json} :
    v.Under names o ↔ names.filterMap v.field? = o.toList := by
  cases o with
  | none => exact List.filterMap_eq_nil_iff.symm
  | some x =>
    induction names with
    | nil =>
      constructor
      · rintro ⟨_, hk, _⟩
        exact absurd hk List.not_mem_nil
      · intro h
        cases h
    | cons k ks ih =>
      obtain ⟨hk, hks⟩ := List.nodup_cons.mp h
      have hne : ∀ l ∈ ks, l ≠ k := fun l hl hlk => hk (hlk ▸ hl)
      -- either the first name has nothing, or it has the value and no other name has one
      cases hx : v.field? k with
      | none =>
        rw [List.filterMap_cons, hx]
        refine Iff.trans ?_ (ih hks)
        simp [Under, hx]
      | some y =>
        rw [List.filterMap_cons, hx]
        simp only [Under, Option.toList_some, List.cons.injEq, List.filterMap_eq_nil_iff,
          List.exists_mem_cons_iff, List.forall_mem_cons, hx, Option.some_inj]
        constructor
        · rintro (⟨hyx, -, hothers⟩ | ⟨l, hl, -, hky, -⟩)
          · exact ⟨hyx, fun l hl => hothers l hl (hne l hl)⟩
          · cases hky (hne l hl).symm
        · rintro ⟨hyx, hothers⟩
          exact .inl ⟨hyx, fun h => absurd rfl h, fun l hl _ => hothers l hl⟩

/-- A field of an object is what its entry says. -/
theorem FieldSpec.read_eq_some_iff {f : FieldSpec} (hf : f.names.Nodup) {v : Json}
    {y : f.shape.Value} :
    f.read v = some y ↔ ∃ o, v.Under f.names o ∧ (f.entry y).fits Node.Loads o := by
  have hentry : (∃ o, v.Under f.names o ∧ (f.entry y).fits Node.Loads o) ↔
      (f.names.filterMap v.field? = [] ∧ f.absent = some y) ∨
        ∃ x, f.names.filterMap v.field? = [x] ∧ f.shape.Fits Node.Loads y x := by
    simp only [Json.under_iff hf, entry, Option.exists]
    simp
  rw [hentry, read]
  split
  next h => simp [h]
  next x h => simp [h, Json.read_eq_some_iff]
  next h1 h2 =>
    constructor
    · intro h
      cases h
    · rintro (⟨h, -⟩ | ⟨x, h, -⟩)
      · exact absurd h h1
      · exact absurd h (h2 x)

/-- Fields are read at each place. -/
theorem Values.read_eq_some_iff {fs : List FieldSpec} {v : Json} {xs : Values fs} :
    Values.read fs v = some xs ↔ ∀ p : Place fs, p.field.read v = some (xs.get p) := by
  induction fs with
  | nil => exact ⟨fun _ p => (by cases p), fun _ => rfl⟩
  | cons f fs ih =>
    obtain ⟨x, xs⟩ := xs
    rw [read]
    refine Option.bind_eq_some_iff.trans ⟨?_, fun h => ?_⟩
    · rintro ⟨y, hy, hys⟩ p
      obtain ⟨ys, hys, heq⟩ := Option.map_eq_some_iff.mp hys
      cases heq
      cases p with
      | here => exact hy
      | there p => exact ih.mp hys p
    · have hxs : Values.read fs v = some xs := ih.mpr fun p => h (.there p)
      exact ⟨x, h .here, by rw [hxs]; rfl⟩

/-- Fields are read when the object meets their entries. -/
theorem Values.read_eq_some_iff_meets {fs : List FieldSpec} (hfs : ∀ f ∈ fs, f.names.Nodup)
    {ms : List (String × Json)} {xs : Values fs} :
    Values.read fs (.object ms) = some xs ↔
      (Json.object ms).Meets Node.Loads (Values.entries fs xs) := by
  have hmeets : (Json.object ms).Meets Node.Loads (Values.entries fs xs) ↔
      ∀ e ∈ Values.entries fs xs, ∃ o, (Json.object ms).Under e.names o ∧ e.fits Node.Loads o :=
    ⟨fun h => h.2, fun h => ⟨⟨ms, rfl⟩, h⟩⟩
  rw [read_eq_some_iff, hmeets, Values.forall_entries]
  exact forall_congr' fun p => FieldSpec.read_eq_some_iff (hfs _ p.field_mem)

/-- No field of a kind has a name twice. -/
theorem Kind.nodup_names (k : Kind) : ∀ f ∈ k.schema.fields, f.names.Nodup := by
  cases k <;> decide

/-- No field of a record has a name twice. -/
theorem RecordType.nodup_names (r : RecordType) : ∀ f ∈ r.schema.fields, f.names.Nodup := by
  cases r <;> decide

namespace Json

/-- **An object with a tag is read field by field.** -/
theorem read_node {k : Kind} {v : Json} (h : v.HasInnerTag k) :
    v.read .node = (Values.read k.schema.fields v).map k.schema.build := by
  obtain ⟨ms, rfl⟩ := h.object
  refine Option.ext fun n => Json.read_eq_some_iff.trans ?_
  refine (Node.loads_iff_format (n := n)).trans (Iff.trans ?_ Option.map_eq_some_iff.symm)
  constructor
  · rintro ⟨htag, hmeets⟩
    cases h.kind_eq htag
    obtain ⟨xs, hxs⟩ := n.exists_build
    rw [← hxs, Kind.entries_build] at hmeets
    exact ⟨xs, (Values.read_eq_some_iff_meets n.kind.nodup_names).mpr hmeets, hxs⟩
  · rintro ⟨xs, hxs, rfl⟩
    refine ⟨by rw [k.kind_build]; exact h, ?_⟩
    rw [k.entries_build]
    exact (Values.read_eq_some_iff_meets k.nodup_names).mp hxs

/-- A record is read field by field. -/
theorem read_record (r : RecordType) (ms : List (String × Json)) :
    (object ms).read (.record r)
      = (Values.read r.schema.fields (.object ms)).map r.schema.build := by
  refine Option.ext fun y => Json.read_eq_some_iff.trans ?_
  refine Iff.trans ?_ Option.map_eq_some_iff.symm
  constructor
  · intro hmeets
    obtain ⟨xs, rfl⟩ := r.exists_build y
    refine ⟨xs, (Values.read_eq_some_iff_meets r.nodup_names).mpr ?_, rfl⟩
    rw [← r.entries_build]
    exact hmeets
  · rintro ⟨xs, hxs, rfl⟩
    have hmeets := (Values.read_eq_some_iff_meets r.nodup_names).mp hxs
    rw [← r.entries_build] at hmeets
    exact hmeets

end Json

/-! ## §3. Shapes. -/

/-- A loader that goes through the items one by one reads a list item by item. -/
theorem toOption_loadAll {α : Type} (load : Json → Except LoadError α)
    {loadAll : List Json → Except LoadError (List α)} (hnil : loadAll [] = .ok [])
    (hcons : ∀ v rest, loadAll (v :: rest) = (load v).bind fun a => (loadAll rest).map (a :: ·))
    (items : List Json) :
    (loadAll (Json.canonicalItems items)).toOption
      = items.mapM fun x => (load x.canonical).toOption := by
  induction items with
  | nil =>
    rw [Json.canonicalItems, hnil]
    rfl
  | cons x rest ih =>
    rw [Json.canonicalItems, hcons, List.mapM_cons, ← ih]
    cases load x.canonical with
    | error e => rfl
    | ok a => cases loadAll (Json.canonicalItems rest) <;> rfl

namespace Json

/-- What is not null is read as a node where there may be none. -/
theorem read_node?_of_ne_null {v : Json} (h : v ≠ .null) :
    v.read .node? = (v.read .node).map Option.some := by
  have hload : v.canonical.loadAs .node? = (Node.ofJson v.canonical).map Option.some := by
    cases v with
    | null => exact absurd rfl h
    | _ => rfl
  unfold read
  rw [hload]
  exact toOption_map _ _

/-- An object is read as a record where there may be none. -/
theorem read_record?_object (r : RecordType) (ms : List (String × Json)) :
    (object ms).read (.record? r) = ((object ms).read (.record r)).map Option.some :=
  toOption_map _ _

/-- An object is read as a node where a name may be a text. -/
theorem read_typeParameterName_object (ms : List (String × Json)) :
    (object ms).read .typeParameterName = ((object ms).read .node).map TypeParameterName.node := by
  -- an object is no text, so it is whatever its reading as a node is
  have hload : ∀ (r : Except LoadError Node) (ms : List (String × Json)) (x : Readings),
      (Shape.typeParameterName.load (object ms) { x with node := fun _ => r }).toOption
        = r.toOption.map TypeParameterName.node := by
    intro r ms x
    cases r <;> rfl
  exact hload (Node.ofJson (object ms).canonical) _ (object ms).canonical.readings

/-- Nodes are read item by item. -/
theorem read_nodes_array (items : List Json) :
    (array items).read .nodes = items.mapM (fun x => x.read .node) :=
  toOption_loadAll Node.ofJson Node.listOfItems.eq_1 Node.listOfItems_cons items

/-- So are nodes with holes between them. -/
theorem read_holes_array (items : List Json) :
    (array items).read .holes = items.mapM (fun x => x.read .node?) := by
  have hhole : ∀ x : Json, x.read .node? = (Node.holeOfJson x.canonical).toOption := by
    intro x
    cases x <;> rfl
  simp only [hhole]
  exact toOption_loadAll Node.holeOfJson Node.holesOfItems.eq_1 Node.holesOfItems_cons items

/-- So are records. -/
theorem read_records_array (r : RecordType) (items : List Json) :
    (array items).read (.records r) = items.mapM (fun x => x.read (.record r)) :=
  toOption_loadAll (Node.recordOfJson r) (Node.recordsOfItems.eq_1 r) (Node.recordsOfItems_cons r)
    items

end Json

end Estree
