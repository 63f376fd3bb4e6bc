import Estree.Proofs.Variant.Fields

/-!
# Faults of a part

A tree that loads but for one node inside it does not load, and its fault is the fault of that node,
from whatever depth (`Node.ofValue_fill_error`). The members of an object and the items of a list
are visited one after the other, all others of them load, and nothing on the way back to the root
puts another fault in the place of the first. There is one exception: the name of a type parameter
may be a text or a node, and says no more than that it is neither.

The place of the node is open in a `Json.Context`. It is the place of a node if the way to it
follows the fields of the kinds and records, the items of lists, and what may stand there instead of
null (`Json.Context.Holds`).

Main results:

* `Json.exists_canonicalMembers_eq`: the canonical members of an object with an open place.
* `Node.visit_eq_error`: a visit stops at the member that does not load.
* `Json.Context.Holds.fails`: the fault of a part is the fault of the whole.
* `Node.ofValue_fill_error`: so it is for trees, if the tag of the part is not a number.
* `Node.ofValue_fill_index`: a number as tag is a fault at the root and none inside.
-/

namespace Estree

/-! ## §1. Trees with an open place. -/

namespace Json

/-- A tree with one place left open. -/
inductive Context where
  | here
  /-- The place is in a member of an object. -/
  | member (before : List (String × Json)) (key : String) (inner : Context)
      (after : List (String × Json))
  /-- The place is in an item of a list. -/
  | item (before : List Json) (inner : Context) (after : List Json)

namespace Context

/-- The tree with a value in the open place. -/
def fill : Context → Json → Json
  | here, v => v
  | member before key inner after, v => .object (before ++ (key, inner.fill v) :: after)
  | item before inner after, v => .array (before ++ inner.fill v :: after)

/-- In a value of the shape, the open place is the place of a node. Of members with the same key the
last one counts. -/
inductive Holds : Shape → Context → Prop where
  | here : Holds .node .here
  | inner {s t : Shape} {c : Context} (shape : s.inner? = some t) (h : Holds t c) : Holds s c
  | item {s t : Shape} {c : Context} {before after : List Json} (shape : s.item? = some t)
      (h : Holds t c) : Holds s (.item before c after)
  | inNode {k : Kind} {f : FieldSpec} {key : String} {c : Context}
      {before after : List (String × Json)} (tag : (object (before ++ after)).HasInnerTag k)
      (field : f ∈ k.schema.fields) (named : key ∈ f.names) (last : key ∉ after.map (·.1))
      (h : Holds f.shape c) : Holds .node (.member before key c after)
  | inRecord {r : RecordType} {f : FieldSpec} {key : String} {c : Context}
      {before after : List (String × Json)} (field : f ∈ r.schema.fields) (named : key ∈ f.names)
      (last : key ∉ after.map (·.1)) (h : Holds f.shape c) :
      Holds (.record r) (.member before key c after)

/-- The member is the name of a type parameter, among the other members. -/
def IsName (before : List (String × Json)) (key : String) (after : List (String × Json)) : Prop :=
  (object (before ++ after)).HasInnerTag .tsTypeParameter ∧ key = "name"

/-- The way to the open place passes through the name of a type parameter. -/
def PassesName : Context → Prop
  | here => False
  | member before key inner after => IsName before key after ∨ inner.PassesName
  | item _ inner _ => inner.PassesName

/-- The open place is the name of a type parameter. -/
def EndsInName : Context → Prop
  | here => False
  | member before key inner after => (IsName before key after ∧ inner = here) ∨ inner.EndsInName
  | item _ inner _ => inner.EndsInName

/-- A way that ends in a name passes one. -/
theorem EndsInName.passesName {c : Context} (h : c.EndsInName) : c.PassesName := by
  induction c with
  | here => exact h
  | member before key inner after ih => exact h.imp And.left ih
  | item before inner after ih => exact ih h

/-- A context around something that is not null is not null. -/
theorem fill_ne_null {v : Json} (hv : v ≠ .null) (c : Context) : c.fill v ≠ .null := by
  cases c with
  | here => exact hv
  | member | item => simp [fill]

/-- A context around something that is no string is no string. -/
theorem fill_ne_string {c : Context} {v : Json} (hv : c = here → ∀ t, v ≠ .string t) (t : String) :
    c.fill v ≠ .string t := by
  cases c with
  | here => exact hv rfl t
  | member | item => simp [fill]

end Context

/-! ## §2. Canonical forms with an open place. -/

/-- A member that is put among others has a place that its value does not decide. -/
theorem exists_putMember_eq (key : String) (acc : List (String × Json)) :
    ∃ before after, ∀ x, putMember key x acc = before ++ (key, x) :: after := by
  induction acc with
  | nil => exact ⟨[], [], fun x => rfl⟩
  | cons m rest ih =>
    obtain ⟨l, w⟩ := m
    obtain ⟨before, after, h⟩ := ih
    by_cases hlt : l < key
    · exact ⟨(l, w) :: before, after, fun x => by rw [putMember, if_pos hlt, h]; rfl⟩
    · by_cases heq : l = key
      · exact ⟨[], rest, fun x => by rw [putMember, if_neg hlt, if_pos heq]; rfl⟩
      · exact ⟨[], (l, w) :: rest, fun x => by rw [putMember, if_neg hlt, if_neg heq]; rfl⟩

/-- It keeps a place of this sort when another member is put among them. -/
theorem exists_putMember_append_eq {key l : String} (h : l ≠ key) (y : Json)
    (before after : List (String × Json)) : ∃ before' after', ∀ x,
      putMember l y (before ++ (key, x) :: after) = before' ++ (key, x) :: after' := by
  induction before with
  | nil =>
    by_cases hlt : key < l
    · -- the new member goes behind the open place or in front of it
      refine ⟨[], putMember l y after, fun x => ?_⟩
      rw [List.nil_append, putMember, if_pos hlt]
      rfl
    · refine ⟨[(l, y)], after, fun x => ?_⟩
      rw [List.nil_append, putMember, if_neg hlt, if_neg (Ne.symm h)]
      rfl
  | cons m rest ih =>
    obtain ⟨j, w⟩ := m
    obtain ⟨before', after', hput⟩ := ih
    by_cases hlt : j < l
    · exact ⟨(j, w) :: before', after', fun x => by
        rw [List.cons_append, putMember, if_pos hlt, hput]; rfl⟩
    · by_cases heq : j = l
      · -- it takes the place of one with its key
        exact ⟨(l, y) :: rest, after, fun x => by
          rw [List.cons_append, putMember, if_neg hlt, if_pos heq]; rfl⟩
      · exact ⟨(l, y) :: (j, w) :: rest, after, fun x => by
          rw [List.cons_append, putMember, if_neg hlt, if_neg heq]; rfl⟩

/-- Members with other keys leave it among members that do not depend on its value. -/
theorem exists_canonicalMembers_of_not_mem {key : String} {rest : List (String × Json)}
    (h : key ∉ rest.map (·.1)) (before after : List (String × Json)) : ∃ before' after', ∀ x,
      canonicalMembers (before ++ (key, x) :: after) rest = before' ++ (key, x) :: after' := by
  induction rest generalizing before after with
  | nil => exact ⟨before, after, fun x => rfl⟩
  | cons m rest ih =>
    obtain ⟨l, y⟩ := m
    obtain ⟨hl, hrest⟩ := not_or.mp (mt List.mem_cons.mpr h)
    obtain ⟨b, a, hput⟩ := exists_putMember_append_eq (Ne.symm hl) y.canonical before after
    obtain ⟨b', a', hcanonical⟩ := ih hrest b a
    exact ⟨b', a', fun x => by rw [canonicalMembers, hput, hcanonical]⟩

/-- **The canonical members of an object with an open place**: the last member with its key stands
among members that do not depend on it. -/
theorem exists_canonicalMembers_eq {key : String} {after : List (String × Json)}
    (hlast : key ∉ after.map (·.1)) (acc before : List (String × Json)) :
    ∃ before' after', ∀ x, canonicalMembers acc (before ++ (key, x) :: after)
      = before' ++ (key, x.canonical) :: after' := by
  induction before generalizing acc with
  | nil =>
    obtain ⟨b, a, hput⟩ := exists_putMember_eq key acc
    obtain ⟨b', a', hcanonical⟩ := exists_canonicalMembers_of_not_mem hlast b a
    exact ⟨b', a', fun x => by rw [List.nil_append, canonicalMembers, hput, hcanonical]⟩
  | cons m rest ih => exact ih (putMember m.1 m.2.canonical acc)

/-- Items become canonical one by one. -/
theorem canonicalItems_append (before : List Json) (x : Json) (after : List Json) :
    canonicalItems (before ++ x :: after)
      = canonicalItems before ++ x.canonical :: canonicalItems after := by
  simp [canonicalItems_eq_map]

/-- A later member counts before an earlier one. -/
theorem lastOf_append {key : String} (ms ns : List (String × Json)) :
    lastOf key (ms ++ ns) = (lastOf key ns).or (lastOf key ms) := by
  induction ms with
  | nil => simp [lastOf]
  | cons m rest ih => simp [lastOf, ih, Option.or_assoc]

/-- A member with another key does not matter to the tag. -/
theorem field?_type_insert {key : String} (hkey : key ≠ "type")
    (before after : List (String × Json)) (x : Json) :
    (object (before ++ (key, x) :: after)).field? "type"
      = (object (before ++ after)).field? "type" := by
  show lastOf "type" _ = lastOf "type" _
  rw [lastOf_append, lastOf_append, lastOf, if_neg hkey, Option.or_none]

/-- Another member does not change the tag. -/
theorem HasInnerTag.insert {k : Kind} {before after : List (String × Json)} {key : String}
    (h : (Json.object (before ++ after)).HasInnerTag k) (hkey : key ≠ "type") (x : Json) :
    (Json.object (before ++ (key, x) :: after)).HasInnerTag k := by
  unfold HasInnerTag HasTag at h ⊢
  rwa [field?_type_insert hkey]

end Json

/-! ## §3. The first fault. -/

/-- A loader that goes through the items one by one stops at the one that does not load, if it gets
to the end with another in its place. -/
theorem loadAll_eq_error {α : Type} {load : Json → Except LoadError α}
    {loadAll : List Json → Except LoadError (List α)}
    (hcons : ∀ v rest, loadAll (v :: rest) = (load v).bind fun a => (loadAll rest).map (a :: ·))
    {before after : List Json} {x : Json} {as : List α}
    (hok : loadAll (before ++ x :: after) = .ok as) :
    (∃ a, load x = .ok a) ∧
      ∀ y e, load y = .error e → loadAll (before ++ y :: after) = .error e := by
  induction before generalizing as with
  | nil =>
    rw [List.nil_append, hcons] at hok
    refine ⟨?_, fun y e he => ?_⟩
    · cases hx : load x with
      | error e => rw [hx] at hok; cases hok
      | ok a => exact ⟨a, rfl⟩
    · rw [List.nil_append, hcons, he]
      rfl
  | cons v rest ih =>
    rw [List.cons_append, hcons] at hok
    cases hv : load v with
    | error e => rw [hv] at hok; cases hok
    | ok a =>
      rw [hv] at hok
      -- the items before the place load as they did, so the loader gets there
      obtain ⟨bs, hbs, -⟩ := exists_of_map_eq_ok hok
      refine ⟨(ih hbs).1, fun y e he => ?_⟩
      rw [List.cons_append, hcons, hv]
      show (loadAll (rest ++ y :: after)).map (a :: ·) = _
      rw [(ih hbs).2 y e he]
      rfl

/-- A result that is another one with a function applied to its value has the same fault. -/
theorem ok_and_error_of_eq_map {α β : Type} {x : Except LoadError α} {y : Except LoadError β}
    {g : α → β} (h : y = x.map g) :
    (∀ b, y = .ok b → ∃ a, x = .ok a) ∧ ∀ e, x = .error e → y = .error e := by
  subst h
  constructor
  · intro b hb
    obtain ⟨a, ha, -⟩ := exists_of_map_eq_ok hb
    exact ⟨a, ha⟩
  · rintro e rfl
    rfl

namespace Node

/-- **A visit stops at the member that does not load**, if it gets to the end with another value in
its place: the members before it are visited in the same way. -/
theorem visit_eq_error {fs : List FieldSpec} {key : String} {p : Place fs}
    (hp : Place.find? fs key = some p) {before after : List (String × Json)} {x : Json}
    {s t : Slots fs} (hok : visit fs s (before ++ (key, x) :: after) = .ok t) :
    (∃ z, x.loadAs p.field.shape = .ok z) ∧ ∀ y e, y.loadAs p.field.shape = .error e →
      visit fs s (before ++ (key, y) :: after) = .error e := by
  induction before generalizing s with
  | nil =>
    -- the slot is free, or the visit with `x` would have stopped at it
    have hs : s.get p = none := by
      rw [List.nil_append, visit, hp] at hok
      cases hs : s.get p with
      | none => rfl
      | some z => simp [hs] at hok
    rw [List.nil_append, visit_cons_of_find hp hs] at hok
    refine ⟨?_, fun y e he => ?_⟩
    · cases hx : x.loadAs p.field.shape with
      | error e => rw [hx] at hok; cases hok
      | ok z => exact ⟨z, rfl⟩
    · rw [List.nil_append, visit_cons_of_find hp hs, he]
  | cons m rest ih =>
    obtain ⟨l, v⟩ := m
    rw [List.cons_append] at hok
    cases hq : Place.find? fs l with
    | none =>
      rw [visit, hq] at hok
      refine ⟨(ih hok).1, fun y e he => ?_⟩
      rw [List.cons_append, visit, hq]
      exact (ih hok).2 y e he
    | some q =>
      cases hs : s.get q with
      | some z =>
        rw [visit, hq] at hok
        simp [hs] at hok
      | none =>
        rw [visit_cons_of_find hq hs] at hok
        cases hv : v.loadAs q.field.shape with
        | error e => rw [hv] at hok; cases hok
        | ok z =>
          rw [hv] at hok
          refine ⟨(ih hok).1, fun y e he => ?_⟩
          rw [List.cons_append, visit_cons_of_find hq hs, hv]
          exact (ih hok).2 y e he

/-- The fields of an object stop at the one that does not load. -/
theorem visit_canonical_eq_error {fs : List FieldSpec} (hfs : FieldSpec.Distinct fs) {f : FieldSpec}
    (hf : f ∈ fs) {key : String} (hkey : key ∈ f.names) {before after : List (String × Json)}
    (hlast : key ∉ after.map (·.1)) {x : Json} {t : Slots fs}
    (hok : visit fs (.empty fs) (Json.canonicalMembers [] (before ++ (key, x) :: after)) = .ok t) :
    (∃ z, x.canonical.loadAs f.shape = .ok z) ∧ ∀ y e, y.canonical.loadAs f.shape = .error e →
      visit fs (.empty fs) (Json.canonicalMembers [] (before ++ (key, y) :: after)) = .error e := by
  obtain ⟨p, rfl⟩ := Place.exists_of_mem hf
  have hp : Place.find? fs key = some p :=
    (Place.find?_eq_some_iff hfs).mpr (FieldSpec.named_iff.mpr hkey)
  obtain ⟨b, a, hcanonical⟩ := Json.exists_canonicalMembers_eq hlast [] before
  rw [hcanonical] at hok
  obtain ⟨hx, herror⟩ := visit_eq_error hp hok
  refine ⟨hx, fun y e he => ?_⟩
  rw [hcanonical]
  exact herror _ e he

/-- A node stops at the member that does not load. -/
theorem ofJson_member_error {k : Kind} {f : FieldSpec} (hf : f ∈ k.schema.fields) {key : String}
    (hkey : key ∈ f.names) {before after : List (String × Json)}
    (htag : (Json.object (before ++ after)).HasInnerTag k) (hlast : key ∉ after.map (·.1))
    {x : Json} {n : Node}
    (hok : ofJson (Json.object (before ++ (key, x) :: after)).canonical = .ok n) :
    (∃ z, x.canonical.loadAs f.shape = .ok z) ∧ ∀ y e, y.canonical.loadAs f.shape = .error e →
      ofJson (Json.object (before ++ (key, y) :: after)).canonical = .error e := by
  have hne : key ≠ "type" := fun h => k.type_not_mem_names f hf (h ▸ hkey)
  have hkind : ∀ y, Kind.ofMembers Kind.ofInnerTagJson none
      (Json.canonicalMembers [] (before ++ (key, y) :: after)) = .ok (some k) :=
    fun y => Kind.ofMembers_inner_iff.mpr (htag.insert hne y)
  rw [Json.canonical_object, ofJson_object (hkind x)] at hok
  obtain ⟨t, hvisit, -⟩ := exists_of_bind_eq_ok hok
  obtain ⟨hx, herror⟩ := visit_canonical_eq_error k.distinct hf hkey hlast hvisit
  refine ⟨hx, fun y e he => ?_⟩
  rw [Json.canonical_object, ofJson_object (hkind y), herror y e he]
  rfl

/-- A record stops at the member that does not load. -/
theorem recordOfJson_member_error {r : RecordType} {f : FieldSpec} (hf : f ∈ r.schema.fields)
    {key : String} (hkey : key ∈ f.names) {before after : List (String × Json)}
    (hlast : key ∉ after.map (·.1)) {x : Json} {y : r.Value}
    (hok : recordOfJson r (Json.object (before ++ (key, x) :: after)).canonical = .ok y) :
    (∃ z, x.canonical.loadAs f.shape = .ok z) ∧ ∀ y e, y.canonical.loadAs f.shape = .error e →
      recordOfJson r (Json.object (before ++ (key, y) :: after)).canonical = .error e := by
  rw [Json.canonical_object, recordOfJson_object] at hok
  obtain ⟨t, hvisit, -⟩ := exists_of_bind_eq_ok hok
  obtain ⟨hx, herror⟩ := visit_canonical_eq_error r.distinct hf hkey hlast hvisit
  refine ⟨hx, fun y e he => ?_⟩
  rw [Json.canonical_object, recordOfJson_object, herror y e he]
  rfl

end Node

/-! ## §4. Shapes. -/

namespace Json

/-- A list stops at the item that does not load. -/
theorem loadAs_item_error {s t : Shape} (hs : s.item? = some t) {before after : List Json}
    {x : Json} {y : s.Value} (hok : (array (before ++ x :: after)).canonical.loadAs s = .ok y) :
    (∃ z, x.canonical.loadAs t = .ok z) ∧ ∀ v e, v.canonical.loadAs t = .error e →
      (array (before ++ v :: after)).canonical.loadAs s = .error e := by
  simp only [canonical, canonicalItems_append] at hok ⊢
  cases s with
  | nodes | nodes? =>
    cases hs
    obtain ⟨hx, herror⟩ := loadAll_eq_error Node.listOfItems_cons hok
    exact ⟨hx, fun v => herror v.canonical⟩
  | holes =>
    cases hs
    simp only [← Node.holeOfJson_eq_loadAs]
    obtain ⟨hx, herror⟩ := loadAll_eq_error Node.holesOfItems_cons hok
    exact ⟨hx, fun v => herror v.canonical⟩
  | records r =>
    cases hs
    obtain ⟨hx, herror⟩ := loadAll_eq_error (Node.recordsOfItems_cons r) hok
    exact ⟨hx, fun v => herror v.canonical⟩
  | _ => cases hs

/-- An optional node that is not null is a node. -/
theorem loadAs_node?_of_ne_null {x : Json} (h : x ≠ .null) :
    x.canonical.loadAs .node? = (x.canonical.loadAs .node).map Option.some := by
  cases x with
  | null => exact absurd rfl h
  | _ => rfl

/-- An optional record that is not null is a record. -/
theorem loadAs_record?_of_ne_null {x : Json} (h : x ≠ .null) (r : RecordType) :
    x.canonical.loadAs (.record? r) = (x.canonical.loadAs (.record r)).map Option.some := by
  cases x with
  | null => exact absurd rfl h
  | _ => rfl

/-- The name of a type parameter that is not a string is a node; its fault is not passed on. -/
theorem loadAs_typeParameterName_of_ne_string {x : Json} (h : ∀ t, x ≠ .string t) :
    x.canonical.loadAs .typeParameterName = ((x.canonical.loadAs .node).mapError fun _ =>
      .noChoice .typeParameterName).map TypeParameterName.node := by
  cases x with
  | string t => exact absurd rfl (h t)
  | _ =>
    unfold loadAs Shape.load
    simp only [canonical, readings]
    cases Node.ofJson _ <;> rfl

/-- What may be null has the fault that it has without being so, and the name of a type parameter
has a fault of its own. -/
theorem loadAs_inner_error {s t : Shape} (hs : s.inner? = some t) {x : Json} (hnull : x ≠ .null)
    (htext : s = .typeParameterName → ∀ u, x ≠ .string u) :
    (∀ y, x.canonical.loadAs s = .ok y → ∃ z, x.canonical.loadAs t = .ok z) ∧
    ∀ e, x.canonical.loadAs t = .error e →
      (s ≠ .typeParameterName → x.canonical.loadAs s = .error e) ∧
      (s = .typeParameterName → x.canonical.loadAs s = .error (.noChoice .typeParameterName)) := by
  cases s with
  | node? =>
    cases hs
    obtain ⟨hok, herror⟩ := ok_and_error_of_eq_map (loadAs_node?_of_ne_null hnull)
    exact ⟨hok, fun e he => ⟨fun _ => herror e he, fun h => by cases h⟩⟩
  | record? r =>
    cases hs
    obtain ⟨hok, herror⟩ := ok_and_error_of_eq_map (loadAs_record?_of_ne_null hnull r)
    exact ⟨hok, fun e he => ⟨fun _ => herror e he, fun h => by cases h⟩⟩
  | typeParameterName =>
    cases hs
    -- neither a text nor a node: the fault of the node is lost
    have hload := loadAs_typeParameterName_of_ne_string (htext rfl)
    refine ⟨fun y hy => ?_, fun e he =>
      ⟨fun h => absurd rfl h, fun _ => hload.trans (by rw [he]; rfl)⟩⟩
    obtain ⟨z, hz, -⟩ := exists_of_map_eq_ok (hload.symm.trans hy)
    cases hx : x.canonical.loadAs .node with
    | error e => rw [hx] at hz; cases hz
    | ok n => exact ⟨n, rfl⟩
  | _ => cases hs

end Json

/-- Only the field `name` of a type parameter has this shape. -/
theorem Kind.shape_eq_typeParameterName_iff (k : Kind) : ∀ f ∈ k.schema.fields, ∀ key ∈ f.names,
    f.shape = .typeParameterName ↔ k = .tsTypeParameter ∧ key = "name" := by
  cases k <;> decide

/-- No field of a record has. -/
theorem RecordType.shape_ne_typeParameterName (r : RecordType) : ∀ f ∈ r.schema.fields,
    f.shape ≠ .typeParameterName ∧ "name" ∉ f.names := by
  cases r <;> decide

/-! ## §5. Faults come up unchanged. -/

namespace Json.Context

/-- The fault of the node in the open place gets another name on the way to a value of the shape. -/
def Renames (s : Shape) (c : Context) : Prop := s = .typeParameterName ∨ c.PassesName

/-- A text may stand in the open place instead of a node. -/
def TakesText (s : Shape) (c : Context) : Prop :=
  (s = .typeParameterName ∧ c = here) ∨ c.EndsInName

/-- With the value in the open place the tree has the fault `e`, or a name that it is given. -/
def Fails (s : Shape) (c : Context) (v : Json) (e : LoadError) : Prop :=
  (¬Renames s c ∧ (c.fill v).canonical.loadAs s = .error e) ∨
    (Renames s c ∧ (c.fill v).canonical.loadAs s = .error (.noChoice .typeParameterName))

variable {s t : Shape} {c : Context} {v w : Json} {e : LoadError}

/-- A step that keeps the faults of what it leads to. -/
theorem Fails.step {c' : Context} (h : Fails t c' v e) (hrename : Renames s c ↔ Renames t c')
    (hload : ∀ e, (c'.fill v).canonical.loadAs t = .error e →
      (c.fill v).canonical.loadAs s = .error e) : Fails s c v e := by
  rcases h with ⟨hno, he⟩ | ⟨hyes, he⟩
  · exact .inl ⟨mt hrename.mp hno, hload _ he⟩
  · exact .inr ⟨hrename.mpr hyes, hload _ he⟩

/-- What is inside of an option is of another shape. -/
theorem ne_typeParameterName_of_inner? (h : s.inner? = some t) : t ≠ .typeParameterName := by
  cases s <;> cases h <;> simp

/-- The items of a list are of another shape. -/
theorem ne_typeParameterName_of_item? (h : s.item? = some t) :
    s ≠ .typeParameterName ∧ t ≠ .typeParameterName := by
  cases s <;> cases h <;> simp

/-- **The fault of the part is the fault of the whole.** The induction is along the way to the open
place; each step keeps the fault because everything beside the way loads. -/
theorem Holds.fails (hc : c.Holds s) {m : Node} (hw : m.Loads w) {y : s.Value}
    (hy : (c.fill w).canonical.loadAs s = .ok y) (hv : v ≠ .null)
    (he : Node.ofJson v.canonical = .error e)
    (htext : TakesText s c → ∀ u, v ≠ .string u) : Fails s c v e := by
  induction hc with
  | here => exact .inl ⟨by simp [Renames, PassesName], he⟩
  | @inner s t c hs _ ih =>
    have ht := ne_typeParameterName_of_inner? hs
    have hwnull : w ≠ .null := by rintro rfl; cases hw
    have hwtext : ∀ u, w ≠ .string u := by rintro u rfl; cases hw
    obtain ⟨z, hz⟩ := (loadAs_inner_error hs (c.fill_ne_null hwnull)
      fun _ => fill_ne_string fun _ => hwtext).1 y hy
    have hfails := ih hz fun h => htext (h.elim (fun h => absurd h.1 ht) .inr)
    have herror := (loadAs_inner_error hs (c.fill_ne_null hv)
      fun h => fill_ne_string fun hhere => htext (.inl ⟨h, hhere⟩)).2
    by_cases hname : s = .typeParameterName
    · -- whatever the fault is, the name has one of its own
      rcases hfails with ⟨-, he⟩ | ⟨-, he⟩
      all_goals exact .inr ⟨.inl hname, (herror _ he).2 hname⟩
    · exact hfails.step (by simp [Renames, hname, ht]) fun e he => (herror e he).1 hname
  | @item s t c before after hs _ ih =>
    obtain ⟨hs', ht⟩ := ne_typeParameterName_of_item? hs
    -- the items before the place load, so the list comes to it
    obtain ⟨⟨z, hz⟩, herror⟩ := loadAs_item_error hs hy
    have hfails := ih hz fun h => htext (h.elim (fun h => absurd h.1 ht) .inr)
    exact hfails.step (by simp [Renames, PassesName, hs', ht]) (herror _)
  | @inNode k f key c before after tag field named last _ ih =>
    -- the only field that takes texts as well as nodes
    have hname : IsName before key after ↔ f.shape = .typeParameterName := by
      rw [k.shape_eq_typeParameterName_iff f field key named]
      refine and_congr_left fun _ => ⟨tag.kind_eq, ?_⟩
      rintro rfl
      exact tag
    obtain ⟨⟨z, hz⟩, herror⟩ := Node.ofJson_member_error field named tag last hy
    have hfails := ih hz fun h => htext (.inr (h.imp_left (.imp_left hname.mpr)))
    exact hfails.step (by simp [Renames, PassesName, hname]) (herror _)
  | @inRecord r f key c before after field named last _ ih =>
    obtain ⟨hshape, hkey⟩ := r.shape_ne_typeParameterName f field
    have hname : IsName before key after ↔ f.shape = .typeParameterName :=
      ⟨fun h => absurd (h.2 ▸ named) hkey, fun h => absurd h hshape⟩
    obtain ⟨⟨z, hz⟩, herror⟩ := Node.recordOfJson_member_error field named last hy
    have hfails := ih hz fun h => htext (.inr (h.imp_left (.imp_left hname.mpr)))
    exact hfails.step (by simp [Renames, PassesName, hname]) (herror _)

end Json.Context

/-! ## §6. The root. -/

namespace Kind

/-- A tag that is no position selects the same kind, or has the same fault, at the root. -/
theorem ofInnerTagJson_eq_ofTagJson {t : Json} (h : ∀ i : Nat, t ≠ .number (.int i)) :
    ofInnerTagJson t = ofTagJson t := by
  unfold ofInnerTagJson
  split
  next i =>
    split
    next => rfl
    next hi =>
      obtain ⟨j, rfl⟩ := Int.eq_ofNat_of_zero_le (Int.not_lt.mp hi)
      exact absurd rfl (h j)
  next => rfl

/-- Two ways to read tags that agree on the tags of an object read the same kind. -/
theorem ofMembers_congr {read read' : Json → Except LoadError Kind} {ms : List (String × Json)}
    (h : ∀ m ∈ ms, m.1 = "type" → read m.2 = read' m.2) (found : Option Kind) :
    ofMembers read found ms = ofMembers read' found ms := by
  induction ms generalizing found with
  | nil => rfl
  | cons m rest ih =>
    obtain ⟨hm, hrest⟩ := List.forall_mem_cons.mp h
    unfold ofMembers
    by_cases hkey : m.1 = "type"
    · simp only [hm hkey, ih hrest]
    · simp only [if_neg hkey, ih hrest]

end Kind

/-- An object whose tag is no position is loaded at the root as inside another node, faults
included. -/
theorem Node.ofValue_eq_ofJson {v : Json}
    (h : ∀ i : Nat, v.field? "type" ≠ some (.number (.int i))) :
    ofValue v = ofJson v.canonical := by
  cases v with
  | object ms =>
    -- the tag is the one member with its key, and it is no number
    have hread : ∀ m ∈ Json.canonicalMembers [] ms, m.1 = "type" →
        Kind.ofTagJson m.2 = Kind.ofInnerTagJson m.2 := by
      rintro ⟨_, t⟩ hm rfl
      refine (Kind.ofInnerTagJson_eq_ofTagJson fun i hi => h i ?_).symm
      have hlookup := (Json.sorted_canonicalMembers .nil ms).lookup_eq_some_iff.mpr hm
      rw [Json.lookup_canonicalMembers, List.lookup_nil, Option.or_none] at hlookup
      obtain ⟨x, hx, hxt⟩ := Option.map_eq_some_iff.mp hlookup
      rw [show (Json.object ms).field? "type" = some x from hx,
        Json.canonical_eq_number_iff.mp (hxt.trans hi)]
    show ofRoot (.object (Json.canonicalMembers [] ms)) = _
    rw [ofRoot_object, Kind.ofMembers_congr hread, Json.canonical_object]
    cases hk : Kind.ofMembers Kind.ofInnerTagJson none (Json.canonicalMembers [] ms) with
    | error e => simp [ofJson, hk, Except.bind]
    | ok found => rfl
  | _ => rfl

/-- The tree around the open place has the tag at its root that it has with another value in the
place. -/
theorem Json.Context.Holds.hasTag_fill {c : Context} (hc : c.Holds .node) {v w : Json} {k : Kind}
    (hhere : c ≠ .here) (h : (c.fill w).HasTag k) : (c.fill v).HasTag k := by
  cases hc with
  | here => exact absurd rfl hhere
  | inner shape => cases shape
  | item shape => cases shape
  | @inNode l f key c before after _ field named =>
    have hne : key ≠ "type" := fun h => l.type_not_mem_names f field (h ▸ named)
    unfold HasTag fill at h ⊢
    rwa [field?_type_insert hne] at h ⊢

/-- **The fault of a node is the fault of every tree that it stands in**, if the tree loads with
some node in its place. The value in the place must not be null, which may stand for no node, and
its tag must not be a position, which is a fault at the root only. On the way through the name of a
type parameter the fault is that the name is neither a text nor a node, unless the value is a text
and stands there for the name. -/
theorem Node.ofValue_fill_error {c : Json.Context} (hc : c.Holds .node) {w : Json} {m n : Node}
    (hw : ofValue w = .ok m) (hn : ofValue (c.fill w) = .ok n) {v : Json} {e : LoadError}
    (hv : v ≠ .null) (hi : ∀ i : Nat, v.field? "type" ≠ some (.number (.int i)))
    (he : ofValue v = .error e) :
    (¬c.PassesName → ofValue (c.fill v) = .error e) ∧
    (c.PassesName → (c.EndsInName → ∀ s, v ≠ .string s) →
      ofValue (c.fill v) = .error (.noChoice .typeParameterName)) := by
  obtain ⟨-, hw⟩ := ofValue_eq_ok_iff_loads.mp hw
  obtain ⟨hroot, hn⟩ := ofValue_eq_ok_iff_loads.mp hn
  -- the root of the tree has a text for its tag, so it is loaded as a node inside another one is
  have hfill : ofValue (c.fill v) = ofJson (c.fill v).canonical := by
    refine ofValue_eq_ofJson fun i h => ?_
    by_cases hhere : c = .here
    · subst hhere
      exact hi i h
    · rw [hc.hasTag_fill hhere hroot] at h
      cases h
  rw [ofValue_eq_ofJson hi] at he
  rw [hfill]
  have hname : Json.Context.Renames .node c ↔ c.PassesName := by simp [Json.Context.Renames]
  have hfails : (c.EndsInName → ∀ s, v ≠ .string s) → c.Fails .node v e := fun htext =>
    hc.fails hw hn hv he fun h => htext (h.resolve_left fun h => by cases h.1)
  constructor
  · intro hno
    rcases hfails fun h => absurd h.passesName hno with ⟨-, h⟩ | ⟨h, -⟩
    · exact h
    · exact absurd (hname.mp h) hno
  · intro hyes htext
    rcases hfails htext with ⟨h, -⟩ | ⟨-, h⟩
    · exact absurd (hname.mpr hyes) h
    · exact h

/-- A text for a node, as the test of a case and as a decorator in the name of a type parameter. -/
theorem Node.ofValue_fill_error_switch :
    let tagged (k : Kind) (ms : List (String × Json)) : List (String × Json) :=
      ("type", .string k.tag) :: ms
    let name (x : String) := tagged .identifier [("name", .string x)]
    let test : Json.Context := .member
      (tagged .switchStatement [("discriminant", .object (name "x"))])
      "cases" (.item [] (.member [("consequent", .array [])] "test" .here []) []) []
    let decorator : Json.Context := .member (tagged .tsTypeParameter []) "name"
      (.member (name "T") "decorators" (.item [] .here []) []) [("in", .bool true)]
    let fault : LoadError := .invalidType (.string "y") .node
    ofValue (.string "y") = .error fault ∧
      (test.Holds .node ∧ ¬test.PassesName ∧ ofValue (test.fill (.string "y")) = .error fault) ∧
      decorator.Holds .node ∧ decorator.PassesName ∧ ¬decorator.EndsInName ∧
        ofValue (decorator.fill (.string "y")) = .error (.noChoice .typeParameterName) := by
  intro tagged name test decorator fault
  have htest : test.Holds .node :=
    @Json.Context.Holds.inNode .switchStatement ⟨"cases", none, .records .switchCase, none⟩ _ _ _ _
      (.inl rfl) (.tail _ (.head _)) (.head _) List.not_mem_nil (.item rfl
        (@Json.Context.Holds.inRecord .switchCase (.child? "test") _ _ _ _ (.head _) (.head _)
          List.not_mem_nil (.inner rfl .here)))
  have hdecorator : decorator.Holds .node :=
    @Json.Context.Holds.inNode .tsTypeParameter ⟨"name", none, .typeParameterName, none⟩ _ _ _ _
      (.inl rfl) (.head _) (.head _) (by decide) (.inner rfl
        (@Json.Context.Holds.inNode .identifier (.children? "decorators") _ _ _ _ (.inl rfl)
          (.tail _ (.tail _ (.tail _ (.head _)))) (.head _) List.not_mem_nil (.item rfl .here)))
  have hpass : ¬test.PassesName := by
    rintro (⟨-, h⟩ | ⟨-, h⟩ | h)
    · exact absurd h (by decide)
    · exact absurd h (by decide)
    · exact h
  have hends : ¬decorator.EndsInName := by
    rintro (⟨-, h⟩ | ⟨-, h⟩ | h)
    · cases h
    · cases h
    · exact h
  have hnode : ofValue (.object (name "z")) = .ok (.identifier "z" false none []) := rfl
  refine ⟨rfl, ⟨htest, hpass, ?_⟩, hdecorator, .inl ⟨.inl rfl, rfl⟩, hends, ?_⟩
  · exact (ofValue_fill_error htest hnode rfl (by simp) (by simp [Json.field?]) rfl).1 hpass
  · exact (ofValue_fill_error hdecorator hnode rfl (by simp) (by simp [Json.field?]) rfl).2
      (.inl ⟨.inl rfl, rfl⟩) fun h => absurd h hends

/-- A position for a tag is a fault at the root, but not in the body of a program. -/
theorem Node.ofValue_fill_index :
    let v : Json := .object [("type", .number (.int Kind.emptyStatement.index))]
    let w : Json := .object [("type", .string Kind.emptyStatement.tag)]
    let body : Json.Context := .member [("type", .string Kind.program.tag)] "body"
      (.item [] .here []) []
    body.Holds .node ∧ ofValue w = .ok .emptyStatement ∧
      ofValue (body.fill w) = .ok (.program [.emptyStatement]) ∧ v ≠ .null ∧ ¬body.PassesName ∧
      ofValue v = .error (.unfit (.number (.int Kind.emptyStatement.index)) .tag) ∧
      ofValue (body.fill v) = .ok (.program [.emptyStatement]) := by
  intro v w body
  have hbody : body.Holds .node :=
    @Json.Context.Holds.inNode .program (.children "body") _ _ _ _ (.inl rfl) (.head _) (.head _)
      List.not_mem_nil (.item rfl .here)
  have hpass : ¬body.PassesName := by
    rintro (⟨-, h⟩ | h)
    · exact absurd h (by decide)
    · exact h
  exact ⟨hbody, rfl, rfl, by simp [v], hpass, rfl, rfl⟩

end Estree
