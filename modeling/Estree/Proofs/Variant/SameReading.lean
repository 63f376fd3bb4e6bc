import Estree.Proofs.Variant.Congruence
import Estree.Proofs.Variant.Replacement

/-!
# Values that read the same

Two values read the same in a shape when the nodes that are read from them have the same traits, or
nothing is read from either (`Json.SameReading`). Objects of one kind read the same when their
fields do, since a node takes its traits from those of the nodes inside; so what holds of a part
holds of the whole.

Main results:

* `SameReading.node`: objects of one kind read the same when their fields do.
* `Node.rep_map_rep`: a node takes its traits from those of the nodes inside.
-/

namespace Estree

/-! ## §1. The nodes in values. -/

/-- Maps the nodes in a record. -/
def RecordType.mapNodes (g : Node → Node) : (r : RecordType) → r.Value → r.Value
  | .switchCase => SwitchCase.map g
  | .catchClause => CatchClause.map g
  | .templateText => id
  | .regExp => id
  | .enumBody => List.map g

/-- Maps the nodes in a value of a shape. -/
def Shape.mapNodes (g : Node → Node) : (s : Shape) → s.Value → s.Value
  | .node => g
  | .node? => Option.map g
  | .nodes => List.map g
  | .nodes? => List.map g
  | .holes => List.map (Option.map g)
  | .record r => r.mapNodes g
  | .record? r => Option.map (r.mapNodes g)
  | .records r => List.map (r.mapNodes g)
  | .typeParameterName => TypeParameterName.map g
  | .flag => id
  | .text => id
  | .text? => id
  | .json => id
  | .mappedModifier? => id

/-- Maps the nodes in the values of fields. -/
def Values.mapNodes (g : Node → Node) : (fs : List FieldSpec) → Values fs → Values fs
  | [], xs => xs
  | f :: fs, xs => (f.shape.mapNodes g xs.1, Values.mapNodes g fs xs.2)

/-- Changing the nodes of a record changes those of its values. -/
theorem RecordType.mapNodes_build (g : Node → Node) (r : RecordType)
    (xs : Values r.schema.fields) :
    r.mapNodes g (r.schema.build xs) = r.schema.build (Values.mapNodes g _ xs) := by
  cases r <;> rfl

/-- Changing the children of a node does. -/
theorem Kind.map_build (g : Node → Node) (k : Kind) (xs : Values k.schema.fields) :
    (k.schema.build xs).map g = k.schema.build (Values.mapNodes g _ xs) := by
  cases k with
  | literal | regExpLiteral =>
    obtain ⟨value, raw, regex, bigint, _⟩ := xs
    cases regex <;> rfl
  | _ => rfl

/-! ## §2. The same reading. -/

/-- The values are read as the same but for nodes with the same traits, or as nothing. -/
def Json.SameReading (s : Shape) (v w : Json) : Prop :=
  (v.read s).map (s.mapNodes .rep) = (w.read s).map (s.mapNodes .rep)

/-- The field reads the same in both objects. -/
def FieldSpec.SameReading (f : FieldSpec) (v w : Json) : Prop :=
  (f.read v).map (f.shape.mapNodes .rep) = (f.read w).map (f.shape.mapNodes .rep)

/-- Fields that read alike give values that agree up to representatives. -/
theorem Values.read_map_rep_eq {fs : List FieldSpec} {v w : Json}
    (h : ∀ f ∈ fs, f.SameReading v w) :
    (Values.read fs v).map (Values.mapNodes .rep fs)
      = (Values.read fs w).map (Values.mapNodes .rep fs) := by
  induction fs with
  | nil => rfl
  | cons f fs ih =>
    obtain ⟨hf, hfs⟩ := List.forall_mem_cons.mp h
    have hrest := ih hfs
    unfold FieldSpec.SameReading at hf
    -- reading and taking representatives go field by field
    have hstep : ∀ u : Json, (Values.read (f :: fs) u).map (Values.mapNodes .rep (f :: fs))
        = ((f.read u).map (f.shape.mapNodes .rep)).bind fun x =>
          ((Values.read fs u).map (Values.mapNodes .rep fs)).map fun xs => (x, xs) := by
      intro u
      show Option.map _ ((f.read u).bind _) = _
      cases f.read u with
      | none => rfl
      | some x =>
        show Option.map _ (Option.map _ (Values.read fs u)) = _
        cases Values.read fs u <;> rfl
    rw [hstep, hstep, hf, hrest]

namespace Node

/-- Representatives of the children do not change the representative. -/
theorem rep_map_rep (n : Node) : (n.map rep).rep = n.rep := rep_eq_of_traits n.traits_map_rep

end Node

namespace Json

/-- **Objects of one kind read the same when their fields do.** -/
theorem SameReading.node {k : Kind} {v w : Json} (hv : v.HasInnerTag k) (hw : w.HasInnerTag k)
    (h : ∀ f ∈ k.schema.fields, f.SameReading v w) : SameReading .node v w := by
  have hrep : ∀ u : Json, u.HasInnerTag k → (u.read .node).map Node.rep
      = ((Values.read k.schema.fields u).map (Values.mapNodes .rep _)).map fun xs =>
        (k.schema.build xs).rep := by
    intro u hu
    rw [read_node hu, Option.map_map, Option.map_map]
    refine congrArg (Option.map · _) (funext fun xs => ?_)
    show (k.schema.build xs).rep = (k.schema.build (Values.mapNodes .rep _ xs)).rep
    rw [← k.map_build, Node.rep_map_rep]
  show (v.read .node).map Node.rep = (w.read .node).map Node.rep
  rw [hrep v hv, hrep w hw, Values.read_map_rep_eq h]

/-- Objects whose fields read alike read alike as records. -/
theorem SameReading.record {r : RecordType} {v w : Json} (hv : ∃ ms, v = .object ms)
    (hw : ∃ ms, w = .object ms) (h : ∀ f ∈ r.schema.fields, f.SameReading v w) :
    SameReading (.record r) v w := by
  have hmap : ∀ u : Json, (∃ ms, u = .object ms) → (u.read (.record r)).map (r.mapNodes .rep)
      = ((Values.read r.schema.fields u).map (Values.mapNodes .rep _)).map r.schema.build := by
    rintro _ ⟨ms, rfl⟩
    rw [read_record, Option.map_map, Option.map_map]
    exact congrArg (Option.map · _) (funext fun xs => r.mapNodes_build .rep xs)
  show (v.read (.record r)).map (r.mapNodes .rep) = (w.read (.record r)).map (r.mapNodes .rep)
  rw [hmap v hv, hmap w hw, Values.read_map_rep_eq h]

end Json

/-! ## §3. One part replaced. -/

namespace FieldSpec

/-- A field reads alike where its names have the same values. -/
theorem SameReading.of_field? {f : FieldSpec} {v w : Json}
    (h : ∀ key ∈ f.names, v.field? key = w.field? key) : f.SameReading v w := by
  unfold SameReading read
  rw [List.filterMap_congr h]

/-- A field reads the same when what stands under one of its names does. -/
theorem SameReading.of_part {f : FieldSpec} {key : String} {v w x y : Json} (hnodup : f.names.Nodup)
    (named : key ∈ f.names) (old : v.field? key = some x) (new : w.field? key = some y)
    (hothers : ∀ k, k ≠ key → v.field? k = w.field? k) (h : Json.SameReading f.shape x y) :
    f.SameReading v w := by
  obtain ⟨name, other, shape, absent⟩ := f
  unfold Json.SameReading at h
  unfold SameReading read
  cases other with
  | none =>
    cases List.mem_singleton.mp named
    simpa [names, old, new] using h
  | some other =>
    have hne : name ≠ other := by simpa [names] using hnodup
    rcases List.mem_pair.mp named with rfl | rfl
    -- a value under the other name as well makes the field unreadable on both sides
    · have hother := hothers other hne.symm
      cases hz : w.field? other with
      | none => simpa [names, old, new, hother, hz] using h
      | some z => simp [names, old, new, hother, hz]
    · have hname := hothers name hne
      cases hz : w.field? name with
      | none => simpa [names, old, new, hname, hz] using h
      | some z => simp [names, old, new, hname, hz]

/-- A name belongs to one field. -/
theorem Distinct.eq_of_named {fs : List FieldSpec} (h : Distinct fs) {f g : FieldSpec} (hf : f ∈ fs)
    (hg : g ∈ fs) {key : String} (hkf : key ∈ f.names) (hkg : key ∈ g.names) : f = g := by
  induction fs with
  | nil => cases hf
  | cons e fs ih =>
    obtain ⟨he, hfs⟩ := List.pairwise_cons.mp h
    rcases List.mem_cons.mp hf with rfl | hf' <;> rcases List.mem_cons.mp hg with rfl | hg'
    · rfl
    · exact absurd hkg (he g hg' key hkf)
    · exact absurd hkf (he f hf' key hkg)
    · exact ih hfs hf' hg'

/-- All fields read the same when what stands under one key does. -/
theorem SameReading.of_agreeExcept {fs : List FieldSpec} (hfs : Distinct fs)
    (hnodup : ∀ f ∈ fs, f.names.Nodup) {f : FieldSpec} {key : String} {v w x y : Json}
    (field : f ∈ fs) (named : key ∈ f.names) (old : v.field? key = some x)
    (new : w.field? key = some y) (rest : Json.AgreeExcept [key] v w)
    (h : Json.SameReading f.shape x y) : ∀ g ∈ fs, g.SameReading v w := by
  have hothers : ∀ k, k ≠ key → v.field? k = w.field? k := fun k hk =>
    rest.field k (by simpa using hk)
  intro g hg
  by_cases hkey : key ∈ g.names
  · cases hfs.eq_of_named field hg named hkey
    exact .of_part (hnodup f field) named old new hothers h
  · exact .of_field? fun k hk => hothers k fun hkk => hkey (hkk ▸ hk)

end FieldSpec

namespace Json

theorem map_map_of_swap {α γ : Type} (c : α → γ) {g : α → α} {g' : γ → γ}
    (hc : ∀ a, g' (c a) = c (g a)) {o p : Option α} (h : o.map g = p.map g) :
    (o.map c).map g' = (p.map c).map g' := by
  have hswap : ∀ q : Option α, (q.map c).map g' = (q.map g).map c := by
    intro q
    cases q <;> simp [hc]
  rw [hswap, hswap, h]

/-- What an object has in place of null or of a text. -/
theorem SameReading.inner {s t : Shape} {v w : Json} (shape : s.inner? = some t)
    (hv : ∃ ms, v = .object ms) (hw : ∃ ms, w = .object ms) (h : SameReading t v w) :
    SameReading s v w := by
  obtain ⟨ms, rfl⟩ := hv
  obtain ⟨ns, rfl⟩ := hw
  unfold SameReading at h ⊢
  cases s with
  | node? =>
    cases shape
    have hne : ∀ ms, Json.object ms ≠ .null := nofun
    rw [read_node?_of_ne_null (hne ms), read_node?_of_ne_null (hne ns)]
    exact map_map_of_swap some (fun _ => rfl) h
  | record? r =>
    cases shape
    rw [read_record?_object, read_record?_object]
    exact map_map_of_swap some (fun _ => rfl) h
  | typeParameterName =>
    cases shape
    rw [read_typeParameterName_object, read_typeParameterName_object]
    exact map_map_of_swap TypeParameterName.node (fun _ => rfl) h
  | _ => cases shape

theorem map_mapM {α β : Type} (r : Json → Option α) (g : α → β) (items : List Json) :
    (items.mapM r).map (List.map g) = items.mapM fun x => (r x).map g := by
  induction items with
  | nil => rfl
  | cons x items ih =>
    rw [List.mapM_cons, List.mapM_cons, ← ih]
    cases r x with
    | none => rfl
    | some a => cases items.mapM r <;> rfl

theorem map_mapM_congr {α β : Type} {r : Json → Option α} {g : α → β} {x y : Json}
    (h : (r x).map g = (r y).map g) (xs zs : List Json) :
    ((xs ++ x :: zs).mapM r).map (List.map g) = ((xs ++ y :: zs).mapM r).map (List.map g) := by
  rw [map_mapM, map_mapM]
  simp [h]

theorem SameReading.item {s t : Shape} {x y : Json} (shape : s.item? = some t)
    (h : SameReading t x y) (xs zs : List Json) :
    SameReading s (.array (xs ++ x :: zs)) (.array (xs ++ y :: zs)) := by
  unfold SameReading at h ⊢
  cases s with
  | nodes | nodes? =>
    cases shape
    have hread := map_mapM_congr h xs zs
    rw [← read_nodes_array, ← read_nodes_array] at hread
    exact hread
  | holes =>
    cases shape
    rw [read_holes_array, read_holes_array]
    exact map_mapM_congr h xs zs
  | records r =>
    cases shape
    rw [read_records_array, read_records_array]
    exact map_mapM_congr h xs zs
  | _ => cases shape

end Json

end Estree
