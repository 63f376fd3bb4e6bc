import Estree.Node.Load
import Estree.Proofs.Presentation.Object

/-!
# Visiting the fields of an object

The loader visits the members of an object in their order and keeps what it found in slots. The
order leaves no trace in the result: a visit succeeds exactly when under the names of each field
there is at most one member, and what it holds can be loaded. Fields that are absent take their
defaults. Both are said for each place in the list of fields, which no other place shares a name
with (`FieldSpec.Distinct`).

The tag is found in the same way: it is the one value under its key, whatever stands before and
after it.

Main results:

* `Node.visit_eq_ok_iff`: what a visit does to every slot.
* `Slots.complete_eq_ok_iff`: what the fields are in the end.
* `Node.exists_visit_iff`: the fields of an object are loaded exactly when each is found.
* `Kind.ofMembers_eq_ok_some_iff`: the tag of an object selects a kind exactly when it stands there
  once and selects it.
-/

namespace Estree

/-! ## §1. Places. -/

namespace FieldSpec

/-- The names under which a field may stand. -/
def names (f : FieldSpec) : List String := f.name :: f.otherName.toList

/-- A field is named by its names. -/
theorem named_iff {f : FieldSpec} {key : String} : f.named key = true ↔ key ∈ f.names := by
  simp only [named, names, Bool.or_eq_true, beq_iff_eq, List.mem_cons, Option.mem_toList]
  exact or_congr_left eq_comm

/-- No two fields share a name. -/
def Distinct (fs : List FieldSpec) : Prop := fs.Pairwise fun f g => ∀ k ∈ f.names, k ∉ g.names

instance (fs : List FieldSpec) : Decidable (Distinct fs) :=
  inferInstanceAs (Decidable (fs.Pairwise _))

end FieldSpec

namespace Place

variable {f : FieldSpec} {fs : List FieldSpec}

/-- The field at a place is one of the fields. -/
theorem field_mem : {fs : List FieldSpec} → (p : Place fs) → p.field ∈ fs
  | _ :: _, .here => List.mem_cons_self
  | _ :: _, .there p => List.mem_cons_of_mem _ p.field_mem

/-- Every field has a place. -/
theorem exists_of_mem {fs : List FieldSpec} (h : f ∈ fs) : ∃ p : Place fs, p.field = f := by
  induction h with
  | head => exact ⟨.here, rfl⟩
  | tail _ _ ih =>
    obtain ⟨p, hp⟩ := ih
    exact ⟨.there p, hp⟩

/-- A key leads to no place when it names no field. -/
theorem find?_eq_none_iff {key : String} :
    find? fs key = none ↔ ∀ p : Place fs, p.field.named key = false := by
  induction fs with
  | nil => exact ⟨fun _ p => (by cases p), fun _ => rfl⟩
  | cons f fs ih =>
    rw [find?]
    constructor
    · intro h p
      split at h
      next => cases h
      next hf =>
        cases p with
        | here => exact Bool.eq_false_iff.mpr hf
        | there p => exact ih.mp (Option.map_eq_none_iff.mp h) p
    · intro h
      have hf : ¬f.named key = true := Bool.eq_false_iff.mp (h .here)
      rw [if_neg hf, Option.map_eq_none_iff]
      exact ih.mpr fun p => h (.there p)

/-- With distinct names a key leads to the one place that it names. -/
theorem find?_eq_some_iff (h : FieldSpec.Distinct fs) {key : String} {p : Place fs} :
    find? fs key = some p ↔ p.field.named key = true := by
  induction fs with
  | nil => cases p
  | cons f fs ih =>
    obtain ⟨hf, hfs⟩ := List.pairwise_cons.mp h
    rw [find?]
    by_cases hkey : f.named key = true
    · rw [if_pos hkey]
      cases p with
      | here => exact ⟨fun _ => hkey, fun _ => rfl⟩
      | there p =>
        refine ⟨fun h => (by cases h), fun hp => ?_⟩
        -- no two fields have a name in common
        have hkf := FieldSpec.named_iff.mp hkey
        exact absurd (FieldSpec.named_iff.mp hp) (hf p.field p.field_mem key hkf)
    · rw [if_neg hkey]
      cases p with
      | here => exact ⟨fun h => by simp at h, fun h => absurd h hkey⟩
      | there p =>
        rw [Option.map_eq_some_iff]
        refine ⟨fun ⟨q, hq, hqp⟩ => ?_, fun hp => ⟨p, (ih hfs).mpr hp, rfl⟩⟩
        cases hqp
        exact (ih hfs).mp hq

end Place

/-! ## §2. Slots. -/

namespace Slots

variable {fs : List FieldSpec}

/-- An empty slot holds nothing. -/
theorem get_empty (p : Place fs) : (empty fs).get p = none := by
  induction p with
  | here => rfl
  | there p ih => exact ih

/-- A slot that is set holds the value. -/
theorem get_set_self (s : Slots fs) (p : Place fs) (x : p.field.shape.Value) :
    (s.set p x).get p = some x := by
  induction p with
  | here => rfl
  | there p ih => exact ih s.2 x

/-- The other slots keep what they hold. -/
theorem get_set_of_ne (s : Slots fs) {p q : Place fs} (h : q ≠ p) (x : p.field.shape.Value) :
    (s.set p x).get q = s.get q := by
  induction p with
  | here =>
    cases q with
    | here => exact absurd rfl h
    | there q => rfl
  | there p ih =>
    cases q with
    | here => rfl
    | there q => exact ih s.2 (fun hq => h (hq ▸ rfl)) x

/-- Slots are what they hold at each place. -/
theorem ext {fs : List FieldSpec} : {s t : Slots fs} → (∀ p, s.get p = t.get p) → s = t := by
  induction fs with
  | nil =>
    intro s t _
    rfl
  | cons f fs ih =>
    intro s t h
    have hhead : s.1 = t.1 := h .here
    have htail : s.2 = t.2 := ih fun p => h (.there p)
    exact Prod.ext hhead htail

/-- The slots with given contents. -/
def ofFn : {fs : List FieldSpec} → ((p : Place fs) → Option p.field.shape.Value) → Slots fs
  | [], _ => ()
  | _ :: _, g => (g .here, ofFn fun p => g (.there p))

/-- The slots hold the given contents. -/
theorem get_ofFn (g : (p : Place fs) → Option p.field.shape.Value) (p : Place fs) :
    (ofFn g).get p = g p := by
  induction p with
  | here => rfl
  | there p ih => exact ih fun p => g (.there p)

end Slots

/-- The value of the field at a place. -/
def Values.get : {fs : List FieldSpec} → Values fs → (p : Place fs) → p.field.shape.Value
  | _ :: _, (x, _), .here => x
  | _ :: _, (_, xs), .there p => Values.get xs p

/-- **Completion** gives each field its value or its default. -/
theorem Slots.complete_eq_ok_iff {fs : List FieldSpec} {s : Slots fs} {xs : Values fs} :
    s.complete = .ok xs ↔ ∀ p, (s.get p).or p.field.absent = some (xs.get p) := by
  induction fs with
  | nil => exact ⟨fun _ p => (by cases p), fun _ => rfl⟩
  | cons f fs ih =>
    obtain ⟨v, vs⟩ := s
    obtain ⟨x, xs⟩ := xs
    -- every place is the first one or one of the others
    have hplaces : (∀ p : Place (f :: fs), (@Slots.get (f :: fs) (v, vs) p).or p.field.absent
          = some (@Values.get (f :: fs) (x, xs) p)) ↔
        v.or f.absent = some x ∧ ∀ p, (vs.get p).or p.field.absent = some (xs.get p) := by
      refine ⟨fun h => ⟨h .here, fun p => h (.there p)⟩, fun ⟨hx, hxs⟩ p => ?_⟩
      cases p with
      | here => exact hx
      | there p => exact hxs p
    rw [hplaces, ← ih, Slots.complete]
    cases v.or f.absent with
    | none => exact ⟨fun h => (by cases h), fun h => (by cases h.1)⟩
    | some y =>
      cases vs.complete with
      | error e => exact ⟨fun h => (by cases h), fun h => (by cases h.2)⟩
      | ok ys =>
        constructor
        · intro h
          cases h
          exact ⟨rfl, rfl⟩
        · rintro ⟨hy, hys⟩
          cases hy
          cases hys
          rfl

/-! ## §3. Visits. -/

/-- The values under the selected keys, in their order. -/
def Json.valuesAt (sel : String → Bool) (ms : List (String × Json)) : List Json :=
  (ms.filter fun m => sel m.1).map (·.2)

/-- What a value is when it is read as a node, a list, or a record. -/
def Json.readings (v : Json) : Readings :=
  ⟨fun _ => Node.ofJson v, fun _ => Node.listOfJson v, fun _ => Node.holesOfJson v,
    fun r => Node.recordOfJson r v, fun r => Node.recordsOfJson r v⟩

/-- Loads a value of a shape. -/
def Json.loadAs (v : Json) (s : Shape) : Except LoadError s.Value := s.load v v.readings

namespace FieldSpec

/-- The values under the names of a field, in their order. -/
def valuesIn (f : FieldSpec) (ms : List (String × Json)) : List Json :=
  Json.valuesAt f.named ms

theorem valuesIn_cons_of_named {f : FieldSpec} {key : String} (h : f.named key = true) (v : Json)
    (ms : List (String × Json)) : f.valuesIn ((key, v) :: ms) = v :: f.valuesIn ms := by
  simp [valuesIn, Json.valuesAt, h]

theorem valuesIn_cons_of_not_named {f : FieldSpec} {key : String} (h : f.named key = false)
    (v : Json) (ms : List (String × Json)) : f.valuesIn ((key, v) :: ms) = f.valuesIn ms := by
  simp [valuesIn, Json.valuesAt, h]

/-- The members lead the slot of a field from `a` to `b`: they leave it alone, or it was empty and
the one member that names the field fills it. -/
def Visited (f : FieldSpec) (ms : List (String × Json)) (a b : Option f.shape.Value) : Prop :=
  (f.valuesIn ms = [] ∧ b = a) ∨
    (a = none ∧ ∃ v x, f.valuesIn ms = [v] ∧ v.loadAs f.shape = .ok x ∧ b = some x)

theorem visited_cons_of_not_named {f : FieldSpec} {key : String} (h : f.named key = false)
    (v : Json) (ms : List (String × Json)) (a b : Option f.shape.Value) :
    f.Visited ((key, v) :: ms) a b ↔ f.Visited ms a b := by
  unfold Visited
  rw [valuesIn_cons_of_not_named h]

/-- A member that names a field fills its slot, and no other may. -/
theorem visited_cons_of_named {f : FieldSpec} {key : String} (h : f.named key = true) {v : Json}
    {x : f.shape.Value} (hx : v.loadAs f.shape = .ok x) (ms : List (String × Json))
    (b : Option f.shape.Value) :
    f.Visited ((key, v) :: ms) none b ↔ f.Visited ms (some x) b := by
  unfold Visited
  rw [valuesIn_cons_of_named h]
  constructor
  · rintro (⟨hv, -⟩ | ⟨-, w, y, hv, hy, rfl⟩)
    · cases hv
    · obtain ⟨rfl, hms⟩ := List.cons.inj hv
      rw [hx] at hy
      cases hy
      exact .inl ⟨hms, rfl⟩
  · rintro (⟨hms, rfl⟩ | ⟨hno, -⟩)
    · exact .inr ⟨rfl, v, x, by rw [hms], hx, rfl⟩
    · cases hno

end FieldSpec

namespace Node

/-- A member that names a field with a free slot is loaded in the shape of the field. -/
theorem visit_cons_of_find {fs : List FieldSpec} {key : String} {q : Place fs}
    (hq : Place.find? fs key = some q) {s : Slots fs} (hs : s.get q = none) (v : Json)
    (rest : List (String × Json)) :
    visit fs s ((key, v) :: rest) = match v.loadAs q.field.shape with
      | .error e => .error e
      | .ok x => visit fs (s.set q x) rest := by
  rw [visit, hq]
  show (if (s.get q).isSome = true then _ else _) = _
  rw [if_neg (by simp [hs])]
  rfl

/-- **A visit succeeds** exactly when the members lead every slot to where it is in the end. -/
theorem visit_eq_ok_iff {fs : List FieldSpec} (hfs : FieldSpec.Distinct fs) {s t : Slots fs}
    {ms : List (String × Json)} :
    visit fs s ms = .ok t ↔ ∀ p : Place fs, p.field.Visited ms (s.get p) (t.get p) := by
  induction ms generalizing s with
  | nil =>
    rw [visit]
    constructor
    · intro h p
      cases h
      exact .inl ⟨rfl, rfl⟩
    · intro h
      refine congrArg Except.ok (Slots.ext fun p => ?_)
      rcases h p with ⟨-, hp⟩ | ⟨-, v, x, hv, -⟩
      · exact hp.symm
      · cases hv
  | cons m rest ih =>
    obtain ⟨key, v⟩ := m
    cases hq : Place.find? fs key with
    | none =>
      have hno := Place.find?_eq_none_iff.mp hq
      rw [visit, hq]
      show visit fs s rest = .ok t ↔ _
      rw [ih]
      exact forall_congr' fun p =>
        (FieldSpec.visited_cons_of_not_named (hno p) v rest _ _).symm
    | some q =>
      have hnamed := (Place.find?_eq_some_iff hfs).mp hq
      have hothers : ∀ p, p ≠ q → p.field.named key = false := by
        intro p hp
        refine Bool.eq_false_iff.mpr fun h => hp ?_
        have hpq := (Place.find?_eq_some_iff hfs).mpr h
        exact Option.some.inj (hpq.symm.trans hq)
      cases hs : s.get q with
      | some y =>
        -- the slot is taken: the visit stops, and no member may name the field
        rw [visit, hq]
        show (if (s.get q).isSome = true then _ else _) = _ ↔ _
        rw [if_pos (by simp [hs])]
        refine ⟨fun h => (by cases h), fun h => ?_⟩
        rcases h q with ⟨hv, -⟩ | ⟨hno, -⟩
        · rw [FieldSpec.valuesIn_cons_of_named hnamed] at hv
          cases hv
        · rw [hs] at hno
          cases hno
      | none =>
        rw [visit_cons_of_find hq hs]
        cases hx : v.loadAs q.field.shape with
        | error e =>
          refine ⟨fun h => (by cases h), fun h => ?_⟩
          rcases h q with ⟨hv, -⟩ | ⟨-, w, y, hv, hy, -⟩
          · rw [FieldSpec.valuesIn_cons_of_named hnamed] at hv
            cases hv
          · rw [FieldSpec.valuesIn_cons_of_named hnamed] at hv
            rw [← (List.cons.inj hv).1, hx] at hy
            cases hy
        | ok x =>
          show visit fs (s.set q x) rest = .ok t ↔ _
          rw [ih]
          refine forall_congr' fun p => ?_
          by_cases hp : p = q
          · subst hp
            rw [Slots.get_set_self, hs]
            exact (FieldSpec.visited_cons_of_named hnamed hx rest _).symm
          · rw [Slots.get_set_of_ne s hp]
            exact (FieldSpec.visited_cons_of_not_named (hothers p hp) v rest _ _).symm

end Node

/-! ## §4. Fields. -/

/-- The members give a field its value: none names it and the value is its default, or one does and
holds the value. -/
def FieldSpec.Found (f : FieldSpec) (ms : List (String × Json)) (x : f.shape.Value) : Prop :=
  (f.valuesIn ms = [] ∧ f.absent = some x) ∨ ∃ v, f.valuesIn ms = [v] ∧ v.loadAs f.shape = .ok x

/-- **The fields of an object are loaded** exactly when each is found. -/
theorem Node.exists_visit_iff {fs : List FieldSpec} (hfs : FieldSpec.Distinct fs)
    {ms : List (String × Json)} {xs : Values fs} :
    (∃ t, visit fs (.empty fs) ms = .ok t ∧ t.complete = .ok xs) ↔
      ∀ p : Place fs, p.field.Found ms (xs.get p) := by
  constructor
  · rintro ⟨t, ht, hxs⟩ p
    have hvisited := (visit_eq_ok_iff hfs).mp ht p
    have hvalue := Slots.complete_eq_ok_iff.mp hxs p
    rw [Slots.get_empty] at hvisited
    rcases hvisited with ⟨hv, hb⟩ | ⟨-, v, x, hv, hx, hb⟩
    · rw [hb, Option.none_or] at hvalue
      exact .inl ⟨hv, hvalue⟩
    · rw [hb, Option.some_or] at hvalue
      exact .inr ⟨v, hv, hx.trans (congrArg _ (Option.some.inj hvalue))⟩
  · intro h
    -- a slot is filled where a member names the field
    refine ⟨.ofFn fun p => if p.field.valuesIn ms = [] then none else some (xs.get p), ?_, ?_⟩
    · refine (visit_eq_ok_iff hfs).mpr fun p => ?_
      rw [Slots.get_empty, Slots.get_ofFn]
      rcases h p with ⟨hv, -⟩ | ⟨v, hv, hx⟩
      · exact .inl ⟨hv, if_pos hv⟩
      · exact .inr ⟨rfl, v, xs.get p, hv, hx, if_neg (by simp [hv])⟩
    · refine Slots.complete_eq_ok_iff.mpr fun p => ?_
      rw [Slots.get_ofFn]
      rcases h p with ⟨hv, habsent⟩ | ⟨v, hv, -⟩
      · rw [if_pos hv, Option.none_or, habsent]
      · rw [if_neg (by simp [hv]), Option.some_or]

/-! ## §5. Objects. -/

namespace Kind

variable {read : Json → Except LoadError Kind} {ms : List (String × Json)}

/-- After the tag no other may follow. -/
theorem ofMembers_some_eq_ok_iff {k : Kind} {found : Option Kind} :
    ofMembers read (some k) ms = .ok found ↔
      found = some k ∧ Json.valuesAt (· == "type") ms = [] := by
  induction ms with
  | nil => simp [ofMembers, Json.valuesAt, eq_comm]
  | cons m rest ih =>
    obtain ⟨key, v⟩ := m
    rw [ofMembers]
    by_cases hkey : key = "type"
    · simp [hkey, Json.valuesAt]
    · rw [if_neg hkey, ih]
      simp [hkey, Json.valuesAt]

/-- **The tag** is the one value under its key, and selects the kind. -/
theorem ofMembers_eq_ok_some_iff {k : Kind} :
    ofMembers read none ms = .ok (some k) ↔
      ∃ t, Json.valuesAt (· == "type") ms = [t] ∧ read t = .ok k := by
  induction ms with
  | nil => simp [ofMembers, Json.valuesAt]
  | cons m rest ih =>
    obtain ⟨key, v⟩ := m
    rw [ofMembers]
    by_cases hkey : key = "type"
    · have hvalues : Json.valuesAt (· == "type") ((key, v) :: rest)
          = v :: Json.valuesAt (· == "type") rest := by
        simp [hkey, Json.valuesAt]
      rw [if_pos hkey, hvalues]
      cases hv : read v with
      | error e =>
        simp only [List.cons.injEq, reduceCtorEq, false_iff]
        rintro ⟨t, ⟨rfl, -⟩, ht⟩
        rw [hv] at ht
        cases ht
      | ok l =>
        -- after the first tag there must be none
        refine ofMembers_some_eq_ok_iff.trans ⟨?_, ?_⟩
        · rintro ⟨hlk, hrest⟩
          cases hlk
          exact ⟨v, by rw [hrest], hv⟩
        · rintro ⟨t, ht, hk⟩
          obtain ⟨rfl, hrest⟩ := List.cons.inj ht
          rw [hv] at hk
          cases hk
          exact ⟨rfl, hrest⟩
    · rw [if_neg hkey, ih]
      simp [hkey, Json.valuesAt]

/-- No kind is selected when there is no tag. -/
theorem ofMembers_eq_ok_none_iff :
    ofMembers read none ms = .ok none ↔ Json.valuesAt (· == "type") ms = [] := by
  induction ms with
  | nil => simp [ofMembers, Json.valuesAt]
  | cons m rest ih =>
    obtain ⟨key, v⟩ := m
    rw [ofMembers]
    by_cases hkey : key = "type"
    · rw [if_pos hkey]
      cases read v with
      | error e => simp [hkey, Json.valuesAt]
      | ok l => simp [hkey, Json.valuesAt, ofMembers_some_eq_ok_iff]
    · rw [if_neg hkey, ih]
      simp [hkey, Json.valuesAt]

end Kind

/-- An object with a tag is loaded by the schema of its kind. -/
theorem Node.ofJson_object {ms : List (String × Json)} {k : Kind}
    (hk : Kind.ofMembers Kind.ofInnerTagJson none ms = .ok (some k)) :
    ofJson (.object ms) = (visit k.schema.fields (.empty _) ms).bind fun t =>
      t.complete.map k.schema.build := by
  simp only [ofJson, hk]
  cases visit k.schema.fields (.empty _) ms <;> rfl

/-- The root of a tree is loaded as any other node once its tag is known to be a text. -/
theorem Node.ofRoot_object (ms : List (String × Json)) :
    ofRoot (.object ms)
      = (Kind.ofMembers Kind.ofTagJson none ms).bind fun _ => ofJson (.object ms) := by
  unfold ofRoot
  simp only
  cases Kind.ofMembers Kind.ofTagJson none ms <;> rfl

/-- A record is loaded by its own schema. -/
theorem Node.recordOfJson_object (r : RecordType) (ms : List (String × Json)) :
    recordOfJson r (.object ms) = (visit r.schema.fields (.empty _) ms).bind fun t =>
      t.complete.map r.schema.build := by
  rw [recordOfJson]
  cases visit r.schema.fields (.empty _) ms <;> rfl

end Estree
