import Estree.Proofs.Presentation.Loading

/-!
# The order of keys

Two values are `Reordered` when they differ in the order of the members of their objects only, at
any depth. Loading a value succeeds or not, and with the same result, whatever that order is
(`Reordered.loadsAlike`), and the canonical form of a value in which no object repeats a key is one
of its orders (`reordered_canonical`). So loading a value as it stands and loading it with its keys
sorted give the same nodes (`Node.ofRoot_eq_ok_iff_ofValue`).

A fault is another matter: which one is reported depends on the order, and none of this is about it.

Main results:

* `Json.reordered_canonical`: the canonical form is one of the orders of a value.
* `Json.Reordered.loadsAlike`: every order loads alike.
* `Node.ofRoot_eq_ok_iff_ofValue`: sorting the keys does not matter.
-/

namespace Estree

namespace Json

/-! ## §1. Values without repeated keys. -/

mutual

/-- No object repeats a key, at any depth. -/
def UniqueKeys : Json → Prop
  | .array items => UniqueKeysItems items
  | .object ms => (ms.map (·.1)).Nodup ∧ UniqueKeysMembers ms
  | _ => True

def UniqueKeysItems : List Json → Prop
  | [] => True
  | v :: rest => UniqueKeys v ∧ UniqueKeysItems rest

def UniqueKeysMembers : List (String × Json) → Prop
  | [] => True
  | (_, v) :: rest => UniqueKeys v ∧ UniqueKeysMembers rest

end

/-- No key occurs twice in a list when none does in its items. -/
theorem uniqueKeys_array_iff {items : List Json} :
    UniqueKeys (.array items) ↔ ∀ x ∈ items, x.UniqueKeys := by
  rw [UniqueKeys]
  induction items with
  | nil => simp [UniqueKeysItems]
  | cons v rest ih => rw [UniqueKeysItems, ih, List.forall_mem_cons]

/-- Nor in an object when its own keys are different and none does in its members. -/
theorem uniqueKeys_object_iff {ms : List (String × Json)} :
    UniqueKeys (.object ms) ↔ (ms.map (·.1)).Nodup ∧ ∀ m ∈ ms, m.2.UniqueKeys := by
  have hmembers : UniqueKeysMembers ms ↔ ∀ m ∈ ms, m.2.UniqueKeys := by
    induction ms with
    | nil => simp [UniqueKeysMembers]
    | cons m rest ih => rw [UniqueKeysMembers, ih, List.forall_mem_cons]
  rw [UniqueKeys, hmembers]

/-- Two values that differ in the order of the members of their objects only. A part of an array is
an item and what it becomes; a part of an object is a key, its value and what that becomes. -/
inductive Reordered : Json → Json → Prop where
  | refl (v : Json) : Reordered v v
  | array {parts : List (Json × Json)} (h : ∀ p ∈ parts, Reordered p.1 p.2) :
      Reordered (.array (parts.map (·.1))) (.array (parts.map (·.2)))
  | object {parts : List (String × Json × Json)} {ms : List (String × Json)}
      (h : ∀ p ∈ parts, Reordered p.2.1 p.2.2) (hms : (parts.map fun p => (p.1, p.2.2)).Perm ms) :
      Reordered (.object (parts.map fun p => (p.1, p.2.1))) (.object ms)

/-! ## §2. The canonical form as an order. -/

/-- A member with a new key is put somewhere. -/
theorem putMember_perm {k : String} {acc : List (String × Json)} (h : k ∉ acc.map (·.1))
    (v : Json) : (putMember k v acc).Perm ((k, v) :: acc) := by
  induction acc with
  | nil => rfl
  | cons m rest ih =>
    obtain ⟨l, w⟩ := m
    rw [List.map_cons, List.mem_cons, not_or] at h
    unfold putMember
    split
    next => exact ((ih h.2).cons _).trans (.swap _ _ _)
    next =>
      rw [if_neg (Ne.symm h.1)]

/-- Where no key is repeated, nothing is lost in the canonical form. -/
theorem canonicalMembers_perm_append {acc ms : List (String × Json)}
    (h : ((acc ++ ms).map (·.1)).Nodup) :
    (canonicalMembers acc ms).Perm (acc ++ ms.map fun m => (m.1, m.2.canonical)) := by
  induction ms generalizing acc with
  | nil => simp [canonicalMembers]
  | cons m rest ih =>
    obtain ⟨k, v⟩ := m
    have hkeys : (k :: (acc ++ rest).map (·.1)).Nodup := by
      refine (List.Perm.nodup_iff ?_).mp h
      simp only [List.map_append, List.map_cons]
      exact List.perm_middle
    have hk : k ∉ acc.map (·.1) := fun hm => (List.nodup_cons.mp hkeys).1 (by
      rw [List.map_append]
      exact List.mem_append_left _ hm)
    have hput := putMember_perm hk v.canonical
    have hnext : ((putMember k v.canonical acc ++ rest).map (·.1)).Nodup :=
      ((hput.append_right rest).map _).nodup_iff.mpr hkeys
    rw [canonicalMembers, List.map_cons]
    exact ((ih hnext).trans (hput.append_right _)).trans List.perm_middle.symm

/-- Members with different keys are only put into another order. -/
theorem canonicalMembers_perm {ms : List (String × Json)} (h : (ms.map (·.1)).Nodup) :
    (canonicalMembers [] ms).Perm (ms.map fun m => (m.1, m.2.canonical)) := by
  have h := canonicalMembers_perm_append ((List.nil_append ms).symm ▸ h)
  rwa [List.nil_append] at h

/-- Sorted members are determined by what they are. -/
theorem Sorted.eq_of_perm {ms ns : List (String × Json)} (hms : Sorted ms) (hns : Sorted ns)
    (h : ms.Perm ns) : ms = ns := by
  refine List.Perm.eq_of_pairwise (fun a b _ _ hab hba => ?_) hms hns h
  exact absurd (String.lt_trans hab hba) (String.lt_irrefl _)

/-- Every item may be replaced by an order of its own. -/
theorem Reordered.array_map {items : List Json} {g : Json → Json}
    (h : ∀ x ∈ items, x.Reordered (g x)) : Reordered (.array items) (.array (items.map g)) := by
  have hparts : ∀ p ∈ items.map fun x => (x, g x), Reordered p.1 p.2 := by
    intro p hp
    obtain ⟨x, hx, rfl⟩ := List.mem_map.mp hp
    exact h x hx
  simpa [Function.comp_def] using Reordered.array hparts

/-- Members may be reordered inside and then among themselves. -/
theorem Reordered.object_map {ms ns : List (String × Json)} {g : Json → Json}
    (h : ∀ m ∈ ms, m.2.Reordered (g m.2)) (hns : (ms.map fun m => (m.1, g m.2)).Perm ns) :
    Reordered (.object ms) (.object ns) := by
  have hparts : ∀ p ∈ ms.map fun m => (m.1, m.2, g m.2), Reordered p.2.1 p.2.2 := by
    intro p hp
    obtain ⟨m, hm, rfl⟩ := List.mem_map.mp hp
    exact h m hm
  have hperm : ((ms.map fun m => (m.1, m.2, g m.2)).map fun p => (p.1, p.2.2)).Perm ns := by
    rwa [List.map_map]
  simpa [Function.comp_def] using Reordered.object hparts hperm

/-- **The canonical form** of a value without repeated keys is one of its orders. -/
theorem reordered_canonical {v : Json} (hv : v.UniqueKeys) : v.Reordered v.canonical := by
  cases v with
  | array items =>
    rw [canonical, canonicalItems_eq_map]
    refine .array_map fun x hx => ?_
    have := sizeOf_item_lt hx
    exact reordered_canonical (uniqueKeys_array_iff.mp hv x hx)
  | object ms =>
    obtain ⟨hkeys, hvalues⟩ := uniqueKeys_object_iff.mp hv
    refine .object_map (fun m hm => ?_) (canonicalMembers_perm hkeys).symm
    have : sizeOf m.2 < sizeOf (object ms) := sizeOf_lt_of_mem hm
    exact reordered_canonical (hvalues m hm)
  | _ => exact .refl _
termination_by sizeOf v

/-! ## §3. Values that load alike. -/

/-- Two values load with the same results, whatever is looked for. -/
def LoadsAlike (v w : Json) : Prop :=
  ∀ (s : Shape) (y : s.Value), v.loadAs s = .ok y ↔ w.loadAs s = .ok y

/-- Values that load alike have one canonical form. -/
theorem LoadsAlike.canonical_eq {v w : Json} (h : v.LoadsAlike w) : v.canonical = w.canonical :=
  (Except.ok.inj ((h .json v.canonical).mp rfl)).symm

/-- They select the same kinds as tags of a root. -/
theorem LoadsAlike.ofTagJson {v w : Json} (h : v.LoadsAlike w) (k : Kind) :
    Kind.ofTagJson v = .ok k ↔ Kind.ofTagJson w = .ok k := by
  rw [Kind.ofTagJson_eq_ok_iff, Kind.ofTagJson_eq_ok_iff, ← canonical_eq_string_iff,
    h.canonical_eq, canonical_eq_string_iff]

/-- They select the same kinds as tags inside a node. -/
theorem LoadsAlike.ofInnerTagJson {v w : Json} (h : v.LoadsAlike w) (k : Kind) :
    Kind.ofInnerTagJson v = .ok k ↔ Kind.ofInnerTagJson w = .ok k := by
  rw [Kind.ofInnerTagJson_eq_ok_iff, Kind.ofInnerTagJson_eq_ok_iff, ← canonical_eq_string_iff,
    ← canonical_eq_number_iff, h.canonical_eq, canonical_eq_string_iff, canonical_eq_number_iff]

end Json

/-! ## §4. Objects. -/

namespace Json

variable {parts : List (String × Json × Json)} {ms : List (String × Json)}

/-- Under any keys the members before and after have no value each, or one each and these load
alike, or several each. -/
theorem valuesAt_reordered (h : ∀ p ∈ parts, p.2.1.LoadsAlike p.2.2)
    (hms : (parts.map fun p => (p.1, p.2.2)).Perm ms) (sel : String → Bool) :
    (valuesAt sel (parts.map fun p => (p.1, p.2.1)) = [] ∧ valuesAt sel ms = []) ∨
      (∃ v w, valuesAt sel (parts.map fun p => (p.1, p.2.1)) = [v] ∧ valuesAt sel ms = [w] ∧
        v.LoadsAlike w) ∨
      (1 < (valuesAt sel (parts.map fun p => (p.1, p.2.1))).length ∧
        1 < (valuesAt sel ms).length) := by
  have hleft : valuesAt sel (parts.map fun p => (p.1, p.2.1))
      = (parts.filter fun p => sel p.1).map (·.2.1) := by
    simp [valuesAt, List.filter_map, Function.comp_def]
  have hright : ((parts.filter fun p => sel p.1).map (·.2.2)).Perm (valuesAt sel ms) := by
    have := (hms.filter fun m => sel m.1).map (·.2)
    simpa [valuesAt, List.filter_map, Function.comp_def] using this
  rw [hleft]
  -- the order only matters to several values, and these are only counted
  cases hqs : parts.filter fun p => sel p.1 with
  | nil =>
    rw [hqs] at hright
    exact .inl ⟨rfl, List.Perm.nil_eq hright |>.symm⟩
  | cons p qs =>
    rw [hqs] at hright
    cases qs with
    | nil =>
      have hp : p ∈ parts := (List.mem_filter.mp (hqs ▸ List.mem_cons_self)).1
      exact .inr (.inl ⟨p.2.1, p.2.2, rfl, (List.singleton_perm.mp hright).symm, h p hp⟩)
    | cons q qs =>
      have hlength := hright.length_eq
      simp only [List.map_cons, List.length_cons] at hlength ⊢
      exact .inr (.inr ⟨by omega, by omega⟩)

end Json

namespace FieldSpec

variable {f : FieldSpec} {parts : List (String × Json × Json)} {ms : List (String × Json)}

/-- A field is found in any order of the members. -/
theorem found_reordered_iff (h : ∀ p ∈ parts, p.2.1.LoadsAlike p.2.2)
    (hms : (parts.map fun p => (p.1, p.2.2)).Perm ms) (x : f.shape.Value) :
    f.Found (parts.map fun p => (p.1, p.2.1)) x ↔ f.Found ms x := by
  unfold Found valuesIn
  rcases Json.valuesAt_reordered h hms f.named with ⟨hl, hr⟩ | ⟨v, w, hl, hr, hvw⟩ | ⟨hl, hr⟩
  · simp [hl, hr]
  · simp [hl, hr, hvw f.shape x]
  · constructor
    all_goals
      rintro (⟨hv, -⟩ | ⟨v, hv, -⟩)
      · simp [hv] at hl hr
      · simp [hv] at hl hr

end FieldSpec

/-- A tag is found in any order of the members. -/
theorem Kind.ofMembers_reordered_iff {parts : List (String × Json × Json)}
    {ms : List (String × Json)} {read : Json → Except LoadError Kind}
    (hread : ∀ v w : Json, v.LoadsAlike w → ∀ k, read v = .ok k ↔ read w = .ok k)
    (h : ∀ p ∈ parts, p.2.1.LoadsAlike p.2.2) (hms : (parts.map fun p => (p.1, p.2.2)).Perm ms)
    (k : Kind) : ofMembers read none (parts.map fun p => (p.1, p.2.1)) = .ok (some k) ↔
      ofMembers read none ms = .ok (some k) := by
  rw [ofMembers_eq_ok_some_iff, ofMembers_eq_ok_some_iff]
  rcases Json.valuesAt_reordered h hms (· == "type") with ⟨hl, hr⟩ | ⟨v, w, hl, hr, hvw⟩ | ⟨hl, hr⟩
  · simp [hl, hr]
  · simp [hl, hr, hread v w hvw]
  · exact ⟨fun ⟨t, ht, _⟩ => (by simp [ht] at hl), fun ⟨t, ht, _⟩ => (by simp [ht] at hr)⟩

/-! ## §5. Every order loads alike. -/

namespace Json

/-- A loader that goes through the items one by one does the same where the items load the same. -/
theorem loadAll_eq_ok_congr {α : Type} {load : Json → Except LoadError α}
    {loadAll : List Json → Except LoadError (List α)} (hnil : loadAll [] = .ok [])
    (hcons : ∀ v rest, loadAll (v :: rest) = (load v).bind fun a => (loadAll rest).map (a :: ·))
    {parts : List (Json × Json)} (h : ∀ p ∈ parts, ∀ a, load p.1 = .ok a ↔ load p.2 = .ok a)
    (as : List α) : loadAll (parts.map (·.1)) = .ok as ↔ loadAll (parts.map (·.2)) = .ok as := by
  rw [items_eq_ok_iff hnil hcons, items_eq_ok_iff hnil hcons, List.forall₂_map_right_iff,
    List.forall₂_map_right_iff]
  exact ⟨fun hl => forall₂_imp_of_mem hl fun a p hp => (h p hp a).mp,
    fun hr => forall₂_imp_of_mem hr fun a p hp => (h p hp a).mpr⟩

/-- They load as the same node. -/
theorem LoadsAlike.ofJson {v w : Json} (h : v.LoadsAlike w) (n : Node) :
    Node.ofJson v = .ok n ↔ Node.ofJson w = .ok n := h .node n

/-- Lists of values that load alike. -/
theorem LoadsAlike.array {parts : List (Json × Json)} (h : ∀ p ∈ parts, p.1.LoadsAlike p.2) :
    LoadsAlike (.array (parts.map (·.1))) (.array (parts.map (·.2))) := by
  intro s y
  cases s with
  | nodes | nodes? =>
    exact loadAll_eq_ok_congr Node.listOfItems.eq_1 Node.listOfItems_cons
      (fun p hp => (h p hp).ofJson) y
  | holes =>
    refine loadAll_eq_ok_congr Node.holesOfItems.eq_1 Node.holesOfItems_cons (fun p hp n => ?_) y
    rw [Node.holeOfJson_eq_loadAs, Node.holeOfJson_eq_loadAs]
    exact h p hp .node? n
  | records r =>
    exact loadAll_eq_ok_congr (Node.recordsOfItems.eq_1 r) (Node.recordsOfItems_cons r)
      (fun p hp => h p hp (.record r)) y
  | json =>
    -- a value that is kept as it is, is kept in its canonical form
    have hcanonical : (parts.map (·.1)).map canonical = (parts.map (·.2)).map canonical := by
      simp only [List.map_map]
      exact List.map_congr_left fun p hp => (h p hp).canonical_eq
    show Except.ok (canonical _) = _ ↔ Except.ok (canonical _) = _
    rw [canonical, canonical, canonicalItems_eq_map, canonicalItems_eq_map, hcanonical]
  | _ => exact Iff.rfl

section Object

variable {parts : List (String × Json × Json)} {ms : List (String × Json)}

/-- Objects that differ in the order of members and inside of them load as the same node. -/
theorem ofJson_reordered_iff (h : ∀ p ∈ parts, p.2.1.LoadsAlike p.2.2)
    (hms : (parts.map fun p => (p.1, p.2.2)).Perm ms) (n : Node) :
    Node.ofJson (.object (parts.map fun p => (p.1, p.2.1))) = .ok n ↔
      Node.ofJson (.object ms) = .ok n := by
  have htag := Kind.ofMembers_reordered_iff (fun v w hvw => hvw.ofInnerTagJson) h hms
  rw [Node.ofJson_object_eq_ok_iff, Node.ofJson_object_eq_ok_iff]
  refine and_congr (htag n.kind) (exists_congr fun xs => and_congr_right fun _ => ?_)
  exact forall_congr' fun p => FieldSpec.found_reordered_iff h hms _

/-- Objects that differ in the order of members and inside of them load as the same record. -/
theorem recordOfJson_reordered_iff (h : ∀ p ∈ parts, p.2.1.LoadsAlike p.2.2)
    (hms : (parts.map fun p => (p.1, p.2.2)).Perm ms) (r : RecordType) (y : r.Value) :
    Node.recordOfJson r (.object (parts.map fun p => (p.1, p.2.1))) = .ok y ↔
      Node.recordOfJson r (.object ms) = .ok y := by
  rw [Node.recordOfJson_object_eq_ok_iff, Node.recordOfJson_object_eq_ok_iff]
  refine exists_congr fun xs => and_congr_right fun _ => ?_
  exact forall_congr' fun p => FieldSpec.found_reordered_iff h hms _

/-- Without repeated keys the canonical form does not depend on the order. -/
theorem canonicalMembers_reordered (hkeys : (parts.map (·.1)).Nodup)
    (h : ∀ p ∈ parts, p.2.1.LoadsAlike p.2.2) (hms : (parts.map fun p => (p.1, p.2.2)).Perm ms) :
    canonicalMembers [] (parts.map fun p => (p.1, p.2.1)) = canonicalMembers [] ms := by
  have hleft : ((parts.map fun p => (p.1, p.2.1)).map (·.1)).Nodup := by
    rwa [List.map_map]
  have hright : (ms.map (·.1)).Nodup := by
    refine (hms.map (·.1)).nodup_iff.mp ?_
    rwa [List.map_map]
  have hvalues : (parts.map fun p => (p.1, p.2.1)).map (fun m => (m.1, m.2.canonical))
      = (parts.map fun p => (p.1, p.2.2)).map (fun m => (m.1, m.2.canonical)) := by
    simp only [List.map_map]
    exact List.map_congr_left fun p hp => congrArg (Prod.mk p.1) (h p hp).canonical_eq
  -- both are sorted, so it is enough that they have the same members
  refine (sorted_canonicalMembers .nil _).eq_of_perm (sorted_canonicalMembers .nil _) ?_
  have hperm := canonicalMembers_perm hleft
  rw [hvalues] at hperm
  exact (hperm.trans (hms.map _)).trans (canonicalMembers_perm hright).symm

/-- So such objects load alike. -/
theorem LoadsAlike.object (hkeys : (parts.map (·.1)).Nodup)
    (h : ∀ p ∈ parts, p.2.1.LoadsAlike p.2.2) (hms : (parts.map fun p => (p.1, p.2.2)).Perm ms) :
    LoadsAlike (.object (parts.map fun p => (p.1, p.2.1))) (.object ms) := by
  have hnode := ofJson_reordered_iff h hms
  intro s y
  cases s with
  | node => exact hnode y
  | node? => exact map_eq_ok_congr hnode some y
  | record r => exact recordOfJson_reordered_iff h hms r y
  | record? r => exact map_eq_ok_congr (recordOfJson_reordered_iff h hms r) some y
  | json =>
    have hcanonical := canonicalMembers_reordered hkeys h hms
    show Except.ok (canonical _) = _ ↔ Except.ok (canonical _) = _
    rw [canonical, canonical, hcanonical]
  | typeParameterName =>
    -- an object is no text, so it is the name if it is a node
    unfold loadAs Shape.load
    simp only [readings]
    cases hl : Node.ofJson (.object (parts.map fun p => (p.1, p.2.1))) with
    | ok n => rw [(hnode n).mp hl]
    | error e =>
      cases hr : Node.ofJson (.object ms) with
      | ok n =>
        rw [(hnode n).mpr hr] at hl
        cases hl
      | error e' => exact Iff.rfl
  | _ => exact Iff.rfl

end Object

/-- **Every order loads alike**, where no object repeats a key. -/
theorem Reordered.loadsAlike {v w : Json} (h : v.Reordered w) (hv : v.UniqueKeys) :
    v.LoadsAlike w := by
  induction h with
  | refl v => exact fun _ _ => Iff.rfl
  | array _ ih =>
    have hitems := uniqueKeys_array_iff.mp hv
    exact .array fun p hp => ih p hp (hitems _ (List.mem_map_of_mem hp))
  | object _ hms ih =>
    obtain ⟨hkeys, hvalues⟩ := uniqueKeys_object_iff.mp hv
    rw [List.map_map] at hkeys
    exact .object hkeys (fun p hp => ih p hp (hvalues _ (List.mem_map_of_mem hp))) hms

end Json

/-- The root of a tree loads in any order of its keys. -/
theorem Node.ofRoot_eq_ok_iff_of_reordered {v w : Json} (h : v.Reordered w) (hv : v.UniqueKeys)
    (n : Node) : ofRoot v = .ok n ↔ ofRoot w = .ok n := by
  have hloads := (h.loadsAlike hv).ofJson n
  cases h with
  | refl v => exact Iff.rfl
  | array h => exact hloads
  | @object parts ms h hms =>
    obtain ⟨-, hvalues⟩ := Json.uniqueKeys_object_iff.mp hv
    have halike : ∀ p ∈ parts, p.2.1.LoadsAlike p.2.2 := fun p hp =>
      (h p hp).loadsAlike (hvalues _ (List.mem_map_of_mem hp))
    have htag := Kind.ofMembers_reordered_iff (fun v w hvw => hvw.ofTagJson) halike hms n.kind
    rw [ofRoot_object_eq_ok_iff, ofRoot_object_eq_ok_iff, htag, hloads]

/-- **Sorting the keys** changes neither whether a value loads nor which node it loads as. -/
theorem Node.ofRoot_eq_ok_iff_ofValue {v : Json} (hv : v.UniqueKeys) (n : Node) :
    ofRoot v = .ok n ↔ ofValue v = .ok n :=
  ofRoot_eq_ok_iff_of_reordered (Json.reordered_canonical hv) hv n

end Estree
