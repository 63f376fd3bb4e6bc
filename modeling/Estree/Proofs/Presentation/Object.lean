import Estree.Json.Value

/-!
# Objects as maps

An object that is taken as a value has one value under a key, the last one given
(`Json.field?`). The canonical form keeps that view: its keys are sorted, so none is repeated, and
under each key stands the canonical form of the value (`lookup_canonicalMembers`). Taking the
canonical form twice changes nothing (`canonical_canonical`).

Main results:

* `Json.lookup_canonicalMembers`: what stands under a key of the canonical form.
* `Json.canonical_canonical`: the canonical form is its own.
-/

namespace Estree

namespace Json

/-! ## §1. The value under a key. -/

/-- The last value under a key among members. -/
def lastOf (k : String) : List (String × Json) → Option Json
  | [] => none
  | (l, v) :: rest => (lastOf k rest).or (if l = k then some v else none)

/-- The value of an object under a key. -/
def field? (k : String) : Json → Option Json
  | .object members => lastOf k members
  | _ => none

/-- The member that counts is one of the members. -/
theorem mem_of_lastOf {k : String} {ms : List (String × Json)} {v : Json}
    (h : lastOf k ms = some v) : (k, v) ∈ ms := by
  induction ms with
  | nil => cases h
  | cons m rest ih =>
    obtain ⟨l, w⟩ := m
    rcases Option.or_eq_some_iff.mp h with h | ⟨-, h⟩
    · exact List.mem_cons_of_mem _ (ih h)
    · split at h
      next hlk =>
        cases h
        rw [hlk]
        exact List.mem_cons_self
      next => cases h

/-- A member is smaller than its object. -/
theorem sizeOf_lt_of_mem {ms : List (String × Json)} {k : String} {v : Json} (h : (k, v) ∈ ms) :
    sizeOf v < sizeOf (Json.object ms) := by
  have hm := List.sizeOf_lt_of_mem h
  simp only [Prod.mk.sizeOf_spec, object.sizeOf_spec] at hm ⊢
  omega

/-- What stands under a key is smaller than the object. -/
theorem sizeOf_field?_lt {k : String} {v x : Json} (h : v.field? k = some x) :
    sizeOf x < sizeOf v := by
  cases v with
  | object ms => exact sizeOf_lt_of_mem (mem_of_lastOf h)
  | _ => cases h

/-- An item is smaller than its list. -/
theorem sizeOf_item_lt {items : List Json} {x : Json} (h : x ∈ items) :
    sizeOf x < sizeOf (Json.array items) := by
  have hx := List.sizeOf_lt_of_mem h
  simp only [array.sizeOf_spec]
  omega

/-! ## §2. Sorted members. -/

/-- The keys are in strictly ascending order. -/
def Sorted (ms : List (String × Json)) : Prop := ms.Pairwise fun a b => a.1 < b.1

/-- A member that was put is found. -/
theorem lookup_putMember_self (k : String) (v : Json) (ms : List (String × Json)) :
    (putMember k v ms).lookup k = some v := by
  induction ms with
  | nil => simp [putMember]
  | cons m rest ih =>
    obtain ⟨l, w⟩ := m
    unfold putMember
    split
    next hlk =>
      have hne : k ≠ l := fun h => String.lt_irrefl l (h ▸ hlk)
      rw [List.lookup_cons, beq_eq_false_iff_ne.mpr hne]
      exact ih
    next => split <;> simp

/-- The others are found as before. -/
theorem lookup_putMember_of_ne {k l : String} (h : l ≠ k) (v : Json) (ms : List (String × Json)) :
    (putMember k v ms).lookup l = ms.lookup l := by
  have hk : (l == k) = false := beq_eq_false_iff_ne.mpr h
  induction ms with
  | nil => simp [putMember, List.lookup_cons, hk]
  | cons m rest ih =>
    obtain ⟨j, w⟩ := m
    unfold putMember
    split
    next => rw [List.lookup_cons, List.lookup_cons, ih]
    next =>
      split
      next hjk => rw [List.lookup_cons, List.lookup_cons, hk, hjk, hk]
      next => rw [List.lookup_cons, hk]

/-- No other member is added. -/
theorem mem_putMember {k : String} {v : Json} {ms : List (String × Json)} {m : String × Json}
    (h : m ∈ putMember k v ms) : m = (k, v) ∨ m ∈ ms := by
  induction ms with
  | nil => exact .inl (List.mem_singleton.mp h)
  | cons n rest ih =>
    unfold putMember at h
    split at h
    next =>
      rcases List.mem_cons.mp h with h | h
      · exact .inr (h ▸ List.mem_cons_self)
      · exact (ih h).imp_right (List.mem_cons_of_mem _)
    next =>
      split at h
      next => exact (List.mem_cons.mp h).imp_right (List.mem_cons_of_mem _)
      next => exact List.mem_cons.mp h

/-- Putting a member keeps the order. -/
theorem Sorted.putMember {ms : List (String × Json)} (h : Sorted ms) (k : String) (v : Json) :
    Sorted (putMember k v ms) := by
  induction ms with
  | nil => exact List.pairwise_singleton _ _
  | cons m rest ih =>
    obtain ⟨l, w⟩ := m
    obtain ⟨hl, hrest⟩ := List.pairwise_cons.mp h
    unfold Json.putMember
    split
    next hlk =>
      -- the new member goes further back, and is larger than the first
      refine List.pairwise_cons.mpr ⟨fun m hm => ?_, ih hrest⟩
      rcases mem_putMember hm with rfl | hm
      · exact hlk
      · exact hl m hm
    next hlk =>
      split
      next hlk =>
        subst hlk
        exact List.pairwise_cons.mpr ⟨hl, hrest⟩
      next hne =>
        -- otherwise it goes to the front, before everything that is there
        have hkl : k < l := by
          rcases Std.lt_trichotomy l k with h | h | h
          · exact absurd h hlk
          · exact absurd h hne
          · exact h
        refine List.pairwise_cons.mpr ⟨fun m hm => ?_, h⟩
        rcases List.mem_cons.mp hm with rfl | hm
        · exact hkl
        · exact String.lt_trans hkl (hl m hm)

/-- Among sorted members a key stands once. -/
theorem Sorted.lookup_eq_some_iff {ms : List (String × Json)} (h : Sorted ms) {k : String}
    {v : Json} : ms.lookup k = some v ↔ (k, v) ∈ ms := by
  induction ms with
  | nil => simp
  | cons m rest ih =>
    obtain ⟨l, w⟩ := m
    obtain ⟨hl, hrest⟩ := List.pairwise_cons.mp h
    rw [List.lookup_cons, List.mem_cons, Prod.mk.injEq]
    by_cases hkl : k = l
    · subst hkl
      have hno : (k, v) ∉ rest := fun hm => String.lt_irrefl k (hl _ hm)
      simp [hno, eq_comm]
    · simp [beq_eq_false_iff_ne.mpr hkl, hkl, ih hrest]

/-! ## §3. The canonical form. -/

/-- So the members of a canonical object are in order. -/
theorem sorted_canonicalMembers {acc : List (String × Json)} (h : Sorted acc)
    (ms : List (String × Json)) : Sorted (canonicalMembers acc ms) := by
  induction ms generalizing acc with
  | nil => exact h
  | cons m rest ih => exact ih (h.putMember _ _)

/-- Under each key of the canonical form stands the canonical form of the value. -/
theorem lookup_canonicalMembers (k : String) (acc ms : List (String × Json)) :
    (canonicalMembers acc ms).lookup k = ((lastOf k ms).map canonical).or (acc.lookup k) := by
  induction ms generalizing acc with
  | nil => simp [canonicalMembers, lastOf]
  | cons m rest ih =>
    obtain ⟨l, v⟩ := m
    rw [canonicalMembers, ih, lastOf]
    cases lastOf k rest with
    | some w => simp
    | none =>
      by_cases hlk : l = k
      · subst hlk
        simp [lookup_putMember_self]
      · simp [lookup_putMember_of_ne (Ne.symm hlk), hlk]

/-- A member with the largest key comes last. -/
theorem putMember_of_lt {acc : List (String × Json)} {k : String} (h : ∀ m ∈ acc, m.1 < k)
    (v : Json) : putMember k v acc = acc ++ [(k, v)] := by
  induction acc with
  | nil => rfl
  | cons m rest ih =>
    rw [putMember, if_pos (h m List.mem_cons_self), ih fun n hn => h n (List.mem_cons_of_mem _ hn)]
    rfl

/-- Sorted members in canonical form stay where they are. -/
theorem canonicalMembers_of_sorted {acc ms : List (String × Json)} (h : Sorted (acc ++ ms))
    (hms : ∀ m ∈ ms, m.2.canonical = m.2) : canonicalMembers acc ms = acc ++ ms := by
  induction ms generalizing acc with
  | nil => simp [canonicalMembers]
  | cons m rest ih =>
    obtain ⟨k, v⟩ := m
    have hacc : ∀ m ∈ acc, m.1 < k := fun m hm =>
      (List.pairwise_append.mp h).2.2 m hm (k, v) List.mem_cons_self
    rw [canonicalMembers, hms (k, v) List.mem_cons_self, putMember_of_lt hacc]
    have happ : acc ++ [(k, v)] ++ rest = acc ++ (k, v) :: rest := by simp
    rw [ih (happ ▸ h) fun n hn => hms n (List.mem_cons_of_mem _ hn), happ]

mutual

/-- The canonical form is in canonical form. -/
theorem canonical_canonical (v : Json) : v.canonical.canonical = v.canonical := by
  cases v with
  | array items => rw [canonical, canonical, canonicalItems_canonicalItems items]
  | object ms =>
    rw [canonical, canonical, canonicalMembers_of_sorted]
    · rfl
    · exact sorted_canonicalMembers .nil ms
    · exact canonical_of_mem_canonicalMembers ms fun m hm => absurd hm List.not_mem_nil
  | _ => rfl

/-- Canonical items stay as they are. -/
theorem canonicalItems_canonicalItems (items : List Json) :
    canonicalItems (canonicalItems items) = canonicalItems items := by
  cases items with
  | nil => rfl
  | cons v rest =>
    rw [canonicalItems, canonicalItems, canonical_canonical v, canonicalItems_canonicalItems rest]

/-- The members of a canonical object are canonical. -/
theorem canonical_of_mem_canonicalMembers {acc : List (String × Json)} (ms : List (String × Json))
    (hacc : ∀ m ∈ acc, m.2.canonical = m.2) :
    ∀ m ∈ canonicalMembers acc ms, m.2.canonical = m.2 := by
  cases ms with
  | nil => exact hacc
  | cons m rest =>
    obtain ⟨k, v⟩ := m
    refine canonical_of_mem_canonicalMembers rest fun m hm => ?_
    rcases mem_putMember hm with rfl | hm
    · exact canonical_canonical v
    · exact hacc m hm

end

end Json

end Estree
