import Estree.Json.Reader
import Mathlib.Data.List.Basic

/-!
# The grammar of JSON texts

`Json.Spelled v ts` says that the tokens `ts` are one value `v`, as the grammar has it: a scalar is
one token, the items of an array and the members of an object are divided by commas and stand in
their brackets. The reader reads values of the grammar only (`readsGrammar`), and all of them when
it has steps and room enough (`Spelled.readAs`). With the steps and the room that `Json.read?`
allows itself, it reads a text exactly when its tokens are a value (`read?_eq_some_iff`).

Main results:

* `readsGrammar`: what is read is of the grammar.
* `Spelled.readAs`: what is of the grammar is read.
* `read?_eq_some_iff`: a text is read exactly when its tokens are a value.
-/

namespace Estree

namespace Json

/-! ## §1. The grammar. -/

/-- Tokens divided by commas. -/
def joined (parts : List (List Token)) : List Token := [Token.comma].intercalate parts

/-- The tokens of a member whose value has the given tokens. -/
def memberTokens (key : String) (ts : List Token) : List Token := .string key :: .colon :: ts

/-- The tokens are one value. A part is an item, or a key and its value, with its tokens. -/
inductive Spelled : Json → List Token → Prop where
  | scalar {t : Token} {v : Json} (h : scalar? t = some v) : Spelled v [t]
  | array {parts : List (Json × List Token)} (h : ∀ p ∈ parts, Spelled p.1 p.2) :
      Spelled (.array (parts.map (·.1)))
        (.openBracket :: (joined (parts.map (·.2)) ++ [.closeBracket]))
  | object {parts : List (String × Json × List Token)} (h : ∀ p ∈ parts, Spelled p.2.1 p.2.2) :
      Spelled (.object (parts.map fun p => (p.1, p.2.1)))
        (.openBrace :: (joined (parts.map fun p => memberTokens p.1 p.2.2) ++ [.closeBrace]))

mutual

/-- How deep arrays and objects stand inside one another. -/
def nesting : Json → Nat
  | .array items => nestingItems items + 1
  | .object ms => nestingMembers ms + 1
  | _ => 0

def nestingItems : List Json → Nat
  | [] => 0
  | v :: rest => max (nesting v) (nestingItems rest)

def nestingMembers : List (String × Json) → Nat
  | [] => 0
  | (_, v) :: rest => max (nesting v) (nestingMembers rest)

end

/-- There is room for a list when there is one level less for its items. -/
theorem nesting_array_le_iff {items : List Json} {room : Nat} :
    (array items).nesting ≤ room + 1 ↔ ∀ x ∈ items, x.nesting ≤ room := by
  rw [nesting, Nat.add_le_add_iff_right]
  induction items with
  | nil => simp [nestingItems]
  | cons v rest ih => rw [nestingItems, Nat.max_le, ih, List.forall_mem_cons]

/-- And for an object when there is for its members. -/
theorem nesting_object_le_iff {ms : List (String × Json)} {room : Nat} :
    (object ms).nesting ≤ room + 1 ↔ ∀ m ∈ ms, m.2.nesting ≤ room := by
  rw [nesting, Nat.add_le_add_iff_right]
  induction ms with
  | nil => simp [nestingMembers]
  | cons m rest ih => rw [nestingMembers, Nat.max_le, ih, List.forall_mem_cons]

@[simp]
theorem joined_singleton (ts : List Token) : joined [ts] = ts := by
  simp [joined]

/-- A comma stands between the first part and the others. -/
theorem joined_cons {parts : List (List Token)} (h : parts ≠ []) (ts : List Token) :
    joined (ts :: parts) = ts ++ .comma :: joined parts := by
  rw [joined, List.intercalate_cons_of_ne_nil h, List.append_assoc]
  rfl

/-- Joined parts begin with the first one. -/
theorem exists_joined_cons (ts : List Token) (parts : List (List Token)) :
    ∃ more, joined (ts :: parts) = ts ++ more := by
  by_cases hparts : parts = []
  · exact ⟨[], by simp [hparts]⟩
  · exact ⟨_, joined_cons hparts ts⟩

/-- No value begins with a closing bracket. -/
theorem Spelled.exists_cons {v : Json} {ts : List Token} (h : Spelled v ts) :
    ∃ t rest, ts = t :: rest ∧ t ≠ .closeBracket := by
  cases h with
  | @scalar t v h =>
    refine ⟨t, [], rfl, ?_⟩
    rintro rfl
    cases h
  | array _ => exact ⟨_, _, rfl, by simp⟩
  | object _ => exact ⟨_, _, rfl, by simp⟩

/-! ## §2. What is read is of the grammar. -/

/-- The tokens are one or more items divided by commas. -/
def SpelledItems (vs : List Json) (ts : List Token) : Prop :=
  ∃ parts : List (Json × List Token), parts ≠ [] ∧ vs = parts.map (·.1) ∧
    ts = joined (parts.map (·.2)) ∧ ∀ p ∈ parts, Spelled p.1 p.2

/-- The tokens are one or more members divided by commas. -/
def SpelledMembers (ms : List (String × Json)) (ts : List Token) : Prop :=
  ∃ parts : List (String × Json × List Token), parts ≠ [] ∧ ms = parts.map (fun p => (p.1, p.2.1)) ∧
    ts = joined (parts.map fun p => memberTokens p.1 p.2.2) ∧ ∀ p ∈ parts, Spelled p.2.1 p.2.2

theorem Spelled.items {v : Json} {ts : List Token} (h : Spelled v ts) : SpelledItems [v] ts :=
  ⟨[(v, ts)], by simp, rfl, by simp, by simpa using h⟩

theorem Spelled.items_cons {v : Json} {vs : List Json} {ts us : List Token} (h : Spelled v ts)
    (hvs : SpelledItems vs us) : SpelledItems (v :: vs) (ts ++ .comma :: us) := by
  obtain ⟨parts, hne, rfl, rfl, hparts⟩ := hvs
  refine ⟨(v, ts) :: parts, by simp, rfl, ?_, List.forall_mem_cons.mpr ⟨h, hparts⟩⟩
  rw [List.map_cons, joined_cons (by simpa using hne)]

theorem Spelled.members {v : Json} {ts : List Token} (h : Spelled v ts) (k : String) :
    SpelledMembers [(k, v)] (memberTokens k ts) :=
  ⟨[(k, v, ts)], by simp, rfl, by simp, by simpa using h⟩

theorem Spelled.members_cons {v : Json} {ms : List (String × Json)} {ts us : List Token}
    (h : Spelled v ts) (k : String) (hms : SpelledMembers ms us) :
    SpelledMembers ((k, v) :: ms) (memberTokens k ts ++ .comma :: us) := by
  obtain ⟨parts, hne, rfl, rfl, hparts⟩ := hms
  refine ⟨(k, v, ts) :: parts, by simp, rfl, ?_, List.forall_mem_cons.mpr ⟨h, hparts⟩⟩
  rw [List.map_cons, joined_cons (by simpa using hne)]

theorem SpelledItems.array {vs : List Json} {ts : List Token} (h : SpelledItems vs ts) :
    Spelled (.array vs) (.openBracket :: (ts ++ [.closeBracket])) := by
  obtain ⟨parts, -, rfl, rfl, hparts⟩ := h
  exact .array hparts

theorem SpelledMembers.object {ms : List (String × Json)} {ts : List Token}
    (h : SpelledMembers ms ts) : Spelled (.object ms) (.openBrace :: (ts ++ [.closeBrace])) := by
  obtain ⟨parts, -, rfl, rfl, hparts⟩ := h
  exact .object hparts

theorem spelled_array_nil : Spelled (.array []) [.openBracket, .closeBracket] :=
  @Spelled.array [] (by simp)

theorem spelled_object_nil : Spelled (.object []) [.openBrace, .closeBrace] :=
  @Spelled.object [] (by simp)

/-- A closed run of members begins with one and goes on with a closed run. -/
theorem exists_of_cons_eq_closed {k : String} {v : Json} {run : Members}
    {ms : List (String × Json)} {rest : List Token} (h : run.cons k v = ⟨ms, .closed rest⟩) :
    ∃ ns, ms = (k, v) :: ns ∧ run = ⟨ns, .closed rest⟩ := by
  cases run
  cases h
  exact ⟨_, rfl, rfl⟩

/-- A reader with the given steps reads what is of the grammar only. -/
structure ReadsGrammar (fuel : Nat) : Prop where
  value : ∀ {room ts v rest}, value? fuel room ts = some (v, rest) →
    ∃ used, ts = used ++ rest ∧ Spelled v used
  items : ∀ {room ts vs rest}, items? fuel room ts = some (vs, rest) →
    ∃ used, ts = used ++ .closeBracket :: rest ∧ SpelledItems vs used
  object : ∀ {room ts ms rest}, braced fuel room ts = ⟨ms, .closed rest⟩ →
    ∃ used, .openBrace :: ts = used ++ rest ∧ Spelled (.object ms) used
  members : ∀ {room ts ms rest}, memberRun fuel room ts = ⟨ms, .closed rest⟩ →
    ∃ used, ts = used ++ .closeBrace :: rest ∧ SpelledMembers ms used

namespace ReadsGrammar

variable {fuel room : Nat} {ts rest : List Token}

/-- What is read as a value is spelled by the grammar, if it is so with less fuel. -/
theorem value_succ (h : ReadsGrammar fuel) {v : Json}
    (hread : value? (fuel + 1) room ts = some (v, rest)) :
    ∃ used, ts = used ++ rest ∧ Spelled v used := by
  cases ts with
  | nil => simp [value?] at hread
  | cons t ts =>
    cases ht : scalar? t with
    | some w =>
      have hw : value? (fuel + 1) room (t :: ts) = some (w, ts) := by
        cases t with
        | openBracket | openBrace => cases ht
        | _ => simp [value?, ht]
      rw [hw] at hread
      cases hread
      exact ⟨[t], rfl, .scalar ht⟩
    | none =>
      -- no scalar: the token opens a value, and this takes one level of room
      cases room with
      | zero => cases t <;> simp [value?, ht] at hread
      | succ room =>
        cases t with
        | openBracket =>
          -- the empty array is read without looking for items
          by_cases hts : ∃ us, ts = .closeBracket :: us
          · obtain ⟨us, rfl⟩ := hts
            rw [value?] at hread
            cases hread
            exact ⟨_, rfl, spelled_array_nil⟩
          · rw [value?] at hread
            · obtain ⟨⟨vs, rest'⟩, hvs, heq⟩ := Option.map_eq_some_iff.mp hread
              cases heq
              obtain ⟨used, rfl, hused⟩ := h.items hvs
              exact ⟨_, by simp, hused.array⟩
            · exact fun us hus => hts ⟨us, hus⟩
        | openBrace =>
          simp only [value?] at hread
          split at hread
          next hms =>
            cases hread
            exact h.object hms
          next => cases hread
        | _ => simp [value?, ht] at hread

/-- What is read as items is. -/
theorem items_succ (h : ReadsGrammar fuel) {vs : List Json}
    (hread : items? (fuel + 1) room ts = some (vs, rest)) :
    ∃ used, ts = used ++ .closeBracket :: rest ∧ SpelledItems vs used := by
  rw [items?] at hread
  split at hread
  next v us hv =>
    obtain ⟨used, rfl, hused⟩ := h.value hv
    obtain ⟨⟨ws, rest'⟩, hws, heq⟩ := Option.map_eq_some_iff.mp hread
    cases heq
    obtain ⟨more, rfl, hmore⟩ := h.items hws
    exact ⟨used ++ .comma :: more, by simp, hused.items_cons hmore⟩
  next v us hv =>
    cases hread
    obtain ⟨used, rfl, hused⟩ := h.value hv
    exact ⟨used, rfl, hused.items⟩
  next => cases hread

/-- What is read as an object is. -/
theorem object_succ (h : ReadsGrammar fuel) {ms : List (String × Json)}
    (hread : braced (fuel + 1) room ts = ⟨ms, .closed rest⟩) :
    ∃ used, .openBrace :: ts = used ++ rest ∧ Spelled (.object ms) used := by
  unfold braced at hread
  split at hread
  next heq => cases heq
  next =>
    cases hread
    exact ⟨_, rfl, spelled_object_nil⟩
  next hfuel _ =>
    cases hfuel
    obtain ⟨used, rfl, hused⟩ := h.members hread
    exact ⟨_, by simp, hused.object⟩

/-- What is read as members is. -/
theorem members_succ (h : ReadsGrammar fuel) {ms : List (String × Json)}
    (hread : memberRun (fuel + 1) room ts = ⟨ms, .closed rest⟩) :
    ∃ used, ts = used ++ .closeBrace :: rest ∧ SpelledMembers ms used := by
  unfold memberRun at hread
  split at hread
  next heq => cases heq
  next k ts hfuel =>
    cases hfuel
    split at hread
    -- a comma goes on with further members, a brace ends them
    next v us hv =>
      obtain ⟨used, rfl, hused⟩ := h.value hv
      obtain ⟨ns, rfl, hns⟩ := exists_of_cons_eq_closed hread
      obtain ⟨more, rfl, hmore⟩ := h.members hns
      exact ⟨_, by simp [memberTokens], hused.members_cons k hmore⟩
    next v us hv =>
      cases hread
      obtain ⟨used, rfl, hused⟩ := h.value hv
      exact ⟨_, rfl, hused.members k⟩
    next => cases hread
    next => cases hread
  next => cases hread
  next => cases hread

end ReadsGrammar

/-- **What is read is of the grammar**, with any number of steps. -/
theorem readsGrammar (fuel : Nat) : ReadsGrammar fuel := by
  induction fuel with
  | zero =>
    refine ⟨?_, ?_, ?_, ?_⟩
    all_goals
      intro room ts v rest h
      simp [value?, items?, braced, memberRun, Members.fault] at h
  | succ fuel ih => exact ⟨ih.value_succ, ih.items_succ, ih.object_succ, ih.members_succ⟩

/-! ## §3. What is of the grammar is read. -/

/-- The reader reads the tokens as the value, whatever follows, when it has the steps it needs. -/
def ReadAs (room : Nat) (v : Json) (ts : List Token) : Prop :=
  ∀ fuel rest, 2 * ts.length ≤ fuel + 1 → value? fuel room (ts ++ rest) = some (v, rest)

/-- Parts that are read as values are read as items. -/
theorem items?_joined {room : Nat} {parts : List (Json × List Token)} (hne : parts ≠ [])
    (h : ∀ p ∈ parts, ReadAs room p.1 p.2) {fuel : Nat}
    (hfuel : 2 * (joined (parts.map (·.2))).length < fuel) (rest : List Token) :
    items? fuel room (joined (parts.map (·.2)) ++ .closeBracket :: rest)
      = some (parts.map (·.1), rest) := by
  induction parts generalizing fuel with
  | nil => exact absurd rfl hne
  | cons p parts ih =>
    -- an item takes one step here and at most two for each token of its own
    obtain ⟨fuel, rfl⟩ := Nat.exists_eq_succ_of_ne_zero (Nat.ne_zero_of_lt hfuel)
    have hp := h p List.mem_cons_self
    rw [items?]
    by_cases hparts : parts = []
    · subst hparts
      simp only [List.map_cons, List.map_nil, joined_singleton] at hfuel ⊢
      rw [hp fuel _ (by omega)]
    · have hmap : parts.map (·.2) ≠ [] := by simpa using hparts
      rw [List.map_cons, joined_cons hmap] at hfuel ⊢
      simp only [List.length_append, List.length_cons] at hfuel
      have hrest := ih hparts (fun q hq => h q (List.mem_cons_of_mem _ hq))
        (show 2 * (joined (parts.map (·.2))).length < fuel by omega)
      rw [List.append_assoc, List.cons_append, hp fuel _ (by omega)]
      simp [hrest]

/-- Parts that are read as values are read as members, with keys before them. -/
theorem memberRun_joined {room : Nat} {parts : List (String × Json × List Token)} (hne : parts ≠ [])
    (h : ∀ p ∈ parts, ReadAs room p.2.1 p.2.2) {fuel : Nat}
    (hfuel : 2 * (joined (parts.map fun p => memberTokens p.1 p.2.2)).length < fuel)
    (rest : List Token) :
    memberRun fuel room (joined (parts.map fun p => memberTokens p.1 p.2.2) ++ .closeBrace :: rest)
      = ⟨parts.map fun p => (p.1, p.2.1), .closed rest⟩ := by
  induction parts generalizing fuel with
  | nil => exact absurd rfl hne
  | cons p parts ih =>
    obtain ⟨fuel, rfl⟩ := Nat.exists_eq_succ_of_ne_zero (Nat.ne_zero_of_lt hfuel)
    have hp := h p List.mem_cons_self
    by_cases hparts : parts = []
    · subst hparts
      simp only [List.map_cons, List.map_nil, joined_singleton, memberTokens,
        List.length_cons] at hfuel ⊢
      simp only [List.cons_append, memberRun]
      rw [hp fuel _ (by omega)]
    · have hmap : parts.map (fun p => memberTokens p.1 p.2.2) ≠ [] := by simpa using hparts
      rw [List.map_cons, joined_cons hmap] at hfuel ⊢
      simp only [List.length_append, List.length_cons, memberTokens] at hfuel
      -- the commas and keys between the members take steps of their own
      have hrest := ih hparts (fun q hq => h q (List.mem_cons_of_mem _ hq))
        (show 2 * (joined (parts.map fun p => memberTokens p.1 p.2.2)).length < fuel by
          simp only [memberTokens]
          omega)
      simp only [memberTokens, List.cons_append, List.append_assoc, memberRun]
      rw [hp fuel _ (by omega)]
      simp only [memberTokens] at hrest
      simp [hrest, Members.cons]

/-- The members of an object are read up to its closing brace. -/
theorem braced_joined {room : Nat} {parts : List (String × Json × List Token)}
    (h : ∀ p ∈ parts, ReadAs room p.2.1 p.2.2) {fuel : Nat}
    (hfuel : 2 * (joined (parts.map fun p => memberTokens p.1 p.2.2)).length + 1 < fuel)
    (rest : List Token) :
    braced fuel room (joined (parts.map fun p => memberTokens p.1 p.2.2) ++ .closeBrace :: rest)
      = ⟨parts.map fun p => (p.1, p.2.1), .closed rest⟩ := by
  obtain ⟨fuel, rfl⟩ := Nat.exists_eq_succ_of_ne_zero (Nat.ne_zero_of_lt hfuel)
  by_cases hparts : parts = []
  · subst hparts
    simp [braced, joined]
  · rw [braced]
    · exact memberRun_joined hparts h (by omega) rest
    · -- a member begins with its key
      intro rest' heq
      obtain ⟨p, parts, rfl⟩ := List.exists_cons_of_ne_nil hparts
      obtain ⟨more, hmore⟩ := exists_joined_cons (memberTokens p.1 p.2.2)
        (parts.map fun p => memberTokens p.1 p.2.2)
      rw [List.map_cons, hmore] at heq
      simp [memberTokens] at heq

/-- **What is of the grammar is read**, when there is room for its brackets. -/
theorem Spelled.readAs {v : Json} {ts : List Token} (h : Spelled v ts) {room : Nat}
    (hroom : v.nesting ≤ room) : ReadAs room v ts := by
  induction h generalizing room with
  | @scalar t v h =>
    intro fuel rest hfuel
    obtain ⟨fuel, rfl⟩ : ∃ n, fuel = n + 1 := ⟨fuel - 1, by simp at hfuel; omega⟩
    cases t with
    | openBracket | openBrace => cases h
    | _ => simp [value?, h]
  | @array parts hparts ih =>
    intro fuel rest hfuel
    obtain ⟨room, rfl⟩ : ∃ n, room = n + 1 := ⟨room - 1, by rw [nesting] at hroom; omega⟩
    obtain ⟨fuel, rfl⟩ : ∃ n, fuel = n + 1 := ⟨fuel - 1, by simp at hfuel; omega⟩
    -- the items have one level less, and their tokens are fewer
    have hitems : ∀ p ∈ parts, ReadAs room p.1 p.2 := fun p hp =>
      ih p hp (nesting_array_le_iff.mp hroom p.1 (List.mem_map_of_mem hp))
    simp only [List.length_cons, List.length_append, List.length_nil] at hfuel
    simp only [List.cons_append, List.append_assoc, List.nil_append]
    by_cases hne : parts = []
    · subst hne
      simp [value?, joined]
    · rw [value?]
      · rw [items?_joined hne hitems (by omega)]
        rfl
      · -- no item begins with the closing bracket
        intro rest' heq
        obtain ⟨p, parts, rfl⟩ := List.exists_cons_of_ne_nil hne
        obtain ⟨t, us, hp, ht⟩ := (hparts p List.mem_cons_self).exists_cons
        obtain ⟨more, hmore⟩ := exists_joined_cons p.2 (parts.map (·.2))
        rw [List.map_cons, hmore, hp] at heq
        simp [ht] at heq
  | @object parts hparts ih =>
    intro fuel rest hfuel
    obtain ⟨room, rfl⟩ : ∃ n, room = n + 1 := ⟨room - 1, by rw [nesting] at hroom; omega⟩
    obtain ⟨fuel, rfl⟩ : ∃ n, fuel = n + 1 := ⟨fuel - 1, by simp at hfuel; omega⟩
    -- so have the members
    have hmembers : ∀ p ∈ parts, ReadAs room p.2.1 p.2.2 := fun p hp =>
      ih p hp (nesting_object_le_iff.mp hroom (p.1, p.2.1) (List.mem_map_of_mem hp))
    simp only [List.length_cons, List.length_append, List.length_nil] at hfuel
    simp only [List.cons_append, List.append_assoc, List.nil_append, value?]
    rw [braced_joined hmembers (by omega)]

/-! ## §4. Whole texts. -/

/-- A part is no longer than the whole. -/
theorem length_le_length_joined {ts : List Token} {parts : List (List Token)} (h : ts ∈ parts) :
    ts.length ≤ (joined parts).length := by
  induction parts with
  | nil => cases h
  | cons us parts ih =>
    by_cases hparts : parts = []
    · subst hparts
      simp [List.mem_singleton.mp h]
    · rw [joined_cons hparts, List.length_append, List.length_cons]
      rcases List.mem_cons.mp h with rfl | h
      · omega
      · have := ih h
        omega

/-- Each array or object has brackets of its own. -/
theorem Spelled.nesting_le {v : Json} {ts : List Token} (h : Spelled v ts) :
    v.nesting ≤ ts.length := by
  induction h with
  | @scalar t v h =>
    have hv : v.nesting = 0 := by
      cases t with
      | numeral t =>
        obtain ⟨n, -, rfl⟩ := Option.map_eq_some_iff.mp h
        rfl
      | null | bool | string =>
        cases h
        rfl
      | _ => cases h
    omega
  | @array parts _ ih =>
    rw [List.length_cons]
    refine nesting_array_le_iff.mpr fun x hx => ?_
    obtain ⟨p, hp, rfl⟩ := List.mem_map.mp hx
    have hlength := length_le_length_joined (List.mem_map_of_mem (f := (·.2)) hp)
    have := ih p hp
    rw [List.length_append]
    omega
  | @object parts _ ih =>
    rw [List.length_cons]
    refine nesting_object_le_iff.mpr fun x hx => ?_
    obtain ⟨p, hp, rfl⟩ := List.mem_map.mp hx
    have hlength := length_le_length_joined
      (List.mem_map_of_mem (f := fun p : String × Json × List Token => memberTokens p.1 p.2.2) hp)
    have := ih p hp
    simp only [memberTokens, List.length_cons] at hlength
    rw [List.length_append]
    simp only [memberTokens]
    omega

/-- **Reading a text** gives the value that its tokens are. -/
theorem read?_eq_some_iff {text : String} {v : Json} :
    read? text = some v ↔ Spelled v (Token.ofText text) := by
  unfold read?
  constructor
  · intro h
    simp only at h
    split at h
    next hread =>
      cases h
      obtain ⟨used, hused, hspelled⟩ := (readsGrammar _).value hread
      rw [List.append_nil] at hused
      rwa [hused]
    next => cases h
  · intro h
    have hread := h.readAs h.nesting_le (2 * (Token.ofText text).length + 1) [] (by omega)
    rw [List.append_nil] at hread
    simp only [hread]

end Json

end Estree
