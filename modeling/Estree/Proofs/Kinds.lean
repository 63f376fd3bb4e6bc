import Estree.Kind
import Mathlib.Data.List.Basic

/-!
# The list of kinds

All kinds are listed once, in the order in which they are declared, and the position of a kind in
the list is its number. A kind is found again by its number and by its tag, and no two kinds share
either of them. Registries list their kinds in this order; a loader takes a kind by its tag, and
inside of other nodes by its number as well.

Main results:

* `Kind.mem_all`, `Kind.increasing_all`: the list is complete and in order.
* `Kind.ofIndex?_eq_some_iff`: a kind by its number.
* `Kind.ofTag?_eq_some_iff`: a kind by its tag.
-/

namespace Estree.Kind

/-- Each kind stands at its position. -/
theorem getElem?_index (k : Kind) : all[k.index]? = some k := by
  cases k <;> rfl

/-- Every kind is listed. -/
theorem mem_all (k : Kind) : k ∈ all := List.mem_of_getElem? k.getElem?_index

/-- The positions count from zero. -/
theorem map_index_all : all.map index = List.range all.length := by decide +kernel

/-- Kinds are listed in the order of their positions. -/
theorem increasing_all : all.Pairwise fun j k => j.index < k.index := by
  have h := List.pairwise_lt_range (n := all.length)
  rwa [← map_index_all, List.pairwise_map] at h

/-- No two kinds share a position. -/
theorem ofIndex?_eq_some_iff {i : Nat} {k : Kind} : ofIndex? i = some k ↔ i = k.index := by
  constructor
  · intro h
    have hindex : (List.range all.length)[i]? = some k.index := by
      rw [← map_index_all, List.getElem?_map]
      exact congrArg (Option.map index) h
    obtain ⟨hi, heq⟩ := List.getElem?_eq_some_iff.mp hindex
    rwa [List.getElem_range] at heq
  · rintro rfl
    exact k.getElem?_index

/-- The tag of a kind leads back to it. -/
theorem ofTag?_tag (k : Kind) : ofTag? k.tag = some k := by
  have hall : all.all (fun k => ofTag? k.tag == some k) = true := by decide +kernel
  exact eq_of_beq (List.all_eq_true.mp hall k k.mem_all)

/-- No two kinds share a tag. -/
theorem ofTag?_eq_some_iff {s : String} {k : Kind} : ofTag? s = some k ↔ s = k.tag := by
  constructor
  · intro h
    have htag : (k.tag == s) = true := List.find?_some (p := fun k : Kind => k.tag == s) h
    exact (eq_of_beq htag).symm
  · rintro rfl
    exact k.ofTag?_tag

end Estree.Kind
