import Estree.Proofs.Presentation.Loading

/-!
# Loading accepts the format

A JSON value loads as a node exactly when it presents the node. Loading agrees with the format for
one step, with loading itself for the nodes inside (`Node.loads_iff_format`); what stands for the
nodes inside is smaller than the value, so the step may be repeated down to the leaves. For that the
format has to be monotone in what presents the nodes inside.

Main results:

* `Node.Format.imp`: the format of a value depends on the presentations inside it only.
* `Node.ofValue_eq_ok_iff_presents`: loading accepts exactly the format.
-/

namespace Estree

/-! ## §1. The format is monotone. -/

section Monotone

variable {P Q : Node → Json → Prop}

/-- An entry is monotone in what stands under its names. -/
theorem FieldSpec.entry_fits_imp {f : FieldSpec} {y : f.shape.Value} {o : Option Json}
    (h : ∀ x, o = some x → f.shape.Fits P y x → f.shape.Fits Q y x)
    (hfits : (f.entry y).fits P o) : (f.entry y).fits Q o := by
  rcases hfits with hnone | ⟨x, ho, hx⟩
  · exact .inl hnone
  · exact .inr ⟨x, ho, h x ho hx⟩

/-- The entries of an object are monotone in what the smaller values stand for. -/
theorem Json.Meets.imp {fs : List FieldSpec} {xs : Values fs} {v : Json}
    (h : ∀ x : Json, sizeOf x < sizeOf v → ∀ (s : Shape) (y : s.Value), s.Fits P y x → s.Fits Q y x)
    (hmeets : v.Meets P (Values.entries fs xs)) : v.Meets Q (Values.entries fs xs) := by
  obtain ⟨hobject, hentries⟩ := hmeets
  refine ⟨hobject, Values.forall_entries.mpr fun p => ?_⟩
  obtain ⟨o, ho, hfits⟩ := Values.forall_entries.mp hentries p
  refine ⟨o, ho, FieldSpec.entry_fits_imp (fun x hx => ?_) hfits⟩
  subst hx
  exact h x ho.sizeOf_lt _ _

/-- The fields of a record are met under other presentations that hold inside. -/
theorem RecordType.meets_imp {r : RecordType} {y : r.Value} {v : Json}
    (h : ∀ x : Json, sizeOf x < sizeOf v → ∀ (s : Shape) (y : s.Value), s.Fits P y x → s.Fits Q y x)
    (hmeets : v.Meets P (r.entries y)) : v.Meets Q (r.entries y) := by
  obtain ⟨xs, rfl⟩ := r.exists_build y
  rw [r.entries_build] at hmeets ⊢
  exact hmeets.imp h

/-- What a value stands for depends on the presentations inside it. -/
theorem Shape.Fits.imp (x : Json) (h : ∀ (c : Node) (z : Json), sizeOf z ≤ sizeOf x → P c z → Q c z)
    (s : Shape) (y : s.Value) (hfits : s.Fits P y x) : s.Fits Q y x := by
  -- the fields of a record are smaller than the record
  have hrecord : ∀ z : Json, sizeOf z ≤ sizeOf x → ∀ (r : RecordType) (y : r.Value),
      z.Meets P (r.entries y) → z.Meets Q (r.entries y) := fun z hz r y =>
    RecordType.meets_imp fun w hw => Shape.Fits.imp w fun c u hu => h c u (by omega)
  cases s with
  | node => exact h y x (Nat.le_refl _) hfits
  | node? => exact hfits.imp_right fun ⟨m, hm, hx⟩ => ⟨m, hm, h m x (Nat.le_refl _) hx⟩
  | nodes => exact Entry.Listed.imp hfits fun c z hz => h c z (Nat.le_of_lt hz)
  | nodes? =>
    exact hfits.imp_right fun hlist => hlist.imp fun c z hz => h c z (Nat.le_of_lt hz)
  | holes =>
    exact Entry.Listed.imp hfits fun c z hz hc =>
      hc.imp_right fun ⟨m, hm, hmz⟩ => ⟨m, hm, h m z (Nat.le_of_lt hz) hmz⟩
  | record r => exact hrecord x (Nat.le_refl _) r y hfits
  | record? r => exact hfits.imp_right fun ⟨w, hw, hx⟩ => ⟨w, hw, hrecord x (Nat.le_refl _) r w hx⟩
  | records r => exact Entry.Listed.imp hfits fun w z hz => hrecord z (Nat.le_of_lt hz) r w
  | typeParameterName => exact hfits.imp_right fun ⟨n, hn, hx⟩ => ⟨n, hn, h n x (Nat.le_refl _) hx⟩
  | flag | text | text? | json | mappedModifier? => exact hfits
termination_by sizeOf x

/-- The format of a value depends on the presentations that are smaller than it. -/
theorem Node.Format.imp {n : Node} {v : Json}
    (h : ∀ (c : Node) (x : Json), sizeOf x < sizeOf v → P c x → Q c x)
    {tagged : Kind → Json → Prop} (hformat : n.Format tagged P v) : n.Format tagged Q v := by
  obtain ⟨htag, hmeets⟩ := hformat
  refine ⟨htag, ?_⟩
  obtain ⟨xs, hxs⟩ := n.exists_build
  rw [← hxs, n.kind.entries_build] at hmeets ⊢
  exact hmeets.imp fun x hx => Shape.Fits.imp x fun c z hz => h c z (by omega)

end Monotone

/-! ## §2. Presentations. -/

namespace Node

/-- What presents a node inside another one loads as it there. -/
theorem loads_of_presentsInside {n : Node} {v : Json} (h : n.PresentsInside v) : n.Loads v := by
  induction h with
  | intro known _ hformat ih =>
    exact loads_iff_format.mpr (hformat.imp fun c x _ hc => ih c x hc)

/-- What loads as a node inside another one presents it there. -/
theorem presentsInside_of_loads (v : Json) (n : Node) (h : n.Loads v) : n.PresentsInside v := by
  -- the nodes inside are presented by smaller values that load as them
  refine .intro (fun c x => sizeOf x < sizeOf v ∧ c.Loads x) ?_ ?_
  · rintro c x ⟨hx, hc⟩
    exact presentsInside_of_loads x c hc
  · exact (loads_iff_format.mp h).imp fun c x hx hc => ⟨hx, hc⟩
termination_by sizeOf v

/-- **Loading accepts exactly the format**: a value loads as a node if and only if it presents the
node. -/
theorem ofValue_eq_ok_iff_presents (v : Json) (n : Node) : ofValue v = .ok n ↔ n.Presents v := by
  rw [ofValue_eq_ok_iff_loads]
  constructor
  · rintro ⟨htag, hloads⟩
    obtain ⟨-, hmeets⟩ := loads_iff_format.mp hloads
    have hformat : n.Format Json.HasTag Loads v := ⟨htag, hmeets⟩
    exact hformat.imp fun c x _ hc => presentsInside_of_loads x c hc
  · intro h
    obtain ⟨htag, hmeets⟩ := h.imp fun c x _ hc => loads_of_presentsInside hc
    exact ⟨htag, loads_iff_format.mpr ⟨htag.inner, hmeets⟩⟩

end Node

end Estree
