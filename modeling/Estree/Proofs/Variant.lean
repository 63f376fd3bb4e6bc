import Estree.Proofs.Variant.Rules

/-!
# Variants print alike

Trees that go over into each other by replacements come to the same in the typed dialect: no node is
loaded from either, or both are written alike, or neither can be written
(`Json.typeScript_eq_of_variant`). One replacement keeps the reading of a tree
(`Json.Rewrites.sameReading`), and what is written depends on the reading alone.

Main results:

* `Node.toOption_generate_eq`: nodes with the same traits have the same text, or both have none.
* `Json.SameReading.typeScript_eq`: values that read the same come to the same.
* `Json.typeScript_eq_of_variant`: variants print alike.
-/

namespace Estree

/-! ## §1. What comes of a tree. -/

/-- What comes of a tree in the typed dialect: the text, if it can be written, of the node, if one
is loaded from it. -/
def Json.typeScript (l : Layout) (v : Json) : Option (Option String) :=
  (Node.ofValue v).toOption.map fun n => ((Generator.ofDialect .typed l).generate n).toOption

/-- Nodes with the same traits are written alike. -/
theorem Node.toOption_generate_eq {m n : Node} (h : m.traits = n.traits) (l : Layout) :
    ((Generator.ofDialect .typed l).generate m).toOption
      = ((Generator.ofDialect .typed l).generate n).toOption := by
  have hsaid : (Grammar.typeScript.emit m).said = (Grammar.typeScript.emit n).said :=
    congrArg Traits.emitted h
  unfold Generator.generate
  rw [toOption_mapError, toOption_mapError]
  exact Doc.toOption_render hsaid l

namespace Json

/-- The root of a tree is read as it is inside a node if it has a tag. -/
theorem HasTag.toOption_ofValue {k : Kind} {v : Json} (h : v.HasTag k) :
    (Node.ofValue v).toOption = v.node := by
  refine Option.ext fun n => ?_
  rw [toOption_eq_some_iff, Node.ofValue_eq_ok_iff_loads]
  refine Iff.trans ⟨And.right, fun hn => ⟨?_, hn⟩⟩ (read_eq_some_iff (s := .node)).symm
  have hkind : k = n.kind := h.inner.kind_eq (Node.loads_iff_format.mp hn).1
  rwa [← hkind]

/-- Nothing is read from a root without a tag. -/
theorem toOption_ofValue_eq_none {v : Json} (h : ¬∃ k : Kind, v.HasTag k) :
    (Node.ofValue v).toOption = none := by
  refine Option.eq_none_iff_forall_ne_some.mpr fun n hn => h ⟨n.kind, ?_⟩
  exact (Node.ofValue_eq_ok_iff_loads.mp (toOption_eq_some_iff.mp hn)).1

/-- Trees that read the same come to the same, if both of their roots have a tag or none has. -/
theorem SameReading.typeScript_eq {v w : Json} (h : SameReading .node v w)
    (htag : (∃ k : Kind, v.HasTag k) ↔ ∃ k : Kind, w.HasTag k) (l : Layout) :
    v.typeScript l = w.typeScript l := by
  by_cases hv : ∃ k : Kind, v.HasTag k
  · have hrep : ∀ u : Json, (∃ k : Kind, u.HasTag k) → u.typeScript l =
        (u.node.map Node.rep).map fun n =>
          ((Generator.ofDialect .typed l).generate n).toOption := by
      rintro u ⟨k, hu⟩
      rw [typeScript, hu.toOption_ofValue, Option.map_map]
      refine congrArg (Option.map · u.node) (funext fun n => ?_)
      exact Node.toOption_generate_eq n.traits_rep.symm l
    have hread : v.node.map Node.rep = w.node.map Node.rep := h
    rw [hrep v hv, hrep w (htag.mp hv), hread]
  · rw [typeScript, typeScript, toOption_ofValue_eq_none hv,
      toOption_ofValue_eq_none (mt htag.mpr hv)]

/-- **Variants print alike**: trees that go over into each other by replacements come to the same in
the typed dialect, in every layout. -/
theorem typeScript_eq_of_variant {v w : Json} (h : v.Variant w) (l : Layout) :
    v.typeScript l = w.typeScript l := by
  induction h with
  | rel v w h => exact h.sameReading.typeScript_eq h.hasTag_iff l
  | refl v => rfl
  | symm v w _ ih => exact ih.symm
  | trans v u w _ _ ihv ihw => exact ihv.trans ihw

/-- `namespace A.B { enum E {} }` as a module in a module, with the members of the enumeration given
directly, and as one module, with a body for the enumeration. -/
theorem typeScript_eq_of_variant_nested :
    let tagged (k : Kind) (ms : List (String × Json)) : Json :=
      .object (("type", .string k.tag) :: ms)
    let name (x : String) := tagged .identifier [("name", .string x)]
    let module (id body : Json) := tagged .tsModuleDeclaration [("id", id), ("body", body)]
    let program (n : Json) := tagged .program [("body", .array [n])]
    let block (n : Json) := tagged .tsModuleBlock [("body", .array [n])]
    let direct := tagged .tsEnumDeclaration [("id", name "E"), ("members", .array [])]
    let inBody := tagged .tsEnumDeclaration
      [("id", name "E"), ("body", .object [("members", .array [])])]
    let v := program (module (name "A") (module (name "B") (block direct)))
    let w := program (module (tagged .tsQualifiedName [("left", name "A"), ("right", name "B")])
      (block inBody))
    v.Variant w ∧ v.typeScript {} = w.typeScript {} ∧ (v.typeScript {}).isSome := by
  intro tagged name module program block direct inBody v w
  let dotted := tagged .tsQualifiedName [("left", name "A"), ("right", name "B")]
  have hprogram : ∀ {m n : Json}, Rewrites .node m n → Rewrites .node (program m) (program n) :=
    fun h => @Rewrites.inNode _ _ _ _ .program (.children "body") "body" (.inl rfl) (.head _)
      (.head _)
      rfl rfl (.of_filter rfl) (@Rewrites.item .nodes .node [] [] _ _ rfl h)
  have hmodule : ∀ {id m n : Json}, Rewrites .node m n →
      Rewrites .node (module id m) (module id n) :=
    fun h => @Rewrites.inNode _ _ _ _ .tsModuleDeclaration (.child? "body") "body" (.inl rfl)
      (.tail _ (.head _)) (.head _) rfl rfl (.of_filter rfl) (.inner rfl h)
  have hblock : ∀ {m n : Json}, Rewrites .node m n → Rewrites .node (block m) (block n) :=
    fun h => @Rewrites.inNode _ _ _ _ .tsModuleBlock (.children "body") "body" (.inl rfl) (.head _)
      (.head _) rfl rfl (.of_filter rfl) (@Rewrites.item .nodes .node [] [] _ _ rfl h)
  have hname : Rewrites .node v (program (module dotted (block direct))) :=
    hprogram (.here (.moduleName {
      tag := rfl, noFlag := nofun, noKind := nofun, outer := rfl, outerTag := .inl rfl, old := rfl,
      innerTag := rfl, inner := rfl, innerName := rfl, innerDeclare := .inl rfl,
      innerGlobal := .inl rfl, innerKind := .inl (.inl rfl), new := rfl, newTag := rfl, left := rfl,
      right := rfl, body := rfl, rest := .of_filter rfl }))
  have hbody : Rewrites .node (program (module dotted (block direct))) w :=
    hprogram (hmodule (hblock (.here (.enumBody {
      tag := rfl, old := rfl, noBody := .inl rfl, new := rfl, object := ⟨_, rfl⟩, members := rfl,
      noMembers := .inl (.inl rfl), rest := .of_filter rfl }))))
  have hvariant : v.Variant w := .trans _ _ _ (.rel _ _ hname) (.rel _ _ hbody)
  exact ⟨hvariant, typeScript_eq_of_variant hvariant {}, rfl⟩

end Json

end Estree
