import Estree.Proofs.Variant.Fields
import Estree.Proofs.Variant.Forms
import Mathlib.Data.Option.Basic

/-!
# Replacements keep the reading

Each replacement leads to an object that reads the same (`Json.Replaces.sameReading`). The fields
that both objects share are read alike; the others give the two forms of one node, which have the
same traits.

Main results:

* `Json.Replaces.sameReading`: one replacement at the root.
* `Json.Rewrites.sameReading`: one replacement anywhere in a tree.
-/

namespace Estree

namespace Json

/-! ## §1. Names and variables. -/

/-- A plain name is read as an identifier that is nothing but a name. -/
theorem IsName.node_eq {s : String} {v : Json} (h : v.IsName s) : v.node = some (.named s) := by
  rw [Json.node_eq h.tag]
  simp [Kind.schema, get_text_of_some h.name, get_flag_of_notSet h.optional,
    get_child?_of_lacks h.annot, get_children?_of_noItems h.decorators, Node.named]

/-- A variable is read as a type parameter that is nothing but a name and a constraint. -/
theorem IsVariable.node_eq {s : String} {constraint v : Json} (h : v.IsVariable s constraint) :
    v.node = constraint.node?.bind fun c =>
      some (.tsTypeParameter ⟨.plain s, c, none, false, false, false⟩) := by
  rw [Json.node_eq h.tag]
  simp [Kind.schema, get_parameterName_of_string h.name, get_child?_of_some h.constraint,
    get_child?_of_lacks h.fallback, get_flag_of_notSet h.varianceIn,
    get_flag_of_notSet h.varianceOut, get_flag_of_notSet h.const]

theorem HasTag.kind_of_node {k : Kind} {v : Json} {n : Node} (h : v.HasTag k)
    (hn : v.node = some n) : n.kind = k := by
  rw [Json.node_eq h] at hn
  obtain ⟨xs, -, rfl⟩ := Option.map_eq_some_iff.mp hn
  exact k.kind_build xs

/-! ## §2. The replacements. -/

namespace Replacement

theorem FieldName.sameReading {k : Kind} {f : FieldSpec} {other : String} {x v w : Json}
    (h : FieldName k f other x v w) : SameReading .node v w := by
  have hnames : f.names = [f.name, other] := by simp [FieldSpec.names, h.named]
  have htype : "type" ∉ [f.name, other] := hnames ▸ k.type_not_mem_names f h.field
  have hf : f.SameReading v w := by
    unfold FieldSpec.SameReading FieldSpec.read
    simp [hnames, h.old, h.noNew, h.new, h.noOld]
  refine SameReading.node h.tag.inner (h.rest.hasTag h.tag htype).inner fun g hg => ?_
  by_cases hshared : ∃ key ∈ g.names, key ∈ f.names
  · obtain ⟨key, hkg, hkf⟩ := hshared
    cases k.distinct.eq_of_named hg h.field hkg hkf
    exact hf
  · refine .of_field? fun key hkey => h.rest.field key fun hmem => hshared ⟨key, hkey, ?_⟩
    exact hnames ▸ hmem

theorem EnumBody.sameReading {items : List Json} {body v w : Json} (h : EnumBody items body v w) :
    SameReading .node v w := by
  have hforms : ∀ id ms const declare,
      (Node.tsEnumDeclaration ⟨id, ms, none, const, declare⟩).rep
        = (Node.tsEnumDeclaration ⟨id, [], some ms, const, declare⟩).rep :=
    fun _ _ _ _ => Node.rep_eq_of_traits (Node.traits_enumBody ..)
  have hnew : w.get (.enumBody? "body") = (array items).nodes.map some := by
    obtain ⟨ms, rfl⟩ := h.object
    rw [get_enumBody?_of_object h.new, get_children_of_some h.members]
  rw [sameReading_iff h.tag (h.rest.hasTag h.tag (by decide))]
  simp (disch := decide) [Kind.schema, h.rest.get_eq, get_children?_of_array h.old, hnew,
    get_enumBody?_of_lacks h.noBody, get_children?_of_noItems h.noMembers, hforms,
    Option.bind_map]

theorem ParameterName.sameReading {s : String} {i v w : Json} (h : ParameterName s i v w) :
    SameReading .node v w := by
  have hforms : ∀ constraint fallback varianceIn varianceOut const,
      (Node.tsTypeParameter ⟨.plain s, constraint, fallback, varianceIn, varianceOut, const⟩).rep
        = (Node.tsTypeParameter
          ⟨.node (.named s), constraint, fallback, varianceIn, varianceOut, const⟩).rep :=
    fun _ _ _ _ _ => Node.rep_eq_of_traits (Node.traits_parameterName ..)
  have hnew : w.get (.parameterName "name") = some (.node (.named s)) := by
    obtain ⟨ms, rfl⟩ := h.name.tag.inner.object
    rw [get_parameterName_of_object h.new, h.name.node_eq]
    rfl
  rw [sameReading_iff h.tag (h.rest.hasTag h.tag (by decide))]
  simp (disch := decide) [Kind.schema, h.rest.get_eq, get_parameterName_of_string h.old, hnew,
    hforms]

theorem MappedKey.sameReading {s : String} {constraint p i v w : Json}
    (h : MappedKey s constraint p i v w) : SameReading .node v w := by
  have hforms : ∀ constraint nameType annot optional readonly,
      (Node.tsMappedType ⟨some (.tsTypeParameter ⟨.plain s, constraint, none, false, false, false⟩),
          none, none, nameType, annot, optional, readonly⟩).rep
        = (Node.tsMappedType
          ⟨none, some (.named s), constraint, nameType, annot, optional, readonly⟩).rep :=
    fun _ _ _ _ _ => Node.rep_eq_of_traits (Node.traits_mappedKey ..)
  have hold : v.get (.child? "typeParameter") = p.node.map some :=
    (get_child?_of_some h.old).trans (node?_of_ne_null h.asVariable.tag.ne_null)
  have hkey : w.get (.child? "key") = i.node.map some :=
    (get_child?_of_some h.newKey).trans (node?_of_ne_null h.name.tag.ne_null)
  rw [sameReading_iff h.tag (h.rest.hasTag h.tag (by decide))]
  simp (disch := decide) [Kind.schema, h.rest.get_eq, hold, h.asVariable.node_eq, hkey,
    h.name.node_eq, get_child?_of_some h.newConstraint, get_child?_of_lacks h.noKey,
    get_child?_of_lacks h.noConstraint, get_child?_of_lacks h.noOld, hforms, Option.bind_assoc]

theorem ImportOptions.sameReading {options v w : Json} (h : ImportOptions options v w) :
    SameReading .node v w := by
  have hforms : ∀ source options,
      (Node.importExpression source [options] none).rep
        = (Node.importExpression source [] (some options)).rep :=
    fun _ _ => Node.rep_eq_of_traits (Node.traits_importOptions ..)
  have hold : v.get (.children? "arguments") = options.node.map fun n => [n] := by
    rw [get_children?_of_array h.old, nodes_singleton]
  have hnew : w.get (.childOr? "options" "attributes") = options.node.map some := by
    have hother : w.field? "attributes" = none :=
      (h.rest.field "attributes" (by decide)).symm.trans h.noOther
    rw [get_childOr?_of_none hother, get_child?_of_some h.new, node?_of_ne_null h.given]
  have hnone : v.get (.childOr? "options" "attributes") = some none := by
    rw [get_childOr?_of_none h.noOther, get_child?_of_lacks h.noOptions]
  rw [sameReading_iff h.tag (h.rest.hasTag h.tag (by decide))]
  simp (disch := decide) [Kind.schema, h.rest.get_eq, hold, hnew, hnone,
    get_children?_of_noItems h.noOld, hforms, Option.bind_map]

theorem GlobalKind.sameReading {v w : Json} (h : GlobalKind v w) : SameReading .node v w := by
  have hforms : ∀ id body declare,
      (Node.tsModuleDeclaration ⟨id, body, declare, true, none⟩).rep
        = (Node.tsModuleDeclaration ⟨id, body, declare, false, some "global"⟩).rep :=
    fun _ _ _ => Node.rep_eq_of_traits (Node.traits_globalKind ..)
  rw [sameReading_iff h.tag (h.rest.hasTag h.tag (by decide))]
  simp (disch := decide) [Kind.schema, h.rest.get_eq, get_flag_of_some h.old,
    get_text?_of_some h.new, get_text?_of_lacks h.noKind, get_flag_of_notSet h.noOld, hforms]

theorem ModuleName.sameReading {x y m q v w : Json} (h : ModuleName x y m q v w) :
    SameReading .node v w := by
  obtain ⟨declare', hdeclare⟩ := exists_get_flag h.innerDeclare
  obtain ⟨global', hglobal⟩ := exists_get_flag h.innerGlobal
  obtain ⟨kind', hkind⟩ : ∃ kind, m.get (.text? "kind") = some kind := by
    rcases h.innerKind with hnone | ⟨s, hs⟩
    · exact ⟨none, get_text?_of_lacks hnone⟩
    · exact ⟨some s, get_text?_of_some hs⟩
  have hold : v.get (.child? "body") = m.node.map some :=
    (get_child?_of_some h.old).trans (node?_of_ne_null h.innerTag.ne_null)
  have hbody : w.get (.child? "body") = m.get (.child? "body") :=
    get_congr fun key hkey => by cases List.mem_singleton.mp hkey; exact h.body
  have hinner : m.node = y.node.bind fun id => (m.get (.child? "body")).bind fun body =>
      some (.tsModuleDeclaration ⟨id, body, declare', global', kind'⟩) := by
    rw [node_eq h.innerTag]
    simp [Kind.schema, get_child_of_some h.inner, hdeclare, hglobal, hkind]
  have hname : q.node = x.node.bind fun left => y.node.bind fun right =>
      some (.tsQualifiedName left right) := by
    rw [node_eq h.newTag]
    simp [Kind.schema, Schema.two, get_child_of_some h.left, get_child_of_some h.right]
  -- the loaded nodes are told apart by nothing, provided that the outer one is not global
  have hforms : ∀ {left right global kind}, x.node = some left → y.node = some right →
      v.get (.flag "global") = some global → v.get (.text? "kind") = some kind →
      ∀ body declare,
      (Node.tsModuleDeclaration ⟨left, some (.tsModuleDeclaration
          ⟨right, body, declare', global', kind'⟩), declare, global, kind⟩).rep
        = (Node.tsModuleDeclaration
          ⟨.tsQualifiedName left right, body, declare, global, kind⟩).rep := by
    intro left right global kind hleft hright hflag htext body declare
    cases global with
    | true => exact absurd (field?_of_get_flag hflag) h.noFlag
    | false =>
      have houter : left.kind = .identifier ∨ left.kind = .tsQualifiedName :=
        h.outerTag.imp (·.kind_of_node hleft) (·.kind_of_node hleft)
      have hkind : kind ≠ some "global" := fun hk => h.noKind (field?_of_get_text? (hk ▸ htext))
      exact Node.rep_eq_of_traits (Node.traits_moduleName houter (h.innerName.kind_of_node hright)
        hkind body declare declare' global' kind')
  -- both values read the same fields, so only what is built of them is left to compare
  rw [sameReading_iff h.tag (h.rest.hasTag h.tag (by decide))]
  simp (disch := decide) only [Kind.schema, h.rest.get_eq, get_child_of_some h.outer,
    get_child_of_some h.new, hold, hbody, hinner, hname, Values.map_read_child,
    Values.map_read_child?, Values.map_read_flag, Values.map_read_text?, Values.map_read_nil,
    Option.map_bind, Option.bind_assoc, Option.bind_some, Option.map_some, Function.comp_def]
  exact Option.bind_congr fun left hleft => Option.bind_congr fun right hright =>
    Option.bind_congr fun body _ => Option.bind_congr fun declare _ =>
    Option.bind_congr fun global hflag => Option.bind_congr fun kind htext =>
    congrArg some (hforms hleft hright hflag htext body declare)

theorem AbstractFlag.sameReading {k : Kind} {v w : Json} (h : AbstractFlag k v w) :
    SameReading .node v w := by
  obtain ⟨b, hold⟩ : ∃ b, (FieldSpec.flag "abstract").read v = some b := exists_get_flag h.old
  have hnew : (FieldSpec.flag "abstract").read w = some true := get_flag_of_some h.new
  have habstract := h.isAbstract
  rw [sameReading_iff h.tag h.newTag, Option.map_eq_bind, Option.map_eq_bind]
  cases k with
  | tsAbstractMethodDefinition =>
    have hforms : ∀ m, (Node.tsAbstractMethodDefinition m).rep
        = (Node.methodDefinition { m with abstract := true }).rep :=
      fun m => Node.rep_eq_of_traits (Node.traits_abstractMethod m)
    -- five fields stand before the flag, and five after it
    iterate 5 refine Values.bind_read_congr (h.rest.read_eq (by decide)) fun _ => ?_
    rw [Values.bind_read_of_some hold, Values.bind_read_of_some hnew]
    iterate 5 refine Values.bind_read_congr (h.rest.read_eq (by decide)) fun _ => ?_
    exact congrArg some (hforms _)
  | tsAbstractPropertyDefinition =>
    have hforms : ∀ f, (Node.classField .abstractProperty f).rep
        = (Node.classField .property { f with abstract := true }).rep :=
      fun f => Node.rep_eq_of_traits (Node.traits_abstractProperty f)
    iterate 5 refine Values.bind_read_congr (h.rest.read_eq (by decide)) fun _ => ?_
    rw [Values.bind_read_of_some hold, Values.bind_read_of_some hnew]
    iterate 7 refine Values.bind_read_congr (h.rest.read_eq (by decide)) fun _ => ?_
    exact congrArg some (hforms _)
  | tsAbstractAccessorProperty =>
    have hforms : ∀ f, (Node.classField .abstractAccessor f).rep
        = (Node.classField .accessor { f with abstract := true }).rep :=
      fun f => Node.rep_eq_of_traits (Node.traits_abstractAccessor f)
    iterate 5 refine Values.bind_read_congr (h.rest.read_eq (by decide)) fun _ => ?_
    rw [Values.bind_read_of_some hold, Values.bind_read_of_some hnew]
    iterate 7 refine Values.bind_read_congr (h.rest.read_eq (by decide)) fun _ => ?_
    exact congrArg some (hforms _)
  | _ => exact absurd rfl habstract

theorem MethodTypeParameters.sameReading {k l : Kind} {f g params v w : Json}
    (h : MethodTypeParameters k l f g params v w) : SameReading .node v w := by
  obtain ⟨form, hform⟩ : ∃ form, l.schema = Schema.function form := by
    have hfunction := h.function
    simp only [List.mem_cons, List.not_mem_nil, or_false] at hfunction
    rcases hfunction with rfl | rfl | rfl | rfl <;> exact ⟨_, rfl⟩
  obtain ⟨make, hmake, hschema⟩ : ∃ make,
      (make = Node.methodDefinition ∨ make = Node.tsAbstractMethodDefinition) ∧
        k.schema = Schema.method make := by
    have hmethod := h.method
    simp only [List.mem_cons, List.not_mem_nil, or_false] at hmethod
    rcases hmethod with rfl | rfl
    · exact ⟨_, .inl rfl, rfl⟩
    · exact ⟨_, .inr rfl, rfl⟩
  have hf := node_eq h.functionTag
  have hg := node_eq (h.inside.hasTag h.functionTag (by decide))
  rw [hform] at hf hg
  have hvalue : (FieldSpec.child "value").read v
      = (Values.read (Schema.function form).fields f).map (Schema.function form).build :=
    (get_child_of_some h.value).trans hf
  have hnewValue : (FieldSpec.child "value").read w
      = (Values.read (Schema.function form).fields g).map (Schema.function form).build :=
    (get_child_of_some h.newValue).trans hg
  have hold : (FieldSpec.child? "typeParameters").read v = params.node? := get_child?_of_some h.old
  have hnew : (FieldSpec.child? "typeParameters").read g = params.node? := get_child?_of_some h.new
  have hnoNew : (FieldSpec.child? "typeParameters").read f = some none :=
    get_child?_of_lacks h.noNew
  have hnoOld : (FieldSpec.child? "typeParameters").read w = some none :=
    get_child?_of_lacks h.noOld
  rw [sameReading_iff h.tag (h.rest.hasTag h.tag (by decide)), hschema]
  cases ht : params.node? with
  | none =>
    -- neither the method of the one nor the function of the other is anything
    rw [ht] at hold hnew
    have hmethod : Values.read (Schema.method make).fields v = none :=
      Values.read_eq_none (by simp [Schema.method]) hold
    have hfunction : Values.read (Schema.function form).fields g = none :=
      Values.read_eq_none (by simp [Schema.function]) hnew
    rw [hfunction] at hnewValue
    have hnewMethod : Values.read (Schema.method make).fields w = none :=
      Values.read_eq_none (by simp [Schema.method]) hnewValue
    rw [hmethod, hnewMethod]
  | some t =>
    have hforms : ∀ key id ps body async generator declare returnType kind computed static abstract
        override optional accessibility decorators,
        (make ⟨key, .function form ⟨id, ps, body, async, generator, declare, none, returnType⟩,
            kind, computed, static, abstract, override, optional, accessibility, decorators, t⟩).rep
          = (make ⟨key, .function form ⟨id, ps, body, async, generator, declare, t, returnType⟩,
            kind, computed, static, abstract, override, optional, accessibility, decorators,
            none⟩).rep :=
      fun key id ps body async generator declare returnType kind computed static abstract override
          optional accessibility decorators =>
        Node.rep_eq_of_traits (Node.traits_methodTypeParameters hmake
          ⟨key, key, kind, computed, static, abstract, override, optional, accessibility,
            decorators, none⟩ form ⟨id, ps, body, async, generator, declare, none, returnType⟩ t)
    rw [ht] at hold hnew
    rw [Option.map_eq_bind, Option.map_eq_bind]
    refine Values.bind_read_congr (h.rest.read_eq (by decide)) fun _ => ?_
    -- the function in its place, with six fields before its type parameters and one after them
    rw [Values.bind_read_child hvalue, Values.bind_read_child hnewValue]
    iterate 6 refine Values.bind_read_congr (h.inside.read_eq (by decide)) fun _ => ?_
    rw [Values.bind_read_of_some hnoNew, Values.bind_read_of_some hnew]
    refine Values.bind_read_congr (h.inside.read_eq (by decide)) fun _ => ?_
    rw [Values.bind_read_nil, Values.bind_read_nil]
    -- the other fields of the method, which end with its type parameters
    iterate 8 refine Values.bind_read_congr (h.rest.read_eq (by decide)) fun _ => ?_
    rw [Values.bind_read_of_some hold, Values.bind_read_of_some hnoOld]
    exact congrArg some (hforms ..)

theorem ValueKind.sameReading {k : Kind} {key : String} {v w : Json} (h : ValueKind k key v w) :
    SameReading .node v w := by
  have hnone := get_text?_of_lacks h.noKind
  have hnew := get_text?_of_some h.new
  have hkind := h.hasKind
  simp only [valueKinds, List.mem_cons, Prod.mk.injEq, List.not_mem_nil, or_false] at hkind
  -- each of the five kinds has a schema of its own
  rcases hkind with ⟨rfl, rfl⟩ | ⟨rfl, rfl⟩ | ⟨rfl, rfl⟩ | ⟨rfl, rfl⟩ | ⟨rfl, rfl⟩
  all_goals rw [sameReading_iff h.tag (h.rest.hasTag h.tag (by decide))]
  · have hforms : ∀ specifiers source attributes,
        (Node.importDeclaration specifiers source none attributes).rep
          = (Node.importDeclaration specifiers source (some "value") attributes).rep :=
      fun _ _ _ => Node.rep_eq_of_traits (Node.traits_importKind ..)
    simp (disch := decide) [Kind.schema, h.rest.get_eq, hnone, hnew, hforms]
  · have hforms : ∀ imported localName,
        (Node.importSpecifier imported localName none).rep
          = (Node.importSpecifier imported localName (some "value")).rep :=
      fun _ _ => Node.rep_eq_of_traits (Node.traits_importSpecifierKind ..)
    simp (disch := decide) [Kind.schema, h.rest.get_eq, hnone, hnew, hforms]
  · have hforms : ∀ declaration specifiers source attributes,
        (Node.exportNamedDeclaration ⟨declaration, specifiers, source, none, attributes⟩).rep
          = (Node.exportNamedDeclaration
            ⟨declaration, specifiers, source, some "value", attributes⟩).rep :=
      fun _ _ _ _ => Node.rep_eq_of_traits (Node.traits_exportKind ..)
    simp (disch := decide) [Kind.schema, h.rest.get_eq, hnone, hnew, hforms]
  · have hforms : ∀ localName exported,
        (Node.exportSpecifier localName exported none).rep
          = (Node.exportSpecifier localName exported (some "value")).rep :=
      fun _ _ => Node.rep_eq_of_traits (Node.traits_exportSpecifierKind ..)
    simp (disch := decide) [Kind.schema, h.rest.get_eq, hnone, hnew, hforms]
  · have hforms : ∀ exported source attributes,
        (Node.exportAllDeclaration exported source none attributes).rep
          = (Node.exportAllDeclaration exported source (some "value") attributes).rep :=
      fun _ _ _ => Node.rep_eq_of_traits (Node.traits_exportAllKind ..)
    simp (disch := decide) [Kind.schema, h.rest.get_eq, hnone, hnew, hforms]

end Replacement

/-! ## §3. Replacements in a tree. -/

theorem Replaces.sameReading {v w : Json} (h : Replaces v w) : SameReading .node v w := by
  cases h with
  | fieldName h => exact h.sameReading
  | enumBody h => exact h.sameReading
  | parameterName h => exact h.sameReading
  | mappedKey h => exact h.sameReading
  | importOptions h => exact h.sameReading
  | globalKind h => exact h.sameReading
  | moduleName h => exact h.sameReading
  | abstractFlag h => exact h.sameReading
  | methodTypeParameters h => exact h.sameReading
  | valueKind h => exact h.sameReading

theorem Replaces.objects {v w : Json} (h : Replaces v w) :
    (∃ ms, v = .object ms) ∧ ∃ ms, w = .object ms := by
  obtain ⟨keys, hkeys⟩ : ∃ keys, AgreeExcept keys v w := by
    rcases h with h | h | h | h | h | h | h | h | h | h <;> exact ⟨_, h.rest⟩
  exact ⟨hkeys.left, hkeys.right⟩

/-- Both ways to write an object have a tag. -/
theorem Replaces.hasTag {v w : Json} (h : Replaces v w) :
    (∃ k : Kind, v.HasTag k) ∧ ∃ k : Kind, w.HasTag k := by
  cases h with
  | @fieldName k f other _ h =>
    have hnames : f.names = [f.name, other] := by simp [FieldSpec.names, h.named]
    have htype : "type" ∉ [f.name, other] := hnames ▸ k.type_not_mem_names f h.field
    exact ⟨⟨_, h.tag⟩, _, h.rest.hasTag h.tag htype⟩
  | @valueKind k key h =>
    have htype : "type" ∉ [key] := by
      have hkeys : ∀ p ∈ Replacement.valueKinds, "type" ∉ [p.2] := by decide
      exact hkeys _ h.hasKind
    exact ⟨⟨_, h.tag⟩, _, h.rest.hasTag h.tag htype⟩
  | abstractFlag h => exact ⟨⟨_, h.tag⟩, _, h.newTag⟩
  | _ h => exact ⟨⟨_, h.tag⟩, _, h.rest.hasTag h.tag (by decide)⟩

/-- A replacement leaves a root with a tag where it was one. -/
theorem Rewrites.hasTag_iff {v w : Json} (h : Rewrites .node v w) :
    (∃ k : Kind, v.HasTag k) ↔ ∃ k : Kind, w.HasTag k := by
  cases h with
  | here h => exact ⟨fun _ => h.hasTag.2, fun _ => h.hasTag.1⟩
  | @inNode _ _ _ _ k f key tag field named old new rest _ =>
    -- no field is called like the tag
    have htype : "type" ∉ [key] := fun hmem => by
      cases List.mem_singleton.mp hmem
      exact k.type_not_mem_names f field named
    exact exists_congr fun _ => rest.hasTag_iff htype
  | inner shape => cases shape
  | item shape => cases shape

/-- What is not a list is rewritten as an object. -/
theorem Rewrites.objects {s : Shape} {v w : Json} (h : Rewrites s v w) (hs : s.item? = none) :
    (∃ ms, v = .object ms) ∧ ∃ ms, w = .object ms := by
  induction h with
  | here h => exact h.objects
  | inNode _ _ _ _ _ rest => exact ⟨rest.left, rest.right⟩
  | inRecord _ _ _ _ rest => exact ⟨rest.left, rest.right⟩
  | @inner s t _ _ shape _ ih => exact ih (by cases s <;> cases shape <;> rfl)
  | item shape => rw [shape] at hs; cases hs

/-- **A replacement anywhere in a tree keeps its reading.** -/
theorem Rewrites.sameReading {s : Shape} {v w : Json} (h : Rewrites s v w) :
    SameReading s v w := by
  induction h with
  | here h => exact h.sameReading
  | @inNode _ _ _ _ k f key tag field named old new rest _ ih =>
    have htype : "type" ∉ [key] := fun hmem => by
      cases List.mem_singleton.mp hmem
      exact k.type_not_mem_names f field named
    exact .node tag (rest.hasInnerTag tag htype)
      (.of_agreeExcept k.distinct k.nodup_names field named old new rest ih)
  | @inRecord _ _ _ _ r _ _ field named old new rest _ ih =>
    exact .record rest.left rest.right
      (.of_agreeExcept r.distinct r.nodup_names field named old new rest ih)
  | @inner s t _ _ shape h ih =>
    have hobjects := h.objects (by cases s <;> cases shape <;> rfl)
    exact .inner shape hobjects.1 hobjects.2 ih
  | item shape _ ih => exact .item shape ih _ _

end Json

end Estree
