import Estree.Proofs.Dispatch
import Estree.Proofs.Import.Reading

/-!
# The text of an import determines it

`Import.ofNode?` gives the import that a declaration without attributes is, if its names are
identifiers and its source is a literal whose text was kept. It is written as `Import.chars` says
exactly if its specifiers are in order (`Import.generate_eq_ok_iff`), so equal texts come from equal
imports.

A specifier that leads but comes after one that does not stops the writer, and so does every other
fault of the specifiers, at a defect: nothing inside of them is dispatched (`Doc.StopsAtDefect`).

Main results:

* `Emit.stopsAtDefect_importSpecifiers`: the specifiers stop at defects only.
* `Import.generate_eq_ok_iff`: an import is written as it is when its specifiers are in order.
* `Import.generate_error_of_late`: a specifier that leads too late is a defect.
* `Generator.generate_import`: imports with the same text are the same.
-/

namespace Estree

/-! ## §1. Stops at defects. -/

namespace Doc

/-- The document stops at a defect of a node, if it stops. -/
def StopsAtDefect (d : Doc) : Prop := ∀ h, d.halt? = some h → ∃ k e, h = .error (.malformed k e)

variable {a b d : Doc} {sep : Doc} {ds : List Doc}

/-- What does not stop stops at no other fault. -/
theorem StopsAtDefect.of_halt?_eq_none (h : d.halt? = none) : d.StopsAtDefect := by
  intro x hx
  rw [h] at hx
  cases hx

/-- A defect is a stop of that kind. -/
theorem stopsAtDefect_malformed (n : Node) (e : Defect) : (malformed n e).StopsAtDefect := by
  rintro _ ⟨⟩
  exact ⟨_, _, rfl⟩

/-- Two parts that stop at defects only. -/
theorem StopsAtDefect.append (ha : a.StopsAtDefect) (hb : b.StopsAtDefect) :
    (a ++ b).StopsAtDefect := by
  intro x hx
  rcases Option.or_eq_some_iff.mp hx with hx | ⟨-, hx⟩
  · exact ha x hx
  · exact hb x hx

theorem StopsAtDefect.join (hsep : sep.StopsAtDefect) (h : ∀ d ∈ ds, d.StopsAtDefect) :
    (Doc.join sep ds).StopsAtDefect := by
  induction ds with
  | nil => exact .of_halt?_eq_none rfl
  | cons d ds ih =>
    obtain ⟨hd, hds⟩ := List.forall_mem_cons.mp h
    cases ds with
    | nil => exact hd
    | cons e ds => exact (hd.append hsep).append (ih hds)

/-- The name of a node that has to have one. -/
theorem stopsAtDefect_ofExcept {α : Type} {x : Except EmitError α} {f : α → Doc}
    (hx : ∀ e, x = .error e → ∃ k d, e = .malformed k d) (hf : ∀ y, (f y).StopsAtDefect) :
    (ofExcept x f).StopsAtDefect := by
  cases x with
  | ok y => exact hf y
  | error e =>
    obtain ⟨k, d, rfl⟩ := hx e rfl
    rintro _ ⟨⟩
    exact ⟨k, d, rfl⟩

/-- If a list is written to its end, so is each part. -/
theorem halt?_of_mem_join (h : (Doc.join sep ds).halt? = none) : ∀ d ∈ ds, d.halt? = none := by
  induction ds with
  | nil => exact List.forall_mem_nil _
  | cons d ds ih =>
    cases ds with
    | nil => exact List.forall_mem_singleton.mpr h
    | cons e ds =>
      obtain ⟨hd, hrest⟩ := Option.or_eq_none_iff.mp h
      exact List.forall_mem_cons.mpr ⟨(Option.or_eq_none_iff.mp hd).1, ih hrest⟩

end Doc

/-- A missing name is a defect. -/
theorem Node.identifierName_error {n : Node} {e : EmitError} (h : n.identifierName = .error e) :
    ∃ k d, e = .malformed k d := by
  unfold identifierName at h
  split at h
  next => cases h
  next =>
    cases h
    exact ⟨_, _, rfl⟩

/-- A missing name of an export is a defect. -/
theorem Node.exportName_error {n : Node} {e : EmitError} (h : n.exportName = .error e) :
    ∃ k d, e = .malformed k d := by
  unfold exportName at h
  split at h
  next => cases h
  next =>
    cases h
    exact ⟨_, _, rfl⟩

namespace Emit

/-! ## §2. Specifiers. -/

/-- The word for a kind is always written. -/
theorem halt?_kindWord (kind : Option String) : (kindWord .typed kind).halt? = none := by
  cases kind with
  | none => rfl
  | some k =>
    show (Doc.onlyIf _ _).halt? = none
    unfold Doc.onlyIf
    split <;> rfl

/-- Names outside of braces stop at defects only. -/
theorem stopsAtDefect_leadingSpecifiers {sep : Doc} (hsep : sep.StopsAtDefect) (ns : List Node) :
    (leadingSpecifiers sep ns).StopsAtDefect := by
  induction ns generalizing sep with
  | nil => exact .of_halt?_eq_none rfl
  | cons n ns ih =>
    refine .append (Doc.stopsAtDefect_ofExcept (fun e he => ?_) fun x => ?_)
      (ih (.of_halt?_eq_none rfl))
    · cases n with
      | importDefaultSpecifier c => exact Node.identifierName_error he
      | importNamespaceSpecifier c =>
        cases hc : c.identifierName with
        | ok x => simp [leadingName, hc, Except.map] at he
        | error e' =>
          simp only [leadingName, hc, Except.map, Except.error.injEq] at he
          exact Node.identifierName_error (he ▸ hc)
      | _ => cases he
    · exact hsep.append (.of_halt?_eq_none rfl)

/-- Names in braces stop at defects only. -/
theorem stopsAtDefect_importSpecifier (n : Node) : (importSpecifier .typed n).StopsAtDefect := by
  cases n with
  | importSpecifier imported localName kind =>
    refine .append (.of_halt?_eq_none (halt?_kindWord kind)) ?_
    refine Doc.stopsAtDefect_ofExcept (fun e => Node.exportName_error) fun x => ?_
    refine Doc.stopsAtDefect_ofExcept (fun e => Node.identifierName_error) fun y => ?_
    refine .of_halt?_eq_none ?_
    show (Doc.onlyIf _ _).halt? = none
    unfold Doc.onlyIf
    split <;> rfl
  | _ => exact Doc.stopsAtDefect_malformed _ _

/-- **The specifiers stop at defects only**: no node inside of them is dispatched. -/
theorem stopsAtDefect_importSpecifiers (ns : List Node) :
    (importSpecifiers .typed ns).StopsAtDefect := by
  refine .append (stopsAtDefect_leadingSpecifiers (.of_halt?_eq_none rfl) _) ?_
  split
  next => exact .of_halt?_eq_none rfl
  next =>
    have hnamed : (Doc.join ", " ((ns.dropWhile isLeading).map
        (importSpecifier .typed))).StopsAtDefect :=
      .join (.of_halt?_eq_none rfl) (List.forall_mem_map.mpr fun n _ =>
        stopsAtDefect_importSpecifier n)
    refine .append ?_ (.append (.append (.of_halt?_eq_none rfl) hnamed) (.of_halt?_eq_none rfl))
    cases ns.takeWhile isLeading <;> exact .of_halt?_eq_none rfl

/-- Where the specifiers are written, those in braces are not of those that lead. -/
theorem not_isLeading_of_halt? {ns : List Node} (h : (importSpecifiers .typed ns).halt? = none) :
    ∀ n ∈ ns.dropWhile isLeading, isLeading n = false := by
  intro n hn
  have hne : (ns.dropWhile isLeading).isEmpty = false := by
    simpa using List.ne_nil_of_mem hn
  unfold importSpecifiers at h
  simp only [hne] at h
  have hbraces := (Option.or_eq_none_iff.mp (Option.or_eq_none_iff.mp h).2).2
  have hjoin := (Option.or_eq_none_iff.mp (Option.or_eq_none_iff.mp hbraces).1).2
  have hspecifier := Doc.halt?_of_mem_join hjoin _ (List.mem_map_of_mem hn)
  cases n with
  | importDefaultSpecifier | importNamespaceSpecifier => cases hspecifier
  | _ => rfl

end Emit

/-! ## §3. Imports as nodes. -/

namespace Import

/-- The kind that is written: that of values is not. -/
def writtenKind (kind : Option String) : Option String := kind.filter (· != "value")

/-- The specifier that a node is, if its names are identifiers. -/
def Specifier.ofNode? : Node → Option Specifier
  | .importDefaultSpecifier (.identifier x _ _ _) => some (.defaultName x)
  | .importNamespaceSpecifier (.identifier x _ _ _) => some (.namespaceName x)
  | .importSpecifier (.identifier x _ _ _) (.identifier y _ _ _) kind =>
    some (.named (writtenKind kind) x y)
  | _ => none

/-- The import that a node is, if it has no attributes and a source whose text was kept. -/
def ofNode? : Node → Option Import
  | .importDeclaration specifiers (.literal l) kind [] =>
    (specifiers.mapM Specifier.ofNode?).bind fun ss =>
      l.raw.map fun raw => ⟨writtenKind kind, ss, raw⟩
  | _ => none

/-- The nodes are the specifiers, one by one. -/
abbrev AreSpecifiers : List Node → List Specifier → Prop :=
  List.Forall₂ fun n s => Specifier.ofNode? n = some s

/-- The specifiers that are read off a list of nodes belong to them one by one. -/
theorem areSpecifiers_of_mapM {ns : List Node} {ss : List Specifier}
    (h : ns.mapM Specifier.ofNode? = some ss) : AreSpecifiers ns ss := by
  induction ns generalizing ss with
  | nil =>
    cases h
    exact .nil
  | cons n ns ih =>
    rw [List.mapM_cons] at h
    obtain ⟨s, hs, h⟩ := Option.bind_eq_some_iff.mp h
    obtain ⟨rest, hrest, h⟩ := Option.bind_eq_some_iff.mp h
    cases h
    exact .cons hs (ih hrest)

/-- What a node must be for an import to be read off it. -/
theorem exists_of_ofNode? {n : Node} {i : Import} (h : ofNode? n = some i) :
    ∃ specifiers l kind, n = .importDeclaration specifiers (.literal l) kind [] ∧
      i.kind = writtenKind kind ∧ AreSpecifiers specifiers i.specifiers ∧
      l.raw = some i.source := by
  unfold ofNode? at h
  split at h
  next specifiers l kind =>
    obtain ⟨ss, hss, h⟩ := Option.bind_eq_some_iff.mp h
    obtain ⟨raw, hraw, rfl⟩ := Option.map_eq_some_iff.mp h
    exact ⟨specifiers, l, kind, rfl, rfl, areSpecifiers_of_mapM hss, hraw⟩
  next => cases h

/-- The printer and the reading agree on which names stand outside of braces. -/
theorem isLeading_of_ofNode? {n : Node} {s : Specifier} (h : Specifier.ofNode? n = some s) :
    Emit.isLeading n = s.isLeading := by
  unfold Specifier.ofNode? at h
  split at h
  all_goals cases h
  all_goals rfl

/-- The specifiers that lead are told from the others as the nodes are. -/
theorem AreSpecifiers.split {ns : List Node} {ss : List Specifier} (h : AreSpecifiers ns ss) :
    AreSpecifiers (ns.takeWhile Emit.isLeading) (ss.takeWhile Specifier.isLeading) ∧
      AreSpecifiers (ns.dropWhile Emit.isLeading) (ss.dropWhile Specifier.isLeading) := by
  induction h with
  | nil => exact ⟨.nil, .nil⟩
  | @cons n s ns ss hs hss ih =>
    rw [List.takeWhile_cons, List.takeWhile_cons, List.dropWhile_cons, List.dropWhile_cons,
      isLeading_of_ofNode? hs]
    split
    next => exact ⟨.cons hs ih.1, ih.2⟩
    next => exact ⟨.nil, .cons hs hss⟩

/-- So they do for lists in which all do, or none. -/
theorem AreSpecifiers.forall_isLeading {ns : List Node} {ss : List Specifier}
    (h : AreSpecifiers ns ss) {b : Bool} (hns : ∀ n ∈ ns, Emit.isLeading n = b) :
    ∀ s ∈ ss, s.isLeading = b := by
  induction h with
  | nil => exact List.forall_mem_nil _
  | cons hs _ ih =>
    obtain ⟨hn, hns⟩ := List.forall_mem_cons.mp hns
    exact List.forall_mem_cons.mpr ⟨(isLeading_of_ofNode? hs).symm.trans hn, ih hns⟩

/-- There are no specifiers when there are no nodes. -/
theorem AreSpecifiers.isEmpty_eq {ns : List Node} {ss : List Specifier} (h : AreSpecifiers ns ss) :
    ns.isEmpty = ss.isEmpty := by
  cases h <;> rfl

/-- The elements up to the first that is not selected are all that are, if no other comes after it.
-/
theorem takeWhile_eq_filter {α : Type} {p : α → Bool} {xs : List α}
    (h : ∀ x ∈ xs.dropWhile p, p x = false) :
    xs.takeWhile p = xs.filter p ∧ xs.dropWhile p = xs.filter fun x => !p x := by
  have hyes : ∀ x ∈ xs.takeWhile p, p x = true := fun x hx => List.mem_takeWhile_imp hx
  have hall := congrArg (List.filter p) (List.takeWhile_append_dropWhile (p := p) (l := xs))
  have hnot := congrArg (List.filter fun x => !p x)
    (List.takeWhile_append_dropWhile (p := p) (l := xs))
  rw [List.filter_append, List.filter_eq_self.mpr hyes,
    List.filter_eq_nil_iff.mpr fun x hx => by simp [h x hx], List.append_nil] at hall
  rw [List.filter_append, List.filter_eq_nil_iff.mpr fun x hx => by simp [hyes x hx],
    List.filter_eq_self.mpr fun x hx => by simp [h x hx], List.nil_append] at hnot
  exact ⟨hall, hnot⟩

/-- In order, no specifier leads after the first that does not. -/
theorem ordered_iff {i : Import} :
    i.Ordered ↔ ∀ s ∈ i.specifiers.dropWhile Specifier.isLeading, s.isLeading = false := by
  constructor
  · intro h s hs
    rw [h, List.dropWhile_append_of_pos fun s hs => (mem_leading.mp hs).2] at hs
    exact (mem_named.mp ((List.dropWhile_sublist _).subset hs)).2
  · intro h
    obtain ⟨hleading, hnamed⟩ := takeWhile_eq_filter h
    rw [Ordered, leading, named, ← hleading, ← hnamed, List.takeWhile_append_dropWhile]

/-! ## §4. Lines. -/

/-- The line of the word for a kind. -/
theorem line?_kindWord (kind : Option String) :
    (Emit.kindWord .typed kind).line? = some (kindChars (writtenKind kind)) := by
  cases kind with
  | none => rfl
  | some k =>
    by_cases hk : k = "value"
    · subst hk
      rfl
    · have hwritten : writtenKind (some k) = some k := by simp [writtenKind, hk]
      rw [hwritten]
      simp [Emit.kindWord, Dialect.typedOnly, Doc.ofOption, Doc.onlyIf, kindChars, hk]

/-- The line of a name outside of braces, with what stands before it. -/
theorem line?_leadingName {n : Node} {s : Specifier} (h : Specifier.ofNode? n = some s)
    (hs : s.isLeading = true) {sep : Doc} {cs : List Char} (hsep : sep.line? = some cs) :
    (Doc.ofExcept (Emit.leadingName n) fun name => sep ++ name).line? = some (cs ++ s.chars) := by
  unfold Specifier.ofNode? at h
  split at h
  all_goals cases h
  · simp [Emit.leadingName, Node.identifierName, Node.identifierName?, Doc.ofExcept, hsep,
      Specifier.chars]
  · simp [Emit.leadingName, Node.identifierName, Node.identifierName?, Doc.ofExcept, hsep,
      Specifier.chars, Except.map]
  · cases hs

/-- The specifiers that lead, with a separator in front. -/
theorem line?_leadingSpecifiers {ns : List Node} {ss : List Specifier} (h : AreSpecifiers ns ss)
    (hss : ∀ s ∈ ss, s.isLeading = true) (hne : ss ≠ []) {sep : Doc} {cs : List Char}
    (hsep : sep.line? = some cs) :
    (Emit.leadingSpecifiers sep ns).line?
      = some (cs ++ [',', ' '].intercalate (ss.map Specifier.chars)) := by
  induction h generalizing sep cs with
  | nil => exact absurd rfl hne
  | @cons n s ns ss hs hrest ih =>
    obtain ⟨hlead, hss⟩ := List.forall_mem_cons.mp hss
    rw [Emit.leadingSpecifiers, Doc.line?_append, line?_leadingName hs hlead hsep]
    by_cases hnil : ss = []
    · subst hnil
      cases hrest
      simp [Emit.leadingSpecifiers]
    · rw [ih hss hnil (Doc.line?_text ", "), List.map_cons,
        List.intercalate_cons_of_ne_nil (by simpa using hnil)]
      simp

/-- The line of a specifier in braces. -/
theorem line?_importSpecifier {n : Node} {s : Specifier} (h : Specifier.ofNode? n = some s)
    (hs : s.isLeading = false) : (Emit.importSpecifier .typed n).line? = some s.chars := by
  unfold Specifier.ofNode? at h
  split at h
  all_goals cases h
  · cases hs
  · cases hs
  next x _ _ _ y _ _ _ kind =>
    have hnames : (Emit.renamed x y).line?
        = some (if x = y then x.toList else x.toList ++ " as ".toList ++ y.toList) := by
      by_cases hxy : x = y <;> simp [Emit.renamed, Doc.onlyIf, hxy]
    show (Emit.kindWord .typed kind ++ Emit.renamed x y).line? = _
    rw [Doc.line?_append, line?_kindWord, hnames]
    rfl

/-- The line of the specifiers in braces, with commas between them. -/
theorem line?_join {ns : List Node} {ss : List Specifier} (h : AreSpecifiers ns ss)
    (hss : ∀ s ∈ ss, s.isLeading = false) :
    (Doc.join ", " (ns.map (Emit.importSpecifier .typed))).line?
      = some ([',', ' '].intercalate (ss.map Specifier.chars)) := by
  induction h with
  | nil => rfl
  | @cons n s ns ss hs hrest ih =>
    obtain ⟨hnamed, hss⟩ := List.forall_mem_cons.mp hss
    have hline := line?_importSpecifier hs hnamed
    cases hrest with
    | nil => simpa [Doc.join] using hline
    | cons ht hrest =>
      have hmore := ih hss
      simp only [List.map_cons, Doc.join, List.intercalate_cons_cons] at hmore ⊢
      rw [Doc.line?_append, Doc.line?_append, hline, hmore]
      simp

/-- The specifiers of an import, if they are in order. -/
theorem line?_importSpecifiers {ns : List Node} {i : Import} (h : AreSpecifiers ns i.specifiers)
    (ho : i.Ordered) : (Emit.importSpecifiers .typed ns).line? = some i.clause := by
  obtain ⟨hleading, hnamed⟩ := h.split
  -- in order, the names before the braces are the first ones of the list
  obtain ⟨htake, hdrop⟩ := takeWhile_eq_filter (ordered_iff.mp ho)
  rw [htake, ← Import.leading] at hleading
  rw [hdrop, ← Import.named] at hnamed
  have hyes : ∀ s ∈ i.leading, s.isLeading = true := fun s hs => (mem_leading.mp hs).2
  have hno : ∀ s ∈ i.named, s.isLeading = false := fun s hs => (mem_named.mp hs).2
  have hbefore : (Emit.leadingSpecifiers .nil (ns.takeWhile Emit.isLeading)).line?
      = some ([',', ' '].intercalate (i.leading.map Specifier.chars)) := by
    by_cases hnone : i.leading = []
    · rw [hnone] at hleading ⊢
      rw [List.forall₂_nil_right_iff.mp hleading]
      rfl
    · exact line?_leadingSpecifiers hleading hyes hnone Doc.line?_nil
  unfold Emit.importSpecifiers clause
  simp only [Doc.line?_append, hbefore, hleading.isEmpty_eq, hnamed.isEmpty_eq, Doc.braces]
  -- a comma stands before the braces only if a name does
  by_cases hnone : i.named = []
  · simp [hnone]
  · have hbraces := line?_join hnamed hno
    by_cases hfirst : i.leading = []
    · simp [hnone, hfirst, hbraces, Doc.onlyIf]
    · rw [if_neg hnone, intercalate_concat (by simpa using hfirst)]
      simp [hnone, hfirst, hbraces, Doc.onlyIf]

/-- The document of an import in the typed dialect. -/
theorem line?_emit {n : Node} {i : Import} (h : ofNode? n = some i) (ho : i.Ordered) :
    ((Grammar.ofDialect .typed).scope.emit n).line? = some i.chars := by
  obtain ⟨specifiers, l, kind, rfl, hkind, hspecifiers, hraw⟩ := exists_of_ofNode? h
  have hsource : ((Grammar.ofDialect .typed).scope.emitAs .literal (.literal l)).line?
      = some i.source.toList := by
    have hemit : (Grammar.ofDialect .typed).scope.emitAs .literal (.literal l)
        = Emit.literalText (.literal l) l := Grammar.scope_emitAs _ _ _
    rw [hemit, Emit.literalText, hraw]
    rfl
  -- with no specifiers there is no clause and no `from`
  have hclause : (Doc.onlyIf (!specifiers.isEmpty)
        (Emit.importSpecifiers .typed specifiers ++ " from ")).line?
      = some (if i.specifiers = [] then [] else i.clause ++ " from ".toList) := by
    rw [hspecifiers.isEmpty_eq]
    by_cases hnone : i.specifiers = []
    · simp [hnone, Doc.onlyIf]
    · simp [hnone, Doc.onlyIf, line?_importSpecifiers hspecifiers ho]
  have hdoc :
      (Grammar.ofDialect .typed).scope.emit (.importDeclaration specifiers (.literal l) kind [])
      = _ := Grammar.scope_emit (p := .importDeclaration .typed) rfl
  have hattributes : Emit.attributeClause (Grammar.ofDialect .typed).scope [] = .nil := rfl
  have hend : ";".toList = [';'] := by simp
  -- kind, clause, source and semicolon one after the other
  rw [hdoc]
  simp only [Procedure.doc, Emit.importDeclaration, Doc.line?_append, Doc.line?_text,
    line?_kindWord, hclause, hsource, ← hkind, hattributes, Doc.line?_nil, hend, Option.bind_some,
    Option.map_some, List.append_nil]
  rfl

/-! ## §5. Texts. -/

/-- An import stops where its specifiers do. -/
theorem halt?_emit {specifiers attributes : List Node} {source : Node} {kind : Option String}
    {h : Halt} (hspecifiers : (Emit.importSpecifiers .typed specifiers).halt? = some h) :
    ((Grammar.ofDialect .typed).emit (.importDeclaration specifiers source kind attributes)).halt?
      = some h := by
  have hdoc : (Grammar.ofDialect .typed).emit (.importDeclaration specifiers source kind attributes)
      = _ := Grammar.scope_emit (p := .importDeclaration .typed) rfl
  have hne : specifiers.isEmpty = false := by
    cases specifiers with
    | nil => cases hspecifiers
    | cons => rfl
  rw [hdoc]
  simp [Procedure.doc, Emit.importDeclaration, Emit.halt?_kindWord, Doc.onlyIf, hne, hspecifiers]

/-- If the specifiers are written to the end, those outside of braces come first. -/
theorem ordered_of_halt? {ns : List Node} {i : Import} (h : AreSpecifiers ns i.specifiers)
    (hhalt : (Emit.importSpecifiers .typed ns).halt? = none) : i.Ordered :=
  ordered_iff.mpr (h.split.2.forall_isLeading (Emit.not_isLeading_of_halt? hhalt))

/-- **An import is written as it is** exactly if its specifiers are in order. -/
theorem generate_eq_ok_iff {n : Node} {i : Import} (h : ofNode? n = some i) {l : Layout}
    {text : String} :
    (Generator.ofDialect .typed l).generate n = .ok text ↔
      i.Ordered ∧ text = .ofList i.chars := by
  constructor
  · intro htext
    obtain ⟨specifiers, literal, kind, rfl, -, hspecifiers, -⟩ := exists_of_ofNode? h
    have hhalt : (Emit.importSpecifiers .typed specifiers).halt? = none := by
      refine Option.eq_none_iff_forall_ne_some.mpr fun x hx => ?_
      have hnone := (Generator.generate_eq_ok_iff.mp htext).1
      exact absurd ((halt?_emit hx).symm.trans hnone) (by simp)
    have ho := ordered_of_halt? hspecifiers hhalt
    refine ⟨ho, ?_⟩
    rw [Generator.generate_of_line? (line?_emit h ho)] at htext
    exact (Except.ok.inj htext).symm
  · rintro ⟨ho, rfl⟩
    exact Generator.generate_of_line? (line?_emit h ho) l

/-- What comes after an element that is not selected is not passed over. -/
theorem mem_dropWhile_of_sublist {α : Type} {p : α → Bool} {a b : α} {xs : List α}
    (h : [a, b].Sublist xs) (ha : p a = false) : b ∈ xs.dropWhile p := by
  induction xs with
  | nil => cases h
  | cons x xs ih =>
    cases hx : p x with
    | false =>
      rw [List.dropWhile_cons_of_neg (by simp [hx])]
      exact h.subset (by simp)
    | true =>
      rw [List.dropWhile_cons_of_pos hx]
      cases h with
      | cons _ h => exact ih h
      | cons_cons _ h =>
        rw [hx] at ha
        cases ha

/-- **A specifier that leads too late** is a defect. -/
theorem generate_error_of_late {specifiers attributes : List Node} {source early late : Node}
    {kind : Option String} (h : [early, late].Sublist specifiers)
    (hearly : Emit.isLeading early = false) (hlate : Emit.isLeading late = true) (l : Layout) :
    ∃ k d, (Generator.ofDialect .typed l).generate
      (.importDeclaration specifiers source kind attributes) = .error (.emit (.malformed k d)) := by
  cases hhalt : (Emit.importSpecifiers .typed specifiers).halt? with
  | none =>
    -- the late one would have been written in the braces
    have hno := Emit.not_isLeading_of_halt? hhalt late (mem_dropWhile_of_sublist h hearly)
    rw [hlate] at hno
    cases hno
  | some x =>
    obtain ⟨k, d, rfl⟩ := Emit.stopsAtDefect_importSpecifiers specifiers x hhalt
    refine ⟨k, d, (Generator.generate_eq _ _).trans ?_⟩
    have hemit := @halt?_emit specifiers attributes source kind _ hhalt
    rw [show (Generator.ofDialect .typed l).grammar = Grammar.ofDialect .typed from rfl, hemit]
    rfl

/-- There are no blanks in a name. -/
theorem IsName.count_space {x : String} (h : IsName x) : x.toList.count ' ' = 0 := by
  refine List.count_eq_zero.mpr fun hmem => ?_
  have halpha := List.all_eq_true.mp h.2 ' ' hmem
  cases halpha

/-- The word `as` stands between two names exactly where they differ: there are two spaces around
it, and but one after a kind. -/
theorem as_infix_chars_iff {kind : Option String} {x y : String} (hkind : ∀ k ∈ kind, IsName k)
    (hx : IsName x) : " as ".toList <:+: (Specifier.named kind x y).chars ↔ x ≠ y := by
  constructor
  · rintro h rfl
    have hcount := h.sublist.count_le ' '
    have hspaces : " as ".toList.count ' ' = 2 := by decide
    rw [hspaces, Specifier.chars, if_pos rfl, List.count_append, hx.count_space] at hcount
    cases kind with
    | none => simp [kindChars] at hcount
    | some k => simp [kindChars, (hkind k rfl).count_space] at hcount
  · intro hxy
    rw [Specifier.chars, if_neg hxy]
    exact ⟨kindChars kind ++ x.toList, y.toList, by simp⟩

end Import

open Import

/-- **The text of an import determines it.** Two imports with the same text, in whatever layouts,
have the same kind, the same specifiers in the same order and the same source, where the kind of
values counts as none. An import is written exactly if no specifier that leads comes after one that
does not: those that lead first, in their order, and the others in braces, with `as` where their
names differ. If one comes after, be the rest of the import as it may, it is reported as a defect.
-/
theorem Generator.generate_import :
    (∀ {m n : Node} {i j : Import}, ofNode? m = some i → ofNode? n = some j → i.Plain → j.Plain →
      ∀ {l l' : Layout} {text : String}, (Generator.ofDialect .typed l).generate m = .ok text →
        (Generator.ofDialect .typed l').generate n = .ok text → i = j) ∧
    (∀ {n : Node} {i : Import}, ofNode? n = some i → ∀ (l : Layout) (text : String),
      (Generator.ofDialect .typed l).generate n = .ok text ↔
        i.Ordered ∧ text = .ofList i.chars) ∧
    (∀ {kind : Option String} {x y : String}, (Specifier.named kind x y).Plain →
      (" as ".toList <:+: (Specifier.named kind x y).chars ↔ x ≠ y)) ∧
    ∀ {specifiers : List Node} {early late : Node}, [early, late].Sublist specifiers →
      Emit.isLeading early = false → Emit.isLeading late = true →
      ∀ (l : Layout) (source : Node) (kind : Option String) (attributes : List Node),
        ∃ k d, (Generator.ofDialect .typed l).generate
          (.importDeclaration specifiers source kind attributes) =
            .error (.emit (.malformed k d)) := by
  refine ⟨?_, fun h l text => Import.generate_eq_ok_iff h,
    fun h => as_infix_chars_iff h.1 h.2.1, ?_⟩
  · intro m n i j hm hn hi hj l l' text htext htext'
    -- both texts are what the imports are written as, and these are different for different imports
    obtain ⟨ho, rfl⟩ := (Import.generate_eq_ok_iff hm).mp htext
    obtain ⟨ho', hchars⟩ := (Import.generate_eq_ok_iff hn).mp htext'
    exact eq_of_chars_eq hi hj ho ho' (String.ofList_injective hchars)
  · exact fun h hearly hlate l _ _ _ => generate_error_of_late h hearly hlate l

/-- The words of an import as names: the first `type` is a kind and the last is a name, and the kind
of values is given or not. The same specifiers the other way round are not written. -/
theorem Generator.generate_import_contextual :
    let name (x : String) : Node := .identifier x false none []
    let specifiers (kind : Option String) : List Node := [.importDefaultSpecifier (name "from"),
      .importNamespaceSpecifier (name "as"), .importSpecifier (name "as") (name "as") (some "type"),
      .importSpecifier (name "type") (name "as") kind]
    let source : Node := .literal { raw := some "'a'" }
    let declaration (kind : Option String) : Node :=
      .importDeclaration (specifiers kind) source (some "type") []
    let i : Import := ⟨some "type", [.defaultName "from", .namespaceName "as",
      .named (some "type") "as" "as", .named none "type" "as"], "'a'"⟩
    let text := "import type from, * as as, \x7btype as, type as as\x7d from 'a';"
    (∀ l, ∀ kind ∈ [none, some "value"],
      (Generator.ofDialect .typed l).generate (declaration kind) = .ok text) ∧
    (∀ n j l, ofNode? n = some j → j.Plain →
      (Generator.ofDialect .typed l).generate n = .ok text → j = i) ∧
    (" as ".toList <:+: (Specifier.named none "type" "as").chars) ∧
    ∃ k d, (Generator.ofDialect .typed {}).generate
      (.importDeclaration (specifiers none).reverse source none [])
        = .error (.emit (.malformed k d)) := by
  intro name specifiers source declaration i text
  obtain ⟨hsame, hwritten, hrenamed, hlate⟩ := generate_import
  have hnames : IsName "from" ∧ IsName "as" ∧ IsName "type" := by decide
  have hi : i.Plain :=
    ⟨by simpa [i] using hnames.2.2, by simp [i, Specifier.Plain, hnames], by decide⟩
  have hnode : ∀ kind ∈ [none, some "value"], ofNode? (declaration kind) = some i :=
    List.forall_mem_cons.mpr ⟨rfl, List.forall_mem_singleton.mpr rfl⟩
  have htext : ∀ l, ∀ kind ∈ [none, some "value"],
      (Generator.ofDialect .typed l).generate (declaration kind) = .ok text := fun l kind hkind =>
    (hwritten (hnode kind hkind) l text).mpr ⟨by decide, by decide⟩
  have hsublist : [Node.importSpecifier (name "as") (name "as") (some "type"),
      .importNamespaceSpecifier (name "as")].Sublist (specifiers none).reverse :=
    .cons _ (.cons_cons _ (.cons_cons _ (List.nil_sublist _)))
  refine ⟨htext, fun n j l hj hplain h => ?_, (hrenamed ?_).mpr (by decide),
    hlate hsublist rfl rfl {} source none []⟩
  · exact hsame hj (hnode none List.mem_cons_self) hplain hi h (htext {} none List.mem_cons_self)
  · exact ⟨by simp, hnames.2.2, hnames.2.1⟩

end Estree
