import Estree.Proofs.Outline.Document

/-!
# Reading templates back

A template is scanned from left to right. Raw text goes on up to the closing backtick or to a dollar
sign with an opening brace, and a hole goes on up to the brace that closes it, which is found by
counting brackets. The scan of a written template finds the raw texts of its quasis and the texts of
its holes (`Generator.generate_template`): it passes over a raw text that has neither of the two
ends in it (`scan_raw_append`), and over a hole because that is well-nested (`scan_hole_append`). A
dollar sign at the end of a raw text does no harm, since a brace never follows it.

Main results:

* `scan_raw_append`: a raw text is passed over.
* `scan_hole_append`: a hole is passed over.
* `scan_interleaved`: quasis and holes in turn are found again.
* `Generator.generate_template`: the scan of a written template finds its parts, if the layout has
  no brackets.
* `Generator.generate_template_indent_brace`: a layout with a brace, in which it does not.
-/

namespace Estree

open Nesting Outline

namespace Template

/-! ## §1. The scan. -/

/-- What a scan finds, each in its order. -/
structure Parts where
  quasis : List (List Char)
  holes : List (List Char)
  deriving DecidableEq

namespace Parts

/-- More raw text in front. -/
def addRaw (w : List Char) (p : Parts) : Parts := { p with quasis := p.quasis.modifyHead (w ++ ·) }

/-- More of a hole in front. -/
def addHole (w : List Char) (p : Parts) : Parts := { p with holes := p.holes.modifyHead (w ++ ·) }

/-- A quasi that ends here, in front of a hole. -/
def newQuasi (p : Parts) : Parts := { p with quasis := [] :: p.quasis }

/-- A hole that ends here, in front of a quasi. -/
def newHole (p : Parts) : Parts := { p with holes := [] :: p.holes }

theorem addRaw_nil (p : Parts) : p.addRaw [] = p := by
  obtain ⟨quasis, holes⟩ := p
  cases quasis <;> rfl

theorem addHole_nil (p : Parts) : p.addHole [] = p := by
  obtain ⟨quasis, holes⟩ := p
  cases holes <;> rfl

/-- Texts are added in front, the later one first. -/
theorem addRaw_addRaw (u w : List Char) (p : Parts) :
    (p.addRaw w).addRaw u = p.addRaw (u ++ w) := by
  simp [addRaw, Function.comp_def]

/-- Texts of holes are added in front, the later one first. -/
theorem addHole_addHole (u w : List Char) (p : Parts) :
    (p.addHole w).addHole u = p.addHole (u ++ w) := by
  simp [addHole, Function.comp_def]

end Parts

/-- Where a scan stands. -/
inductive Mode where
  | raw
  /-- In a hole, and so many brackets deep in it. -/
  | hole (depth : Nat)

/-- Reads on to the closing backtick, which has to be the end of the text. -/
def scan : Mode → List Char → Option Parts
  | .raw, ['\x60'] => some ⟨[[]], []⟩
  | .raw, '$' :: '\x7b' :: cs => (scan (.hole 0) cs).map (·.newQuasi)
  | .raw, c :: cs => if c = '\x60' then none else (scan .raw cs).map (·.addRaw [c])
  | .hole 0, '\x7d' :: cs => (scan .raw cs).map (·.newHole)
  | .hole depth, c :: cs => (scan (.hole (depthAfter depth c)) cs).map (·.addHole [c])
  | _, [] => none

/-- Reads a template. -/
def read? (text : String) : Option Parts :=
  match text.toList with
  | '\x60' :: cs => scan .raw cs
  | _ => none

/-! ## §2. Raw texts and holes. -/

/-- A raw text has neither a backtick in it nor the beginning of a hole. -/
def IsRaw (w : List Char) : Prop := '\x60' ∉ w ∧ ¬['$', '\x7b'] <:+: w

instance (w : List Char) : Decidable (IsRaw w) := inferInstanceAs (Decidable (_ ∧ _))

/-- A character outside of holes that neither ends the template nor opens a hole. -/
theorem scan_raw_cons {c : Char} (hc : c ≠ '\x60') {cs : List Char}
    (h : c = '$' → cs.head? ≠ some '\x7b') :
    scan .raw (c :: cs) = (scan .raw cs).map (·.addRaw [c]) := by
  rw [scan, if_neg hc]
  · exact fun hc' _ => hc hc'
  · rintro cs' rfl rfl
    exact h rfl rfl

/-- **A raw text is passed over**, if no brace comes after it. -/
theorem scan_raw_append {w : List Char} (hw : IsRaw w) {cs : List Char}
    (hcs : cs.head? ≠ some '\x7b') :
    scan .raw (w ++ cs) = (scan .raw cs).map (·.addRaw w) := by
  induction w with
  | nil => simp [Parts.addRaw_nil]
  | cons c w ih =>
    obtain ⟨htick, hhole⟩ := hw
    have hrest : IsRaw w := ⟨fun h => htick (List.mem_cons_of_mem _ h),
      fun h => hhole (h.trans (List.suffix_cons c w).isInfix)⟩
    -- what follows a dollar sign is raw text without a hole, or `cs`
    have hnext : c = '$' → (w ++ cs).head? ≠ some '\x7b' := by
      rintro rfl h
      cases w with
      | nil => exact hcs h
      | cons d w =>
        cases h
        exact hhole ⟨[], w, rfl⟩
    rw [List.cons_append, scan_raw_cons (fun h => htick (h ▸ List.mem_cons_self)) hnext, ih hrest,
      Option.map_map]
    congr 1
    funext p
    exact p.addRaw_addRaw [c] w

/-- A character in a hole that does not close it. -/
theorem scan_hole_cons {depth : Nat} {c : Char} (h : depth = 0 → c ≠ '\x7d') (cs : List Char) :
    scan (.hole depth) (c :: cs) = (scan (.hole (depthAfter depth c)) cs).map (·.addHole [c]) := by
  rw [scan]
  exact fun hd hc => h hd hc

/-- **A hole is passed over**, because it is well-nested. The induction is on how it is nested. -/
theorem scan_hole_append {w : List Char} (hw : Nested w) (depth : Nat) (cs : List Char) :
    scan (.hole depth) (w ++ cs) = (scan (.hole depth) cs).map (·.addHole w) := by
  induction hw generalizing depth cs with
  | nil => simp [Parts.addHole_nil]
  | @pass c w hc _ ih =>
    -- only a closing brace at depth 0 ends the hole
    have hbrace : depth = 0 → c ≠ '\x7d' := by
      rintro - rfl
      cases hc
    rw [List.cons_append, scan_hole_cons hbrace, depthAfter_of_not_isBracket hc, ih, Option.map_map]
    congr 1
    funext p
    exact p.addHole_addHole [c] w
  | @pair c d u w hcd _ _ ihu ihw =>
    obtain ⟨hc, hd⟩ := depthAfter_of_closing? hcd depth
    have hopen : depth = 0 → c ≠ '\x7d' := by
      rintro - rfl
      cases hcd
    rw [List.cons_append, List.append_assoc, List.cons_append, scan_hole_cons hopen, hc, ihu,
      scan_hole_cons (fun h => absurd h (Nat.succ_ne_zero depth)), hd, ihw]
    simp only [Option.map_map]
    congr 1
    funext p
    simp [Parts.addHole_addHole]

/-- A quasi with a hole after it, in front of the rest of a template. -/
theorem scan_quasi_hole {raw hole : List Char} (hraw : IsRaw raw) (hhole : Nested hole)
    {cs : List Char} {p : Parts} (h : scan .raw cs = some p) :
    scan .raw (raw ++ ('$' :: '\x7b' :: (hole ++ '\x7d' :: cs)))
      = some ⟨raw :: p.quasis, hole :: p.holes⟩ := by
  have hclose : scan (.hole 0) ('\x7d' :: cs) = (scan .raw cs).map (·.newHole) := by
    rw [scan]
  have hopen : scan .raw ('$' :: '\x7b' :: (hole ++ '\x7d' :: cs))
      = (scan (.hole 0) (hole ++ '\x7d' :: cs)).map (·.newQuasi) := by
    rw [scan]
  rw [scan_raw_append hraw (by simp), hopen, scan_hole_append hhole, hclose, h]
  simp [Parts.addRaw, Parts.addHole, Parts.newQuasi, Parts.newHole]

theorem scan_last {raw : List Char} (hraw : IsRaw raw) :
    scan .raw (raw ++ ['\x60']) = some ⟨[raw], []⟩ := by
  have hlast : scan .raw ['\x60'] = some ⟨[[]], []⟩ := by
    rw [scan]
  rw [scan_raw_append hraw (by simp), hlast]
  simp [Parts.addRaw]

/-! ## §3. Templates. -/

/-- A node that is written as a template in a dialect, with its quasis and holes. -/
inductive IsTemplate : Dialect → Node → List Node → List Node → Prop where
  | literal (d : Dialect) (quasis holes : List Node) :
      IsTemplate d (.templateLiteral quasis holes) quasis holes
  | type (quasis holes : List Node) :
      IsTemplate .typed (.tsTemplateLiteralType quasis holes) quasis holes

/-- The raw text of a template element. -/
def raw? : Node → Option String
  | .templateElement value _ => some value.raw
  | _ => none

/-- A template is written part by part. -/
theorem IsTemplate.emit_eq {d : Dialect} {n : Node} {quasis holes : List Node}
    (h : IsTemplate d n quasis holes) :
    (Grammar.ofDialect d).emit n
      = Emit.template (Grammar.ofDialect d).scope n quasis holes := by
  cases h with
  | literal d =>
    refine (Grammar.scope_emit (p := .templateLiteral) ?_).trans rfl
    cases d <;> rfl
  | type => exact (Grammar.scope_emit (p := .templateLiteralType) rfl).trans rfl

/-- A quasi that is written is a template element, written raw. -/
theorem exists_raw_of_halt? {quasi : Node} (h : (Emit.templateElement quasi).halt? = none)
    (l : Layout) : ∃ raw, raw? quasi = some raw ∧
      (Emit.templateElement quasi).chars l = raw.toList := by
  cases quasi with
  | templateElement value tail => exact ⟨value.raw, rfl, Doc.chars_text _ l⟩
  | _ => cases h

/-- A part outside of holes stays on the level. -/
theorem steady_templateElement (quasi : Node) : (Emit.templateElement quasi).Steady := by
  unfold Emit.templateElement
  split
  · exact .text _
  · exact .stop _

/-- What a quasi and a hole put in front of the rest. -/
theorem exists_chars_interleaved {s : Scope} {q h : Node} {quasis holes : List Node}
    (hsteady : (s.emit h).Steady)
    (hhalt : (Emit.interleaved s (q :: quasis) (h :: holes)).halt? = none) (l : Layout) :
    (s.emit h).halt? = none ∧ (Emit.interleaved s quasis holes).halt? = none ∧
      ∃ raw, raw? q = some raw ∧ (Emit.interleaved s (q :: quasis) (h :: holes)).chars l
        = raw.toList ++ '$' :: '\x7b' :: ((s.emit h).chars l ++ '\x7d' ::
          (Emit.interleaved s quasis holes).chars l) := by
  rw [Emit.interleaved] at hhalt ⊢
  have hopened : (Emit.templateElement q ++ Doc.text "$\x7b").Steady :=
    (steady_templateElement q).append (.text _)
  have hclosed := (hopened.append hsteady).append (.text "\x7d")
  obtain ⟨hhalt, hrest, hchars⟩ := Doc.chars_append hclosed hhalt l
  obtain ⟨hhalt, hclose⟩ := Doc.chars_append_text hhalt l
  obtain ⟨hhalt, hhole, hmiddle⟩ := Doc.chars_append hopened hhalt l
  obtain ⟨hquasi, hopen⟩ := Doc.chars_append_text hhalt l
  obtain ⟨raw, hq, hraw⟩ := exists_raw_of_halt? hquasi l
  refine ⟨hhole, hrest, raw, hq, ?_⟩
  rw [hchars, hclose, hmiddle, hopen, hraw]
  simp

/-- **Quasis and holes in turn are found again.** The induction is along the holes. -/
theorem scan_interleaved {s : Scope} {l : Layout} {quasis holes : List Node}
    (hlength : quasis.length = holes.length + 1)
    (hhalt : (Emit.interleaved s quasis holes).halt? = none)
    (hraws : ∀ q ∈ quasis, ∀ raw, raw? q = some raw → IsRaw raw.toList)
    (hsteady : ∀ h ∈ holes, (s.emit h).Steady)
    (hholes : ∀ h ∈ holes, (s.emit h).Writes l Nested) :
    ∃ p, scan .raw ((Emit.interleaved s quasis holes).chars l ++ ['\x60']) = some p ∧
      p.quasis.map (fun cs => some (String.ofList cs)) = quasis.map raw? ∧
      p.holes = holes.map (fun h => (s.emit h).chars l) ∧
      ∀ h ∈ holes, (s.emit h).halt? = none := by
  induction holes generalizing quasis with
  | nil =>
    -- the last quasi has the closing quote after it
    obtain ⟨q, rfl⟩ := List.length_eq_one_iff.mp hlength
    rw [Emit.interleaved] at hhalt ⊢
    obtain ⟨raw, hq, hchars⟩ := exists_raw_of_halt? hhalt l
    have hraw := hraws q List.mem_cons_self raw hq
    exact ⟨⟨[raw.toList], []⟩, by rw [hchars, scan_last hraw], by simp [hq], rfl, by simp⟩
  | cons h holes ih =>
    cases quasis with
    | nil => cases hlength
    | cons q quasis =>
      -- a raw text, a hole in its braces, and what is left
      obtain ⟨hhole, hrest, raw, hq, hchars⟩ :=
        exists_chars_interleaved (hsteady h List.mem_cons_self) hhalt l
      have hraw := hraws q List.mem_cons_self raw hq
      have hnested := (hholes h List.mem_cons_self).chars hhole
      obtain ⟨p, hscan, hquasis, hfound, hhalts⟩ := ih (by simpa using hlength) hrest
        (fun q' hq' => hraws q' (List.mem_cons_of_mem _ hq'))
        (fun h' hh' => hsteady h' (List.mem_cons_of_mem _ hh'))
        (fun h' hh' => hholes h' (List.mem_cons_of_mem _ hh'))
      refine ⟨⟨raw.toList :: p.quasis, (s.emit h).chars l :: p.holes⟩, ?_, by simp [hq, hquasis],
        by simp [hfound], List.forall_mem_cons.mpr ⟨hhole, hhalts⟩⟩
      rw [hchars, ← scan_quasi_hole hraw hnested hscan]
      simp

end Template

open Template

/-- **Templates interleave faithfully**: the scan of a written template finds the raw texts of its
quasis and the texts of its holes, and it ends where the text does. A template that has not one
quasi more than holes is not written, and nothing of it is. -/
theorem Generator.generate_template {d : Dialect} {l : Layout} (hl : l.BracketFree) {n : Node}
    {quasis holes : List Node} (hn : IsTemplate d n quasis holes) :
    (∀ text, (Generator.ofDialect d l).generate n = .ok text →
      (∀ q ∈ quasis, ∀ raw, raw? q = some raw → IsRaw raw.toList) →
      (∀ h ∈ holes, h.BracketFree) →
      ∃ p, read? text = some p ∧
        p.quasis.map (fun cs => some (String.ofList cs)) = quasis.map raw? ∧
        p.holes.map (fun cs => .ok (String.ofList cs))
          = holes.map (Generator.ofDialect d l).generate) ∧
    (quasis.length ≠ holes.length + 1 → ∀ w, ((Grammar.ofDialect d).emit n).run w
      = (.error (.error (.malformed n.kind (.templateCounts quasis.length holes.length))), w)) := by
  have hemit := hn.emit_eq
  unfold Emit.template at hemit
  constructor
  · intro text htext hraws hholes
    obtain ⟨hhalt, rfl⟩ := generate_ofDialect_eq_ok_iff.mp htext
    have hemit : (Grammar.ofDialect d).scope.emit n = _ := hemit
    rw [hemit] at hhalt ⊢
    -- only where the counts agree is there anything to write
    split at hhalt
    next hlength =>
      rw [if_pos hlength]
      obtain ⟨hhalt, hchars⟩ := Doc.chars_append_text hhalt l
      obtain ⟨-, hhalt, hchars'⟩ := Doc.chars_append (.text _) hhalt l
      have hnested : ∀ h ∈ holes, ((Grammar.ofDialect d).scope.emit h).Writes l Nested :=
        fun h hh => Doc.Balanced.writes hl
          ((Grammar.ofDialect d).balanced_emitAs _ _ h (hholes h hh))
      obtain ⟨p, hscan, hquasis, hfound, hhalts⟩ := scan_interleaved hlength hhalt hraws
        (fun h _ => Dialect.steady_doc d h) hnested
      refine ⟨p, ?_, hquasis, ?_⟩
      · rw [hchars, hchars', read?]
        simpa [Doc.chars_text] using hscan
      · rw [hfound, List.map_map]
        exact List.map_congr_left fun h hh =>
          (generate_ofDialect_eq_ok_iff.mpr ⟨hhalts h hh, rfl⟩).symm
    next => cases hhalt
  · intro hlength w
    rw [hemit, if_neg hlength]
    rfl

/-- A template in a hole of a template, after a dollar sign; and a template without quasis. -/
theorem Generator.generate_template_nested :
    let quasi (raw : String) : Node := .templateElement ⟨raw, none⟩ false
    let inner : Node := .templateLiteral [quasi "c", quasi ""] [.identifier "x" false none []]
    let text := "\x60a$$\x7b\x60c$\x7bx\x7d\x60\x7d$\x60"
    let empty : Node := .tsTemplateLiteralType [] []
    (Generator.ofDialect .plain {}).generate (.templateLiteral [quasi "a$", quasi "$"] [inner])
        = .ok text ∧
      (∃ p, read? text = some p ∧
        p.quasis.map (fun cs => some (String.ofList cs)) = [some "a$", some "$"] ∧
        p.holes.map (fun cs => .ok (String.ofList cs))
          = [(Generator.ofDialect .plain {}).generate inner]) ∧
      ∀ w, ((Grammar.ofDialect .typed).emit empty).run w
        = (.error (.error (.malformed .tsTemplateLiteralType (.templateCounts 0 0))), w) := by
  intro quasi inner text empty
  have hquasi : ∀ raw, IsFree raw → (quasi raw).BracketFree := fun raw hraw =>
    Node.bracketFree_iff.mpr ⟨List.forall_mem_singleton.mpr hraw, List.forall_mem_nil _⟩
  have hname : (Node.identifier "x" false none []).BracketFree :=
    Node.bracketFree_iff.mpr ⟨List.forall_mem_singleton.mpr (by decide), List.forall_mem_nil _⟩
  have hinner : inner.BracketFree := by
    refine Node.bracketFree_iff.mpr ⟨List.forall_mem_nil _, ?_⟩
    simp only [inner, Node.children, List.cons_append, List.nil_append, List.forall_mem_cons]
    exact ⟨hquasi "c" (by decide), hquasi "" (by decide), hname, List.forall_mem_nil _⟩
  have hraws : ∀ q ∈ [quasi "a$", quasi "$"], ∀ raw, raw? q = some raw → IsRaw raw.toList := by
    simp only [List.forall_mem_cons]
    refine ⟨?_, ?_, List.forall_mem_nil _⟩
    all_goals
      rintro raw ⟨⟩
      decide
  have htext : (Generator.ofDialect .plain {}).generate
      (.templateLiteral [quasi "a$", quasi "$"] [inner]) = .ok text := by
    rfl
  refine ⟨htext, ?_, ?_⟩
  · exact (generate_template (by decide) (.literal .plain _ _)).1 text htext hraws
      (List.forall_mem_singleton.mpr hinner)
  · exact (generate_template (l := {}) (by decide) (.type [] [])).2 (by decide)

/-- Where lines are indented with a closing brace, an object in a hole is read as its end: the last
quasi is found with a brace before it. -/
theorem Generator.generate_template_indent_brace :
    let quasi (raw : String) : Node := .templateElement ⟨raw, none⟩ false
    let name (x : String) : Node := .identifier x false none []
    let entry : Node := .property { key := name "x", value := name "y" }
    let text := "\x60a$\x7b\x7b\n\x7dx: y\n\x7d\x7db\x60"
    (Generator.ofDialect .plain { indent := "\x7d" }).generate
        (.templateLiteral [quasi "a", quasi "b"] [.objectExpression [entry] none]) = .ok text ∧
      read? text = some ⟨["a".toList, "\x7db".toList], ["\x7b\n\x7dx: y\n".toList]⟩ :=
  ⟨rfl, by decide⟩

end Estree
