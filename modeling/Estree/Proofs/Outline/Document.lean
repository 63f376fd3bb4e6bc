import Estree.Proofs.Nesting
import Estree.Proofs.Outline.Words

/-!
# Documents outside of brackets

`Doc.Writes` carries what is known about a text to the document that it is written from, in one
layout and at every level. A document is clear if its text is, ahead if any clear document may be
put after it, and a link if it may be put between any two. What an expression writes of its own is
links: words and operators with their spaces, and pairs of brackets around balanced documents. The
layout shows up inside of brackets only, so it is enough that it has no brackets.

Main results:

* `Doc.IsClear`: nothing sought is outside of brackets.
* `Doc.IsAhead`: nor is it with anything clear after it.
* `Doc.IsLink`: nor is it between any two clear documents.
-/

namespace Estree

open Nesting Outline

/-- The layout indents and ends lines without brackets. -/
def Layout.BracketFree (l : Layout) : Prop := IsFree l.indent ∧ IsFree l.lineEnd

instance (l : Layout) : Decidable l.BracketFree := inferInstanceAs (Decidable (_ ∧ _))

namespace Doc

/-- If the document is written to its end in the layout, this holds of its text. -/
def Writes (d : Doc) (l : Layout) (P : List Char → Prop) : Prop :=
  d.halt? = none → ∀ level, P (Piece.renderAll l (d.pieces level)).toList

/-- Nothing that is looked for is outside of brackets. -/
def IsClear (d : Doc) (q : Sought) (l : Layout) : Prop := d.Writes l q.Clear

/-- Moreover every clear document may be put after it. -/
def IsAhead (d : Doc) (q : Sought) (l : Layout) : Prop := d.Writes l q.Ahead

/-- The document may be put between any two. -/
def IsLink (d : Doc) (l : Layout) : Prop := d.Writes l Link

variable {a b c d : Doc} {l : Layout} {P Q R : List Char → Prop} {q : Sought} {x : String}

/-! ## §1. What is known of a text. -/

/-- Anything may be said of a document that stops. -/
theorem Writes.of_halt {h : Halt} (hd : d.halt? = some h) : d.Writes l P :=
  fun hnone => by cases hd.symm.trans hnone

/-- What is said may be weakened. -/
theorem Writes.mono (h : d.Writes l P) (hpq : ∀ cs, P cs → Q cs) : d.Writes l Q :=
  fun hd level => hpq _ (h hd level)

theorem writes_nil (h : P []) : nil.Writes l P := by
  intro _ level
  simpa [pieces] using h

theorem writes_text (h : P x.toList) : (text x).Writes l P := by
  intro _ level
  simpa [pieces, Piece.render] using h

/-- Two documents write their texts one after the other. -/
theorem Writes.append (ha : a.Writes l P) (hb : b.Writes l Q)
    (h : ∀ cs ds, P cs → Q ds → R (cs ++ ds)) : (a ++ b).Writes l R := by
  intro hab level
  obtain ⟨hna, hnb, htext⟩ := renderAll_pieces_append hab l level
  rw [htext, String.toList_append]
  exact h _ _ (ha hna level) (hb hnb _)

theorem Writes.append_nil (h : d.Writes l P) : (d ++ nil).Writes l P := by
  refine h.append (Q := (· = [])) (writes_nil rfl) ?_
  rintro cs _ hcs rfl
  rwa [List.append_nil]

/-- It does not matter how three documents are put together. -/
theorem Writes.assoc (h : (a ++ b ++ c).Writes l P) : (a ++ (b ++ c)).Writes l P := by
  intro hd level
  obtain ⟨ha, hbc, htext⟩ := renderAll_pieces_append hd l level
  obtain ⟨hb, hc, htext'⟩ := renderAll_pieces_append hbc l (a.after level)
  have hab : (a ++ b).halt? = none := by simp [ha, hb]
  have habc : (a ++ b ++ c).halt? = none := by simp [hab, hc]
  have hleft := h habc level
  rw [(renderAll_pieces_append habc l level).2.2, (renderAll_pieces_append hab l level).2.2,
    after_append ha, String.append_assoc] at hleft
  rwa [htext, htext']

/-- Balanced documents are written as well-nested texts. -/
theorem Balanced.writes (hl : l.BracketFree) (h : d.Balanced) : d.Writes l Nested := by
  intro hd level
  refine wellNested_iff.mpr ?_
  rw [dueAfter_renderAll hl.1 hl.2 d hd]
  exact h []

/-! ## §2. Clear documents and links. -/

theorem isAhead_nil : nil.IsAhead q l := writes_nil Sought.ahead_nil

/-- A text without brackets in which nothing sought is. -/
theorem isClear_text (hx : IsFree x) (h : q.Absent x.toList) : (text x).IsClear q l :=
  writes_text (clear_of_isFree hx h)

/-- A text that may have anything after it. -/
theorem isAhead_text (hx : IsFree x) (h : isLead x.toList = true) : (text x).IsAhead q l :=
  writes_text (ahead_of_isLead hx h)

/-- A text that may stand between any two others. -/
theorem isLink_text (hx : IsFree x) (h : isLink x.toList = true) : (text x).IsLink l :=
  writes_text (link_of_isFree hx h)

theorem isLink_space : (text " ").IsLink l := isLink_text (by decide) (by decide)

/-- What may have anything after it is clear itself. -/
theorem IsAhead.isClear (h : d.IsAhead q l) : d.IsClear q l := h.mono fun _ hd => hd.1

/-- If no word is looked for, any clear document may be put after another. -/
theorem IsClear.isAhead (h : d.IsClear q l) (hq : q.part? = none) : d.IsAhead q l :=
  h.mono fun _ hd => ⟨hd, .inl hq⟩

/-- A link may have anything after it. -/
theorem IsLink.isAhead (h : d.IsLink l) : d.IsAhead q l :=
  h.mono fun _ hd => Sought.ahead_nil.1.link hd

theorem IsLink.isClear (h : d.IsLink l) : d.IsClear q l := h.isAhead.isClear

/-- After a link anything may follow. -/
theorem IsClear.link (ha : a.IsClear q l) (hb : b.IsLink l) : (a ++ b).IsAhead q l :=
  Writes.append ha hb fun _ _ => Sought.Clear.link

theorem IsAhead.link (ha : a.IsAhead q l) (hb : b.IsLink l) : (a ++ b).IsAhead q l :=
  ha.isClear.link hb

/-- What is ahead may be followed by what is clear. -/
theorem IsAhead.append (ha : a.IsAhead q l) (hb : b.IsClear q l) : (a ++ b).IsClear q l :=
  Writes.append ha hb fun _ _ => Sought.Ahead.append

/-- What is ahead may be followed by what is ahead, and then by anything. -/
theorem IsAhead.append_ahead (ha : a.IsAhead q l) (hb : b.IsAhead q l) : (a ++ b).IsAhead q l :=
  Writes.append ha hb fun _ _ => Sought.Ahead.append_ahead

/-- A link that may be left out. -/
theorem isAhead_onlyIf (hb : b.IsLink l) (cond : Bool) : (Doc.onlyIf cond b).IsAhead q l := by
  cases cond with
  | true => exact hb.isAhead
  | false => exact isAhead_nil

/-- A link that may be left out at the end. -/
theorem IsClear.onlyIf (ha : a.IsClear q l) (hb : b.IsLink l) (cond : Bool) :
    (a ++ onlyIf cond b).IsClear q l := by
  cases cond with
  | true => exact (ha.link hb).isClear
  | false => exact Writes.append_nil ha

/-! ## §3. Brackets. -/

/-- A balanced document between brackets that close each other. -/
theorem isLink_pair {o e : String} {u v : Char} (hl : l.BracketFree) (ho : o.toList = [u])
    (he : e.toList = [v]) (huv : closing? u = some v) (hd : d.Balanced) :
    (text o ++ d ++ text e).IsLink l := by
  have hopen : (text o ++ d).Writes l fun cs => ∃ w, cs = u :: w ∧ Nested w := by
    refine (writes_text (P := (· = o.toList)) rfl).append (hd.writes hl) ?_
    rintro _ w rfl hw
    exact ⟨w, by simp [ho], hw⟩
  refine hopen.append (writes_text (P := (· = e.toList)) rfl) ?_
  rintro _ _ ⟨w, rfl, hw⟩ rfl
  rw [he]
  exact link_pair huv hw

/-- Whatever is in parentheses is a link. -/
theorem isLink_parens (hl : l.BracketFree) (hd : d.Balanced) : d.parens.IsLink l :=
  isLink_pair hl rfl rfl rfl hd

/-- Whatever is in brackets is a link. -/
theorem isLink_brackets (hl : l.BracketFree) (hd : d.Balanced) : d.brackets.IsLink l :=
  isLink_pair hl rfl rfl rfl hd

/-- Whatever is in braces is a link. -/
theorem isLink_braces (hl : l.BracketFree) (hd : d.Balanced) : d.braces.IsLink l :=
  isLink_pair hl rfl rfl rfl hd

/-- What is clear stays so in parentheses. -/
theorem IsClear.parensIf (hl : l.BracketFree) (hd : d.Balanced) (h : d.IsClear q l) (cond : Bool) :
    (d.parensIf cond).IsClear q l := by
  cases cond with
  | true => exact (isLink_parens hl hd).isClear
  | false => exact h

/-- The document has a clear beginning, and then a bracket that it does not close. -/
def LeavesOpen (d : Doc) (q : Sought) (l : Layout) (u : Char) : Prop :=
  d.Writes l fun cs => ∃ before w, cs = before ++ u :: w ∧ q.Clear before ∧ Nested w

/-- The bracket may end a word. -/
theorem IsClear.leavesOpen {o : String} {u : Char} (ha : a.IsClear q l) (hx : IsFree x)
    (hlink : isLink x.toList = true) (ho : o.toList = x.toList ++ [u]) :
    (a ++ text o).LeavesOpen q l u := by
  refine Writes.append ha (writes_text (P := (· = o.toList)) rfl) ?_
  rintro before _ hbefore rfl
  refine ⟨before ++ x.toList, [], by simp [ho], (hbefore.link (link_of_isFree hx hlink)).1, .nil⟩

/-- What is balanced may be written while a bracket is open. -/
theorem LeavesOpen.append {u : Char} (hl : l.BracketFree) (ha : a.LeavesOpen q l u)
    (hd : d.Balanced) :
    (a ++ d).LeavesOpen q l u := by
  refine Writes.append ha (hd.writes hl) ?_
  rintro _ w' ⟨before, w, rfl, hbefore, hw⟩ hw'
  exact ⟨before, w ++ w', by simp, hbefore, hw.append hw'⟩

/-- When it is closed, anything may follow. -/
theorem LeavesOpen.close {e : String} {u v : Char} (ha : a.LeavesOpen q l u)
    (huv : closing? u = some v) (he : e.toList = [v]) : (a ++ text e).IsAhead q l := by
  refine Writes.append ha (writes_text (P := (· = [v])) he) ?_
  rintro _ _ ⟨before, w, rfl, hbefore, hw⟩ rfl
  rw [List.append_assoc]
  exact hbefore.link (link_pair huv hw)

/-! ## §4. Characters. -/

/-- The characters of a document in a layout. -/
def chars (d : Doc) (l : Layout) : List Char := (Piece.renderAll l (d.pieces .start)).toList

/-- What a document writes, if it does not stop. -/
theorem Writes.chars (h : d.Writes l P) (hd : d.halt? = none) : P (d.chars l) := h hd .start

theorem chars_text (x : String) (l : Layout) : (text x).chars l = x.toList := by
  simp [Doc.chars, pieces, Piece.render]

/-- After a steady document the next one is written as it is on its own. -/
theorem chars_append (ha : a.Steady) (h : (a ++ b).halt? = none) (l : Layout) :
    a.halt? = none ∧ b.halt? = none ∧ (a ++ b).chars l = a.chars l ++ b.chars l := by
  obtain ⟨hha, hb, htext⟩ := renderAll_pieces_append h l .start
  rw [ha.after_eq hha] at htext
  exact ⟨hha, hb, by rw [Doc.chars, htext, String.toList_append, Doc.chars, Doc.chars]⟩

/-- A text is written the same at every level. -/
theorem chars_append_text (h : (a ++ text x).halt? = none) (l : Layout) :
    a.halt? = none ∧ (a ++ text x).chars l = a.chars l ++ x.toList := by
  obtain ⟨ha, -, htext⟩ := renderAll_pieces_append h l .start
  refine ⟨ha, ?_⟩
  rw [Doc.chars, htext, String.toList_append]
  simp [Doc.chars, pieces, Piece.render]

end Doc

/-- A tree that is written has the characters of its document. -/
theorem Generator.generate_ofDialect_eq_ok_iff {l : Layout} {d : Dialect} {n : Node}
    {text : String} :
    (Generator.ofDialect d l).generate n = .ok text ↔
      ((Grammar.ofDialect d).scope.emit n).halt? = none ∧
        text = .ofList (((Grammar.ofDialect d).scope.emit n).chars l) := by
  rw [Doc.chars, String.ofList_toList]
  exact Generator.generate_eq_ok_iff.trans (and_congr_right fun _ => eq_comm)

end Estree
