import Estree.Proofs.Dispatch
import Estree.Proofs.Expression.Words
import Estree.Proofs.Statement.Else

/-!
# The text of statements

A statement is written in pieces of text, line ends and indentation. Each form of statement has one
lemma that says which pieces these are at each level (`Writes`). From these lemmas follows that
handing an `else` on changes no piece: the text of a tree is the text of the settled tree.

The text is cut into words and other characters. `Spells ps ts` says that the pieces `ps` are cut
into the tokens `ts` in every layout that indents and ends lines with blanks, whatever text follows.

Main results:

  * `Spells.append`, `Spells.name`, `Spells.around`: how pieces are put together;
  * `writes_when`, `writes_choice`, `writes_node`, `writes_block`: the pieces of each form;
  * `Tree.pieces_giveElse`: an `else` stands at the end, whichever `if` takes it;
  * `Tree.pieces_settle`: a tree is written as the settled tree is.
-/

namespace Estree.Statement

open Expression (IsIdentifier isWord named)
open Expression.Words
open Dialect (doc doc_eq)

/-- A token is its text. -/
abbrev Token := String

/-! ## §1. Pieces. -/

/-- Whether a layout has only blanks for line ends and indentation. -/
def blankLayout (l : Layout) : Bool := l.indent.toList.all isBlank && l.lineEnd.toList.all isBlank

/-- The text of the pieces is the tokens, whatever follows. -/
def Spells (ps : List Piece) (ts : List Token) : Prop :=
  ∀ l : Layout, blankLayout l = true → Cuts (Piece.renderAll l ps).toList ts

namespace Spells

variable {ps qs : List Piece} {ts us : List Token} {g x : String}

/-- No piece is no token. -/
theorem nil : Spells [] [] := fun _ _ _ => rfl

/-- Pieces one after the other. -/
theorem append (h : Spells ps ts) (h' : Spells qs us) : Spells (ps ++ qs) (ts ++ us) := by
  intro l hl
  rw [Piece.renderAll_append, String.toList_append]
  exact (h l hl).append (h' l hl)

/-- A line end leaves no token. -/
theorem lineEnd : Spells [.lineEnd] [] := by
  intro l hl
  rw [Piece.renderAll_singleton]
  exact cuts_blanks (Bool.and_eq_true_iff.mp hl).2

/-- Indentation leaves no token. -/
theorem indent (level : Nat) : Spells [.indent level] [] := by
  intro l hl
  rw [Piece.renderAll_singleton, Piece.render]
  refine cuts_blanks ?_
  induction l.level + level with
  | zero => rfl
  | succ n ih =>
    rw [List.replicate_succ, String.join_cons, String.toList_append, List.all_append, ih,
      (Bool.and_eq_true_iff.mp hl).1]
    rfl

/-- A text that ends in no word is its tokens. -/
theorem text (hg : Introduces g ts) : Spells [.text g] ts := by
  intro l _
  rw [Piece.renderAll_singleton, ← hg.1]
  exact cuts_tokens hg.2

/-- A name ends where a text begins that keeps words apart. -/
theorem name (hx : isWord x = true) (hg : Divides g ts) : Spells [.text x, .text g] (x :: ts) := by
  intro l hl rest
  have htext : (Piece.renderAll l [.text x, .text g]).toList = x.toList ++ g.toList := by
    rw [show [Piece.text x, .text g] = [.text x] ++ [.text g] from rfl, Piece.renderAll_append,
      Piece.renderAll_singleton, Piece.renderAll_singleton, String.toList_append]
    rfl
  have hgap : tokens (g.toList ++ rest) = ts ++ tokens rest := by
    rw [← hg.1.1]
    exact cuts_tokens hg.1.2 rest
  rw [htext, List.append_assoc, tokens_word_append hx (hg.head rest), hgap]
  rfl

/-- A name between two texts that keep words apart. -/
theorem around {o c : String} (ho : Introduces o us) (hx : isWord x = true) (hc : Divides c ts) :
    Spells [.text o, .text x, .text c] (us ++ x :: ts) :=
  (Spells.text ho).append (.name hx hc)

end Spells

/-! ## §2. Documents. -/

/-- The document is written to its end, it ends at the level where it begins, and these are its
pieces at each level. -/
structure Writes (d : Doc) (ps : Level → List Piece) : Prop where
  halt? : d.halt? = none
  after : ∀ level, d.after level = level
  pieces : ∀ level, d.pieces level = ps level

namespace Writes

variable {a b : Doc} {p q : Level → List Piece}

theorem text (g : String) : Writes (.text g) fun _ => [.text g] := ⟨rfl, fun _ => rfl, fun _ => rfl⟩

theorem nil : Writes .nil fun _ => [] := ⟨rfl, fun _ => rfl, fun _ => rfl⟩

/-- Documents that come back to their level are written one after the other at this level. -/
theorem append (ha : Writes a p) (hb : Writes b q) :
    Writes (a ++ b) fun level => p level ++ q level := by
  refine ⟨?_, fun level => ?_, fun level => ?_⟩
  · rw [Doc.halt?_append, ha.halt?, hb.halt?]
    rfl
  · rw [Doc.after_append ha.halt?, ha.after, hb.after]
  · rw [Doc.pieces_append, ha.halt?, ha.pieces, ha.after, hb.pieces]
    rfl

/-- Pieces that are the same at each level may be replaced. -/
theorem of_eq (ha : Writes a p) (h : ∀ level, p level = q level) : Writes a q :=
  ⟨ha.halt?, ha.after, fun level => (ha.pieces level).trans (h level)⟩

/-- A document one level deeper, and the indentation of the level after it. -/
theorem nested (ha : Writes a p) :
    Writes (.deeper ++ (a ++ .shallower ++ .indent))
      fun level => p { level with now := level.now + 1 } ++ [.indent level.now] := by
  have hdeeper : ∀ level, Doc.deeper.after level = { level with now := level.now + 1 } :=
    fun _ => rfl
  have hback : (a ++ .shallower).halt? = none := by simp [ha.halt?]
  -- from one level deeper the document comes back to that level, and the step back to this one
  have hafter : ∀ level : Level,
      (a ++ .shallower).after { level with now := level.now + 1 } = level := by
    intro level
    rw [Doc.after_append ha.halt?, ha.after]
    rfl
  refine ⟨?_, fun level => ?_, fun level => ?_⟩
  · simp [ha.halt?]
  · rw [Doc.after_append rfl, hdeeper, Doc.after_append hback, hafter]
    rfl
  · rw [Doc.pieces_append, Doc.pieces_append, Doc.pieces_append, hdeeper, hback, hafter, ha.pieces]
    simp [Doc.pieces]

end Writes

/-- A node that is written to its end comes back to its level. -/
theorem writes_doc {d : Dialect} {n : Node} (h : (doc d n).halt? = none) :
    Writes (doc d n) (doc d n).pieces :=
  ⟨h, (Dialect.steady_doc d n).after_eq h, fun _ => rfl⟩

/-- The pieces of a head. -/
def Head.pieces : Head → List Piece
  | loop x => [.text "while (", .text x, .text ") "]
  | scope x => [.text "with (", .text x, .text ") "]
  | label x => [.text x, .text ": "]

/-- The pieces of statements on lines of their own. -/
def linePieces (d : Dialect) (ss : List Node) (level : Level) : List Piece :=
  ss.flatMap fun s => .indent level.now :: ((doc d s).pieces level ++ [.lineEnd])

/-- The pieces between the braces of a block. -/
def bodyPieces (d : Dialect) (ss : List Node) (level : Level) : List Piece :=
  if ss.isEmpty then []
  else .lineEnd :: (linePieces d ss { level with now := level.now + 1 } ++ [.indent level.now])

section Forms

variable {d : Dialect} {x : String} {s t : Node} {ss : List Node}

theorem writes_named : Writes (doc d (named x)) fun _ => [.text x] := by
  rw [doc_eq (p := .identifier d) (by cases d <;> rfl)]
  cases d <;> exact ⟨rfl, fun _ => rfl, fun _ => rfl⟩

theorem writes_empty : Writes (doc d .emptyStatement) fun _ => [.text ";"] := by
  rw [doc_eq (p := .emptyStatement) (by cases d <;> rfl)]
  exact .text ";"

/-- A name as a statement. -/
theorem writes_expression :
    Writes (doc d (.expressionStatement (named x) none)) fun _ => [.text x, .text ";"] := by
  have hdoc : doc d (.expressionStatement (named x) none) = doc d (named x) ++ .text ";" := by
    rw [doc_eq (p := .expressionStatement) (by cases d <;> rfl)]
    cases d <;> rfl
  rw [hdoc]
  exact writes_named.append (.text ";")

/-- An `if` without an `else`. -/
theorem writes_when (hs : (doc d s).halt? = none) :
    Writes (doc d (.ifStatement (named x) s none))
      fun level => [.text "if (", .text x, .text ") "] ++ (doc d s).pieces level := by
  rw [doc_eq (p := .ifStatement) (by cases d <;> rfl)]
  exact (((((Writes.text "if (").append writes_named).append (.text ") ")).append
    (writes_doc hs)).append
    .nil).of_eq fun level => by simp

theorem writes_choice (hs : (doc d s).halt? = none) (ht : (doc d t).halt? = none) :
    Writes (doc d (.ifStatement (named x) s (some t)))
      fun level => [.text "if (", .text x, .text ") "] ++ (doc d s).pieces level ++
        .text " else " :: (doc d t).pieces level := by
  rw [doc_eq (p := .ifStatement) (by cases d <;> rfl)]
  exact (((((Writes.text "if (").append writes_named).append (.text ") ")).append
    (writes_doc hs)).append
    ((Writes.text " else ").append (writes_doc ht))).of_eq fun level => by simp

theorem writes_node (h : Head) (hs : (doc d s).halt? = none) :
    Writes (doc d (h.node s)) fun level => h.pieces ++ (doc d s).pieces level := by
  cases h with
  | loop x =>
    rw [Head.node, doc_eq (p := .whileStatement) (by cases d <;> rfl)]
    exact ((Writes.text "while (").append writes_named).append (.text ") ") |>.append
      (writes_doc hs)
  | scope x =>
    rw [Head.node, doc_eq (p := .withStatement) (by cases d <;> rfl)]
    exact ((Writes.text "with (").append writes_named).append (.text ") ") |>.append (writes_doc hs)
  | label x =>
    rw [Head.node, doc_eq (p := .labeledStatement) (by cases d <;> rfl)]
    exact (writes_named.append (.text ": ")).append (writes_doc hs)

/-- Statements on lines of their own. -/
theorem writes_lines (hss : ∀ s ∈ ss, (doc d s).halt? = none) :
    Writes ((Grammar.ofDialect d).scope.lines ss) (linePieces d ss) := by
  induction ss with
  | nil => exact .nil
  | cons s ss ih =>
    obtain ⟨hs, hss⟩ := List.forall_mem_cons.mp hss
    have hindent : Writes .indent fun level => [.indent level.now] :=
      ⟨rfl, fun _ => rfl, fun _ => rfl⟩
    have hlineEnd : Writes .lineEnd fun _ => [.lineEnd] := ⟨rfl, fun _ => rfl, fun _ => rfl⟩
    have hline : Writes (doc d s).line
        fun level => .indent level.now :: ((doc d s).pieces level ++ [.lineEnd]) :=
      ((hindent.append (writes_doc hs)).append hlineEnd).of_eq fun level => by simp
    exact hline.append (ih hss)

/-- A block: braces, and between them its statements one level deeper. -/
theorem writes_block (hss : ∀ s ∈ ss, (doc d s).halt? = none) :
    Writes (doc d (.block .statement ss))
      fun level => .text "\x7b" :: (bodyPieces d ss level ++ [.text "\x7d"]) := by
  rw [doc_eq (p := .block) (by cases d <;> rfl)]
  have hbody : Writes (.deeper ++ if ss.isEmpty then .shallower
      else .lineEnd ++ (Grammar.ofDialect d).scope.lines ss ++ .shallower ++ .indent)
      (bodyPieces d ss) := by
    cases ss with
    | nil => exact ⟨rfl, fun _ => rfl, fun _ => rfl⟩
    | cons s ss =>
      have hlineEnd : Writes .lineEnd fun _ => [.lineEnd] := ⟨rfl, fun _ => rfl, fun _ => rfl⟩
      exact (hlineEnd.append (writes_lines hss)).nested
  exact ((Writes.text "\x7b").append hbody).append (.text "\x7d")

end Forms

/-! ## §3. Handing an `else` on changes no piece. -/

namespace Tree

variable {d : Dialect} {s e : Node}

/-- A tree is written to its end. -/
theorem halt?_eq_none (h : Tree s) : (doc d s).halt? = none := by
  induction h with
  | empty => exact writes_empty.halt?
  | expression => exact writes_expression.halt?
  | when _ _ ih => exact (writes_when ih).halt?
  | choice _ _ _ ihs iht => exact (writes_choice ihs iht).halt?
  | headed _ _ ih => exact (writes_node _ ih).halt?
  | block _ ih => exact (writes_block ih).halt?

/-- **An `else` stands at the end**, whichever `if` takes it. -/
theorem pieces_giveElse (h : Tree s) (he : Tree e) (level : Level) : endsOpen s = true →
    (doc d (Statement.giveElse e s)).pieces level =
      (doc d s).pieces level ++ .text " else " :: (doc d e).pieces level := by
  induction h with
  | empty | expression | block =>
    intro ho
    cases ho
  | when _ h ih =>
    intro _
    rw [giveElse_when, (writes_when h.halt?_eq_none).pieces]
    -- the `else` goes to an open `if` further down, or it is taken here
    split
    · next ho =>
      rw [(writes_when (h.giveElse he).halt?_eq_none).pieces, ih ho, List.append_assoc]
    · rw [(writes_choice h.halt?_eq_none he.halt?_eq_none).pieces]
  | choice _ hs ht _ ih =>
    intro ho
    rw [giveElse_choice, (writes_choice hs.halt?_eq_none (ht.giveElse he).halt?_eq_none).pieces,
      (writes_choice hs.halt?_eq_none ht.halt?_eq_none).pieces, ih ho, List.append_assoc,
      List.append_assoc, List.append_assoc]
    rfl
  | headed _ h ih =>
    intro ho
    rw [endsOpen_node] at ho
    rw [giveElse_node, (writes_node _ (h.giveElse he).halt?_eq_none).pieces, ih ho,
      (writes_node _ h.halt?_eq_none).pieces, List.append_assoc]

/-- **A tree is written as the settled tree is.** -/
theorem pieces_settle (h : Tree s) (level : Level) :
    (doc d (Statement.settle s)).pieces level = (doc d s).pieces level := by
  induction h generalizing level with
  | empty | expression => rfl
  | when _ h ih =>
    rw [settle_when, (writes_when h.settle.halt?_eq_none).pieces, ih,
      (writes_when h.halt?_eq_none).pieces]
  | choice hx hs ht ihs iht =>
    -- the `if` loses its `else` and is given it again, at its end
    rw [settle_choice, (Tree.when hx hs.settle).pieces_giveElse ht.settle level rfl,
      (writes_when hs.settle.halt?_eq_none).pieces, ihs, iht,
      (writes_choice hs.halt?_eq_none ht.halt?_eq_none).pieces]
  | headed _ h ih =>
    rw [settle_node, (writes_node _ h.settle.halt?_eq_none).pieces, ih,
      (writes_node _ h.halt?_eq_none).pieces]
  | @block ss hss ih =>
    have hlines : ∀ level,
        linePieces d (ss.map Statement.settle) level = linePieces d ss level := by
      intro level
      rw [linePieces, List.flatMap_map]
      exact List.flatMap_congr fun s hs => by rw [ih s hs]
    have hbody : bodyPieces d (ss.map Statement.settle) level = bodyPieces d ss level := by
      rw [bodyPieces, bodyPieces, hlines, List.isEmpty_map]
    have hhalt : ∀ s ∈ ss.map Statement.settle, (doc d s).halt? = none :=
      List.forall_mem_map.mpr fun s hs => (hss s hs).settle.halt?_eq_none
    rw [settle_block, (writes_block hhalt).pieces, hbody,
      (writes_block fun s hs => (hss s hs).halt?_eq_none).pieces]

end Tree

end Estree.Statement
