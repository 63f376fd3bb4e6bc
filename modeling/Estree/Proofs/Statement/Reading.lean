import Estree.Proofs.Reading
import Estree.Proofs.Statement.Spelling

/-!
# Settled statements are read back

The reader here decides on the next token alone, and after the body of an `if` it takes an `else`
whenever one comes. So an `else` goes to the last `if` that can take it, and the tokens of a settled
tree lead to the tree. What follows must not begin with `else` if the tree ends in an `if` that
would take it (`Follows`); inside a settled tree nothing does.

Main results:

  * `Found.when`, `Found.choice`, `Found.headed`, `FoundAll.block`: the reader comes to each form;
  * `Tree.spelled`: the tokens of a settled tree lead the reader to the tree.
-/

namespace Estree.Statement

open Expression (IsIdentifier named)
open Expression.Words (Introduces)
open Dialect (doc)
open Reading

/-! ## §1. The reader. -/

/-- What is read: a statement, or the statements up to a closing brace. -/
inductive Part where
  | statement | body

/-- A name in parentheses, and what comes then. -/
def guarded (next : Token → Plan Part) : Plan Part :=
  .token "(" (.take fun x => .token ")" (next x))

/-- The plan for a statement after its first token. -/
def plan (t : Token) (next : Node → Plan Part) : Plan Part :=
  if t = ";" then next .emptyStatement
  else if t = "\x7b" then .part .body fun n => .token "\x7d" (next n)
  else if t = "if" then
    guarded fun x => .part .statement fun s =>
      .ifNext "else" (.part .statement fun e => next (.ifStatement (named x) s (some e)))
        (next (.ifStatement (named x) s none))
  else if t = "while" then guarded fun x => .part .statement fun s => next ((Head.loop x).node s)
  else if t = "with" then guarded fun x => .part .statement fun s => next ((Head.scope x).node s)
  else
    .ifNext ":" (.part .statement fun s => next ((Head.label t).node s))
      (.token ";" (next (.expressionStatement (named t) none)))

/-- A block with one more statement. -/
def added : Node → Node → Node
  | .block form ss, s => .block form (ss ++ [s])
  | n, _ => n

/-- The reader: a block goes on with statements until a brace closes it. -/
def reader : Reader Part where
  start
    | .statement, next => .take fun t => plan t next
    | .body, next => next (.block .statement [])
  more
    | .statement, _, _ => none
    | .body, n, t => if t = "\x7d" then none else some fun next => plan t fun s => next (added n s)

section Plans

variable {x : Token} {next : Node → Plan Part}

/-- A name is no punctuator and no reserved word. -/
theorem notMem_of_isIdentifier {ts : List Token} (hx : IsIdentifier x)
    (h : ∀ t ∈ ts, Expression.isWord t = false ∨ t ∈ Expression.reservedWords) : x ∉ ts := by
  intro hmem
  rcases h x hmem with h | h
  · exact hx.ne h rfl
  · exact hx.2 h

/-- After `if` come a name in parentheses, a statement, and an `else` if one comes. -/
theorem plan_if : plan "if" next = guarded fun x => .part .statement fun s =>
    .ifNext "else" (.part .statement fun e => next (.ifStatement (named x) s (some e)))
      (next (.ifStatement (named x) s none)) := by
  simp [plan]

/-- A name begins a labeled statement or stands alone. -/
theorem plan_name (hx : IsIdentifier x) : plan x next =
    .ifNext ":" (.part .statement fun s => next ((Head.label x).node s))
      (.token ";" (next (.expressionStatement (named x) none))) := by
  have hne : x ∉ [";", "\x7b", "if", "while", "with"] := notMem_of_isIdentifier hx (by decide)
  simp only [List.mem_cons, List.not_mem_nil, or_false, not_or] at hne
  simp [plan, hne]

/-- A name in parentheses is read. -/
theorem reaches_guarded {k : Token → Plan Part} {rest : List Token} {u : State Part}
    (h : Reaches reader (k x, rest) u) :
    Reaches reader (guarded k, "(" :: x :: ")" :: rest) u :=
  .token (.take (.token h))

end Plans

/-! ## §2. What is found. -/

/-- What follows is not taken by an `if` at the end of the statement. -/
def Follows (s : Node) (rest : List Token) : Prop := endsOpen s = true → rest.head? ≠ some "else"

/-- The tokens are read as the statement. -/
def Found (ts : List Token) (s : Node) : Prop :=
  ∃ t more, ts = t :: more ∧ t ∉ ["\x7d", "else"] ∧
    ∀ {next : Node → Plan Part} {rest : List Token}, Follows s rest →
      Reaches reader (plan t next, more ++ rest) (next s, rest)

/-- The tokens before a closing brace are read as the statements. -/
structure FoundAll (ts : List Token) (ss : List Node) : Prop where
  head : ts.head? ≠ some "else"
  run : ∀ {done : List Node} {next : Node → Plan Part} {rest : List Token},
    Reaches reader (.goOn .body (.block .statement done) next, ts ++ "\x7d" :: rest)
      (next (.block .statement (done ++ ss)), "\x7d" :: rest)

/-- The tokens of a head. -/
def Head.tokens : Head → List Token
  | loop x => ["while", "(", x, ")"]
  | scope x => ["with", "(", x, ")"]
  | label x => [x, ":"]

namespace Found

variable {ts us : List Token} {s t : Node} {ss : List Node} {x : Token}

/-- A statement is read as a part of another. -/
theorem part (h : Found ts s) {next : Node → Plan Part} {rest : List Token} (hr : Follows s rest) :
    Reaches reader (.part .statement next, ts ++ rest) (next s, rest) := by
  obtain ⟨t, more, rfl, -, hrun⟩ := h
  exact .part (.take ((hrun hr).trans (.stop (fun _ _ => rfl) (.refl _))))

theorem empty : Found [";"] .emptyStatement := by
  refine ⟨";", [], rfl, by decide, fun {next rest} _ => ?_⟩
  rw [plan, if_pos rfl]
  exact .refl _

/-- A name as a statement. -/
theorem expression (hx : IsIdentifier x) :
    Found [x, ";"] (.expressionStatement (named x) none) := by
  refine ⟨x, [";"], rfl, notMem_of_isIdentifier hx (by decide), fun {next rest} _ => ?_⟩
  rw [plan_name hx]
  exact .ifNext_of_ne (by simp) (.token (.refl _))

/-- An `if` without an `else`, where none follows. -/
theorem when (h : Found ts s) :
    Found ("if" :: "(" :: x :: ")" :: ts) (.ifStatement (named x) s none) := by
  refine ⟨"if", _, rfl, by decide, fun {next rest} hr => ?_⟩
  rw [plan_if]
  -- the statement ends in this `if`, so no `else` comes
  have hne : rest.head? ≠ some "else" := hr rfl
  exact reaches_guarded ((h.part fun _ => hne).trans (.ifNext_of_ne hne (.refl _)))

/-- An `if` with an `else`, whose body takes none. -/
theorem choice (hs : Found ts s) (hclosed : endsOpen s = false) (ht : Found us t) :
    Found ("if" :: "(" :: x :: ")" :: (ts ++ "else" :: us))
      (.ifStatement (named x) s (some t)) := by
  refine ⟨"if", _, rfl, by decide, fun {next rest} hr => ?_⟩
  rw [plan_if, List.cons_append, List.cons_append, List.cons_append, List.append_assoc]
  -- the body takes no `else`, so it is left for this `if`
  have hbody : Follows s ("else" :: (us ++ rest)) := fun ho => by
    rw [hclosed] at ho
    cases ho
  exact reaches_guarded ((hs.part hbody).trans (.ifNext (ht.part hr)))

theorem headed (h : Head) (hx : IsIdentifier h.name) (hs : Found ts s) :
    Found (h.tokens ++ ts) (h.node s) := by
  cases h with
  | loop x =>
    refine ⟨"while", _, rfl, by decide, fun {next rest} hr => ?_⟩
    have hplan : plan "while" next =
        guarded fun x => .part .statement fun s => next ((Head.loop x).node s) := by simp [plan]
    rw [hplan]
    exact reaches_guarded (hs.part hr)
  | scope x =>
    refine ⟨"with", _, rfl, by decide, fun {next rest} hr => ?_⟩
    have hplan : plan "with" next =
        guarded fun x => .part .statement fun s => next ((Head.scope x).node s) := by simp [plan]
    rw [hplan]
    exact reaches_guarded (hs.part hr)
  | label x =>
    have hname : IsIdentifier x := hx
    refine ⟨x, _, rfl, notMem_of_isIdentifier hname (by decide), fun {next rest} hr => ?_⟩
    rw [plan_name hname]
    exact .ifNext (hs.part hr)

end Found

namespace FoundAll

variable {ts us : List Token} {s : Node} {ss : List Node}

/-- No statement before the closing brace. -/
theorem nil : FoundAll [] [] := by
  refine ⟨by simp, fun {done next rest} => ?_⟩
  rw [List.append_nil]
  exact .stop (by simp [reader]) (.refl _)

/-- One statement, and those after it. -/
theorem cons (h : Found ts s) (hss : FoundAll us ss) : FoundAll (ts ++ us) (s :: ss) := by
  obtain ⟨t, more, rfl, ht, hrun⟩ := h
  simp only [List.mem_cons, List.not_mem_nil, or_false, not_or] at ht
  refine ⟨by simpa using ht.2, fun {done next rest} => ?_⟩
  have hmore : reader.more .body (.block .statement done) t =
      some fun next => plan t fun s => next (added (.block .statement done) s) :=
    if_neg ht.1
  have hfollows : Follows s (us ++ "\x7d" :: rest) := by
    intro _
    cases us with
    | nil => simp
    | cons u us => exact hss.head
  have hrest : Reaches reader
      (.goOn .body (.block .statement (done ++ [s])) next, us ++ "\x7d" :: rest)
      (next (.block .statement (done ++ [s] ++ ss)), "\x7d" :: rest) := hss.run
  rw [List.append_assoc] at hrest
  rw [List.cons_append, List.cons_append, List.append_assoc]
  exact .onward hmore ((hrun hfollows).trans hrest)

/-- A block is read by reading its statements. -/
theorem block (h : FoundAll ts ss) : Found ("\x7b" :: (ts ++ ["\x7d"])) (.block .statement ss) := by
  refine ⟨"\x7b", _, rfl, by decide, fun {next rest} _ => ?_⟩
  have hplan : plan "\x7b" next = .part .body fun n => .token "\x7d" (next n) := by simp [plan]
  rw [hplan, List.append_assoc]
  exact .part (h.run.trans (.token (.refl _)))

end FoundAll

/-! ## §3. Spelling. -/

variable {d : Dialect}

/-- The pieces of a head are its tokens. -/
theorem spells_head (h : Head) (hx : IsIdentifier h.name) : Spells h.pieces h.tokens := by
  cases h with
  | loop x => exact .around (show Introduces "while (" ["while", "("] by decide) hx.1 (by decide)
  | scope x => exact .around (show Introduces "with (" ["with", "("] by decide) hx.1 (by decide)
  | label x => exact .name hx.1 (by decide)

/-- The pieces before the body of an `if`. -/
theorem spells_if {x : String} (hx : IsIdentifier x) :
    Spells [.text "if (", .text x, .text ") "] ["if", "(", x, ")"] :=
  .around (show Introduces "if (" ["if", "("] by decide) hx.1 (by decide)

/-- The tokens of a statement in any place, and the statement that they are read as. -/
def Spelled (d : Dialect) (s : Node) : Prop :=
  ∃ ts, (∀ level, Spells ((doc d s).pieces level) ts) ∧ Found ts s

/-- Lines and indentation do not show in the tokens. -/
theorem spells_lines {ss : List Node} (h : ∀ s ∈ ss, Spelled d s) :
    ∃ ts, (∀ level, Spells (linePieces d ss level) ts) ∧ FoundAll ts ss := by
  induction ss with
  | nil => exact ⟨[], fun _ => .nil, .nil⟩
  | cons s ss ih =>
    obtain ⟨⟨ts, hts, hfound⟩, hss⟩ := List.forall_mem_cons.mp h
    obtain ⟨us, hus, hall⟩ := ih hss
    refine ⟨ts ++ us, fun level => ?_, hall.cons hfound⟩
    have hline : Spells (.indent level.now :: ((doc d s).pieces level ++ [.lineEnd])) ts := by
      have hpieces := (Spells.indent level.now).append ((hts level).append .lineEnd)
      rwa [List.nil_append, List.append_nil] at hpieces
    exact hline.append (hus level)

/-- Braces add nothing to the tokens between them. -/
theorem spells_body {ss : List Node} {ts : List Token}
    (h : ∀ level, Spells (linePieces d ss level) ts) (level : Level) :
    Spells (bodyPieces d ss level) ts := by
  cases ss with
  | nil => exact h level
  | cons s ss =>
    have hpieces := Spells.lineEnd.append
      ((h { level with now := level.now + 1 }).append (.indent level.now))
    rwa [List.nil_append, List.append_nil] at hpieces

/-- **Every settled tree is read back.** The induction is on the tree; an `if` with an `else` is
read back because its body is closed, which the settled tree says. -/
theorem Tree.spelled {s : Node} (h : Tree s) : Settled s → Spelled d s := by
  induction h with
  | empty =>
    refine fun _ => ⟨[";"], fun level => ?_, .empty⟩
    rw [writes_empty.pieces]
    exact .text (by decide)
  | @expression x hx =>
    refine fun _ => ⟨[x, ";"], fun level => ?_, .expression hx⟩
    rw [writes_expression.pieces]
    exact .name hx.1 (by decide)
  | @when x s hx h ih =>
    intro hs
    obtain ⟨ts, hts, hfound⟩ := ih (settled_when.mp hs)
    refine ⟨_, fun level => ?_, hfound.when⟩
    rw [(writes_when h.halt?_eq_none).pieces]
    exact (spells_if hx).append (hts level)
  | @choice x s t hx h ht ihs iht =>
    intro hs
    -- a body that is closed cannot take the `else`
    obtain ⟨hclosed, hbody, helse⟩ := settled_choice.mp hs
    obtain ⟨ts, hts, hfound⟩ := ihs hbody
    obtain ⟨us, hus, hfound'⟩ := iht helse
    refine ⟨_, fun level => ?_, hfound.choice hclosed hfound'⟩
    rw [(writes_choice h.halt?_eq_none ht.halt?_eq_none).pieces]
    have hword : Spells [.text " else "] ["else"] := .text (by decide)
    exact ((spells_if hx).append (hts level)).append (hword.append (hus level))
  | headed hx h ih =>
    intro hs
    obtain ⟨ts, hts, hfound⟩ := ih (settled_node.mp hs)
    refine ⟨_, fun level => ?_, hfound.headed _ hx⟩
    rw [(writes_node _ h.halt?_eq_none).pieces]
    exact (spells_head _ hx).append (hts level)
  | block hss ih =>
    intro hs
    have hall := settled_block.mp hs
    -- the statements of a block are settled each by itself
    obtain ⟨ts, hts, hfound⟩ := spells_lines fun s h => ih s h (hall s h)
    refine ⟨_, fun level => ?_, hfound.block⟩
    rw [(writes_block fun s h => (hss s h).halt?_eq_none).pieces]
    have hopen : Spells [.text "\x7b"] ["\x7b"] := .text (by decide)
    have hclose : Spells [.text "\x7d"] ["\x7d"] := .text (by decide)
    exact hopen.append ((spells_body hts level).append hclose)

end Estree.Statement
