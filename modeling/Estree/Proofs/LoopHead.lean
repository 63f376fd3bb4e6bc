import Estree.Proofs.Outline.Expression

/-!
# Heads of loops

The head of a loop with three clauses is cut at its semicolons, and the head of a loop over keys at
the word `in`. Both are looked for outside of brackets only, so it matters that no clause has them
there. A clause is a term or a declaration without its terminator, and the operator `in` is in
parentheses wherever it is an operator. So the head can be cut only where the loop says, unless a
semicolon or the word `in` is written of a string of the tree: as a name, as a part of one that a
word does not go on with, or as the digits of a big integer and the letter after them.

What the characters of words are is left open (`part`): a string has the word `in` if the characters
next to it are none of them.

Main results:

* `cutAt_clauses`: three clauses are cut apart at their semicolons.
* `inAt_between`: the word between two clauses is the only one.
* `generate_loop_heads`: the heads of loops are read as they are meant.
-/

namespace Estree.LoopHead

open Nesting Outline
open Dialect (doc doc_eq)

/-! ## §1. Clauses. -/

/-- Semicolons and the word `in`. -/
def separators (part : Char → Bool) : Sought := ⟨';', some part, by decide⟩

/-- Strings that have neither. -/
def vocabulary (part : Char → Bool) : Vocabulary where
  name x := (separators part).Absent x.toList
  field x := (separators part).Absent x.toList
  value s := (separators part).Absent (Json.quoted s).toList
  loose := False

/-- No word of the vocabulary is a separator. -/
theorem lacks_vocabulary (part : Char → Bool) : (vocabulary part).Lacks (separators part) where
  name _ hx := hx
  field _ hx := hx
  value _ hs := hs
  loose := False.elim

/-- What is declared, and its value. Only declarators are written in this place. -/
def Declarator (v : Vocabulary) (n : Node) : Prop :=
  ∀ id init definite, n = .variableDeclarator id init definite →
    Term v id ∧ ∀ m, init = some m → Term v m

/-- A term, or a declaration. -/
inductive Clause (v : Vocabulary) : Node → Prop where
  | term {n : Node} : Term v n → Clause v n
  | declaration {kind : String} {declarations : List Node} {declare : Bool} : v.field kind →
      (∀ n ∈ declarations, Declarator v n) →
      Clause v (.variableDeclaration kind declarations declare)

variable {part : Char → Bool} {v : Vocabulary} {l : Layout} {n : Node}

/-- A comma is no separator of the head. -/
theorem isAhead_comma {d : Doc} (hd : d.IsClear (separators part) l) :
    (d ++ Doc.text ", ").IsAhead (separators part) l := by
  have habsent : (separators part).Absent ", ".toList :=
    ⟨by simp [separators], fun _ _ hin => by simpa using hin.isInfix.mem (a := 'i') (by simp)⟩
  have hcomma : (separators part).Clear ", ".toList := clear_of_isFree (by decide) habsent
  have hhead : (outline 0 ", ".toList).head? ≠ some 'n' := by decide
  have hlast : (outline 0 ", ".toList).getLast? = some ' ' := by decide
  refine Doc.Writes.append hd (Doc.writes_text (P := (· = ", ".toList)) rfl) ?_
  rintro cs _ hcs rfl
  refine ⟨hcs.append hcomma (.inr (.inr hhead)), .inr ?_⟩
  rw [outline_append hcs.1, List.getLast?_append, hlast]
  simp

/-- Clear documents with commas between them. -/
theorem isClear_join {ds : List Doc} (h : ∀ d ∈ ds, d.IsClear (separators part) l) :
    (Doc.join ", " ds).IsClear (separators part) l := by
  induction ds with
  | nil => exact Doc.isAhead_nil.isClear
  | cons d rest ih =>
    obtain ⟨hd, hrest⟩ := List.forall_mem_cons.mp h
    cases rest with
    | nil => exact hd
    | cons e rest => exact (isAhead_comma hd).append (ih hrest)

theorem isClear_declarator (hl : l.BracketFree) (hn : n.BracketFree)
    (h : Declarator (vocabulary part) n) :
    (scope.emitAs .variableDeclarator n).IsClear (separators part) l := by
  have hv := lacks_vocabulary part
  rw [Grammar.scope_emitAs]
  change (Emit.Plain.variableDeclarator scope n).IsClear (separators part) l
  unfold Emit.Plain.variableDeclarator
  split
  next id init definite =>
    obtain ⟨hid, hinit⟩ := h id init definite rfl
    have hleft : (doc .plain id).IsClear (separators part) l :=
      hid.isClear hv hl (hn.child (by simp))
    cases init with
    | none => exact Doc.Writes.append_nil hleft
    | some m =>
      have hequals : (Doc.text " = ").IsLink l := Doc.isLink_text (by decide) (by decide)
      have hvalue := (hinit m rfl).isClear hv hl (hn.child (by simp))
      exact Doc.Writes.assoc ((hleft.link hequals).append hvalue)
  next => exact .of_halt rfl

/-- The clauses that are written otherwise by themselves. -/
def IsDeclaration (n : Node) : Prop :=
  ∃ kind declarations declare, n = .variableDeclaration kind declarations declare

/-- What is no declaration is written as it stands. -/
theorem loopHead_of_not_isDeclaration (h : ¬ IsDeclaration n) :
    Emit.loopHead scope n = doc .plain n := by
  unfold Emit.loopHead
  split
  · exact absurd ⟨_, _, _, rfl⟩ h
  · rfl

/-- An expression is no declaration. -/
theorem loopHead_of_term (h : Term v n) : Emit.loopHead scope n = doc .plain n := by
  refine loopHead_of_not_isDeclaration ?_
  rintro ⟨kind, declarations, declare, rfl⟩
  cases h with
  | unwritten h => cases h
  | bracketed h => cases h

/-- A clause of a loop is clear. -/
theorem isClear_loopHead (hl : l.BracketFree) (h : Clause (vocabulary part) n)
    (hn : n.BracketFree) : (Emit.loopHead scope n).IsClear (separators part) l := by
  cases h with
  | term h =>
    rw [loopHead_of_term h]
    exact h.isClear (lacks_vocabulary part) hl hn
  | declaration hkind hdeclarations =>
    have hword : (Doc.text _).IsClear (separators part) l :=
      Doc.isClear_text (hn.texts _ (by simp [Node.texts])) hkind
    refine Doc.IsAhead.append (hword.link Doc.isLink_space) (isClear_join fun d hd => ?_)
    obtain ⟨m, hm, rfl⟩ := List.mem_map.mp hd
    exact isClear_declarator hl (hn.child (by simpa using hm)) (hdeclarations m hm)

/-! ## §2. Texts of clauses. -/

/-- What ends a clause by itself and not in a head. -/
def terminator : Node → List Char
  | .variableDeclaration _ _ _ => [';']
  | _ => []

/-- The characters are the text of a clause by itself but for its terminator; there are none if
there is no clause. -/
def Spelled (l : Layout) (cs : List Char) : Option Node → Prop
  | none => cs = []
  | some n => (Generator.ofDialect .plain l).generate n = .ok (.ofList (cs ++ terminator n))

/-- What a clause writes in the head. -/
def clauseDoc (clause : Option Node) : Doc := .ofOption clause (Emit.loopHead scope)

/-- Declarators stay on the level. -/
theorem steady_declarators (kind : String) (declarations : List Node) :
    (Emit.declarators scope kind declarations).Steady := by
  refine .append (.append (.text _) (.text _)) (.join (.text _) fun d hd => ?_)
  obtain ⟨m, -, rfl⟩ := List.mem_map.mp hd
  exact Grammar.steady_emitAs _ _ _ m

/-- A clause ends at the level at which it starts. -/
theorem steady_clauseDoc (clause : Option Node) : (clauseDoc clause).Steady := by
  cases clause with
  | none => exact .nil
  | some n =>
    change (Emit.loopHead scope n).Steady
    unfold Emit.loopHead
    split
    · exact steady_declarators _ _
    · exact Dialect.steady_doc .plain _

/-- Only a declaration has a terminator of its own. -/
theorem terminator_eq_nil (h : ¬ IsDeclaration n) : terminator n = [] := by
  unfold terminator
  split
  · exact absurd ⟨_, _, _, rfl⟩ h
  · rfl

/-- By itself a clause is written as in a head, with its terminator. -/
theorem chars_loopHead (h : (Emit.loopHead scope n).halt? = none) :
    (doc .plain n).halt? = none ∧ (doc .plain n).chars l =
      (Emit.loopHead scope n).chars l ++ terminator n := by
  by_cases hn : IsDeclaration n
  · obtain ⟨kind, declarations, declare, rfl⟩ := hn
    have hdoc : doc .plain (.variableDeclaration kind declarations declare) =
        Emit.declarators scope kind declarations ++ ";" := by
      rw [doc_eq (p := .variableDeclaration .plain) rfl]
      rfl
    have hhalt : (doc .plain (.variableDeclaration kind declarations declare)).halt? = none := by
      rw [hdoc]
      simpa [Emit.loopHead] using h
    refine ⟨hhalt, ?_⟩
    rw [hdoc] at hhalt ⊢
    rw [(Doc.chars_append_text hhalt l).2]
    rfl
  · rw [loopHead_of_not_isDeclaration hn] at h ⊢
    rw [terminator_eq_nil hn, List.append_nil]
    exact ⟨h, rfl⟩

/-- A clause is spelled by what is generated for it, without the terminator. -/
theorem spelled_clauseDoc {clause : Option Node} (h : (clauseDoc clause).halt? = none) :
    Spelled l ((clauseDoc clause).chars l) clause := by
  cases clause with
  | none => rfl
  | some n =>
    obtain ⟨hhalt, htext⟩ := chars_loopHead (l := l) h
    exact Generator.generate_ofDialect_eq_ok_iff.mpr ⟨hhalt, congrArg String.ofList htext.symm⟩

/-- An expression that may be absent. -/
theorem emit?_eq_clauseDoc {clause : Option Node} (h : ∀ n ∈ clause, Term v n) :
    scope.emit? clause = clauseDoc clause := by
  cases clause with
  | none => rfl
  | some n => exact (loopHead_of_term (h n rfl)).symm

/-- A clause that may be absent is clear. -/
theorem isClear_clauseDoc (hl : l.BracketFree) {clause : Option Node}
    (h : ∀ n ∈ clause, Clause (vocabulary part) n) (hn : ∀ n ∈ clause, n.BracketFree) :
    (clauseDoc clause).IsClear (separators part) l := by
  cases clause with
  | none => exact Doc.isAhead_nil.isClear
  | some n => exact isClear_loopHead hl (h n rfl) (hn n rfl)

/-! ## §3. Heads. -/

/-- Terms that can stand in a head. -/
structure Plain (part : Char → Bool) (n : Node) : Prop where
  term : Term (vocabulary part) n
  bracketFree : n.BracketFree

/-- Clauses that can stand first in a head. -/
structure PlainClause (part : Char → Bool) (n : Node) : Prop where
  clause : Clause (vocabulary part) n
  bracketFree : n.BracketFree

/-- A plain tree is a plain clause. -/
theorem Plain.plainClause (h : Plain part n) : PlainClause part n := ⟨.term h.term, h.bracketFree⟩

/-- What is written of a plain clause is clear. -/
theorem clear_clauseDoc (hl : l.BracketFree) {clause : Option Node}
    (h : ∀ n ∈ clause, PlainClause part n) (hhalt : (clauseDoc clause).halt? = none) :
    (separators part).Clear ((clauseDoc clause).chars l) :=
  isClear_clauseDoc hl (fun n hn => (h n hn).clause) (fun n hn => (h n hn).bracketFree) hhalt .start

section Text

variable {u w a b c : List Char}

/-- There is no semicolon on the outside of a clear text. -/
theorem not_mem_outline (h : (separators part).Clear w) : ';' ∉ outline 0 w := h.2.1

/-- There is no `in` on the outside of a clear text. -/
theorem not_hasIn_outline (h : (separators part).Clear w) : ¬ HasIn part (outline 0 w) :=
  h.2.2 part rfl

/-- A blank before a clause is neither a bracket nor a semicolon. -/
theorem nested_blank (hw : (separators part).Clear w) :
    Nested (' ' :: w) ∧ ';' ∉ outline 0 (' ' :: w) := by
  refine ⟨.pass (by decide) hw.1, ?_⟩
  rw [outline_pass (by decide)]
  simpa using not_mem_outline hw

/-- **Three clauses are cut apart at the semicolons between them.** -/
theorem cutAt_clauses (ha : (separators part).Clear a) (hb : (separators part).Clear b)
    (hc : (separators part).Clear c) :
    cutAt ';' 0 (a ++ ';' :: ' ' :: (b ++ ';' :: ' ' :: c)) = [a, ' ' :: b, ' ' :: c] := by
  obtain ⟨hnb, hmb⟩ := nested_blank hb
  obtain ⟨hnc, hmc⟩ := nested_blank hc
  rw [cutAt_append_mark ha.1 (not_mem_outline ha), ← List.cons_append, cutAt_append_mark hnb hmb,
    cutAt_of_not_mem hnc hmc]

/-- The word `in` between blanks is there once. -/
theorem inAt_word {before after : List Char} (h : InAt part [' ', 'i', 'n', ' '] before after) :
    before = [' '] ∧ after = [' '] := by
  obtain ⟨heq, -, -⟩ := h
  rcases before with _ | ⟨x, _ | ⟨y, _ | ⟨z, _ | ⟨z', rest⟩⟩⟩⟩
  all_goals simp at heq
  obtain ⟨rfl, rfl⟩ := heq
  exact ⟨rfl, rfl⟩

/-- **The word between two clauses is the only one**, if they do not have it. -/
theorem inAt_between (hblank : part ' ' = false) (hu : ¬ HasIn part u) (hw : ¬ HasIn part w)
    {before after : List Char} :
    InAt part (u ++ ([' ', 'i', 'n', ' '] ++ w)) before after ↔
      before = u ++ [' '] ∧ after = ' ' :: w := by
  constructor
  · intro h
    rcases h.of_append with ⟨x, -, hx⟩ | ⟨x, rfl, hx⟩ | ⟨-, hn⟩
    · exact absurd ⟨_, _, hx⟩ hu
    · rcases hx.of_append with ⟨y, rfl, hy⟩ | ⟨y, -, hy⟩ | ⟨hi, -⟩
      · obtain ⟨rfl, rfl⟩ := inAt_word hy
        exact ⟨rfl, rfl⟩
      · exact absurd ⟨_, _, hy⟩ hw
      · exact absurd hi (by decide)
    · exact absurd hn (by simp)
  · rintro ⟨rfl, rfl⟩
    refine ⟨by simp, ?_, ?_⟩
    · simpa using hblank
    · simpa using hblank

end Text

/-! ## §4. Loops. -/

/-- The document of a loop with three clauses. -/
theorem chars_forDoc {init test update body : Doc} (hi : init.Steady) (ht : test.Steady)
    (hu : update.Steady)
    (h : ("for (" ++ init ++ "; " ++ test ++ "; " ++ update ++ ") " ++ body : Doc).halt? = none) :
    (init.halt? = none ∧ test.halt? = none ∧ update.halt? = none ∧ body.halt? = none) ∧
      ("for (" ++ init ++ "; " ++ test ++ "; " ++ update ++ ") " ++ body : Doc).chars l =
        "for (".toList ++
          (init.chars l ++ ';' :: ' ' :: (test.chars l ++ ';' :: ' ' :: update.chars l))
          ++ ") ".toList ++ body.chars l := by
  -- up to each part the head is steady, so the part is written as it is on its own
  have hopen : (Doc.text "for (").Steady := .text _
  have hfirst := (hopen.append hi).append (.text "; ")
  have hsecond := (hfirst.append ht).append (.text "; ")
  have hthird := (hsecond.append hu).append (.text ") ")
  obtain ⟨h, hbody, hc⟩ := Doc.chars_append hthird h l
  obtain ⟨h, hc'⟩ := Doc.chars_append_text h l
  obtain ⟨h, hupdate, hu'⟩ := Doc.chars_append hsecond h l
  obtain ⟨h, hs⟩ := Doc.chars_append_text h l
  obtain ⟨h, htest, ht'⟩ := Doc.chars_append hfirst h l
  obtain ⟨h, hs'⟩ := Doc.chars_append_text h l
  obtain ⟨-, hinit, hi'⟩ := Doc.chars_append hopen h l
  refine ⟨⟨hinit, htest, hupdate, hbody⟩, ?_⟩
  rw [hc, hc', hu', hs, ht', hs', hi']
  simp [Doc.chars_text]

/-- The document of a loop over keys. -/
theorem chars_forInDoc {opening : String} {left right body : Doc} (hl : left.Steady)
    (hr : right.Steady)
    (h : (Doc.text opening ++ left ++ " in " ++ right ++ ") " ++ body : Doc).halt? = none) :
    (left.halt? = none ∧ right.halt? = none ∧ body.halt? = none) ∧
      (Doc.text opening ++ left ++ " in " ++ right ++ ") " ++ body : Doc).chars l =
        opening.toList ++ (left.chars l ++ ([' ', 'i', 'n', ' '] ++ right.chars l))
          ++ ") ".toList ++ body.chars l := by
  have hopen : (Doc.text opening).Steady := .text _
  have hfirst := (hopen.append hl).append (.text " in ")
  have hsecond := (hfirst.append hr).append (.text ") ")
  obtain ⟨h, hbody, hc⟩ := Doc.chars_append hsecond h l
  obtain ⟨h, hc'⟩ := Doc.chars_append_text h l
  obtain ⟨h, hright, hr'⟩ := Doc.chars_append hfirst h l
  obtain ⟨h, hw⟩ := Doc.chars_append_text h l
  obtain ⟨-, hleft, hi⟩ := Doc.chars_append hopen h l
  refine ⟨⟨hleft, hright, hbody⟩, ?_⟩
  rw [hc, hc', hr', hw, hi]
  simp [Doc.chars_text]

/-- A loop with three clauses is written with each of them as it is by itself. -/
theorem generate_forStatement {init test update : Option Node} {body : Node} {text : String}
    (htest : ∀ n ∈ test, Plain part n) (hupdate : ∀ n ∈ update, Plain part n)
    (h : (Generator.ofDialect .plain l).generate (.forStatement init test update body) = .ok text) :
    ((clauseDoc init).halt? = none ∧ (clauseDoc test).halt? = none ∧
      (clauseDoc update).halt? = none) ∧
    ∃ head rest, text = "for (" ++ head ++ ") " ++ rest ∧
      (Generator.ofDialect .plain l).generate body = .ok rest ∧
      head.toList = (clauseDoc init).chars l ++ ';' :: ' ' ::
        ((clauseDoc test).chars l ++ ';' :: ' ' :: (clauseDoc update).chars l) := by
  obtain ⟨hhalt, rfl⟩ := Generator.generate_eq_ok_iff.mp h
  -- only the first clause is written as a loop head, but a term is written the same in both ways
  have hdoc : (Generator.ofDialect .plain l).grammar.emit (.forStatement init test update body) =
      "for (" ++ clauseDoc init ++ "; " ++ clauseDoc test ++ "; " ++ clauseDoc update ++ ") "
        ++ doc .plain body := by
    rw [← emit?_eq_clauseDoc fun n hn => (htest n hn).term,
      ← emit?_eq_clauseDoc fun n hn => (hupdate n hn).term]
    exact doc_eq (d := .plain) (p := .forStatement) rfl
  rw [hdoc] at hhalt ⊢
  obtain ⟨⟨hi, ht, hu, hb⟩, hchars⟩ := chars_forDoc (l := l) (steady_clauseDoc init)
    (steady_clauseDoc test) (steady_clauseDoc update) hhalt
  refine ⟨⟨hi, ht, hu⟩, .ofList _, _, String.toList_inj.mp (hchars.trans ?_),
    Generator.generate_eq_ok_iff.mpr ⟨hb, rfl⟩, String.toList_ofList⟩
  simp only [String.toList_append, String.toList_ofList]
  rfl

/-- A loop over keys is written with both clauses as they are by themselves. -/
theorem generate_forInStatement {left right body : Node} {await : Bool} {text : String}
    (hright : Plain part right)
    (h : (Generator.ofDialect .plain l).generate (.forInStatement left right body await) =
      .ok text) :
    ((clauseDoc (some left)).halt? = none ∧ (clauseDoc (some right)).halt? = none) ∧
    ∃ head rest, text = (if await then "for await (" else "for (") ++ head ++ ") " ++ rest ∧
      (Generator.ofDialect .plain l).generate body = .ok rest ∧
      head.toList = (clauseDoc (some left)).chars l ++
        ([' ', 'i', 'n', ' '] ++ (clauseDoc (some right)).chars l) := by
  obtain ⟨hhalt, rfl⟩ := Generator.generate_eq_ok_iff.mp h
  -- the second clause is an expression, so it is no declaration to be cut short
  have hdoc : (Generator.ofDialect .plain l).grammar.emit (.forInStatement left right body await) =
      Doc.text (if await then "for await (" else "for (") ++ clauseDoc (some left) ++ " in "
        ++ clauseDoc (some right) ++ ") " ++ doc .plain body := by
    have hterm : clauseDoc (some right) = doc .plain right := loopHead_of_term hright.term
    rw [hterm]
    exact doc_eq (d := .plain) (p := .forEach) rfl
  rw [hdoc] at hhalt ⊢
  obtain ⟨⟨hleft, hright, hb⟩, hchars⟩ := chars_forInDoc (l := l) (steady_clauseDoc (some left))
    (steady_clauseDoc (some right)) hhalt
  refine ⟨⟨hleft, hright⟩, .ofList _, _, String.toList_inj.mp (hchars.trans ?_),
    Generator.generate_eq_ok_iff.mpr ⟨hb, rfl⟩, String.toList_ofList⟩
  simp only [String.toList_append, String.toList_ofList]
  rfl

/-- **The heads of loops are read as they are meant.** Cut at its semicolons, the head of a loop
with three clauses gives the clauses, and the first of them does not have the word `in`. In the head
of a loop over keys the word stands once, between the two clauses. -/
theorem generate_loop_heads (hblank : part ' ' = false) (hl : l.BracketFree) :
    (∀ (init test update : Option Node) (body : Node) (text : String),
      (∀ n ∈ init, PlainClause part n) → (∀ n ∈ test, Plain part n) → (∀ n ∈ update, Plain part n) →
      (Generator.ofDialect .plain l).generate (.forStatement init test update body) = .ok text →
      ∃ head rest a b c, text = "for (" ++ head ++ ") " ++ rest ∧ WellNested head ∧
        (Generator.ofDialect .plain l).generate body = .ok rest ∧
        cutAt ';' 0 head.toList = [a, ' ' :: b, ' ' :: c] ∧
        Spelled l a init ∧ Spelled l b test ∧ Spelled l c update ∧ ¬ HasIn part (outline 0 a)) ∧
    ∀ (left right body : Node) (await : Bool) (text : String),
      PlainClause part left → Plain part right →
      (Generator.ofDialect .plain l).generate (.forInStatement left right body await) = .ok text →
      ∃ head rest a b, text = (if await then "for await (" else "for (") ++ head ++ ") " ++ rest ∧
        WellNested head ∧ (Generator.ofDialect .plain l).generate body = .ok rest ∧
        head.toList = a ++ " in ".toList ++ b ∧
        Spelled l a (some left) ∧ Spelled l b (some right) ∧
        ∀ before after, InAt part (outline 0 head.toList) before after ↔
          before = outline 0 a ++ [' '] ∧ after = ' ' :: outline 0 b := by
  constructor
  · intro init test update body text hinit htest hupdate htext
    obtain ⟨⟨hi, ht, hu⟩, head, rest, htext, hrest, hhead⟩ :=
      generate_forStatement htest hupdate htext
    -- no clause has a semicolon or the word on its outside
    have ha := clear_clauseDoc hl hinit hi
    have hb := clear_clauseDoc hl (fun n hn => (htest n hn).plainClause) ht
    have hc := clear_clauseDoc hl (fun n hn => (hupdate n hn).plainClause) hu
    have hnested : WellNested head := by
      rw [WellNested, hhead]
      exact ha.1.append (.pass (by decide) (.pass (by decide)
        (hb.1.append (.pass (by decide) (.pass (by decide) hc.1)))))
    exact ⟨head, rest, _, _, _, htext, hnested, hrest, hhead ▸ cutAt_clauses ha hb hc,
      spelled_clauseDoc hi, spelled_clauseDoc ht, spelled_clauseDoc hu, not_hasIn_outline ha⟩
  · intro left right body await text hleft hright htext
    obtain ⟨⟨hi, hr⟩, head, rest, htext, hrest, hhead⟩ := generate_forInStatement hright htext
    have ha : (separators part).Clear ((clauseDoc (some left)).chars l) :=
      clear_clauseDoc hl (by simpa using hleft) hi
    have hb : (separators part).Clear ((clauseDoc (some right)).chars l) :=
      clear_clauseDoc hl (by simpa using hright.plainClause) hr
    have hword :
        Nested [' ', 'i', 'n', ' '] ∧ outline 0 [' ', 'i', 'n', ' '] = [' ', 'i', 'n', ' '] :=
      ⟨nested_of_isFree (s := " in ") (by decide), by decide⟩
    have hnested : WellNested head := by
      rw [WellNested, hhead]
      exact ha.1.append (hword.1.append hb.1)
    refine ⟨head, rest, _, _, htext, hnested, hrest, hhead.trans (by simp), spelled_clauseDoc hi,
      spelled_clauseDoc hr, fun before after => ?_⟩
    -- seen from outside, the head is the two outlines with the word between them
    rw [hhead, outline_append ha.1, outline_append hword.1, hword.2]
    exact inAt_between hblank (not_hasIn_outline ha) (not_hasIn_outline hb)

/-- The operator `in` in a declaration, and a word that begins with it:
`for (let k = (a in b); a instanceof b; ) ;` and `for (k in a instanceof b) ;`. -/
theorem generate_loop_heads_instanceof :
    let name (x : String) : Node := .identifier x false none []
    let init : Node := .variableDeclaration "let"
      [.variableDeclarator (name "k") (some (.binaryExpression "in" (name "a") (name "b"))) false]
      false
    let test : Node := .binaryExpression "instanceof" (name "a") (name "b")
    let first := "for (let k = (a in b); a instanceof b; ) ;"
    let second := "for (k in a instanceof b) ;"
    (Char.isAlphanum ' ' = false ∧ ({} : Layout).BracketFree ∧ PlainClause Char.isAlphanum init ∧
      PlainClause Char.isAlphanum (name "k") ∧ Plain Char.isAlphanum test ∧
      (Generator.ofDialect .plain {}).generate
        (.forStatement (some init) (some test) none .emptyStatement) = .ok first ∧
      (Generator.ofDialect .plain {}).generate
        (.forInStatement (name "k") test .emptyStatement false) = .ok second) ∧
    (∃ head rest a b c, first = "for (" ++ head ++ ") " ++ rest ∧ WellNested head ∧
      (Generator.ofDialect .plain {}).generate .emptyStatement = .ok rest ∧
      cutAt ';' 0 head.toList = [a, ' ' :: b, ' ' :: c] ∧
      Spelled {} a (some init) ∧ Spelled {} b (some test) ∧ Spelled {} c none ∧
      ¬ HasIn Char.isAlphanum (outline 0 a)) ∧
    ∃ head rest a b, second = "for (" ++ head ++ ") " ++ rest ∧ WellNested head ∧
      (Generator.ofDialect .plain {}).generate .emptyStatement = .ok rest ∧
      head.toList = a ++ " in ".toList ++ b ∧ Spelled {} a (some (name "k")) ∧
      Spelled {} b (some test) ∧
      ∀ before after, InAt Char.isAlphanum (outline 0 head.toList) before after ↔
        before = outline 0 a ++ [' '] ∧ after = ' ' :: outline 0 b := by
  intro name init test first second
  have hfree : ∀ {x : String}, IsFree x → (name x).BracketFree := fun hx =>
    Node.bracketFree_iff.mpr ⟨List.forall_mem_singleton.mpr hx, List.forall_mem_nil _⟩
  have hbinary : ∀ {op : String}, IsFree op →
      (Node.binaryExpression op (name "a") (name "b")).BracketFree := fun hop =>
    Node.bracketFree_iff.mpr ⟨List.forall_mem_singleton.mpr hop, List.forall_mem_cons.mpr
      ⟨hfree (by decide), List.forall_mem_singleton.mpr (hfree (by decide))⟩⟩
  have habsent : ∀ x ∈ ["a", "b", "k", "let", "instanceof"],
      (separators Char.isAlphanum).Absent x.toList := by decide
  have hkey : Term (vocabulary Char.isAlphanum) (name "k") := .name (habsent "k" (by decide))
  have htest : Plain Char.isAlphanum test :=
    ⟨.binary (habsent _ (by decide)) (.name (habsent _ (by decide)))
      (.name (habsent _ (by decide))),
      hbinary (by decide)⟩
  have hdeclarator : Declarator (vocabulary Char.isAlphanum) (.variableDeclarator (name "k")
      (some (.binaryExpression "in" (name "a") (name "b"))) false) := by
    rintro _ _ _ ⟨⟩
    exact ⟨hkey, by rintro _ ⟨⟩; exact .isIn⟩
  have hinit : PlainClause Char.isAlphanum init := by
    refine ⟨.declaration (habsent _ (by decide)) (List.forall_mem_singleton.mpr hdeclarator), ?_⟩
    refine Node.bracketFree_iff.mpr ⟨List.forall_mem_singleton.mpr (by decide),
      List.forall_mem_singleton.mpr (Node.bracketFree_iff.mpr ⟨List.forall_mem_nil _, ?_⟩)⟩
    exact List.forall_mem_cons.mpr
      ⟨hfree (by decide), List.forall_mem_singleton.mpr (hbinary (by decide))⟩
  have hk : PlainClause Char.isAlphanum (name "k") := ⟨.term hkey, hfree (by decide)⟩
  have hfirst : (Generator.ofDialect .plain {}).generate
      (.forStatement (some init) (some test) none .emptyStatement) = .ok first := rfl
  have hsecond : (Generator.ofDialect .plain {}).generate
      (.forInStatement (name "k") test .emptyStatement false) = .ok second := rfl
  have hblank : Char.isAlphanum ' ' = false := by decide
  have hl : ({} : Layout).BracketFree := by decide
  have hread := generate_loop_heads hblank hl
  exact ⟨⟨hblank, hl, hinit, hk, htest, hfirst, hsecond⟩,
    hread.1 (some init) (some test) none .emptyStatement first (by simpa using hinit)
      (by simpa using htest) (by simp) hfirst,
    hread.2 (name "k") test .emptyStatement false second hk htest hsecond⟩

/-- A big integer whose digits are no digits: with the letter after them they are the word. -/
theorem generate_forStatement_bigint_in :
    (Generator.ofDialect .plain {}).generate
        (.forStatement (some (.literal { bigint := some "i" })) none none .emptyStatement) =
      .ok "for (in; ; ) ;" ∧
    cutAt ';' 0 "in; ; ".toList = ["in".toList, [' '], [' ']] ∧
    HasIn Char.isAlphanum (outline 0 "in".toList) :=
  ⟨rfl, by decide, by decide⟩

end Estree.LoopHead
