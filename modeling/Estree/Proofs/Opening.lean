import Estree.Proofs.Opening.Expression

/-!
# Statements and arrow bodies that are not read as something else

A statement that begins with a brace is read as a block, and one that begins with `function`,
`class` or a decorator as a declaration. An expression statement is therefore put in parentheses
when it would begin so, and no such text comes to stand at its beginning
(`generate_expressionStatement_clear`).

The body of an arrow function is read as a block if it begins with a brace. Here only an object is
put in parentheses, not an assignment to an object pattern, so `() => {a} = b` is written; this is
the one way in which a body comes to begin with a brace (`generate_arrow_brace_iff`).

Main results:

* `generate_expressionStatement_clear`: expression statements are not read as blocks or
  declarations.
* `IsArrowBody.begins`: the bodies of arrows that begin with a brace.
* `generate_arrow_brace_iff`: these are the assignments to objects.
* `generate_patternArrow`: one such arrow.
-/

namespace Estree.Opening

open Dialect (doc doc_eq)

variable {d : Dialect} {l : Layout} {text : String}

/-! ## §1. Expression statements. -/

/-- The statement is wrapped if its expression is exposed. -/
theorem ranked_of_isExposed {e : Node} (h : isExposed e = true) :
    ((Grammar.ofDialect d).scope.rank e.kind == some Rank.wrapped ||
      Emit.assignsObject e) = true := by
  have hall : ∀ k ∈ wrappedKinds, (Grammar.ofDialect d).scope.rank k = some Rank.wrapped := by
    cases d <;> decide
  rcases Bool.or_eq_true_iff.mp h with h | h
  · simp [hall e.kind (by simpa using h)]
  · simp [h]

/-- An expression statement begins with no opener. -/
theorem Led.begins_statement {e : Node} {directive : Option String} (h : Led .statement e) :
    (doc d (.expressionStatement e directive)).Begins .statement := by
  rw [doc_eq (p := .expressionStatement) (by cases d <;> rfl)]
  change ((doc d e).parensIf _ ++ Doc.text ";").Begins _
  refine .append ?_ (Doc.divides_text (by decide))
  cases hwrap : (Grammar.ofDialect d).scope.rank e.kind == some Rank.wrapped ||
    Emit.assignsObject e with
  | true => exact ((Doc.LedBy.parens _).opens (by decide)).begins
  | false =>
    refine h.begins (Bool.eq_false_iff.mpr fun hexposed => ?_)
    rw [ranked_of_isExposed hexposed] at hwrap
    cases hwrap

/-- The texts that begin a block or a declaration. -/
def declarationOpeners : List String := ["\x7b", "function", "async function", "class", "@"]

/-- A text clear of the openers of a statement begins with none of them; the word `async` is among
them whatever follows it. -/
theorem Clear.not_declarationOpener {cs : List Char} (h : Clear .statement cs) :
    ∀ o ∈ declarationOpeners, ¬ o.toList <+: cs := by
  have hall : ∀ o ∈ declarationOpeners, ∃ o' ∈ Openers.statement.texts, o'.toList <+: o.toList := by
    decide
  intro o ho hp
  obtain ⟨o', ho', hp'⟩ := hall o ho
  exact h o' ho' (hp'.trans hp)

/-- **Expression statements are not read as blocks or declarations.** -/
theorem generate_expressionStatement_clear {e : Node} {directive : Option String}
    (h : Led .statement e)
    (ht : (Generator.ofDialect d l).generate (.expressionStatement e directive) = .ok text) :
    ∀ o ∈ declarationOpeners, ¬ o.toList <+: text.toList := by
  obtain ⟨hhalt, rfl⟩ := Generator.generate_eq_ok_iff.mp ht
  exact (h.begins_statement hhalt l .start).2.not_declarationOpener

/-- A function on the left edge: the statement begins with its parenthesis. -/
theorem generate_expressionStatement_clear_function :
    let e : Node := .binaryExpression "+"
      (.callExpression
        (.function .expression { id := none, params := [], body := some (.block .statement []) })
        [] false none)
      (.identifier "a" false none [])
    (Led .statement e ∧ (Generator.ofDialect .plain {}).generate (.expressionStatement e none) =
      .ok "(function () \x7b\x7d)() + a;") ∧
    ∀ o ∈ declarationOpeners, ¬ o.toList <+: "(function () \x7b\x7d)() + a;".toList := by
  intro e
  have h : Led .statement e := .binary (.call (.wrapped (by decide)) nofun)
  have ht : (Generator.ofDialect .plain {}).generate (.expressionStatement e none) =
      .ok "(function () \x7b\x7d)() + a;" := rfl
  exact ⟨⟨h, ht⟩, generate_expressionStatement_clear h ht⟩

/-- **A name that goes on with a letter becomes an opener**, and so does an operator that is none: a
big integer of letters with the letter after it, type arguments that are a name, and a brace before
an operand. -/
theorem generate_expressionStatement_opener :
    Starts .statement "functio" ∧
      (∀ d : Dialect, (Generator.ofDialect d {}).generate
          (.expressionStatement (.literal { bigint := some "functio" }) none) = .ok "function;" ∧
        (Generator.ofDialect d {}).generate (.expressionStatement
          (.updateExpression "\x7b" true (.identifier "x" false none [])) none) = .ok "\x7bx;") ∧
      (Generator.ofDialect .typed {}).generate
        (.expressionStatement (.callExpression (.identifier "functio" false none []) [] false
          (some (.identifier "n" false none []))) none) = .ok "function();" := by
  refine ⟨⟨by decide, by unfold Clear; decide⟩, fun d => ?_, rfl⟩
  cases d <;> exact ⟨rfl, rfl⟩

/-! ## §2. Bodies of arrow functions. -/

variable {n : Node}

/-- Expressions that can be the body of an arrow function. Functions and classes are written as they
stand here, so it matters what they begin with. -/
inductive IsArrowBody : Node → Prop where
  | led {n : Node} : Led .block n → n.kind ∉ [.arrowFunctionExpression, .classExpression] →
      IsArrowBody n
  | arrow {f : ArrowFunction} :
      (∀ x optional annot decorators, f.params = [.identifier x optional annot decorators] →
        Starts .block x) →
      (∀ t, f.typeParameters = some t → t.kind = .tsTypeParameterDeclaration) →
      IsArrowBody (.arrowFunctionExpression f)
  | class {c : ClassLike} : (∀ m ∈ c.decorators, m.kind = .decorator) →
      IsArrowBody (.classExpression c)

/-- A function begins with a word. -/
theorem begins_function (h : n.kind = .functionExpression) : (doc d n).Begins .block := by
  have hhead : ∀ f : FunctionLike, (Emit.functionHead f).Opens .block := by
    intro f
    unfold Emit.functionHead
    refine .append ?_ _
    cases f.async with
    -- `async` comes first where it is written
    | true => exact (Doc.opens_text (x := "async ") (by decide) (by decide)).append _
    | false =>
      refine Doc.Says.nil_append ?_
      refine Doc.LedBy.opens_of_apart (x := "function") (by decide) (by decide) ?_
      cases f.generator <;> exact Doc.ledBy_text (by decide)
  rw [doc_eq (p := .function d) (by rw [h]; cases d <;> rfl)]
  cases d with
  | plain =>
    -- a function expression, with a body or without one, and what is neither
    change (Emit.Plain.function _ n).Begins _
    unfold Emit.Plain.function
    split
    · exact ((((hhead _).append _).append _).append _).begins
    · exact ((((hhead _).append _).append _).append _).begins
    · exact .of_halt rfl
  | typed =>
    change (Emit.Typed.function _ n).Begins _
    unfold Emit.Typed.function
    split
    · exact ((((hhead _).append _).append _).append _).begins
    · exact ((((hhead _).append _).append _).append _).begins
    · exact .of_halt rfl

/-- A class begins with its decorators or with a word. -/
theorem begins_class {c : ClassLike} (h : ∀ m ∈ c.decorators, m.kind = .decorator) :
    (doc d (.classExpression c)).Begins .block := by
  have hget : (Grammar.ofDialect d).registry.get? .classDeclaration = some (.classLike d) := by
    cases d <;> rfl
  rw [doc_eq (p := .classExpression) (by cases d <;> rfl)]
  change ((Grammar.ofDialect d).scope.emitAs .classDeclaration _).Begins _
  rw [Grammar.scope_emitAs, hget]
  cases d with
  | plain =>
    change (Emit.Plain.classOf _ c).Begins _
    have hword : (Doc.text "class ").Opens .block := Doc.opens_text (by decide) (by decide)
    exact (((hword.append _).append _).append _).begins
  | typed =>
    change (Emit.Typed.classOf _ c).Begins _
    unfold Emit.Typed.classOf
    refine
      (Doc.Opens.append (.append (.append (.append (.append (.append ?_ _) _) _) _) _) _).begins
    -- the first of these that is there: decorators, `declare`, `abstract`, `class`
    cases hdecorators : c.decorators with
    | cons m rest =>
      have hsign := ledBy_decorator (d := .typed) (h m (by simp [hdecorators]))
      have hopens : (doc .typed m).Opens .block := hsign.opens_of_apart (by decide) (by decide)
      exact (((((hopens.append _).append _).append _).append _).append _).append _
    | nil =>
      cases c.declare with
      | true =>
        have hword : (Doc.text "declare ").Opens .block := Doc.opens_text (by decide) (by decide)
        exact (hword.nil_append.append _).append _
      | false =>
        cases c.abstract with
        | true =>
          exact (Doc.opens_text (x := "abstract ") (by decide) (by decide)).nil_append.append _
        | false => exact (Doc.opens_text (x := "class") (by decide) (by decide)).nil_append

/-- An arrow function begins with its type parameters, with a word, with its only parameter or with
a parenthesis. -/
theorem begins_arrow {f : ArrowFunction}
    (hparams : ∀ x optional annot decorators, f.params = [.identifier x optional annot decorators] →
      Starts .block x)
    (htypes : ∀ t, f.typeParameters = some t → t.kind = .tsTypeParameterDeclaration) :
    (doc d (.arrowFunctionExpression f)).Begins .block := by
  have hasync : (Doc.text "async ").Opens .block := Doc.opens_text (by decide) (by decide)
  rw [doc_eq (p := .arrowFunction d) (by cases d <;> rfl)]
  cases d with
  | plain =>
    change (Doc.onlyIf f.async _ ++ Emit.arrowParams _ f.params ++ Emit.arrowBody _ f.body).Begins _
    cases f.async with
    | true => exact ((hasync.append _).append _).begins
    | false =>
      unfold Emit.arrowParams
      split
      · rename_i x optional annot decorators hsingle
        have hname := hparams x optional annot decorators hsingle
        -- a single name has no parentheses, and the arrow after it begins with a blank
        have harrow : (Emit.arrowBody (Grammar.ofDialect .plain).scope f.body).LedBy " => " :=
          .append (Doc.ledBy_self _) _
        exact .append (.nil_append (Doc.begins_text hname)) (harrow.divides (by decide))
      · exact (Doc.Opens.append (.nil_append ((Doc.LedBy.parens _).opens (by decide))) _).begins
  | typed =>
    change ((Grammar.ofDialect .typed).scope.emit? f.typeParameters ++ Doc.onlyIf f.async _
      ++ (Grammar.ofDialect .typed).scope.sequence f.params ++ _ ++ _).Begins _
    cases hsome : f.typeParameters with
    | some t =>
      have hbracket := ledBy_typeParameters (d := .typed) (n := t) (by simp [htypes t hsome])
      exact (((((hbracket.opens (by decide)).append _).append _).append _).append _).begins
    | none =>
      cases f.async with
      | true => exact (((hasync.nil_append.append _).append _).append _).begins
      | false =>
        have hparens : ((Grammar.ofDialect .typed).scope.sequence f.params).Opens .block :=
          (Doc.LedBy.parens _).opens (by decide)
        exact ((hparens.nil_append.append _).append _).begins

/-- The document of the body after the arrow. -/
def bodyDoc (d : Dialect) (n : Node) : Doc := (doc d n).parensIf (n.kind == .objectExpression)

theorem IsArrowBody.arrowBody_eq (h : IsArrowBody n) :
    Emit.arrowBody (Grammar.ofDialect d).scope n = " => " ++ bodyDoc d n := by
  have hpattern : ∀ properties annot, ¬ IsArrowBody (.objectPattern properties annot) := by
    intro properties annot h
    cases h with
    | led h _ =>
      cases h with
      | fixed h => cases h
      | wrapped h => simp [wrappedKinds, Node.kind] at h
  cases n with
  | objectPattern => exact (hpattern _ _ h).elim
  | block form | function form | classField form | heritage form | keywordType form
  | signature form => cases form <;> rfl
  | _ => rfl

/-- **Only an assignment to an object begins with a brace** after an arrow. -/
theorem IsArrowBody.begins (h : IsArrowBody n) (hn : Emit.assignsObject n = false) :
    (bodyDoc d n).Begins .block := by
  unfold bodyDoc
  cases hobject : n.kind == .objectExpression with
  | true => exact ((Doc.LedBy.parens _).opens (by decide)).begins
  | false =>
    change (doc d n).Begins _
    cases h with
    | arrow hparams htypes => exact begins_arrow hparams htypes
    | «class» hdecorators => exact begins_class hdecorators
    | led h hk =>
      cases hexposed : isExposed n with
      | false => exact h.begins hexposed
      | true =>
        -- of the kinds that are wrapped elsewhere, only functions are left
        refine begins_function ?_
        have hwrapped : n.kind ∈ wrappedKinds := by
          simpa [isExposed, hn] using hexposed
        simp [wrappedKinds] at hwrapped hk hobject
        simpa [hk, hobject] using hwrapped

/-- An assignment to an object begins with its brace: it is not wrapped. -/
theorem IsArrowBody.ledBy_brace (h : IsArrowBody n) (hn : Emit.assignsObject n = true) :
    (bodyDoc d n).LedBy "\x7b" := by
  unfold Emit.assignsObject at hn
  split at hn
  · change (doc d _).LedBy _
    rw [doc_eq (p := .assignmentExpression) (by cases d <;> rfl)]
    refine .append (.append (.append (.append ?_ _) _) _) _
    change (doc d (.objectPattern _ _)).LedBy _
    rw [doc_eq (p := .objectPattern d) (by cases d <;> rfl)]
    cases d with
    | plain => exact .append (.append (Doc.ledBy_self _) _) _
    | typed => exact .append (.append (.append (Doc.ledBy_self _) _) _) _
  · -- an object literal is no target
    cases h with
    | led h _ =>
      cases h with
      | fixed h => cases h
      | wrapped h => simp [wrappedKinds, Node.kind] at h
      | assign h => cases h
  · cases hn

/-- What is written after the arrow, from the text of the body. -/
def inArrow (n : Node) (t : String) : String :=
  if n.kind = .objectExpression then "(" ++ t ++ ")" else t

theorem renderAll_bodyDoc (h : (bodyDoc d n).halt? = none) :
    (doc d n).halt? = none ∧
      Piece.renderAll l ((bodyDoc d n).pieces .start) =
        inArrow n (Piece.renderAll l ((doc d n).pieces .start)) := by
  unfold bodyDoc inArrow at *
  by_cases hobject : n.kind = .objectExpression
  · rw [if_pos hobject]
    simp only [hobject, beq_self_eq_true, Doc.parensIf, if_true, Doc.parens] at h ⊢
    obtain ⟨hinner, -, htext⟩ := Doc.renderAll_pieces_append h l .start
    obtain ⟨-, hdoc, hopen⟩ := Doc.renderAll_pieces_append hinner l .start
    refine ⟨hdoc, ?_⟩
    rw [htext, hopen]
    simp [Doc.pieces, Piece.render]
  · have hbeq : (n.kind == .objectExpression) = false := by simpa using hobject
    rw [hbeq] at h ⊢
    rw [if_neg hobject]
    exact ⟨h, rfl⟩

theorem exists_arrowHead (d : Dialect) (f : ArrowFunction) : ∃ head : Doc,
    doc d (.arrowFunctionExpression f) =
      head ++ Emit.arrowBody (Grammar.ofDialect d).scope f.body := by
  rw [doc_eq (p := .arrowFunction d) (by cases d <;> rfl)]
  cases d with
  | plain => exact ⟨_, rfl⟩
  | typed => exact ⟨_, rfl⟩

/-- The first character of what follows the arrow. -/
theorem IsArrowBody.says_brace_iff (h : IsArrowBody n) :
    (bodyDoc d n).Says fun cs => cs.head? = some '\x7b' ↔ Emit.assignsObject n = true := by
  cases hn : Emit.assignsObject n with
  | true =>
    refine (h.ledBy_brace hn).mono fun cs hp => ?_
    obtain ⟨v, rfl⟩ := hp
    simp
  | false =>
    refine (h.begins hn).mono fun cs hp => iff_of_false (fun hc => ?_) Bool.false_ne_true
    obtain ⟨v, rfl⟩ := List.head?_eq_some_iff.mp hc
    exact hp.2 "\x7b" (by decide) ⟨v, rfl⟩

/-- **An arrow function with an expression as body is read as one with a block exactly if the body
is an assignment to an object.** -/
theorem generate_arrow_brace_iff {f : ArrowFunction} (h : IsArrowBody f.body)
    (ht : (Generator.ofDialect d l).generate (.arrowFunctionExpression f) = .ok text) :
    ∃ head t, (Generator.ofDialect d l).generate f.body = .ok t ∧
      text = head ++ " => " ++ inArrow f.body t ∧
      ((inArrow f.body t).toList.head? = some '\x7b' ↔ Emit.assignsObject f.body = true) := by
  obtain ⟨hhalt, htext⟩ := Generator.generate_eq_ok_iff.mp ht
  obtain ⟨head, hdoc⟩ := exists_arrowHead d f
  rw [h.arrowBody_eq] at hdoc
  change (doc d (.arrowFunctionExpression f)).halt? = none at hhalt
  change Piece.renderAll l ((doc d (.arrowFunctionExpression f)).pieces .start) = text at htext
  rw [hdoc] at hhalt htext
  -- the head comes back to the level of the arrow function, where the body is written
  have hsteady : (Doc.text " => " ++ bodyDoc d f.body).Steady :=
    .append (.text _) ((d.steady_doc f.body).parensIf _)
  have hhead : head.after .start = .start :=
    Doc.Steady.after_of_append (hdoc ▸ d.steady_doc _) hsteady hhalt .start
  obtain ⟨-, htail, hsplit⟩ := Doc.renderAll_pieces_append hhalt l .start
  obtain ⟨-, hbody, harrow⟩ := Doc.renderAll_pieces_append htail l .start
  obtain ⟨hn, hin⟩ := renderAll_bodyDoc (l := l) hbody
  have hfirst := h.says_brace_iff hbody l .start
  rw [hin] at hfirst
  rw [hhead] at hsplit
  rw [Doc.after_text] at harrow
  refine ⟨Piece.renderAll l (head.pieces .start), Piece.renderAll l ((doc d f.body).pieces .start),
    Generator.generate_eq_ok_iff.mpr ⟨hn, rfl⟩, ?_, hfirst⟩
  rw [← htext, hsplit, harrow, hin, String.append_assoc]
  simp [Doc.pieces, Piece.render]

/-- An object on the left edge of the body: what follows the arrow begins with its parenthesis. -/
theorem generate_arrow_member :
    let body : Node := .binaryExpression "+"
      (.memberExpression (.objectExpression [] none) (.identifier "a" false none []) false false)
      (.identifier "b" false none [])
    (IsArrowBody body ∧
      (Generator.ofDialect .plain {}).generate
        (.arrowFunctionExpression { params := [], body := body }) = .ok "() => (\x7b\x7d).a + b") ∧
    ∃ head t, (Generator.ofDialect .plain {}).generate body = .ok t ∧
      "() => (\x7b\x7d).a + b" = head ++ " => " ++ inArrow body t ∧
      ((inArrow body t).toList.head? = some '\x7b' ↔ Emit.assignsObject body = true) := by
  intro body
  have h : IsArrowBody body := .led (.binary (.member (.wrapped (by decide)))) (by decide)
  have ht : (Generator.ofDialect .plain {}).generate
      (.arrowFunctionExpression { params := [], body := body }) = .ok "() => (\x7b\x7d).a + b" :=
    rfl
  exact ⟨⟨h, ht⟩, generate_arrow_brace_iff (f := { params := [], body := body }) h ht⟩

/-- An arrow function whose body assigns to an object pattern. -/
def patternArrow : ArrowFunction where
  params := []
  body := .assignmentExpression "="
    (.objectPattern [.property
      { key := .identifier "a" false none [], value := .identifier "a" false none [],
        shorthand := true }] none)
    (.identifier "b" false none [])

/-- **A body that assigns to an object is read as a block**: what follows the arrow begins with a
brace, where an expression statement has a parenthesis before it. -/
theorem generate_patternArrow :
    IsArrowBody patternArrow.body ∧ ∀ d : Dialect,
      (Generator.ofDialect d {}).generate (.arrowFunctionExpression patternArrow) =
        .ok "() => \x7ba\x7d = b" ∧
      (Generator.ofDialect d {}).generate (.expressionStatement patternArrow.body none) =
        .ok "(\x7ba\x7d = b);" := by
  refine ⟨.led .assignObject (by decide), fun d => ?_⟩
  cases d <;> exact ⟨rfl, rfl⟩

end Estree.Opening
