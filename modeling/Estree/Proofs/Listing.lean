import Estree.Proofs.Outline.Expression

/-!
# Lists

Nodes in parentheses and elements in brackets are written with a comma and a blank between them.
Whoever cuts the text between the brackets at the commas that are outside of further brackets gets
back one part for each node, in order, and each part is the text of its node by itself, if the names
and strings that are written outside of brackets have neither commas nor blanks. For terms have no
other commas there (`Term.isClear`), and they do not begin with a blank (`avoids_blank_of_term`).

A hole of an array is written by its comma alone. So a text that ends after a comma has no further
element there, and an empty part is a hole: read in this way the list comes back with its holes,
also at its end (`elision_written`).

Main results:

* `parts_written`: a list is cut into its elements.
* `elision_written`: it is read back with its holes.
* `avoids_blank_of_term`: terms begin with no blank.
* `render_lists_read_back`: lists keep their length, order and holes.
-/

namespace Estree.Listing

open Nesting Outline
open Dialect (doc doc_eq)
open Opening (Avoids)

/-! ## §1. Reading lists. -/

/-- A part of a list without the blank before it. -/
def unspaced : List Char → List Char
  | ' ' :: cs => cs
  | cs => cs

/-- The parts of a list between its commas. -/
def parts (cs : List Char) : List (List Char) := (cutAt ',' 0 cs).map unspaced

/-- The elements and holes of a list: nothing is after its last comma, and elsewhere a part without
a text is a hole. -/
def elision (cs : List Char) : List (Option (List Char)) :=
  (if (parts cs).getLast? = some [] then (parts cs).dropLast else parts cs).map fun w =>
    if w = [] then none else some w

/-- The text of a list of elements and holes. -/
def written : List (Option (List Char)) → List Char
  | [] => []
  | none :: rest => ',' :: ' ' :: written rest
  | [some t] => t
  | some t :: rest => t ++ ',' :: ' ' :: written rest

/-- What comes after the last comma of a list that ends with a hole, or that has no elements. -/
def trailing (es : List (Option (List Char))) : List (List Char) :=
  if es.getLast?.join = none then [[]] else []

/-- A text that can be an element: its commas are in brackets, and it does not begin with a blank.
-/
def Element (t : List Char) : Prop := Sought.Clear ⟨',', none, by decide⟩ t ∧ Avoids ' ' t

variable {t : List Char} {es : List (Option (List Char))}

@[simp] theorem unspaced_blank (cs : List Char) : unspaced (' ' :: cs) = cs := rfl

/-- Without a blank in front there is nothing to drop. -/
theorem unspaced_of_head?_ne {cs : List Char} (h : cs.head? ≠ some ' ') : unspaced cs = cs := by
  unfold unspaced
  split
  · exact absurd rfl h
  · rfl

/-- An element is not empty. -/
theorem Element.ne_nil (h : Element t) : t ≠ [] := by
  rintro rfl
  cases h.2

/-- There is no cut inside of an element. -/
theorem Element.cutAt_append (h : Element t) (cs : List Char) :
    cutAt ',' 0 (t ++ ',' :: cs) = t :: cutAt ',' 0 cs :=
  cutAt_append_mark h.1.1 h.1.2.1 cs

/-- The blank after a comma belongs to no part. -/
theorem parts_blank {cs : List Char} (h : cs.head? ≠ some ' ') : parts (' ' :: cs) = parts cs := by
  unfold parts
  have hblank : cutAt ',' 0 (' ' :: cs) = (cutAt ',' 0 cs).modifyHead (' ' :: ·) := rfl
  rw [hblank]
  cases cs with
  | nil => rfl
  | cons c cs =>
    have hc : c ≠ ' ' := by simpa using h
    rw [cutAt]
    split
    · rfl
    · cases hcut : cutAt ',' (depthAfter 0 c) cs with
      | nil => rfl
      | cons w ws =>
        have hw : unspaced (c :: w) = c :: w := unspaced_of_head?_ne (by simpa using hc)
        simp [hw]

/-- A hole at the front does not decide whether a comma trails. -/
theorem trailing_none (rest : List (Option (List Char))) :
    trailing (none :: rest) = trailing rest := by
  cases rest with
  | nil => rfl
  | cons e rest => simp [trailing]

/-- Only the last element does. -/
theorem trailing_cons_cons (e e' : Option (List Char)) (rest : List (Option (List Char))) :
    trailing (e :: e' :: rest) = trailing (e' :: rest) := by
  simp [trailing]

/-- A written list starts with no blank. -/
theorem head?_written (h : ∀ t, some t ∈ es → Element t) : (written es).head? ≠ some ' ' := by
  unfold written
  split
  · simp
  · simp
  next t => exact (h t List.mem_cons_self).2.head?_ne
  next t rest _ => exact ((h t List.mem_cons_self).2.append _).head?_ne

/-- **A list is cut into its elements**, with nothing in the place of a hole. -/
theorem parts_written (h : ∀ t, some t ∈ es → Element t) :
    parts (written es) = es.map (·.getD []) ++ trailing es := by
  induction es with
  | nil => rfl
  | cons e rest ih =>
    have hrest : ∀ t, some t ∈ rest → Element t := fun t ht => h t (List.mem_cons_of_mem _ ht)
    have hparts : parts (' ' :: written rest) = rest.map (·.getD []) ++ trailing rest := by
      rw [parts_blank (head?_written hrest), ih hrest]
    cases e with
    | none =>
      -- a hole is written as its comma only, so nothing is cut off
      have hcut : parts (',' :: ' ' :: written rest) = [] :: parts (' ' :: written rest) := rfl
      rw [written, hcut, hparts, trailing_none]
      rfl
    | some t =>
      have ht : Element t := h t List.mem_cons_self
      have hsame : unspaced t = t := unspaced_of_head?_ne ht.2.head?_ne
      cases rest with
      | nil =>
        have hcut : cutAt ',' 0 t = [t] := cutAt_of_not_mem ht.1.1 ht.1.2.1
        simp [written, parts, hcut, hsame, trailing]
      | cons e rest =>
        have hcut : parts (t ++ ',' :: ' ' :: written (e :: rest)) =
            t :: parts (' ' :: written (e :: rest)) := by
          rw [parts, ht.cutAt_append, List.map_cons, hsame]
          rfl
        rw [written, hcut, hparts, trailing_cons_cons]
        · rfl
        · exact List.cons_ne_nil _ _

/-- **A list is read back with its holes.** -/
theorem elision_written (h : ∀ t, some t ∈ es → Element t) : elision (written es) = es := by
  have hread : (es.map (·.getD [])).map (fun w => if w = [] then none else some w) = es := by
    rw [List.map_map]
    refine (List.map_congr_left fun e he => ?_).trans (List.map_id es)
    cases e with
    | none => rfl
    | some t => simp [(h t he).ne_nil]
  unfold elision
  rw [parts_written h, trailing]
  cases hlast : es.getLast?.join with
  | none => simpa using hread
  | some t =>
    -- the last element is no hole, so the list does not end with a comma
    have hmem : es.getLast? = some (some t) := Option.join_eq_some_iff.mp hlast
    have ht : t ≠ [] := (h t (List.mem_of_getLast? hmem)).ne_nil
    simpa [hmem, ht] using hread

/-! ## §2. Terms in lists. -/

/-- Names and strings without commas and blanks. Names must not be empty, or a name would be a hole.
-/
def vocabulary : Vocabulary where
  name x := x ≠ "" ∧ ',' ∉ x.toList ∧ ' ' ∉ x.toList
  field x := ',' ∉ x.toList ∧ ' ' ∉ x.toList
  value s := ',' ∉ s.toList
  loose := True

/-- A text that is quoted has no commas but its own. -/
theorem not_mem_quoted {s : String} (h : ',' ∉ s.toList) : ',' ∉ (Json.quoted s).toList := by
  rw [Json.quoted, String.toList_ofList]
  simp only [List.mem_cons, List.mem_append, List.mem_flatMap, List.not_mem_nil, or_false]
  rintro (hq | ⟨c, hc, hm⟩ | hq)
  · exact absurd hq (by decide)
  · rcases mem_escapedChar hm with rfl | hm
    · exact h hc
    · exact absurd hm (by decide)
  · exact absurd hq (by decide)

/-- No name and no operator has a comma. -/
theorem lacks_vocabulary : vocabulary.Lacks ⟨',', none, by decide⟩ where
  name _ hx := ⟨hx.2.1, by simp⟩
  field _ hx := ⟨hx.1, by simp⟩
  value _ hs := ⟨not_mem_quoted hs, by simp⟩
  loose _ := rfl

variable {n : Node}

/-- A text without blanks starts with none. -/
theorem avoids_blank_of_not_mem {x : String} (hne : x ≠ "") (h : ' ' ∉ x.toList) :
    Avoids ' ' x.toList := by
  cases hx : x.toList with
  | nil => exact absurd (String.toList_inj.mp (hx.trans String.toList_empty.symm)) hne
  | cons c cs =>
    refine bne_iff_ne.mpr ?_
    rintro rfl
    exact h (by simp [hx])

/-- A name starts with no blank. -/
theorem avoids_blank_name {x : String} (hx : vocabulary.name x) : Avoids ' ' x.toList :=
  avoids_blank_of_not_mem hx.1 hx.2.2

/-- A printed value starts with no blank. -/
theorem avoids_blank_compact (j : Json) : Avoids ' ' j.compact.toList := by
  cases j with
  | number x =>
    have hstarts : Opening.Starts .block x.text := Opening.starts_number x
    refine avoids_blank_of_not_mem (x := x.text) ?_ fun hm => ?_
    · intro hx
      exact hstarts.1 (by rw [hx]; rfl)
    · exact absurd (isNumeral_of_mem_text x _ hm) (by decide)
  | null | bool | string | array | object =>
    exact Opening.avoids_compact (by decide) (by simp)

/-- A literal starts with no blank. -/
theorem avoids_blank_literalText {l : Literal} (h : LiteralTerm vocabulary l) :
    (Emit.literalText n l).Avoids ' ' := by
  unfold LiteralTerm at h
  unfold Emit.literalText
  cases hraw : l.raw with
  | some raw =>
    rw [hraw] at h
    exact Doc.avoids_text (avoids_blank_name h)
  | none =>
    cases hregex : l.regex with
    | some r => exact (Opening.ledBy_regExp n l).avoids (by decide)
    | none =>
      cases hbigint : l.bigint with
      | some digits =>
        have hname : vocabulary.name (digits ++ "n") := by rwa [hraw, hregex, hbigint] at h
        refine Doc.Says.append (P := (· = digits.toList)) (Q := (· = "n".toList))
          (Doc.says_text rfl) (Doc.says_text rfl) ?_
        rintro _ _ rfl rfl
        rw [← String.toList_append]
        exact avoids_blank_name hname
      | none => exact Doc.avoids_text (avoids_blank_compact l.value)

/-- What is in parentheses starts with no blank. -/
theorem avoids_blank_parensIf {d : Doc} (h : d.Avoids ' ') (cond : Bool) :
    (d.parensIf cond).Avoids ' ' := by
  cases cond with
  | true => exact (Doc.LedBy.parens d).avoids (by decide)
  | false => exact h

/-- What is put in brackets or begins with the word of an import. -/
theorem avoids_blank_of_isBracketed (h : isBracketed n = true) : (doc .plain n).Avoids ' ' := by
  have hbrace : ∀ d : Doc, d.braces.LedBy "\x7b" :=
    fun d => .append (.append (Doc.ledBy_self _) _) _
  have hbracket : ∀ d : Doc, d.brackets.LedBy "[" := fun d =>
    .append (.append (Doc.ledBy_self _) _) _
  unfold isBracketed at h
  split at h
  · exact (Opening.ledBy_of_lead? rfl).avoids (x := "[") (by decide)
  · rw [doc_eq (p := .arrayExpression) rfl]
    exact (hbracket _).avoids (by decide)
  · rw [doc_eq (p := .objectExpression) rfl]
    exact (hbrace _).avoids (by decide)
  · rw [doc_eq (p := .objectPattern .plain) rfl]
    exact (hbrace _).avoids (by decide)
  · exact (Opening.ledBy_of_lead? rfl).avoids (x := "(") (by decide)
  · exact (Opening.ledBy_of_lead? rfl).avoids (x := "import(") (by decide)
  · rw [doc_eq (p := .block) rfl]
    exact (hbrace _).avoids (by decide)
  · cases h

/-- Something without blanks may stand before; if it is empty, what follows it begins. -/
theorem avoids_blank_after {a d : Doc} (ha : a.Says (' ' ∉ ·)) (h : d.Avoids ' ') :
    (a ++ d).Avoids ' ' := by
  refine Doc.Says.append ha h fun cs ds hcs hds => ?_
  cases cs with
  | nil => exact hds
  | cons c cs =>
    refine bne_iff_ne.mpr ?_
    rintro rfl
    exact hcs List.mem_cons_self

/-- An operator before its operand; an empty one has no blank after it. -/
theorem avoids_blank_prefixed {parent : Node} {op : String} (hop : ' ' ∉ op.toList)
    (h : (doc .plain n).Avoids ' ') : (Emit.prefixed scope parent op n).Avoids ' ' := by
  have hoperand : ∀ (d : Doc) (long : Bool), d.Avoids ' ' → (op = "" → long = false) →
      (Doc.text op ++ Doc.onlyIf long " " ++ d).Avoids ' ' := by
    intro d long hd hlong
    cases long with
    | true =>
      have hne : op ≠ "" := fun he => absurd (hlong he) (by decide)
      exact ((Doc.avoids_text (avoids_blank_of_not_mem hne hop)).append _).append _
    | false =>
      refine avoids_blank_after ?_ hd
      refine Doc.Says.append (P := (' ' ∉ ·)) (Q := (· = [])) (Doc.says_text hop)
        (fun _ _ _ => rfl) ?_
      rintro cs _ hcs rfl
      rwa [List.append_nil]
  -- only an operator of more than one byte has a blank after it
  have hlong : op = "" → Emit.isLong op = false := by
    rintro rfl
    decide
  unfold Emit.prefixed
  split
  · exact hoperand _ _ ((Doc.LedBy.parens _).avoids (by decide)) hlong
  · refine hoperand _ _ h fun he => ?_
    rw [hlong he, he]
    simp [Emit.repeatsSign]

/-- A meta property starts with no blank. -/
theorem avoids_blank_metaProperty {object name : Node}
    (h : ∀ x, object.identifierName? = some x → vocabulary.name x) :
    (doc .plain (.metaProperty object name)).Avoids ' ' := by
  rw [doc_eq (p := .metaProperty) rfl]
  change (Doc.ofExcept object.identifierName _).Avoids ' '
  unfold Node.identifierName
  cases hname : object.identifierName? with
  | none => exact .of_halt rfl
  | some x => exact ((Doc.avoids_text (avoids_blank_name (h x hname))).append _).append _

/-- An operator after its left operand. -/
theorem avoids_blank_infixed {parent right : Node} {op : String} (h : (doc .plain n).Avoids ' ') :
    (Emit.infixed scope parent op n right).Avoids ' ' := by
  have hleft : (scope.operandOf n parent false).Avoids ' ' := avoids_blank_parensIf h _
  exact avoids_blank_parensIf ((((hleft.append _).append _).append _).append _) _

/-- The word `async`, or else what follows it. -/
theorem avoids_blank_async {d : Doc} (h : d.Avoids ' ') (async : Bool) :
    (Doc.onlyIf async "async " ++ d).Avoids ' ' := by
  cases async with
  | true => exact ((Doc.ledBy_self "async ").append _).avoids (by decide)
  | false => exact Doc.Says.nil_append h

/-- The head of a function starts with no blank. -/
theorem avoids_blank_functionHead (f : FunctionLike) : (Emit.functionHead f).Avoids ' ' := by
  refine Doc.Avoids.append (avoids_blank_async ?_ _) _
  split
  all_goals exact Doc.avoids_text (by decide)

/-- An arrow starts with no blank. -/
theorem avoids_blank_arrow {f : ArrowFunction}
    (h : ∀ x optional annot decorators,
      f.params = [.identifier x optional annot decorators] → vocabulary.name x) :
    (doc .plain (.arrowFunctionExpression f)).Avoids ' ' := by
  rw [doc_eq (p := .arrowFunction .plain) rfl]
  have hparams : (Emit.arrowParams scope f.params).Avoids ' ' := by
    unfold Emit.arrowParams
    split
    next x optional annot decorators hone =>
      exact Doc.avoids_text (avoids_blank_name (h x optional annot decorators hone))
    next => exact (Doc.LedBy.parens _).avoids (by decide)
  exact (avoids_blank_async hparams _).append _

/-- **Terms begin with no blank**, and they are not empty. The induction goes down the left edge. -/
theorem avoids_blank_of_term (h : Term vocabulary n) : (doc .plain n).Avoids ' ' := by
  induction h with
  | unwritten h => exact Opening.says_of_unbound h
  | bracketed h => exact avoids_blank_of_isBracketed h
  | this | super | privateName | regExp | template | yield | await | new =>
    exact (Opening.ledBy_of_lead? rfl).avoids (by decide)
  -- a name, a literal or an operator in front decides
  | name hx =>
    rw [doc_eq (p := .identifier .plain) rfl]
    exact Doc.avoids_text (avoids_blank_name hx)
  | metaProperty ho _ => exact avoids_blank_metaProperty ho
  | literal h =>
    rw [doc_eq (p := .literal) rfl]
    exact avoids_blank_literalText h
  | tagged _ _ ih | sideBySide _ _ _ ih =>
    rw [doc_eq (p := .taggedTemplate) rfl]
    exact (avoids_blank_parensIf ih _).append _
  | rest | spread =>
    rw [doc_eq (p := .restElement .plain) rfl]
    exact (Doc.LedBy.append (Doc.ledBy_self "...") _).avoids (by decide)
  | @unary op before argument hop _ ih =>
    rw [doc_eq (p := .unaryExpression) rfl]
    cases before with
    | true => exact avoids_blank_prefixed hop.1.2 ih
    | false => exact ih.append _
  | @update op before argument hop _ ih =>
    rw [doc_eq (p := .updateExpression) rfl]
    cases before with
    | true => exact avoids_blank_after (Doc.says_text hop.1.2) ih
    | false => exact ih.append _
  -- what has an operand in front begins with it, or with a parenthesis
  | assign _ _ _ ih _ =>
    rw [doc_eq (p := .assignmentExpression) rfl]
    exact (((ih.append _).append _).append _).append _
  | default _ _ ih _ =>
    rw [doc_eq (p := .assignmentPattern) rfl]
    exact (ih.append _).append _
  | binary _ _ _ ih | logical _ _ _ ih =>
    rw [doc_eq (p := .binaryExpression) rfl]
    exact avoids_blank_infixed ih
  | isIn | logicalIn =>
    rw [doc_eq (p := .binaryExpression) rfl]
    exact (Doc.LedBy.parens _).avoids (by decide)
  | conditional _ _ _ ih _ _ =>
    rw [doc_eq (p := .conditionalExpression) rfl]
    exact ((((avoids_blank_parensIf ih _).append _).append _).append _).append _
  | call _ ih =>
    rw [doc_eq (p := .callExpression .plain) rfl]
    exact ((avoids_blank_parensIf ih _).append _).append _
  | chain _ ih =>
    rw [doc_eq (p := .chainExpression) rfl]
    exact ih
  | index _ ih | member _ _ ih =>
    rw [doc_eq (p := .memberExpression) rfl]
    exact (avoids_blank_parensIf ih _).append _
  -- what begins with a word of its own
  | @function f _ _ _ =>
    rw [doc_eq (p := .function .plain) rfl]
    exact (((avoids_blank_functionHead f).append _).append _).append _
  | arrow hparams _ _ => exact avoids_blank_arrow hparams
  | @classLike c _ _ _ =>
    rw [doc_classExpression]
    have hclass : (Doc.text "class ").LedBy "class " := Doc.ledBy_self _
    exact (((hclass.append _).append _).append _).avoids (by decide)

/-! ## §3. Documents of lists. -/

/-- Nodes that can be told apart in a list. -/
structure Listed (n : Node) : Prop where
  term : Term vocabulary n
  bracketFree : n.BracketFree

variable {l : Layout} {text : String}

/-- The text of a listed tree is an element. -/
theorem Listed.element (h : Listed n) (hl : l.BracketFree) (hn : (doc .plain n).halt? = none) :
    Element ((doc .plain n).chars l) :=
  ⟨(h.term.isClear lacks_vocabulary hl h.bracketFree).chars hn,
    avoids_blank_of_term h.term hn l .start⟩

/-- Nodes with commas between them are elements without holes. -/
theorem elementList_map_some (ns : List Node) :
    Emit.elementList scope (ns.map some) = scope.joined ", " ns := by
  induction ns with
  | nil => rfl
  | cons n rest ih =>
    cases rest with
    | nil => rfl
    | cons m rest =>
      change scope.emit n ++ ", " ++ Emit.elementList scope ((m :: rest).map some) = _
      rw [ih]
      rfl

/-- A list ends at the level at which it starts. -/
theorem steady_elementList (es : List (Option Node)) : (Emit.elementList scope es).Steady := by
  induction es with
  | nil => exact .nil
  | cons e rest ih =>
    cases e with
    | none => exact .append (.text _) ih
    | some n =>
      cases rest with
      | nil => exact Dialect.steady_doc .plain n
      | cons e rest => exact .append (.append (Dialect.steady_doc .plain n) (.text _)) ih

/-- The text of a list is made of the texts of its elements. -/
theorem chars_elementList {es : List (Option Node)}
    (h : (Emit.elementList scope es).halt? = none) :
    (∀ n, some n ∈ es → (doc .plain n).halt? = none) ∧
      (Emit.elementList scope es).chars l = written
        (es.map (·.map fun n => (doc .plain n).chars l)) := by
  induction es with
  | nil => exact ⟨by simp, rfl⟩
  | cons e rest ih =>
    cases e with
    | none =>
      obtain ⟨-, hrest, htext⟩ := Doc.chars_append (.text _) h l
      obtain ⟨hall, heq⟩ := ih hrest
      refine ⟨by simpa using hall, ?_⟩
      rw [Emit.elementList, htext, heq, Doc.chars_text]
      rfl
    | some n =>
      cases rest with
      | nil =>
        -- the last element has no comma after it
        refine ⟨fun m hm => ?_, rfl⟩
        obtain rfl : m = n := by simpa using hm
        exact h
      | cons e rest =>
        have hsteady := Dialect.steady_doc .plain n
        obtain ⟨hhead, hrest, htext⟩ := Doc.chars_append (hsteady.append (.text _)) h l
        obtain ⟨hn, hsep⟩ := Doc.chars_append_text hhead l
        obtain ⟨hall, heq⟩ := ih hrest
        refine ⟨fun m hm => ?_, ?_⟩
        · rcases List.mem_cons.mp hm with hm | hm
          · obtain rfl := Option.some.inj hm
            exact hn
          · exact hall m hm
        · rw [Emit.elementList, htext, heq, hsep, List.append_assoc]
          · rfl
          · exact List.cons_ne_nil _ _

/-- What stands between two brackets. -/
theorem render_pair {o e : String} {d : Doc} (hsteady : d.Steady)
    (h : (Doc.text o ++ d ++ Doc.text e).render l = .ok text) :
    d.halt? = none ∧ text = o ++ .ofList (d.chars l) ++ e := by
  have hopened : (Doc.text o ++ d).Steady := .append (.text _) hsteady
  rw [Doc.Steady.render_eq (hopened.append (.text _))] at h
  cases hhalt : (Doc.text o ++ d ++ Doc.text e).halt? with
  | some halt =>
    rw [hhalt] at h
    cases h
  | none =>
    rw [hhalt] at h
    obtain ⟨hinner, htext⟩ := Doc.chars_append_text hhalt l
    obtain ⟨-, hd, hopen⟩ := Doc.chars_append (.text _) hinner l
    refine ⟨hd, (Except.ok.inj h).symm.trans (String.toList_inj.mp (htext.trans ?_))⟩
    rw [hopen, Doc.chars_text]
    simp

/-- The text of each tree in a list is an element. -/
theorem element_of_listed {es : List (Option Node)} (hl : l.BracketFree)
    (hes : ∀ n, some n ∈ es → Listed n) (hhalt : ∀ n, some n ∈ es → (doc .plain n).halt? = none) :
    ∀ t, some t ∈ es.map (·.map fun n => (doc .plain n).chars l) → Element t := by
  intro t ht
  obtain ⟨e, he, heq⟩ := List.mem_map.mp ht
  obtain ⟨n, rfl, rfl⟩ := Option.map_eq_some_iff.mp heq
  exact (hes n he).element hl (hhalt n he)

/-- The last of some nodes is no hole. -/
theorem trailing_map_some {ts : List (List Char)} (h : ts ≠ []) : trailing (ts.map some) = [] := by
  obtain ⟨t, ht⟩ := List.getLast?_isSome.mpr h |> Option.isSome_iff_exists.mp
  simp [trailing, ht]

/-! ## §4. Lists are read back. -/

/-- A document that does not stop is the text that is generated. -/
theorem generate_of_halt (h : (doc .plain n).halt? = none) :
    (Generator.ofDialect .plain l).generate n = .ok (.ofList ((doc .plain n).chars l)) :=
  Generator.generate_ofDialect_eq_ok_iff.mpr ⟨h, rfl⟩

/-- The parts of a list without holes are the texts of its nodes. -/
theorem map_generate_eq_parts {ns : List Node} (hl : l.BracketFree) (hne : ns ≠ [])
    (hns : ∀ n ∈ ns, Listed n) (hhalt : (scope.joined ", " ns).halt? = none) :
    ns.map (Generator.ofDialect .plain l).generate =
      (parts ((scope.joined ", " ns).chars l)).map fun w => .ok (.ofList w) := by
  rw [← elementList_map_some] at hhalt ⊢
  obtain ⟨hall, hwritten⟩ := chars_elementList (l := l) hhalt
  have hparts := parts_written (element_of_listed hl (by simpa using hns) hall)
  have hmap : (ns.map some).map (·.map fun n => (doc .plain n).chars l) =
      (ns.map fun n => (doc .plain n).chars l).map some := by simp
  rw [hmap, trailing_map_some (by simpa using hne)] at hparts
  rw [hwritten, hmap, hparts]
  simp only [List.append_nil, List.map_map]
  exact List.map_congr_left fun n hn => generate_of_halt (hall n (by simpa using hn))

/-- Elements and holes are read back. -/
theorem map_generate_eq_elision {es : List (Option Node)} (hl : l.BracketFree)
    (hes : ∀ n, some n ∈ es → Listed n) (hhalt : (Emit.elementList scope es).halt? = none) :
    es.map (·.map (Generator.ofDialect .plain l).generate) =
      (elision ((Emit.elementList scope es).chars l)).map (·.map fun w => .ok (.ofList w)) := by
  obtain ⟨hall, hwritten⟩ := chars_elementList (l := l) hhalt
  rw [hwritten, elision_written (element_of_listed hl hes hall), List.map_map]
  refine List.map_congr_left fun e he => ?_
  cases e with
  | none => rfl
  | some n => exact congrArg some (generate_of_halt (hall n he))

/-- **Lists keep their length, order and holes.** Cut at its commas, what stands between the
parentheses gives the texts of the nodes by themselves, and what stands between the brackets of an
array gives those of its elements and the holes. -/
theorem render_lists_read_back (hl : l.BracketFree) :
    (∀ (ns : List Node) (text : String), ns ≠ [] → (∀ n ∈ ns, Listed n) →
      (scope.sequence ns).render l = .ok text →
      ∃ inner, text = "(" ++ inner ++ ")" ∧ WellNested inner ∧
        ns.map (Generator.ofDialect .plain l).generate =
          (parts inner.toList).map fun w => .ok (.ofList w)) ∧
    ∀ (es : List (Option Node)) (text : String), (∀ n, some n ∈ es → Listed n) →
      (Emit.elements scope es).render l = .ok text →
      ∃ inner, text = "[" ++ inner ++ "]" ∧ WellNested inner ∧
        es.map (·.map (Generator.ofDialect .plain l).generate) =
          (elision inner.toList).map (·.map fun w => .ok (.ofList w)) := by
  have hnested : ∀ {d : Doc}, d.Balanced → d.halt? = none → WellNested (.ofList (d.chars l)) := by
    intro d hd hhalt
    rw [WellNested, String.toList_ofList]
    exact (hd.writes hl).chars hhalt
  constructor
  · intro ns text hne hns htext
    -- nodes in parentheses are a list without holes
    have hsteady := elementList_map_some ns ▸ steady_elementList (ns.map some)
    obtain ⟨hhalt, rfl⟩ := render_pair hsteady htext
    have hbalanced : (scope.joined ", " ns).Balanced :=
      balanced_list (fun due => Doc.dueAfter_text due (by decide)) fun n hn =>
        (hns n hn).bracketFree
    refine ⟨_, rfl, hnested hbalanced hhalt, ?_⟩
    rw [String.toList_ofList]
    exact map_generate_eq_parts hl hne hns hhalt
  · intro es text hes htext
    obtain ⟨hhalt, rfl⟩ := render_pair (steady_elementList es) htext
    have hbalanced : (Emit.elementList scope es).Balanced :=
      balanced_elementList fun n hn => (hes n hn).bracketFree
    refine ⟨_, rfl, hnested hbalanced hhalt, ?_⟩
    rw [String.toList_ofList]
    exact map_generate_eq_elision hl hes hhalt

/-- Commas inside of the parts, and holes at both ends: `((a, a), async a => a)` and
`[, [a, , ], , ]`. -/
theorem render_nested_lists_read_back :
    let a : Node := .identifier "a" false none []
    let pair : Node := .sequenceExpression [a, a]
    let arrow : Node := .arrowFunctionExpression { params := [a], body := a, async := true }
    let array : Node := .arrayExpression [some a, none] none
    (({} : Layout).BracketFree ∧ (∀ n ∈ [pair, arrow], Listed n) ∧
      (∀ n, some n ∈ [none, some array, none] → Listed n) ∧
      (scope.sequence [pair, arrow]).render {} = .ok "((a, a), async a => a)" ∧
      (Emit.elements scope [none, some array, none]).render {} = .ok "[, [a, , ], , ]") ∧
    (∃ inner, "((a, a), async a => a)" = "(" ++ inner ++ ")" ∧ WellNested inner ∧
      [pair, arrow].map (Generator.ofDialect .plain {}).generate =
        (parts inner.toList).map fun w => .ok (.ofList w)) ∧
    ∃ inner, "[, [a, , ], , ]" = "[" ++ inner ++ "]" ∧ WellNested inner ∧
      [none, some array, none].map (·.map (Generator.ofDialect .plain {}).generate) =
        (elision inner.toList).map (·.map fun w => .ok (.ofList w)) := by
  intro a pair arrow array
  have ha : a.BracketFree :=
    Node.bracketFree_iff.mpr ⟨List.forall_mem_singleton.mpr (by decide), List.forall_mem_nil _⟩
  have hpair : Listed pair :=
    ⟨.bracketed rfl, Node.bracketFree_iff.mpr
      ⟨List.forall_mem_nil _, List.forall_mem_cons.mpr ⟨ha, List.forall_mem_singleton.mpr ha⟩⟩⟩
  have hname : vocabulary.name "a" := ⟨by decide, by decide, by decide⟩
  have harrow : Listed arrow := by
    refine ⟨.arrow (fun x _ _ _ h => ?_) (.name hname), Node.bracketFree_iff.mpr
      ⟨List.forall_mem_nil _, List.forall_mem_cons.mpr ⟨ha, List.forall_mem_singleton.mpr ha⟩⟩⟩
    obtain ⟨rfl, -⟩ : "a" = x ∧ _ := by simpa [a] using h
    exact hname
  have harray : Listed array :=
    ⟨.bracketed rfl, Node.bracketFree_iff.mpr
      ⟨List.forall_mem_nil _, List.forall_mem_singleton.mpr ha⟩⟩
  have hl : ({} : Layout).BracketFree := by decide
  have hns : ∀ n ∈ [pair, arrow], Listed n :=
    List.forall_mem_cons.mpr ⟨hpair, List.forall_mem_singleton.mpr harrow⟩
  have hes : ∀ n, some n ∈ [none, some array, none] → Listed n := by
    intro n hn
    obtain rfl : n = array := by simpa using hn
    exact harray
  have hsequence : (scope.sequence [pair, arrow]).render {} = .ok "((a, a), async a => a)" := rfl
  have helements : (Emit.elements scope [none, some array, none]).render {} =
      .ok "[, [a, , ], , ]" := rfl
  have hread := render_lists_read_back hl
  exact ⟨⟨hl, hns, hes, hsequence, helements⟩,
    hread.1 _ _ (List.cons_ne_nil _ _) hns hsequence, hread.2 _ _ hes helements⟩

end Estree.Listing
