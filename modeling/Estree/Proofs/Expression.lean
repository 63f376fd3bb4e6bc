import Estree.Proofs.Expression.Printing
import Estree.Proofs.Expression.Unambiguous

/-!
# Expressions are read back

The text of an expression of names, operators, members and calls is read as the expression that it
was written from, and as no other, in both dialects and in every layout
(`Expression.generate_readsAs`). Writing decides on parentheses by two scales of ranks and on spaces
by the tokens that would run into each other; reading knows neither. It cuts the text by longest
match (`Lexes`) and follows the grammar of ECMAScript (`Derives .plain`).

Main results:

  * `Written.readsAs`: what is written as a tree of the grammar has one text, which is read as this
    tree and as no other;
  * `Fragment.written`: every tree without assertions is written so, in both dialects;
  * `generate_readsAs`: the two together.
-/

namespace Estree.Expression

/-! ## §1. Texts. -/

/-- The grammar of a dialect reads the text as the tree. -/
def ReadsAs (g : Dialect) (text : String) (n : Node) : Prop :=
  ∃ ts, Lexes text.toList ts ∧ Derives g .expression ts n

/-- A text is read as one tree at most. -/
theorem ReadsAs.unique {g : Dialect} {text : String} {m n : Node} (hm : ReadsAs g text m)
    (hn : ReadsAs g text n) : m = n := by
  obtain ⟨ts, hts, hm⟩ := hm
  obtain ⟨us, hus, hn⟩ := hn
  obtain rfl := hts.unique hus
  exact hm.unique hn

/-- **What is written is read back**: the tree has one text in all layouts, which is read as the
tree and as nothing else. -/
theorem Written.readsAs {g d : Dialect} {a : NonTerminal} {e : Node} (h : Written g d a e) :
    ∃ text, (∀ l, (Generator.ofDialect d l).generate e = .ok text) ∧
      ∀ n, ReadsAs g text n ↔ n = e := by
  obtain ⟨ts, hs, hd⟩ := h.reads_assignment
  obtain ⟨text, hgenerate, hlex⟩ := hs.generate
  have hread : ReadsAs g text e := ⟨ts, hlex, .unit (by decide) hd⟩
  refine ⟨text, hgenerate, fun n => ⟨fun hn => hn.unique hread, ?_⟩⟩
  rintro rfl
  exact hread

/-! ## §2. Trees without assertions. -/

/-- **Every tree is written as what it is read as**, by induction on the tree. It is read as a call
only if it has one that `new` would take for its own arguments. -/
theorem Fragment.written {n : Node} (h : Fragment n) (d : Dialect) :
    ∃ a, Written .plain d a n ∧ (a = .call → n.hasCall = true) := by
  have hbinary : ∀ op ∈ binaryOperators,
      (if op = "in" then .primary else operatorSort op) ≠ NonTerminal.call := by decide
  have hlogical : ∀ op ∈ logicalOperators, operatorSort op ≠ .call := by decide
  -- a member is read as a call only if its object is
  have hbase : ∀ {a : NonTerminal}, base a = .call → a = .call := by
    intro a
    cases a <;> decide
  induction h with
  | identifier hx => exact ⟨_, written_identifier hx, nofun⟩
  | unary hop _ ih =>
    obtain ⟨a, h, -⟩ := ih
    exact ⟨_, written_unary hop h, nofun⟩
  | await _ ih =>
    obtain ⟨a, h, -⟩ := ih
    exact ⟨_, written_await h, nofun⟩
  | update hop ht _ ih =>
    obtain ⟨a, h, -⟩ := ih
    exact ⟨_, written_update hop ht h, nofun⟩
  | binary hl hr _ _ ihl ihr =>
    obtain ⟨a, hl', -⟩ := ihl
    obtain ⟨b, hr', -⟩ := ihr
    have hop := mem_binaryOperators hl hr
    exact ⟨_, written_binary hop hl' hr', fun h => absurd h (hbinary _ hop)⟩
  | logical hop _ _ ihl ihr =>
    obtain ⟨a, hl, -⟩ := ihl
    obtain ⟨b, hr, -⟩ := ihr
    exact ⟨_, written_logical hop hl hr, fun h => absurd h (hlogical _ hop)⟩
  | conditional _ _ _ iht ihl ihr =>
    obtain ⟨a, ht, -⟩ := iht
    obtain ⟨b, hl, -⟩ := ihl
    obtain ⟨c, hr, -⟩ := ihr
    exact ⟨_, written_conditional ht hl hr, nofun⟩
  | assignment hop ht _ _ ihl ihr =>
    obtain ⟨a, hl, -⟩ := ihl
    obtain ⟨b, hr, -⟩ := ihr
    exact ⟨_, written_assignment hop ht hl hr, nofun⟩
  | sequence hlen _ ih =>
    exact ⟨_, written_sequence hlen fun n hn => (ih n hn).imp fun _ => And.left, nofun⟩
  | field _ hx ih =>
    obtain ⟨a, h, hcall⟩ := ih
    exact ⟨_, written_field hx h, fun ha => hcall (hbase ha)⟩
  | index _ _ iho ihi =>
    obtain ⟨a, ho, hcall⟩ := iho
    obtain ⟨b, hi, -⟩ := ihi
    exact ⟨_, written_index ho hi, fun ha => hcall (hbase ha)⟩
  | call _ _ ih iha =>
    obtain ⟨a, h, -⟩ := ih
    exact ⟨_, written_call h fun n hn => (iha n hn).imp fun _ => And.left, fun _ => rfl⟩
  | new _ _ ih iha =>
    obtain ⟨a, h, hcall⟩ := ih
    refine ⟨_, written_new h ?_ fun n hn => (iha n hn).imp fun _ => And.left, nofun⟩
    -- a callee that is read as a call has one, so it is not written bare
    intro hf ha
    rw [hcall ha] at hf
    cases hf

/-- **Expressions are read back.** The text of a tree is read as the tree and as nothing else. -/
theorem generate_readsAs {e : Node} (h : Fragment e) (d : Dialect) :
    ∃ text, (∀ l, (Generator.ofDialect d l).generate e = .ok text) ∧
      ∀ n, ReadsAs .plain text n ↔ n = e := by
  obtain ⟨a, hw, -⟩ := h.written d
  exact hw.readsAs

/-- A tree with an operator of every sort, `a.b ??= (g in h) ? new (c().d)((- -e) ** f) : (j, k)`.
-/
theorem generate_readsAs_conditional :
    let e : Node := .assignmentExpression "??="
      (.memberExpression (named "a") (named "b") false false)
      (.conditionalExpression (.binaryExpression "in" (named "g") (named "h"))
        (.newExpression (.memberExpression (.callExpression (named "c") [] false none) (named "d")
            false false)
          [.binaryExpression "**"
            (.unaryExpression "-" true (.unaryExpression "-" true (named "e")))
            (named "f")] false none)
        (.sequenceExpression [named "j", named "k"]))
    Fragment e ∧ ∃ text, (∀ l, (Generator.ofDialect .typed l).generate e = .ok text) ∧
      ∀ n, ReadsAs .plain text n ↔ n = e := by
  intro e
  have hx : ∀ x ∈ ["a", "b", "c", "d", "e", "f", "g", "h", "j", "k"], IsIdentifier x := by
    unfold IsIdentifier
    decide
  have hname : ∀ x ∈ ["a", "b", "c", "d", "e", "f", "g", "h", "j", "k"], Fragment (named x) :=
    fun x h => .identifier (hx x h)
  have hpower : Fragment (.binaryExpression "**"
      (.unaryExpression "-" true (.unaryExpression "-" true (named "e"))) (named "f")) :=
    .binary (by decide) (by decide)
      (.unary (by decide) (.unary (by decide) (hname "e" (by decide)))) (hname "f" (by decide))
  have hcallee : Fragment (.memberExpression (.callExpression (named "c") [] false none) (named "d")
      false false) :=
    .field (.call (hname "c" (by decide)) nofun) (hx "d" (by decide))
  have hpair : ∀ n ∈ [named "j", named "k"], Fragment n := by
    simp only [List.forall_mem_cons]
    exact ⟨hname "j" (by decide), hname "k" (by decide), nofun⟩
  have he : Fragment e :=
    .assignment (by decide) rfl (.field (hname "a" (by decide)) (hx "b" (by decide)))
      (.conditional
        (.binary (by decide) (by decide) (hname "g" (by decide)) (hname "h" (by decide)))
        (.new hcallee (by simpa using hpower))
        (.sequence (by decide) hpair))
  exact ⟨he, generate_readsAs he .typed⟩

end Estree.Expression
