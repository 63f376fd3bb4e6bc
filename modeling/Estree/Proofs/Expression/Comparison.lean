import Estree.Proofs.Expression.Comparison.Reading

/-!
# What the text of a comparison shows

The text of a tree of names, comparisons, sequences and calls shows its tokens, but not which of the
characters `<` and `>` are brackets of type arguments. With these marked the tokens show the tree.
Reading marks them by looking ahead, and it finds the marks of the tree exactly if no comparison is
exposed, that is followed by names and commas, `>` and a parenthesis. So the texts of trees without
exposed comparisons are told apart, spaces or not (`generate_reading_eq_iff`). An exposed comparison
`f < T > (x, y)` has the text of a call `f<T>(x, y)` (`squeezed_exposedComparison_eq`).

Main results:

  * `Tree.reading_written_iff`: the text is read as the tree's own tokens exactly if no comparison
    is
    exposed;
  * `generate_reading_eq_iff`: what the texts of two trees show once their spaces are deleted.
-/

namespace Estree.Expression.Comparison

/-- The tokens that are read in a text without spaces. -/
def reading (cs : List Char) : List Token := remark false (Words.tokens cs)

variable {e₁ e₂ : Node}

/-- The text of a tree is cut into its tokens. -/
theorem Tree.tokens_written (h : Tree e₁) :
    Words.tokens (written (marked e₁)) = plain (marked e₁) :=
  h.apart.tokens_written

/-- The text of a tree is read as the tree's own tokens exactly if no comparison is exposed. -/
theorem Tree.reading_written_iff (h : Tree e₁) :
    reading (written (marked e₁)) = marked e₁ ↔ exposed (marked e₁) = false := by
  rw [reading, h.tokens_written]
  exact h.marks.remark_plain_iff

/-- Trees are written alike exactly if their tokens are the same but for the marks. -/
theorem Tree.written_eq_iff (h₁ : Tree e₁) (h₂ : Tree e₂) :
    written (marked e₁) = written (marked e₂) ↔ plain (marked e₁) = plain (marked e₂) := by
  refine ⟨fun h => ?_, fun h => congrArg (List.flatMap String.toList) h⟩
  rw [← h₁.tokens_written, h, h₂.tokens_written]

/-- **What the text of a tree shows once its spaces are deleted**: the tokens without the marks of
type arguments. The marks are read in it exactly if no comparison is exposed, and the marked tokens
show the tree; so trees without exposed comparisons are told apart. -/
theorem generate_reading_eq_iff (h₁ : Tree e₁) (h₂ : Tree e₂) (l : Layout) :
    ∃ t₁ t₂, (Generator.ofDialect .typed l).generate e₁ = .ok t₁ ∧
      (Generator.ofDialect .typed l).generate e₂ = .ok t₂ ∧
      (squeezed t₁.toList = squeezed t₂.toList ↔ plain (marked e₁) = plain (marked e₂)) ∧
      (reading (squeezed t₁.toList) = marked e₁ ↔ exposed (marked e₁) = false) ∧
      (marked e₁ = marked e₂ → e₁ = e₂) ∧
      (exposed (marked e₁) = false → exposed (marked e₂) = false →
        squeezed t₁.toList = squeezed t₂.toList → e₁ = e₂) := by
  obtain ⟨t₁, hgenerate₁, ht₁⟩ := h₁.generate
  obtain ⟨t₂, hgenerate₂, ht₂⟩ := h₂.generate
  refine ⟨t₁, t₂, hgenerate₁ l, hgenerate₂ l, ?_, ?_, h₁.eq_of_marked_eq h₂, fun hx₁ hx₂ h => ?_⟩
  · rw [ht₁, ht₂]
    exact h₁.written_eq_iff h₂
  · rw [ht₁]
    exact h₁.reading_written_iff
  · rw [ht₁, ht₂] at h
    refine h₁.eq_of_marked_eq h₂ ?_
    calc marked e₁ = reading (written (marked e₁)) := (h₁.reading_written_iff.mpr hx₁).symm
      _ = reading (written (marked e₂)) := by rw [h]
      _ = marked e₂ := h₂.reading_written_iff.mpr hx₂

/-- The names of the trees below. -/
theorem isIdentifier_of_mem {x : Token} (hx : x ∈ ["f", "T", "x", "y"]) : IsIdentifier x := by
  revert x
  unfold IsIdentifier
  decide

/-- The sequence of `x` and `y`. -/
def pair : Node := .sequenceExpression [named "x", named "y"]

/-- The names are trees. -/
theorem tree_named {x : Token} (hx : x ∈ ["f", "T", "x", "y"]) : Tree (named x) :=
  .name (isIdentifier_of_mem hx)

/-- So are the two of them in the sequence. -/
theorem tree_pair : ∀ n ∈ [named "x", named "y"], Tree n :=
  List.forall_mem_cons.mpr
    ⟨tree_named (by decide), List.forall_mem_singleton.mpr (tree_named (by decide))⟩

/-- A call with type arguments. -/
def genericCall : Node :=
  .callExpression (named "f") [named "x", named "y"] false (some (typeArguments ["T"]))

/-- The call is a tree. -/
theorem tree_genericCall : Tree genericCall :=
  .generic (tree_named (by decide))
    (List.forall_mem_singleton.mpr (isIdentifier_of_mem (by decide))) tree_pair

/-- A comparison with a comparison on the right. -/
def wrappedComparison : Node :=
  .binaryExpression "<" (named "f") (.binaryExpression ">" (named "T") pair)

/-- The call `f<T>(x, y)` and the comparison `f < (T > (x, y))`. -/
theorem generate_squeezed_ne_of_wrapped :
    (Tree genericCall ∧ exposed (marked genericCall) = false) ∧
      (Tree wrappedComparison ∧ exposed (marked wrappedComparison) = false) ∧
      ∀ l, ∃ t₁ t₂, (Generator.ofDialect .typed l).generate genericCall = .ok t₁ ∧
        (Generator.ofDialect .typed l).generate wrappedComparison = .ok t₂ ∧
        squeezed t₁.toList ≠ squeezed t₂.toList := by
  have h : Tree wrappedComparison :=
    .compare (by decide) (tree_named (by decide))
      (.compare (by decide) (tree_named (by decide)) (.sequence (by decide) tree_pair))
  have hcall : exposed (marked genericCall) = false := by decide
  have hcompare : exposed (marked wrappedComparison) = false := by decide
  refine ⟨⟨tree_genericCall, hcall⟩, ⟨h, hcompare⟩, fun l => ?_⟩
  obtain ⟨t₁, t₂, ht₁, ht₂, -, -, -, heq⟩ := generate_reading_eq_iff tree_genericCall h l
  refine ⟨t₁, t₂, ht₁, ht₂, fun hsqueezed => ?_⟩
  cases heq hcall hcompare hsqueezed

/-- A comparison with a comparison on the left and a sequence on the right. -/
def exposedComparison : Node :=
  .binaryExpression ">" (.binaryExpression "<" (named "f") (named "T")) pair

/-- **An exposed comparison is read as a call**: the texts of the two trees are the same but for
spaces. -/
theorem squeezed_exposedComparison_eq :
    (Tree exposedComparison ∧ Tree genericCall ∧ exposedComparison ≠ genericCall) ∧
      (∀ l, (Generator.ofDialect .typed l).generate exposedComparison = .ok "f < T > (x, y)" ∧
        (Generator.ofDialect .typed l).generate genericCall = .ok "f<T>(x, y)") ∧
      squeezed "f < T > (x, y)".toList = squeezed "f<T>(x, y)".toList := by
  have hcompare : ((Grammar.ofDialect .typed).scope.emit exposedComparison).line? =
      some "f < T > (x, y)".toList := rfl
  have hcall : ((Grammar.ofDialect .typed).scope.emit genericCall).line? =
      some "f<T>(x, y)".toList := rfl
  refine ⟨⟨?_, tree_genericCall, fun h => by cases h⟩, fun l => ⟨?_, ?_⟩, by decide⟩
  · exact .compare (by decide) (.compare (by decide) (tree_named (by decide))
      (tree_named (by decide))) (.sequence (by decide) tree_pair)
  · exact Generator.generate_of_line? hcompare l
  · exact Generator.generate_of_line? hcall l

end Estree.Expression.Comparison
