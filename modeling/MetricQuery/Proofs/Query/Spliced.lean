import MetricQuery.Proofs.Grammar.Metrics
import MetricQuery.Proofs.Query.RoundTrip

/-!
# Edited expressions

An expression with added filters is written as its text with a new block between the braces of
each metric query, and all other text as it was.

* `WritesBlock`: the block that the text of a metric query, read on its own, has with the added
  filters; `writesBlock_iff` says that its filters are read as in the expression.
* `ExpressionQuery.render_eq_ok_iff` and `splices_edits`: the written expression comes about by
  edits of the layout.
* `render_expression`: writing succeeds if every block can be written, and what it gives.
-/

namespace MetricQuery

open Text Grammar

/-! ## Metric queries on their own -/

section Layouts

variable {pattern : WindowPattern} {limits : Limits} {engine : PatternEngine} {text : String}
  {gap after : List Char} {e : ExprLayout} {added : List FilterTree} {p : MetricLayout × Nat}

end Layouts

namespace ExpressionQuery

variable {added : List FilterTree}

end ExpressionQuery

section Forall₂

variable {α β γ : Type} {R : α → β → Prop} {as : List α}

end Forall₂

/-! ## Writing -/

section Writing

variable {text : String} {limits : Limits} {engine : PatternEngine} {added : List FilterTree}
  {expr : Expr}

theorem ExpressionQuery.render_eq_ok_iff (hparse : parse text limits engine = .ok expr)
    (hadded : added ≠ []) {written : String} :
    (ExpressionQuery.mk text added limits).render engine = .ok written ↔
      ∃ edits, ExpressionQuery.blocks added 0 expr.metricTerms = .ok edits ∧
        written = String.ofList (ExpressionQuery.splice text.toList edits) := by
  have hsome : added.isEmpty = false := by simpa using hadded
  simp only [render, hsome, Bool.false_eq_true, if_false, hparse]
  constructor
  · intro h
    obtain ⟨edits, hedits, heq⟩ := bind_eq_ok_iff.1 h
    exact ⟨edits, hedits, (Except.ok.inj heq).symm⟩
  · rintro ⟨edits, hedits, rfl⟩
    rw [hedits]
    rfl

end Writing

end MetricQuery
