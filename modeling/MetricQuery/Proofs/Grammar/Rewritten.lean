import MetricQuery.Proofs.Grammar.Verdict

/-!
# Expressions with other filter blocks

What becomes of a layout, and of the expression that is read from it, if every metric query gets
another filter block.

* `ExprLayout.mapBodies`: the layout with other blocks.
* `ExprLayout.readable_mapBodies`: it is readable if the new blocks are and open no window.
* `Expr.outline`: an expression without positions and filter blocks; the new blocks leave that
  as it is.
-/

namespace MetricQuery

open Text Grammar

/-! ## Outlines -/

mutual

/-- The expression without its positions and filter blocks. -/
def Expr.outline : Expr → Expr
  | .metric term => .metric { term with block := [], blockSpan := ⟨0, 0⟩, span := ⟨0, 0⟩ }
  | .number text _ => .number text ⟨0, 0⟩
  | .literal text _ => .literal text ⟨0, 0⟩
  | .word name _ => .word name ⟨0, 0⟩
  | .call name arguments _ => .call name (outlineAll arguments) ⟨0, 0⟩
  | .binary operator left right _ => .binary operator left.outline right.outline ⟨0, 0⟩
  | .paren inner _ => .paren inner.outline ⟨0, 0⟩

/-- Some expressions without their positions and filter blocks. -/
def Expr.outlineAll : List Expr → List Expr
  | [] => []
  | expr :: rest => expr.outline :: outlineAll rest

end

/-! ## Layouts -/

mutual

/-- The expression with another filter block for each metric query. -/
def ExprLayout.mapBodies (f : MetricLayout → BodyLayout) : ExprLayout → ExprLayout
  | .number text => .number text
  | .literal text => .literal text
  | .word name => .word name
  | .metric m => .metric (m.withBody (f m))
  | .call name arguments => .call name (arguments.mapBodies f)
  | .paren gap inner space => .paren gap (inner.mapBodies f) space
  | .binary operator left gap space right =>
    .binary operator (left.mapBodies f) gap space (right.mapBodies f)

/-- The arguments with another filter block for each metric query. -/
def ArgumentsLayout.mapBodies (f : MetricLayout → BodyLayout) : ArgumentsLayout → ArgumentsLayout
  | .none gap => .none gap
  | .last gap argument space => .last gap (argument.mapBodies f) space
  | .more gap argument space others =>
    .more gap (argument.mapBodies f) space (others.mapBodies f)

end

section MapBodies

variable {f : MetricLayout → BodyLayout}

mutual

theorem ExprLayout.text_mapBodies : ∀ e : ExprLayout,
    (e.mapBodies f).text = e.textWith fun m => (f m).text
  | .number _ => rfl
  | .literal _ => rfl
  | .word _ => rfl
  | .metric _ => rfl
  | .call name arguments => by
    rw [ExprLayout.mapBodies, ExprLayout.text, ExprLayout.textWith, arguments.text_mapBodies]
  | .paren gap inner space => by
    rw [ExprLayout.mapBodies, ExprLayout.text, ExprLayout.textWith, inner.text_mapBodies]
  | .binary operator left gap space right => by
    rw [ExprLayout.mapBodies, ExprLayout.text, ExprLayout.textWith, left.text_mapBodies,
      right.text_mapBodies]

theorem ArgumentsLayout.text_mapBodies : ∀ arguments : ArgumentsLayout,
    (arguments.mapBodies f).text = arguments.textWith fun m => (f m).text
  | .none _ => rfl
  | .last gap argument space => by
    rw [ArgumentsLayout.mapBodies, ArgumentsLayout.text, ArgumentsLayout.textWith,
      argument.text_mapBodies]
  | .more gap argument space others => by
    rw [ArgumentsLayout.mapBodies, ArgumentsLayout.text, ArgumentsLayout.textWith,
      argument.text_mapBodies, others.text_mapBodies]

end

theorem ExprLayout.rank_mapBodies (e : ExprLayout) : (e.mapBodies f).rank = e.rank := by
  cases e <;> rfl

theorem ArgumentsLayout.isNone_mapBodies (arguments : ArgumentsLayout) :
    (arguments.mapBodies f).isNone = arguments.isNone := by
  cases arguments <;> rfl

/-- What closes a call goes on to do so if the new blocks open no window. -/
theorem ArgumentsLayout.opensWindow_mapBodies {arguments : ArgumentsLayout} {start : Nat}
    (h : ∀ p ∈ arguments.placed start, Keeps p.1.body.text (f p.1).text)
    (hcall : opensWindow arguments.text = false) :
    opensWindow (arguments.mapBodies f).text = false := by
  have hsplices : Splices Keeps start (arguments.text ++ [])
      (blockEdits (fun m => String.ofList (f m).text) (arguments.placed start) ++ [])
      (arguments.textWith (fun m => (String.ofList (f m).text).toList) ++ []) :=
    ArgumentsLayout.splices_textWith (by simpa using h) (.none _ [])
  simp only [String.toList_ofList, List.append_nil] at hsplices
  rw [← Bool.not_eq_true, opensWindow_iff, arguments.text_mapBodies]
  intro hwindow
  rw [← Bool.not_eq_true, opensWindow_iff] at hcall
  exact hcall (hsplices.opensWindow_of_result hwindow)

mutual

/-- With readable blocks that open no window, a readable expression stays readable. -/
theorem ExprLayout.readable_mapBodies {pattern : WindowPattern} :
    ∀ {e : ExprLayout} {inArguments : Bool} {start : Nat}, e.Readable pattern inArguments →
      (∀ p ∈ e.placed start, (f p.1).Readable ∧ Keeps p.1.body.text (f p.1).text) →
      (e.mapBodies f).Readable pattern inArguments
  | .number _, _, _, h, _ => h
  | .literal _, _, _, h, _ => h
  | .word _, _, _, h, _ => h
  | .metric m, _, _, h, hf => by
    have hm : m.Readable pattern := h
    exact ⟨hm.metric_ne, hm.metricChars, hm.head, (hf _ (List.mem_singleton_self _)).1, hm.tags,
      hm.calls⟩
  | .call name arguments, _, _, h, hf => by
    obtain ⟨hname, harguments, hcall⟩ := h
    exact ⟨hname, ArgumentsLayout.readable_mapBodies harguments hf,
      ArgumentsLayout.opensWindow_mapBodies (fun p hp => (hf p hp).2) hcall⟩
  | .paren gap inner space, _, _, h, hf => by
    obtain ⟨hgap, hinner, hspace⟩ := h
    exact ⟨hgap, ExprLayout.readable_mapBodies hinner hf, hspace⟩
  | .binary operator left gap space right, _, _, h, hf => by
    obtain ⟨hleft, hleftRank, hgap, hspace, hright, hrightRank⟩ := h
    refine ⟨ExprLayout.readable_mapBodies hleft fun p hp => hf p (List.mem_append_left _ hp),
      ?_, hgap, hspace,
      ExprLayout.readable_mapBodies hright fun p hp => hf p (List.mem_append_right _ hp), ?_⟩
    · rwa [left.rank_mapBodies]
    · rwa [right.rank_mapBodies]

theorem ArgumentsLayout.readable_mapBodies {pattern : WindowPattern} :
    ∀ {arguments : ArgumentsLayout} {start : Nat}, arguments.Readable pattern →
      (∀ p ∈ arguments.placed start, (f p.1).Readable ∧ Keeps p.1.body.text (f p.1).text) →
      (arguments.mapBodies f).Readable pattern
  | .none _, _, h, _ => h
  | .last gap argument space, _, h, hf => by
    obtain ⟨hgap, hargument, hspace⟩ := h
    exact ⟨hgap, ExprLayout.readable_mapBodies hargument hf, hspace⟩
  | .more gap argument space others, _, h, hf => by
    obtain ⟨hgap, hargument, hspace, hsome, hothers⟩ := h
    refine ⟨hgap,
      ExprLayout.readable_mapBodies hargument fun p hp => hf p (List.mem_append_left _ hp),
      hspace, ?_,
      ArgumentsLayout.readable_mapBodies hothers fun p hp => hf p (List.mem_append_right _ hp)⟩
    rwa [others.isNone_mapBodies]

end

mutual

/-- The new blocks, and other places, leave the outline as it is. -/
theorem ExprLayout.outline_mapBodies (a b : Nat) : ∀ e : ExprLayout,
    ((e.mapBodies f).expr a).outline = (e.expr b).outline
  | .number _ => rfl
  | .literal _ => rfl
  | .word _ => rfl
  | .metric _ => rfl
  | .call name arguments => by
    simp only [ExprLayout.mapBodies, ExprLayout.expr, Expr.outline]
    rw [arguments.outlineAll_mapBodies]
  | .paren gap inner space => by
    simp only [ExprLayout.mapBodies, ExprLayout.expr, Expr.outline]
    rw [inner.outline_mapBodies]
  | .binary operator left gap space right => by
    simp only [ExprLayout.mapBodies, ExprLayout.expr, Expr.join, Expr.outline]
    rw [left.outline_mapBodies, right.outline_mapBodies]

theorem ArgumentsLayout.outlineAll_mapBodies (a b : Nat) : ∀ arguments : ArgumentsLayout,
    Expr.outlineAll ((arguments.mapBodies f).exprs a) = Expr.outlineAll (arguments.exprs b)
  | .none _ => rfl
  | .last gap argument space => by
    simp only [ArgumentsLayout.mapBodies, ArgumentsLayout.exprs, Expr.outlineAll]
    rw [argument.outline_mapBodies]
  | .more gap argument space others => by
    simp only [ArgumentsLayout.mapBodies, ArgumentsLayout.exprs, Expr.outlineAll]
    rw [argument.outline_mapBodies, others.outlineAll_mapBodies]

end

mutual

/-- The metric queries are the same, with their new blocks. -/
theorem ExprLayout.placed_mapBodies (a b : Nat) : ∀ e : ExprLayout,
    ((e.mapBodies f).placed a).map Prod.fst = (e.placed b).map fun p => p.1.withBody (f p.1)
  | .number _ => rfl
  | .literal _ => rfl
  | .word _ => rfl
  | .metric _ => rfl
  | .call _ arguments => arguments.placed_mapBodies _ _
  | .paren _ inner _ => inner.placed_mapBodies _ _
  | .binary operator left gap space right => by
    simp only [ExprLayout.mapBodies, ExprLayout.placed, List.map_append]
    rw [left.placed_mapBodies, right.placed_mapBodies]

theorem ArgumentsLayout.placed_mapBodies (a b : Nat) : ∀ arguments : ArgumentsLayout,
    ((arguments.mapBodies f).placed a).map Prod.fst =
      (arguments.placed b).map fun p => p.1.withBody (f p.1)
  | .none _ => rfl
  | .last _ argument _ => argument.placed_mapBodies _ _
  | .more gap argument space others => by
    simp only [ArgumentsLayout.mapBodies, ArgumentsLayout.placed, List.map_append]
    rw [argument.placed_mapBodies, others.placed_mapBodies]

end

end MapBodies

end MetricQuery
