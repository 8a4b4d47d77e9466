import MetricQuery.Proofs.Grammar.ExprExact
import MetricQuery.Proofs.Grammar.Levels

/-!
# How deep expressions nest

The nesting of an expression is counted on the tree alone.  A limit on nesting is a bound on
that number and nothing else.

* `BlockItem.deepest`, `Expr.innerNesting` and `Expr.nesting`: the count.
* `ExprLayout.nesting_expr`: it is the number of levels that reading the expression takes.
* `parse_shallow`: with a smaller limit the result is the same, or a lack of levels.
* `parse_maxDepth`: which of the two, for every result.
-/

namespace MetricQuery

open Text Grammar

/-! ## Counting levels -/

mutual

/-- The levels of a list in parentheses; no other item takes any. -/
def BlockItem.nesting : BlockItem → Nat
  | .wildcard => 0
  | .condition _ => 0
  | .grouped items => BlockItem.deepest items + 1
  | .separator _ => 0

/-- The levels that the deepest item of a list takes. -/
def BlockItem.deepest : List BlockItem → Nat
  | [] => 0
  | item :: rest => max item.nesting (BlockItem.deepest rest)

end

/-- The levels of a filter block: an asterisk takes none, and a list one beside its items. -/
def MetricTerm.nesting (term : MetricTerm) : Nat :=
  match term.block with
  | [.wildcard] => 0
  | items => BlockItem.deepest items + 1

mutual

/-- The levels inside an expression.  A call takes one for the list of its arguments, and each
argument is an expression again. -/
def Expr.innerNesting : Expr → Nat
  | .metric term => term.nesting
  | .number _ _ => 0
  | .literal _ _ => 0
  | .word _ _ => 0
  | .call _ arguments _ => Expr.deepestArgument arguments + 1
  | .binary _ left right _ => max left.innerNesting right.innerNesting
  | .paren inner _ => inner.innerNesting + 1

/-- The levels that the deepest of some arguments takes. -/
def Expr.deepestArgument : List Expr → Nat
  | [] => 0
  | expr :: rest => max (expr.innerNesting + 1) (Expr.deepestArgument rest)

end

/-- The levels of an expression, itself included. -/
def Expr.nesting (expr : Expr) : Nat :=
  expr.innerNesting + 1

theorem BlockItem.deepest_append (items more : List BlockItem) :
    deepest (items ++ more) = max (deepest items) (deepest more) := by
  induction items with
  | nil => rw [List.nil_append, deepest, Nat.zero_max]
  | cons item rest ih => rw [List.cons_append, deepest, deepest, ih, Nat.max_assoc]

/-! ## Levels of layouts -/

mutual

theorem OperandLayout.deepest_items : ∀ (operand : OperandLayout) (start : Nat),
    BlockItem.deepest (operand.items start) = operand.depth
  | .condition _ _, _ => rfl
  | .grouped gap first more, start => by
    rw [OperandLayout.items, BlockItem.deepest, BlockItem.nesting, BlockItem.deepest_append,
      first.deepest_items, more.deepest_items, BlockItem.deepest, Nat.max_zero,
      OperandLayout.depth]
  | .negated word gap operand, start => by
    rw [OperandLayout.items, BlockItem.deepest, BlockItem.nesting, operand.deepest_items,
      Nat.zero_max, OperandLayout.depth]

theorem TailLayout.deepest_items : ∀ (tail : TailLayout) (start : Nat),
    BlockItem.deepest (tail.items start) = tail.depth
  | .done _, _ => rfl
  | .more joint operand others, start => by
    rw [TailLayout.items, BlockItem.deepest, BlockItem.nesting, BlockItem.deepest_append,
      operand.deepest_items, others.deepest_items, Nat.zero_max, TailLayout.depth]

end

theorem MetricLayout.nesting_term (m : MetricLayout) (start : Nat) :
    (m.term start).nesting = m.body.depth := by
  rw [MetricTerm.nesting, term]
  cases m.body with
  | wildcard gap space => rfl
  | items list =>
    -- no list starts with an asterisk, whatever its first operand is
    have hitems : ∀ place, (match list.items place with
        | [.wildcard] => 0
        | items => BlockItem.deepest items + 1) = BlockItem.deepest (list.items place) + 1 := by
      intro place
      rw [ItemsLayout.items]
      cases list.first <;> rfl
    rw [BodyLayout.block, hitems, ItemsLayout.items, BlockItem.deepest_append,
      OperandLayout.deepest_items, TailLayout.deepest_items]
    rfl

mutual

/-- Reading an expression takes as many levels as it nests. -/
theorem ExprLayout.nesting_expr : ∀ (e : ExprLayout) (start : Nat),
    (e.expr start).nesting = e.depth
  | .number _, _ => rfl
  | .literal _, _ => rfl
  | .word _, _ => rfl
  | .metric m, start => by
    rw [ExprLayout.expr, Expr.nesting, Expr.innerNesting, m.nesting_term, ExprLayout.depth]
  | .call name arguments, start => by
    rw [ExprLayout.expr, Expr.nesting, Expr.innerNesting, arguments.deepestArgument_exprs,
      ExprLayout.depth]
  | .paren gap inner space, start => by
    rw [ExprLayout.expr, Expr.nesting, Expr.innerNesting, ← Expr.nesting, inner.nesting_expr,
      ExprLayout.depth]
  | .binary operator left gap space right, start => by
    rw [ExprLayout.expr, Expr.join, Expr.nesting, Expr.innerNesting, ← Nat.add_max_add_right,
      ← Expr.nesting, ← Expr.nesting, left.nesting_expr, right.nesting_expr, ExprLayout.depth]

theorem ArgumentsLayout.deepestArgument_exprs : ∀ (arguments : ArgumentsLayout) (start : Nat),
    Expr.deepestArgument (arguments.exprs start) + 1 = arguments.depth
  | .none _, _ => rfl
  | .last gap argument space, start => by
    rw [ArgumentsLayout.exprs, Expr.deepestArgument, ← Expr.nesting, argument.nesting_expr,
      Expr.deepestArgument, Nat.max_zero, ArgumentsLayout.depth]
  | .more gap argument space others, start => by
    rw [ArgumentsLayout.exprs, Expr.deepestArgument, ← Expr.nesting, argument.nesting_expr,
      ← Nat.add_max_add_right, others.deepestArgument_exprs, ArgumentsLayout.depth]

end

/-! ## The limit -/

section Limit

variable {text : String} {limits : Limits} {engine : PatternEngine} {expr : Expr} {depth : Nat}

theorem nesting_le_of_parse (h : parse text limits engine = .ok expr) :
    expr.nesting ≤ limits.maxDepth := by
  obtain ⟨pattern, -, -, gap, e, after, -, -, -, -, hdepth, rfl⟩ := parse_eq_ok_iff.1 h
  rwa [e.nesting_expr]

/-- Only the sign of the limit on nesting matters for the limits to make sense. -/
theorem Limits.window?_maxDepth (hpos : 0 < depth) (hmax : 0 < limits.maxDepth) :
    ({ limits with maxDepth := depth } : Limits).window? engine = limits.window? engine := by
  simp only [window?, Nat.pos_iff_ne_zero.1 hpos, Nat.pos_iff_ne_zero.1 hmax, if_false]

/-- An expression is read under every limit that it keeps to. -/
theorem parse_of_nesting_le (h : parse text limits engine = .ok expr) (hpos : 0 < depth)
    (hnesting : expr.nesting ≤ depth) :
    parse text { limits with maxDepth := depth } engine = .ok expr := by
  obtain ⟨pattern, hwindow, hlength, gap, e, after, hgap, hafter, htext, he, -, rfl⟩ :=
    parse_eq_ok_iff.1 h
  rw [e.nesting_expr] at hnesting
  have hmax := (Limits.window?_eq_ok_iff.1 hwindow).2.1
  exact parse_eq_ok_iff.2 ⟨pattern, (Limits.window?_maxDepth hpos hmax).trans hwindow, hlength,
    gap, e, after, hgap, hafter, htext, he, hnesting, rfl⟩

/-- Under a smaller limit the same comes out, unless that is too small. -/
theorem parse_shallow (hpos : 0 < depth) (hle : depth ≤ limits.maxDepth) :
    parse text { limits with maxDepth := depth } engine = .error (.tooDeep depth) ∨
      parse text { limits with maxDepth := depth } engine = parse text limits engine ∧
        ∀ levels, parse text limits engine ≠ .error (.tooDeep levels) := by
  rw [parse, parse, Limits.window?_maxDepth hpos (Nat.lt_of_lt_of_le hpos hle)]
  cases limits.window? engine with
  | error cause => exact .inr ⟨rfl, by simp⟩
  | ok pattern =>
    dsimp only
    split
    · exact .inr ⟨rfl, by simp⟩
    · rcases stopsShort_wholeExpression pattern hle text.toList with hfew | hfew
      · exact .inl (by rw [hfew])
      · rw [hfew]
        cases wholeExpression pattern limits.maxDepth text.toList with
        | ok expr => exact .inr ⟨rfl, by simp⟩
        | error failure =>
          cases failure with
          | tooDeep => exact .inl rfl
          | malformed cause offset => exact .inr ⟨rfl, by simp⟩

/-- The limit on nesting is a bound on the nesting of what is read.  Under a smaller one the same
expression is read if it keeps to it, what was too deep still is, and any other error stays
unless levels run out before it. -/
theorem parse_maxDepth (hpos : 0 < depth) (hle : depth ≤ limits.maxDepth) :
    (∀ expr, parse text limits engine = .ok expr → expr.nesting ≤ limits.maxDepth ∧
      parse text { limits with maxDepth := depth } engine =
        if expr.nesting ≤ depth then .ok expr else .error (.tooDeep depth)) ∧
      (parse text limits engine = .error (.tooDeep limits.maxDepth) →
        parse text { limits with maxDepth := depth } engine = .error (.tooDeep depth)) ∧
      (∀ error, parse text limits engine = .error error → error ≠ .tooDeep limits.maxDepth →
        parse text { limits with maxDepth := depth } engine = .error error ∨
          parse text { limits with maxDepth := depth } engine = .error (.tooDeep depth)) ∧
      ∀ expr, parse text { limits with maxDepth := depth } engine = .ok expr →
        parse text limits engine = .ok expr := by
  have hshallow := @parse_shallow text limits engine depth hpos hle
  refine ⟨fun expr h => ⟨nesting_le_of_parse h, ?_⟩, ?_, ?_, ?_⟩
  · split
    · next hnesting => exact parse_of_nesting_le h hpos hnesting
    · next hnesting =>
      refine hshallow.resolve_right fun hsame => hnesting ?_
      exact nesting_le_of_parse (hsame.1.trans h)
  · exact fun h => hshallow.resolve_right fun hsame => hsame.2 _ h
  · intro error h _
    exact hshallow.symm.imp_left fun hsame => hsame.1.trans h
  · intro expr h
    rcases hshallow with hdeep | hsame
    · simp [hdeep] at h
    · exact hsame.1.symm.trans h

end Limit

/-- A call with a metric query takes two levels of its own, and the query two more for its
lists. -/
theorem parse_maxDepth_call :
    let text := "f(m\x7b(a:1)\x7d, 2) + (3)"
    (0 < 4 ∧ 4 ≤ ({} : Limits).maxDepth ∧ 0 < 5 ∧ 5 ≤ ({} : Limits).maxDepth) ∧
      ∃ expr, parse text = .ok expr ∧ expr.nesting = 5 ∧
        parse text { maxDepth := 4 } = .error (.tooDeep 4) ∧
        parse text { maxDepth := 5 } = .ok expr := by
  intro text
  have hread : (parse text).toOption.map Expr.nesting = some 5 := by decide +kernel
  obtain ⟨expr, hexpr, hnesting⟩ := Option.map_eq_some_iff.1 hread
  have hparse : parse text = .ok expr := toOption_eq_some_iff.1 hexpr
  obtain ⟨-, hfour⟩ := (parse_maxDepth (show 0 < 4 by decide)
    (show 4 ≤ ({} : Limits).maxDepth by decide)).1 expr hparse
  obtain ⟨-, hfive⟩ := (parse_maxDepth (show 0 < 5 by decide)
    (show 5 ≤ ({} : Limits).maxDepth by decide)).1 expr hparse
  rw [hnesting] at hfour hfive
  exact ⟨by decide, expr, hparse, hnesting, hfour, hfive⟩

end MetricQuery
