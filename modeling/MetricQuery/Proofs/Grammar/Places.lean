import MetricQuery.Proofs.Grammar.Shapes
import MetricQuery.Proofs.Text.Places

/-!
# The places of what is read

Every node of an expression that is read knows where it stands in the text: its span is a range
of the text, the spans of its parts lie inside of it, and parts that follow each other do not
overlap.

* `Expr.children` and `Expr.IsNode`: the parts of an expression.
* `Expr.Placed` and `MetricTerm.Placed`: what the spans of a node have to do with the text.
* `ExprLayout.exists_of_isNode`: a node is read from a part of the text, by a step from each node
  to its children.
* `parse_placed`: the result, for a text under limits.
-/

namespace MetricQuery

open Text Grammar

/-! ## Nodes -/

namespace Expr

/-- The expressions that an expression is made of, in the order of the text. -/
def children : Expr → List Expr
  | .metric _ => []
  | .number _ _ => []
  | .literal _ _ => []
  | .word _ _ => []
  | .call _ arguments _ => arguments
  | .binary _ left right _ => [left, right]
  | .paren inner _ => [inner]

/-- The expression has this node: it is the node, or a part of it has it. -/
inductive IsNode (expr : Expr) : Expr → Prop where
  | root : IsNode expr expr
  | child {node part : Expr} (hnode : IsNode expr node) (hpart : part ∈ node.children) :
      IsNode expr part

/-- The text that a number, a literal or a bare word is. -/
def leafText? : Expr → Option String
  | .number text _ => some text
  | .literal text _ => some text
  | .word name _ => some name
  | _ => none

/-- The span of a node and those of its children, in a text. -/
structure Placed (text : List Char) (node : Expr) : Prop where
  fits : node.span.Fits text
  leaf : ∀ leaf, node.leafText? = some leaf → node.span.slice? text = some leaf.toList
  inside : ∀ part ∈ node.children,
    node.span.start ≤ part.span.start ∧ part.span.stop ≤ node.span.stop
  ordered : node.children.Pairwise fun a b => a.span.stop ≤ b.span.start

end Expr

/-- The span of a filter block and those of its conditions, in a text. -/
structure MetricTerm.Placed (text : List Char) (term : MetricTerm) : Prop where
  inside : term.span.start < term.blockSpan.start ∧ term.blockSpan.stop < term.span.stop
  /-- The block stands right between two braces. -/
  braces : ∃ before under behind, text = before ++ '\x7b' :: (under ++ '\x7d' :: behind) ∧
    term.blockSpan.start = utf8Length (before ++ ['\x7b']) ∧
    term.blockSpan.stop = utf8Length (before ++ '\x7b' :: under)
  blockFits : term.blockSpan.Fits text
  fits : ∀ c ∈ BlockItem.conditionsOfAll term.block, c.span.Fits text
  conditions : ∀ c ∈ BlockItem.conditionsOfAll term.block,
    term.blockSpan.start ≤ c.span.start ∧ c.span.stop ≤ term.blockSpan.stop
  ordered : (BlockItem.conditionsOfAll term.block).Pairwise fun a b => a.span.stop ≤ b.span.start

/-! ## Parts of the text -/

namespace PartOf

variable {part middle text : List Char} {start place inside : Nat}

theorem trans (h : PartOf part middle inside place) (hmiddle : PartOf middle text start inside) :
    PartOf part text start place := by
  obtain ⟨before, behind, rfl, rfl⟩ := hmiddle
  exact h.within before behind

theorem fits (h : PartOf part text 0 place) :
    (Span.mk place (place + utf8Length part)).Fits text := by
  obtain ⟨before, behind, rfl, rfl⟩ := h
  rw [Nat.zero_add]
  exact Span.fits_append before part behind

theorem slice?_eq (h : PartOf part text 0 place) :
    (Span.mk place (place + utf8Length part)).slice? text = some part := by
  obtain ⟨before, behind, rfl, rfl⟩ := h
  rw [Nat.zero_add]
  exact Span.slice?_append before part behind

/-- Spans that lie in a part of the text lie in the text. -/
theorem marks {spans : List Span} (h : PartOf part text start place)
    (hspans : Marks place part spans) : Marks start text spans := by
  obtain ⟨before, behind, rfl, rfl⟩ := h
  exact hspans.within before behind

end PartOf

/-! ## Conditions -/

open BlockItem

mutual

/-- The conditions of an operand lie in its text, one behind the other. -/
theorem OperandLayout.marks_conditions : ∀ (operand : OperandLayout) (start : Nat),
    Marks start operand.text ((conditionsOfAll (operand.items start)).map Condition.span)
  | .condition c text, start => Marks.whole start text
  | .grouped gap first more, start => by
    have hfirst := first.marks_conditions (start + utf8Length ['('] + utf8Length gap)
    have hmore := more.marks_conditions
      (start + utf8Length ['('] + utf8Length gap + utf8Length first.text)
    rw [OperandLayout.items, conditionsOfAll, conditions, conditionsOfAll, List.append_nil,
      conditionsOfAll_append, List.map_append]
    simpa [OperandLayout.text] using (((hfirst.append hmore).upTo [')']).prepend gap).prepend ['(']
  | .negated word gap operand, start => by
    have hoperand := operand.marks_conditions (start + utf8Length word + utf8Length gap)
    exact (hoperand.prepend gap).prepend word

theorem TailLayout.marks_conditions : ∀ (tail : TailLayout) (start : Nat),
    Marks start tail.text ((conditionsOfAll (tail.items start)).map Condition.span)
  | .done gap, start => .none start gap
  | .more joint operand others, start => by
    have hoperand := operand.marks_conditions (start + utf8Length joint.text)
    have hothers := others.marks_conditions
      (start + utf8Length joint.text + utf8Length operand.text)
    rw [TailLayout.items, conditionsOfAll, conditions, List.nil_append, conditionsOfAll_append,
      List.map_append]
    exact (hoperand.append hothers).prepend joint.text

end

theorem BodyLayout.marks_conditions (body : BodyLayout) (start : Nat) :
    Marks start body.text ((conditionsOfAll (body.block start)).map Condition.span) := by
  cases body with
  | wildcard gap space => exact .none start _
  | items list =>
    have hfirst := list.first.marks_conditions (start + utf8Length list.gap)
    have hmore := list.more.marks_conditions
      (start + utf8Length list.gap + utf8Length list.first.text)
    rw [BodyLayout.block, ItemsLayout.items, conditionsOfAll_append, List.map_append]
    exact (hfirst.append hmore).prepend list.gap

/-! ## Metric queries -/

/-- The block of a metric query starts and ends inside of it. -/
theorem MetricLayout.inside_term (m : MetricLayout) (place : Nat) :
    (m.term place).span.start < (m.term place).blockSpan.start ∧
      (m.term place).blockSpan.stop < (m.term place).span.stop := by
  have hopen := Char.utf8Size_pos '\x7b'
  have hclose := Char.utf8Size_pos '\x7d'
  simp only [term, opened, text, utf8Length_append, utf8Length]
  omega

/-- A metric query that stands in the text is placed in it. -/
theorem MetricLayout.placed_term {m : MetricLayout} {text : List Char} {place : Nat}
    (h : PartOf m.text text 0 place) : (m.term place).Placed text := by
  have hbody : PartOf m.body.text m.text place (m.opened place) :=
    ⟨m.front ++ ['\x7b'], '\x7d' :: (m.tags ++ m.calls), by simp [MetricLayout.text], by
      simp only [MetricLayout.opened, utf8Length_append, Nat.add_assoc]⟩
  have hconditions := m.body.marks_conditions (m.opened place)
  have hmarks := (hbody.trans h).marks hconditions
  refine ⟨m.inside_term place, ?_, (hbody.trans h).fits, ?_, ?_, ?_⟩
  · obtain ⟨before, behind, rfl, rfl⟩ := h
    refine ⟨before ++ m.front, m.body.text, m.tags ++ (m.calls ++ behind), ?_, ?_, ?_⟩
    · simp [MetricLayout.text]
    · simp only [MetricLayout.term, MetricLayout.opened, utf8Length_append, Nat.zero_add]
    · simp only [MetricLayout.term, MetricLayout.opened, utf8Length_append, utf8Length,
        Nat.zero_add, Nat.add_zero, Nat.add_assoc]
  · exact fun c hc => hmarks.fits _ (List.mem_map_of_mem hc)
  · exact fun c hc => hconditions.bounds _ (List.mem_map_of_mem hc)
  · exact List.pairwise_map.1 hconditions.pairwise

/-! ## Children -/

theorem ExprLayout.marks_self (e : ExprLayout) (start : Nat) :
    Marks start e.text [(e.expr start).span] :=
  e.span_expr start ▸ Marks.whole start e.text

/-- The arguments of a call lie in their text, one behind the other. -/
theorem ArgumentsLayout.marks_exprs : ∀ (start : Nat) (arguments : ArgumentsLayout),
    Marks start arguments.text ((arguments.exprs start).map Expr.span)
  | start, .none gap => .none start (gap ++ [')'])
  | start, .last gap argument space =>
    (argument.marks_self (start + utf8Length gap)).within gap (space ++ [')'])
  | start, .more gap argument space others => by
    have hargument := argument.marks_self (start + utf8Length gap)
    have hothers := others.marks_exprs (start + utf8Length gap + utf8Length argument.text +
      utf8Length space + utf8Length [','])
    have hmore : Marks _ (space ++ ',' :: others.text) _ := (hothers.prepend [',']).prepend space
    exact (hargument.append hmore).prepend gap

/-- The children of an expression lie in its text, one behind the other. -/
theorem ExprLayout.marks_children (e : ExprLayout) (start : Nat) :
    Marks start e.text ((e.expr start).children.map Expr.span) := by
  cases e with
  | number text => exact .none start _
  | literal text => exact .none start _
  | word name => exact .none start _
  | metric m => exact .none start _
  | call name arguments =>
    exact ((arguments.marks_exprs _).prepend ['(']).prepend name
  | paren gap inner space =>
    exact ((inner.marks_self _).within gap (space ++ [')'])).prepend ['(']
  | binary operator left gap space right =>
    exact (left.marks_self start).append
      ((((right.marks_self _).prepend space).prepend [operator.symbol]).prepend gap)

/-- An argument of a call is read from a part of the text of the arguments. -/
theorem ArgumentsLayout.exists_of_mem_exprs {pattern : WindowPattern} {argument : Expr} :
    ∀ {arguments : ArgumentsLayout} {start : Nat}, arguments.Readable pattern →
      argument ∈ arguments.exprs start →
      ∃ (e : ExprLayout) (place : Nat), argument = e.expr place ∧ e.Readable pattern true ∧
        PartOf e.text arguments.text start place
  | .last gap e space, start, h, hmem => by
    obtain rfl := List.mem_singleton.1 hmem
    exact ⟨e, _, rfl, h.2.1, (PartOf.refl e.text _).within gap (space ++ [')'])⟩
  | .more gap e space others, start, h, hmem => by
    rcases List.mem_cons.1 hmem with rfl | hmem
    · exact ⟨e, _, rfl, h.2.1, (PartOf.refl e.text _).within gap (space ++ ',' :: others.text)⟩
    · obtain ⟨part, place, hpart, hreadable, hplace⟩ := exists_of_mem_exprs h.2.2.2.2 hmem
      simp only [Nat.add_assoc, ← utf8Length_append] at hplace
      refine ⟨part, place, hpart, hreadable, ?_⟩
      simpa [ArgumentsLayout.text] using
        hplace.within (gap ++ e.text ++ space ++ [',']) []

/-- A child of an expression is read from a part of its text. -/
theorem ExprLayout.exists_of_mem_children {pattern : WindowPattern} {e : ExprLayout}
    {inArguments : Bool} {start : Nat} {part : Expr} (h : e.Readable pattern inArguments)
    (hpart : part ∈ (e.expr start).children) :
    ∃ (child : ExprLayout) (inArguments : Bool) (place : Nat), part = child.expr place ∧
      child.Readable pattern inArguments ∧ PartOf child.text e.text start place := by
  cases e with
  | number text => simp [expr, Expr.children] at hpart
  | literal text => simp [expr, Expr.children] at hpart
  | word name => simp [expr, Expr.children] at hpart
  | metric m => simp [expr, Expr.children] at hpart
  | call name arguments =>
    obtain ⟨child, place, hchild, hreadable, hplace⟩ :=
      ArgumentsLayout.exists_of_mem_exprs h.2.1 hpart
    rw [Nat.add_assoc, ← utf8Length_append] at hplace
    refine ⟨child, true, place, hchild, hreadable, ?_⟩
    simpa [text] using hplace.within (name ++ ['(']) []
  | paren gap inner space =>
    obtain rfl := List.mem_singleton.1 hpart
    refine ⟨inner, inArguments, _, rfl, h.2.1, '(' :: gap, space ++ [')'], by simp [text], ?_⟩
    simp only [utf8Length, Nat.add_assoc, Nat.add_zero]
  | binary operator left gap space right =>
    obtain ⟨hleft, -, -, -, hright, -⟩ := h
    rcases List.mem_cons.1 hpart with rfl | hpart
    · exact ⟨left, inArguments, start, rfl, hleft, [],
        gap ++ operator.symbol :: (space ++ right.text), by simp [text], rfl⟩
    · obtain rfl := List.mem_singleton.1 hpart
      refine ⟨right, inArguments, _, rfl, hright,
        left.text ++ (gap ++ operator.symbol :: space), [], by simp [text], ?_⟩
      simp only [utf8Length_append, utf8Length, Nat.add_assoc, Nat.add_zero]

/-- Every node of an expression is read from a part of its text. -/
theorem ExprLayout.exists_of_isNode {pattern : WindowPattern} {e : ExprLayout}
    {inArguments : Bool} {start : Nat} {node : Expr} (h : e.Readable pattern inArguments)
    (hnode : (e.expr start).IsNode node) :
    ∃ (part : ExprLayout) (inArguments : Bool) (place : Nat), node = part.expr place ∧
      part.Readable pattern inArguments ∧ PartOf part.text e.text start place := by
  induction hnode with
  | root => exact ⟨e, inArguments, start, rfl, h, .refl _ _⟩
  | child _ hpart ih =>
    obtain ⟨part, _, place, rfl, hreadable, hplace⟩ := ih
    obtain ⟨child, inside, within, rfl, hchild, hwithin⟩ :=
      ExprLayout.exists_of_mem_children hreadable hpart
    exact ⟨child, inside, within, rfl, hchild, hwithin.trans hplace⟩

/-- An expression that stands in the text is placed in it. -/
theorem ExprLayout.placed_expr {e : ExprLayout} {text : List Char} {place : Nat}
    (h : PartOf e.text text 0 place) : (e.expr place).Placed text := by
  have hchildren := e.marks_children place
  refine ⟨e.span_expr place ▸ h.fits, fun leaf hleaf => ?_, fun part hpart => ?_,
    List.pairwise_map.1 hchildren.pairwise⟩
  · have hslice := h.slice?_eq
    rw [e.span_expr place, hslice]
    cases e with
    | number text => obtain rfl := Option.some.inj hleaf; simp [ExprLayout.text]
    | literal text => obtain rfl := Option.some.inj hleaf; simp [ExprLayout.text]
    | word name => obtain rfl := Option.some.inj hleaf; simp [ExprLayout.text]
    | metric m => simp [expr, Expr.leafText?] at hleaf
    | call name arguments => simp [expr, Expr.leafText?] at hleaf
    | paren gap inner space => simp [expr, Expr.leafText?] at hleaf
    | binary operator left gap space right => simp [expr, Expr.join, Expr.leafText?] at hleaf
  · rw [e.span_expr place]
    exact hchildren.bounds _ (List.mem_map_of_mem hpart)

/-! ## All metric queries -/

mutual

/-- The metric queries of an expression lie in its text, one behind the other. -/
theorem ExprLayout.marks_placed : ∀ (e : ExprLayout) (start : Nat),
    Marks start e.text ((e.placed start).map fun p => (p.1.term p.2).span)
  | .number _, start => .none start _
  | .literal _, start => .none start _
  | .word _, start => .none start _
  | .metric m, start => .whole start m.text
  | .call name arguments, start =>
    ((arguments.marks_placed _).prepend ['(']).prepend name
  | .paren gap inner space, start =>
    ((inner.marks_placed _).within gap (space ++ [')'])).prepend ['(']
  | .binary operator left gap space right, start => by
    have hright := right.marks_placed (start + utf8Length left.text + utf8Length gap +
      utf8Length [operator.symbol] + utf8Length space)
    rw [ExprLayout.placed, List.map_append]
    exact (left.marks_placed start).append
      (((hright.prepend space).prepend [operator.symbol]).prepend gap)

theorem ArgumentsLayout.marks_placed : ∀ (arguments : ArgumentsLayout) (start : Nat),
    Marks start arguments.text ((arguments.placed start).map fun p => (p.1.term p.2).span)
  | .none _, start => .none start _
  | .last gap argument space, start => (argument.marks_placed _).within gap (space ++ [')'])
  | .more gap argument space others, start => by
    have hothers := others.marks_placed (start + utf8Length gap + utf8Length argument.text +
      utf8Length space + utf8Length [','])
    rw [ArgumentsLayout.placed, List.map_append]
    have hmore : Marks _ (space ++ ',' :: others.text) _ := (hothers.prepend [',']).prepend space
    exact ((argument.marks_placed _).append hmore).prepend gap

end

/-- The filter blocks of an expression start one behind the other, and none of them goes on where
the next one starts. -/
theorem ExprLayout.pairwise_blockSpan (e : ExprLayout) (start : Nat) :
    ((e.expr start).metricTerms.map MetricTerm.blockSpan).Pairwise fun a b =>
      a.start < b.start ∧ a.stop ≤ b.start := by
  rw [e.metricTerms_expr start, List.map_map, List.pairwise_map]
  refine (List.pairwise_map.1 (e.marks_placed start).pairwise).imp fun {a b} hspans => ?_
  -- the block of `a` ends inside of its metric query, and that of `b` starts inside of its own
  have ha := (a.1.inside_term a.2).2
  have hb := (b.1.inside_term b.2).1
  have hblock : (a.1.term a.2).blockSpan.start ≤ (a.1.term a.2).blockSpan.stop :=
    Nat.le_add_right _ _
  simp only [Function.comp_apply]
  omega

/-! ## Texts under limits -/

/-- Every node of an expression that is read is placed in the text, every filter block of it
stands between braces with its conditions in order, and the blocks follow each other. -/
theorem parse_placed {text : String} {limits : Limits} {engine : PatternEngine} {expr : Expr}
    (h : parse text limits engine = .ok expr) :
    (∀ node, expr.IsNode node → node.Placed text.toList) ∧
      (∀ term, expr.IsNode (.metric term) → term.Placed text.toList) ∧
      (expr.metricTerms.map MetricTerm.blockSpan).Pairwise fun a b =>
        a.start < b.start ∧ a.stop ≤ b.start := by
  obtain ⟨pattern, -, -, gap, e, after, -, -, htext, he, -, rfl⟩ := parse_eq_ok_iff.1 h
  have hwhole : PartOf e.text text.toList 0 (utf8Length gap) :=
    ⟨gap, after, htext, (Nat.zero_add _).symm⟩
  refine ⟨fun node hnode => ?_, fun term hnode => ?_, e.pairwise_blockSpan _⟩
  · obtain ⟨part, _, place, rfl, -, hpart⟩ := ExprLayout.exists_of_isNode he hnode
    exact ExprLayout.placed_expr (hpart.trans hwhole)
  · obtain ⟨part, _, place, hterm, -, hpart⟩ := ExprLayout.exists_of_isNode he hnode
    cases part with
    | metric m =>
      obtain rfl := Expr.metric.inj hterm
      exact MetricLayout.placed_term (hpart.trans hwhole)
    | _ => simp [ExprLayout.expr, Expr.join] at hterm

/-- A literal, a value and a blank of more than one byte each in front of a later block. -/
theorem parse_placed_wide :
    let text := "f(\"é\",\u00a0m\x7ba:ß, (b:c)\x7d) + n\x7b*\x7d"
    ∃ expr, parse text = .ok expr ∧
      expr.metricTerms.map MetricTerm.blockSpan = [⟨11, 22⟩, ⟨29, 30⟩] ∧
      expr.Placed text.toList ∧
      ∀ term, expr.IsNode (.metric term) → term.Placed text.toList := by
  intro text
  have hread : (parse text).toOption.map (fun expr =>
      expr.metricTerms.map MetricTerm.blockSpan) = some [⟨11, 22⟩, ⟨29, 30⟩] := by
    decide +kernel
  obtain ⟨expr, hexpr, hspans⟩ := Option.map_eq_some_iff.1 hread
  have hparse : parse text = .ok expr := toOption_eq_some_iff.1 hexpr
  obtain ⟨hnodes, hterms, -⟩ := parse_placed hparse
  exact ⟨expr, hparse, hspans, hnodes expr .root, hterms⟩

end MetricQuery
