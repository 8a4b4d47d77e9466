import MetricQuery.Proofs.Grammar.ExprExact
import MetricQuery.Proofs.Text.Splices

/-!
# The metric queries in an expression

Where the metric queries of a layout stand, and what becomes of its text if something else is
written between their braces.

* `ExprLayout.placed`: the metric queries with the places where their texts start;
  `metricTerms_expr` says that they are those of the expression.
* `exists_text_of_mem_placed`: the text of each of them is part of the text of the expression.
* `ExprLayout.textWith`: the text with other blocks; `splices_textWith` says that it comes about
  by edits of the block spans.
-/

namespace MetricQuery

open Text Grammar

mutual

/-- The metric queries of an expression whose text starts at a place, with their own places. -/
def ExprLayout.placed : ExprLayout → Nat → List (MetricLayout × Nat)
  | .number _, _ => []
  | .literal _, _ => []
  | .word _, _ => []
  | .metric m, start => [(m, start)]
  | .call name arguments, start => arguments.placed (start + utf8Length name + utf8Length ['('])
  | .paren gap inner _, start => inner.placed (start + utf8Length ['('] + utf8Length gap)
  | .binary operator left gap space right, start =>
    left.placed start ++ right.placed (start + utf8Length left.text + utf8Length gap +
      utf8Length [operator.symbol] + utf8Length space)

/-- The metric queries of the arguments whose text starts at a place. -/
def ArgumentsLayout.placed : ArgumentsLayout → Nat → List (MetricLayout × Nat)
  | .none _, _ => []
  | .last gap argument _, start => argument.placed (start + utf8Length gap)
  | .more gap argument space others, start =>
    argument.placed (start + utf8Length gap) ++
      others.placed (start + utf8Length gap + utf8Length argument.text + utf8Length space +
        utf8Length [','])

end

/-- The text of a metric query with something else between its braces. -/
def MetricLayout.textWith (block : MetricLayout → List Char) (m : MetricLayout) : List Char :=
  m.front ++ '\x7b' :: (block m ++ '\x7d' :: (m.tags ++ m.calls))

mutual

/-- The text with something else between the braces of each metric query. -/
def ExprLayout.textWith (block : MetricLayout → List Char) : ExprLayout → List Char
  | .number text => text
  | .literal text => text
  | .word name => name
  | .metric m => m.textWith block
  | .call name arguments => name ++ '(' :: arguments.textWith block
  | .paren gap inner space => '(' :: (gap ++ (inner.textWith block ++ (space ++ [')'])))
  | .binary operator left gap space right =>
    left.textWith block ++ (gap ++ operator.symbol :: (space ++ right.textWith block))

/-- The text of the arguments with something else between the braces of each metric query. -/
def ArgumentsLayout.textWith (block : MetricLayout → List Char) : ArgumentsLayout → List Char
  | .none gap => gap ++ [')']
  | .last gap argument space => gap ++ (argument.textWith block ++ (space ++ [')']))
  | .more gap argument space others =>
    gap ++ (argument.textWith block ++ (space ++ ',' :: others.textWith block))

end

mutual

/-- The metric queries of an expression are those of its layout, in order. -/
theorem ExprLayout.metricTerms_expr : ∀ (e : ExprLayout) (start : Nat),
    (e.expr start).metricTerms = (e.placed start).map fun p => p.1.term p.2
  | .number _, _ => rfl
  | .literal _, _ => rfl
  | .word _, _ => rfl
  | .metric _, _ => rfl
  | .call _ arguments, start => arguments.metricTermsOfAll_exprs _
  | .paren _ inner _, start => inner.metricTerms_expr _
  | .binary operator left _ _ right, start => by
    rw [ExprLayout.expr, Expr.join, Expr.metricTerms, left.metricTerms_expr,
      right.metricTerms_expr, ExprLayout.placed, List.map_append]

theorem ArgumentsLayout.metricTermsOfAll_exprs : ∀ (arguments : ArgumentsLayout) (start : Nat),
    Expr.metricTermsOfAll (arguments.exprs start) =
      (arguments.placed start).map fun p => p.1.term p.2
  | .none _, _ => rfl
  | .last _ argument _, start => by
    rw [ArgumentsLayout.exprs, Expr.metricTermsOfAll, argument.metricTerms_expr,
      Expr.metricTermsOfAll, List.append_nil, ArgumentsLayout.placed]
  | .more _ argument _ others, start => by
    rw [ArgumentsLayout.exprs, Expr.metricTermsOfAll, argument.metricTerms_expr,
      others.metricTermsOfAll_exprs, ArgumentsLayout.placed, List.map_append]

end

/-! ## Their texts -/

/-- The part of the text starts at the place, if the text starts at byte `start`. -/
def PartOf (part text : List Char) (start place : Nat) : Prop :=
  ∃ before behind, text = before ++ (part ++ behind) ∧ place = start + utf8Length before

theorem PartOf.refl (text : List Char) (start : Nat) : PartOf text text start start :=
  ⟨[], [], by simp, rfl⟩

theorem PartOf.within {part text : List Char} {start place : Nat} (front rest : List Char)
    (h : PartOf part text (start + utf8Length front) place) :
    PartOf part (front ++ (text ++ rest)) start place := by
  obtain ⟨before, behind, rfl, rfl⟩ := h
  exact ⟨front ++ before, behind ++ rest, by simp, by rw [utf8Length_append, Nat.add_assoc]⟩

mutual

/-- A metric query stands in the text of the expression, is readable as it is there, and has one
of the levels for itself. -/
theorem ExprLayout.exists_text_of_mem_placed {pattern : WindowPattern} {p : MetricLayout × Nat} :
    ∀ {e : ExprLayout} {inArguments : Bool} {start : Nat}, e.Readable pattern inArguments →
      p ∈ e.placed start →
      p.1.Readable pattern ∧ p.1.body.depth < e.depth ∧ PartOf p.1.text e.text start p.2
  | .metric m, _, start, h, hp => by
    obtain rfl := List.mem_singleton.1 hp
    exact ⟨h, Nat.lt_succ_self _, .refl _ _⟩
  | .call name arguments, _, start, h, hp => by
    obtain ⟨hm, hdepth, hpart⟩ := ArgumentsLayout.exists_text_of_mem_placed h.2.1 hp
    rw [Nat.add_assoc, ← utf8Length_append] at hpart
    refine ⟨hm, hdepth.trans (Nat.lt_succ_self _), ?_⟩
    simpa [ExprLayout.text] using hpart.within (name ++ ['(']) []
  | .paren gap inner space, _, start, h, hp => by
    obtain ⟨hm, hdepth, hpart⟩ := ExprLayout.exists_text_of_mem_placed h.2.1 hp
    rw [Nat.add_assoc, ← utf8Length_append] at hpart
    refine ⟨hm, hdepth.trans (Nat.lt_succ_self _), ?_⟩
    simpa [ExprLayout.text] using hpart.within (['('] ++ gap) (space ++ [')'])
  | .binary operator left gap space right, _, start, h, hp => by
    rcases List.mem_append.1 hp with hp | hp
    · obtain ⟨hm, hdepth, hpart⟩ := ExprLayout.exists_text_of_mem_placed h.1 hp
      refine ⟨hm, Nat.lt_of_lt_of_le hdepth (Nat.le_max_left _ _), ?_⟩
      simpa [ExprLayout.text] using
        hpart.within [] (gap ++ operator.symbol :: (space ++ right.text))
    · obtain ⟨hm, hdepth, hpart⟩ := ExprLayout.exists_text_of_mem_placed h.2.2.2.2.1 hp
      simp only [Nat.add_assoc, ← utf8Length_append] at hpart
      refine ⟨hm, Nat.lt_of_lt_of_le hdepth (Nat.le_max_right _ _), ?_⟩
      simpa [ExprLayout.text] using
        hpart.within (left.text ++ gap ++ [operator.symbol] ++ space) []

theorem ArgumentsLayout.exists_text_of_mem_placed {pattern : WindowPattern}
    {p : MetricLayout × Nat} :
    ∀ {arguments : ArgumentsLayout} {start : Nat}, arguments.Readable pattern →
      p ∈ arguments.placed start →
      p.1.Readable pattern ∧ p.1.body.depth < arguments.depth ∧
        PartOf p.1.text arguments.text start p.2
  | .last gap argument space, start, h, hp => by
    obtain ⟨hm, hdepth, hpart⟩ := ExprLayout.exists_text_of_mem_placed h.2.1 hp
    exact ⟨hm, hdepth.trans (Nat.lt_succ_self _), hpart.within gap (space ++ [')'])⟩
  | .more gap argument space others, start, h, hp => by
    rcases List.mem_append.1 hp with hp | hp
    · obtain ⟨hm, hdepth, hpart⟩ := ExprLayout.exists_text_of_mem_placed h.2.1 hp
      exact ⟨hm, Nat.lt_of_lt_of_le (hdepth.trans (Nat.lt_succ_self _)) (Nat.le_max_left _ _),
        hpart.within gap (space ++ ',' :: others.text)⟩
    · obtain ⟨hm, hdepth, hpart⟩ := ArgumentsLayout.exists_text_of_mem_placed h.2.2.2.2 hp
      simp only [Nat.add_assoc, ← utf8Length_append] at hpart
      refine ⟨hm, Nat.lt_of_lt_of_le hdepth (Nat.le_max_right _ _), ?_⟩
      simpa [ArgumentsLayout.text] using
        hpart.within (gap ++ argument.text ++ space ++ [',']) []

end

/-! ## Other blocks -/

/-- The edits that put a block between the braces of each metric query. -/
def blockEdits (block : MetricLayout → String) (placed : List (MetricLayout × Nat)) :
    List (Span × String) :=
  placed.map fun p => ((p.1.term p.2).blockSpan, block p.1)

section Splices

variable {R : List Char → List Char → Prop} {block : MetricLayout → String}
  {rest result : List Char} {edits : List (Span × String)}

theorem MetricLayout.splices_textWith {m : MetricLayout} {start : Nat}
    (hblock : R m.body.text (block m).toList)
    (h : Splices R (start + utf8Length m.text) rest edits result) :
    Splices R start (m.text ++ rest) (((m.term start).blockSpan, block m) :: edits)
      (m.textWith (fun m => (block m).toList) ++ result) := by
  have hbehind : Splices R (m.opened start + utf8Length m.body.text)
      ('\x7d' :: (m.tags ++ m.calls) ++ rest) edits
      ('\x7d' :: (m.tags ++ m.calls) ++ result) := by
    refine Splices.prepend ?_
    have hplace : m.opened start + utf8Length m.body.text +
        utf8Length ('\x7d' :: (m.tags ++ m.calls)) = start + utf8Length m.text := by
      simp only [opened, text, utf8Length_append, utf8Length, Nat.add_assoc, Nat.add_zero]
    rwa [hplace]
  have hopened : m.opened start = start + utf8Length (m.front ++ ['\x7b']) := by
    rw [opened, utf8Length_append, Nat.add_assoc]
  have hedit := Splices.edit (show (m.front ++ ['\x7b']).getLast? = some '\x7b' by simp)
    hblock rfl (hopened ▸ hbehind)
  rw [← hopened] at hedit
  simpa [text, textWith, term] using hedit

mutual

/-- The edits of the block spans put the blocks between the braces, and leave all else. -/
theorem ExprLayout.splices_textWith : ∀ {e : ExprLayout} {start : Nat} {rest result : List Char}
    {edits : List (Span × String)},
    (∀ p ∈ e.placed start, R p.1.body.text (block p.1).toList) →
    Splices R (start + utf8Length e.text) rest edits result →
    Splices R start (e.text ++ rest) (blockEdits block (e.placed start) ++ edits)
      (e.textWith (fun m => (block m).toList) ++ result)
  | .number _, _, _, _, _, _, h => h.prepend
  | .literal _, _, _, _, _, _, h => h.prepend
  | .word _, _, _, _, _, _, h => h.prepend
  | .metric m, _, _, _, _, hblock, h =>
    MetricLayout.splices_textWith (hblock _ (List.mem_singleton_self _)) h
  | .call name arguments, start, rest, result, edits, hblock, h => by
    have hbehind : Splices R
        (start + utf8Length name + utf8Length ['('] + utf8Length arguments.text) rest edits
        result := by
      simpa [ExprLayout.text, utf8Length, Nat.add_assoc] using h
    have hinner := ArgumentsLayout.splices_textWith hblock hbehind
    simpa [ExprLayout.text, ExprLayout.textWith, ExprLayout.placed]
      using hinner.prepend.prepend
  | .paren gap inner space, start, rest, result, edits, hblock, h => by
    have hbehind : Splices R (start + utf8Length ['('] + utf8Length gap + utf8Length inner.text)
        (space ++ [')'] ++ rest) edits (space ++ [')'] ++ result) :=
      .prepend (by simpa [ExprLayout.text, utf8Length, Nat.add_assoc] using h)
    have hinner := ExprLayout.splices_textWith (e := inner) hblock hbehind
    simpa [ExprLayout.text, ExprLayout.textWith, ExprLayout.placed]
      using hinner.prepend.prepend
  | .binary operator left gap space right, start, rest, result, edits, hblock, h => by
    have hbehind : Splices R (start + utf8Length left.text + utf8Length gap +
        utf8Length [operator.symbol] + utf8Length space + utf8Length right.text) rest edits
        result := by
      simpa [ExprLayout.text, utf8Length, Nat.add_assoc] using h
    have hright := ExprLayout.splices_textWith
      (fun p hp => hblock p (List.mem_append_right _ hp)) hbehind
    have hleft := ExprLayout.splices_textWith (e := left)
      (fun p hp => hblock p (List.mem_append_left _ hp)) hright.prepend.prepend.prepend
    simpa [ExprLayout.text, ExprLayout.textWith, ExprLayout.placed, blockEdits] using hleft

theorem ArgumentsLayout.splices_textWith : ∀ {arguments : ArgumentsLayout} {start : Nat}
    {rest result : List Char} {edits : List (Span × String)},
    (∀ p ∈ arguments.placed start, R p.1.body.text (block p.1).toList) →
    Splices R (start + utf8Length arguments.text) rest edits result →
    Splices R start (arguments.text ++ rest) (blockEdits block (arguments.placed start) ++ edits)
      (arguments.textWith (fun m => (block m).toList) ++ result)
  | .none gap, _, _, _, _, _, h => h.prepend
  | .last gap argument space, start, rest, result, edits, hblock, h => by
    have hbehind : Splices R (start + utf8Length gap + utf8Length argument.text)
        (space ++ [')'] ++ rest) edits (space ++ [')'] ++ result) :=
      .prepend (by simpa [ArgumentsLayout.text, utf8Length, Nat.add_assoc] using h)
    have hargument := ExprLayout.splices_textWith (e := argument) hblock hbehind
    simpa [ArgumentsLayout.text, ArgumentsLayout.textWith, ArgumentsLayout.placed]
      using hargument.prepend
  | .more gap argument space others, start, rest, result, edits, hblock, h => by
    have hbehind : Splices R (start + utf8Length gap + utf8Length argument.text +
        utf8Length space + utf8Length [','] + utf8Length others.text) rest edits result := by
      simpa [ArgumentsLayout.text, utf8Length, Nat.add_assoc] using h
    have hothers := ArgumentsLayout.splices_textWith
      (fun p hp => hblock p (List.mem_append_right _ hp)) hbehind
    have hargument := ExprLayout.splices_textWith (e := argument)
      (fun p hp => hblock p (List.mem_append_left _ hp)) hothers.prepend.prepend
    simpa [ArgumentsLayout.text, ArgumentsLayout.textWith, ArgumentsLayout.placed, blockEdits]
      using hargument.prepend

end

end Splices

end MetricQuery
