import MetricQuery.Proofs.Grammar.BlockExact

/-!
# Layouts of expressions

An expression together with its blanks, as `BlockLayout` has it for filter lists.  The text
of a layout, and the expression that is read from it at a place, are functions of the layout.

* `MetricLayout`, `ExprLayout` and `ArgumentsLayout`: metric queries, expressions and the
  arguments of calls.
* `rank`: operators that bind less tightly have the higher rank; an operator joins a left operand
  of at most its rank with a right one of less.
* `startsTerm`: the characters that an expression starts with.
* `opensWindow`: what stands behind an opening parenthesis is taken for a window, and not for
  the arguments of a call.
* `Readable`: every part of the layout is taken for what it is.
-/

namespace MetricQuery

open Text Grammar

/-! ## Metric queries -/

/-- What is written in front of the name of a metric. -/
inductive HeadLayout where
  | plain
  | aggregated (aggregator : List Char)
  | windowed (aggregator window : List Char)

namespace HeadLayout

def text : HeadLayout → List Char
  | .plain => []
  | .aggregated aggregator => aggregator ++ [':']
  | .windowed aggregator window => aggregator ++ '(' :: (window ++ [')', ':'])

def aggregator : HeadLayout → Option String
  | .plain => none
  | .aggregated aggregator => some (String.ofList aggregator)
  | .windowed aggregator _ => some (String.ofList aggregator)

def window : HeadLayout → Option String
  | .plain => none
  | .aggregated _ => none
  | .windowed _ window => some (String.ofList (trim window))

/-- In front of this metric name the head is taken for itself. -/
def Readable (pattern : WindowPattern) (metric : List Char) : HeadLayout → Prop
  | .plain => metric.head?.any isWordStart = true
  | .aggregated aggregator => isIdentifier aggregator = true
  | .windowed aggregator window =>
    isIdentifier aggregator = true ∧ (∀ c ∈ window, c ≠ '(' ∧ c ≠ ')') ∧
      pattern.occursIn (trim window) = true

end HeadLayout

/-- A metric query as it is written. -/
structure MetricLayout where
  head : HeadLayout
  metric : List Char
  body : BodyLayout
  groupBy : List String
  functions : List FunctionCall
  /-- The text of the group-by tags. -/
  tags : List Char
  /-- The text of the calls. -/
  calls : List Char

namespace MetricLayout

/-- What is written in front of the opening brace. -/
def front (m : MetricLayout) : List Char :=
  m.head.text ++ m.metric

def text (m : MetricLayout) : List Char :=
  m.front ++ '\x7b' :: (m.body.text ++ '\x7d' :: (m.tags ++ m.calls))

/-- The place behind the opening brace. -/
def opened (m : MetricLayout) (start : Nat) : Nat :=
  start + utf8Length m.front + utf8Length ['\x7b']

/-- The metric query whose text starts at a place. -/
def term (m : MetricLayout) (start : Nat) : MetricTerm where
  aggregator := m.head.aggregator
  window := m.head.window
  metric := String.ofList m.metric
  block := m.body.block (m.opened start)
  blockSpan := ⟨m.opened start, m.opened start + utf8Length m.body.text⟩
  groupBy := m.groupBy
  functions := m.functions
  span := ⟨start, start + utf8Length m.text⟩

/-- The metric query with another filter block. -/
def withBody (m : MetricLayout) (body : BodyLayout) : MetricLayout :=
  { m with body }

structure Readable (pattern : WindowPattern) (m : MetricLayout) : Prop where
  metric_ne : m.metric ≠ []
  metricChars : ∀ c ∈ m.metric, isMetricChar c = true
  head : m.head.Readable pattern m.metric
  body : m.body.Readable
  tags : TagsSpelled m.groupBy m.tags
  calls : CallsSpelled m.functions m.calls

end MetricLayout

/-! ## Expressions -/

/-- How tightly an operator binds; those of the higher rank bind less. -/
def Operator.rank : Operator → Nat
  | .add => 2
  | .sub => 2
  | .mul => 1
  | .div => 1

/-- Behind an opening parenthesis: is the next parenthesis a closing one with a colon? -/
def opensWindow : List Char → Bool
  | [] => false
  | c :: rest =>
    if c = ')' then rest.head? = some ':'
    else if c = '(' then false
    else opensWindow rest

mutual

/-- An expression as it is written. -/
inductive ExprLayout where
  | number (text : List Char)
  | literal (text : List Char)
  | word (name : List Char)
  | metric (metric : MetricLayout)
  | call (name : List Char) (arguments : ArgumentsLayout)
  | paren (gap : List Char) (inner : ExprLayout) (space : List Char)
  | binary (operator : Operator) (left : ExprLayout) (gap space : List Char)
      (right : ExprLayout)

/-- The arguments of a call as they are written, with the closing parenthesis. -/
inductive ArgumentsLayout where
  | none (gap : List Char)
  | last (gap : List Char) (argument : ExprLayout) (space : List Char)
  | more (gap : List Char) (argument : ExprLayout) (space : List Char)
      (others : ArgumentsLayout)

end

mutual

def ExprLayout.text : ExprLayout → List Char
  | .number text => text
  | .literal text => text
  | .word name => name
  | .metric m => m.text
  | .call name arguments => name ++ '(' :: arguments.text
  | .paren gap inner space => '(' :: (gap ++ (inner.text ++ (space ++ [')'])))
  | .binary operator left gap space right =>
    left.text ++ (gap ++ operator.symbol :: (space ++ right.text))

def ArgumentsLayout.text : ArgumentsLayout → List Char
  | .none gap => gap ++ [')']
  | .last gap argument space => gap ++ (argument.text ++ (space ++ [')']))
  | .more gap argument space others =>
    gap ++ (argument.text ++ (space ++ ',' :: others.text))

end

mutual

/-- The expression whose text starts at a place. -/
def ExprLayout.expr : ExprLayout → Nat → Expr
  | .number text, start => .number (String.ofList text) ⟨start, start + utf8Length text⟩
  | .literal text, start => .literal (String.ofList text) ⟨start, start + utf8Length text⟩
  | .word name, start => .word (String.ofList name) ⟨start, start + utf8Length name⟩
  | .metric m, start => .metric (m.term start)
  | .call name arguments, start =>
    let inside := start + utf8Length name + utf8Length ['(']
    .call (String.ofList name) (arguments.exprs inside)
      ⟨start, inside + utf8Length arguments.text⟩
  | .paren gap inner space, start =>
    let inside := start + utf8Length ['('] + utf8Length gap
    .paren (inner.expr inside)
      ⟨start, inside + utf8Length inner.text + utf8Length space + utf8Length [')']⟩
  | .binary operator left gap space right, start =>
    .join operator (left.expr start)
      (right.expr (start + utf8Length left.text + utf8Length gap +
        utf8Length [operator.symbol] + utf8Length space))

/-- The arguments whose text starts at a place. -/
def ArgumentsLayout.exprs : ArgumentsLayout → Nat → List Expr
  | .none _, _ => []
  | .last gap argument _, start => [argument.expr (start + utf8Length gap)]
  | .more gap argument space others, start =>
    argument.expr (start + utf8Length gap) ::
      others.exprs (start + utf8Length gap + utf8Length argument.text + utf8Length space +
        utf8Length [','])

end

mutual

/-- How many levels the expression takes. -/
def ExprLayout.depth : ExprLayout → Nat
  | .number _ => 1
  | .literal _ => 1
  | .word _ => 1
  | .metric m => m.body.depth + 1
  | .call _ arguments => arguments.depth + 1
  | .paren _ inner _ => inner.depth + 1
  | .binary _ left _ _ right => max left.depth right.depth

def ArgumentsLayout.depth : ArgumentsLayout → Nat
  | .none _ => 1
  | .last _ argument _ => argument.depth + 1
  | .more _ argument _ others => max (argument.depth + 1) others.depth

end

/-- The rank of the operator that is applied last; a term has none. -/
def ExprLayout.rank : ExprLayout → Nat
  | .binary operator _ _ _ _ => operator.rank
  | _ => 0

/-- Are there no arguments? -/
def ArgumentsLayout.isNone : ArgumentsLayout → Bool
  | .none _ => true
  | _ => false

mutual

/-- The expression is taken for itself; only among arguments may words stand in it. -/
def ExprLayout.Readable (pattern : WindowPattern) : ExprLayout → Bool → Prop
  | .number text, _ =>
    startsNumber text = true ∧ ∀ c ∈ text.tail, (c.isDigit || c = '.') = true
  | .literal text, _ => isLiteral text = true
  | .word name, inArguments => inArguments = true ∧ isIdentifier name = true
  | .metric m, _ => m.Readable pattern
  | .call name arguments, _ =>
    isIdentifier name = true ∧ arguments.Readable pattern ∧ opensWindow arguments.text = false
  | .paren gap inner space, inArguments =>
    Blanks gap ∧ inner.Readable pattern inArguments ∧ Blanks space
  | .binary operator left gap space right, inArguments =>
    left.Readable pattern inArguments ∧ left.rank ≤ operator.rank ∧ Blanks gap ∧ Blanks space ∧
      right.Readable pattern inArguments ∧ right.rank < operator.rank

/-- The arguments are taken for themselves. -/
def ArgumentsLayout.Readable (pattern : WindowPattern) : ArgumentsLayout → Prop
  | .none gap => Blanks gap
  | .last gap argument space =>
    Blanks gap ∧ argument.Readable pattern true ∧ Blanks space
  | .more gap argument space others =>
    Blanks gap ∧ argument.Readable pattern true ∧ Blanks space ∧ others.isNone = false ∧
      others.Readable pattern

end

/-! ## Places -/

/-- An expression spans its text. -/
theorem ExprLayout.span_expr : ∀ (e : ExprLayout) (start : Nat),
    (e.expr start).span = ⟨start, start + utf8Length e.text⟩
  | .number _, _ => rfl
  | .literal _, _ => rfl
  | .word _, _ => rfl
  | .metric _, _ => rfl
  | .call name arguments, start => by
    simp only [expr, text, Expr.span, utf8Length_append, utf8Length, Nat.add_assoc, Nat.add_zero]
  | .paren gap inner space, start => by
    simp only [expr, text, Expr.span, utf8Length_append, utf8Length, Nat.add_assoc, Nat.add_zero]
  | .binary operator left gap space right, start => by
    show Span.mk (left.expr start).span.start (right.expr _).span.stop = _
    simp only [text, span_expr left, span_expr right, utf8Length_append, utf8Length,
      Nat.add_assoc, Nat.add_zero]

/-! ## Ranks and starts -/

theorem isIdentifier_ne_nil {name : List Char} (h : isIdentifier name = true) : name ≠ [] := by
  rintro rfl
  simp [isIdentifier] at h

theorem isMetricChar_of_isIdentifier {name : List Char} (h : isIdentifier name = true) :
    ∀ c ∈ name, isMetricChar c = true := by
  cases name with
  | nil => simp
  | cons c name =>
    rw [isIdentifier, Bool.and_eq_true, List.all_eq_true] at h
    intro d hd
    rcases List.mem_cons.1 hd with rfl | hd
    · exact isMetricChar_of_isWordStart h.1
    · simp [isMetricChar, h.2 d hd]

theorem head?_isWordStart_of_isIdentifier {name : List Char} (h : isIdentifier name = true) :
    name.head?.any isWordStart = true := by
  cases name with
  | nil => simp [isIdentifier] at h
  | cons c name =>
    rw [isIdentifier, Bool.and_eq_true] at h
    simpa using h.1

theorem ExprLayout.rank_le (e : ExprLayout) : e.rank ≤ 2 := by
  cases e with
  | binary operator _ _ _ _ => cases operator <;> simp [rank, Operator.rank]
  | _ => exact Nat.zero_le 2

/-- What stands in front of an opening brace starts with a word. -/
theorem HeadLayout.Readable.text_start {pattern : WindowPattern} {head : HeadLayout}
    {metric : List Char} (h : head.Readable pattern metric) :
    (head.text ++ metric).head?.any isWordStart = true := by
  have hfront : ∀ {front : List Char} (behind : List Char), front.head?.any isWordStart = true →
      (front ++ behind).head?.any isWordStart = true := by
    intro front behind hfront
    cases front with
    | nil => simp at hfront
    | cons c front => simpa using hfront
  cases head with
  | plain => exact h
  | aggregated aggregator =>
    exact hfront _ (hfront _ (head?_isWordStart_of_isIdentifier h))
  | windowed aggregator window =>
    exact hfront _ (hfront _ (head?_isWordStart_of_isIdentifier h.1))

/-- A metric query starts with a word. -/
theorem MetricLayout.Readable.text_start {pattern : WindowPattern} {m : MetricLayout}
    (h : m.Readable pattern) : m.text.head?.any isWordStart = true := by
  have hstart := h.head.text_start
  rw [MetricLayout.text, MetricLayout.front]
  cases hfront : m.head.text ++ m.metric with
  | nil => simp [hfront] at hstart
  | cons c front => simpa [hfront] using hstart

/-- The characters that expressions start with. -/
def startsTerm (c : Char) : Bool :=
  c = '(' || isQuote c || c.isDigit || c = '-' || isWordStart c

/-- None of them is a blank or closes what the expression stands in. -/
theorem facts_of_startsTerm {c : Char} (h : startsTerm c = true) :
    isBlank c = false ∧ c ≠ ')' := by
  refine ⟨?_, by rintro rfl; exact absurd h (by decide)⟩
  simp only [startsTerm, Bool.or_eq_true, decide_eq_true_eq] at h
  rcases h with (((rfl | hquote) | hdigit) | rfl) | hword
  · decide
  · exact isBlank_eq_false_of_isQuote hquote
  · exact isBlank_eq_false_of_isKeyChar (by simp [isKeyChar, Char.isAlphanum, hdigit])
  · decide
  · exact (facts_of_isWordStart hword).1

theorem ExprLayout.head?_startsTerm {pattern : WindowPattern} :
    ∀ {e : ExprLayout} {inArguments : Bool}, e.Readable pattern inArguments →
      e.text.head?.any startsTerm = true
  | .number text, _, h => by
    obtain ⟨hstart, -⟩ := h
    cases text with
    | nil => simp [startsNumber] at hstart
    | cons c text =>
      rw [startsNumber, Bool.or_eq_true, Bool.and_eq_true] at hstart
      rcases hstart with hdigit | ⟨hminus, -⟩ <;> simp_all [ExprLayout.text, startsTerm]
  | .literal text, _, h => by
    have hquote := (isQuote_ends_of_isLiteral h).1
    cases text with
    | nil => simp at hquote
    | cons c text => simp_all [ExprLayout.text, startsTerm]
  | .word name, _, h => by
    have hword := head?_isWordStart_of_isIdentifier h.2
    cases name with
    | nil => simp at hword
    | cons c name => simp_all [ExprLayout.text, startsTerm]
  | .metric m, _, h => by
    have hword := MetricLayout.Readable.text_start h
    rw [ExprLayout.text]
    cases htext : m.text with
    | nil => simp [htext] at hword
    | cons c text => simp_all [startsTerm]
  | .call name arguments, _, h => by
    have hword := head?_isWordStart_of_isIdentifier h.1
    cases name with
    | nil => simp at hword
    | cons c name => simp_all [ExprLayout.text, startsTerm]
  | .paren gap inner space, _, _ => by simp [ExprLayout.text, startsTerm]
  | .binary operator left gap space right, _, h => by
    have hleft := head?_startsTerm h.1
    rw [ExprLayout.text]
    cases htext : left.text with
    | nil => simp [htext] at hleft
    | cons c text => simpa [htext] using hleft

/-- Whatever follows, an expression starts with no blank, and nothing is closed by it. -/
theorem ExprLayout.start {pattern : WindowPattern} {e : ExprLayout} {inArguments : Bool}
    (h : e.Readable pattern inArguments) (rest : List Char) :
    Stops isBlank (e.text ++ rest) ∧ (e.text ++ rest).head? ≠ some ')' := by
  have hhead := ExprLayout.head?_startsTerm h
  cases htext : e.text with
  | nil => simp [htext] at hhead
  | cons c tail =>
    obtain ⟨hblank, hclose⟩ := facts_of_startsTerm (c := c) (by simpa [htext] using hhead)
    exact ⟨stops_cons.2 hblank, by simpa using hclose⟩

/-! ## Levels -/

mutual

/-- Every level takes a character. -/
theorem ExprLayout.depth_le_length {pattern : WindowPattern} :
    ∀ {e : ExprLayout} {inArguments : Bool}, e.Readable pattern inArguments →
      e.depth ≤ e.text.length
  | .number text, _, h => by
    cases text with
    | nil => simp [ExprLayout.Readable, startsNumber] at h
    | cons c text => simp [ExprLayout.depth, ExprLayout.text]
  | .literal text, _, h => by
    cases text with
    | nil => simp [ExprLayout.Readable, isLiteral] at h
    | cons c text => simp [ExprLayout.depth, ExprLayout.text]
  | .word name, _, h => List.length_pos_iff.2 (isIdentifier_ne_nil h.2)
  | .metric m, _, h => by
    have hbody := BodyLayout.depth_le_length (MetricLayout.Readable.body h)
    simp only [ExprLayout.depth, ExprLayout.text, MetricLayout.text, List.length_append,
      List.length_cons]
    omega
  | .call name arguments, _, h => by
    have harguments := ArgumentsLayout.depth_le_length h.2.1
    simp only [ExprLayout.depth, ExprLayout.text, List.length_append, List.length_cons]
    omega
  | .paren gap inner space, _, h => by
    have hinner := ExprLayout.depth_le_length h.2.1
    simp only [ExprLayout.depth, ExprLayout.text, List.length_append, List.length_cons]
    omega
  | .binary operator left gap space right, _, h => by
    have hleft := ExprLayout.depth_le_length h.1
    have hright := ExprLayout.depth_le_length h.2.2.2.2.1
    simp only [ExprLayout.depth, ExprLayout.text, List.length_append, List.length_cons]
    omega

theorem ArgumentsLayout.depth_le_length {pattern : WindowPattern} :
    ∀ {arguments : ArgumentsLayout}, arguments.Readable pattern →
      arguments.depth ≤ arguments.text.length
  | .none gap, _ => by simp [ArgumentsLayout.depth, ArgumentsLayout.text]
  | .last gap argument space, h => by
    have hargument := ExprLayout.depth_le_length h.2.1
    simp only [ArgumentsLayout.depth, ArgumentsLayout.text, List.length_append,
      List.length_cons]
    omega
  | .more gap argument space others, h => by
    have hargument := ExprLayout.depth_le_length h.2.1
    have hothers := ArgumentsLayout.depth_le_length h.2.2.2.2
    simp only [ArgumentsLayout.depth, ArgumentsLayout.text, List.length_append,
      List.length_cons]
    omega

end

mutual

theorem ExprLayout.depth_pos : ∀ e : ExprLayout, 0 < e.depth
  | .number _ => Nat.one_pos
  | .literal _ => Nat.one_pos
  | .word _ => Nat.one_pos
  | .metric _ => Nat.succ_pos _
  | .call _ _ => Nat.succ_pos _
  | .paren _ _ _ => Nat.succ_pos _
  | .binary _ left _ _ _ => Nat.lt_of_lt_of_le left.depth_pos (Nat.le_max_left _ _)

theorem ArgumentsLayout.depth_pos : ∀ arguments : ArgumentsLayout, 0 < arguments.depth
  | .none _ => Nat.one_pos
  | .last _ _ _ => Nat.succ_pos _
  | .more _ _ _ _ => Nat.lt_of_lt_of_le (Nat.succ_pos _) (Nat.le_max_left _ _)

end

/-! ## Windows -/

/-- The next parenthesis decides: what is a window stays one whatever follows. -/
theorem opensWindow_append {text : List Char} (rest : List Char) (h : opensWindow text = true) :
    opensWindow (text ++ rest) = true := by
  induction text with
  | nil => simp [opensWindow] at h
  | cons c text ih =>
    rw [opensWindow] at h
    rw [List.cons_append, opensWindow]
    split at h
    · next hclose =>
      rw [if_pos hclose]
      cases text with
      | nil => simp at h
      | cons d text => simpa using h
    · next hclose =>
      rw [if_neg hclose]
      split at h
      · simp at h
      · next hopen =>
        rw [if_neg hopen]
        exact ih h

/-- Behind a closing parenthesis only a colon right there makes a difference. -/
theorem opensWindow_append_of_ne {text rest : List Char} (hclose : ')' ∈ text)
    (hrest : rest.head? ≠ some ':') : opensWindow (text ++ rest) = opensWindow text := by
  induction text with
  | nil => simp at hclose
  | cons c text ih =>
    rw [List.cons_append, opensWindow, opensWindow]
    by_cases hc : c = ')'
    · rw [if_pos hc, if_pos hc]
      cases text with
      | nil => simpa using hrest
      | cons d text => simp
    · rw [if_neg hc, if_neg hc]
      by_cases hopen : c = '('
      · rw [if_pos hopen, if_pos hopen]
      · rw [if_neg hopen, if_neg hopen]
        exact ih ((List.mem_cons.1 hclose).resolve_left (Ne.symm hc))

theorem ArgumentsLayout.close_mem_text : ∀ arguments : ArgumentsLayout, ')' ∈ arguments.text
  | .none gap => by simp [text]
  | .last gap argument space => by simp [text]
  | .more gap argument space others => by simp [text, close_mem_text others]

end MetricQuery
