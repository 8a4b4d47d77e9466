import MetricQuery.Proofs.Grammar.Metrics
import MetricQuery.Proofs.Query.Reads

/-!
# What is read from a text

Every metric term of an expression that is read from a text is legible: its names are made of
the characters of names, its window fits the pattern, and its filter list nests less deep than
the limits say.  All of that is known of the layout that the text has.

* `MetricLayout.Readable.legible`: the same for the metric query of a layout.
* `parse_legible`: the result, for a text under limits.
-/

namespace MetricQuery

open Text Grammar

/-- A metric term as it is read, with so many levels of nesting at hand.  An empty window is
as good as none. -/
structure MetricTerm.Legible (pattern : WindowPattern) (levels : Nat) (term : MetricTerm) :
    Prop where
  metric_ne : term.metric ≠ ""
  metricChars : ∀ c ∈ term.metric.toList, isMetricChar c = true
  head : Query.HeadReadable pattern term.aggregator (term.window.bind Query.nonEmpty?) term.metric
  block : term.block = [.wildcard] ∨
    ∃ depth, depth + 2 ≤ levels ∧ ∀ item ∈ term.block, item.Legible depth
  tags : ∀ tag ∈ term.groupBy, TagSpelled tag tag.toList
  calls : ∀ call ∈ term.functions, call.Readable

/-- All metric terms of the expression are legible. -/
def Expr.Legible (pattern : WindowPattern) (levels : Nat) (expr : Expr) : Prop :=
  ∀ term ∈ expr.metricTerms, term.Legible pattern levels

/-! ## Layouts -/

section Layouts

variable {pattern : WindowPattern}

/-- A window of blanks is as good as none. -/
theorem HeadLayout.Readable.headReadable {head : HeadLayout} {metric : List Char}
    (h : head.Readable pattern metric) :
    Query.HeadReadable pattern head.aggregator (head.window.bind Query.nonEmpty?)
      (String.ofList metric) := by
  cases head with
  | plain => exact .plain (by simpa [HeadLayout.Readable] using h)
  | aggregated aggregator => exact .aggregated (by simpa [HeadLayout.Readable] using h)
  | windowed aggregator window =>
    obtain ⟨hname, hparens, hpattern⟩ := h
    rw [HeadLayout.window, Option.bind_some]
    by_cases hempty : String.ofList (trim window) = ""
    · rw [hempty]
      exact .aggregated (by simpa using hname)
    · rw [Query.nonEmpty?_of_ne hempty]
      refine .windowed (by simpa using hname) hempty ?_ ?_ (by simpa using hpattern)
      · simpa using trimmed_trim window
      · simpa using fun c hc => hparens c (mem_of_mem_trim hc)

theorem MetricLayout.Readable.legible {m : MetricLayout} (h : m.Readable pattern) {levels : Nat}
    (hdepth : m.body.depth < levels) (start : Nat) : (m.term start).Legible pattern levels where
  metric_ne := by simpa [MetricLayout.term] using h.metric_ne
  metricChars := by simpa [MetricLayout.term] using h.metricChars
  head := h.head.headReadable
  block := (BodyLayout.legible h.body _).imp_right fun ⟨depth, hlevels, hitems⟩ =>
    ⟨depth, by omega, hitems⟩
  tags := h.tags.forall_mem
  calls := h.calls.readable

end Layouts

/-! ## Texts under limits -/

/-- The expression that a text spells is the whole text, read under the pattern. -/
theorem exists_of_parse {text : String} {limits : Limits} {engine : PatternEngine} {expr : Expr}
    (h : parse text limits engine = .ok expr) :
    ∃ pattern, limits.window? engine = .ok pattern ∧
      wholeExpression pattern limits.maxDepth text.toList = .ok expr := by
  obtain ⟨pattern, hpattern, -, hlayout⟩ := parse_eq_ok_iff.1 h
  exact ⟨pattern, hpattern, (wholeExpression_eq_ok_iff _).2 hlayout⟩

/-- What a text spells under limits is legible. -/
theorem parse_legible {text : String} {limits : Limits} {engine : PatternEngine} {expr : Expr}
    (h : parse text limits engine = .ok expr) :
    ∃ pattern, limits.window? engine = .ok pattern ∧ expr.Legible pattern limits.maxDepth := by
  obtain ⟨pattern, hpattern, -, gap, e, after, -, -, -, he, hdepth, rfl⟩ := parse_eq_ok_iff.1 h
  refine ⟨pattern, hpattern, fun term hterm => ?_⟩
  rw [ExprLayout.metricTerms_expr] at hterm
  obtain ⟨⟨m, start⟩, hmem, rfl⟩ := List.mem_map.1 hterm
  obtain ⟨hm, hlevels, -⟩ := ExprLayout.exists_text_of_mem_placed he hmem
  exact hm.legible (Nat.lt_of_lt_of_le hlevels hdepth) start

/-- A query that is read from a text comes from a legible term. -/
theorem exists_term_of_parseQuery {text : String} {limits : Limits} {engine : PatternEngine}
    {q : Query} (h : parseQuery text limits engine = .ok (.metric q)) :
    ∃ pattern term, limits.window? engine = .ok pattern ∧ term.Legible pattern limits.maxDepth ∧
      Query.ofTerm term = .ok q := by
  rw [parseQuery] at h
  split at h
  · simp at h
  · next expr hparse =>
    obtain ⟨pattern, hpattern, hlegible⟩ := parse_legible hparse
    split at h
    · next term hterm =>
      obtain ⟨query, hquery, heq⟩ := bind_eq_ok_iff.1 h
      obtain rfl := ParsedQuery.metric.inj (Except.ok.inj heq)
      refine ⟨pattern, term, hpattern, hlegible term ?_, hquery⟩
      cases expr <;> simp_all [Expr.metricTerm?, Expr.metricTerms]
    · simp at h

end MetricQuery
