import MetricQuery.Proofs.FilterTree.Normal
import MetricQuery.Proofs.Grammar.ExprExact
import MetricQuery.Query.Parsed

/-!
# Reading written queries

The text of a query is one metric term, and reading it gives the query back with its filters
in normal form.  `Query.Readable` says what the parts of the query have to be like for that:
the classes of characters that names are made of, a window that fits the pattern, tags and
calls that stand for themselves.

* `exists_body_of_written` and `Query.Readable.exists_layout`: a written block and a written query
  have layouts, so that what is read from them is known.
* `Query.term_written`: what stands in front of the opening brace does not depend on the rest.
* `parseQuery_written`: what reading gives, filters included.
-/

namespace MetricQuery

open Text Grammar BlockItem

/-! ## Blocks -/

/-- The text of a block has a layout with the items of the block. -/
theorem exists_body_of_written {trees : List FilterTree} (hcomplete : ∀ t ∈ trees, t.Complete)
    (hread : BlockRereadable trees) :
    ∃ body : BodyLayout, body.Readable ∧ body.depth ≤ blockNesting trees + 1 ∧
      body.text = (writtenBlock trees).toList ∧
      ∀ start, Agree (body.block start) (blockOperands trees) := by
  cases trees with
  | nil => exact ⟨.wildcard [] [], ⟨blanks_nil, blanks_nil⟩, Nat.zero_le _, rfl, fun _ => .refl _⟩
  | cons t more =>
    obtain ⟨list, hlist, hdepth, htext, hagree⟩ := hasLayouts_listSpelled _
      (blockSpelled (by simp) hcomplete hread (Nat.le_refl (blockNesting (t :: more))))
    exact ⟨.items list, hlist, hdepth, htext,
      fun start => (agree_body start 0 (.items list)).trans hagree.symm⟩

/-! ## Terms -/

namespace Query

/-- The term is what the text of the query is read as. -/
structure Matches (q : Query) (term : MetricTerm) : Prop where
  aggregator : term.aggregator = q.aggregator
  window : term.window = q.window
  metric : term.metric = q.metric
  block : Agree term.block (blockOperands q.filterList)
  groupBy : term.groupBy = q.tags
  functions : term.functions = q.functionList

/-- What stands in front of the filter block is read as it is written.  Without an aggregator
the metric comes first, and there is no window. -/
inductive HeadReadable (pattern : WindowPattern) : Option String → Option String → String → Prop
    where
  | plain {metric : String} (hstart : metric.toList.head?.any isWordStart = true) :
      HeadReadable pattern none none metric
  | aggregated {aggregator metric : String} (hname : isIdentifier aggregator.toList = true) :
      HeadReadable pattern (some aggregator) none metric
  | windowed {aggregator window metric : String}
      (hname : isIdentifier aggregator.toList = true) (hne : window ≠ "")
      (htrimmed : Trimmed window.toList) (hparens : ∀ c ∈ window.toList, c ≠ '(' ∧ c ≠ ')')
      (hpattern : pattern.occursIn window.toList = true) :
      HeadReadable pattern (some aggregator) (some window) metric

/-- Every part of the query is read as it is written, but for its filters. -/
structure Readable (pattern : WindowPattern) (q : Query) : Prop where
  metric_ne : q.metric ≠ ""
  metricChars : ∀ c ∈ q.metric.toList, isMetricChar c = true
  head : HeadReadable pattern q.aggregator q.window q.metric
  trees : ∀ t ∈ q.filterList, t.Complete
  tags : ∀ tag ∈ q.tags, TagSpelled tag tag.toList
  calls : ∀ call ∈ q.functionList, call.Readable

theorem Readable.complete {pattern : WindowPattern} {q : Query} (h : q.Readable pattern) :
    q.Complete :=
  ⟨h.metric_ne, h.trees, fun call hcall => (h.calls call hcall).name_ne⟩

/-- The text of a query from its opening brace on. -/
def tailText (q : Query) : List Char :=
  '\x7b' :: ((writtenBlock q.filterList).toList ++ '\x7d' :: (q.renderTags.toList ++
    (String.join (q.functionList.map FunctionCall.written)).toList))

theorem written_toList (q : Query) :
    q.written.toList = q.renderAggregator.toList ++ (q.metric.toList ++ q.tailText) := by
  simp [written, tailText]

section Terms

variable {pattern : WindowPattern} {q : Query}

theorem ne_empty_of_isIdentifier {name : String} (h : isIdentifier name.toList = true) :
    name ≠ "" := by
  rintro rfl
  exact isIdentifier_ne_nil h rfl

theorem nonEmpty?_of_ne {text : String} (h : text ≠ "") : nonEmpty? text = some text := by
  simp [nonEmpty?, String.isEmpty_iff, h]

/-- What is written in front of the metric name is not empty where it is given. -/
theorem HeadReadable.bind_nonEmpty? {aggregator window : Option String} {metric : String}
    (h : HeadReadable pattern aggregator window metric) :
    aggregator.bind nonEmpty? = aggregator ∧ window.bind nonEmpty? = window := by
  cases h with
  | plain _ => exact ⟨rfl, rfl⟩
  | aggregated hname => exact ⟨nonEmpty?_of_ne (ne_empty_of_isIdentifier hname), rfl⟩
  | windowed hname hne _ _ _ =>
    exact ⟨nonEmpty?_of_ne (ne_empty_of_isIdentifier hname), nonEmpty?_of_ne hne⟩

/-- What is written in front of the metric name has a layout. -/
theorem Readable.exists_head (h : q.Readable pattern) :
    ∃ head : HeadLayout, head.Readable pattern q.metric.toList ∧
      head.aggregator = q.aggregator ∧ head.window = q.window ∧
      head.text = q.renderAggregator.toList := by
  have hhead := h.head
  rw [renderAggregator]
  generalize q.aggregator = aggregator at hhead ⊢
  generalize q.window = window at hhead ⊢
  cases hhead with
  | plain hstart => exact ⟨.plain, hstart, rfl, rfl, by simp [HeadLayout.text]⟩
  | @aggregated aggregator _ hname =>
    have hne := nonEmpty?_of_ne (ne_empty_of_isIdentifier hname)
    exact ⟨.aggregated aggregator.toList, hname, by simp [HeadLayout.aggregator], rfl,
      by simp [HeadLayout.text, hne]⟩
  | @windowed aggregator window _ hname hwindow htrimmed hparens hpattern =>
    have hne := nonEmpty?_of_ne (ne_empty_of_isIdentifier hname)
    refine ⟨.windowed aggregator.toList window.toList, ⟨hname, hparens, ?_⟩,
      by simp [HeadLayout.aggregator], ?_,
      by simp [HeadLayout.text, hne, nonEmpty?_of_ne hwindow]⟩
    · rwa [trim_of_trimmed htrimmed]
    · rw [HeadLayout.window, trim_of_trimmed htrimmed, String.ofList_toList]

/-- The text of a query is read as a term, from its opening brace on. -/
theorem term_written (h : q.Readable pattern) (items : Reader (List BlockItem))
    (inner : Reader Expr) (arguments : Reader (List Expr)) (inArguments : Bool) (offset : Nat)
    (rest : List Char) :
    ∃ stop, term pattern items inner arguments inArguments ⟨q.written.toList ++ rest, offset⟩ =
      metricTail items offset q.aggregator q.window q.metric ⟨q.tailText ++ rest, stop⟩ := by
  obtain ⟨head, hhead, haggregator, hwindow, hfront⟩ := h.exists_head
  have htext : q.written.toList ++ rest =
      head.text ++ q.metric.toList ++ (q.tailText ++ rest) := by
    simp [written_toList, hfront]
  refine ⟨offset + utf8Length head.text + utf8Length q.metric.toList, ?_⟩
  rw [htext, term_of_isWordStart hhead.text_start, List.append_assoc, tailText, List.cons_append,
    wordTerm_takes_front hhead (by simpa using h.metric_ne) h.metricChars, haggregator, hwindow,
    String.ofList_toList]

/-- The text of a query has a layout that is read as the query. -/
theorem Readable.exists_layout (h : q.Readable pattern) (hread : BlockRereadable q.filterList) :
    ∃ m : MetricLayout, m.Readable pattern ∧ m.body.depth ≤ blockNesting q.filterList + 1 ∧
      m.text = q.written.toList ∧ q.Matches (m.term 0) := by
  obtain ⟨head, hhead, haggregator, hwindow, hfront⟩ := h.exists_head
  obtain ⟨body, hbody, hdepth, htext, hagree⟩ := exists_body_of_written h.trees hread
  refine ⟨⟨head, q.metric.toList, body, q.tags, q.functionList, q.renderTags.toList,
      (String.join (q.functionList.map FunctionCall.written)).toList⟩,
    ⟨by simpa using h.metric_ne, h.metricChars, hhead, hbody, tagsSpelled_written h.tags,
      callsSpelled_written h.calls⟩, hdepth, ?_,
    ⟨haggregator, hwindow, String.ofList_toList, hagree _, rfl, rfl⟩⟩
  simp [MetricLayout.text, MetricLayout.front, written_toList, tailText, hfront, htext]

end Terms

end Query

/-! ## Texts under limits -/

/-- The text of a readable metric query is read as that query. -/
theorem parse_metric {text : String} {limits : Limits} {engine : PatternEngine}
    {pattern : WindowPattern} {m : MetricLayout} (hpattern : limits.window? engine = .ok pattern)
    (h : m.Readable pattern)
    (htext : text.toList = m.text) (hlength : text.utf8ByteSize ≤ limits.maxLength)
    (hdepth : m.body.depth < limits.maxDepth) :
    parse text limits engine = .ok (.metric (m.term 0)) :=
  parse_eq_ok_iff.2 ⟨pattern, hpattern, hlength, [], .metric m, [], blanks_nil, blanks_nil,
    by simp [ExprLayout.text, htext], h, hdepth, rfl⟩

/-- The written query is read as the same query, its filters in the form in which they are read
back. -/
theorem parseQuery_written {q : Query} {limits : Limits} {engine : PatternEngine}
    {pattern : WindowPattern} (hpattern : limits.window? engine = .ok pattern)
    (h : q.Readable pattern)
    (hread : BlockRereadable q.filterList) (hlength : q.written.utf8ByteSize ≤ limits.maxLength)
    (hdepth : blockNesting q.filterList + 2 ≤ limits.maxDepth) :
    parseQuery q.written limits engine =
      .ok (.metric { q with filterList := FilterTree.rereadBlock q.filterList }) := by
  obtain ⟨m, hm, hlevels, htext, hmatches⟩ := h.exists_layout hread
  have hparse := parse_metric hpattern hm htext.symm hlength (by omega)
  have hblock : FilterTree.ofBlock (m.term 0).block =
      .ok (FilterTree.rereadBlock q.filterList) := by
    rw [FilterTree.ofBlock_of_agree hmatches.block]
    exact FilterTree.ofBlock_blockOperands h.trees (rereadable_of_blockRereadable hread)
  obtain ⟨haggregator, hwindow⟩ := h.head.bind_nonEmpty?
  rw [parseQuery, hparse]
  simp only [Expr.metricTerm?, Query.ofTerm, MetricTerm.filters, hblock, inContext, bind,
    Except.bind, hmatches.aggregator, hmatches.window, hmatches.metric, hmatches.groupBy,
    hmatches.functions, haggregator, hwindow]
  rfl

end MetricQuery
