import MetricQuery.Proofs.FilterTree.FromText
import MetricQuery.Proofs.Query.RoundTrip
import MetricQuery.Proofs.Query.Legible

/-!
# Queries that are read, written and read again

What is read from a text can be written again.  `Query.FromText` says what such a query is
like: all its parts but the filters are read as they are written, and the filters come from a
text.

* `parseQuery_render_fixed`: with plain filters one pass of reading and writing reaches a fixed
  point, and the text nests at most twice as deep as the first one.
-/

namespace MetricQuery

open Text Grammar

namespace Query

/-- A query as it is read under a pattern, with so many levels of nesting at hand. -/
structure FromText (pattern : WindowPattern) (levels : Nat) (q : Query) : Prop where
  readable : q.Readable pattern
  trees : ∃ depth, ∀ t ∈ q.filterList, t.FromText depth
  nesting : blockNesting q.filterList + 2 ≤ 2 * levels

theorem fromText_filters {pattern : WindowPattern} {levels : Nat} {term : MetricTerm}
    {trees : List FilterTree} (hlevels : 0 < levels) (hterm : term.Legible pattern levels)
    (h : FilterTree.ofBlock term.block = .ok trees) :
    (∃ depth, ∀ t ∈ trees, t.FromText depth) ∧ blockNesting trees + 2 ≤ 2 * levels := by
  rcases hterm.block with hblock | ⟨depth, hdepth, hitems⟩
  · rw [hblock] at h
    obtain rfl : trees = [] := (Except.ok.inj (show Except.ok [] = Except.ok trees from h)).symm
    refine ⟨⟨0, by simp⟩, ?_⟩
    simp only [blockNesting, List.any_nil, Bool.false_eq_true, if_false]
    omega
  · have htrees := FilterTree.fromText_ofBlock h hitems
    have hnesting := FilterTree.blockNesting_le htrees
    exact ⟨⟨_, htrees⟩, by omega⟩

/-- What is read as a query can be written so that all but its filters is read as it is. -/
theorem fromText_ofTerm {pattern : WindowPattern} {levels : Nat} {term : MetricTerm} {q : Query}
    (hlevels : 0 < levels) (hterm : term.Legible pattern levels) (h : ofTerm term = .ok q) :
    q.FromText pattern levels := by
  obtain ⟨trees, htrees, heq⟩ := bind_eq_ok_iff.1 h
  obtain rfl := Except.ok.inj heq
  obtain ⟨hfilters, hnesting⟩ :=
    fromText_filters hlevels hterm (FilterTree.inContext_eq_ok_iff.1 htrees)
  refine ⟨⟨hterm.metric_ne, hterm.metricChars, ?_, ?_, hterm.tags, hterm.calls⟩, hfilters,
    hnesting⟩
  · show HeadReadable pattern (term.aggregator.bind nonEmpty?) (term.window.bind nonEmpty?) _
    rw [hterm.head.bind_nonEmpty?.1]
    exact hterm.head
  · obtain ⟨depth, hfilters⟩ := hfilters
    exact fun t ht => (hfilters t ht).complete

/-- The text of a query depends on its filters by the text of their block. -/
theorem written_of_block {q : Query} {trees : List FilterTree}
    (h : writtenBlock trees = writtenBlock q.filterList) :
    ({ q with filterList := trees } : Query).written = q.written := by
  rw [written, written, h]
  rfl

end Query

/-- Every query that is read from a text is one that comes from a text. -/
theorem parseQuery_fromText {text : String} {limits : Limits} {engine : PatternEngine} {q : Query}
    (h : parseQuery text limits engine = .ok (.metric q)) :
    ∃ pattern, limits.window? engine = .ok pattern ∧ q.FromText pattern limits.maxDepth := by
  obtain ⟨pattern, term, hpattern, hterm, hquery⟩ := exists_term_of_parseQuery h
  obtain ⟨-, hdepth, -⟩ := Limits.window?_eq_ok_iff.1 hpattern
  exact ⟨pattern, hpattern, Query.fromText_ofTerm hdepth hterm hquery⟩

/-- Reading and writing a query whose filters are plain reaches a fixed point: what is written
is read, under limits that leave room for twice the nesting, as a query with the same parts that
is written as the same text. -/
theorem parseQuery_render_fixed {text : String} {limits : Limits} {engine : PatternEngine}
    {q : Query} (h : parseQuery text limits engine = .ok (.metric q))
    (hkeys : ∀ t ∈ q.filterList, ∀ f ∈ t.filters, ¬ f.HasKey "NOT" ∧ ¬ f.HasKey "IN")
    (hvalues : ∀ t ∈ q.filterList, ∀ f ∈ t.filters, f.operation = some .equal →
      ∀ v ∈ f.values, v.toList.head? ≠ some '~') :
    ∃ written, q.render = .ok written ∧ ∀ limits' : Limits,
      limits'.windowPattern = limits.windowPattern →
      written.utf8ByteSize ≤ limits'.maxLength → 2 * limits.maxDepth ≤ limits'.maxDepth →
        ∃ q', parseQuery written limits' engine = .ok (.metric q') ∧ q'.metric = q.metric ∧
          q'.aggregator = q.aggregator ∧ q'.window = q.window ∧ q'.tags = q.tags ∧
          q'.functionList = q.functionList ∧ q'.render = .ok written := by
  obtain ⟨pattern, hpattern, hq⟩ := parseQuery_fromText h
  obtain ⟨depth, htrees⟩ := hq.trees
  have hplain : ∀ t ∈ q.filterList, ∀ f ∈ t.filters, f.Plain := by
    intro t ht f hf
    refine ⟨(hkeys t ht f hf).1, (hkeys t ht f hf).2, fun hop v hv => ?_⟩
    rw [Filter.emitted_eq_self (((htrees t ht).filters f hf).tokens v hv)]
    exact hvalues t ht f hf hop v hv
  refine ⟨q.written, Query.render_eq_ok_iff.2 ⟨hq.readable.complete, rfl⟩, ?_⟩
  intro limits' hsame hlength hdepth
  obtain ⟨hpos, hlevels, hcompile⟩ := Limits.window?_eq_ok_iff.1 hpattern
  have hroom := Query.blockNesting_add_two_le hq.readable.metric_ne hq.readable.trees
  have hnesting := hq.nesting
  have hpattern' : limits'.window? engine = .ok pattern :=
    Limits.window?_eq_ok_iff.2 ⟨by omega, by omega, by rw [hsame, hcompile]⟩
  have hread := parseQuery_written hpattern' hq.readable (blockRereadable_of_plain hplain) hlength
    (by omega)
  rw [FilterTree.rereadBlock_of_plain hplain] at hread
  obtain ⟨hcomplete, htext⟩ := FilterTree.writtenBlock_normalBlock htrees
  refine ⟨_, hread, rfl, rfl, rfl, rfl, rfl, ?_⟩
  exact Query.render_eq_ok_iff.2
    ⟨⟨hq.readable.metric_ne, hcomplete, hq.readable.complete.calls⟩,
      (Query.written_of_block htext).symm⟩

/-- The comma becomes an `AND`, and the exclamation mark a `NOT`. -/
theorem parseQuery_render_fixed_nested :
    let text :=
      "avg( 5m ):cpu\x7bNOT (host:web OR !up:~y), env IN (a, b)\x7d by \x7bx,y\x7d.f(1, g)"
    let written :=
      "avg(5m):cpu\x7b(NOT (host:web OR NOT up:~y) AND env IN (a,b))\x7d by \x7bx, y\x7d.f(1, g)"
    let q : Query :=
      { metric := "cpu"
        aggregator := some "avg"
        window := some "5m"
        filterList :=
          [.group .or true
            [.leaf ⟨"host", some .equal, ["web"]⟩,
              .group .and true [.leaf ⟨"up", some .regex, ["y"]⟩]],
            .leaf ⟨"env", some .oneOf, ["a", "b"]⟩]
        tags := ["x", "y"]
        functionList := [⟨"f", ["1", "g"]⟩] }
    parseQuery text { maxDepth := 3 } = .ok (.metric q) ∧ q.render = .ok written ∧
      ∃ q', parseQuery written { maxDepth := 6 } = .ok (.metric q') ∧ q'.metric = q.metric ∧
        q'.aggregator = q.aggregator ∧ q'.window = q.window ∧ q'.tags = q.tags ∧
        q'.functionList = q.functionList ∧ q'.render = .ok written := by
  intro text written q
  have hread : parseQuery text { maxDepth := 3 } = .ok (.metric q) := by decide +kernel
  have hwritten : q.render = .ok written := by decide +kernel
  obtain ⟨written', hrender, hreread⟩ := parseQuery_render_fixed hread (by decide +kernel)
    (by decide +kernel)
  obtain rfl : written' = written := Except.ok.inj (hrender.symm.trans hwritten)
  exact ⟨hread, hwritten, hreread { maxDepth := 6 } rfl (by decide +kernel) (by decide +kernel)⟩

end MetricQuery
