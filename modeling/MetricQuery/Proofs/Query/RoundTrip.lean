import MetricQuery.Proofs.Query.Reads

/-!
# Blocks that are written and read again

The text of a filter block, put behind a metric name, is a query whose filters are the normal
form of the block.  What the text needs of the limits is no more than its length: every
parenthesis that nests takes a byte.
-/

namespace MetricQuery

open Text Grammar

namespace Query

/-- A query has more bytes than its filters nest levels. -/
theorem blockNesting_add_two_le {q : Query} (hmetric : q.metric ≠ "")
    (htrees : ∀ t ∈ q.filterList, t.Complete) :
    blockNesting q.filterList + 2 ≤ q.written.utf8ByteSize := by
  have hblock := blockNesting_le_length htrees
  have hname : 0 < q.metric.toList.length := by
    rw [List.length_pos_iff]
    exact fun hempty => hmetric (String.toList_eq_nil_iff.1 hempty)
  have hbytes := length_le_utf8Length q.written.toList
  rw [← utf8ByteSize_eq, written_toList, tailText] at hbytes
  simp only [List.length_append, List.length_cons] at hbytes
  omega

/-- A metric name in front of a block. -/
theorem written_ofBlock (metric : String) (trees : List FilterTree) :
    ({ metric, filterList := trees } : Query).written =
      metric ++ "\x7b" ++ writtenBlock trees ++ "\x7d" := by
  simp [written, renderAggregator, renderTags, String.join]

theorem readable_ofBlock (pattern : WindowPattern) {trees : List FilterTree}
    (htrees : ∀ t ∈ trees, t.Complete) :
    ({ metric := "m", filterList := trees } : Query).Readable pattern where
  metric_ne := by simp
  metricChars := by simp [isMetricChar, isWordChar]
  head := .plain (show "m".toList.head?.any isWordStart = true by decide)
  trees := htrees
  tags := by simp
  calls := by simp

end Query

/-- A block that can be written is read back as its normal form, in a query for the metric `m`,
wherever the text is within the limits.  Its filters may not have keys that are keywords of a
condition, nor values with the sign of another comparison. -/
theorem parseQuery_renderBlock {trees : List FilterTree} {block : String} {limits : Limits}
    {engine : PatternEngine} (hengine : engine.ReadsDefault)
    (hblock : renderBlock trees = .ok block) (hplain : ∀ t ∈ trees, ∀ f ∈ t.filters, f.Plain)
    (hpattern : limits.windowPattern = defaultWindowPattern)
    (hlength : ("m\x7b" ++ block ++ "\x7d").utf8ByteSize ≤ limits.maxLength)
    (hdepth : ("m\x7b" ++ block ++ "\x7d").utf8ByteSize ≤ limits.maxDepth) :
    parseQuery ("m\x7b" ++ block ++ "\x7d") limits engine =
      .ok (.metric { metric := "m", filterList := normalBlock trees }) := by
  obtain ⟨htrees, rfl⟩ := renderBlock_eq_ok_iff.1 hblock
  have htext : "m\x7b" ++ writtenBlock trees ++ "\x7d" =
      ({ metric := "m", filterList := trees } : Query).written := by
    rw [Query.written_ofBlock]
    rfl
  rw [htext] at hlength hdepth ⊢
  have hnesting := Query.blockNesting_add_two_le
    (show ({ metric := "m", filterList := trees } : Query).metric ≠ "" by simp) htrees
  obtain ⟨pattern, hcompile⟩ := Option.isSome_iff_exists.1 hengine
  have hwindow : limits.window? engine = .ok pattern :=
    Limits.window?_eq_ok_iff.2 ⟨by omega, by omega, by rw [hpattern, hcompile]⟩
  have hread := parseQuery_written hwindow (Query.readable_ofBlock pattern htrees)
    (blockRereadable_of_plain hplain) hlength (Nat.le_trans hnesting hdepth)
  rw [hread, FilterTree.rereadBlock_of_plain hplain]

/-- The block `host:"a b", NOT (NOT env NOT IN (x) OR up:~y)` as it is written. -/
theorem parseQuery_renderBlock_nested :
    let trees : List FilterTree :=
      [.leaf ⟨"host", some .equal, ["a b"]⟩,
        .group .or true
          [.group .and true [.group .or false [.leaf ⟨"env", some .noneOf, ["x"]⟩]],
            .leaf ⟨"up", some .regex, ["y"]⟩]]
    let block := "(host:\"a b\" AND NOT (NOT env NOT IN (x) OR up:~y))"
    renderBlock trees = .ok block ∧ (∀ t ∈ trees, ∀ f ∈ t.filters, f.Plain) ∧
      parseQuery ("m\x7b" ++ block ++ "\x7d") = .ok (.metric { metric := "m", filterList :=
        [.group .and false
          [.leaf ⟨"host", some .equal, ["\"a b\""]⟩,
            .group .or true
              [.group .and true [.leaf ⟨"env", some .noneOf, ["x"]⟩],
                .leaf ⟨"up", some .regex, ["y"]⟩]]] }) := by
  intro trees block
  have hblock : renderBlock trees = .ok block := by decide +kernel
  have hplain : ∀ t ∈ trees, ∀ f ∈ t.filters, f.Plain := by decide +kernel
  refine ⟨hblock, hplain, ?_⟩
  rw [parseQuery_renderBlock PatternEngine.readsDefault_basic hblock hplain rfl
    (by decide +kernel) (by decide +kernel)]
  decide +kernel

end MetricQuery
