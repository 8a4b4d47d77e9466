import MetricQuery.Proofs.Query.Refused

/-!
# Filters that are written and read again

The text of one filter, in the block of a query, is read as one condition.  `Filter.Unmistakable`
says when it is a condition on the same key, with the same comparison and the same value; the
other filters are taken for something else, or refused.

* `parseQuery_written_filter_not`, `parseQuery_written_filter_sign` and
  `parseQuery_written_filter_ne_ok`: what becomes of a filter that is taken for something else.
* `parseQuery_written_filter_iff`: exactly the unmistakable filters are read as themselves.
* `parseQuery_render_filter`: the same of the rendered text.
-/

namespace MetricQuery

open Text Grammar

namespace Filter

/-- The text of the filter is no text of another comparison: its key is not taken for a negation,
and its value does not start with the sign of another comparison. -/
structure Unmistakable (f : Filter) : Prop where
  key : f.operation = some .noneOf → ¬ f.HasKey "NOT"
  value : f.operation = some .equal → ∀ v ∈ f.values, (emitted v).toList.head? ≠ some '~'

/-! ## What filters are read as -/

theorem normal_reread_of_unmistakable {f : Filter} (h : f.Unmistakable) :
    f.reread.normal = .leaf f.asEmitted := by
  rw [reread_eq_leaf h.key h.value]
  rfl

/-- The key `NOT` in front of `NOT IN` is read as a negation. -/
theorem normal_reread_of_not {f : Filter} (hop : f.operation = some .noneOf)
    (hkey : f.HasKey "NOT") :
    f.reread.normal =
      .group .and true [.leaf ((Filter.new "NOT").oneOf (f.values.map emitted))] := by
  simp [reread, hop, hkey, FilterTree.normal, FilterTree.normalUnder, asEmitted, oneOf]

/-- Behind a sign `~` the value is read as a pattern. -/
theorem normal_reread_of_sign {f : Filter} {v : String} {pattern : List Char}
    (hop : f.operation = some .equal) (hv : f.values = [v])
    (htext : (emitted v).toList = '~' :: pattern) (htoken : IsToken pattern) :
    f.reread.normal = .leaf ((Filter.new f.key).regex (String.ofList pattern)) := by
  have hemitted : emitted (String.ofList pattern) = String.ofList pattern :=
    emitted_eq_self (by simpa using htoken)
  simp [reread, hop, hv, htext, FilterTree.normal, FilterTree.normalUnder, asEmitted, regex,
    hemitted]

/-- The text of an equality with a sign `~` in front of its value. -/
theorem written_of_sign {f : Filter} {v : String} {pattern : List Char}
    (hop : f.operation = some .equal) (hv : f.values = [v])
    (htext : (emitted v).toList = '~' :: pattern) :
    f.written.toList = f.key.toList ++ ':' :: '~' :: pattern := by
  simp [written, hop, write, hv, htext]

/-- Behind the sign `~` a value has value characters only. -/
theorem isValueChar_of_sign {v : String} {pattern : List Char} (hv : v ≠ "")
    (htext : (emitted v).toList = '~' :: pattern) : ∀ c ∈ pattern, isValueChar c = true := by
  have htoken := isToken_emitted hv
  rw [htext] at htoken
  rcases htoken with hliteral | ⟨-, hbare⟩
  · simp [isLiteral, isQuote] at hliteral
  · simp only [isBare, List.all_cons, Bool.and_eq_true, List.all_eq_true] at hbare
    exact hbare.2.2

end Filter

/-! ## Queries of one filter -/

/-- The query with the metric `m` and one filter or group. -/
def Query.ofTree (tree : FilterTree) : Query :=
  { metric := "m", filterList := [tree] }

namespace Query

/-- Limits that leave room for the text of a query, under the default pattern, leave room for
reading it. -/
theorem exists_window {q : Query} {limits : Limits} {engine : PatternEngine}
    (hengine : engine.ReadsDefault) (h : q.Complete)
    (hpattern : limits.windowPattern = defaultWindowPattern)
    (hlength : q.written.utf8ByteSize ≤ limits.maxLength)
    (hdepth : q.written.utf8ByteSize ≤ limits.maxDepth) :
    ∃ pattern, limits.window? engine = .ok pattern ∧
      blockNesting q.filterList + 2 ≤ limits.maxDepth := by
  have hroom := blockNesting_add_two_le h.metric_ne h.trees
  obtain ⟨pattern, hcompile⟩ := Option.isSome_iff_exists.1 hengine
  exact ⟨pattern, Limits.window?_eq_ok_iff.2 ⟨by omega, by omega, by rw [hpattern, hcompile]⟩,
    Nat.le_trans hroom hdepth⟩

theorem written_ofTree_leaf (f : Filter) :
    (ofTree (.leaf f)).written = "m\x7b" ++ f.written ++ "\x7d" := by
  rw [ofTree, written_ofBlock]
  rfl

theorem readable_ofTree_leaf (pattern : WindowPattern) {f : Filter} (h : f.Complete) :
    (ofTree (.leaf f)).Readable pattern :=
  readable_ofBlock pattern (by simpa using FilterTree.Complete.leaf h)

theorem complete_ofTree_leaf {f : Filter} (h : f.Complete) : (ofTree (.leaf f)).Complete :=
  ⟨by simp [ofTree], by simpa [ofTree] using FilterTree.Complete.leaf h, by simp [ofTree]⟩

end Query

section OneFilter

variable {f : Filter} {limits : Limits} {engine : PatternEngine} {v : String} {pattern : List Char}
  (hengine : engine.ReadsDefault) (hcomplete : f.Complete)
  (hpattern : limits.windowPattern = defaultWindowPattern)
  (hlength : (Query.ofTree (.leaf f)).written.utf8ByteSize ≤ limits.maxLength)
  (hdepth : (Query.ofTree (.leaf f)).written.utf8ByteSize ≤ limits.maxDepth)

include hengine hcomplete hpattern hlength hdepth

/-- A readable filter is read as its normal form. -/
theorem parseQuery_written_filter (hread : f.Rereadable) :
    parseQuery (Query.ofTree (.leaf f)).written limits engine =
      .ok (.metric (.ofTree f.reread.normal)) := by
  obtain ⟨window, hwindow, hroom⟩ :=
    Query.exists_window hengine (Query.complete_ofTree_leaf hcomplete) hpattern hlength hdepth
  have hblock : BlockRereadable (Query.ofTree (.leaf f)).filterList := by
    simpa [BlockRereadable, Query.ofTree, FilterTree.isGroup, FilterTree.Rereadable] using hread
  rw [parseQuery_written hwindow (Query.readable_ofTree_leaf window hcomplete) hblock hlength
    hroom]
  rfl

/-- With the key `NOT` and `NOT IN` the negation of another filter is read. -/
theorem parseQuery_written_filter_not (hop : f.operation = some .noneOf) (hkey : f.HasKey "NOT") :
    parseQuery (Query.ofTree (.leaf f)).written limits engine =
      .ok (.metric (.ofTree (.group .and true
        [.leaf ((Filter.new "NOT").oneOf (f.values.map Filter.emitted))]))) := by
  rw [parseQuery_written_filter hengine hcomplete hpattern hlength hdepth
    (by simp [Filter.Rereadable, hop]), Filter.normal_reread_of_not hop hkey]

/-- Behind a sign `~` at the start of a value a pattern is read. -/
theorem parseQuery_written_filter_sign (hop : f.operation = some .equal) (hv : f.values = [v])
    (htext : (Filter.emitted v).toList = '~' :: pattern) (htoken : IsToken pattern) :
    parseQuery (Query.ofTree (.leaf f)).written limits engine =
      .ok (.metric (.ofTree (.leaf ((Filter.new f.key).regex (String.ofList pattern))))) := by
  have hread : f.Rereadable := by
    intro _ u hu other hother
    obtain rfl : u = v := by simpa [hv] using hu
    rw [htext] at hother
    exact (List.cons.inj hother).2 ▸ htoken
  rw [parseQuery_written_filter hengine hcomplete hpattern hlength hdepth hread,
    Filter.normal_reread_of_sign hop hv htext htoken]

/-- Where what follows the sign is no value, nothing is read. -/
theorem parseQuery_written_filter_ne_ok (hop : f.operation = some .equal) (hv : f.values = [v])
    (htext : (Filter.emitted v).toList = '~' :: pattern) (htoken : ¬ IsToken pattern)
    (result : ParsedQuery) :
    parseQuery (Query.ofTree (.leaf f)).written limits engine ≠ .ok result := by
  obtain ⟨window, hwindow, hroom⟩ :=
    Query.exists_window hengine (Query.complete_ofTree_leaf hcomplete) hpattern hlength hdepth
  obtain ⟨levels, hlevels⟩ : ∃ levels, limits.maxDepth = levels + 1 :=
    ⟨limits.maxDepth - 1, by omega⟩
  have hreadable := Query.readable_ofTree_leaf window hcomplete
  refine parseQuery_written_ne_ok_of_refuses hwindow hlevels hreadable ?_ result
  have hchars := Filter.isValueChar_of_sign (hcomplete.value_ne v (by simp [hv])) htext
  have hrefused := blockItems_refuses_pattern (.inr rfl) hcomplete.key_toList_ne
    hcomplete.keyChars hchars htoken levels
  have htail : (Query.ofTree (.leaf f)).tailText.tail =
      f.key.toList ++ ':' :: '~' :: (pattern ++ ['\x7d']) := by
    simp [Query.tailText, Query.ofTree, Query.renderTags, FilterTree.writtenBlock_single,
      FilterTree.written, Filter.written_of_sign hop hv htext]
  obtain ⟨ch, key, hkey⟩ := List.exists_cons_of_ne_nil hcomplete.key_toList_ne
  have hch := hcomplete.keyChars ch (by simp [hkey])
  rw [htail]
  rw [hkey, List.cons_append] at hrefused ⊢
  refine blockBody_refuses_items (isBlank_eq_false_of_isKeyChar hch) ?_ hrefused
  rintro rfl
  exact absurd hch (by decide)

/-- Exactly the unmistakable filters are read as themselves. -/
theorem parseQuery_written_filter_iff :
    parseQuery (Query.ofTree (.leaf f)).written limits engine =
      .ok (.metric (.ofTree (.leaf f.asEmitted))) ↔ f.Unmistakable := by
  refine ⟨fun hread => ⟨fun hop hkey => ?_, fun hop u hu hsign => ?_⟩, fun h => ?_⟩
  · rw [parseQuery_written_filter_not hengine hcomplete hpattern hlength hdepth hop hkey] at hread
    simp [Query.ofTree] at hread
  · obtain ⟨v, hv⟩ : ∃ v, f.values = [v] := by
      simpa [Filter.Operation.isList] using Filter.values_of_complete hcomplete hop
    obtain rfl : u = v := by simpa [hv] using hu
    obtain ⟨pattern, htext⟩ := List.head?_eq_some_iff.1 hsign
    by_cases htoken : IsToken pattern
    · rw [parseQuery_written_filter_sign hengine hcomplete hpattern hlength hdepth hop hv htext
        htoken]
        at hread
      simp [Query.ofTree, Filter.regex, Filter.asEmitted, hop] at hread
    · exact parseQuery_written_filter_ne_ok hengine hcomplete hpattern hlength hdepth hop hv htext
        htoken
        _ hread
  · have hread : f.Rereadable := fun hop v hv pattern htext =>
      absurd (by rw [htext]; rfl) (h.value hop v hv)
    rw [parseQuery_written_filter hengine hcomplete hpattern hlength hdepth hread,
      Filter.normal_reread_of_unmistakable h]

end OneFilter

/-- A filter that can be written is read back, with its values as they are written, exactly if it
is unmistakable.  With `NOT IN` and the key `NOT` it comes back as the negation of another
filter, and an equality with a sign `~` in front of its value as a comparison with a pattern;
if what follows the sign is no value, the text is refused. -/
theorem parseQuery_render_filter {f : Filter} {text : String} {limits : Limits}
    {engine : PatternEngine} (hengine : engine.ReadsDefault) (h : f.render = .ok text)
    (hpattern : limits.windowPattern = defaultWindowPattern)
    (hlength : ("m\x7b" ++ text ++ "\x7d").utf8ByteSize ≤ limits.maxLength)
    (hdepth : ("m\x7b" ++ text ++ "\x7d").utf8ByteSize ≤ limits.maxDepth) :
    let read := parseQuery ("m\x7b" ++ text ++ "\x7d") limits engine
    (read = .ok (.metric (.ofTree (.leaf f.asEmitted))) ↔ f.Unmistakable) ∧
      (f.operation = some .noneOf → f.HasKey "NOT" →
        read = .ok (.metric (.ofTree (.group .and true
          [.leaf ((Filter.new "NOT").oneOf (f.values.map Filter.emitted))])))) ∧
      ∀ value pattern, f.operation = some .equal → f.values = [value] →
        (Filter.emitted value).toList = '~' :: pattern →
          (IsToken pattern → read = .ok (.metric (.ofTree (.leaf
            ((Filter.new f.key).regex (String.ofList pattern)))))) ∧
          (¬ IsToken pattern → ∀ result, read ≠ .ok result) := by
  obtain ⟨hcomplete, rfl⟩ := Filter.render_eq_ok_iff.1 h
  rw [← Query.written_ofTree_leaf] at hlength hdepth ⊢
  intro read
  refine ⟨parseQuery_written_filter_iff hengine hcomplete hpattern hlength hdepth,
    parseQuery_written_filter_not hengine hcomplete hpattern hlength hdepth, ?_⟩
  intro value pattern hop hv htext
  exact ⟨parseQuery_written_filter_sign hengine hcomplete hpattern hlength hdepth hop hv htext,
    parseQuery_written_filter_ne_ok hengine hcomplete hpattern hlength hdepth hop hv htext⟩

/-- The value `~x` is read as the pattern `x`, and the `b` behind the literal in `~"a"b` is
refused. -/
theorem parseQuery_render_filter_sign :
    let signed := (Filter.new "k").equal "~x"
    let opened := (Filter.new "k").equal "~\"a\"b"
    (signed.render = .ok "k:~x" ∧ ¬ signed.Unmistakable ∧
      parseQuery ("m\x7b" ++ "k:~x" ++ "\x7d") ≠
        .ok (.metric (.ofTree (.leaf signed.asEmitted))) ∧
      parseQuery ("m\x7b" ++ "k:~x" ++ "\x7d") =
        .ok (.metric (.ofTree (.leaf ((Filter.new "k").regex "x"))))) ∧
      opened.render = .ok "k:~\"a\"b" ∧
        ∀ result, parseQuery ("m\x7b" ++ "k:~\"a\"b" ++ "\x7d") ≠ .ok result := by
  intro signed opened
  have hsigned : signed.render = .ok "k:~x" := by decide +kernel
  have hopened : opened.render = .ok "k:~\"a\"b" := by decide +kernel
  have hmistaken : ¬ signed.Unmistakable := fun h => by
    refine h.value rfl "~x" (by decide) ?_
    decide +kernel
  have hroom : ("m\x7b" ++ "k:~x" ++ "\x7d").utf8ByteSize ≤ ({} : Limits).maxDepth := by
    decide +kernel
  have hroom' : ("m\x7b" ++ "k:~\"a\"b" ++ "\x7d").utf8ByteSize ≤ ({} : Limits).maxDepth := by
    decide +kernel
  have hlength : ({} : Limits).maxDepth ≤ ({} : Limits).maxLength := by decide
  obtain ⟨hiff, -, hread⟩ :=
    parseQuery_render_filter PatternEngine.readsDefault_basic hsigned rfl
      (Nat.le_trans hroom hlength) hroom
  obtain ⟨-, -, hrefused⟩ :=
    parseQuery_render_filter PatternEngine.readsDefault_basic hopened rfl
      (Nat.le_trans hroom' hlength) hroom'
  refine ⟨⟨hsigned, hmistaken, fun hsame => hmistaken (hiff.1 hsame), ?_⟩, hopened, ?_⟩
  · exact (hread "~x" ['x'] rfl rfl (by decide +kernel)).1 (.inr (by decide))
  · refine (hrefused "~\"a\"b" ['"', 'a', '"', 'b'] rfl rfl (by decide +kernel)).2 ?_
    rintro (hliteral | ⟨-, hbare⟩)
    · exact absurd hliteral (by decide)
    · exact absurd hbare (by decide)

end MetricQuery
