import MetricQuery.Query.Saved
import MetricQuery.Proofs.FilterTree.Saved
import MetricQuery.Proofs.Grammar.Nesting
import MetricQuery.Proofs.Json.Depth
import MetricQuery.Proofs.Query.Legible

/-!
# Saved queries

A query is restored from its saved form unless its filter trees are too high for it.

* `Query.restore_save` and `Query.restore_save_of_high`: the saved form of a query costs two
  levels of nesting, and two for every level of its filter trees.
* `Query.restore_save_iff_textDepth`: so a query is restored exactly if its saved form nests no
  deeper than saved forms may.
* `levels_lt_of_parseQuery`: a level of the text gives up to two levels of trees.
* `parseQuery_restore`: so a query that is read from a text is restored if the text nests at most
  a quarter as deep as saved forms may, and beyond that need not be.
-/

namespace MetricQuery

open Json

/-! ## Calls -/

namespace FunctionCall

theorem ofJson?_toJson (call : FunctionCall) : ofJson? call.toJson = some call := by
  have hfields : fields? ["name", "args"] call.toJson =
      some [some (text call.name), some (texts call.arguments)] :=
    fields?_record [("name", text call.name), ("args", texts call.arguments)]
      (show ["name", "args"].Nodup by decide) _
  simp only [ofJson?, hfields, required?, withDefault?, Option.bind_eq_bind, Option.bind_some,
    toText?, text, toList?_texts, Option.pure_def]

theorem plain_toJson (call : FunctionCall) : call.toJson.Plain := by
  rw [toJson, plain_record]
  simp

/-- The arguments of a call stand in an array. -/
theorem nesting_toJson (call : FunctionCall) : call.toJson.nesting = 2 := by
  simp [toJson, record, nesting, deepestMember, text]

end FunctionCall

/-! ## Queries -/

namespace Query

variable {q : Query}

theorem plain_toJson (q : Query) : q.toJson.Plain := by
  have hfilters : (Json.array (FilterTree.toJsonAll q.filterList)).Plain := by
    rw [FilterTree.toJsonAll_eq_map]
    exact allPlain_iff.2 (List.forall_mem_map.2 fun t _ => t.plain_toJson)
  have hcalls : (Json.array (q.functionList.map FunctionCall.toJson)).Plain :=
    allPlain_iff.2 (List.forall_mem_map.2 fun call _ => call.plain_toJson)
  rw [toJson, plain_record]
  simp [hfilters, hcalls]

theorem fields?_toJson (q : Query) :
    fields? ["metric", "aggregator", "time_window", "filters", "group_by", "functions"] q.toJson =
      some [some (text q.metric), some (optional q.aggregator), some (optional q.window),
        some (.array (FilterTree.toJsonAll q.filterList)), some (texts q.tags),
        some (.array (q.functionList.map FunctionCall.toJson))] :=
  fields?_record
    [("metric", text q.metric), ("aggregator", optional q.aggregator),
      ("time_window", optional q.window),
      ("filters", .array (FilterTree.toJsonAll q.filterList)), ("group_by", texts q.tags),
      ("functions", .array (q.functionList.map FunctionCall.toJson))]
    (show ["metric", "aggregator", "time_window", "filters", "group_by", "functions"].Nodup by
      decide) _

/-- All parts of a saved query but the filters are restored in any case. -/
theorem ofJson?_toJson (q : Query) :
    ofJson? q.toJson =
      (toList? (FilterTree.ofJson? (savedDepth - 2))
        (.array (FilterTree.toJsonAll q.filterList))).map fun trees =>
          { q with filterList := trees } := by
  have hcalls : toList? FunctionCall.ofJson?
      (.array (q.functionList.map FunctionCall.toJson)) = some q.functionList :=
    toList?_map fun call _ => call.ofJson?_toJson
  rw [ofJson?, fields?_toJson]
  simp only [withDefault?, Option.bind_eq_bind, Option.bind_some, toText?, text,
    toOptional?_optional, toList?_texts, hcalls, Option.pure_def]
  cases toList? (FilterTree.ofJson? (savedDepth - 2))
    (.array (FilterTree.toJsonAll q.filterList)) <;> rfl

/-- A query is restored if there is room for each of its trees in two levels. -/
theorem restore_save (h : ∀ t ∈ q.filterList, 2 * t.levels + 2 ≤ savedDepth) :
    restore q.save = .ok q := by
  have htrees : toList? (FilterTree.ofJson? (savedDepth - 2))
      (.array (FilterTree.toJsonAll q.filterList)) = some q.filterList := by
    rw [FilterTree.toJsonAll_eq_map]
    refine toList?_map fun t ht => ?_
    rw [FilterTree.ofJson?_toJson, if_pos]
    exact Nat.le_sub_of_add_le (h t ht)
  rw [restore, save, read?_render q.plain_toJson, Option.bind_some, ofJson?_toJson, htrees]
  rfl

/-- A query with a tree that is too high is not restored. -/
theorem restore_save_of_high {t : FilterTree} (ht : t ∈ q.filterList)
    (h : savedDepth < 2 * t.levels + 2) :
    restore q.save = .error (.saved "not the saved form of a query") := by
  have htrees : toList? (FilterTree.ofJson? (savedDepth - 2))
      (.array (FilterTree.toJsonAll q.filterList)) = none := by
    rw [FilterTree.toJsonAll_eq_map]
    refine toList?_map_eq_none ht ?_
    rw [FilterTree.ofJson?_toJson, if_neg]
    rw [savedDepth] at h ⊢
    omega
  rw [restore, save, read?_render q.plain_toJson, Option.bind_some, ofJson?_toJson, htrees]
  rfl

/-- The trees of a query decide whether its saved form has room; its calls always have it. -/
theorem nesting_toJson_le_iff (q : Query) :
    q.toJson.nesting ≤ savedDepth ↔ ∀ t ∈ q.filterList, 2 * t.levels + 2 ≤ savedDepth := by
  have hcalls : deepest (q.functionList.map FunctionCall.toJson) ≤ 2 := by
    refine deepest_le_iff.2 (List.forall_mem_map.2 fun call _ => ?_)
    exact Nat.le_of_eq call.nesting_toJson
  have hoptional : ∀ s : Option String, (Json.optional s).nesting = 0 := by
    intro s
    cases s <;> rfl
  have hnesting : q.toJson.nesting =
      max (2 * FilterTree.levelsAll q.filterList + 1)
        (max 1 (deepest (q.functionList.map FunctionCall.toJson) + 1)) + 1 := by
    simp only [toJson, record, List.map, Json.nesting, deepestMember, text, hoptional,
      FilterTree.deepest_toJsonAll, nesting_texts]
    omega
  have hlevels : ∀ t : FilterTree, 2 * t.levels + 2 ≤ savedDepth ↔
      t.levels ≤ (savedDepth - 2) / 2 := by
    intro t
    rw [savedDepth]
    omega
  rw [hnesting, forall₂_congr fun t _ => hlevels t, ← FilterTree.levelsAll_le_iff, savedDepth]
  omega

/-- Every query is restored from its saved form if that nests no deeper than saved forms may, and
otherwise the saved form is refused. -/
theorem restore_save_iff_textDepth (q : Query) :
    (restore q.save = .ok q ↔ textDepth q.save ≤ savedDepth) ∧
      (¬ textDepth q.save ≤ savedDepth →
        ∃ error, restore q.save = .error error ∧ error.kind = .serialization) := by
  have hdepth : textDepth q.save ≤ savedDepth ↔
      ∀ t ∈ q.filterList, 2 * t.levels + 2 ≤ savedDepth := by
    rw [save, textDepth_render q.plain_toJson, nesting_toJson_le_iff]
  have hrefused : ¬ textDepth q.save ≤ savedDepth →
      restore q.save = .error (.saved "not the saved form of a query") := by
    intro hdeep
    obtain ⟨t, hlevels⟩ := not_forall.1 fun hroom => hdeep (hdepth.2 hroom)
    obtain ⟨ht, hlevels⟩ := Classical.not_imp.1 hlevels
    exact restore_save_of_high ht (Nat.lt_of_not_le hlevels)
  refine ⟨⟨fun hrestored => ?_, fun hroom => restore_save (hdepth.1 hroom)⟩,
    fun hdeep => ⟨_, hrefused hdeep, rfl⟩⟩
  by_contra hdeep
  rw [hrefused hdeep] at hrestored
  simp at hrestored

end Query

/-! ## Queries that are read from a text -/

section Read

variable {text : String} {limits : Limits} {engine : PatternEngine} {q : Query}

/-- A level of the text gives up to two levels of trees. -/
theorem levels_lt_of_parseQuery (h : parseQuery text limits engine = .ok (.metric q)) :
    ∀ t ∈ q.filterList, t.levels < 2 * limits.maxDepth := by
  obtain ⟨pattern, term, -, hterm, hquery⟩ := exists_term_of_parseQuery h
  obtain ⟨trees, htrees, heq⟩ := bind_eq_ok_iff.1 hquery
  obtain rfl := Except.ok.inj heq
  have hblock := FilterTree.inContext_eq_ok_iff.1 htrees
  intro t ht
  rcases hterm.block with hwildcard | ⟨depth, hdepth, hitems⟩
  · rw [hwildcard] at hblock
    obtain rfl : [] = trees := Except.ok.inj hblock
    simp at ht
  · have hlevels := (FilterTree.fromText_ofBlock hblock hitems t ht).levels_le
    omega

/-- A query is read under every limit that its text keeps to. -/
theorem parseQuery_of_nesting_le {expr : Expr} {depth : Nat}
    (h : parseQuery text limits engine = .ok (.metric q))
    (hparse : parse text limits engine = .ok expr)
    (hpos : 0 < depth) (hnesting : expr.nesting ≤ depth) :
    parseQuery text { limits with maxDepth := depth } engine = .ok (.metric q) := by
  rw [parseQuery, hparse] at h
  rw [parseQuery, parse_of_nesting_le hparse hpos hnesting]
  cases hterm : expr.metricTerm? with
  | none => simp [hterm] at h
  | some term => simpa [hterm] using h

/-- A query that is read from a text is restored from its saved form exactly if its trees are not
too high for that, and they are not if the text nests at most a quarter as deep as saved forms
may. -/
theorem parseQuery_restore (h : parseQuery text limits engine = .ok (.metric q)) :
    (Query.restore q.save = .ok q ↔ ∀ t ∈ q.filterList, 2 * t.levels + 2 ≤ savedDepth) ∧
      (Query.restore q.save ≠ .ok q → ∃ error,
        Query.restore q.save = .error error ∧ error.kind = .serialization) ∧
      ∀ expr, parse text limits engine = .ok expr →
        (∀ t ∈ q.filterList, t.levels < 2 * expr.nesting) ∧
          (4 * expr.nesting ≤ savedDepth → Query.restore q.save = .ok q) := by
  have hhigh : ∀ {t : FilterTree}, t ∈ q.filterList → ¬ 2 * t.levels + 2 ≤ savedDepth →
      Query.restore q.save = .error (.saved "not the saved form of a query") :=
    fun ht hlevels => Query.restore_save_of_high ht (Nat.lt_of_not_le hlevels)
  refine ⟨⟨fun hrestored t ht => ?_, Query.restore_save⟩, fun hlost => ?_, fun expr hparse => ?_⟩
  · by_contra hlevels
    simp [hhigh ht hlevels] at hrestored
  · by_cases hlevels : ∀ t ∈ q.filterList, 2 * t.levels + 2 ≤ savedDepth
    · exact absurd (Query.restore_save hlevels) hlost
    · obtain ⟨t, hlevels⟩ := not_forall.1 hlevels
      obtain ⟨ht, hlevels⟩ := Classical.not_imp.1 hlevels
      exact ⟨_, hhigh ht hlevels, rfl⟩
  · have hread := parseQuery_of_nesting_le h hparse (Nat.succ_pos _) (Nat.le_refl expr.nesting)
    have hlevels : ∀ t ∈ q.filterList, t.levels < 2 * expr.nesting :=
      levels_lt_of_parseQuery hread
    refine ⟨hlevels, fun hroom => Query.restore_save fun t ht => ?_⟩
    have := hlevels t ht
    omega

end Read

/-- One level of nesting more than a quarter of what saved forms may have, and two groups for
every level of the text. -/
theorem parseQuery_restore_deep :
    let text := "m\x7b".toList ++ (List.replicate 30 "a:1, a:1 AND (".toList).flatten ++
      "a:1, a:1 AND NOT a:1".toList ++ List.replicate 30 ')' ++ ['\x7d']
    ∃ expr q error, parse (String.ofList text) = .ok expr ∧ expr.nesting = 32 ∧
      parseQuery (String.ofList text) = .ok (.metric q) ∧ Query.restore q.save = .error error ∧
      error.kind = .serialization := by
  -- for any text, since the characters of a long string take long to evaluate
  have hdeep : ∀ text, (parse text).toOption.bind (fun expr => expr.metricTerm?.bind fun term =>
      (Query.ofTerm term).toOption.map fun q =>
        (expr.nesting, q.filterList.map FilterTree.levels)) = some (32, [1, 63]) →
      ∃ expr q error, parse text = .ok expr ∧ expr.nesting = 32 ∧
        parseQuery text = .ok (.metric q) ∧ Query.restore q.save = .error error ∧
        error.kind = .serialization := by
    intro text hread
    obtain ⟨expr, hexpr, hread⟩ := Option.bind_eq_some_iff.1 hread
    obtain ⟨term, hterm, hread⟩ := Option.bind_eq_some_iff.1 hread
    obtain ⟨q, hquery, hread⟩ := Option.map_eq_some_iff.1 hread
    obtain ⟨hnesting, hlevels⟩ := Prod.mk.inj hread
    have hparse : parse text = .ok expr := toOption_eq_some_iff.1 hexpr
    have hq : parseQuery text = .ok (.metric q) := by
      simp only [parseQuery, hparse, hterm, toOption_eq_some_iff.1 hquery]
      rfl
    obtain ⟨hrestored, hlost, -⟩ := parseQuery_restore hq
    obtain ⟨error, herror, hkind⟩ := hlost fun h => by
      have hroom : ∀ levels ∈ [1, 63], 2 * levels + 2 ≤ savedDepth :=
        hlevels ▸ List.forall_mem_map.2 (hrestored.1 h)
      exact absurd hroom (by decide)
    exact ⟨expr, q, error, hparse, hnesting, hq, herror, hkind⟩
  refine hdeep _ ?_
  rw [parse, Text.utf8ByteSize_eq, String.toList_ofList]
  decide +kernel

end MetricQuery
