import MetricQuery.Proofs.FilterTree.Refused
import MetricQuery.Proofs.Query.Reread

/-!
# Queries that are written and not read again

What is written for a query that was read from a text need not be a text of a query.  A key or
a value may stand in the written block where it is taken for a part of the grammar, though it
did not stand so in the first text: parentheses around a filter are left out, commas become
words, and the exclamation mark goes into the comparison.

* `blockBody_refuses`, `Query.term_refuses`, `parseQuery_written_ne_ok`: a block that is not
  readable is refused, and a text is refused if the block in it is.
* `parseQuery_render_read_or_refused`: what is written is read again if its block is readable,
  and otherwise it is refused.
-/

namespace MetricQuery

open Text Grammar

section Blocks

variable {depth levels : Nat} {trees : List FilterTree}

/-- What stands between the braces is refused if it is neither an asterisk nor a list. -/
theorem blockBody_refuses_items {items : Reader (List BlockItem)} {ch : Char} {text : List Char}
    (hblank : isBlank ch = false) (hstar : ch ≠ '*') (h : Refuses items (ch :: text)) :
    Refuses (blockBody items) (ch :: text) := by
  intro offset result hread
  have hskip : (Cursor.mk (ch :: text) offset).skipBlank = ⟨ch :: text, offset⟩ :=
    Cursor.skipBlank_of_stops offset (stops_cons.2 hblank)
  simp only [blockBody, hskip, Cursor.eat?_of_ne _ _ hstar] at hread
  exact h _ _ hread

/-- What stands between the braces is refused if the block is not readable. -/
theorem blockBody_refuses (htrees : ∀ t ∈ trees, t.FromText depth)
    (hclosed : ∀ t ∈ trees, ∀ f ∈ t.filters, f.Closed) (hlevels : blockNesting trees < levels)
    (hnot : ¬ BlockRereadable trees) (tail : List Char) :
    Refuses (blockBody (blockItems levels '\x7d'))
      ((writtenBlock trees).toList ++ '\x7d' :: tail) := by
  obtain ⟨levels, rfl⟩ : ∃ n, levels = n + 1 := ⟨levels - 1, by omega⟩
  have hne : trees ≠ [] := by
    rintro rfl
    exact hnot (by simp [BlockRereadable])
  obtain ⟨ch, text, htext, hblank, hstar⟩ :=
    writtenBlock_start hne fun t ht => (htrees t ht).complete
  have hrefused := blockItems_refuses_block htrees hclosed (Nat.lt_succ_iff.1 hlevels) hnot tail
  rw [htext] at hrefused ⊢
  exact blockBody_refuses_items hblank hstar hrefused

end Blocks

namespace Query

variable {pattern : WindowPattern} {q : Query} {levels : Nat}

/-- A query is refused from its opening brace on if what stands behind the brace is. -/
theorem metricTail_refuses {items : Reader (List BlockItem)} {rest : List Char}
    (h : Refuses (blockBody items) (q.tailText.tail ++ rest)) (start : Nat)
    (aggregator window : Option String) (metric : String) :
    Refuses (metricTail items start aggregator window metric) (q.tailText ++ rest) := by
  intro offset result hread
  obtain ⟨opened, hopened, hread⟩ := bind_eq_ok_iff.1 hread
  rw [tailText, List.cons_append, expect_self] at hopened
  obtain rfl := Except.ok.inj hopened
  obtain ⟨read, hblock, -⟩ := bind_eq_ok_iff.1 hread
  exact h _ _ hblock

theorem chain_refuses {operand : Reader Expr} {text : List Char} (h : Refuses operand text)
    (operator? : Char → Option Operator) : Refuses (chain operand operator?) text := by
  intro offset result hread
  obtain ⟨read, hoperand, -⟩ := bind_eq_ok_iff.1 hread
  exact h _ _ hoperand

/-- The text of a query is not a term if its block is refused. -/
theorem term_refuses (h : q.Readable pattern) {items : Reader (List BlockItem)}
    {rest : List Char} (hblock : Refuses (blockBody items) (q.tailText.tail ++ rest))
    (inner : Reader Expr) (arguments : Reader (List Expr)) (inArguments : Bool) :
    Refuses (term pattern items inner arguments inArguments) (q.written.toList ++ rest) := by
  intro offset result hread
  obtain ⟨stop, hterm⟩ := term_written h items inner arguments inArguments offset rest
  rw [hterm] at hread
  exact metricTail_refuses hblock offset q.aggregator q.window q.metric _ _ hread

/-- The text of a query is not an expression if its block is refused. -/
theorem wholeExpression_ne_ok (h : q.Readable pattern)
    (hblock : Refuses (blockBody (blockItems levels '\x7d')) q.tailText.tail) (expr : Expr) :
    wholeExpression pattern (levels + 1) q.written.toList ≠ .ok expr := by
  intro hread
  obtain ⟨read, hexpression, -⟩ := bind_eq_ok_iff.1 hread
  rw [← List.append_nil q.tailText.tail] at hblock
  have hterm := term_refuses h hblock (expression pattern levels false)
    (callArguments pattern levels) false
  rw [List.append_nil] at hterm
  rw [expression] at hexpression
  exact chain_refuses (chain_refuses hterm Operator.multiplicative?) Operator.additive? _ _
    hexpression

end Query

/-- A query is written as a text that is refused if its block is, under as many levels. -/
theorem parseQuery_written_ne_ok_of_refuses {q : Query} {limits : Limits}
    {engine : PatternEngine} {pattern : WindowPattern} {levels : Nat}
    (hpattern : limits.window? engine = .ok pattern)
    (hlevels : limits.maxDepth = levels + 1) (h : q.Readable pattern)
    (hblock : Refuses (blockBody (blockItems levels '\x7d')) q.tailText.tail)
    (result : ParsedQuery) : parseQuery q.written limits engine ≠ .ok result := by
  intro hread
  rw [parseQuery] at hread
  split at hread
  · simp at hread
  · next expr hparse =>
    obtain ⟨_, hsame, hwhole⟩ := exists_of_parse hparse
    obtain rfl := Except.ok.inj (hpattern.symm.trans hsame)
    rw [hlevels] at hwhole
    exact Query.wholeExpression_ne_ok h hblock expr hwhole

/-- A query that comes from a text is written as a text that is refused, if its block is not
readable. -/
theorem parseQuery_written_ne_ok {q : Query} {limits : Limits} {engine : PatternEngine}
    {pattern : WindowPattern} {bound : Nat} (hpattern : limits.window? engine = .ok pattern)
    (h : q.FromText pattern bound)
    (hclosed : ∀ t ∈ q.filterList, ∀ f ∈ t.filters, f.Closed)
    (hdepth : blockNesting q.filterList + 2 ≤ limits.maxDepth)
    (hnot : ¬ BlockRereadable q.filterList) (result : ParsedQuery) :
    parseQuery q.written limits engine ≠ .ok result := by
  obtain ⟨levels, hlevels⟩ : ∃ levels, limits.maxDepth = levels + 1 :=
    ⟨limits.maxDepth - 1, by omega⟩
  obtain ⟨depth, htrees⟩ := h.trees
  exact parseQuery_written_ne_ok_of_refuses hpattern hlevels h.readable
    (blockBody_refuses htrees hclosed (by omega) hnot _) result

/-- What is written for a query that was read is read again if its block is readable, and
otherwise it is refused: under all limits that leave room for it. -/
theorem parseQuery_render_read_or_refused {text : String} {limits : Limits}
    {engine : PatternEngine} {q : Query} (h : parseQuery text limits engine = .ok (.metric q)) :
    ∃ written, q.render = .ok written ∧ ∀ limits' : Limits,
      limits'.windowPattern = limits.windowPattern →
      written.utf8ByteSize ≤ limits'.maxLength → written.utf8ByteSize ≤ limits'.maxDepth →
        (BlockRereadable q.filterList →
          ∃ q', parseQuery written limits' engine = .ok (.metric q')) ∧
        ((∀ t ∈ q.filterList, ∀ f ∈ t.filters, f.Closed) → ¬ BlockRereadable q.filterList →
          ∀ result, parseQuery written limits' engine ≠ .ok result) := by
  obtain ⟨pattern, hpattern, hq⟩ := parseQuery_fromText h
  refine ⟨q.written, Query.render_eq_ok_iff.2 ⟨hq.readable.complete, rfl⟩, ?_⟩
  intro limits' hsame hlength hdepth
  obtain ⟨-, -, hcompile⟩ := Limits.window?_eq_ok_iff.1 hpattern
  have hroom := Query.blockNesting_add_two_le hq.readable.metric_ne hq.readable.trees
  have hpattern' : limits'.window? engine = .ok pattern :=
    Limits.window?_eq_ok_iff.2 ⟨by omega, by omega, by rw [hsame, hcompile]⟩
  constructor
  · intro hread
    exact ⟨_, parseQuery_written hpattern' hq.readable hread hlength (by omega)⟩
  · intro hclosed hnot result
    exact parseQuery_written_ne_ok hpattern' hq hclosed (by omega) hnot result

/-- The comma in front of the second filter becomes an `AND`, and the `NOT` behind it is no
longer taken for the key. -/
theorem parseQuery_render_read_or_refused_key :
    let q : Query :=
      { metric := "m"
        filterList :=
          [.group .and true [.leaf ⟨"c", some .equal, ["1"]⟩], .leaf ⟨"NOT", some .oneOf, ["a"]⟩] }
    let written := "m\x7b(NOT c:1 AND NOT IN (a))\x7d"
    parseQuery "m\x7bNOT c:1, NOT IN (a)\x7d" = .ok (.metric q) ∧ q.render = .ok written ∧
      (∀ t ∈ q.filterList, ∀ f ∈ t.filters, f.Closed) ∧ ¬ BlockRereadable q.filterList ∧
        ∀ result, parseQuery written ≠ .ok result := by
  intro q written
  have hread : parseQuery "m\x7bNOT c:1, NOT IN (a)\x7d" = .ok (.metric q) := by decide +kernel
  have hwritten : q.render = .ok written := by decide +kernel
  have hclosed : ∀ t ∈ q.filterList, ∀ f ∈ t.filters, f.Closed := by decide +kernel
  have hnot : ¬ BlockRereadable q.filterList := by
    intro hread
    obtain ⟨-, ⟨-, hkey⟩, -⟩ : FilterTree.RereadableAll false q.filterList := by
      simpa [q, BlockRereadable, FilterTree.isGroup, FilterTree.Rereadable] using hread
    exact hkey rfl (by decide) rfl
  obtain ⟨written', hrender, hreread⟩ := parseQuery_render_read_or_refused hread
  obtain rfl : written' = written := Except.ok.inj (hrender.symm.trans hwritten)
  refine ⟨hread, hwritten, hclosed, hnot, ?_⟩
  exact (hreread {} rfl (by decide +kernel) (by decide +kernel)).2 hclosed hnot

/-- Where a literal is open behind the sign `~` no such thing can be said: here it goes on into
the second filter, and both are read back as one. -/
example :
    let q : Query :=
      { metric := "m"
        filterList := [.leaf ⟨"k", some .equal, ["~\"a"]⟩, .leaf ⟨"j", some .equal, ["x\""]⟩] }
    let written := "m\x7bk:~\"a, j:x\"\x7d"
    parseQuery "m\x7b!k!:~\"a, j:x\"\x7d" = .ok (.metric q) ∧ q.render = .ok written ∧
      parseQuery written =
        .ok (.metric
          { metric := "m", filterList := [.leaf ⟨"k", some .regex, ["\"a, j:x\""]⟩] }) := by
  decide +kernel

end MetricQuery
