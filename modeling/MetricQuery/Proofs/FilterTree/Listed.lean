import MetricQuery.Proofs.FilterTree.Ingest
import MetricQuery.Proofs.Grammar.Shapes

/-!
# What can go wrong with a list that is read

The state of `FilterTree.ofBlock` has many ways to fail: at separators, at operands, at keys and
at values.  A list that is read from a text has the shape of `BlockItem.Listed`, and then only
one of them is left, a condition with an empty list of values.

* `Ingest.At`: the states in front of an operand and behind one.
* `FailsAt`: a step fails exactly at the first condition with an empty list, and otherwise ends
  behind an operand.
* `Listed.failsAt`: so does the reader of a list that has the shape, by induction over it.
* `parse_listed`: the shape of every filter list in an expression that is read, and what becomes
  of it.
-/

namespace MetricQuery

open Text Grammar

/-- What an error is about, whatever contexts it has collected. -/
def QueryError.cause : QueryError → QueryError
  | .within _ error => error.cause
  | error => error

theorem QueryError.kind_cause (error : QueryError) : error.cause.kind = error.kind := by
  induction error with
  | within context error ih => exact ih
  | _ => rfl

/-! ## Steps of the reader -/

namespace Ingest

variable {s : Ingest} {due : Bool}

/-- Where the reader stands: at the start, where an operand is due, or behind something. -/
inductive At : Bool → Ingest → Prop where
  | start : At true {}
  | behind {due : Bool} {s : Ingest} {ended operands : List FilterTree} {word : Junction}
      (hstands : Stands ended due operands word s) : At due s

/-- A piece that fits is read. -/
theorem At.read (h : At due s) (piece : Piece FilterTree) (hfits : piece.Fits due) :
    ∃ s', s.read piece = .ok s' ∧ At piece.isSeparator s' := by
  cases h with
  | start =>
    have hstart : Stands [] true [] .and { pending := some .not } := .start
    obtain ⟨s', _, _, _, hread, hstands, -⟩ := read_of_fits hstart hfits
    exact ⟨s', by rw [read_start hfits, hread], .behind hstands⟩
  | behind hstands =>
    obtain ⟨s', _, _, _, hread, hstands, -⟩ := read_of_fits hstands hfits
    exact ⟨s', hread, .behind hstands⟩

/-- Behind an operand the list may end, and it has trees. -/
theorem At.finish (h : At false s) : s.finish = .ok s.close.trees ∧ s.close.trees ≠ [] := by
  cases h with
  | behind hstands =>
    refine ⟨by rw [Ingest.finish, hstands.settled.1], ?_⟩
    rw [trees_close hstands]
    simp

end Ingest

namespace BlockItem

/-- The first condition that has an empty list of values. -/
def emptyList? (conditions : List Condition) : Option Condition :=
  conditions.find? fun c => c.comparand = .list []

/-- The step fails at the condition, because of its values; if there is none, it succeeds and
ends behind an operand. -/
def FailsAt (empty : Option Condition) (result : Except QueryError Ingest) : Prop :=
  match empty with
  | none => ∃ s, result = .ok s ∧ s.At false
  | some c => ∃ error, result = .error error ∧ error.cause = .block (.noValues c.key)

theorem FailsAt.bind {front behind : List Condition} {result : Except QueryError Ingest}
    {next : Ingest → Except QueryError Ingest} (h : FailsAt (emptyList? front) result)
    (hnext : ∀ s : Ingest, s.At false → FailsAt (emptyList? behind) (next s)) :
    FailsAt (emptyList? (front ++ behind)) (result >>= next) := by
  rw [emptyList?, List.find?_append, ← emptyList?, ← emptyList?]
  cases hfront : emptyList? front with
  | none =>
    rw [hfront] at h
    obtain ⟨s, rfl, hbehind⟩ := h
    exact hnext s hbehind
  | some c =>
    rw [hfront] at h
    obtain ⟨error, rfl, hcause⟩ := h
    exact ⟨error, rfl, hcause⟩

/-- A complete condition is a filter, unless its list of values is empty. -/
theorem toTree_of_formed {c : Condition} (h : c.Formed) :
    if c.comparand = .list [] then c.toTree = .error (.noValues c.key)
    else ∃ tree, c.toTree = .ok tree := by
  obtain ⟨hkey, -, hvalues, hform⟩ := h
  cases hcomparand : c.comparand with
  | single value =>
    have hvalue : value ≠ "" := hvalues value (by simp [hcomparand, Comparand.texts])
    have hsingle := Comparator.takes_single_iff.1 (hcomparand ▸ hform)
    rw [if_neg (by simp)]
    exact ⟨_, Condition.toTree_eq_ok_iff.2 ⟨hkey, .inl ⟨value, hcomparand, hsingle, hvalue, rfl⟩⟩⟩
  | list values =>
    have hlist := Comparator.takes_list_iff.1 (hcomparand ▸ hform)
    by_cases hempty : values = []
    · rw [if_pos (by rw [hempty])]
      simp [Condition.toTree, hkey, hcomparand, hlist, hempty]
    · rw [if_neg (by simpa using hempty)]
      exact ⟨_, Condition.toTree_eq_ok_iff.2 ⟨hkey, .inr ⟨values, hcomparand, hlist, hempty, rfl⟩⟩⟩

mutual

theorem IsOperand.failsAt : ∀ {item : BlockItem}, IsOperand item → ∀ {s : Ingest}, s.At true →
    FailsAt (emptyList? item.conditions) (FilterTree.readItem s item)
  | .condition c, .condition hc, s, hs => by
    have htree := toTree_of_formed hc
    rw [FilterTree.readItem, conditions, emptyList?, List.find?_singleton]
    split at htree
    · next hempty =>
      rw [if_pos (by simpa using hempty), htree]
      exact ⟨_, rfl, rfl⟩
    · next hempty =>
      obtain ⟨tree, htree⟩ := htree
      obtain ⟨s', hread, hbehind⟩ := hs.read (.operand tree) rfl
      rw [Ingest.read] at hread
      rw [if_neg (by simpa using hempty), htree]
      exact ⟨s', by simp [bind, Except.bind, hread, blockStep], hbehind⟩
  | .grouped items, .grouped hitems, s, hs => by
    have hinner := hitems.failsAt Ingest.At.start
    rw [FilterTree.readItem, conditions]
    cases hempty : emptyList? (conditionsOfAll items) with
    | none =>
      rw [hempty] at hinner
      obtain ⟨inner, hread, hend⟩ := hinner
      obtain ⟨hfinish, hne⟩ := hend.finish
      obtain ⟨tree, htree⟩ : ∃ tree, FilterTree.ofGrouped inner.close.trees = .ok tree :=
        ⟨_, FilterTree.ofGrouped_eq_ok_iff.2 ⟨hne, rfl⟩⟩
      obtain ⟨s', hoperand, hbehind⟩ := hs.read (.operand tree) rfl
      rw [Ingest.read] at hoperand
      refine ⟨s', ?_, hbehind⟩
      simp [hread, hfinish, bind, Except.bind, blockStep, inContext, htree, hoperand]
    | some c =>
      rw [hempty] at hinner
      obtain ⟨error, hread, hcause⟩ := hinner
      exact ⟨.within .grouped error, by simp [hread, bind, Except.bind, inContext], hcause⟩

theorem Listed.failsAt : ∀ {items : List BlockItem}, Listed items → ∀ {s : Ingest}, s.At true →
    FailsAt (emptyList? (conditionsOfAll items)) (FilterTree.readItems s items)
  | _ :: _, .operand hitem hrest, s, hs => by
    rw [FilterTree.readItems, conditionsOfAll]
    exact (hitem.failsAt hs).bind fun _ hbehind => hrest.failsAt hbehind
  | _ :: _, .negated hrest, s, hs => by
    obtain ⟨s', hread, hs'⟩ := hs.read (.separator .not) (by simp [Piece.Fits])
    rw [Ingest.read] at hread
    have hnext := hrest.failsAt hs'
    rw [FilterTree.readItems, FilterTree.readItem, hread]
    exact hnext

theorem Continues.failsAt : ∀ {items : List BlockItem}, Continues items → ∀ {s : Ingest},
    s.At false → FailsAt (emptyList? (conditionsOfAll items)) (FilterTree.readItems s items)
  | [], .done, s, hs => ⟨s, rfl, hs⟩
  | .separator sep :: _, .separated hsep hrest, s, hs => by
    have hne : sep ≠ .not := by rintro rfl; simp at hsep
    obtain ⟨s', hread, hs'⟩ := hs.read (.separator sep) (by simp [Piece.Fits, hne])
    rw [Ingest.read] at hread
    have hnext := hrest.failsAt hs'
    rw [FilterTree.readItems, FilterTree.readItem, hread]
    exact hnext
  | .separator sep :: _ :: _, .joined hsep hitem hrest, s, hs => by
    have hne : sep ≠ .not := by rintro rfl; simp at hsep
    obtain ⟨s', hread, hs'⟩ := hs.read (.separator sep) (by simp [Piece.Fits, hne])
    rw [Ingest.read] at hread
    rw [FilterTree.readItems, FilterTree.readItem, hread]
    show FailsAt _ (FilterTree.readItems s' (_ :: _))
    rw [FilterTree.readItems]
    exact (hitem.failsAt hs').bind fun _ hbehind => hrest.failsAt hbehind

end

/-- A list that has the shape is accepted, unless a list of values is empty. -/
theorem Listed.ofBlock {items : List BlockItem} (h : Listed items) :
    match emptyList? (conditionsOfAll items) with
    | none => ∃ trees, FilterTree.ofBlock items = .ok trees
    | some c => ∃ error, FilterTree.ofBlock items = .error error ∧
        error.cause = .block (.noValues c.key) := by
  have hread := h.failsAt Ingest.At.start
  cases hempty : emptyList? (conditionsOfAll items) with
  | none =>
    rw [hempty] at hread
    obtain ⟨s, hread, hend⟩ := hread
    exact ⟨s.close.trees, by
      simp [FilterTree.ofBlock, hread, bind, Except.bind, hend.finish.1, blockStep]⟩
  | some c =>
    rw [hempty] at hread
    obtain ⟨error, hread, hcause⟩ := hread
    exact ⟨error, by simp [FilterTree.ofBlock, hread, bind, Except.bind], hcause⟩

/-- A list that is refused has a condition without values, which is what the error is about. -/
theorem exists_of_ofBlock_error {items : List BlockItem} (h : items = [.wildcard] ∨ Listed items)
    {error : QueryError} (herror : FilterTree.ofBlock items = .error error) :
    ∃ c ∈ conditionsOfAll items, (c.comparator = .oneOf ∨ c.comparator = .noneOf) ∧
      c.comparand = .list [] ∧ error.cause = .block (.noValues c.key) := by
  rcases h with rfl | hlisted
  · simp [FilterTree.ofBlock, FilterTree.readItems, FilterTree.readItem, Ingest.finish, bind,
      Except.bind, blockStep] at herror
  · have hread := hlisted.ofBlock
    cases hempty : emptyList? (conditionsOfAll items) with
    | none =>
      rw [hempty] at hread
      obtain ⟨trees, hread⟩ := hread
      simp [hread] at herror
    | some c =>
      rw [hempty] at hread
      obtain ⟨error', hread, hcause⟩ := hread
      obtain rfl := Except.error.inj (hread.symm.trans herror)
      have hc := List.mem_of_find?_eq_some hempty
      have hlist : c.comparand = .list [] := by simpa using List.find?_some hempty
      refine ⟨c, hc, ?_, hlist, hcause⟩
      exact Comparator.Takes.oneOf_or_noneOf (hlist ▸ (hlisted.formed c hc).form)

/-- A condition without values is refused, wherever it stands. -/
theorem exists_ofBlock_error {items : List BlockItem} (h : items = [.wildcard] ∨ Listed items)
    {c : Condition} (hc : c ∈ conditionsOfAll items) (hlist : c.comparand = .list []) :
    ∃ error, FilterTree.ofBlock items = .error error := by
  rcases h with rfl | hlisted
  · simp [conditionsOfAll, conditions] at hc
  · have hread := hlisted.ofBlock
    cases hempty : emptyList? (conditionsOfAll items) with
    | none => simpa [hlist] using List.find?_eq_none.1 hempty c hc
    | some c =>
      rw [hempty] at hread
      obtain ⟨error, hread, -⟩ := hread
      exact ⟨error, hread⟩

end BlockItem

open BlockItem

/-- Each filter list of an expression that is read is an asterisk, or operands and separators in
turn at every level.  As filters it is refused exactly if a condition has an empty list of
values, and that is what the error is about. -/
theorem parse_listed {text : String} {limits : Limits} {engine : PatternEngine} {expr : Expr}
    {term : MetricTerm} (h : parse text limits engine = .ok expr)
    (hterm : term ∈ expr.metricTerms) :
    (term.block = [.wildcard] ∨ Listed term.block) ∧
      ((∃ error, FilterTree.ofBlock term.block = .error error) ↔
        ∃ c ∈ conditionsOfAll term.block,
          (c.comparator = .oneOf ∨ c.comparator = .noneOf) ∧ c.comparand = .list []) ∧
      ∀ error, FilterTree.ofBlock term.block = .error error → error.kind = .parse ∧
        ∃ c ∈ conditionsOfAll term.block, c.comparand = .list [] ∧
          error.cause = .block (.noValues c.key) := by
  have hshape := listed_of_parse h hterm
  refine ⟨hshape, ⟨?_, ?_⟩, ?_⟩
  · rintro ⟨error, herror⟩
    obtain ⟨c, hc, htakes, hlist, -⟩ := exists_of_ofBlock_error hshape herror
    exact ⟨c, hc, htakes, hlist⟩
  · rintro ⟨c, hc, -, hlist⟩
    exact exists_ofBlock_error hshape hc hlist
  · intro error herror
    obtain ⟨c, hc, -, hlist, hcause⟩ := exists_of_ofBlock_error hshape herror
    exact ⟨by rw [← error.kind_cause, hcause]; rfl, c, hc, hlist, hcause⟩

/-- A list in parentheses, behind `NOT`s, with a condition that has no values. -/
theorem parse_listed_nested :
    let text := "m\x7bNOT NOT a:1 AND NOT (!b:~x, c IN () )\x7d / n\x7b*\x7d"
    ∃ expr term other error trees, parse text = .ok expr ∧ expr.metricTerms = [term, other] ∧
      Listed term.block ∧ FilterTree.ofBlock term.block = .error error ∧ error.kind = .parse ∧
      error.cause = .block (.noValues "c") ∧ FilterTree.ofBlock other.block = .ok trees := by
  intro text
  let a : Condition := ⟨false, "a", .colon, .single "1", ⟨10, 13⟩⟩
  let b : Condition := ⟨true, "b", .regex, .single "x", ⟨23, 28⟩⟩
  let c : Condition := ⟨false, "c", .oneOf, .list [], ⟨30, 37⟩⟩
  have hread : (parse text).toOption.map (fun expr =>
      expr.metricTerms.map fun term => conditionsOfAll term.block) = some [[a, b, c], []] := by
    decide +kernel
  obtain ⟨expr, hexpr, hread⟩ := Option.map_eq_some_iff.1 hread
  have hparse : parse text = .ok expr := toOption_eq_some_iff.1 hexpr
  obtain ⟨term, rest, hterms, hterm, hrest⟩ := List.map_eq_cons_iff.1 hread
  obtain ⟨other, more, rfl, hother, hmore⟩ := List.map_eq_cons_iff.1 hrest
  obtain rfl := List.map_eq_nil_iff.1 hmore
  obtain ⟨hshape, hrefused, herrors⟩ := parse_listed hparse (show term ∈ _ by simp [hterms])
  obtain ⟨error, herror⟩ := hrefused.2 ⟨c, by simp [hterm], .inl rfl, rfl⟩
  obtain ⟨hkind, d, hd, hlist, hcause⟩ := herrors error herror
  have hkey : d.key = "c" :=
    (show ∀ d ∈ [a, b, c], d.comparand = .list [] → d.key = "c" by decide) d (hterm ▸ hd) hlist
  have hlisted : Listed term.block := by
    refine hshape.resolve_left fun hwildcard => ?_
    simp [hwildcard, conditionsOfAll, conditions] at hterm
  cases haccepted : FilterTree.ofBlock other.block with
  | ok trees =>
    exact ⟨expr, term, other, error, trees, hparse, hterms, hlisted, herror, hkind, hkey ▸ hcause,
      haccepted⟩
  | error error' =>
    obtain ⟨-, hrefused, -⟩ := parse_listed hparse (show other ∈ _ by simp [hterms])
    obtain ⟨e, he, -⟩ := hrefused.1 ⟨error', haccepted⟩
    simp [hother] at he

end MetricQuery
