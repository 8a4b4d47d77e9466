import MetricQuery.Proofs.FilterTree.Normal
import MetricQuery.Proofs.Grammar.Yields

/-!
# Trees that come from a text

Reading a filter list makes a group where several operands stand together, and one around a
single filter, to negate it or because it stands in parentheses.  It never makes a group
around a single group, so `NOT NOT` is not written for such trees.

`FilterTree.FromText depth` says this, that the filters are complete and written as they are,
and how deep groups of several children nest.

* `fromText_ofBlock`: the trees of a list that nests `depth` deep nest at most twice as deep,
  and once more for the segments of the list itself.
* `FromText.normal`: the normal form of such a tree comes from a text as well, and has the same
  text.
-/

namespace MetricQuery

open Text Grammar BlockItem

/-- The filter can be written, and its values are written as they are. -/
structure Filter.FromText (f : Filter) : Prop where
  complete : f.Complete
  tokens : ∀ v ∈ f.values, IsToken v.toList

theorem Filter.FromText.asEmitted {f : Filter} (h : f.FromText) : f.asEmitted = f := by
  have hvalues : f.values.map Filter.emitted = f.values := by
    refine (List.map_congr_left fun v hv => ?_).trans (List.map_id f.values)
    exact Filter.emitted_eq_self (h.tokens v hv)
  rw [Filter.asEmitted, hvalues]

namespace FilterTree

/-- A tree as it comes from a text: a group of one child holds a filter, and groups of several
children nest so deep. -/
inductive FromText : Nat → FilterTree → Prop where
  | leaf {depth : Nat} {f : Filter} (hfilter : f.FromText) : FromText depth (.leaf f)
  | single {depth : Nat} {junction : Junction} {negated : Bool} {f : Filter}
      (hfilter : f.FromText) : FromText depth (.group junction negated [.leaf f])
  | several {depth : Nat} {junction : Junction} {negated : Bool} {t u : FilterTree}
      {rest : List FilterTree} (hchildren : ∀ v ∈ t :: u :: rest, FromText depth v) :
      FromText (depth + 1) (.group junction negated (t :: u :: rest))

namespace FromText

theorem mono {few many : Nat} {t : FilterTree} (h : FromText few t) (hle : few ≤ many) :
    FromText many t := by
  induction h generalizing many with
  | leaf hfilter => exact .leaf hfilter
  | single hfilter => exact .single hfilter
  | several hchildren ih =>
    obtain ⟨depth, rfl⟩ : ∃ depth, many = depth + 1 := ⟨many - 1, by omega⟩
    exact .several fun v hv => ih v hv (by omega)

theorem complete {depth : Nat} {t : FilterTree} (h : FromText depth t) : t.Complete := by
  induction h with
  | leaf hfilter => exact .leaf hfilter.complete
  | single hfilter => exact .group (by simp) (by simpa using .leaf hfilter.complete)
  | several hchildren ih => exact .group (by simp) ih

theorem filters {depth : Nat} {t : FilterTree} (h : FromText depth t) :
    ∀ f ∈ t.filters, f.FromText := by
  induction h with
  | leaf hfilter => simpa [FilterTree.filters] using hfilter
  | single hfilter => simpa [FilterTree.filters, filtersAll] using hfilter
  | several hchildren ih =>
    intro f hf
    obtain ⟨v, hv, hf⟩ := mem_filtersAll.1 hf
    exact ih v hv f hf

theorem nesting_le {depth : Nat} {t : FilterTree} (h : FromText depth t) : t.nesting ≤ depth := by
  induction h with
  | leaf => exact Nat.zero_le _
  | single => exact Nat.zero_le _
  | several hchildren ih =>
    rw [nesting]
    · exact Nat.succ_le_succ (nestingAll_le ih)
    · simp

/-- The opposite of a tree nests no deeper. -/
theorem opposite {depth : Nat} {t : FilterTree} (h : FromText depth t) :
    FromText depth t.opposite := by
  cases h with
  | leaf hfilter => exact .single hfilter
  | single hfilter => exact .single hfilter
  | several hchildren => exact .several hchildren

/-- The normal form has no groups around filters but negated ones. -/
theorem normal {depth : Nat} {t : FilterTree} (h : FromText depth t) :
    FromText depth t.normal ∧ t.normal.written = t.written := by
  induction h with
  | leaf hfilter =>
    rw [FilterTree.normal, normalUnder, hfilter.asEmitted]
    exact ⟨.leaf hfilter, rfl⟩
  | @single _ junction negated f hfilter =>
    rw [FilterTree.normal, normalUnder, normalUnder, hfilter.asEmitted]
    cases negated with
    | false => exact ⟨.leaf hfilter, by simp [written, writtenAll, joinParts]⟩
    | true => exact ⟨.single hfilter, by simp [written, writtenAll, joinParts]⟩
  | @several _ junction negated t u rest hchildren ih =>
    have hnormal : (FilterTree.group junction negated (t :: u :: rest)).normal =
        .group junction negated ((t :: u :: rest).map FilterTree.normal) := by
      rw [FilterTree.normal, normalUnder, normalAll_eq_map, Bool.false_bne]
      simp
    have htexts : ((t :: u :: rest).map FilterTree.normal).map written =
        (t :: u :: rest).map written := by
      rw [List.map_map]
      exact List.map_congr_left fun v hv => (ih v hv).2
    rw [hnormal, written, written, writtenAll_eq_map, writtenAll_eq_map, htexts]
    refine ⟨.several fun v hv => ?_, rfl⟩
    obtain ⟨w, hw, rfl⟩ := List.mem_map.1 (show v ∈ (t :: u :: rest).map FilterTree.normal from hv)
    exact (ih w hw).1

end FromText

/-! ## Segments and lists in parentheses -/

theorem fromText_joined {depth : Nat} (junction : Junction) {trees : List FilterTree}
    (hne : trees ≠ []) (h : ∀ t ∈ trees, FromText depth t) :
    FromText (depth + 1) (joined junction trees) := by
  match trees, hne with
  | [t], _ => exact (h t (by simp)).mono (Nat.le_succ depth)
  | t :: u :: rest, _ => exact .several h

theorem fromText_ofGrouped {depth : Nat} {trees : List FilterTree} {t : FilterTree}
    (hread : ofGrouped trees = .ok t) (h : ∀ u ∈ trees, FromText depth u) :
    FromText (depth + 1) t := by
  unfold ofGrouped at hread
  split at hread
  · simp at hread
  · obtain rfl := Except.ok.inj hread
    exact (h _ (by simp)).mono (Nat.le_succ depth)
  · next hne hgroup =>
    obtain rfl := Except.ok.inj hread
    match trees, h, hne, hgroup with
    | [], _, hne, _ => exact absurd rfl hne
    | [.group _ _ _], _, _, hgroup => exact absurd rfl (hgroup _ _ _)
    | [.leaf f], h, _, _ =>
      cases h (.leaf f) (by simp) with
      | leaf hfilter => exact .single hfilter
    | t :: u :: rest, h, _, _ => exact .several h

/-- The filter for a condition as it is read. -/
theorem fromText_filter {c : Condition} (h : c.Legible) (hkey : c.key ≠ "")
    (operation : Filter.Operation) (hcount : operation.Takes c.comparand.texts) :
    Filter.FromText ⟨c.key, some operation, c.comparand.texts⟩ where
  complete := ⟨hkey, h.keyChars, ⟨operation, rfl, hcount⟩, fun v hv hempty =>
    (h.values v hv).ne_nil (by simp [hempty])⟩
  tokens := h.values

/-- A condition as it is read is taken for a filter, perhaps a negated one. -/
theorem fromText_toTree {depth : Nat} {c : Condition} {t : FilterTree} (h : c.Legible)
    (hread : c.toTree = .ok t) : FromText depth t := by
  obtain ⟨hkey, ⟨value, hcomparand, -, -, rfl⟩ | ⟨values, hcomparand, -, hne, rfl⟩⟩ :=
    Condition.toTree_eq_ok_iff.1 hread
  · have hfilter := fromText_filter h hkey
    simp only [hcomparand, Comparand.texts] at hfilter
    cases c.comparator <;> cases c.negative
    all_goals first
      | exact .leaf (hfilter .equal rfl)
      | exact .leaf (hfilter .notEqual rfl)
      | exact .leaf (hfilter .regex rfl)
      | exact .single (hfilter .regex rfl)
  · have hfilter := fromText_filter h hkey
    simp only [hcomparand, Comparand.texts] at hfilter
    rw [Condition.ofList]
    split
    · exact .leaf (hfilter .oneOf hne)
    · exact .leaf (hfilter .noneOf hne)

/-- The operands of a segment, negated or not. -/
theorem fromText_operands {depth : Nat} {pieces : List (Piece FilterTree)}
    (h : ∀ t, .operand t ∈ pieces → FromText depth t) :
    ∀ odd, ∀ t ∈ Piece.operands FilterTree.opposite odd pieces, FromText depth t := by
  induction pieces with
  | nil => simp [Piece.operands]
  | cons piece rest ih =>
    have hrest := ih fun t ht => h t (List.mem_cons_of_mem piece ht)
    intro odd
    cases piece with
    | separator sep => exact hrest _
    | operand u =>
      have hu := h u (by simp)
      rw [Piece.operands]
      refine List.forall_mem_cons.2 ⟨?_, hrest false⟩
      cases odd with
      | false => exact hu
      | true => exact hu.opposite

/-- The trees of the segments of a list. -/
theorem fromText_segments {depth : Nat} {pieces : List (Piece FilterTree)}
    (h : ∀ t, .operand t ∈ pieces → FromText depth t) (halternates : Piece.Alternates true pieces) :
    ∀ t ∈ (pieces.splitOnP Piece.isComma).map ofSegment, FromText (depth + 1) t := by
  intro t ht
  obtain ⟨segment, hsegment, rfl⟩ := List.mem_map.1 ht
  refine fromText_joined _ (Piece.operands_ne_nil FilterTree.opposite halternates hsegment) ?_
  exact fromText_operands (fun t ht => h t (Piece.mem_of_mem_segment hsegment ht)) false

/-- The trees of a list whose operands are taken for trees that come from a text. -/
theorem fromText_of_taken {depth : Nat} {items : List BlockItem} {trees : List FilterTree}
    (h : ofBlock items = .ok trees)
    (htaken : ∀ pieces, Taken items pieces → ∀ t, .operand t ∈ pieces → FromText depth t) :
    ∀ t ∈ trees, FromText (depth + 1) t := by
  obtain ⟨pieces, hpieces, ⟨-, rfl⟩ | ⟨halternates, rfl⟩⟩ := ofBlock_eq_ok_iff.1 h
  · simp
  · exact fromText_segments (htaken pieces hpieces) halternates

end FilterTree

namespace BlockItem

/-- The operands of a list that nests so deep.  A list in parentheses gives a segment around
its operands, and may become a group around its segments. -/
theorem Taken.fromText {items : List BlockItem} :
    ∀ {depth : Nat} {pieces : List (Piece FilterTree)},
    Taken items pieces → (∀ item ∈ items, item.Legible depth) →
      ∀ t, .operand t ∈ pieces → FilterTree.FromText (2 * depth) t := by
  induction items using inductionOnItems with
  | nil =>
    intro depth pieces h _
    cases h
    simp
  | wildcard rest ih =>
    intro depth pieces h hlegible
    cases h with
    | wildcard hrest => exact ih hrest fun item hitem => hlegible item (by simp [hitem])
  | condition c rest ih =>
    intro depth pieces h hlegible
    cases h with
    | condition htree hrest =>
      have hc : c.Legible := by
        have := hlegible (.condition c) (by simp)
        cases depth <;> exact this
      intro t ht
      rcases List.mem_cons.1 ht with heq | ht
      · obtain rfl := Piece.operand.inj heq
        exact FilterTree.fromText_toTree hc htree
      · exact ih hrest (fun item hitem => hlegible item (by simp [hitem])) t ht
  | grouped inner rest ihInner ih =>
    intro depth pieces h hlegible
    cases h with
    | grouped hblock htree hrest =>
      intro t ht
      rcases List.mem_cons.1 ht with heq | ht
      · obtain rfl := Piece.operand.inj heq
        have hgrouped := hlegible (.grouped inner) (by simp)
        cases depth with
        | zero => exact absurd hgrouped (by simp [BlockItem.Legible])
        | succ depth =>
          refine FilterTree.fromText_ofGrouped htree ?_
          exact FilterTree.fromText_of_taken hblock fun pieces htaken =>
            ihInner htaken hgrouped
      · exact ih hrest (fun item hitem => hlegible item (by simp [hitem])) t ht
  | separator sep rest ih =>
    intro depth pieces h hlegible
    cases h with
    | separator _ hrest =>
      intro t ht
      rcases List.mem_cons.1 ht with heq | ht
      · simp at heq
      · exact ih hrest (fun item hitem => hlegible item (by simp [hitem])) t ht

end BlockItem

namespace FilterTree

/-- The trees of a list as it is read. -/
theorem fromText_ofBlock {items : List BlockItem} {trees : List FilterTree} {depth : Nat}
    (h : ofBlock items = .ok trees) (hlegible : ∀ item ∈ items, item.Legible depth) :
    ∀ t ∈ trees, FromText (2 * depth + 1) t :=
  fromText_of_taken h fun _ htaken => htaken.fromText hlegible

/-! ## Blocks -/

theorem writtenBlock_single (t : FilterTree) : writtenBlock [t] = t.written := by
  cases t <;> simp [writtenBlock, isGroup, joinParts]

theorem FromText.normal_eq_self {depth : Nat} {t : FilterTree} (h : FromText depth t)
    (hleaf : t.isGroup = false) : t.normal = t := by
  cases h with
  | leaf hfilter => rw [FilterTree.normal, normalUnder, hfilter.asEmitted]; rfl
  | single => simp [isGroup] at hleaf
  | several => simp [isGroup] at hleaf

section Blocks

variable {depth : Nat} {trees : List FilterTree} (h : ∀ t ∈ trees, FromText depth t)

include h

theorem blockNesting_le : blockNesting trees ≤ depth + 1 := by
  unfold blockNesting
  split
  · next hgroup =>
    match trees, h, hgroup with
    | [t], h, _ => exact Nat.le_succ_of_le (h t (by simp)).nesting_le
    | t :: u :: rest, h, _ =>
      have hblock : FromText (depth + 1) (.group .and false (t :: u :: rest)) := .several h
      exact hblock.nesting_le
  · exact Nat.zero_le _

/-- The normal form of a block can be written, and it has the same text. -/
theorem writtenBlock_normalBlock : (∀ t ∈ normalBlock trees, t.Complete) ∧
    writtenBlock (normalBlock trees) = writtenBlock trees := by
  unfold normalBlock
  split
  · next hgroup =>
    match trees, h, hgroup with
    | [t], h, _ =>
      obtain ⟨hnormal, htext⟩ := (h t (by simp)).normal
      rw [show normal (.group .and false [t]) = t.normal from rfl, writtenBlock_single,
        writtenBlock_single, List.forall_mem_singleton]
      exact ⟨hnormal.complete, htext⟩
    | t :: u :: rest, h, hgroup =>
      have hblock : FromText (depth + 1) (.group .and false (t :: u :: rest)) := .several h
      obtain ⟨hnormal, htext⟩ := hblock.normal
      rw [writtenBlock_single, htext, List.forall_mem_singleton]
      exact ⟨hnormal.complete, (writtenBlock_of_isGroup hgroup).symm⟩
  · next hgroup =>
    have hsame : trees.map FilterTree.normal = trees := by
      refine (List.map_congr_left fun t ht => ?_).trans (List.map_id trees)
      have hleaf := List.any_eq_false.1 (Bool.eq_false_iff.2 hgroup) t ht
      exact (h t ht).normal_eq_self (Bool.eq_false_iff.2 hleaf)
    rw [hsame]
    exact ⟨fun t ht => (h t ht).complete, rfl⟩

end Blocks

end FilterTree

end MetricQuery
