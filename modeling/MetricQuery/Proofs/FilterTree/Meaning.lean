import MetricQuery.Proofs.FilterTree.Ingest

/-!
# The meaning of filter lists and of filter trees

An assignment says which tests hold: a key equals a value, it matches a pattern, it is in a
list.  Under an assignment a tree has a truth value, and so has a filter list as it is
written.

* `FilterTree.holds`: the children of a group are joined by its word, and a negated group is
  the complement.
* `BlockItem.holds`: a list is the conjunction of its segments, and a segment joins its
  operands by the words between them.  `NOT`s in odd number complement the operand behind
  them, and a list in parentheses means what it means by itself.
* `BlockItem.Unmixed`: no segment, at any depth, has both an `AND` and an `OR`.

The trees that such a list is read as have, taken together, the truth value of the list.  The
induction is on the list; `Taken.truths` carries the meaning of operands from nested lists to
the pieces of the list around them.
-/

namespace MetricQuery

/-- Which tests hold. -/
structure Assignment where
  /-- The key equals the value. -/
  equals : (key value : String) → Bool
  /-- The key matches the pattern. -/
  fits : (key pattern : String) → Bool
  /-- The key is in the list. -/
  among : (key : String) → (values : List String) → Bool

/-- The truth value of some operands that a word joins. -/
def Junction.apply : Junction → List Bool → Bool
  | .and, truths => truths.all id
  | .or, truths => truths.any id

/-! ## Trees -/

/-- The truth value of a filter. -/
def Filter.holds (v : Assignment) (f : Filter) : Bool :=
  match f.operation, f.values with
  | some .equal, [value] => v.equals f.key value
  | some .notEqual, [value] => !v.equals f.key value
  | some .regex, [pattern] => v.fits f.key pattern
  | some .oneOf, values => v.among f.key values
  | some .noneOf, values => !v.among f.key values
  | _, _ => false

namespace FilterTree

mutual

/-- The truth value of a tree. -/
def holds (v : Assignment) : FilterTree → Bool
  | .leaf f => f.holds v
  | .group junction negated children => negated != junction.apply (truths v children)

/-- The truth values of some trees. -/
def truths (v : Assignment) : List FilterTree → List Bool
  | [] => []
  | t :: rest => holds v t :: truths v rest

end

theorem truths_eq_map (v : Assignment) (trees : List FilterTree) :
    truths v trees = trees.map (holds v) := by
  induction trees with
  | nil => rfl
  | cons t rest ih => rw [truths, ih, List.map_cons]

/-- The opposite of a tree is its complement. -/
theorem holds_opposite (v : Assignment) (t : FilterTree) : t.opposite.holds v = !t.holds v := by
  cases t with
  | leaf f => simp [opposite, holds, truths, Junction.apply]
  | group junction negated children => cases negated <;> simp [opposite, holds]

theorem holds_joined (v : Assignment) (junction : Junction) (trees : List FilterTree) :
    (joined junction trees).holds v = junction.apply (trees.map (holds v)) := by
  unfold joined
  split
  · cases junction <;> simp [Junction.apply]
  · simp [holds, truths_eq_map]

end FilterTree

/-! ## Lists as written -/

/-- The truth value of a condition as written.  One that compares with something its
comparator does not take holds nowhere; such a condition is refused. -/
def Condition.holds (v : Assignment) (c : Condition) : Bool :=
  c.negative !=
    match c.comparator, c.comparand with
    | .colon, .single value => v.equals c.key value
    | .notColon, .single value => !v.equals c.key value
    | .regex, .single pattern => v.fits c.key pattern
    | .oneOf, .list values => v.among c.key values
    | .noneOf, .list values => !v.among c.key values
    | _, _ => false

namespace Piece

variable {α β : Type}

/-- The truth value of a segment: all its operands, or any of them if an `OR` joins it. -/
def segmentHolds (segment : List (Piece Bool)) : Bool :=
  Junction.apply (if segment.any fun piece => piece.joinsBy? = some .or then .or else .and)
    (operands not false segment)

/-- The truth value of a list: all its segments. -/
def listHolds (pieces : List (Piece Bool)) : Bool :=
  (pieces.splitOnP isComma).all segmentHolds

/-- No segment is joined by different words. -/
def Unmixed (pieces : List (Piece α)) : Prop :=
  ∀ segment ∈ pieces.splitOnP isComma, ∃ word, ∀ piece ∈ segment, ∀ w ∈ piece.joinsBy?, w = word

end Piece

namespace BlockItem

mutual

/-- The truth value of an operand. -/
def holds (v : Assignment) : BlockItem → Bool
  | .condition c => c.holds v
  | .grouped items => Piece.listHolds (truths v items)
  | .wildcard => true
  | .separator _ => true

/-- The pieces of a list, each operand taken for its truth value. -/
def truths (v : Assignment) : List BlockItem → List (Piece Bool)
  | [] => []
  | .wildcard :: rest => truths v rest
  | .separator sep :: rest => .separator sep :: truths v rest
  | operand :: rest => .operand (holds v operand) :: truths v rest

end

/-- The pieces of a list, its operands as they are. -/
def pieces : List BlockItem → List (Piece BlockItem)
  | [] => []
  | .wildcard :: rest => pieces rest
  | .separator sep :: rest => .separator sep :: pieces rest
  | operand :: rest => .operand operand :: pieces rest

/-- No segment is joined by different words, at any depth. -/
inductive Unmixed : List BlockItem → Prop where
  | list {items : List BlockItem} (hsegments : Piece.Unmixed (pieces items))
      (hinner : ∀ inner, .grouped inner ∈ items → Unmixed inner) : Unmixed items

end BlockItem

/-! ## Segments of trees and of truth values -/

namespace Piece

variable {α β : Type}

@[simp]
theorem isComma_map (f : α → β) (piece : Piece α) : (piece.map f).isComma = piece.isComma := by
  cases piece with
  | operand a => rfl
  | separator sep => cases sep <;> rfl

@[simp]
theorem joinsBy?_map (f : α → β) (piece : Piece α) :
    (piece.map f).joinsBy? = piece.joinsBy? := by
  cases piece <;> rfl

theorem splitOnP_map (f : α → β) (pieces : List (Piece α)) :
    (pieces.map (map f)).splitOnP isComma = (pieces.splitOnP isComma).map (List.map (map f)) := by
  induction pieces with
  | nil => simp
  | cons piece rest ih =>
    rw [List.map_cons, List.splitOnP_cons_eq_if_modifyHead, List.splitOnP_cons_eq_if_modifyHead,
      isComma_map, ih]
    obtain ⟨segment, others, hsplit⟩ :=
      List.exists_cons_of_ne_nil (List.splitOnP_ne_nil isComma rest)
    cases piece.isComma <;> simp [hsplit]

/-- Taking the operands for something else does not change how segments are joined. -/
theorem unmixed_map {f : α → β} {pieces : List (Piece α)} :
    Unmixed (pieces.map (map f)) ↔ Unmixed pieces := by
  simp [Unmixed, splitOnP_map]

/-- Opposites are complements, so the operands of a segment keep their truth. -/
theorem operands_map {f : α → β} {opposite : α → α} {opposite' : β → β}
    (hopposite : ∀ a, f (opposite a) = opposite' (f a)) (segment : List (Piece α)) :
    ∀ odd, operands opposite' odd (segment.map (map f)) =
      (operands opposite odd segment).map f := by
  induction segment with
  | nil => exact fun _ => rfl
  | cons piece rest ih =>
    intro odd
    cases piece with
    | separator sep => exact ih _
    | operand a => cases odd <;> simp [map, operands, ih, hopposite]

/-- The last word of an unmixed segment is any of its words. -/
theorem junction_of_unmixed {segment : List (Piece α)} {word : Junction}
    (h : ∀ piece ∈ segment, ∀ w ∈ piece.joinsBy?, w = word) :
    ∀ before, junction before segment =
      if segment.any (fun piece => piece.joinsBy? = some word) then word else before := by
  induction segment with
  | nil => exact fun _ => rfl
  | cons piece rest ih =>
    intro before
    rw [junction, ih fun p hp => h p (by simp [hp])]
    cases hjoins : piece.joinsBy? with
    | none => simp [hjoins]
    | some w =>
      obtain rfl : w = word := h piece (by simp) w hjoins
      simp [hjoins]

/-- A segment of trees has the truth value of the segment of their truth values. -/
theorem holds_ofSegment (v : Assignment) {segment : List (Piece FilterTree)} {word : Junction}
    (h : ∀ piece ∈ segment, ∀ w ∈ piece.joinsBy?, w = word) :
    (FilterTree.ofSegment segment).holds v =
      segmentHolds (segment.map (map (FilterTree.holds v))) := by
  have hword : junction .and segment =
      if segment.any (fun piece => piece.joinsBy? = some .or) then .or else .and := by
    rw [junction_of_unmixed h]
    cases word with
    | or => rfl
    | and =>
      have hnone : segment.any (fun piece => piece.joinsBy? = some .or) = false := by
        rw [List.any_eq_false]
        intro piece hpiece hor
        simpa using h piece hpiece .or (by simpa using hor)
      simp [hnone]
  rw [FilterTree.ofSegment, FilterTree.holds_joined, segmentHolds, hword,
    operands_map (FilterTree.holds_opposite v), List.any_map]
  simp [Function.comp_def]

/-- The trees of all segments have, taken together, the truth value of the list. -/
theorem all_holds_ofSegment (v : Assignment) {pieces : List (Piece FilterTree)}
    (h : Unmixed pieces) :
    ((pieces.splitOnP isComma).map FilterTree.ofSegment).all (FilterTree.holds v) =
      listHolds (pieces.map (map (FilterTree.holds v))) := by
  rw [listHolds, splitOnP_map, List.all_map, List.all_map, Bool.eq_iff_iff, List.all_eq_true,
    List.all_eq_true]
  refine forall₂_congr fun segment hsegment => ?_
  obtain ⟨word, hword⟩ := h segment hsegment
  simp only [Function.comp_apply, holds_ofSegment v hword]

end Piece

/-! ## Reading keeps the meaning -/

/-- The tree of a condition has its truth value. -/
theorem Condition.holds_toTree (v : Assignment) {c : Condition} {t : FilterTree}
    (h : c.toTree = .ok t) : t.holds v = c.holds v := by
  obtain ⟨-, ⟨value, hvalue, hkind, -, rfl⟩ | ⟨values, hvalues, hkind, -, rfl⟩⟩ :=
    toTree_eq_ok_iff.1 h
  · rw [holds, hvalue]
    cases hcomparator : c.comparator <;> rw [hcomparator] at hkind
    case oneOf => simp [Comparator.takesList] at hkind
    case noneOf => simp [Comparator.takesList] at hkind
    all_goals
      cases c.negative <;>
        simp [ofSingle, FilterTree.holds, Filter.holds, Filter.new, Filter.equal,
          Filter.notEqual, Filter.regex, FilterTree.negate_eq_opposite, FilterTree.holds_opposite]
  · rw [holds, hvalues]
    cases hcomparator : c.comparator <;> rw [hcomparator] at hkind
    case oneOf =>
      cases c.negative <;>
        simp [ofList, FilterTree.holds, Filter.holds, Filter.new, Filter.oneOf, Filter.noneOf]
    case noneOf =>
      cases c.negative <;>
        simp [ofList, FilterTree.holds, Filter.holds, Filter.new, Filter.oneOf, Filter.noneOf]
    all_goals simp [Comparator.takesList] at hkind

namespace FilterTree

open BlockItem

/-- The tree for a list in parentheses has the truth value of the trees of the list. -/
theorem holds_ofGrouped (v : Assignment) {trees : List FilterTree} {t : FilterTree}
    (h : ofGrouped trees = .ok t) : t.holds v = trees.all (holds v) := by
  obtain ⟨-, rfl⟩ := ofGrouped_eq_ok_iff.1 h
  split
  · simp
  · simp [holds, truths_eq_map, Junction.apply]

/-- The trees for a list have, taken together, the truth value of its pieces. -/
theorem all_holds_of_taken (v : Assignment) {pieces : List (Piece FilterTree)}
    {trees : List FilterTree} (hunmixed : Piece.Unmixed pieces)
    (h : (pieces = [] ∧ trees = []) ∨
      (Piece.Alternates true pieces ∧
        trees = (pieces.splitOnP Piece.isComma).map ofSegment)) :
    trees.all (holds v) = Piece.listHolds (pieces.map (Piece.map (holds v))) := by
  rcases h with ⟨rfl, rfl⟩ | ⟨-, rfl⟩
  · simp [Piece.listHolds, Piece.segmentHolds, Piece.operands, Junction.apply]
  · exact Piece.all_holds_ofSegment v hunmixed

end FilterTree

namespace BlockItem

/-- A list and what it is taken for have their separators in common. -/
theorem Taken.pieces_eq {items : List BlockItem} {taken : List (Piece FilterTree)}
    (h : Taken items taken) :
    (pieces items).map (Piece.map fun _ => ()) = taken.map (Piece.map fun _ => ()) := by
  induction h with
  | nil => rfl
  | wildcard _ ih => exact ih
  | condition _ _ ih => simp [pieces, Piece.map, ih]
  | grouped _ _ _ ih => simp [pieces, Piece.map, ih]
  | separator sep _ ih => simp [pieces, Piece.map, ih]

theorem Taken.unmixed {items : List BlockItem} {taken : List (Piece FilterTree)}
    (h : Taken items taken) (hunmixed : Piece.Unmixed (pieces items)) :
    Piece.Unmixed taken := by
  rw [← Piece.unmixed_map (f := fun _ => ()), h.pieces_eq, Piece.unmixed_map] at hunmixed
  exact hunmixed

/-- The operands of a list are taken for trees of the truth values that they have. -/
theorem Taken.truths (v : Assignment) {items : List BlockItem} :
    ∀ {taken : List (Piece FilterTree)}, Taken items taken →
      (∀ inner, .grouped inner ∈ items → Unmixed inner) →
      truths v items = taken.map (Piece.map (FilterTree.holds v)) := by
  induction items using inductionOnItems with
  | nil =>
    rintro _ ⟨⟩ -
    rfl
  | wildcard rest ih =>
    intro _ h hinner
    cases h with
    | wildcard hrest => exact ih hrest fun inner hmem => hinner inner (by simp [hmem])
  | separator sep rest ih =>
    intro _ h hinner
    cases h with
    | separator _ hrest =>
      have := ih hrest fun inner hmem => hinner inner (by simp [hmem])
      simp [BlockItem.truths, Piece.map, this]
  | condition c rest ih =>
    intro _ h hinner
    cases h with
    | condition htree hrest =>
      have := ih hrest fun inner hmem => hinner inner (by simp [hmem])
      simp [BlockItem.truths, Piece.map, this, BlockItem.holds, Condition.holds_toTree v htree]
  | grouped inner rest ihInner ih =>
    intro _ h hinner
    cases h with
    | @grouped _ _ trees t taken hblock htree hrest =>
      have hrestTruths := ih hrest fun inner hmem => hinner inner (by simp [hmem])
      obtain ⟨innerTaken, hinnerTaken, htrees⟩ := FilterTree.ofBlock_eq_ok_iff.1 hblock
      cases hinner inner (by simp) with
      | list hsegments hnested =>
        have hvalue : t.holds v = Piece.listHolds (BlockItem.truths v inner) := by
          rw [FilterTree.holds_ofGrouped v htree, ihInner hinnerTaken hnested]
          exact FilterTree.all_holds_of_taken v (hinnerTaken.unmixed hsegments) htrees
        simp [BlockItem.truths, Piece.map, hrestTruths, BlockItem.holds, hvalue]

end BlockItem

/-- Reading a list keeps its meaning: where no segment mixes `AND` with `OR`, the trees that
the list is read as hold together exactly where the list as written holds. -/
theorem FilterTree.ofBlock_preserves_meaning (v : Assignment) {items : List BlockItem}
    {trees : List FilterTree} (hread : FilterTree.ofBlock items = .ok trees)
    (hunmixed : BlockItem.Unmixed items) :
    trees.all (FilterTree.holds v) = Piece.listHolds (BlockItem.truths v items) := by
  obtain ⟨taken, htaken, htrees⟩ := FilterTree.ofBlock_eq_ok_iff.1 hread
  cases hunmixed with
  | list hsegments hinner =>
    rw [htaken.truths v hinner]
    exact FilterTree.all_holds_of_taken v (htaken.unmixed hsegments) htrees

/-- The list `NOT env:prod OR (host IN (a), !up:~x)`, where `env` is `prod` and `up` fits
`x`. -/
theorem FilterTree.ofBlock_preserves_meaning_nested :
    let v : Assignment :=
      ⟨fun key value => key = "env" && value = "prod", fun key _ => key = "up", fun _ _ => true⟩
    let span : Span := ⟨0, 0⟩
    let inner : List BlockItem :=
      [.condition ⟨false, "host", .oneOf, .list ["a"], span⟩, .separator .comma,
        .condition ⟨true, "up", .regex, .single "x", span⟩]
    let items : List BlockItem :=
      [.separator .not, .condition ⟨false, "env", .colon, .single "prod", span⟩,
        .separator .or, .grouped inner]
    let trees : List FilterTree :=
      [.group .or false
        [.group .and true [.leaf ⟨"env", some .equal, ["prod"]⟩],
          .group .and false [.leaf ⟨"host", some .oneOf, ["a"]⟩,
            .group .and true [.leaf ⟨"up", some .regex, ["x"]⟩]]]]
    FilterTree.ofBlock items = .ok trees ∧ BlockItem.Unmixed items ∧
      trees.all (FilterTree.holds v) = Piece.listHolds (BlockItem.truths v items) := by
  intro v span inner items trees
  have hread : FilterTree.ofBlock items = .ok trees := by rfl
  have hinner : BlockItem.Unmixed inner := by
    refine .list (fun segment hsegment => ⟨.and, ?_⟩) (by simp [inner])
    have : segment = [.operand inner[0]] ∨ segment = [.operand inner[2]] := by
      simpa [BlockItem.pieces, inner, List.splitOnP_cons_eq_if_modifyHead, Piece.isComma]
        using hsegment
    rcases this with rfl | rfl <;> simp [Piece.joinsBy?]
  have hunmixed : BlockItem.Unmixed items := by
    refine .list ?_ (by simp [items, hinner])
    simp [Piece.Unmixed, BlockItem.pieces, items, List.splitOnP_cons_eq_if_modifyHead,
      Piece.isComma, Piece.joinsBy?, Separator.junction?]
  exact ⟨hread, hunmixed, FilterTree.ofBlock_preserves_meaning v hread hunmixed⟩

end MetricQuery
