import MetricQuery.Proofs.FilterTree.Segments
import MetricQuery.Proofs.FilterTree.Written
import MetricQuery.Proofs.Grammar.Yields

/-!
# What a filter list is accepted as

`BlockItem.Taken items pieces` says that the operands of a list are taken for trees, those of
nested lists included.  `FilterTree.ofBlock_eq_ok_iff` puts it together with the reader of
pieces: a list is accepted if its pieces alternate, and each of its segments gives a tree.

`BlockItem.inductionOnItems` is the induction over lists of items, nested lists included.
-/

namespace MetricQuery

theorem blockStep_eq_ok_iff {α : Type} {result : Except BlockFault α} {a : α} :
    blockStep result = .ok a ↔ result = .ok a := by
  cases result <;> simp [blockStep]

namespace Comparator

variable {comparator : Comparator}

theorem takes_single_iff {value : String} :
    comparator.Takes (.single value) ↔ comparator.takesList = false := by
  constructor
  · rintro ⟨⟩ <;> rfl
  · cases comparator with
    | colon => exact fun _ => .colon
    | notColon => exact fun _ => .notColon
    | regex => exact fun _ => .regex
    | _ => nofun

theorem takes_list_iff {values : List String} :
    comparator.Takes (.list values) ↔ comparator.takesList = true := by
  constructor
  · rintro ⟨⟩ <;> rfl
  · cases comparator with
    | oneOf => exact fun _ => .oneOf
    | noneOf => exact fun _ => .noneOf
    | _ => nofun

theorem Takes.oneOf_or_noneOf {values : List String} (h : comparator.Takes (.list values)) :
    comparator = .oneOf ∨ comparator = .noneOf := by
  cases h with
  | oneOf => exact .inl rfl
  | noneOf => exact .inr rfl

end Comparator

/-- A condition is accepted with a key and with a value, or values, of the kind that its
comparator takes. -/
theorem Condition.toTree_eq_ok_iff {c : Condition} {t : FilterTree} :
    c.toTree = .ok t ↔ c.key ≠ "" ∧
      ((∃ value, c.comparand = .single value ∧ c.comparator.takesList = false ∧ value ≠ "" ∧
          t = ofSingle c.key c.comparator c.negative value) ∨
        ∃ values, c.comparand = .list values ∧ c.comparator.takesList = true ∧ values ≠ [] ∧
          t = ofList c.key c.comparator c.negative values) := by
  by_cases hkey : c.key = ""
  · simp [toTree, hkey]
  · cases hcomparand : c.comparand with
    | single value =>
      by_cases hvalue : value = ""
      · cases hkind : c.comparator.takesList <;> simp [toTree, hkey, hcomparand, hkind, hvalue]
      · cases hkind : c.comparator.takesList
        · simp [toTree, hkey, hcomparand, hkind, hvalue]
          exact eq_comm
        · simp [toTree, hkey, hcomparand, hkind]
    | list values =>
      by_cases hvalues : values = []
      · cases hkind : c.comparator.takesList <;> simp [toTree, hkey, hcomparand, hkind, hvalues]
      · cases hkind : c.comparator.takesList
        · simp [toTree, hkey, hcomparand, hkind]
        · simp [toTree, hkey, hcomparand, hkind, hvalues]
          exact eq_comm

namespace BlockItem

/-- What holds of the empty list, and of a longer one if it holds of what follows the first
item and of the list that this item nests, holds of every list. -/
@[elab_as_elim]
theorem inductionOnItems {motive : List BlockItem → Prop} (nil : motive [])
    (wildcard : ∀ rest, motive rest → motive (.wildcard :: rest))
    (condition : ∀ c rest, motive rest → motive (.condition c :: rest))
    (grouped : ∀ inner rest, motive inner → motive rest → motive (.grouped inner :: rest))
    (separator : ∀ sep rest, motive rest → motive (.separator sep :: rest))
    (items : List BlockItem) : motive items := by
  refine BlockItem.rec_1 (motive_1 := fun item => ∀ rest, motive rest → motive (item :: rest))
    (motive_2 := motive) ?_ ?_ ?_ ?_ nil ?_ items
  · exact wildcard
  · exact condition
  · exact fun inner hinner rest hrest => grouped inner rest hinner hrest
  · exact separator
  · exact fun item rest hitem hrest => hitem rest hrest

/-- The items with each operand taken for the tree that it gives.  A wildcard is left out. -/
inductive Taken : List BlockItem → List (Piece FilterTree) → Prop where
  | nil : Taken [] []
  | wildcard {items : List BlockItem} {pieces : List (Piece FilterTree)}
      (hrest : Taken items pieces) : Taken (.wildcard :: items) pieces
  | condition {c : Condition} {t : FilterTree} {items : List BlockItem}
      {pieces : List (Piece FilterTree)} (htree : c.toTree = .ok t)
      (hrest : Taken items pieces) : Taken (.condition c :: items) (.operand t :: pieces)
  | grouped {inner items : List BlockItem} {trees : List FilterTree} {t : FilterTree}
      {pieces : List (Piece FilterTree)} (hinner : FilterTree.ofBlock inner = .ok trees)
      (htree : FilterTree.ofGrouped trees = .ok t) (hrest : Taken items pieces) :
      Taken (.grouped inner :: items) (.operand t :: pieces)
  | separator {items : List BlockItem} {pieces : List (Piece FilterTree)} (sep : Separator)
      (hrest : Taken items pieces) : Taken (.separator sep :: items) (.separator sep :: pieces)

end BlockItem

namespace FilterTree

open BlockItem

/-- Items are read as the pieces they are taken for. -/
theorem readItems_eq_ok_iff {items : List BlockItem} : ∀ {s s' : Ingest},
    readItems s items = .ok s' ↔ ∃ pieces, Taken items pieces ∧ s.run pieces = .ok s' := by
  induction items using inductionOnItems with
  | nil =>
    intro s s'
    rw [readItems]
    constructor
    · rintro ⟨⟩
      exact ⟨[], .nil, rfl⟩
    · rintro ⟨_, ⟨⟩, ⟨⟩⟩
      rfl
  | wildcard rest ih =>
    intro s s'
    rw [readItems, readItem, bind_eq_ok_iff]
    constructor
    · rintro ⟨_, ⟨⟩, hread⟩
      obtain ⟨pieces, htaken, hrun⟩ := ih.1 hread
      exact ⟨pieces, .wildcard htaken, hrun⟩
    · rintro ⟨_, hitems, hrun⟩
      cases hitems with
      | wildcard htaken => exact ⟨s, rfl, ih.2 ⟨_, htaken, hrun⟩⟩
  | condition c rest ih =>
    intro s s'
    simp only [readItems, readItem, bind_eq_ok_iff, blockStep_eq_ok_iff]
    constructor
    · rintro ⟨middle, ⟨t, htree, hoperand⟩, hread⟩
      obtain ⟨pieces, htaken, hrun⟩ := ih.1 hread
      exact ⟨_, .condition htree htaken, bind_eq_ok_iff.2 ⟨middle, hoperand, hrun⟩⟩
    · rintro ⟨_, hitems, hrun⟩
      cases hitems with
      | condition htree htaken =>
        obtain ⟨middle, hoperand, hrun⟩ := bind_eq_ok_iff.1 hrun
        exact ⟨middle, ⟨_, htree, hoperand⟩, ih.2 ⟨_, htaken, hrun⟩⟩
  | grouped inner rest _ ih =>
    intro s s'
    simp only [readItems, readItem, bind_eq_ok_iff, blockStep_eq_ok_iff, inContext_eq_ok_iff]
    constructor
    · rintro ⟨middle, ⟨trees, hinner, t, htree, hoperand⟩, hread⟩
      obtain ⟨pieces, htaken, hrun⟩ := ih.1 hread
      have hblock : ofBlock inner = .ok trees := by
        simpa only [ofBlock, bind_eq_ok_iff, blockStep_eq_ok_iff] using hinner
      exact ⟨_, .grouped hblock htree htaken, bind_eq_ok_iff.2 ⟨middle, hoperand, hrun⟩⟩
    · rintro ⟨_, hitems, hrun⟩
      cases hitems with
      | grouped hblock htree htaken =>
        obtain ⟨middle, hoperand, hrun⟩ := bind_eq_ok_iff.1 hrun
        simp only [ofBlock, bind_eq_ok_iff, blockStep_eq_ok_iff] at hblock
        exact ⟨middle, ⟨_, hblock, _, htree, hoperand⟩, ih.2 ⟨_, htaken, hrun⟩⟩
  | separator sep rest ih =>
    intro s s'
    simp only [readItems, readItem, bind_eq_ok_iff, blockStep_eq_ok_iff]
    constructor
    · rintro ⟨middle, hsep, hread⟩
      obtain ⟨pieces, htaken, hrun⟩ := ih.1 hread
      exact ⟨_, .separator sep htaken, bind_eq_ok_iff.2 ⟨middle, hsep, hrun⟩⟩
    · rintro ⟨_, hitems, hrun⟩
      cases hitems with
      | separator sep htaken =>
        obtain ⟨middle, hsep, hrun⟩ := bind_eq_ok_iff.1 hrun
        exact ⟨middle, hsep, ih.2 ⟨_, htaken, hrun⟩⟩

/-- What a list is accepted as: no trees at all if it has only wildcards, and otherwise one for
each segment of its pieces, which alternate. -/
theorem ofBlock_eq_ok_iff {items : List BlockItem} {trees : List FilterTree} :
    ofBlock items = .ok trees ↔ ∃ pieces, Taken items pieces ∧
      ((pieces = [] ∧ trees = []) ∨
        (Piece.Alternates true pieces ∧
          trees = (pieces.splitOnP Piece.isComma).map ofSegment)) := by
  simp only [ofBlock, bind_eq_ok_iff, blockStep_eq_ok_iff, readItems_eq_ok_iff,
    ← Ingest.run_start_eq_ok_iff]
  constructor
  · rintro ⟨s, ⟨pieces, htaken, hrun⟩, hfinish⟩
    exact ⟨pieces, htaken, s, hrun, hfinish⟩
  · rintro ⟨pieces, htaken, s, hrun, hfinish⟩
    exact ⟨s, ⟨pieces, htaken, hrun⟩, hfinish⟩

theorem ofGrouped_eq_ok_iff {trees : List FilterTree} {t : FilterTree} :
    ofGrouped trees = .ok t ↔ trees ≠ [] ∧
      (match trees with
        | [.group junction negated children] => .group junction negated children
        | trees => .group .and false trees) = t := by
  unfold ofGrouped
  split
  · simp
  · simp
  · next hne _ => simp [show trees ≠ [] from hne]

/-! ## Positions do not matter -/

theorem readItems_unplacedAll (items : List BlockItem) :
    ∀ s, readItems s (unplacedAll items) = readItems s items := by
  induction items using inductionOnItems with
  | nil => exact fun _ => rfl
  | wildcard rest ih =>
    intro s
    rw [unplacedAll, unplaced, readItems, readItems]
    exact bind_congr ih
  | condition c rest ih =>
    intro s
    rw [unplacedAll, unplaced, readItems, readItems]
    exact bind_congr ih
  | grouped inner rest ihInner ih =>
    intro s
    rw [unplacedAll, unplaced, readItems, readItems, readItem, readItem, ihInner]
    exact bind_congr ih
  | separator sep rest ih =>
    intro s
    rw [unplacedAll, unplaced, readItems, readItems]
    exact bind_congr ih

/-- Lists that differ in positions only are read alike. -/
theorem ofBlock_of_agree {a b : List BlockItem} (h : Agree a b) : ofBlock a = ofBlock b := by
  rw [ofBlock, ofBlock, ← readItems_unplacedAll a, ← readItems_unplacedAll b, h]

end FilterTree

end MetricQuery
