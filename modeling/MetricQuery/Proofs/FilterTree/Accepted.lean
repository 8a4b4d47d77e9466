import MetricQuery.Proofs.FilterTree.Ingest
import MetricQuery.Proofs.Grammar.Yields

/-!
# Filter lists in terms of their segments

`FilterTree.ofBlock` reads a list in one pass.  Here the answer is given without a pass: which
lists are accepted is a matter of their shape, and the trees are those of the segments.  This
covers all lists, those that no text is read as included.

* `Condition.Usable` and `Condition.tree`: the conditions that are filters, and which ones.
* `BlockItem.Sequence`: the shape `NOT* X (S NOT* X)*` at every level, wildcards left out, where
  `X` is an operand that is accepted and `S` any separator but a `NOT`.
* `BlockItem.treePieces` and `FilterTree.ofPieces`: the operands of a list as trees, and the tree
  of each segment.
* `BlockItem.Taken.eq_treePieces` and `BlockItem.alternates_iff`: a list is taken for these pieces
  only, and for some that alternate exactly if it has the shape.
* `FilterTree.failsToParse_ofBlock`: whatever is refused is refused with a parse error.
* `FilterTree.ofBlock_eq_ofPieces` puts these together.
-/

namespace MetricQuery

/-! ## Conditions -/

namespace Condition

/-- The condition has a key, and a value or values of the form that its comparator takes. -/
def Usable (c : Condition) : Prop :=
  c.key ≠ "" ∧ c.comparator.Takes c.comparand ∧
    match c.comparand with
    | .single value => value ≠ ""
    | .list values => values ≠ []

/-- The operation of the filter.  An exclamation mark turns it into its opposite, which a pattern
does not have. -/
def operation (c : Condition) : Filter.Operation :=
  match c.comparator, c.negative with
  | .colon, false => .equal
  | .colon, true => .notEqual
  | .notColon, false => .notEqual
  | .notColon, true => .equal
  | .regex, _ => .regex
  | .oneOf, false => .oneOf
  | .oneOf, true => .noneOf
  | .noneOf, false => .noneOf
  | .noneOf, true => .oneOf

/-- The tree of a condition: a filter, or a negated group of it for a pattern with an exclamation
mark. -/
def tree (c : Condition) : FilterTree :=
  let leaf := FilterTree.leaf ⟨c.key, some c.operation, c.comparand.texts⟩
  if c.comparator = .regex ∧ c.negative = true then .group .and true [leaf] else leaf

theorem toTree_eq_ok_iff_usable {c : Condition} {t : FilterTree} :
    c.toTree = .ok t ↔ c.Usable ∧ t = c.tree := by
  rw [toTree_eq_ok_iff, Usable, and_assoc]
  refine and_congr_right fun _ => ?_
  cases hcomparand : c.comparand with
  | single value =>
    simp only [Comparand.single.injEq, exists_eq_left', reduceCtorEq, false_and, exists_false,
      or_false, and_assoc, Comparator.takes_single_iff]
    refine and_congr_right fun hkind => and_congr_right fun _ => ?_
    have htree : ofSingle c.key c.comparator c.negative value = c.tree := by
      cases hcomparator : c.comparator <;> cases hnegative : c.negative <;>
        simp_all [ofSingle, tree, operation, Comparand.texts, Comparator.takesList,
          FilterTree.negate, Filter.new, Filter.equal, Filter.notEqual, Filter.regex]
    rw [htree]
  | list values =>
    simp only [Comparand.list.injEq, exists_eq_left', reduceCtorEq, false_and, exists_false,
      false_or, and_assoc, Comparator.takes_list_iff]
    refine and_congr_right fun hkind => and_congr_right fun _ => ?_
    have htree : ofList c.key c.comparator c.negative values = c.tree := by
      cases hcomparator : c.comparator <;> cases hnegative : c.negative <;>
        simp_all [ofList, tree, operation, Comparand.texts, Comparator.takesList, Filter.new,
          Filter.oneOf, Filter.noneOf]
    rw [htree]

end Condition

/-! ## Shapes and trees -/

namespace FilterTree

/-- The trees of a list of pieces, one for each segment. -/
def ofPieces : List (Piece FilterTree) → List FilterTree
  | [] => []
  | pieces => (pieces.splitOnP Piece.isComma).map ofSegment

/-- The tree of a list in parentheses: that of the list if it is a single group, and else a group
of all its trees. -/
def inParentheses : List FilterTree → FilterTree
  | [.group junction negated children] => .group junction negated children
  | trees => .group .and false trees

end FilterTree

namespace BlockItem

def isWildcard : BlockItem → Bool
  | .wildcard => true
  | _ => false

/-- A list without its wildcards. -/
def significant (items : List BlockItem) : List BlockItem :=
  items.filter fun item => !item.isWildcard

mutual

/-- An operand `X` that is accepted: a condition, or a list in parentheses with operands. -/
inductive IsUsable : BlockItem → Prop where
  | condition {c : Condition} (hc : c.Usable) : IsUsable (.condition c)
  | grouped {items : List BlockItem} (hitems : Sequence (significant items)) :
      IsUsable (.grouped items)

/-- A list `NOT* X (S NOT* X)*`. -/
inductive Sequence : List BlockItem → Prop where
  | operand {item : BlockItem} {rest : List BlockItem} (hitem : IsUsable item)
      (hrest : Extension rest) : Sequence (item :: rest)
  | negated {rest : List BlockItem} (hrest : Sequence rest) : Sequence (.separator .not :: rest)

/-- What may follow an operand, `(S NOT* X)*`. -/
inductive Extension : List BlockItem → Prop where
  | done : Extension []
  | separated {sep : Separator} {rest : List BlockItem} (hsep : sep ≠ .not)
      (hrest : Sequence rest) : Extension (.separator sep :: rest)

end

/-- A list that is accepted: nothing but wildcards, or operands and separators in turn. -/
def Acceptable (items : List BlockItem) : Prop :=
  significant items = [] ∨ Sequence (significant items)

mutual

/-- The piece of an item, an operand as the tree that it stands for.  A wildcard has none. -/
def treePiece? : BlockItem → Option (Piece FilterTree)
  | .wildcard => none
  | .condition c => some (.operand c.tree)
  | .grouped items =>
    some (.operand (FilterTree.inParentheses (FilterTree.ofPieces (treePieces items))))
  | .separator sep => some (.separator sep)

/-- The pieces of a list. -/
def treePieces : List BlockItem → List (Piece FilterTree)
  | [] => []
  | item :: rest => (treePiece? item).toList ++ treePieces rest

end

end BlockItem

namespace FilterTree

open BlockItem

theorem ofPieces_of_ne {pieces : List (Piece FilterTree)} (h : pieces ≠ []) :
    ofPieces pieces = (pieces.splitOnP Piece.isComma).map ofSegment := by
  cases pieces with
  | nil => exact absurd rfl h
  | cons piece rest => rfl

theorem ofGrouped_eq_ok_iff_inParentheses {trees : List FilterTree} {t : FilterTree} :
    ofGrouped trees = .ok t ↔ trees ≠ [] ∧ t = inParentheses trees := by
  rw [ofGrouped_eq_ok_iff, eq_comm (a := t)]
  rfl

/-- What a list is accepted as, by its pieces. -/
theorem ofBlock_eq_ok_iff_ofPieces {items : List BlockItem} {trees : List FilterTree} :
    ofBlock items = .ok trees ↔ ∃ pieces, Taken items pieces ∧
      (pieces = [] ∨ Piece.Alternates true pieces) ∧ trees = ofPieces pieces := by
  rw [ofBlock_eq_ok_iff]
  refine exists_congr fun pieces => and_congr_right fun _ => ?_
  cases pieces with
  | nil => simp [Piece.Alternates, ofPieces]
  | cons piece rest => simp [ofPieces]

/-- A list gives a tree exactly if it has an operand. -/
theorem ofPieces_eq_nil_iff {pieces : List (Piece FilterTree)} :
    ofPieces pieces = [] ↔ pieces = [] := by
  constructor
  · intro h
    by_contra hne
    rw [ofPieces_of_ne hne, List.map_eq_nil_iff] at h
    exact List.splitOnP_ne_nil _ _ h
  · rintro rfl
    rfl

end FilterTree

/-! ## Lists that are taken -/

namespace BlockItem

open FilterTree (ofPieces inParentheses)

/-- A list is taken for its pieces and no others. -/
theorem Taken.eq_treePieces {items : List BlockItem} :
    ∀ {pieces : List (Piece FilterTree)}, Taken items pieces → pieces = treePieces items := by
  induction items using inductionOnItems with
  | nil =>
    rintro _ ⟨⟩
    rfl
  | wildcard rest ih =>
    intro _ h
    cases h with
    | wildcard hrest => exact ih hrest
  | condition c rest ih =>
    intro _ h
    cases h with
    | condition htree hrest =>
      rw [(Condition.toTree_eq_ok_iff_usable.1 htree).2, ih hrest]
      rfl
  | grouped inner rest ihInner ih =>
    intro _ h
    cases h with
    | grouped hinner htree hrest =>
      obtain ⟨pieces, htaken, -, rfl⟩ := FilterTree.ofBlock_eq_ok_iff_ofPieces.1 hinner
      obtain ⟨-, rfl⟩ := FilterTree.ofGrouped_eq_ok_iff_inParentheses.1 htree
      rw [ih hrest, ihInner htaken]
      rfl
  | separator sep rest ih =>
    intro _ h
    cases h with
    | separator _ hrest =>
      rw [ih hrest]
      rfl

/-- The list is taken for pieces that alternate, where an operand is due or not. -/
def Alternates (due : Bool) (items : List BlockItem) : Prop :=
  ∃ pieces, Taken items pieces ∧ Piece.Alternates due pieces

section Alternates

variable {due : Bool} {rest : List BlockItem}

theorem alternates_nil : Alternates due [] ↔ due = false := by
  constructor
  · rintro ⟨pieces, htaken, hpieces⟩
    cases htaken
    exact hpieces
  · intro hdue
    exact ⟨[], .nil, hdue⟩

theorem alternates_wildcard : Alternates due (.wildcard :: rest) ↔ Alternates due rest := by
  constructor
  · rintro ⟨pieces, htaken, hpieces⟩
    cases htaken with
    | wildcard hrest => exact ⟨pieces, hrest, hpieces⟩
  · rintro ⟨pieces, hrest, hpieces⟩
    exact ⟨pieces, .wildcard hrest, hpieces⟩

theorem alternates_separator {sep : Separator} :
    Alternates due (.separator sep :: rest) ↔
      (due = true ↔ sep = .not) ∧ Alternates true rest := by
  constructor
  · rintro ⟨pieces, htaken, hpieces⟩
    cases htaken with
    | separator _ hrest => exact ⟨hpieces.1, _, hrest, hpieces.2⟩
  · rintro ⟨hfits, pieces, hrest, hpieces⟩
    exact ⟨_, .separator sep hrest, hfits, hpieces⟩

theorem alternates_condition {c : Condition} :
    Alternates due (.condition c :: rest) ↔ due = true ∧ c.Usable ∧ Alternates false rest := by
  constructor
  · rintro ⟨pieces, htaken, hpieces⟩
    cases htaken with
    | condition htree hrest =>
      exact ⟨hpieces.1, (Condition.toTree_eq_ok_iff_usable.1 htree).1, _, hrest, hpieces.2⟩
  · rintro ⟨hdue, hc, pieces, hrest, hpieces⟩
    have htree : c.toTree = .ok c.tree := Condition.toTree_eq_ok_iff_usable.2 ⟨hc, rfl⟩
    exact ⟨_, .condition htree hrest, hdue, hpieces⟩

/-- A list in parentheses is an operand if it has one itself. -/
theorem alternates_grouped {inner : List BlockItem} :
    Alternates due (.grouped inner :: rest) ↔
      due = true ∧ Alternates true inner ∧ Alternates false rest := by
  constructor
  · rintro ⟨pieces, htaken, hpieces⟩
    cases htaken with
    | grouped hinner htree hrest =>
      obtain ⟨innerPieces, hinnerTaken, hshape, rfl⟩ :=
        FilterTree.ofBlock_eq_ok_iff_ofPieces.1 hinner
      have hne := (FilterTree.ofGrouped_eq_ok_iff_inParentheses.1 htree).1
      rw [ne_eq, FilterTree.ofPieces_eq_nil_iff] at hne
      exact ⟨hpieces.1, ⟨innerPieces, hinnerTaken, hshape.resolve_left hne⟩, _, hrest, hpieces.2⟩
  · rintro ⟨hdue, ⟨innerPieces, hinnerTaken, hinner⟩, pieces, hrest, hpieces⟩
    have hblock : FilterTree.ofBlock inner = .ok (ofPieces innerPieces) :=
      FilterTree.ofBlock_eq_ok_iff_ofPieces.2 ⟨innerPieces, hinnerTaken, .inr hinner, rfl⟩
    have hne : ofPieces innerPieces ≠ [] := by
      rw [ne_eq, FilterTree.ofPieces_eq_nil_iff]
      rintro rfl
      simp [Piece.Alternates] at hinner
    have htree := FilterTree.ofGrouped_eq_ok_iff_inParentheses.2 ⟨hne, rfl⟩
    exact ⟨_, .grouped hblock htree hrest, hdue, hpieces⟩

end Alternates

section Shape

variable {rest : List BlockItem}

theorem sequence_condition {c : Condition} :
    Sequence (.condition c :: rest) ↔ c.Usable ∧ Extension rest := by
  constructor
  · intro h
    cases h with
    | operand hitem hrest =>
      cases hitem with
      | condition hc => exact ⟨hc, hrest⟩
  · exact fun ⟨hc, hrest⟩ => .operand (.condition hc) hrest

theorem sequence_grouped {inner : List BlockItem} :
    Sequence (.grouped inner :: rest) ↔ Sequence (significant inner) ∧ Extension rest := by
  constructor
  · intro h
    cases h with
    | operand hitem hrest =>
      cases hitem with
      | grouped hinner => exact ⟨hinner, hrest⟩
  · exact fun ⟨hinner, hrest⟩ => .operand (.grouped hinner) hrest

theorem sequence_separator {sep : Separator} :
    Sequence (.separator sep :: rest) ↔ sep = .not ∧ Sequence rest := by
  constructor
  · intro h
    cases h with
    | operand hitem => cases hitem
    | negated hrest => exact ⟨rfl, hrest⟩
  · rintro ⟨rfl, hrest⟩
    exact .negated hrest

theorem extension_cons {item : BlockItem} :
    Extension (item :: rest) ↔ ∃ sep ≠ .not, item = .separator sep ∧ Sequence rest := by
  constructor
  · intro h
    cases h with
    | separated hsep hrest => exact ⟨_, hsep, rfl, hrest⟩
  · rintro ⟨sep, hsep, rfl, hrest⟩
    exact .separated hsep hrest

end Shape

/-- The pieces of a list alternate exactly if the list has the shape, at its start or behind an
operand. -/
theorem alternates_iff {items : List BlockItem} :
    (Alternates true items ↔ Sequence (significant items)) ∧
      (Alternates false items ↔ Extension (significant items)) := by
  -- Both at once: each item decides whether an operand is due at the next one.
  induction items using inductionOnItems with
  | nil =>
    rw [alternates_nil, alternates_nil]
    refine ⟨⟨nofun, fun h => ?_⟩, ⟨fun _ => .done, fun _ => rfl⟩⟩
    cases h
  | wildcard rest ih =>
    rw [alternates_wildcard, alternates_wildcard]
    exact ih
  | condition c rest ih =>
    have hcons : significant (.condition c :: rest) = .condition c :: significant rest := rfl
    rw [alternates_condition, alternates_condition, ih.2, hcons, sequence_condition, extension_cons]
    simp
  | grouped inner rest ihInner ih =>
    have hcons : significant (.grouped inner :: rest) = .grouped inner :: significant rest := rfl
    rw [alternates_grouped, alternates_grouped, ihInner.1, ih.2, hcons, sequence_grouped,
      extension_cons]
    simp
  | separator sep rest ih =>
    have hcons : significant (.separator sep :: rest) = .separator sep :: significant rest := rfl
    rw [alternates_separator, alternates_separator, ih.1, hcons, sequence_separator, extension_cons]
    simp

/-- Nothing is left of a list of wildcards. -/
theorem taken_nil_iff {items : List BlockItem} : Taken items [] ↔ significant items = [] := by
  induction items with
  | nil => exact ⟨fun _ => rfl, fun _ => .nil⟩
  | cons item rest ih =>
    cases item with
    | wildcard =>
      refine Iff.trans ⟨fun h => ?_, .wildcard⟩ ih
      cases h with
      | wildcard hrest => exact hrest
    | _ => exact ⟨nofun, nofun⟩

end BlockItem

/-! ## Refusals -/

/-- Whatever goes wrong is a parse error. -/
def FailsToParse {α : Type} (result : Except QueryError α) : Prop :=
  ∀ error, result = .error error → error.kind = .parse

theorem FailsToParse.bind {α β : Type} {result : Except QueryError α}
    {next : α → Except QueryError β} (h : FailsToParse result)
    (hnext : ∀ a, FailsToParse (next a)) : FailsToParse (result >>= next) := by
  cases result with
  | ok a => exact hnext a
  | error e =>
    rintro _ ⟨⟩
    exact h e rfl

theorem failsToParse_inContext {α : Type} {context : Context} {result : Except QueryError α}
    (h : FailsToParse result) : FailsToParse (inContext context result) := by
  cases result with
  | ok a => exact nofun
  | error e =>
    rintro _ ⟨⟩
    exact h e rfl

theorem failsToParse_blockStep {α : Type} (result : Except BlockFault α) :
    FailsToParse (blockStep result) := by
  cases result with
  | ok a => exact nofun
  | error fault =>
    rintro _ ⟨⟩
    rfl

namespace FilterTree

theorem failsToParse_readItems {items : List BlockItem} :
    ∀ s, FailsToParse (readItems s items) := by
  induction items using BlockItem.inductionOnItems with
  | nil => exact fun s => nofun
  | wildcard rest ih => exact fun s => ih s
  | condition c rest ih => exact fun s => (failsToParse_blockStep _).bind ih
  | grouped inner rest ihInner ih =>
    intro s
    have hinner := (ihInner {}).bind fun inner => failsToParse_blockStep inner.finish
    exact ((failsToParse_inContext hinner).bind fun trees => failsToParse_blockStep _).bind ih
  | separator sep rest ih => exact fun s => (failsToParse_blockStep _).bind ih

theorem failsToParse_ofBlock (items : List BlockItem) : FailsToParse (ofBlock items) :=
  (failsToParse_readItems {}).bind fun s => failsToParse_blockStep s.finish

open BlockItem

theorem ofBlock_eq_ok_iff_acceptable {items : List BlockItem} {trees : List FilterTree} :
    ofBlock items = .ok trees ↔ Acceptable items ∧ trees = ofPieces (treePieces items) := by
  rw [ofBlock_eq_ok_iff_ofPieces, Acceptable, ← taken_nil_iff, ← alternates_iff.1]
  constructor
  · rintro ⟨pieces, htaken, rfl | hpieces, rfl⟩
    · exact ⟨.inl htaken, by rw [← htaken.eq_treePieces]⟩
    · exact ⟨.inr ⟨pieces, htaken, hpieces⟩, by rw [htaken.eq_treePieces]⟩
  · rintro ⟨htaken | ⟨pieces, htaken, hpieces⟩, rfl⟩
    · exact ⟨[], htaken, .inl rfl, by rw [htaken.eq_treePieces]⟩
    · exact ⟨pieces, htaken, .inr hpieces, by rw [htaken.eq_treePieces]⟩

/-- A list is accepted exactly if it has the shape at every level, and then it is read as the trees
of its segments.  Any other list is refused with a parse error. -/
theorem ofBlock_eq_ofPieces (items : List BlockItem) :
    (ofBlock items = .ok (ofPieces (treePieces items)) ↔ Acceptable items) ∧
      ((∃ error, ofBlock items = .error error ∧ error.kind = .parse) ↔ ¬ Acceptable items) := by
  have haccepted : ofBlock items = .ok (ofPieces (treePieces items)) ↔ Acceptable items := by
    rw [ofBlock_eq_ok_iff_acceptable, and_iff_left rfl]
  refine ⟨haccepted, ?_, fun hrefused => ?_⟩
  · rintro ⟨error, herror, -⟩ hacceptable
    rw [haccepted.2 hacceptable] at herror
    cases herror
  · cases hread : ofBlock items with
    | ok trees => exact absurd (ofBlock_eq_ok_iff_acceptable.1 hread).1 hrefused
    | error error => exact ⟨error, rfl, failsToParse_ofBlock items error hread⟩

/-- Wildcards are left out wherever they stand, and `NOT`s count up to a list in parentheses. -/
example :
    let a : Condition := ⟨false, "a", .colon, .single "1", ⟨0, 0⟩⟩
    let b : Condition := ⟨true, "b", .noneOf, .list ["2"], ⟨0, 0⟩⟩
    ofBlock [.separator .not, .wildcard, .condition a, .wildcard, .separator .orNot, .wildcard,
        .grouped [.wildcard, .separator .not, .condition b]] =
      .ok [.group .or false
        [.group .and true [.leaf ⟨"a", some .equal, ["1"]⟩],
          .group .and false [.leaf ⟨"b", some .oneOf, ["2"]⟩]]] := by
  rfl

end FilterTree

end MetricQuery
