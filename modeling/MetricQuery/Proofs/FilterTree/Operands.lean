import MetricQuery.Proofs.Filter.Spelled

/-!
# The items that a written tree spells

The text of a filter tree is an operand of a filter list: a condition, or a list in
parentheses, with `NOT`s in front.  `FilterTree.toOperand` gives its items, and
`FilterTree.nesting` the parentheses inside each other that it has.

Not every text is an operand in every place.  `FilterTree.Rereadable` says where it is:

* a filter with the key `NOT` that compares by `IN` may not stand behind `AND` or `OR`,
  where its key is taken for a negation;
* one with the key `IN` that compares with a list may not stand behind a `NOT` of its own,
  which is then taken for the key;
* each filter has to be readable as such (`Filter.Rereadable`).

`FilterTree.spelled` says that a tree which is readable in its place is spelled by its text.
-/

namespace MetricQuery

open Text Grammar

/-! ## Items of trees -/

/-- An operand behind a word that joins it: a `NOT` at its start becomes part of the
separator. -/
def Junction.joined (junction : Junction) : List BlockItem → List BlockItem
  | .separator .not :: items => .separator (junction.separator true) :: items
  | items => .separator (junction.separator false) :: items

/-- Operands joined by a word. -/
def Junction.joinOperands (junction : Junction) : List (List BlockItem) → List BlockItem
  | [] => []
  | first :: rest => first ++ rest.flatMap junction.joined

namespace FilterTree

mutual

/-- The items that the text of a tree spells. -/
def toOperand : FilterTree → List BlockItem
  | .leaf f => f.toOperand
  | .group _ negated [t] => if negated then .separator .not :: toOperand t else toOperand t
  | .group junction negated trees =>
    (if negated then [.separator .not] else []) ++
      [.grouped (junction.joinOperands (toOperands trees))]

/-- The items of some trees, one operand each. -/
def toOperands : List FilterTree → List (List BlockItem)
  | [] => []
  | t :: rest => toOperand t :: toOperands rest

end

mutual

/-- The parentheses inside each other in the text of a tree. -/
def nesting : FilterTree → Nat
  | .leaf _ => 0
  | .group _ _ [t] => nesting t
  | .group _ _ trees => nestingAll trees + 1

/-- The deepest nesting of some trees. -/
def nestingAll : List FilterTree → Nat
  | [] => 0
  | t :: rest => max (nesting t) (nestingAll rest)

end

/-- The text of the tree starts with the word `IN`, which is the key of a filter. -/
def StartsWithIn : FilterTree → Prop
  | .leaf f => f.HasKey "IN" ∧ (f.operation = some .oneOf ∨ f.operation = some .noneOf)
  | .group _ negated [t] => negated = false ∧ StartsWithIn t
  | .group _ _ _ => False

mutual

/-- The text of the tree is an operand where it stands, behind a word that joins it or in
another place. -/
def Rereadable (joined : Bool) : FilterTree → Prop
  | .leaf f =>
    f.Rereadable ∧ (joined = true → f.HasKey "NOT" → f.operation ≠ some .oneOf)
  | .group _ true [t] => Rereadable false t ∧ (joined = false → ¬ StartsWithIn t)
  | .group _ false [t] => Rereadable joined t
  | .group _ _ trees => RereadableAll false trees

/-- The texts of some trees are operands, all but the first one joined to the one in front,
and the first one as well if so said. -/
def RereadableAll (joined : Bool) : List FilterTree → Prop
  | [] => True
  | t :: rest => Rereadable joined t ∧ RereadableAll true rest

end

/-- Induction over trees where a group of one child is a case of its own. -/
@[elab_as_elim]
theorem inductionOnWidth {motive : FilterTree → Prop} (leaf : ∀ f, motive (.leaf f))
    (hollow : ∀ junction negated, motive (.group junction negated []))
    (single : ∀ junction negated t, motive t → motive (.group junction negated [t]))
    (several : ∀ junction negated t u rest, (∀ v ∈ t :: u :: rest, motive v) →
      motive (.group junction negated (t :: u :: rest))) (t : FilterTree) : motive t := by
  induction t with
  | leaf f => exact leaf f
  | group junction negated children ih =>
    match children, ih with
    | [], _ => exact hollow junction negated
    | [t], ih => exact single junction negated t (ih t (by simp))
    | t :: u :: rest, ih => exact several junction negated t u rest ih

theorem toOperands_eq_map (trees : List FilterTree) :
    toOperands trees = trees.map toOperand := by
  induction trees with
  | nil => rfl
  | cons t rest ih => simp [toOperands, ih]

theorem nesting_le_nestingAll {t : FilterTree} {trees : List FilterTree} (h : t ∈ trees) :
    t.nesting ≤ nestingAll trees := by
  induction trees with
  | nil => simp at h
  | cons u rest ih =>
    rw [nestingAll]
    rcases List.mem_cons.1 h with rfl | h
    · exact Nat.le_max_left _ _
    · exact Nat.le_trans (ih h) (Nat.le_max_right _ _)

/-- A tree that starts with the word `IN` has a filter with that key. -/
theorem exists_of_startsWithIn {t : FilterTree} (h : t.StartsWithIn) :
    ∃ f ∈ t.filters, f.HasKey "IN" := by
  induction t using inductionOnWidth with
  | leaf f => exact ⟨f, by simp [filters], h.1⟩
  | hollow => exact h.elim
  | single junction negated t ih =>
    obtain ⟨f, hf, hkey⟩ := ih h.2
    exact ⟨f, mem_filters_group (by simp) hf, hkey⟩
  | several => exact h.elim

/-- A tree of plain filters is readable everywhere. -/
theorem rereadable_of_plain {t : FilterTree} (h : ∀ f ∈ t.filters, f.Plain) :
    ∀ joined, t.Rereadable joined := by
  induction t using inductionOnWidth with
  | leaf f =>
    have hplain := h f (by simp [filters])
    exact fun _ => ⟨hplain.rereadable, fun _ hkey => absurd hkey hplain.key_not⟩
  | hollow junction negated =>
    intro joined
    cases negated <;> exact trivial
  | single junction negated t ih =>
    have hchild : ∀ f ∈ t.filters, f.Plain := fun f hf => h f (mem_filters_group (by simp) hf)
    intro joined
    cases negated with
    | false => exact ih hchild joined
    | true =>
      refine ⟨ih hchild false, fun _ hin => ?_⟩
      obtain ⟨f, hf, hkey⟩ := exists_of_startsWithIn hin
      exact (hchild f hf).key_in hkey
  | several junction negated t u rest ih =>
    have hall : ∀ trees : List FilterTree, (∀ v ∈ trees, v ∈ t :: u :: rest) →
        ∀ joined, RereadableAll joined trees := by
      intro trees htrees
      induction trees with
      | nil => exact fun _ => trivial
      | cons v more ihMore =>
        have hv := htrees v (by simp)
        intro joined
        exact ⟨ih v hv (fun f hf => h f (mem_filters_group hv hf)) joined,
          ihMore (fun w hw => htrees w (by simp [hw])) true⟩
    intro joined
    have := hall (t :: u :: rest) (fun v hv => hv) false
    cases negated <;> simpa [Rereadable] using this

/-- The filters of a readable tree are readable. -/
theorem rereadable_filters {t : FilterTree} :
    ∀ {joined : Bool}, t.Rereadable joined → ∀ f ∈ t.filters, f.Rereadable := by
  induction t using inductionOnWidth with
  | leaf f =>
    intro joined h g hg
    obtain rfl : g = f := by simpa [filters] using hg
    exact h.1
  | hollow =>
    intro joined h g hg
    simp [filters, filtersAll] at hg
  | single junction negated t ih =>
    intro joined h g hg
    have hchild : g ∈ t.filters := by simpa [filters, filtersAll] using hg
    cases negated with
    | false => exact ih h g hchild
    | true => exact ih h.1 g hchild
  | several junction negated t u rest ih =>
    have hall : ∀ trees : List FilterTree, (∀ v ∈ trees, v ∈ t :: u :: rest) →
        ∀ {joined : Bool}, RereadableAll joined trees →
          ∀ v ∈ trees, ∀ g ∈ v.filters, g.Rereadable := by
      intro trees htrees
      induction trees with
      | nil => simp
      | cons v more ihMore =>
        intro joined h w hw
        rcases List.mem_cons.1 hw with rfl | hw
        · exact ih w (htrees w (by simp)) h.1
        · exact ihMore (fun x hx => htrees x (by simp [hx])) h.2 w hw
    intro joined h g hg
    obtain ⟨v, hv, hg⟩ := mem_filtersAll.1 hg
    have hread : RereadableAll false (t :: u :: rest) := by
      cases negated <;> simpa [Rereadable] using h
    exact hall _ (fun w hw => hw) hread v hv g hg

/-! ## Texts of trees -/

/-- Texts behind the first one, each with the word in front that joins it. -/
def joinedText (junction : Junction) (trees : List FilterTree) : List Char :=
  trees.flatMap fun t => ' ' :: (junction.word.toList ++ ' ' :: t.written.toList)

theorem written_single (junction : Junction) (negated : Bool) (t : FilterTree) :
    (FilterTree.group junction negated [t]).written.toList =
      (if negated then "NOT ".toList else []) ++ t.written.toList := by
  cases negated <;> simp [written, writtenAll, joinParts]

theorem written_several (junction : Junction) (negated : Bool) (t u : FilterTree)
    (rest : List FilterTree) :
    (FilterTree.group junction negated (t :: u :: rest)).written.toList =
      (if negated then "NOT ".toList else []) ++
        '(' :: (t.written.toList ++ joinedText junction (u :: rest) ++ [')']) := by
  have hjoined : (s!" {junction.word} ".intercalate ((t :: u :: rest).map written)).toList =
      t.written.toList ++ joinedText junction (u :: rest) := by
    rw [List.map_cons, toList_intercalate_cons]
    simp [joinedText, List.flatMap_map, toString]
  rw [written, writtenAll_eq_map, joinParts]
  cases negated
  · simp [← hjoined]
  · simp [← hjoined]

theorem length_le_joinedText (junction : Junction) {trees : List FilterTree} {t : FilterTree}
    (h : t ∈ trees) : t.written.toList.length ≤ (joinedText junction trees).length := by
  obtain ⟨before, behind, rfl⟩ := List.append_of_mem h
  simp only [joinedText, List.flatMap_append, List.flatMap_cons, List.length_append,
    List.length_cons]
  omega

theorem nestingAll_le {trees : List FilterTree} {bound : Nat}
    (h : ∀ t ∈ trees, t.nesting ≤ bound) : nestingAll trees ≤ bound := by
  induction trees with
  | nil => exact Nat.zero_le bound
  | cons t rest ih =>
    rw [nestingAll]
    exact Nat.max_le.2 ⟨h t (by simp), ih fun u hu => h u (by simp [hu])⟩

/-- Every level of nesting takes characters. -/
theorem nesting_le_length {t : FilterTree} (hcomplete : t.Complete) :
    t.nesting ≤ t.written.toList.length := by
  induction t using inductionOnWidth with
  | leaf f => exact Nat.zero_le _
  | hollow => cases hcomplete; contradiction
  | single junction negated t ih =>
    cases hcomplete with
    | group _ hchildren =>
      have hchild := ih (hchildren t (by simp))
      rw [nesting, written_single, List.length_append]
      omega
  | several junction negated t u rest ih =>
    cases hcomplete with
    | group _ hchildren =>
      have hall : nestingAll (t :: u :: rest) ≤
          (t.written.toList ++ joinedText junction (u :: rest)).length := by
        refine nestingAll_le fun v hv => ?_
        have hchild := ih v hv (hchildren v hv)
        rw [List.length_append]
        rcases List.mem_cons.1 hv with rfl | hv
        · omega
        · have := length_le_joinedText junction hv
          omega
      rw [nesting, written_several]
      · simp only [List.length_append, List.length_cons] at hall ⊢
        omega
      · simp

/-! ## Trees are spelled by their texts -/

/-- A tree starts with the word `IN` exactly if that is a key at its start. -/
theorem comesFirst_in_written {t : FilterTree} (hcomplete : t.Complete) (rest : List Char) :
    comesFirst "IN" (t.written.toList ++ rest) = true ↔ t.StartsWithIn := by
  induction t using inductionOnWidth generalizing rest with
  | leaf f =>
    cases hcomplete with
    | leaf hfilter =>
      obtain ⟨operation, hop, -⟩ := hfilter.values
      rw [written, Filter.comesFirst_written hfilter hop, StartsWithIn, Filter.HasKey, hop]
      cases operation <;> simp [Filter.Operation.isList]
  | hollow => cases hcomplete; contradiction
  | single junction negated t ih =>
    cases hcomplete with
    | group _ hchildren =>
      have hstart := ih (hchildren t (by simp)) rest
      rw [written_single, StartsWithIn]
      cases negated with
      | false => simpa using hstart
      | true => simp [comesFirst, isKeyChar, sameLetters]
  | several junction negated t u more _ =>
    rw [written_several, StartsWithIn]
    · cases negated <;> simp [comesFirst, isKeyChar, sameLetters]
    · simp

/-- Some items with a text may stand behind a word that joins operands. -/
def JoinSpelled (levels : Nat) (junction : Junction) (items : List BlockItem)
    (text : List Char) : Prop :=
  JointSpelled (ListSpelled levels) (junction.joined items)
    (' ' :: (junction.word.toList ++ ' ' :: text))

section Joining

variable {levels : Nat} {junction : Junction} {items : List BlockItem} {text : List Char}

theorem blanks_space : Blanks [' '] := by
  simp [isBlank_space]

theorem joinSpelled_plain (hoperand : OperandSpelled (ListSpelled levels) items text)
    (hnot : comesFirst "NOT" text = false) (hplain : items.head? ≠ some (.separator .not)) :
    JoinSpelled levels junction items text := by
  have hjoined : junction.joined items = .separator (junction.separator false) :: items := by
    unfold Junction.joined
    split
    · simp at hplain
    · rfl
  rw [JoinSpelled, hjoined]
  show JointSpelled _ _ ([' '] ++ (junction.word.toList ++ ([' '] ++ text)))
  exact .joined junction blanks_space (by simp) (sameLetters_self _) blanks_space
    (by simp [endsKeyword, isBlank_space]) hnot hoperand

theorem joinSpelled_not {word : List Char} (hword : sameLetters word "NOT".toList = true)
    (hoperand : OperandSpelled (ListSpelled levels) items text) :
    JoinSpelled levels junction (.separator .not :: items) (word ++ ([' '] ++ text)) := by
  show JointSpelled _ (.separator (junction.separator true) :: items)
    ([' '] ++ (junction.word.toList ++ ([' '] ++ (word ++ ([' '] ++ text)))))
  exact .joinedNot junction blanks_space (by simp) (sameLetters_self _) blanks_space (by simp)
    hword blanks_space (by simp [endsKeyword, isBlank_space]) hoperand

/-- A `NOT` in front of an operand that does not start with `IN`. -/
theorem operandSpelled_not (hin : comesFirst "IN" text = false)
    (hoperand : OperandSpelled (ListSpelled levels) items text) :
    OperandSpelled (ListSpelled levels) (.separator .not :: items) ("NOT ".toList ++ text) := by
  show OperandSpelled _ _ ("NOT".toList ++ ([' '] ++ text))
  exact .negated (sameLetters_self "NOT".toList) blanks_space
    (by simp [endsKeyword, isBlank_space]) hin hoperand

/-- A filter behind a word that joins it. -/
theorem joinSpelled_leaf {f : Filter} (hcomplete : f.Complete) (hread : f.Rereadable)
    (hjoin : f.HasKey "NOT" → f.operation ≠ some .oneOf) :
    JoinSpelled levels junction f.toOperand f.written.toList := by
  obtain ⟨operation, hop, -⟩ := hcomplete.values
  have hoperand := Filter.operandSpelled (ListSpelled levels) hcomplete hread
  have hword : comesFirst "NOT" f.written.toList =
      (sameLetters f.key.toList "NOT".toList && operation.isList) := by
    rw [← Filter.comesFirst_written hcomplete hop [], List.append_nil]
  by_cases hkey : f.HasKey "NOT"
  · cases operation with
    | oneOf => exact absurd hop (hjoin hkey)
    | noneOf =>
      obtain ⟨text, htext, -, hrest⟩ :=
        Filter.written_of_not (ListSpelled levels) hcomplete hop
      have hitems : f.toOperand =
          [.separator .not,
            .condition (.ofParts "NOT" .oneOf (.list (f.values.map Filter.emitted)))] := by
        simp only [Filter.toOperand, hop, if_pos hkey]
      rw [htext, hitems]
      exact joinSpelled_not hkey hrest
    | _ =>
      refine joinSpelled_plain hoperand (by simp [hword, Filter.Operation.isList]) ?_
      simp [Filter.toOperand, hop]
  · refine joinSpelled_plain hoperand ?_ ?_
    · rw [hword, Bool.eq_false_iff.2 hkey, Bool.false_and]
    · cases operation <;> simp [Filter.toOperand, hop, hkey]

end Joining

/-- The texts of a group's children, each in its place. -/
theorem listSpelled_joined {levels : Nat} (junction : Junction) {t : FilterTree}
    {rest : List FilterTree}
    (hfirst : OperandSpelled (ListSpelled levels) t.toOperand t.written.toList)
    (hrest : ∀ u ∈ rest, JoinSpelled levels junction u.toOperand u.written.toList) :
    ListSpelled (levels + 1) (junction.joinOperands (toOperands (t :: rest)))
      (t.written.toList ++ joinedText junction rest) := by
  have htail : TailSpelled (ListSpelled levels) ((rest.map toOperand).flatMap junction.joined)
      (joinedText junction rest) := by
    induction rest with
    | nil => exact .done blanks_nil
    | cons u rest ih =>
      have := TailSpelled.more (hrest u (by simp)) (ih fun v hv => hrest v (by simp [hv]))
      simpa [joinedText] using this
  refine ⟨[], _, _, _, _, blanks_nil, hfirst, htail, ?_, rfl⟩
  simp [toOperands, toOperands_eq_map, Junction.joinOperands]

/-- Children in parentheses are one operand, which a `NOT` may stand in front of. -/
theorem spelled_grouped {levels : Nat} (junction : Junction) (negated : Bool) {text : List Char}
    {items : List BlockItem} (hlist : ListSpelled levels items text) :
    OperandSpelled (ListSpelled levels)
        ((if negated then [.separator .not] else []) ++ [.grouped items])
        ((if negated then "NOT ".toList else []) ++ '(' :: (text ++ [')'])) ∧
      JoinSpelled levels junction
        ((if negated then [.separator .not] else []) ++ [.grouped items])
        ((if negated then "NOT ".toList else []) ++ '(' :: (text ++ [')'])) := by
  have hoperand : OperandSpelled (ListSpelled levels) [.grouped items] ('(' :: (text ++ [')'])) :=
    .core (.grouped hlist) (by simp [BlockItem.LooksNegated])
  have hword : ∀ word : String, word = "NOT" ∨ word = "IN" →
      comesFirst word ('(' :: (text ++ [')'])) = false := by
    rintro word (rfl | rfl)
    · simp [comesFirst, isKeyChar, sameLetters]
    · simp [comesFirst, isKeyChar, sameLetters]
  cases negated with
  | false => exact ⟨hoperand, joinSpelled_plain hoperand (hword _ (.inl rfl)) (by simp)⟩
  | true =>
    exact ⟨operandSpelled_not (hword _ (.inr rfl)) hoperand,
      joinSpelled_not (sameLetters_self "NOT".toList) hoperand⟩

/-- All trees but the first one stand behind a word that joins them. -/
theorem rereadableAll_iff {trees : List FilterTree} :
    RereadableAll true trees ↔ ∀ t ∈ trees, t.Rereadable true := by
  induction trees with
  | nil => simp [RereadableAll]
  | cons t rest ih => simp [RereadableAll, ih]

/-- A complete tree is spelled by its text, as an operand of its own and behind a word that
joins it, if it is readable there and there are levels enough. -/
theorem spelled {t : FilterTree} (hcomplete : t.Complete) {levels : Nat}
    (hlevels : t.nesting ≤ levels) :
    (t.Rereadable false → OperandSpelled (ListSpelled levels) t.toOperand t.written.toList) ∧
      (t.Rereadable true → ∀ junction,
        JoinSpelled levels junction t.toOperand t.written.toList) := by
  induction t using inductionOnWidth generalizing levels with
  | leaf f =>
    cases hcomplete with
    | leaf hfilter =>
      rw [toOperand, written]
      exact ⟨fun hread => Filter.operandSpelled _ hfilter hread.1,
        fun hread _ => joinSpelled_leaf hfilter hread.1 (hread.2 rfl)⟩
  | hollow => cases hcomplete; contradiction
  | single inner negated t ih =>
    cases hcomplete with
    | group _ hchildren =>
      have hchild := hchildren t (by simp)
      rw [nesting] at hlevels
      obtain ⟨hfree, hjoined⟩ := ih hchild hlevels
      rw [toOperand, written_single]
      cases negated with
      | false => simpa [Rereadable] using And.intro hfree hjoined
      | true =>
        rw [if_pos rfl, if_pos rfl]
        constructor
        · intro hread
          have hin : comesFirst "IN" t.written.toList = false := by
            have := (comesFirst_in_written hchild []).not.2 (hread.2 rfl)
            simpa using this
          exact operandSpelled_not hin (hfree hread.1)
        · intro hread junction
          exact joinSpelled_not (sameLetters_self "NOT".toList) (hfree hread.1)
  | several inner negated t u rest ih =>
    cases hcomplete with
    | group _ hchildren =>
      rw [nesting] at hlevels
      · obtain ⟨levels, rfl⟩ : ∃ n, levels = n + 1 := ⟨levels - 1, by omega⟩
        have hfits : ∀ v ∈ t :: u :: rest, v.nesting ≤ levels := fun v hv =>
          Nat.le_trans (nesting_le_nestingAll hv) (Nat.le_of_succ_le_succ hlevels)
        have hgroup : ∀ joined, Rereadable joined (.group inner negated (t :: u :: rest)) →
            ListSpelled (levels + 1) (inner.joinOperands (toOperands (t :: u :: rest)))
              (t.written.toList ++ joinedText inner (u :: rest)) := by
          intro joined hread
          obtain ⟨hfirst, hrest⟩ : RereadableAll false (t :: u :: rest) := by
            rw [Rereadable] at hread
            · exact hread
            · simp
            · simp
          exact listSpelled_joined inner
            ((ih t (by simp) (hchildren t (by simp)) (hfits t (by simp))).1 hfirst)
            (fun v hv => (ih v (by simp [hv]) (hchildren v (by simp [hv]))
              (hfits v (by simp [hv]))).2 (rereadableAll_iff.1 hrest v hv) inner)
        rw [written_several, toOperand]
        · exact ⟨fun hread => (spelled_grouped inner negated (hgroup _ hread)).1,
            fun hread junction => (spelled_grouped junction negated (hgroup _ hread)).2⟩
        · simp
      · simp

end FilterTree

/-! ## Blocks -/

section Blocks

open FilterTree

/-- The items that the text of a block spells: an AND group if there is a group among the
trees, and otherwise the trees with commas between them. -/
def blockOperands (trees : List FilterTree) : List BlockItem :=
  if trees.any isGroup then toOperand (.group .and false trees)
  else
    match toOperands trees with
    | [] => [.wildcard]
    | first :: rest => first ++ rest.flatMap fun items => .separator .comma :: items

/-- The text of each tree of the block is an operand where it stands. -/
def BlockRereadable (trees : List FilterTree) : Prop :=
  if trees.any isGroup then Rereadable false (.group .and false trees)
  else ∀ t ∈ trees, Rereadable false t

/-- The parentheses inside each other in the text of a block. -/
def blockNesting (trees : List FilterTree) : Nat :=
  if trees.any isGroup then nesting (.group .and false trees) else 0

theorem nesting_of_not_isGroup {t : FilterTree} (h : t.isGroup = false) : t.nesting = 0 := by
  cases t with
  | leaf f => rfl
  | group => simp [isGroup] at h

/-- Every level of nesting of a block takes characters. -/
theorem blockNesting_le_length {trees : List FilterTree}
    (hcomplete : ∀ t ∈ trees, t.Complete) :
    blockNesting trees ≤ (writtenBlock trees).toList.length := by
  unfold blockNesting
  split
  · next hgroup =>
    have hne : trees ≠ [] := by
      rintro rfl
      simp at hgroup
    have hgroupComplete : (FilterTree.group .and false trees).Complete := .group hne hcomplete
    rw [writtenBlock_of_isGroup hgroup]
    exact nesting_le_length hgroupComplete
  · exact Nat.zero_le _

/-- A block of plain filters is readable. -/
theorem blockRereadable_of_plain {trees : List FilterTree}
    (h : ∀ t ∈ trees, ∀ f ∈ t.filters, f.Plain) : BlockRereadable trees := by
  unfold BlockRereadable
  split
  · refine rereadable_of_plain (fun f hf => ?_) false
    obtain ⟨t, ht, hf⟩ := mem_filtersAll.1 hf
    exact h t ht f hf
  · exact fun t ht => rereadable_of_plain (h t ht) false

theorem rereadable_of_blockRereadable {trees : List FilterTree} (h : BlockRereadable trees) :
    ∀ t ∈ trees, ∀ f ∈ t.filters, f.Rereadable := by
  intro t ht
  unfold BlockRereadable at h
  split at h
  · exact fun f hf => rereadable_filters h f (mem_filters_group ht hf)
  · exact rereadable_filters (h t ht)

/-- A block that is not empty is spelled by its text. -/
theorem blockSpelled {trees : List FilterTree} {levels : Nat} (hne : trees ≠ [])
    (hcomplete : ∀ t ∈ trees, t.Complete) (hread : BlockRereadable trees)
    (hlevels : blockNesting trees ≤ levels) :
    ListSpelled (levels + 1) (blockOperands trees) (writtenBlock trees).toList := by
  unfold blockOperands BlockRereadable at *
  unfold blockNesting at hlevels
  split at hread
  · next hgroup =>
    rw [if_pos hgroup, writtenBlock_of_isGroup hgroup]
    rw [if_pos hgroup] at hlevels
    have hspelled := (spelled (.group hne hcomplete) hlevels).1 hread
    exact ⟨[], _, _, [], [], blanks_nil, hspelled, .done blanks_nil, by simp, by simp⟩
  · next hgroup =>
    rw [if_neg hgroup, writtenBlock, if_neg (by simpa using hne), if_neg hgroup]
    cases trees with
    | nil => exact absurd rfl hne
    | cons t rest =>
      have hoperand : ∀ u ∈ t :: rest,
          OperandSpelled (ListSpelled levels) u.toOperand u.written.toList := by
        intro u hu
        have hleaf : u.isGroup = false := by
          simpa using (List.any_eq_false.1 (by simpa using hgroup)) u hu
        exact (spelled (hcomplete u hu)
          (by rw [nesting_of_not_isGroup hleaf]; exact Nat.zero_le _)).1 (hread u hu)
      have htail : ∀ us : List FilterTree, (∀ u ∈ us, u ∈ t :: rest) →
          TailSpelled (ListSpelled levels)
            ((toOperands us).flatMap fun items => .separator .comma :: items)
            ((us.map written).flatMap fun text => ", ".toList ++ text.toList) := by
        intro us hus
        induction us with
        | nil => exact .done blanks_nil
        | cons u us ih =>
          have := TailSpelled.more
            (.comma blanks_nil blanks_space (hoperand u (hus u (by simp))))
            (ih fun w hw => hus w (by simp [hw]))
          simpa [toOperands] using this
      rw [List.map_cons, toList_intercalate_cons]
      exact ⟨[], _, _, _, _, blanks_nil, hoperand t (by simp),
        htail rest fun u hu => by simp [hu], rfl, rfl⟩

end Blocks

end MetricQuery
