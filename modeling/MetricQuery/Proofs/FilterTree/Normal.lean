import MetricQuery.Proofs.FilterTree.Ingest
import MetricQuery.Proofs.FilterTree.Operands

/-!
# What written trees are read back as

A tree that is written and read again keeps neither groups of one child nor values that
are written in another form: what comes back is its normal form.

* `FilterTree.normalUnder`: groups of one child go, and what is left of a chain of them is
  negated if an odd number of them was.
* `FilterTree.reread`: a filter with the key `NOT` that compares by `NOT IN`, and one that is
  equal to a text with a sign `~` in front, are read back as other tests.
* `ofBlock_blockOperands`: the items that the text of a block spells give its normal form.
-/

namespace MetricQuery

open Text Grammar BlockItem

/-! ## Normal forms -/

/-- The filter with its values as they are written. -/
def Filter.asEmitted (f : Filter) : Filter :=
  { f with values := f.values.map Filter.emitted }

namespace FilterTree

mutual

/-- The normal form of a tree inside groups of one child, of which an odd number is negated or
not. -/
def normalUnder (odd : Bool) : FilterTree → FilterTree
  | .leaf f => if odd then .group .and true [.leaf f.asEmitted] else .leaf f.asEmitted
  | .group _ negated [t] => normalUnder (odd != negated) t
  | .group junction negated trees => .group junction (odd != negated) (normalAll trees)

/-- The normal forms of some trees. -/
def normalAll : List FilterTree → List FilterTree
  | [] => []
  | t :: rest => normalUnder false t :: normalAll rest

end

/-- The normal form of a tree. -/
def normal (t : FilterTree) : FilterTree :=
  normalUnder false t

theorem normalAll_eq_map (trees : List FilterTree) : normalAll trees = trees.map normal := by
  induction trees with
  | nil => rfl
  | cons t rest ih => rw [normalAll, ih, List.map_cons, normal]

end FilterTree

/-- The normal form of a block: with a group among its trees it is one AND group. -/
def normalBlock (trees : List FilterTree) : List FilterTree :=
  if trees.any FilterTree.isGroup then [FilterTree.normal (.group .and false trees)]
  else trees.map FilterTree.normal

/-! ## Filters that are read back as others -/

/-- The filter as it is read back, but for the form of its values. -/
def Filter.reread (f : Filter) : FilterTree :=
  match f.operation, f.values with
  | some .noneOf, values =>
    if f.HasKey "NOT" then .group .and true [.leaf ((Filter.new "NOT").oneOf values)]
    else .leaf f
  | some .equal, [value] =>
    match (Filter.emitted value).toList with
    | '~' :: pattern => .leaf ((Filter.new f.key).regex (String.ofList pattern))
    | _ => .leaf f
  | _, _ => .leaf f

namespace FilterTree

mutual

/-- The tree as it is read back, up to its normal form. -/
def reread : FilterTree → FilterTree
  | .leaf f => f.reread
  | .group junction negated trees => .group junction negated (rereadAll trees)

/-- Some trees as they are read back, up to normal forms. -/
def rereadAll : List FilterTree → List FilterTree
  | [] => []
  | t :: rest => reread t :: rereadAll rest

end

theorem rereadAll_eq_map (trees : List FilterTree) : rereadAll trees = trees.map reread := by
  induction trees with
  | nil => rfl
  | cons t rest ih => rw [rereadAll, ih, List.map_cons]

/-- The trees that a written block is read back as. -/
def rereadBlock (trees : List FilterTree) : List FilterTree :=
  if trees.any isGroup then [(reread (.group .and false trees)).normal]
  else trees.map fun t => t.reread.normal

end FilterTree

theorem Filter.reread_eq_leaf {f : Filter} (hkey : f.operation = some .noneOf → ¬ f.HasKey "NOT")
    (hvalue : f.operation = some .equal →
      ∀ v ∈ f.values, (Filter.emitted v).toList.head? ≠ some '~') :
    f.reread = .leaf f := by
  unfold Filter.reread
  split
  · next hop => rw [if_neg (hkey hop)]
  · next value hop hvalues =>
    split
    · next pattern htext =>
      exact absurd (by rw [htext]; rfl) (hvalue hop value (by simp [hvalues]))
    · rfl
  · rfl

theorem Filter.Plain.reread_eq {f : Filter} (h : f.Plain) : f.reread = .leaf f :=
  reread_eq_leaf (fun _ => h.key_not) h.value

namespace FilterTree

/-- A tree of plain filters is read back as it is. -/
theorem reread_of_plain {t : FilterTree} (h : ∀ f ∈ t.filters, f.Plain) : t.reread = t := by
  induction t with
  | leaf f => exact (h f (by simp [filters])).reread_eq
  | group junction negated children ih =>
    rw [reread, rereadAll_eq_map]
    congr 1
    refine (List.map_congr_left fun t ht => ?_).trans (List.map_id children)
    exact ih t ht fun f hf => h f (mem_filters_group ht hf)

theorem rereadBlock_of_plain {trees : List FilterTree}
    (h : ∀ t ∈ trees, ∀ f ∈ t.filters, f.Plain) : rereadBlock trees = normalBlock trees := by
  unfold rereadBlock normalBlock
  split
  · rw [reread_of_plain]
    intro f hf
    obtain ⟨t, ht, hf⟩ := mem_filtersAll.1 hf
    exact h t ht f hf
  · exact List.map_congr_left fun t ht => by rw [reread_of_plain (h t ht)]

end FilterTree

/-! ## Operands with `NOT`s in front -/

/-- A separator that joins operands is no `NOT` of its own and no comma; it joins by its word
and negates if it is told to. -/
theorem Junction.separator_facts (junction : Junction) (negated : Bool) :
    junction.separator negated ≠ .not ∧ (junction.separator negated).negates = negated ∧
      (junction.separator negated).junction? = some junction ∧
      ∀ {α : Type}, (Piece.separator (junction.separator negated) : Piece α).isComma = false := by
  cases junction <;> cases negated <;> exact ⟨by decide, rfl, rfl, rfl⟩

/-- An operand with so many `NOT`s in front of it, as items. -/
def BlockItem.behindNots (count : Nat) (operand : BlockItem) : List BlockItem :=
  List.replicate count (.separator .not) ++ [operand]

/-- One more `NOT` changes whether their number is odd. -/
theorem bne_parity_succ (odd : Bool) (count : Nat) :
    (odd != decide ((count + 1) % 2 = 1)) = ((odd != true) != decide (count % 2 = 1)) := by
  have hparity : decide ((count + 1) % 2 = 1) = !decide (count % 2 = 1) := by
    rcases Nat.mod_two_eq_zero_or_one count with h | h <;> simp [Nat.add_mod, h]
  rw [hparity]
  cases odd <;> cases decide (count % 2 = 1) <;> rfl

namespace Piece

variable {α : Type}

/-- An operand with so many `NOT`s in front of it, as pieces. -/
def behindNots (count : Nat) (a : α) : List (Piece α) :=
  List.replicate count (.separator .not) ++ [.operand a]

theorem alternates_behindNots (count : Nat) (a : α) (rest : List (Piece α)) :
    Alternates true (behindNots count a ++ rest) ↔ Alternates false rest := by
  induction count with
  | zero => simp [behindNots, Alternates, Fits, isSeparator]
  | succ count ih =>
    rw [← ih]
    simp [behindNots, List.replicate_succ, Alternates, Fits, isSeparator]

theorem operands_behindNots (opposite : α → α) (count : Nat) (a : α) (rest : List (Piece α)) :
    ∀ odd, operands opposite odd (behindNots count a ++ rest) =
      (if odd != decide (count % 2 = 1) then opposite a else a) ::
        operands opposite false rest := by
  induction count with
  | zero => simp [behindNots, operands]
  | succ count ih =>
    intro odd
    rw [bne_parity_succ, ← ih]
    simp [behindNots, List.replicate_succ, operands, Separator.negates]

theorem junction_behindNots (word : Junction) (count : Nat) (a : α) (rest : List (Piece α)) :
    junction word (behindNots count a ++ rest) = junction word rest := by
  induction count with
  | zero => rfl
  | succ count ih =>
    rw [← ih]
    rfl

theorem isComma_behindNots {count : Nat} {a : α} :
    ∀ piece ∈ behindNots count a, piece.isComma = false := by
  intro piece hpiece
  rcases List.mem_append.1 hpiece with hpiece | hpiece
  · rw [List.eq_of_mem_replicate hpiece]
    rfl
  · rw [List.mem_singleton.1 hpiece]
    rfl

end Piece

theorem BlockItem.Taken.append {a b : List BlockItem} {p q : List (Piece FilterTree)}
    (ha : Taken a p) (hb : Taken b q) : Taken (a ++ b) (p ++ q) := by
  induction ha with
  | nil => exact hb
  | wildcard _ ih => exact .wildcard ih
  | condition htree _ ih => exact .condition htree ih
  | grouped hinner htree _ ih => exact .grouped hinner htree ih
  | separator sep _ ih => exact .separator sep ih

theorem BlockItem.Taken.behindNots {operand : BlockItem} {t : FilterTree}
    (h : Taken [operand] [.operand t]) (count : Nat) :
    Taken (BlockItem.behindNots count operand) (Piece.behindNots count t) := by
  induction count with
  | zero => exact h
  | succ count ih =>
    simpa [BlockItem.behindNots, Piece.behindNots, List.replicate_succ] using
      Taken.separator .not ih

/-! ## Trees are read back as their normal forms -/

namespace FilterTree

/-- The items of a tree are `NOT`s and an operand, which is taken for `core`.  That and the
number of `NOT`s make up the normal form of what the tree is read back as. -/
structure ReadsBack (t : FilterTree) (count : Nat) (operand : BlockItem) (core : FilterTree) :
    Prop where
  items : t.toOperand = BlockItem.behindNots count operand
  notSeparator : ∀ sep, operand ≠ .separator sep
  taken : Taken [operand] [.operand core]
  normal : ∀ odd, t.reread.normalUnder odd =
    if odd != decide (count % 2 = 1) then core.opposite else core

theorem normalUnder_leaf (f : Filter) (odd : Bool) :
    (leaf f).normalUnder odd =
      if odd then (leaf f.asEmitted).opposite else leaf f.asEmitted := by
  cases odd <;> simp [normalUnder, opposite]

/-- A filter that is written as one condition. -/
theorem readsBack_condition {f g : Filter} {key : String} {comparator : Comparator}
    {comparand : Comparand}
    (hitems : f.toOperand = [.condition (.ofParts key comparator comparand)])
    (htree : (Condition.ofParts key comparator comparand).toTree = .ok (.leaf g.asEmitted))
    (hreread : f.reread = .leaf g) :
    ReadsBack (.leaf f) 0 (.condition (.ofParts key comparator comparand))
      (.leaf g.asEmitted) where
  items := by rw [toOperand, hitems]; rfl
  notSeparator := by simp
  taken := .condition htree .nil
  normal odd := by rw [reread, hreread, normalUnder_leaf]; simp

theorem emitted_ne {f : Filter} {v : String} (hcomplete : f.Complete) (hv : f.values = [v]) :
    Filter.emitted v ≠ "" := by
  have htoken := Filter.isToken_emitted (hcomplete.value_ne v (by simp [hv]))
  exact fun hempty => htoken.ne_nil (by rw [hempty]; rfl)

section Leaves

variable {f : Filter} {v : String}

/-- A filter with one value that is read back as it is. -/
theorem readsBack_single (comparator : Comparator) (hcomplete : f.Complete)
    (hv : f.values = [v]) (hkind : comparator.takesList = false)
    (hitems : f.toOperand =
      [.condition (.ofParts f.key comparator (.single (Filter.emitted v)))])
    (hreread : f.reread = .leaf f)
    (htree : Condition.ofSingle f.key comparator false (Filter.emitted v) = .leaf f.asEmitted) :
    ∃ count operand core, ReadsBack (.leaf f) count operand core := by
  refine ⟨_, _, _, readsBack_condition hitems ?_ hreread⟩
  exact Condition.toTree_eq_ok_iff.2 ⟨hcomplete.key_ne,
    .inl ⟨_, rfl, hkind, emitted_ne hcomplete hv, htree.symm⟩⟩

/-- A filter with a list that is read back as it is. -/
theorem readsBack_list (comparator : Comparator) (hcomplete : f.Complete)
    (hne : f.values.map Filter.emitted ≠ []) (hkind : comparator.takesList = true)
    (hitems : f.toOperand =
      [.condition (.ofParts f.key comparator (.list (f.values.map Filter.emitted)))])
    (hreread : f.reread = .leaf f)
    (htree : Condition.ofList f.key comparator false (f.values.map Filter.emitted) =
      .leaf f.asEmitted) :
    ∃ count operand core, ReadsBack (.leaf f) count operand core := by
  refine ⟨_, _, _, readsBack_condition hitems ?_ hreread⟩
  exact Condition.toTree_eq_ok_iff.2 ⟨hcomplete.key_ne,
    .inr ⟨_, rfl, hkind, hne, htree.symm⟩⟩

/-- A value with the sign `~` in front is read back as a pattern. -/
theorem readsBack_pattern {pattern : List Char} (hcomplete : f.Complete)
    (htoken : IsToken pattern)
    (hitems : f.toOperand =
      [.condition (.ofParts f.key .regex (.single (String.ofList pattern)))])
    (hreread : f.reread = .leaf ((Filter.new f.key).regex (String.ofList pattern))) :
    ∃ count operand core, ReadsBack (.leaf f) count operand core := by
  have hpattern : String.ofList pattern ≠ "" := by
    simpa [String.ext_iff] using htoken.ne_nil
  have hkept : Filter.emitted (String.ofList pattern) = String.ofList pattern :=
    Filter.emitted_eq_self (by simpa using htoken)
  refine ⟨_, _, _, readsBack_condition hitems ?_ hreread⟩
  refine Condition.toTree_eq_ok_iff.2 ⟨hcomplete.key_ne, .inl ⟨_, rfl, rfl, hpattern, ?_⟩⟩
  simp [Condition.ofParts, Condition.ofSingle, Filter.asEmitted, Filter.new, Filter.regex, hkept]

/-- A filter with the key `NOT` that compares by `NOT IN` is read back as the opposite of one
that compares by `IN`. -/
theorem readsBack_not (hop : f.operation = some .noneOf) (hkey : f.HasKey "NOT")
    (hne : f.values.map Filter.emitted ≠ []) :
    ∃ count operand core, ReadsBack (.leaf f) count operand core := by
  have htree : (Condition.ofParts "NOT" .oneOf (.list (f.values.map Filter.emitted))).toTree =
      .ok (.leaf ((Filter.new "NOT").oneOf (f.values.map Filter.emitted))) :=
    Condition.toTree_eq_ok_iff.2 ⟨show "NOT" ≠ "" by decide, .inr ⟨_, rfl, rfl, hne, rfl⟩⟩
  have hreread : f.reread = .group .and true [.leaf ((Filter.new "NOT").oneOf f.values)] := by
    simp [Filter.reread, hop, hkey]
  refine ⟨1, _, _, ?_, by simp, .condition htree .nil, fun odd => ?_⟩
  · simp [toOperand, Filter.toOperand, hop, hkey, BlockItem.behindNots]
  · rw [reread, hreread, normalUnder, normalUnder_leaf]
    simp [Filter.asEmitted, Filter.oneOf]

/-- A filter is read back as the normal form of what it is reread as. -/
theorem readsBack_leaf (hcomplete : f.Complete) (hread : f.Rereadable) :
    ∃ count operand core, ReadsBack (.leaf f) count operand core := by
  obtain ⟨operation, hop, -⟩ := hcomplete.values
  have hvalues := Filter.values_of_complete hcomplete hop
  have hemitted : f.asEmitted = ⟨f.key, some operation, f.values.map Filter.emitted⟩ := by
    rw [Filter.asEmitted, hop]
  cases operation with
  | equal =>
    obtain ⟨v, hv⟩ : ∃ v, f.values = [v] := by simpa [Filter.Operation.isList] using hvalues
    have hitems : f.toOperand =
        [.condition (Filter.ofColon f.key (Filter.emitted v).toList)] := by
      simp [Filter.toOperand, hop, hv]
    have hreread : f.reread = match (Filter.emitted v).toList with
        | '~' :: pattern => .leaf ((Filter.new f.key).regex (String.ofList pattern))
        | _ => .leaf f := by
      simp only [Filter.reread, hop, hv]
    unfold Filter.ofColon at hitems
    split at hitems
    · next pattern htext =>
      rw [htext] at hreread
      exact readsBack_pattern hcomplete (hread hop v (by simp [hv]) pattern htext) hitems hreread
    · next hplain =>
      have hreread : f.reread = .leaf f := by
        rw [hreread]
        split
        · next pattern htext => exact absurd htext (hplain pattern)
        · rfl
      rw [String.ofList_toList] at hitems
      refine readsBack_single .colon hcomplete hv rfl hitems hreread ?_
      simp [hemitted, hv, Condition.ofSingle, Filter.new, Filter.equal]
  | notEqual =>
    obtain ⟨v, hv⟩ : ∃ v, f.values = [v] := by simpa [Filter.Operation.isList] using hvalues
    refine readsBack_single .notColon hcomplete hv rfl ?_ ?_ ?_
    · simp [Filter.toOperand, hop, hv]
    · simp [Filter.reread, hop]
    · simp [hemitted, hv, Condition.ofSingle, Filter.new, Filter.notEqual]
  | regex =>
    obtain ⟨v, hv⟩ : ∃ v, f.values = [v] := by simpa [Filter.Operation.isList] using hvalues
    refine readsBack_single .regex hcomplete hv rfl ?_ ?_ ?_
    · simp [Filter.toOperand, hop, hv]
    · simp [Filter.reread, hop]
    · simp [hemitted, hv, Condition.ofSingle, Filter.new, Filter.regex]
  | oneOf =>
    have hne : f.values.map Filter.emitted ≠ [] := by
      simpa [Filter.Operation.isList] using hvalues
    refine readsBack_list .oneOf hcomplete hne rfl ?_ ?_ ?_
    · simp [Filter.toOperand, hop]
    · simp [Filter.reread, hop]
    · simp [hemitted, Condition.ofList, Filter.new, Filter.oneOf]
  | noneOf =>
    have hne : f.values.map Filter.emitted ≠ [] := by
      simpa [Filter.Operation.isList] using hvalues
    by_cases hnot : f.HasKey "NOT"
    · exact readsBack_not hop hnot hne
    · refine readsBack_list .noneOf hcomplete hne rfl ?_ ?_ ?_
      · simp [Filter.toOperand, hop, hnot]
      · simp [Filter.reread, hop, hnot]
      · simp [hemitted, Condition.ofList, Filter.new, Filter.noneOf]

end Leaves

/-- What stands behind a word: the operands with their words, as items and as pieces. -/
theorem taken_joined (junction : Junction) {trees : List FilterTree}
    (h : ∀ t ∈ trees, ∃ count operand core, ReadsBack t count operand core) :
    ∃ pieces, Taken (trees.flatMap fun t => junction.joined t.toOperand) pieces ∧
      Piece.Alternates false pieces ∧ (∀ piece ∈ pieces, piece.isComma = false) ∧
      Piece.operands opposite false pieces = trees.map (fun t => t.reread.normal) ∧
      ∀ word, Piece.junction word pieces = if trees = [] then word else junction := by
  induction trees with
  | nil => exact ⟨[], .nil, rfl, by simp, rfl, fun _ => rfl⟩
  | cons t rest ih =>
    obtain ⟨more, htaken, halternates, hcomma, hoperands, hjunction⟩ :=
      ih fun u hu => h u (by simp [hu])
    obtain ⟨count, operand, core, hback⟩ := h t (by simp)
    -- the first `NOT` is part of the separator
    obtain ⟨negated, left, hcount, hjoined⟩ : ∃ negated left,
        (count % 2 = 1 ↔ (negated != decide (left % 2 = 1)) = true) ∧
        junction.joined t.toOperand =
          .separator (junction.separator negated) :: BlockItem.behindNots left operand := by
      rw [hback.items]
      cases count with
      | zero =>
        refine ⟨false, 0, by simp, ?_⟩
        cases operand with
        | separator sep => exact absurd rfl (hback.notSeparator sep)
        | _ => rfl
      | succ left =>
        refine ⟨true, left, ?_,
          by simp [BlockItem.behindNots, List.replicate_succ, Junction.joined]⟩
        rcases Nat.mod_two_eq_zero_or_one left with hl | hl <;> simp [Nat.add_mod, hl]
    obtain ⟨hnot, hnegates, hjoins, hsepComma⟩ := junction.separator_facts negated
    refine ⟨.separator (junction.separator negated) :: (Piece.behindNots left core ++ more),
      ?_, ?_, ?_, ?_, ?_⟩
    · simpa [hjoined] using Taken.separator _ ((hback.taken.behindNots left).append htaken)
    · rw [Piece.Alternates]
      exact ⟨by simp [Piece.Fits, hnot], (Piece.alternates_behindNots _ _ _).2 halternates⟩
    · intro piece hpiece
      rcases List.mem_cons.1 hpiece with rfl | hpiece
      · exact hsepComma
      rcases List.mem_append.1 hpiece with hpiece | hpiece
      · exact Piece.isComma_behindNots piece hpiece
      · exact hcomma piece hpiece
    · rw [Piece.operands, hnegates, Bool.false_bne, Piece.operands_behindNots, hoperands,
        List.map_cons, normal, hback.normal]
      simp only [Bool.false_bne, ← hcount, decide_eq_true_eq]
    · intro word
      rw [Piece.junction, Piece.junction_behindNots, hjunction]
      cases rest <;> simp [Piece.joinsBy?, hjoins]

/-- The tree of a segment with one operand. -/
theorem ofSegment_behindNots (count : Nat) (core : FilterTree) :
    ofSegment (Piece.behindNots count core) = if count % 2 = 1 then core.opposite else core := by
  have hoperands := Piece.operands_behindNots opposite count core [] false
  rw [List.append_nil] at hoperands
  simp [ofSegment, hoperands, Piece.operands, joined]

/-- Several operands with a word between them are one group of normal forms. -/
theorem ofBlock_joinOperands (junction : Junction) {t u : FilterTree} {rest : List FilterTree}
    (h : ∀ v ∈ t :: u :: rest, ∃ count operand core, ReadsBack v count operand core) :
    ofBlock (junction.joinOperands (toOperands (t :: u :: rest))) =
      .ok [.group junction false ((t :: u :: rest).map fun v => v.reread.normal)] := by
  obtain ⟨more, htaken, halternates, hcomma, hoperands, hjunction⟩ :=
    taken_joined junction fun v hv => h v (List.mem_cons_of_mem t hv)
  obtain ⟨count, operand, core, hback⟩ := h t (by simp)
  have hall : ∀ piece ∈ Piece.behindNots count core ++ more, piece.isComma = false := by
    intro piece hpiece
    rcases List.mem_append.1 hpiece with hpiece | hpiece
    · exact Piece.isComma_behindNots piece hpiece
    · exact hcomma piece hpiece
  refine ofBlock_eq_ok_iff.2 ⟨Piece.behindNots count core ++ more, ?_, .inr ⟨?_, ?_⟩⟩
  · have := (hback.taken.behindNots count).append htaken
    simpa [toOperands_eq_map, Junction.joinOperands, hback.items, List.flatMap_map] using this
  · exact (Piece.alternates_behindNots _ _ _).2 halternates
  · rw [List.splitOnP_eq_singleton hall]
    simp [ofSegment, Piece.operands_behindNots, Piece.junction_behindNots, hoperands, hjunction,
      joined, normal, hback.normal]

/-- Every tree whose filters can be told apart is read back. -/
theorem readsBack {t : FilterTree} (hcomplete : t.Complete)
    (hread : ∀ f ∈ t.filters, f.Rereadable) :
    ∃ count operand core, ReadsBack t count operand core := by
  induction t using inductionOnWidth with
  | leaf f =>
    cases hcomplete with
    | leaf hfilter => exact readsBack_leaf hfilter (hread f (by simp [filters]))
  | hollow => cases hcomplete; contradiction
  | single junction negated t ih =>
    cases hcomplete with
    | group _ hchildren =>
      obtain ⟨count, operand, core, hback⟩ := ih (hchildren t (by simp))
        fun f hf => hread f (by simpa [filters, filtersAll] using hf)
      cases negated with
      | false =>
        refine ⟨count, operand, core, ?_, hback.notSeparator, hback.taken, fun odd => ?_⟩
        · simpa [toOperand] using hback.items
        · simpa [reread, rereadAll, normalUnder] using hback.normal odd
      | true =>
        refine ⟨count + 1, operand, core, ?_, hback.notSeparator, hback.taken, fun odd => ?_⟩
        · simp [toOperand, hback.items, BlockItem.behindNots, List.replicate_succ]
        · rw [reread, rereadAll, rereadAll, normalUnder, hback.normal, bne_parity_succ]
  | several junction negated t u rest ih =>
    cases hcomplete with
    | group _ hchildren =>
      have hinner := ofBlock_joinOperands junction fun v hv => ih v hv (hchildren v hv)
        fun f hf => hread f (mem_filters_group hv hf)
      refine ⟨if negated then 1 else 0,
        .grouped (junction.joinOperands (toOperands (t :: u :: rest))), _, ?_, by simp,
        .grouped hinner rfl .nil, fun odd => ?_⟩
      · rw [toOperand]
        · cases negated <;> rfl
        · simp
      · have hnormal : (group junction negated (t :: u :: rest)).reread.normalUnder odd =
            .group junction (odd != negated) ((t :: u :: rest).map fun v => v.reread.normal) := by
          simp [reread, rereadAll, rereadAll_eq_map, normalUnder, normalAll_eq_map]
        rw [hnormal]
        cases negated <;> cases odd <;> simp [opposite]

/-! ## Blocks -/

/-- What stands behind commas: the operands with their commas, as items and as pieces. -/
theorem taken_commas {trees : List FilterTree}
    (h : ∀ t ∈ trees, ∃ count operand core, ReadsBack t count operand core) :
    ∃ pieces, Taken (trees.flatMap fun t => .separator .comma :: t.toOperand) pieces ∧
      Piece.Alternates false pieces ∧
      ∀ first : List (Piece FilterTree), (∀ piece ∈ first, piece.isComma = false) →
        ((first ++ pieces).splitOnP Piece.isComma).map ofSegment =
          ofSegment first :: trees.map fun t => t.reread.normal := by
  induction trees with
  | nil =>
    refine ⟨[], .nil, rfl, fun first hfirst => ?_⟩
    rw [List.append_nil, List.splitOnP_eq_singleton hfirst]
    rfl
  | cons t rest ih =>
    obtain ⟨more, htaken, halternates, hsegments⟩ := ih fun u hu => h u (by simp [hu])
    obtain ⟨count, operand, core, hback⟩ := h t (by simp)
    refine ⟨.separator .comma :: (Piece.behindNots count core ++ more), ?_, ?_, ?_⟩
    · simpa [hback.items] using Taken.separator .comma
        ((hback.taken.behindNots count).append htaken)
    · rw [Piece.Alternates]
      exact ⟨by simp [Piece.Fits], (Piece.alternates_behindNots _ _ _).2 halternates⟩
    · intro first hfirst
      rw [List.splitOnP_append_cons_of_forall_mem hfirst _ rfl, List.map_cons,
        hsegments _ Piece.isComma_behindNots, ofSegment_behindNots, List.map_cons, normal,
        hback.normal]
      simp

/-- The items that the text of a block spells are read as the normal form of the block, up to
filters that are read back as others. -/
theorem ofBlock_blockOperands {trees : List FilterTree} (hcomplete : ∀ t ∈ trees, t.Complete)
    (hread : ∀ t ∈ trees, ∀ f ∈ t.filters, f.Rereadable) :
    ofBlock (blockOperands trees) = .ok (rereadBlock trees) := by
  unfold blockOperands rereadBlock
  split
  · next hgroup =>
    have hne : trees ≠ [] := by
      rintro rfl
      simp at hgroup
    have hfilters : ∀ f ∈ (group .and false trees).filters, f.Rereadable := by
      intro f hf
      obtain ⟨t, ht, hf⟩ := mem_filtersAll.1 hf
      exact hread t ht f hf
    obtain ⟨count, operand, core, hback⟩ := readsBack (.group hne hcomplete) hfilters
    refine ofBlock_eq_ok_iff.2 ⟨Piece.behindNots count core, ?_, .inr ⟨?_, ?_⟩⟩
    · rw [hback.items]
      exact hback.taken.behindNots count
    · have := (Piece.alternates_behindNots count core []).2 rfl
      simpa using this
    · rw [List.splitOnP_eq_singleton Piece.isComma_behindNots, List.map_singleton,
        ofSegment_behindNots, normal, hback.normal]
      simp
  · next hgroup =>
    have hback : ∀ t ∈ trees, ∃ count operand core, ReadsBack t count operand core :=
      fun t ht => readsBack (hcomplete t ht) (hread t ht)
    cases trees with
    | nil => rfl
    | cons t rest =>
      obtain ⟨more, htaken, halternates, hsegments⟩ :=
        taken_commas fun u hu => hback u (List.mem_cons_of_mem t hu)
      obtain ⟨count, operand, core, hfirst⟩ := hback t (by simp)
      refine ofBlock_eq_ok_iff.2 ⟨Piece.behindNots count core ++ more, ?_, .inr ⟨?_, ?_⟩⟩
      · have := (hfirst.taken.behindNots count).append htaken
        simpa [toOperands, toOperands_eq_map, hfirst.items, List.flatMap_map] using this
      · exact (Piece.alternates_behindNots _ _ _).2 halternates
      · rw [hsegments _ Piece.isComma_behindNots, ofSegment_behindNots, List.map_cons, normal,
          hfirst.normal]
        simp

end FilterTree

end MetricQuery
