import MetricQuery.Proofs.FilterTree.FromText
import MetricQuery.Proofs.Grammar.Refuses

/-!
# Written trees that are not read

A tree that comes from a text and is not readable where it stands (`FilterTree.Rereadable`) is
refused there.  So the text of a block is refused from the first operand on that is not
readable: what is in front of it is read as it is written.

There is one exception.  Behind a sign `~` a value may open a literal that does not end where
the value does, and then what is read next depends on all that follows; `Filter.Closed`
excludes that.

* `refused`: a tree is refused in every place where it is not readable.
* `blockItems_refuses_block`: so is the text of a block.
-/

namespace MetricQuery

open Text Grammar BlockItem

namespace Filter

/-- Where a value of the filter opens a literal behind a sign `~`, the literal ends with it. -/
def Closed (f : Filter) : Prop :=
  f.operation = some .equal → ∀ v ∈ f.values, v.toList.head? = some '~' →
    v.toList.tail.head?.any isQuote = true → isLiteral v.toList.tail = true

instance (f : Filter) : Decidable f.Closed :=
  inferInstanceAs (Decidable (_ → _))

/-- The text of a filter that is not readable ends in the sign `~`. -/
theorem written_of_not_rereadable {f : Filter} (h : f.FromText) (hclosed : f.Closed)
    (hnot : ¬ f.Rereadable) : f.written.toList = f.key.toList ++ [':', '~'] := by
  simp only [Rereadable, not_forall] at hnot
  obtain ⟨hop, v, hv, pattern, htext, htoken⟩ := hnot
  have hvalue := h.tokens v hv
  rw [emitted_eq_self hvalue] at htext
  have hchars : pattern.all isValueChar = true := by
    rcases hvalue with hliteral | ⟨-, hbare⟩
    · simp [htext, isLiteral, isQuote] at hliteral
    · simp only [isBare, htext, List.all_cons, Bool.and_eq_true] at hbare
      exact hbare.2.2
  have hempty : pattern = [] := by
    by_contra hne
    refine htoken ?_
    by_cases hquote : pattern.head?.any isQuote = true
    · exact .inl (by simpa [htext] using hclosed hop v hv (by simp [htext]) (by simpa [htext]))
    · exact .inr ⟨hne, by simp [isBare, hquote, hchars]⟩
  obtain ⟨w, hw⟩ : ∃ w, f.values = [w] := by
    simpa [Operation.isList] using values_of_complete h.complete hop
  obtain rfl : v = w := by simpa [hw] using hv
  simp [written, hop, write, hw, emitted_eq_self hvalue, htext, hempty]

/-- The text of a filter that compares with a list: behind the key a word follows. -/
theorem written_of_isList {f : Filter}
    (h : f.operation = some .oneOf ∨ f.operation = some .noneOf) :
    ∃ ch tail, f.written.toList = f.key.toList ++ ' ' :: ch :: tail ∧ isBlank ch = false ∧
      ch ≠ '(' := by
  rcases h with hop | hop
  · exact ⟨'I', _, by simp [written, hop, write]; rfl, by decide, by decide⟩
  · exact ⟨'N', _, by simp [written, hop, write]; rfl, by decide, by decide⟩

theorem written_of_oneOf {f : Filter} (h : f.operation = some .oneOf) :
    ∃ tail, f.written.toList = f.key.toList ++ ' ' :: ("IN".toList ++ ' ' :: '(' :: tail) :=
  ⟨_, by simp [written, h, write]; rfl⟩

theorem Complete.key_toList_ne {f : Filter} (h : f.Complete) : f.key.toList ≠ [] := fun hnil =>
  h.key_ne (String.toList_eq_nil_iff.1 hnil)

end Filter

namespace FilterTree

/-! ## Places of a tree -/

/-- The text is refused as an operand whatever stands in front of it and behind. -/
def RefusedAnywhere (levels : Nat) (text : List Char) : Prop :=
  ∀ rest, Stops isValueChar rest → CoreRefused (blockItems levels ')') (text ++ rest) ∧
    comesFirst "NOT" (text ++ rest) = false ∧ comesFirst "IN" (text ++ rest) = false

namespace RefusedAnywhere

variable {levels : Nat} {text : List Char}

theorem alone (h : RefusedAnywhere levels text) {gap : List Char} (hgap : Blanks gap)
    (negated : Bool) :
    RefusedAlone (blockItems levels ')')
      (gap ++ ((if negated then "NOT ".toList else []) ++ text)) := by
  intro rest hrest
  obtain ⟨hcore, -, hin⟩ := h rest hrest
  rw [List.append_assoc, List.append_assoc]
  cases negated with
  | false =>
    rw [if_neg Bool.false_ne_true, List.nil_append]
    exact hcore.operand_refuses gap hgap
  | true =>
    rw [if_pos rfl]
    exact hcore.operand_refuses_not hin gap hgap

/-- Behind a word a `NOT` is taken for a part of the separator. -/
theorem behind (h : RefusedAnywhere levels text) {close : Char} (hclose : Closes close)
    (junction : Junction) (negated : Bool) :
    RefusedBehind (blockItems levels ')') close
      (' ' :: (junction.word.toList ++
        ' ' :: ((if negated then "NOT ".toList else []) ++ text))) := by
  intro rest hrest rounds
  obtain ⟨hcore, hnot, -⟩ := h rest hrest
  rw [List.cons_append, List.append_assoc, List.cons_append, List.append_assoc]
  refine moreOperands_refuses_joined hclose junction ?_ rounds
  cases negated with
  | false =>
    rw [if_neg Bool.false_ne_true, List.nil_append]
    exact .inl ⟨hcore.stops, hnot, hcore.operand_refuses [] blanks_nil⟩
  | true =>
    rw [if_pos rfl]
    exact .inr ⟨"NOT".toList, text ++ rest, rfl, sameLetters_self _,
      hcore.operand_refuses [' '] blanks_space⟩

end RefusedAnywhere

/-- A tree behind a word that joins it. -/
def jointText (junction : Junction) (t : FilterTree) : List Char :=
  ' ' :: (junction.word.toList ++ ' ' :: t.written.toList)

/-- Wherever the tree is not readable, it is refused with so many levels at hand: on its own or
behind a word that joins it. -/
structure Refused (levels : Nat) (t : FilterTree) : Prop where
  alone : ¬ t.Rereadable false → ∀ gap : List Char, Blanks gap →
    RefusedAlone (blockItems levels ')') (gap ++ t.written.toList)
  joined : ¬ t.Rereadable true → ∀ {close : Char}, Closes close → ∀ junction : Junction,
    RefusedBehind (blockItems levels ')') close (jointText junction t)

/-! ## Trees -/

/-- A filter that is not readable anywhere. -/
theorem refusedAnywhere_filter {f : Filter} (h : f.FromText) (hclosed : f.Closed)
    (hnot : ¬ f.Rereadable) (levels : Nat) : RefusedAnywhere levels f.written.toList := by
  intro rest hrest
  have htext : f.written.toList ++ rest = f.key.toList ++ ':' :: '~' :: rest := by
    simp [Filter.written_of_not_rereadable h hclosed hnot]
  have hfirst : ∀ word, comesFirst word (f.key.toList ++ ':' :: '~' :: rest) = false := by
    intro word
    rw [comesFirst_of_run _ h.complete.keyChars (stops_cons.2 (by decide))]
    simp [endsKeyword, isBlank, blankRanges]
  rw [htext]
  exact ⟨coreRefused_pattern _ h.complete.key_toList_ne h.complete.keyChars hrest, hfirst _,
    hfirst _⟩

/-- A list in parentheses that is not read. -/
theorem refusedAnywhere_grouped {levels : Nat} {text : List Char}
    (h : ∀ tail, Refuses (blockItems levels ')') (text ++ ')' :: tail)) :
    RefusedAnywhere levels ('(' :: (text ++ [')'])) := by
  intro rest hrest
  have htext : '(' :: (text ++ [')']) ++ rest = '(' :: (text ++ ')' :: rest) := by simp
  rw [htext]
  refine ⟨coreRefused_grouped (h rest), ?_, ?_⟩
  · simp [comesFirst, isKeyChar, sameLetters]
  · simp [comesFirst, isKeyChar, sameLetters]

/-- A filter, in a group of its own or not. -/
theorem refused_leaf {f : Filter} (h : f.FromText) (hclosed : f.Closed) (levels : Nat) :
    Refused levels (.leaf f) where
  alone hnot gap hgap := by
    have hread : ¬ f.Rereadable := fun hread => hnot ⟨hread, by simp⟩
    have halone := (refusedAnywhere_filter h hclosed hread levels).alone hgap false
    simpa [written] using halone
  joined hnot close hclose junction := by
    by_cases hread : f.Rereadable
    · -- the key is taken for a negation, and `IN` for the key
      obtain ⟨hkey, hop⟩ : f.HasKey "NOT" ∧ f.operation = some .oneOf := by
        by_contra hother
        exact hnot ⟨hread, fun _ hkey hop => hother ⟨hkey, hop⟩⟩
      obtain ⟨tail, htext⟩ := Filter.written_of_oneOf hop
      intro rest hrest rounds
      simp only [jointText, written, htext, List.cons_append, List.append_assoc]
      refine moreOperands_refuses_joined hclose junction (.inr ⟨f.key.toList,
        "IN".toList ++ ' ' :: '(' :: (tail ++ rest), rfl, hkey, ?_⟩) rounds
      exact (coreRefused_in _ _).operand_refuses [' '] blanks_space
    · have hbehind := (refusedAnywhere_filter h hclosed hread levels).behind hclose junction false
      simpa [jointText, written] using hbehind

theorem refused_negated {f : Filter} (h : f.FromText) (hclosed : f.Closed) (levels : Nat)
    (inner : Junction) : Refused levels (.group inner true [.leaf f]) where
  alone hnot gap hgap := by
    rw [written_single]
    by_cases hread : f.Rereadable
    · -- the `NOT` is taken for the key, and `IN` for the comparison
      obtain ⟨hkey, hop⟩ : StartsWithIn (.leaf f) := by
        by_contra hother
        exact hnot ⟨⟨hread, by simp⟩, fun _ => hother⟩
      obtain ⟨ch, tail, htext, hblank, hparen⟩ := Filter.written_of_isList hop
      intro rest hrest
      have hcore : CoreRefused (blockItems levels ')')
          ("NOT".toList ++ ' ' :: (f.key.toList ++ ' ' :: ch :: (tail ++ rest))) :=
        coreRefused_not_in _ hkey hblank hparen
      simpa [written, htext] using hcore.operand_refuses gap hgap
    · exact (refusedAnywhere_filter h hclosed hread levels).alone hgap true
  joined hnot close hclose junction := by
    have hread : ¬ f.Rereadable := fun hread => hnot ⟨⟨hread, by simp⟩, by simp⟩
    rw [jointText, written_single]
    exact (refusedAnywhere_filter h hclosed hread levels).behind hclose junction true

section Lists

variable {levels : Nat} {t : FilterTree} {rest : List FilterTree} {close : Char}

/-- A tree and more trees behind it, each with what separates it from the one in front.  The
text is refused if one of them is not readable in its place. -/
theorem blockItems_refuses_trees (hclose : Closes close) (joined : Bool)
    (part : FilterTree → List Char) (hstops : ∀ u tail, Stops isValueChar (part u ++ tail))
    (hfirst : t.Rereadable false →
      OperandSpelled (ListSpelled levels) t.toOperand t.written.toList)
    (hrefused : Refused levels t)
    (hspelled : ∀ u ∈ rest, u.Rereadable joined →
      ∃ items, JointSpelled (ListSpelled levels) items (part u))
    (hbehind : ∀ u ∈ rest, ¬ u.Rereadable joined →
      RefusedBehind (blockItems levels ')') close (part u))
    (h : ¬ (t.Rereadable false ∧ ∀ u ∈ rest, u.Rereadable joined)) (tail : List Char) :
    Refuses (blockItems (levels + 1) close)
      (t.written.toList ++ (rest.flatMap part ++ close :: tail)) := by
  have halone : ¬ t.Rereadable false → RefusedAlone (blockItems levels ')') t.written.toList :=
    fun hread => hrefused.alone hread [] blanks_nil
  rw [List.flatMap_def]
  refine blockItems_refuses_separated hclose ?_ ?_ ?_ ?_ tail
  · intro text htext rest
    obtain ⟨u, -, rfl⟩ := List.mem_map.1 htext
    exact hstops u rest
  · by_cases hread : t.Rereadable false
    · exact .inl ⟨_, hfirst hread⟩
    · exact .inr (halone hread)
  · intro text htext
    obtain ⟨u, hu, rfl⟩ := List.mem_map.1 htext
    by_cases hread : u.Rereadable joined
    · exact .inl (hspelled u hu hread)
    · exact .inr (hbehind u hu hread)
  · by_cases hread : t.Rereadable false
    · obtain ⟨u, hu, hnot⟩ : ∃ u ∈ rest, ¬ u.Rereadable joined := by
        by_contra hall
        push Not at hall
        exact h ⟨hread, hall⟩
      exact .inr ⟨_, List.mem_map_of_mem hu, hbehind u hu hnot⟩
    · exact .inl (halone hread)

variable (hcomplete : ∀ v ∈ t :: rest, v.Complete) (hlevels : ∀ v ∈ t :: rest, v.nesting ≤ levels)
  (hrefused : ∀ v ∈ t :: rest, Refused levels v)

include hcomplete hlevels hrefused

/-- The text of a group's children is refused if one of them is not readable in its place. -/
theorem blockItems_refuses_children (junction : Junction)
    (h : ¬ RereadableAll false (t :: rest)) (tail : List Char) :
    Refuses (blockItems (levels + 1) ')')
      (t.written.toList ++ joinedText junction rest ++ ')' :: tail) := by
  have hclose : Closes ')' := .inl rfl
  have hspelled := fun v hv => spelled (hcomplete v hv) (hlevels v hv)
  rw [List.append_assoc]
  refine blockItems_refuses_trees hclose true (jointText junction)
    (fun u tail => stops_cons.2 (by decide)) (hspelled t (by simp)).1 (hrefused t (by simp))
    ?_ ?_ ?_ tail
  · exact fun u hu hread => ⟨_, (hspelled u (by simp [hu])).2 hread junction⟩
  · exact fun u hu hread => (hrefused u (by simp [hu])).joined hread hclose junction
  · exact fun hall => h ⟨hall.1, rereadableAll_iff.2 hall.2⟩

/-- The text of trees with commas between them is refused if one of them is not readable. -/
theorem blockItems_refuses_listed (hclose : Closes close)
    (h : ¬ ∀ v ∈ t :: rest, v.Rereadable false) (tail : List Char) :
    Refuses (blockItems (levels + 1) close)
      ((", ".intercalate ((t :: rest).map written)).toList ++ close :: tail) := by
  have hspelled := fun v hv => (spelled (hcomplete v hv) (hlevels v hv)).1
  rw [List.map_cons, toList_intercalate_cons, List.flatMap_map, List.append_assoc]
  refine blockItems_refuses_trees hclose false (fun u => ", ".toList ++ u.written.toList)
    (fun u tail => stops_cons.2 (by decide)) (hspelled t (by simp)) (hrefused t (by simp))
    ?_ ?_ ?_ tail
  · exact fun u hu hread => ⟨_, .comma blanks_nil blanks_space (hspelled u (by simp [hu]) hread)⟩
  · intro u hu hread behind hbehind rounds
    have halone := (hrefused u (by simp [hu])).alone hread [' '] blanks_space _ hbehind
    rw [List.append_assoc]
    exact moreOperands_refuses_comma hclose halone rounds
  · exact fun hall => h (List.forall_mem_cons.2 hall)

end Lists

/-- Wherever a tree that comes from a text is not readable, it is refused. -/
theorem refused {depth : Nat} {t : FilterTree} (h : FromText depth t)
    (hclosed : ∀ f ∈ t.filters, f.Closed) {levels : Nat} (hlevels : t.nesting ≤ levels) :
    Refused levels t := by
  induction h generalizing levels with
  | leaf hfilter => exact refused_leaf hfilter (hclosed _ (by simp [filters])) levels
  | @single _ inner negated f hfilter =>
    have hf := hclosed f (by simp [filters, filtersAll])
    cases negated with
    | false =>
      obtain ⟨halone, hjoined⟩ := refused_leaf hfilter hf levels
      have htext : (FilterTree.group inner false [.leaf f]).written.toList =
          (FilterTree.leaf f).written.toList := by
        simp [written_single]
      constructor
      · intro hnot gap hgap
        rw [htext]
        exact halone (by simpa [Rereadable] using hnot) gap hgap
      · intro hnot close hclose junction
        rw [jointText, htext]
        exact hjoined (by simpa [Rereadable] using hnot) hclose junction
    | true => exact refused_negated hfilter hf levels inner
  | @several _ inner negated t u rest hchildren ih =>
    rw [nesting] at hlevels
    · obtain ⟨levels, rfl⟩ : ∃ n, levels = n + 1 := ⟨levels - 1, by omega⟩
      have hfits : ∀ v ∈ t :: u :: rest, v.nesting ≤ levels := fun v hv =>
        Nat.le_trans (nesting_le_nestingAll hv) (Nat.le_of_succ_le_succ hlevels)
      have hrefused : ∀ v ∈ t :: u :: rest, Refused levels v := fun v hv =>
        ih v hv (fun f hf => hclosed f (mem_filters_group hv hf)) (hfits v hv)
      have hgroup : ∀ joined, ¬ Rereadable joined (.group inner negated (t :: u :: rest)) →
          RefusedAnywhere (levels + 1)
            ('(' :: (t.written.toList ++ joinedText inner (u :: rest) ++ [')'])) := by
        intro joined hnot
        have hall : ¬ RereadableAll false (t :: u :: rest) := fun hall =>
          hnot (by cases negated <;> simpa [Rereadable] using hall)
        exact refusedAnywhere_grouped (blockItems_refuses_children
          (fun v hv => (hchildren v hv).complete) hfits hrefused inner hall)
      constructor
      · intro hnot gap hgap
        rw [written_several]
        exact (hgroup _ hnot).alone hgap negated
      · intro hnot close hclose junction
        rw [jointText, written_several]
        exact (hgroup _ hnot).behind hclose junction negated
    · simp

/-- The text of a complete tree starts with a key, a `NOT` or a parenthesis. -/
theorem written_start {t : FilterTree} (h : t.Complete) :
    ∃ ch tail, t.written.toList = ch :: tail ∧ isBlank ch = false ∧ ch ≠ '*' := by
  induction t using inductionOnWidth with
  | leaf f =>
    cases h with
    | leaf hfilter =>
      obtain ⟨ch, key, hkey⟩ := List.exists_cons_of_ne_nil hfilter.key_toList_ne
      have hch := hfilter.keyChars ch (by simp [hkey])
      obtain ⟨operation, hop, -⟩ := hfilter.values
      obtain ⟨c, tail, htext, -⟩ := Filter.written_eq_key_append hop
      refine ⟨ch, key ++ c :: tail, by rw [written, htext, hkey, List.cons_append],
        isBlank_eq_false_of_isKeyChar hch, ?_⟩
      rintro rfl
      exact absurd hch (by decide)
  | hollow => cases h; contradiction
  | single junction negated t ih =>
    cases h with
    | group _ hchildren =>
      rw [written_single]
      cases negated with
      | false => simpa using ih (hchildren t (by simp))
      | true => exact ⟨'N', _, rfl, by decide, by decide⟩
  | several junction negated t u rest =>
    rw [written_several]
    cases negated with
    | false => exact ⟨'(', _, rfl, by decide, by decide⟩
    | true => exact ⟨'N', _, rfl, by decide, by decide⟩

end FilterTree

/-! ## Blocks -/

section Blocks

open FilterTree

variable {depth levels : Nat} {trees : List FilterTree}

/-- The text of a block that is not empty starts as the text of a tree does. -/
theorem writtenBlock_start (hne : trees ≠ []) (hcomplete : ∀ t ∈ trees, t.Complete) :
    ∃ ch tail, (writtenBlock trees).toList = ch :: tail ∧ isBlank ch = false ∧ ch ≠ '*' := by
  by_cases hgroup : trees.any isGroup = true
  · rw [writtenBlock_of_isGroup hgroup]
    exact written_start (.group hne hcomplete)
  · cases trees with
    | nil => exact absurd rfl hne
    | cons t rest =>
      obtain ⟨ch, tail, htext, hfacts⟩ := written_start (hcomplete t (by simp))
      rw [writtenBlock, if_neg (by simp), if_neg hgroup, List.map_cons, toList_intercalate_cons,
        htext]
      exact ⟨ch, _, rfl, hfacts⟩

/-- The text of a block is refused if the block is not readable. -/
theorem blockItems_refuses_block (htrees : ∀ t ∈ trees, t.FromText depth)
    (hclosed : ∀ t ∈ trees, ∀ f ∈ t.filters, f.Closed) (hlevels : blockNesting trees ≤ levels)
    (hnot : ¬ BlockRereadable trees) (tail : List Char) :
    Refuses (blockItems (levels + 1) '\x7d') ((writtenBlock trees).toList ++ '\x7d' :: tail) := by
  have hbrace : Stops isValueChar ('\x7d' :: tail) := stops_cons.2 (by decide)
  unfold BlockRereadable at hnot
  unfold blockNesting at hlevels
  split at hnot
  · next hgroup =>
    -- the whole block is one operand
    rw [if_pos hgroup] at hlevels
    refine blockItems_refuses (.inl ?_)
    match trees, htrees, hclosed, hgroup, hlevels, hnot with
    | [t], htrees, hclosed, _, hlevels, hnot =>
      rw [nesting] at hlevels
      have hrefused := refused (htrees t (by simp)) (hclosed t (by simp)) hlevels
      rw [writtenBlock_single]
      exact hrefused.alone (by simpa [Rereadable] using hnot) [] blanks_nil _ hbrace
    | t :: u :: rest, htrees, hclosed, hgroup, hlevels, hnot =>
      have hblock : FromText (depth + 1) (.group .and false (t :: u :: rest)) := .several htrees
      have hfilters : ∀ f ∈ (FilterTree.group .and false (t :: u :: rest)).filters,
          f.Closed := by
        intro f hf
        obtain ⟨v, hv, hf⟩ := mem_filtersAll.1 hf
        exact hclosed v hv f hf
      rw [writtenBlock_of_isGroup hgroup]
      exact (refused hblock hfilters hlevels).alone hnot [] blanks_nil _ hbrace
  · next hgroup =>
    have hnesting : ∀ t ∈ trees, t.nesting ≤ levels := by
      intro t ht
      have hleaf := List.any_eq_false.1 (Bool.eq_false_iff.2 hgroup) t ht
      rw [nesting_of_not_isGroup (Bool.eq_false_iff.2 hleaf)]
      exact Nat.zero_le _
    cases trees with
    | nil => exact absurd (by simp) hnot
    | cons t rest =>
      rw [writtenBlock, if_neg (by simp), if_neg hgroup]
      exact blockItems_refuses_listed (fun v hv => (htrees v hv).complete) hnesting
        (fun v hv => refused (htrees v hv) (hclosed v hv) (hnesting v hv)) (.inr rfl) hnot tail

end Blocks

end MetricQuery
