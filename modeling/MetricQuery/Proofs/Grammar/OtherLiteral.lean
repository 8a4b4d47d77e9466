import MetricQuery.Proofs.Grammar.Literals

/-!
# Expressions with another literal

What becomes of a layout, and of the expression that is read from it, if one of its literals
makes room for another one in the same quotation marks.

* `shift`: where the bytes of the text go.
* `Swappable`: a text holds the literal at a place where others may stand.
* `ExprLayout.swappable`: so it is with every literal that a layout records.  The new layout is
  readable unless one of its calls is taken for a window.
-/

namespace MetricQuery

open Text Grammar

/-! ## Moved bytes -/

/-- Where a byte goes if the `old` bytes from `place` on make room for `new` ones. -/
def shift (place old new : Nat) (p : Nat) : Nat :=
  if p ≤ place then p else p - old + new

/-- What stands in front of `place` stays. -/
theorem moves_in_front (a len n old new : Nat) : Moves (shift (a + len + n) old new) a a len := by
  intro k hk
  rw [shift, if_pos (by omega)]

/-- What stands behind the literal is moved as a whole. -/
theorem moves_behind {before behind old new text text' : List Char} (hold : 0 < utf8Length old)
    (htext : text = before ++ (old ++ behind)) (htext' : text' = before ++ (new ++ behind))
    (start len : Nat) :
    Moves (shift (start + utf8Length before) (utf8Length old) (utf8Length new))
      (start + utf8Length text) (start + utf8Length text') len := by
  subst htext htext'
  intro k hk
  simp only [utf8Length_append]
  rw [shift, if_neg (by omega)]
  omega

theorem utf8Length_pos_of_isLiteral {lit : List Char} (h : isLiteral lit = true) :
    0 < utf8Length lit :=
  utf8Length_pos (by rintro rfl; simp [isLiteral] at h)

/-- A span around the literal ends where its text does. -/
theorem Span.map_shift {before behind old new text text' : List Char}
    (hold : isLiteral old = true) (htext : text = before ++ (old ++ behind))
    (htext' : text' = before ++ (new ++ behind)) {start inside : Nat} (hstart : start ≤ inside)
    (rest : Nat) :
    (Span.mk start (inside + utf8Length text + rest)).map
        (shift (inside + utf8Length before) (utf8Length old) (utf8Length new)) =
      ⟨start, inside + utf8Length text' + rest⟩ := by
  subst htext htext'
  have hpos := utf8Length_pos_of_isLiteral hold
  simp only [Span.map, Span.mk.injEq, utf8Length_append]
  constructor
  · rw [shift, if_pos (by omega)]
  · rw [shift, if_neg (by omega)]
    omega

/-! ## Other literals -/

/-- Another literal in the same quotation marks. -/
structure SameMarks (old new : List Char) : Prop where
  literal : isLiteral new = true
  mark : new.head? = old.head?

/-- A literal without backslashes and with no mark inside. -/
theorem isLiteral_plain {mark : Char} {inner : List Char} (hmark : isQuote mark = true)
    (hslash : '\\' ∉ inner) (hinner : mark ∉ inner) :
    isLiteral (mark :: (inner ++ [mark])) = true := by
  have hcloses : closesAtEnd mark (inner ++ [mark]) = true := by
    induction inner with
    | nil =>
      have hne : mark ≠ '\\' := by rintro rfl; simp [isQuote] at hmark
      rw [List.nil_append, closesAtEnd_cons _ hne, if_pos rfl, List.isEmpty_nil]
    | cons c inner ih =>
      simp only [List.mem_cons, not_or] at hslash hinner
      rw [List.cons_append, closesAtEnd_cons _ (Ne.symm hslash.1), if_neg (Ne.symm hinner.1)]
      exact ih hslash.2 hinner.2
  rw [isLiteral, hmark, hcloses, Bool.and_self]

/-- A literal is a text between two marks of a kind. -/
theorem exists_marks_of_isLiteral {lit : List Char} (h : isLiteral lit = true) :
    ∃ mark inner, isQuote mark = true ∧ lit = mark :: (inner ++ [mark]) := by
  cases lit with
  | nil => simp [isLiteral] at h
  | cons mark tail =>
    rw [isLiteral, Bool.and_eq_true] at h
    obtain ⟨inner, hinner⟩ := List.getLast?_eq_some_iff.1 (getLast?_of_closesAtEnd h.2)
    exact ⟨mark, inner, h.1, by rw [hinner]⟩

/-- The texts agree up to a quotation mark, that one included. -/
def AlikeToMark (text text' : List Char) : Prop :=
  ∃ front mark rest rest', isQuote mark = true ∧ text = front ++ mark :: rest ∧
    text' = front ++ mark :: rest'

namespace AlikeToMark

variable {text text' : List Char}

theorem of_sameMarks {before behind old new : List Char} (hold : isLiteral old = true)
    (hnew : SameMarks old new) :
    AlikeToMark (before ++ (old ++ behind)) (before ++ (new ++ behind)) := by
  obtain ⟨mark, inner, hmark, rfl⟩ := exists_marks_of_isLiteral hold
  obtain ⟨mark', inner', -, rfl⟩ := exists_marks_of_isLiteral hnew.literal
  obtain rfl : mark' = mark := by simpa using hnew.mark
  exact ⟨before, mark', _, _, hmark, rfl, rfl⟩

theorem append (h : AlikeToMark text text') (front : List Char) :
    AlikeToMark (front ++ text) (front ++ text') := by
  obtain ⟨before, mark, rest, rest', hmark, rfl, rfl⟩ := h
  exact ⟨front ++ before, mark, rest, rest', hmark, by simp, by simp⟩

theorem head?_eq (h : AlikeToMark text text') : text'.head? = text.head? := by
  obtain ⟨before, mark, rest, rest', -, rfl, rfl⟩ := h
  cases before <;> rfl

theorem stops (h : AlikeToMark text text') {p : Char → Bool} (hstops : Stops p text) :
    Stops p text' := by
  unfold Stops
  rwa [h.head?_eq]

theorem comesFirst_eq (h : AlikeToMark text text') (word : String) :
    comesFirst word text' = comesFirst word text := by
  obtain ⟨before, mark, rest, rest', hmark, rfl, rfl⟩ := h
  have hkey : ∃ c ∈ before ++ [mark], isKeyChar c = false := by
    refine ⟨mark, by simp, ?_⟩
    simp only [isQuote, Bool.or_eq_true, decide_eq_true_eq] at hmark
    rcases hmark with rfl | rfl <;> decide
  have hrest : comesFirst word (before ++ [mark] ++ rest) = _ := comesFirst_append rest hkey
  have hrest' : comesFirst word (before ++ [mark] ++ rest') = _ := comesFirst_append rest' hkey
  simp only [List.append_assoc, List.singleton_append] at hrest hrest'
  rw [hrest, hrest']

end AlikeToMark

/-- The text holds the literal between two parts, and with another literal between them the
texts have a property. -/
def Swappable (old text : List Char) (Other : List Char → List Char → List Char → Prop) : Prop :=
  isLiteral old = true ∧ ∃ before behind, text = before ++ (old ++ behind) ∧
    ∀ new, SameMarks old new → Other before behind new

theorem Swappable.within {old text whole : List Char}
    {Other Other' : List Char → List Char → List Char → Prop} (h : Swappable old text Other)
    (front rest : List Char) (hwhole : whole = front ++ (text ++ rest))
    (hother : ∀ before behind new, isLiteral old = true → text = before ++ (old ++ behind) →
      SameMarks old new → Other before behind new →
      Other' (front ++ before) (behind ++ rest) new) :
    Swappable old whole Other' := by
  obtain ⟨hold, before, behind, rfl, hnew⟩ := h
  refine ⟨hold, front ++ before, behind ++ rest, by simp [hwhole], fun new hsame => ?_⟩
  exact hother before behind new hold rfl hsame (hnew new hsame)

/-- In two lists one behind the other, an entry is in the first one or in the second one. -/
theorem append_eq_append_cons {α : Type} {xs ys front back : List α} {a : α}
    (h : xs ++ ys = front ++ a :: back) :
    (∃ rest, xs = front ++ a :: rest ∧ back = rest ++ ys) ∨
      ∃ rest, front = xs ++ rest ∧ ys = rest ++ a :: back := by
  rcases List.append_eq_append_iff.1 h with ⟨rest, hfront, hys⟩ | ⟨rest, hxs, hrest⟩
  · exact .inr ⟨rest, hfront, hys⟩
  · cases rest with
    | nil => exact .inr ⟨[], by simpa using hxs.symm, by simpa using hrest.symm⟩
    | cons b rest =>
      obtain ⟨rfl, rfl⟩ := List.cons.inj hrest
      exact .inl ⟨rest, hxs, rfl⟩

/-! ## Values -/

section Values

variable {old : List Char} {front back : List String}

theorem hollowValue_of_isLiteral {lit : List Char} (h : isLiteral lit = true) :
    hollowValue (String.ofList lit) = "" := by
  simp [hollowValue, h]

namespace Comparand

theorem literalsOf_cons (value : String) (values : List String) :
    literalsOf (value :: values) = literalsOf [value] ++ literalsOf values := by
  rw [literalsOf, literalsOf, literalsOf, ← List.filter_append]
  rfl

theorem literalsOf_of_isLiteral {lit : List Char} (h : isLiteral lit = true) :
    literalsOf [String.ofList lit] = [String.ofList lit] := by
  simp [literalsOf, h]

theorem eq_of_literalsOf_singleton {value : String}
    (h : literalsOf [value] = front ++ String.ofList old :: back) :
    isLiteral old = true ∧ value = String.ofList old ∧ front = [] ∧ back = [] := by
  by_cases hvalue : isLiteral value.toList = true
  · have hkept : literalsOf [value] = [value] := by simp [literalsOf, hvalue]
    rw [hkept] at h
    rcases List.append_eq_singleton_iff.1 h.symm with ⟨rfl, hlast⟩ | ⟨-, hnil⟩
    · obtain ⟨rfl, rfl⟩ := List.cons.inj hlast
      exact ⟨by simpa using hvalue, rfl, rfl, rfl⟩
    · simp at hnil
  · have hdropped : literalsOf [value] = [] := by simp [literalsOf, hvalue]
    simp [hdropped] at h

end Comparand

open Comparand

/-- With another literal among the values, this text spells them. -/
def ValuesSwap (Spelled : List String → List Char → Prop) (values : List String)
    (front back : List String) (before behind new : List Char) : Prop :=
  ∃ values', Spelled values' (before ++ (new ++ behind)) ∧
    literalsOf values' = front ++ String.ofList new :: back ∧
    values'.map hollowValue = values.map hollowValue

/-- The first one of some values is a literal, or one of the others is. -/
theorem swappable_values {Spelled : List String → List Char → Prop} {value : String}
    {values : List String} {space text more : List Char}
    (hvalue : ValueSpelled value text)
    (hliterals : literalsOf (value :: values) = front ++ String.ofList old :: back)
    (hfirst : ∀ {value text}, ValueSpelled value text →
      Spelled (value :: values) (space ++ (text ++ more)))
    (hothers : ∀ front, literalsOf values = front ++ String.ofList old :: back →
      Swappable old more fun before behind new => ∃ values',
        Spelled (value :: values') (space ++ (text ++ (before ++ (new ++ behind)))) ∧
          literalsOf values' = front ++ String.ofList new :: back ∧
          values'.map hollowValue = values.map hollowValue) :
    Swappable old (space ++ (text ++ more)) (ValuesSwap Spelled (value :: values) front back) := by
  rw [literalsOf_cons] at hliterals
  rcases append_eq_append_cons hliterals with ⟨rest, hhere, rfl⟩ | ⟨rest, rfl, hthere⟩
  · obtain ⟨hold, rfl, rfl, rfl⟩ := eq_of_literalsOf_singleton hhere
    obtain ⟨rfl, -⟩ := hvalue
    refine ⟨hold, space, more, by simp, fun new hnew => ⟨String.ofList new :: values, ?_, ?_, ?_⟩⟩
    · exact hfirst ⟨by simp, .inl hnew.literal⟩
    · rw [literalsOf_cons, literalsOf_of_isLiteral hnew.literal]
      rfl
    · rw [List.map_cons, List.map_cons, hollowValue_of_isLiteral hnew.literal,
        hollowValue_of_isLiteral hold]
  · refine (hothers rest hthere).within (space ++ text) [] (by simp) ?_
    rintro before behind new - - - ⟨values', hspelled, hnew, hhollow⟩
    refine ⟨value :: values', by simpa using hspelled, ?_, ?_⟩
    · rw [literalsOf_cons, hnew, List.append_assoc]
    · rw [List.map_cons, List.map_cons, hhollow]

theorem swappable_more {values : List String} {text : List Char}
    (h : MoreSpelled ValueSpelled ')' values text)
    (hliterals : literalsOf values = front ++ String.ofList old :: back) :
    Swappable old text (ValuesSwap (MoreSpelled ValueSpelled ')') values front back) := by
  induction h generalizing front with
  | closed _ => simp [literalsOf] at hliterals
  | @comma gap space text more value values hgap hspace hvalue hmore ih =>
    have hshape : ∀ text more : List Char, gap ++ ',' :: (space ++ (text ++ more)) =
        (gap ++ ',' :: space) ++ (text ++ more) := by simp
    rw [hshape]
    refine swappable_values hvalue hliterals (fun hother => ?_) fun front hthere => ?_
    · rw [← hshape]
      exact .comma hgap hspace hother hmore
    · refine (ih hthere).within [] [] (by simp) ?_
      rintro before behind new - - - ⟨values', hspelled, hnew⟩
      refine ⟨values', ?_, hnew⟩
      rw [← hshape]
      simpa using MoreSpelled.comma hgap hspace hvalue hspelled

theorem swappable_listed {values : List String} {text : List Char}
    (h : ValuesSpelled values text)
    (hliterals : literalsOf values = front ++ String.ofList old :: back) :
    Swappable old text (ValuesSwap ValuesSpelled values front back) := by
  cases h with
  | none _ => simp [literalsOf] at hliterals
  | @some gap text more value values hgap hvalue hmore =>
    have hshape : ∀ text more : List Char, '(' :: (gap ++ (text ++ more)) =
        ('(' :: gap) ++ (text ++ more) := by simp
    rw [hshape]
    refine swappable_values hvalue hliterals (fun hother => ?_) fun front hthere => ?_
    · rw [← hshape]
      exact .some hgap hother hmore
    · refine (swappable_more hmore hthere).within [] [] (by simp) ?_
      rintro before behind new - - - ⟨values', hspelled, hnew⟩
      refine ⟨values', ?_, hnew⟩
      rw [← hshape]
      simpa using ValuesSpelled.some hgap hvalue hspelled

end Values

/-! ## Conditions -/

section Conditions

variable {old : List Char} {front back : List String}

/-- With another literal in the comparand, this text spells the comparison. -/
def ComparandSwap (comparator : Comparator) (comparand : Comparand) (front back : List String)
    (before behind new : List Char) : Prop :=
  ∃ comparand', ComparisonSpelled comparator comparand' (before ++ (new ++ behind)) ∧
    comparand'.literals = front ++ String.ofList new :: back ∧
    comparand'.hollow = comparand.hollow ∧ comparand'.endsBare = comparand.endsBare

theorem swappable_single {comparator : Comparator} {value : String} {sign text : List Char}
    (hvalue : ValueSpelled value text)
    (hliterals : Comparand.literalsOf [value] = front ++ String.ofList old :: back)
    (hsign : ∀ {value' text'}, ValueSpelled value' text' → text'.head? = text.head? →
      ComparisonSpelled comparator (.single value') (sign ++ text')) :
    Swappable old (sign ++ text) (ComparandSwap comparator (.single value) front back) := by
  obtain ⟨hold, rfl, rfl, rfl⟩ := Comparand.eq_of_literalsOf_singleton hliterals
  obtain ⟨rfl, -⟩ := hvalue
  refine ⟨hold, sign, [], by simp, fun new hnew => ⟨.single (String.ofList new), ?_, ?_, ?_, ?_⟩⟩
  · rw [List.append_nil]
    exact hsign ⟨by simp, .inl hnew.literal⟩ (by simpa using hnew.mark)
  · exact Comparand.literalsOf_of_isLiteral hnew.literal
  · rw [Comparand.hollow, Comparand.hollow, hollowValue_of_isLiteral hnew.literal,
      hollowValue_of_isLiteral hold]
  · simp [Comparand.endsBare, hold, hnew.literal]

theorem swappable_list {comparator : Comparator} {values : List String} {sign text : List Char}
    (hvalues : ValuesSpelled values text)
    (hliterals : Comparand.literalsOf values = front ++ String.ofList old :: back)
    (hsign : ∀ {values' text'}, ValuesSpelled values' text' →
      ComparisonSpelled comparator (.list values') (sign ++ text')) :
    Swappable old (sign ++ text) (ComparandSwap comparator (.list values) front back) := by
  refine (swappable_listed hvalues hliterals).within sign [] (by simp) ?_
  rintro before behind new - - - ⟨values', hspelled, hnew, hhollow⟩
  refine ⟨.list values', by simpa using hsign hspelled, hnew, ?_, rfl⟩
  rw [Comparand.hollow, Comparand.hollow, hhollow]

theorem swappable_comparison {comparator : Comparator} {comparand : Comparand}
    {text : List Char} (h : ComparisonSpelled comparator comparand text)
    (hliterals : comparand.literals = front ++ String.ofList old :: back) :
    Swappable old text (ComparandSwap comparator comparand front back) := by
  cases h with
  | @colon value text hvalue htilde =>
    show Swappable old ([':'] ++ text) _
    exact swappable_single hvalue hliterals fun hother hhead => .colon hother (hhead ▸ htilde)
  | @notColon value text hvalue =>
    show Swappable old (['!', ':'] ++ text) _
    exact swappable_single hvalue hliterals fun hother _ => .notColon hother
  | @regex value text hvalue =>
    show Swappable old ([':', '~'] ++ text) _
    exact swappable_single hvalue hliterals fun hother _ => .regex hother
  | @oneOf gap word space text values hgap hne hword hspace hvalues =>
    have hshape : ∀ text : List Char, gap ++ (word ++ (space ++ text)) =
        (gap ++ (word ++ space)) ++ text := by simp
    rw [hshape]
    refine swappable_list hvalues hliterals fun hother => ?_
    rw [← hshape]
    exact .oneOf hgap hne hword hspace hother
  | @noneOf gap not between word space text values hgap hne hnot hbetween hbetweenNe hword hspace
      hvalues =>
    have hshape : ∀ text : List Char, gap ++ (not ++ (between ++ (word ++ (space ++ text)))) =
        (gap ++ (not ++ (between ++ (word ++ space)))) ++ text := by simp
    rw [hshape]
    refine swappable_list hvalues hliterals fun hother => ?_
    rw [← hshape]
    exact .noneOf hgap hne hnot hbetween hbetweenNe hword hspace hother

/-- The text of another condition, with its literal in place. -/
theorem swappable_condition {c : Condition} {text : List Char} (h : ConditionSpelled c text)
    (hliterals : c.comparand.literals = front ++ String.ofList old :: back) :
    Swappable old text fun before behind new => ∃ comparand',
      ConditionSpelled { c with comparand := comparand' } (before ++ (new ++ behind)) ∧
        comparand'.literals = front ++ String.ofList new :: back ∧
        comparand'.hollow = c.comparand.hollow ∧ comparand'.endsBare = c.comparand.endsBare := by
  obtain ⟨hkey, hchars, comparison, hcomparison, rfl⟩ := h
  refine (swappable_comparison hcomparison hliterals).within
    ((if c.negative then ['!'] else []) ++ c.key.toList) [] (by simp) ?_
  rintro before behind new - - - ⟨comparand', hspelled, hnew⟩
  exact ⟨comparand', ⟨hkey, hchars, _, hspelled, by simp⟩, hnew⟩

end Conditions

/-! ## Filter blocks -/

theorem AlikeToMark.readable_joint {joint : JointLayout} {text text' : List Char}
    (h : AlikeToMark text text') (hjoint : joint.Readable text) : joint.Readable text' := by
  cases joint with
  | comma => exact hjoint
  | joined junction gap word space =>
    obtain ⟨hgap, hword, hspace, hends, hnot⟩ := hjoint
    exact ⟨hgap, hword, hspace, by rwa [(h.append space).head?_eq], by rwa [h.comesFirst_eq]⟩
  | joinedNot junction gap word between not space =>
    obtain ⟨hgap, hword, hbetween, hne, hnot, hspace, hends⟩ := hjoint
    exact ⟨hgap, hword, hbetween, hne, hnot, hspace, by rwa [(h.append space).head?_eq]⟩

/-- What is written is the text with the new literal, and what is read is the same as before but
for the literal and the places. -/
structure Swapped {α : Type} (hollow : (Nat → Nat) → α → α) (old before behind new : List Char)
    (front back : List String) (text : List Char) (literals : List String)
    (read read' : Nat → α) : Prop where
  text : text = before ++ (new ++ behind)
  literals : literals = front ++ String.ofList new :: back
  hollow : ∀ start, hollow id (read' start) =
    hollow (shift (start + utf8Length before) (utf8Length old) (utf8Length new)) (read start)

theorem Swapped.alike {α : Type} {hollow : (Nat → Nat) → α → α}
    {old before behind new text text' : List Char} {front back literals : List String}
    {read read' : Nat → α}
    (h : Swapped hollow old before behind new front back text' literals read read')
    (htext : text = before ++ (old ++ behind)) (hold : isLiteral old = true)
    (hnew : SameMarks old new) : AlikeToMark text text' := by
  rw [htext, h.text]
  exact .of_sameMarks hold hnew

section Blocks

variable {old : List Char}

open BlockItem

/-- With another literal in it, the operand is this text. -/
def OperandSwap (old : List Char) (operand : OperandLayout) (front back : List String)
    (before behind new : List Char) : Prop :=
  ∃ operand' : OperandLayout, operand'.Readable ∧ operand'.endsBare = operand.endsBare ∧
    Swapped hollowAll old before behind new front back operand'.text operand'.literals
      operand.items operand'.items

/-- With another literal in it, what follows an operand is this text. -/
def TailSwap (old : List Char) (tail : TailLayout) (front back : List String)
    (before behind new : List Char) : Prop :=
  ∃ tail' : TailLayout, tail'.Readable ∧
    Swapped hollowAll old before behind new front back tail'.text tail'.literals
      tail.items tail'.items

mutual

theorem OperandLayout.swappable : ∀ (operand : OperandLayout) {front back : List String},
    operand.Readable → operand.literals = front ++ String.ofList old :: back →
    Swappable old operand.text (OperandSwap old operand front back)
  | .condition c text, front, back, h, hliterals => by
    refine (swappable_condition h.1 hliterals).within [] [] (by simp [OperandLayout.text]) ?_
    rintro before behind new hold rfl - ⟨comparand', hspelled, hnew, hhollow, hends⟩
    refine ⟨.condition { c with comparand := comparand' } (before ++ (new ++ behind)),
      ⟨hspelled, h.2⟩, hends, by simp [OperandLayout.text], hnew, fun start => ?_⟩
    have hspan := Span.map_shift hold rfl (rfl : _ = before ++ (new ++ behind))
      (Nat.le_refl start) 0
    simp only [Nat.add_zero] at hspan
    simp only [OperandLayout.items, hollowAll, hollow, Condition.hollow, Condition.movedTo,
      hhollow, List.nil_append, hspan, Span.map_id]
  | .grouped gap first more, front, back, h, hliterals => by
    obtain ⟨hgap, hfirst, hmore, hends⟩ := h
    rcases append_eq_append_cons hliterals with ⟨rest, hhere, rfl⟩ | ⟨rest, rfl, hthere⟩
    · refine (first.swappable hfirst hhere).within ('(' :: gap) (more.text ++ [')'])
        (by simp [OperandLayout.text]) ?_
      rintro before behind new hold htext - ⟨first', hfirst', hbare, hswap⟩
      refine ⟨.grouped gap first' more, ⟨hgap, hfirst', hmore, by rwa [hbare]⟩, rfl,
        by simp [OperandLayout.text, hswap.text], by simp [OperandLayout.literals, hswap.literals],
        fun start => ?_⟩
      have hplace : start + utf8Length ('(' :: gap ++ before) =
          start + utf8Length ['('] + utf8Length gap + utf8Length before := by
        simp [utf8Length, Nat.add_assoc]
      have hmoved := hollowAll_tail more (moves_behind (utf8Length_pos_of_isLiteral hold)
        htext hswap.text (start + utf8Length ['('] + utf8Length gap) (utf8Length more.text))
      rw [hplace]
      simp only [OperandLayout.items, hollowAll, hollow, hollowAll_append, hswap.hollow, hmoved]
    · refine (more.swappable hmore hthere).within ('(' :: (gap ++ first.text)) [')']
        (by simp [OperandLayout.text]) ?_
      rintro before behind new hold htext hsame ⟨more', hmore', hswap⟩
      have halike := hswap.alike htext hold hsame
      refine ⟨.grouped gap first more',
        ⟨hgap, hfirst, hmore', fun hbare => halike.stops (hends hbare)⟩, rfl,
        by simp [OperandLayout.text, hswap.text], by simp [OperandLayout.literals, hswap.literals],
        fun start => ?_⟩
      have hplace : start + utf8Length ('(' :: (gap ++ first.text) ++ before) =
          start + utf8Length ['('] + utf8Length gap + utf8Length first.text +
            utf8Length before := by
        simp [utf8Length, Nat.add_assoc]
      have hkept := hollowAll_operand first
        (moves_in_front (start + utf8Length ['('] + utf8Length gap) _ (utf8Length before)
          (utf8Length old) (utf8Length new))
      rw [hplace]
      simp only [OperandLayout.items, hollowAll, hollow, hollowAll_append, hswap.hollow, hkept]
  | .negated word gap operand, front, back, h, hliterals => by
    obtain ⟨hword, hgap, hends, hin, hoperand⟩ := h
    refine (operand.swappable hoperand hliterals).within (word ++ gap) []
      (by simp [OperandLayout.text]) ?_
    rintro before behind new hold htext hsame ⟨operand', hoperand', hbare, hswap⟩
    have halike := hswap.alike htext hold hsame
    refine ⟨.negated word gap operand', ⟨hword, hgap, by rwa [(halike.append gap).head?_eq],
      by rwa [halike.comesFirst_eq], hoperand'⟩, hbare, by simp [OperandLayout.text, hswap.text],
      hswap.literals, fun start => ?_⟩
    have hplace : start + utf8Length (word ++ gap ++ before) =
        start + utf8Length word + utf8Length gap + utf8Length before := by
      simp [Nat.add_assoc]
    rw [hplace]
    simp only [OperandLayout.items, hollowAll, hollow, hswap.hollow]

theorem TailLayout.swappable : ∀ (tail : TailLayout) {front back : List String},
    tail.Readable → tail.literals = front ++ String.ofList old :: back →
    Swappable old tail.text (TailSwap old tail front back)
  | .done gap, front, back, h, hliterals => by
    simp [TailLayout.literals] at hliterals
  | .more joint operand others, front, back, h, hliterals => by
    obtain ⟨hjoint, hoperand, hothers, hends⟩ := h
    rcases append_eq_append_cons hliterals with ⟨rest, hhere, rfl⟩ | ⟨rest, rfl, hthere⟩
    · refine (operand.swappable hoperand hhere).within joint.text others.text
        (by simp [TailLayout.text]) ?_
      rintro before behind new hold htext hsame ⟨operand', hoperand', hbare, hswap⟩
      have halike := hswap.alike htext hold hsame
      refine ⟨.more joint operand' others,
        ⟨halike.readable_joint hjoint, hoperand', hothers, by rwa [hbare]⟩,
        by simp [TailLayout.text, hswap.text], by simp [TailLayout.literals, hswap.literals],
        fun start => ?_⟩
      have hplace : start + utf8Length (joint.text ++ before) =
          start + utf8Length joint.text + utf8Length before := by
        simp [Nat.add_assoc]
      have hmoved := hollowAll_tail others (moves_behind (utf8Length_pos_of_isLiteral hold)
        htext hswap.text (start + utf8Length joint.text) (utf8Length others.text))
      rw [hplace]
      simp only [TailLayout.items, hollowAll, hollow, hollowAll_append, hswap.hollow, hmoved]
    · refine (others.swappable hothers hthere).within (joint.text ++ operand.text) []
        (by simp [TailLayout.text]) ?_
      rintro before behind new hold htext hsame ⟨others', hothers', hswap⟩
      have halike := hswap.alike htext hold hsame
      refine ⟨.more joint operand others',
        ⟨hjoint, hoperand, hothers', fun hbare => halike.stops (hends hbare)⟩,
        by simp [TailLayout.text, hswap.text], by simp [TailLayout.literals, hswap.literals],
        fun start => ?_⟩
      have hplace : start + utf8Length (joint.text ++ operand.text ++ before) =
          start + utf8Length joint.text + utf8Length operand.text + utf8Length before := by
        simp [Nat.add_assoc]
      have hkept := hollowAll_operand operand
        (moves_in_front (start + utf8Length joint.text) _ (utf8Length before) (utf8Length old)
          (utf8Length new))
      rw [hplace]
      simp only [TailLayout.items, hollowAll, hollow, hollowAll_append, hswap.hollow, hkept]

end

/-- With another literal in it, the filter block is this text. -/
def BodySwap (old : List Char) (body : BodyLayout) (front back : List String)
    (before behind new : List Char) : Prop :=
  ∃ body' : BodyLayout, body'.Readable ∧
    Swapped hollowAll old before behind new front back body'.text body'.literals
      body.block body'.block

theorem BodyLayout.swappable (body : BodyLayout) {front back : List String} (h : body.Readable)
    (hliterals : body.literals = front ++ String.ofList old :: back) :
    Swappable old body.text (BodySwap old body front back) := by
  cases body with
  | wildcard gap space => simp [literals] at hliterals
  | items list =>
    obtain ⟨gap, first, more⟩ := list
    obtain ⟨hgap, hfirst, hmore, hends⟩ := h
    rcases append_eq_append_cons hliterals with ⟨rest, hhere, rfl⟩ | ⟨rest, rfl, hthere⟩
    · refine (first.swappable hfirst hhere).within gap more.text
        (by simp [text, ItemsLayout.text]) ?_
      rintro before behind new hold htext - ⟨first', hfirst', hbare, hswap⟩
      refine ⟨.items ⟨gap, first', more⟩, ⟨hgap, hfirst', hmore, by rwa [hbare]⟩,
        by simp [text, ItemsLayout.text, hswap.text], by simp [literals, hswap.literals],
        fun start => ?_⟩
      have hmoved := hollowAll_tail more (moves_behind (utf8Length_pos_of_isLiteral hold)
        htext hswap.text (start + utf8Length gap) (utf8Length more.text))
      rw [utf8Length_append, ← Nat.add_assoc]
      simp only [block, ItemsLayout.items, hollowAll_append, hswap.hollow, hmoved]
    · refine (more.swappable hmore hthere).within (gap ++ first.text) []
        (by simp [text, ItemsLayout.text]) ?_
      rintro before behind new hold htext hsame ⟨more', hmore', hswap⟩
      have halike := hswap.alike htext hold hsame
      refine ⟨.items ⟨gap, first, more'⟩,
        ⟨hgap, hfirst, hmore', fun hbare => halike.stops (hends hbare)⟩,
        by simp [text, ItemsLayout.text, hswap.text], by simp [literals, hswap.literals],
        fun start => ?_⟩
      have hkept := hollowAll_operand first
        (moves_in_front (start + utf8Length gap) _ (utf8Length before) (utf8Length old)
          (utf8Length new))
      rw [utf8Length_append, utf8Length_append, ← Nat.add_assoc, ← Nat.add_assoc]
      simp only [block, ItemsLayout.items, hollowAll_append, hswap.hollow, hkept]

end Blocks

/-! ## Expressions -/

section Expressions

variable {old : List Char} {pattern : WindowPattern}

/-- With another literal in it, the metric query is this text. -/
def MetricSwap (old : List Char) (pattern : WindowPattern) (m : MetricLayout)
    (front back : List String) (before behind new : List Char) : Prop :=
  ∃ m' : MetricLayout, m'.Readable pattern ∧
    Swapped MetricTerm.hollow old before behind new front back m'.text m'.body.literals
      m.term m'.term

theorem MetricLayout.swappable (m : MetricLayout) {front back : List String}
    (h : m.Readable pattern) (hliterals : m.body.literals = front ++ String.ofList old :: back) :
    Swappable old m.text (MetricSwap old pattern m front back) := by
  refine (m.body.swappable h.body hliterals).within (m.front ++ ['\x7b'])
    ('\x7d' :: (m.tags ++ m.calls)) (by simp [text]) ?_
  rintro before behind new hold htext - ⟨body', hbody', hswap⟩
  refine ⟨m.withBody body',
    ⟨h.metric_ne, h.metricChars, h.head, hbody', h.tags, h.calls⟩, ?_, hswap.literals,
    fun start => ?_⟩
  · show m.front ++ '\x7b' :: (body'.text ++ '\x7d' :: (m.tags ++ m.calls)) = _
    rw [hswap.text]
    simp
  · have hplace : start + utf8Length (m.front ++ ['\x7b'] ++ before) =
        m.opened start + utf8Length before := by
      rw [utf8Length_append, utf8Length_append, opened, Nat.add_assoc, Nat.add_assoc,
        Nat.add_assoc]
    have hstop : ∀ body : BodyLayout, start + utf8Length (m.withBody body).text =
        m.opened start + utf8Length body.text + utf8Length ('\x7d' :: (m.tags ++ m.calls)) := by
      intro body
      show start + utf8Length
        (m.front ++ '\x7b' :: (body.text ++ '\x7d' :: (m.tags ++ m.calls))) = _
      simp only [opened, utf8Length_append, utf8Length, Nat.add_assoc, Nat.add_zero]
    have hinside : start ≤ m.opened start := by
      rw [opened, Nat.add_assoc]
      exact Nat.le_add_right _ _
    have hblock := hswap.hollow (m.opened start)
    have hblockSpan := Span.map_shift hold htext hswap.text (Nat.le_refl (m.opened start)) 0
    have hspan := Span.map_shift hold htext hswap.text hinside
      (utf8Length ('\x7d' :: (m.tags ++ m.calls)))
    rw [← hstop body', ← hstop m.body] at hspan
    have hterm : (m.withBody body').term start =
        { m.term start with
          block := body'.block (m.opened start)
          blockSpan := ⟨m.opened start, m.opened start + utf8Length body'.text⟩
          span := ⟨start, start + utf8Length (m.withBody body').text⟩ } := rfl
    rw [hplace, hterm]
    simp only [Nat.add_zero] at hblockSpan
    simp only [MetricTerm.hollow, term, hblock, hblockSpan, Span.map_id, MetricTerm.mk.injEq,
      true_and]
    exact hspan.symm

/-- With another literal in it, the expression is this text, unless a call in it is taken for a
window. -/
def ExprSwap (old : List Char) (pattern : WindowPattern) (inArguments : Bool) (e : ExprLayout)
    (front back : List String) (before behind new : List Char) : Prop :=
  ∃ e' : ExprLayout, (e'.Calls → e'.Readable pattern inArguments) ∧ e'.rank = e.rank ∧
    Swapped Expr.hollow old before behind new front back e'.text e'.literals e.expr e'.expr

/-- With another literal in them, the arguments are this text, unless a call in them is taken for
a window. -/
def ArgumentsSwap (old : List Char) (pattern : WindowPattern) (arguments : ArgumentsLayout)
    (front back : List String) (before behind new : List Char) : Prop :=
  ∃ arguments' : ArgumentsLayout, (arguments'.Calls → arguments'.Readable pattern) ∧
    arguments'.isNone = arguments.isNone ∧
    Swapped Expr.hollowAll old before behind new front back arguments'.text arguments'.literals
      arguments.exprs arguments'.exprs

mutual

/-- A literal of an expression can make room for another one, unless a call is then taken for a
window. -/
theorem ExprLayout.swappable : ∀ (e : ExprLayout) {inArguments : Bool} {front back : List String},
    e.Readable pattern inArguments → e.literals = front ++ String.ofList old :: back →
    Swappable old e.text (ExprSwap old pattern inArguments e front back)
  | .number _, _, _, _, _, hliterals => by
    simp [ExprLayout.literals] at hliterals
  | .literal text, inArguments, front, back, h, hliterals => by
    have hold : isLiteral text = true := h
    rw [ExprLayout.literals, ← Comparand.literalsOf_of_isLiteral hold] at hliterals
    obtain ⟨-, htext, rfl, rfl⟩ := Comparand.eq_of_literalsOf_singleton hliterals
    obtain rfl := String.ofList_injective htext
    refine ⟨hold, [], [], by simp [ExprLayout.text], fun new hnew =>
      ⟨.literal new, fun _ => hnew.literal, rfl, by simp [ExprLayout.text], rfl, fun start => ?_⟩⟩
    have hspan := Span.map_shift hold (show text = [] ++ (text ++ []) by simp)
      (show new = [] ++ (new ++ []) by simp) (Nat.le_refl start) 0
    simp only [Nat.add_zero] at hspan
    simp only [ExprLayout.expr, Expr.hollow, hspan, Span.map_id]
  | .word _, _, _, _, _, hliterals => by
    simp [ExprLayout.literals] at hliterals
  | .metric m, inArguments, front, back, h, hliterals => by
    refine (m.swappable h hliterals).within [] [] (by simp [ExprLayout.text]) ?_
    rintro before behind new - - - ⟨m', hm', hswap⟩
    refine ⟨.metric m', fun _ => hm', rfl, by simp [ExprLayout.text, hswap.text], hswap.literals,
      fun start => ?_⟩
    simp only [ExprLayout.expr, Expr.hollow, hswap.hollow, List.nil_append]
  | .call name arguments, inArguments, front, back, h, hliterals => by
    obtain ⟨hname, harguments, -⟩ := h
    refine (arguments.swappable harguments hliterals).within (name ++ ['(']) []
      (by simp [ExprLayout.text]) ?_
    rintro before behind new hold htext - ⟨arguments', harguments', -, hswap⟩
    refine ⟨.call name arguments', fun hcalls => ⟨hname, harguments' hcalls.2, hcalls.1⟩, rfl,
      by simp [ExprLayout.text, hswap.text], hswap.literals, fun start => ?_⟩
    have hspan := Span.map_shift hold htext hswap.text
      (show start ≤ start + utf8Length name + utf8Length ['('] by omega) 0
    rw [utf8Length_append, utf8Length_append, ← Nat.add_assoc, ← Nat.add_assoc]
    simp only [Nat.add_zero] at hspan
    simp only [ExprLayout.expr, Expr.hollow, hswap.hollow, hspan, Span.map_id]
  | .paren gap inner space, inArguments, front, back, h, hliterals => by
    obtain ⟨hgap, hinner, hspace⟩ := h
    refine (inner.swappable hinner hliterals).within (['('] ++ gap) (space ++ [')'])
      (by simp [ExprLayout.text]) ?_
    rintro before behind new hold htext - ⟨inner', hinner', -, hswap⟩
    refine ⟨.paren gap inner' space, fun hcalls => ⟨hgap, hinner' hcalls, hspace⟩, rfl,
      by simp [ExprLayout.text, hswap.text], hswap.literals, fun start => ?_⟩
    have hspan := Span.map_shift hold htext hswap.text
      (show start ≤ start + utf8Length ['('] + utf8Length gap by omega)
      (utf8Length space + utf8Length [')'])
    rw [utf8Length_append, utf8Length_append, ← Nat.add_assoc, ← Nat.add_assoc]
    simp only [← Nat.add_assoc] at hspan
    simp only [ExprLayout.expr, Expr.hollow, hswap.hollow, hspan, Span.map_id]
  | .binary operator left gap space right, inArguments, front, back, h, hliterals => by
    obtain ⟨hleft, hleftRank, hgap, hspace, hright, hrightRank⟩ := h
    rcases append_eq_append_cons hliterals with ⟨rest, hhere, rfl⟩ | ⟨rest, rfl, hthere⟩
    · refine (left.swappable hleft hhere).within []
        (gap ++ operator.symbol :: (space ++ right.text)) (by simp [ExprLayout.text]) ?_
      rintro before behind new hold htext - ⟨left', hleft', hrank, hswap⟩
      refine ⟨.binary operator left' gap space right, fun hcalls => ⟨hleft' hcalls.1,
        by rwa [hrank], hgap, hspace, hright, hrightRank⟩, rfl,
        by simp [ExprLayout.text, hswap.text], by simp [ExprLayout.literals, hswap.literals],
        fun start => ?_⟩
      have hmoves := (moves_behind (utf8Length_pos_of_isLiteral hold) htext hswap.text start
        (utf8Length gap + utf8Length [operator.symbol] + utf8Length space +
          utf8Length right.text)).part _ (Nat.le_refl _)
      have hmoved := right.hollow_expr hmoves
      simp only [← Nat.add_assoc] at hmoved
      simp only [ExprLayout.expr, Expr.hollow_join, hswap.hollow, hmoved, List.nil_append]
    · refine (right.swappable hright hthere).within
        (left.text ++ gap ++ [operator.symbol] ++ space) [] (by simp [ExprLayout.text]) ?_
      rintro before behind new hold htext - ⟨right', hright', hrank, hswap⟩
      refine ⟨.binary operator left gap space right', fun hcalls => ⟨hleft, hleftRank, hgap,
        hspace, hright' hcalls.2, by rwa [hrank]⟩, rfl,
        by simp [ExprLayout.text, hswap.text], by simp [ExprLayout.literals, hswap.literals],
        fun start => ?_⟩
      have hkept := left.hollow_expr (moves_in_front start _
        (utf8Length gap + utf8Length [operator.symbol] + utf8Length space + utf8Length before)
        (utf8Length old) (utf8Length new))
      simp only [← Nat.add_assoc] at hkept
      simp only [utf8Length_append, ← Nat.add_assoc]
      simp only [ExprLayout.expr, Expr.hollow_join, hswap.hollow, hkept]

theorem ArgumentsLayout.swappable : ∀ (arguments : ArgumentsLayout) {front back : List String},
    arguments.Readable pattern → arguments.literals = front ++ String.ofList old :: back →
    Swappable old arguments.text (ArgumentsSwap old pattern arguments front back)
  | .none _, _, _, _, hliterals => by
    simp [ArgumentsLayout.literals] at hliterals
  | .last gap argument space, front, back, h, hliterals => by
    obtain ⟨hgap, hargument, hspace⟩ := h
    refine (argument.swappable hargument hliterals).within gap (space ++ [')'])
      (by simp [ArgumentsLayout.text]) ?_
    rintro before behind new hold htext - ⟨argument', hargument', -, hswap⟩
    refine ⟨.last gap argument' space, fun hcalls => ⟨hgap, hargument' hcalls, hspace⟩, rfl,
      by simp [ArgumentsLayout.text, hswap.text], hswap.literals, fun start => ?_⟩
    rw [utf8Length_append, ← Nat.add_assoc]
    simp only [ArgumentsLayout.exprs, Expr.hollowAll, hswap.hollow]
  | .more gap argument space others, front, back, h, hliterals => by
    obtain ⟨hgap, hargument, hspace, hsome, hothers⟩ := h
    rcases append_eq_append_cons hliterals with ⟨rest, hhere, rfl⟩ | ⟨rest, rfl, hthere⟩
    · refine (argument.swappable hargument hhere).within gap (space ++ ',' :: others.text)
        (by simp [ArgumentsLayout.text]) ?_
      rintro before behind new hold htext - ⟨argument', hargument', -, hswap⟩
      refine ⟨.more gap argument' space others, fun hcalls => ⟨hgap, hargument' hcalls.1, hspace,
        hsome, hothers⟩, rfl, by simp [ArgumentsLayout.text, hswap.text],
        by simp [ArgumentsLayout.literals, hswap.literals], fun start => ?_⟩
      have hmoves := (moves_behind (utf8Length_pos_of_isLiteral hold) htext hswap.text
        (start + utf8Length gap) (utf8Length space + utf8Length [','] +
          utf8Length others.text)).part _ (Nat.le_refl _)
      have hmoved := others.hollowAll_exprs hmoves
      simp only [← Nat.add_assoc] at hmoved
      rw [utf8Length_append, ← Nat.add_assoc]
      simp only [ArgumentsLayout.exprs, Expr.hollowAll, hswap.hollow, hmoved]
    · refine (others.swappable hothers hthere).within
        (gap ++ argument.text ++ space ++ [',']) [] (by simp [ArgumentsLayout.text]) ?_
      rintro before behind new hold htext - ⟨others', hothers', hisNone, hswap⟩
      refine ⟨.more gap argument space others', fun hcalls => ⟨hgap, hargument, hspace,
        by rwa [hisNone], hothers' hcalls.2⟩, rfl, by simp [ArgumentsLayout.text, hswap.text],
        by simp [ArgumentsLayout.literals, hswap.literals], fun start => ?_⟩
      have hkept := argument.hollow_expr (moves_in_front (start + utf8Length gap) _
        (utf8Length space + utf8Length [','] + utf8Length before)
        (utf8Length old) (utf8Length new))
      simp only [← Nat.add_assoc] at hkept
      simp only [utf8Length_append, ← Nat.add_assoc]
      simp only [ArgumentsLayout.exprs, Expr.hollowAll, hswap.hollow, hkept]

end

end Expressions

end MetricQuery
