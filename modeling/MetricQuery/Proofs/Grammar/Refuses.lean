import MetricQuery.Proofs.Grammar.BlockExact

/-!
# Texts that are not read

`Refuses reader text` says that the reader reads nothing from the text, wherever that starts.
A filter list is refused from the first operand on that cannot be read.

* `condition_refuses_pattern`, `condition_refuses_list`, `condition_refuses_word`: the three
  conditions that a written filter may be mistaken for.
* `CoreRefused`: an operand that cannot be read, but for the `NOT`s in front of it.
* `moreOperands_refuses_separated`, `blockItems_refuses_separated`: lists with such an operand
  in them, what is in front of it being read.
* `blockItems_refuses_pattern`: a pattern that starts as a literal does and is none, where it is
  all of the list.
-/

namespace MetricQuery.Grammar

open Text BlockItem

/-- The reader reads nothing from the text. -/
def Refuses {α : Type} (reader : Reader α) (text : List Char) : Prop :=
  ∀ offset result, reader ⟨text, offset⟩ ≠ .ok result

/-! ## Conditions -/

theorem value_refuses {rest : List Char} (h : Stops isValueChar rest) : Refuses value rest := by
  intro offset result hread
  have hquote : ¬ (Cursor.mk rest offset).peek?.any isQuote = true := by
    cases rest with
    | nil => simp [Cursor.peek?]
    | cons c rest =>
      have hc := stops_cons.1 h
      intro hquote
      have hmark : c = '\'' ∨ c = '"' := by simpa [Cursor.peek?, isQuote] using hquote
      rcases hmark with rfl | rfl
      · exact absurd hc (by decide)
      · exact absurd hc (by decide)
  have htake := Cursor.takeWhile_append offset
    (show ∀ c ∈ ([] : List Char), isValueChar c = true by simp) h
  rw [List.nil_append] at htake
  simp [value, if_neg hquote, htake] at hread

/-- A condition on a key of key characters is read from the comparison on. -/
theorem condition_of_key {key rest : List Char} (hne : key ≠ [])
    (hkey : ∀ c ∈ key, isKeyChar c = true) (hrest : Stops isKeyChar rest) {offset : Nat}
    {test : Condition} {next : Cursor} (h : condition ⟨key ++ rest, offset⟩ = .ok (test, next)) :
    ∃ start read, comparison (String.ofList key) ⟨rest, start⟩ = .ok (read, next) := by
  have htake := Cursor.takeWhile_append offset hkey hrest
  cases key with
  | nil => exact absurd rfl hne
  | cons ch key =>
    have hbang : (Cursor.mk (ch :: key ++ rest) offset).eat? '!' = none := by
      refine Cursor.eat?_of_ne _ _ ?_
      rintro rfl
      exact absurd (hkey '!' (by simp)) (by decide)
    simp only [condition, hbang, htake] at h
    obtain ⟨⟨read, stop⟩, hread, heq⟩ := bind_eq_ok_iff.1 h
    obtain ⟨-, rfl⟩ := Prod.mk.inj (Except.ok.inj heq)
    exact ⟨_, read, hread⟩

/-- Behind the sign `~` a value is read. -/
theorem condition_of_pattern {key rest : List Char} (hne : key ≠ [])
    (hkey : ∀ c ∈ key, isKeyChar c = true) {offset : Nat} {test : Condition} {next : Cursor}
    (h : condition ⟨key ++ ':' :: '~' :: rest, offset⟩ = .ok (test, next)) :
    ∃ start v, value ⟨rest, start⟩ = .ok (v, next) := by
  obtain ⟨start, read, hread⟩ := condition_of_key hne hkey (stops_cons.2 (by decide)) h
  obtain ⟨⟨v, stop⟩, hvalue, heq⟩ := bind_eq_ok_iff.1 hread
  obtain ⟨-, rfl⟩ := Prod.mk.inj (Except.ok.inj heq)
  exact ⟨_, v, hvalue⟩

/-- A pattern is wanted behind the sign `~`. -/
theorem condition_refuses_pattern {key rest : List Char} (hne : key ≠ [])
    (hkey : ∀ c ∈ key, isKeyChar c = true) (hrest : Stops isValueChar rest) :
    Refuses condition (key ++ ':' :: '~' :: rest) := by
  intro offset result h
  obtain ⟨start, v, hvalue⟩ := condition_of_pattern hne hkey h
  exact value_refuses hrest _ _ hvalue

/-- A list is wanted behind the word `IN`. -/
theorem condition_refuses_list {key word rest : List Char} {ch : Char} (hne : key ≠ [])
    (hkey : ∀ c ∈ key, isKeyChar c = true) (hword : sameLetters word "IN".toList = true)
    (hblank : isBlank ch = false) (hparen : ch ≠ '(') :
    Refuses condition (key ++ ' ' :: (word ++ ' ' :: ch :: rest)) := by
  intro offset result h
  have hspace : Blanks [' '] := by simp [isBlank_space]
  have hends : (' ' :: ch :: rest).head?.any endsKeyword = true := by
    simp [endsKeyword, isBlank_space]
  have hmark : ∀ offset, comparisonMark? ⟨' ' :: (word ++ ' ' :: ch :: rest), offset⟩ = none :=
    fun offset => comparisonMark?_of_gap (word ++ ' ' :: ch :: rest) offset hspace (by simp)
  have hskip : ∀ offset, (Cursor.mk (' ' :: (word ++ ' ' :: ch :: rest)) offset).skipBlank =
      ⟨word ++ ' ' :: ch :: rest, offset + utf8Length [' ']⟩ := fun offset =>
    Cursor.skipBlank_append offset hspace
      (stops_blank_of_sameLetters _ isAlpha_in (by decide) hword).2
  have hnot : ∀ offset, (Cursor.mk (word ++ ' ' :: ch :: rest) offset).keyword? "NOT" = none :=
    fun offset => Cursor.keyword?_of_not offset isAlpha_not
      (comesFirst_of_sameLetters isAlpha_in hword hends (by decide))
  have hbehind : ∀ offset, (Cursor.mk (' ' :: ch :: rest) offset).skipBlank =
      ⟨ch :: rest, offset + utf8Length [' ']⟩ := fun offset =>
    Cursor.skipBlank_append offset hspace (stops_cons.2 hblank)
  obtain ⟨start, read, hread⟩ := condition_of_key hne hkey (stops_cons.2 (by decide)) h
  simp only [comparison, hmark, comparisonWord, hskip, hnot,
    Cursor.keyword?_append _ isAlpha_in hword hends] at hread
  obtain ⟨_, hone, hread⟩ := bind_eq_ok_iff.1 hread
  obtain rfl := Except.ok.inj hone
  obtain ⟨read, hlist, -⟩ := bind_eq_ok_iff.1 hread
  obtain ⟨opened, hexpect, -⟩ := bind_eq_ok_iff.1 hlist
  simp [hbehind, expect, Cursor.eat?_of_ne _ _ hparen] at hexpect

/-- A comparison is wanted behind a key. -/
theorem condition_refuses_word {key rest : List Char} (hne : key ≠ [])
    (hkey : ∀ c ∈ key, isKeyChar c = true) : Refuses condition (key ++ ' ' :: '(' :: rest) := by
  intro offset result h
  have hspace : Blanks [' '] := by simp [isBlank_space]
  have hmark : ∀ offset, comparisonMark? ⟨' ' :: '(' :: rest, offset⟩ = none := fun offset =>
    comparisonMark?_of_gap ('(' :: rest) offset hspace (by simp)
  have hskip : ∀ offset, (Cursor.mk (' ' :: '(' :: rest) offset).skipBlank =
      ⟨'(' :: rest, offset + utf8Length [' ']⟩ := fun offset =>
    Cursor.skipBlank_append offset hspace (stops_cons.2 (by decide))
  have hnot : comesFirst "NOT" ('(' :: rest) = false := by
    simp [comesFirst, isKeyChar, sameLetters]
  have hin : comesFirst "IN" ('(' :: rest) = false := by
    simp [comesFirst, isKeyChar, sameLetters]
  obtain ⟨start, read, hread⟩ := condition_of_key hne hkey (stops_cons.2 (by decide)) h
  simp [comparison, hmark, comparisonWord, hskip,
    Cursor.keyword?_of_not _ isAlpha_not hnot, Cursor.keyword?_of_not _ isAlpha_in hin, bind,
    Except.bind, Cursor.expected, Cursor.fail] at hread

/-! ## Operands -/

/-- An operand that cannot be read, without the `NOT`s in front of it. -/
structure CoreRefused (nested : Reader (List BlockItem)) (text : List Char) : Prop where
  stops : Stops isBlank text
  noNot : ∀ offset, eatNot? ⟨text, offset⟩ = none
  refused : (∃ inner, text = '(' :: inner ∧ Refuses nested inner) ∨
    text.head? ≠ some '(' ∧ Refuses condition text

section Operands

variable {nested : Reader (List BlockItem)} {text : List Char}

theorem CoreRefused.operand_ne_ok (h : CoreRefused nested text) {start : Cursor}
    {count stop : Nat} (hnots : leadingNots start.skipBlank.rest.length start.skipBlank =
      (count, ⟨text, stop⟩)) (result : List BlockItem × Cursor) :
    operand nested start ≠ .ok result := by
  intro hread
  simp only [operand, hnots] at hread
  rcases h.refused with ⟨inner, rfl, hinner⟩ | ⟨hhead, hcondition⟩
  · rw [Cursor.eat?_self] at hread
    obtain ⟨read, hnested, -⟩ := bind_eq_ok_iff.1 hread
    exact hinner _ _ hnested
  · have hparen : (Cursor.mk text stop).eat? '(' = none := by
      cases text with
      | nil => exact Cursor.eat?_nil _ _
      | cons ch text => exact Cursor.eat?_of_ne _ _ (by simpa using hhead)
    rw [hparen] at hread
    obtain ⟨read, hread, -⟩ := bind_eq_ok_iff.1 hread
    exact hcondition _ _ hread

theorem CoreRefused.leadingNots_eq (h : CoreRefused nested text) (rounds offset : Nat) :
    leadingNots rounds ⟨text, offset⟩ = (0, ⟨text, offset⟩) := by
  cases rounds with
  | zero => rfl
  | succ rounds => rw [leadingNots, h.noNot]

/-- A condition with no exclamation mark in front that cannot be read. -/
theorem coreRefused_condition (nested : Reader (List BlockItem)) {key rest : List Char}
    (hne : key ≠ []) (hkey : ∀ c ∈ key, isKeyChar c = true)
    (hnot : ∀ offset, eatNot? ⟨key ++ rest, offset⟩ = none)
    (h : Refuses condition (key ++ rest)) : CoreRefused nested (key ++ rest) := by
  cases key with
  | nil => exact absurd rfl hne
  | cons ch key =>
    have hch := hkey ch (by simp)
    refine ⟨stops_cons.2 (isBlank_eq_false_of_isKeyChar hch), hnot, .inr ⟨?_, h⟩⟩
    intro hparen
    obtain rfl : ch = '(' := by simpa using hparen
    exact absurd hch (by decide)

/-- A key with a colon behind it is no `NOT`. -/
theorem eatNot?_of_colon {key : List Char} (rest : List Char) (offset : Nat)
    (hkey : ∀ c ∈ key, isKeyChar c = true) : eatNot? ⟨key ++ ':' :: rest, offset⟩ = none := by
  have hfirst : comesFirst "NOT" (key ++ ':' :: rest) = false := by
    rw [comesFirst_of_run _ hkey (stops_cons.2 (by decide))]
    simp [endsKeyword, isBlank, blankRanges]
  rw [eatNot?, Cursor.keyword?_of_not offset isAlpha_not hfirst]

/-- A comparison with a pattern that is not there. -/
theorem coreRefused_pattern (nested : Reader (List BlockItem)) {key rest : List Char}
    (hne : key ≠ []) (hkey : ∀ c ∈ key, isKeyChar c = true) (hrest : Stops isValueChar rest) :
    CoreRefused nested (key ++ ':' :: '~' :: rest) :=
  coreRefused_condition nested hne hkey (fun offset => eatNot?_of_colon _ offset hkey)
    (condition_refuses_pattern hne hkey hrest)

/-- Of an operand that compares with a pattern, the value behind the sign `~` is read last. -/
theorem operand_of_pattern {key rest : List Char} (hne : key ≠ [])
    (hkey : ∀ c ∈ key, isKeyChar c = true) {offset : Nat} {items : List BlockItem} {next : Cursor}
    (h : operand nested ⟨key ++ ':' :: '~' :: rest, offset⟩ = .ok (items, next)) :
    ∃ start v, value ⟨rest, start⟩ = .ok (v, next) := by
  obtain ⟨ch, tail, htail⟩ := List.exists_cons_of_ne_nil hne
  have hch : isKeyChar ch = true := hkey ch (by simp [htail])
  have hskip : (Cursor.mk (key ++ ':' :: '~' :: rest) offset).skipBlank =
      ⟨key ++ ':' :: '~' :: rest, offset⟩ := by
    rw [htail]
    exact Cursor.skipBlank_of_stops offset (stops_cons.2 (isBlank_eq_false_of_isKeyChar hch))
  have hnots : ∀ rounds, leadingNots rounds ⟨key ++ ':' :: '~' :: rest, offset⟩ =
      (0, ⟨key ++ ':' :: '~' :: rest, offset⟩) := by
    intro rounds
    cases rounds with
    | zero => rfl
    | succ rounds => rw [leadingNots, eatNot?_of_colon _ offset hkey]
  have hparen : (Cursor.mk (key ++ ':' :: '~' :: rest) offset).eat? '(' = none := by
    rw [htail]
    refine Cursor.eat?_of_ne _ _ ?_
    rintro rfl
    exact absurd hch (by decide)
  simp only [operand, hskip, hnots, hparen] at h
  obtain ⟨⟨test, stop⟩, hcondition, heq⟩ := bind_eq_ok_iff.1 h
  obtain ⟨-, rfl⟩ := Prod.mk.inj (Except.ok.inj heq)
  exact condition_of_pattern hne hkey hcondition

/-- A `NOT` in front of a filter with the key `IN` that compares with a list: it is taken for
the key. -/
theorem coreRefused_not_in (nested : Reader (List BlockItem)) {key rest : List Char} {ch : Char}
    (hkey : sameLetters key "IN".toList = true) (hblank : isBlank ch = false)
    (hparen : ch ≠ '(') :
    CoreRefused nested ("NOT".toList ++ ' ' :: (key ++ ' ' :: ch :: rest)) := by
  refine coreRefused_condition nested (by decide) (isKeyChar_of_sameLetters isAlpha_not
    (sameLetters_self "NOT".toList)) (fun offset => ?_)
    (condition_refuses_list (by decide) (isKeyChar_of_sameLetters isAlpha_not
      (sameLetters_self "NOT".toList)) hkey hblank hparen)
  have hspace : Blanks [' '] := by simp [isBlank_space]
  have hskip : ∀ offset, (Cursor.mk (' ' :: (key ++ ' ' :: ch :: rest)) offset).skipBlank =
      ⟨key ++ ' ' :: ch :: rest, offset + utf8Length [' ']⟩ := fun offset =>
    Cursor.skipBlank_append offset hspace
      (stops_blank_of_sameLetters _ isAlpha_in (by decide) hkey).2
  have hnot := Cursor.keyword?_append offset isAlpha_not (sameLetters_self "NOT".toList)
    (show (' ' :: (key ++ ' ' :: ch :: rest)).head?.any endsKeyword = true by
      simp [endsKeyword, isBlank_space])
  have hin := fun offset => Cursor.keyword?_append offset isAlpha_in hkey
    (show (' ' :: ch :: rest).head?.any endsKeyword = true by simp [endsKeyword, isBlank_space])
  rw [eatNot?, hnot]
  simp [hskip, hin]

/-- What is left of a filter with the key `NOT` that compares by `IN` once its key is taken for
a negation. -/
theorem coreRefused_in (nested : Reader (List BlockItem)) (rest : List Char) :
    CoreRefused nested ("IN".toList ++ ' ' :: '(' :: rest) := by
  have hkey := isKeyChar_of_sameLetters isAlpha_in (sameLetters_self "IN".toList)
  refine coreRefused_condition nested (by decide) hkey (fun offset => ?_)
    (condition_refuses_word (by decide) hkey)
  have hfirst : comesFirst "NOT" ("IN".toList ++ ' ' :: '(' :: rest) = false :=
    comesFirst_of_sameLetters isAlpha_in (sameLetters_self "IN".toList)
      (by simp [endsKeyword, isBlank_space]) (by decide)
  rw [eatNot?, Cursor.keyword?_of_not offset isAlpha_not hfirst]

/-- A list in parentheses that cannot be read. -/
theorem coreRefused_grouped {inner : List Char} (h : Refuses nested inner) :
    CoreRefused nested ('(' :: inner) :=
  ⟨stops_cons.2 (by decide), fun offset => eatNot?_of_ne _ offset (by decide),
    .inl ⟨inner, rfl, h⟩⟩

/-- Such an operand is refused, blanks in front or not. -/
theorem CoreRefused.operand_refuses (h : CoreRefused nested text) (gap : List Char)
    (hgap : Blanks gap) : Refuses (operand nested) (gap ++ text) := by
  intro offset
  have hskip := Cursor.skipBlank_append offset hgap h.stops
  exact h.operand_ne_ok (by rw [hskip, h.leadingNots_eq])

/-- It is refused with a `NOT` in front as well. -/
theorem CoreRefused.operand_refuses_not (h : CoreRefused nested text)
    (hin : comesFirst "IN" text = false) (gap : List Char) (hgap : Blanks gap) :
    Refuses (operand nested) (gap ++ ("NOT ".toList ++ text)) := by
  intro offset
  have hspace : Blanks [' '] := by simp [isBlank_space]
  have hskip : (Cursor.mk (gap ++ ("NOT ".toList ++ text)) offset).skipBlank =
      ⟨"NOT".toList ++ ([' '] ++ text), offset + utf8Length gap⟩ :=
    Cursor.skipBlank_append offset hgap (stops_cons.2 (by decide))
  have heat := eatNot?_word (offset + utf8Length gap) (sameLetters_self "NOT".toList) hspace
    (show ([' '] ++ text).head?.any endsKeyword = true by simp [endsKeyword, isBlank_space])
    h.stops hin
  have hnots : ∀ rounds, leadingNots (rounds + 1)
      ⟨"NOT".toList ++ ([' '] ++ text), offset + utf8Length gap⟩ = (1, ⟨text, offset +
        utf8Length gap + utf8Length "NOT".toList + utf8Length [' ']⟩) := by
    intro rounds
    rw [leadingNots, heat]
    simp only [Cursor.skipBlank_append _ hspace h.stops, h.leadingNots_eq]
  exact h.operand_ne_ok (by rw [hskip]; exact hnots _)

end Operands

/-! ## Lists -/

section Lists

variable {nested : Reader (List BlockItem)} {close : Char} {text : List Char}

/-- A list is refused if the operand behind the next separator is. -/
theorem moreOperands_refuses {gap tail rest : List Char} (hgap : Blanks gap)
    (hstops : Stops isBlank tail) (hclose : tail.head? ≠ some close)
    (hsep : ∀ offset, ∃ sep stop, separator close ⟨tail, offset⟩ = .ok (sep, ⟨rest, stop⟩))
    (hrest : Refuses (operand nested) rest) (rounds : Nat) :
    Refuses (moreOperands nested close rounds) (gap ++ tail) := by
  intro offset result h
  cases rounds with
  | zero => exact absurd h (Cursor.expected_ne_ok _ _ _)
  | succ rounds =>
    obtain ⟨sep, stop, hread⟩ := hsep (offset + utf8Length gap)
    have hpeek : ¬ (Cursor.mk tail (offset + utf8Length gap)).peek? = some close := by
      simpa [Cursor.peek?] using hclose
    simp only [moreOperands, Cursor.skipBlank_append offset hgap hstops, if_neg hpeek, hread] at h
    obtain ⟨_, hfirst, h⟩ := bind_eq_ok_iff.1 h
    obtain rfl := Except.ok.inj hfirst
    obtain ⟨read, hoperand, -⟩ := bind_eq_ok_iff.1 h
    exact hrest _ _ hoperand

theorem moreOperands_refuses_comma (hclose : Closes close)
    (h : Refuses (operand nested) (' ' :: text)) (rounds : Nat) :
    Refuses (moreOperands nested close rounds) (", ".toList ++ text) := by
  have hsep : ∀ offset, ∃ sep stop, separator close ⟨',' :: ' ' :: text, offset⟩ =
      .ok (sep, ⟨' ' :: text, stop⟩) := by
    intro offset
    refine ⟨.comma, offset + utf8Length [','], ?_⟩
    rw [separator, Cursor.eat?_self]
  refine moreOperands_refuses blanks_nil (stops_cons.2 (by decide)) ?_ hsep h rounds
  simpa using fun hcomma => hclose.facts.2.2.2 hcomma.symm

/-- Behind a word that joins operands, the operand is refused on its own, or behind a `NOT`
that is taken for a part of the separator. -/
theorem moreOperands_refuses_joined (hclose : Closes close) (junction : Junction)
    (h : (Stops isBlank text ∧ comesFirst "NOT" text = false ∧ Refuses (operand nested) text) ∨
      ∃ word behind, text = word ++ ' ' :: behind ∧ sameLetters word "NOT".toList = true ∧
        Refuses (operand nested) (' ' :: behind)) (rounds : Nat) :
    Refuses (moreOperands nested close rounds)
      (' ' :: (junction.word.toList ++ ' ' :: text)) := by
  have hspace : Blanks [' '] := by simp [isBlank_space]
  have hends : (' ' :: text).head?.any endsKeyword = true := by
    simp [endsKeyword, isBlank_space]
  obtain ⟨hne, hstops⟩ := stops_blank_of_sameLetters (' ' :: text) (isAlpha_junction junction)
    (by cases junction <;> decide) (sameLetters_self junction.word.toList)
  have hfirst : (junction.word.toList ++ ' ' :: text).head? ≠ some close :=
    word_ne_close _ hclose.facts.2.2.1 hne
      (isKeyChar_of_sameLetters (isAlpha_junction junction) (sameLetters_self _))
  have hword := fun offset => separator_word (' ' :: text) close offset junction
    (sameLetters_self _) hends
  rcases h with ⟨htext, hnot, hrefused⟩ | ⟨not, behind, rfl, hnot, hrefused⟩
  · have hsep : ∀ offset, ∃ sep stop, separator close
        ⟨junction.word.toList ++ ' ' :: text, offset⟩ = .ok (sep, ⟨text, stop⟩) := by
      intro offset
      have hplain := joiner_plain (offset + utf8Length junction.word.toList)
        (junction.separator false) (junction.separator true) hspace htext hnot
      exact ⟨_, _, (hword offset).trans (congrArg Except.ok hplain)⟩
    exact moreOperands_refuses hspace hstops hfirst hsep hrefused rounds
  · have hsep : ∀ offset, ∃ sep stop, separator close
        ⟨junction.word.toList ++ ' ' :: (not ++ ' ' :: behind), offset⟩ =
          .ok (sep, ⟨' ' :: behind, stop⟩) := by
      intro offset
      have hnegated := joiner_negated (offset + utf8Length junction.word.toList)
        (junction.separator false) (junction.separator true) hspace hnot
        (show (' ' :: behind).head?.any endsKeyword = true by simp [endsKeyword, isBlank_space])
      exact ⟨_, _, (hword offset).trans (congrArg Except.ok hnegated)⟩
    exact moreOperands_refuses hspace hstops hfirst hsep hrefused rounds

/-- A list is refused if what follows a separated operand is. -/
theorem moreOperands_refuses_joint {levels : Nat} (hclose : Closes close)
    {items : List BlockItem} {rest : List Char}
    (hjoint : JointSpelled (ListSpelled levels) items text) (hrest : Stops isValueChar rest)
    (h : ∀ rounds, Refuses (moreOperands (blockItems levels ')') close rounds) rest)
    (rounds : Nat) :
    Refuses (moreOperands (blockItems levels ')') close rounds) (text ++ rest) := by
  intro offset result hread
  cases rounds with
  | zero => exact absurd hread (Cursor.expected_ne_ok _ _ _)
  | succ rounds =>
    obtain ⟨joint, o, hreadable, ho, hdepth, rfl, -⟩ :=
      hjoint.exists_layout (hasLayouts_listSpelled levels)
    have hstep := moreOperands_takes_joint (readsLists_blockItems levels (.inl rfl)) hclose
      hreadable ho hdepth (fun _ => hrest) rounds offset
    rw [List.append_assoc, hstep] at hread
    obtain ⟨read, hmore, -⟩ := bind_eq_ok_iff.1 hread
    exact h rounds _ _ hmore

/-- A list is refused if its first operand is, or else what follows that. -/
theorem blockItems_refuses {levels : Nat} {rest : List Char}
    (h : Refuses (operand (blockItems levels ')')) (text ++ rest) ∨
      (∃ items, OperandSpelled (ListSpelled levels) items text) ∧ Stops isValueChar rest ∧
        ∀ rounds, Refuses (moreOperands (blockItems levels ')') close rounds) rest) :
    Refuses (blockItems (levels + 1) close) (text ++ rest) := by
  intro offset result hread
  obtain ⟨⟨first, middle⟩, hfirst, hread⟩ := bind_eq_ok_iff.1 hread
  rcases h with hrefused | ⟨⟨items, hspelled⟩, hstops, hrefused⟩
  · exact hrefused _ _ hfirst
  · obtain ⟨o, ho, hdepth, rfl, -⟩ := hspelled.exists_layout (hasLayouts_listSpelled levels)
    have hoperand := operand_takes (readsLists_blockItems levels (.inl rfl)) ho hdepth
      blanks_nil (fun _ => hstops) offset
    rw [List.nil_append, hfirst] at hoperand
    obtain ⟨rfl, rfl⟩ := Prod.mk.inj (Except.ok.inj hoperand)
    obtain ⟨read, hmore, -⟩ := bind_eq_ok_iff.1 hread
    exact hrefused _ _ _ hmore

/-- The operand is refused in front of all that ends a value. -/
def RefusedAlone (nested : Reader (List BlockItem)) (text : List Char) : Prop :=
  ∀ rest, Stops isValueChar rest → Refuses (operand nested) (text ++ rest)

/-- The separator and the operand behind it are refused in front of all that ends a value. -/
def RefusedBehind (nested : Reader (List BlockItem)) (close : Char) (text : List Char) : Prop :=
  ∀ rest, Stops isValueChar rest →
    ∀ rounds, Refuses (moreOperands nested close rounds) (text ++ rest)

theorem stops_flatten (hclose : Closes close) {texts : List (List Char)}
    (hstops : ∀ text ∈ texts, ∀ rest, Stops isValueChar (text ++ rest)) (tail : List Char) :
    Stops isValueChar (texts.flatten ++ close :: tail) := by
  cases texts with
  | nil => exact stops_cons.2 hclose.facts.2.1
  | cons text texts =>
    rw [List.flatten_cons, List.append_assoc]
    exact hstops text (by simp) _

/-- Separated operands are refused from the first one on that is. -/
theorem moreOperands_refuses_separated {levels : Nat} (hclose : Closes close)
    {texts : List (List Char)}
    (hstops : ∀ text ∈ texts, ∀ rest, Stops isValueChar (text ++ rest))
    (htexts : ∀ text ∈ texts, (∃ items, JointSpelled (ListSpelled levels) items text) ∨
      RefusedBehind (blockItems levels ')') close text)
    (h : ∃ text ∈ texts, RefusedBehind (blockItems levels ')') close text) (tail : List Char) :
    ∀ rounds, Refuses (moreOperands (blockItems levels ')') close rounds)
      (texts.flatten ++ close :: tail) := by
  induction texts with
  | nil => simp at h
  | cons text texts ih =>
    intro rounds
    have hbehind : Stops isValueChar (texts.flatten ++ close :: tail) :=
      stops_flatten hclose (fun other hother => hstops other (by simp [hother])) tail
    rw [List.flatten_cons, List.append_assoc]
    by_cases hrefused : RefusedBehind (blockItems levels ')') close text
    · exact hrefused _ hbehind rounds
    · obtain ⟨items, hjoint⟩ := (htexts text (by simp)).resolve_right hrefused
      have hmore : ∃ other ∈ texts, RefusedBehind (blockItems levels ')') close other := by
        obtain ⟨other, hother, hrest⟩ := h
        rcases List.mem_cons.1 hother with rfl | hother
        · exact absurd hrest hrefused
        · exact ⟨other, hother, hrest⟩
      exact moreOperands_refuses_joint hclose hjoint hbehind
        (ih (fun other hother => hstops other (by simp [hother]))
          (fun other hother => htexts other (by simp [hother])) hmore) rounds

/-- A list of separated operands is refused from the first one on that is. -/
theorem blockItems_refuses_separated {levels : Nat} (hclose : Closes close)
    {texts : List (List Char)}
    (hstops : ∀ other ∈ texts, ∀ rest, Stops isValueChar (other ++ rest))
    (hfirst : (∃ items, OperandSpelled (ListSpelled levels) items text) ∨
      RefusedAlone (blockItems levels ')') text)
    (htexts : ∀ other ∈ texts, (∃ items, JointSpelled (ListSpelled levels) items other) ∨
      RefusedBehind (blockItems levels ')') close other)
    (h : RefusedAlone (blockItems levels ')') text ∨
      ∃ other ∈ texts, RefusedBehind (blockItems levels ')') close other) (tail : List Char) :
    Refuses (blockItems (levels + 1) close) (text ++ (texts.flatten ++ close :: tail)) := by
  have hbehind := stops_flatten hclose hstops tail
  refine blockItems_refuses ?_
  by_cases hrefused : RefusedAlone (blockItems levels ')') text
  · exact .inl (hrefused _ hbehind)
  · have hmore := h.resolve_left hrefused
    exact .inr ⟨hfirst.resolve_right hrefused, hbehind, moreOperands_refuses_separated
      hclose hstops htexts hmore tail⟩

/-! ## Literals that are left open -/

/-- A value that is read where the text before the closing character is none ends in that text,
and value characters are left of it. -/
theorem value_of_not_isToken {start : Nat} {v : String} {next : Cursor} (hclose : Closes close)
    (hchars : ∀ c ∈ text, isValueChar c = true) (htoken : ¬ IsToken text)
    (h : value ⟨text ++ [close], start⟩ = .ok (v, next)) :
    ∃ more, more ≠ [] ∧ (∀ c ∈ more, isValueChar c = true) ∧ next.rest = more ++ [close] := by
  obtain ⟨hspelled, hpasses, hends⟩ := value_finds h
  have hrest : text ++ [close] = v.toList ++ next.rest := hpasses.rest
  by_cases hliteral : isLiteral v.toList = true
  · -- the closing character is no quotation mark, so the literal ends in front of it
    have hfits : v.toList <+: text := by
      refine (List.prefix_concat_iff.1 ⟨next.rest, hrest.symm⟩).resolve_left fun hall => ?_
      have hlast := (isQuote_ends_of_isLiteral hliteral).2
      rw [hall] at hlast
      rcases hclose with rfl | rfl <;> simp [isQuote] at hlast
    obtain ⟨more, rfl⟩ := hfits
    refine ⟨more, ?_, fun c hc => hchars c (by simp [hc]), ?_⟩
    · rintro rfl
      exact htoken (.inl (by simpa using hliteral))
    · rw [List.append_assoc] at hrest
      exact (List.append_cancel_left hrest).symm
  · -- a run of value characters would be all of the text
    obtain ⟨-, hbare⟩ := hspelled.2.resolve_left hliteral
    have hvalue : ∀ c ∈ v.toList, isValueChar c = true := by
      simp only [Filter.isBare, Bool.and_eq_true, List.all_eq_true] at hbare
      exact hbare.2
    have hstops : Stops isValueChar next.rest := hends (by simp [Comparand.endsBare, hliteral])
    have hclosing : Stops isValueChar [close] := stops_cons.2 hclose.facts.2.1
    have hrun := takeWhile_of_stops hchars hclosing
    rw [hrest, takeWhile_of_stops hvalue hstops] at hrun
    exact absurd (hrun ▸ hspelled.2) htoken

theorem endsKeyword_eq_false_of_isValueChar {c : Char} (h : isValueChar c = true) :
    endsKeyword c = false := by
  simp only [isValueChar, Bool.and_eq_true, Bool.not_eq_true', Bool.or_eq_false_iff] at h
  obtain ⟨hblank, ⟨⟨⟨-, hparen⟩, -⟩, hbrace⟩, -⟩ := h
  rw [endsKeyword, hblank, hparen, hbrace]
  rfl

/-- No keyword comes first where nothing ends one. -/
theorem comesFirst_of_not_endsKeyword (word : String)
    (h : ∀ c ∈ text, endsKeyword c = false) : comesFirst word text = false := by
  have hends : (text.dropWhile isKeyChar).head?.any endsKeyword = false := by
    cases hdrop : text.dropWhile isKeyChar with
    | nil => rfl
    | cons c rest =>
      exact h c ((List.dropWhile_suffix isKeyChar).mem (by simp [hdrop]))
  rw [comesFirst, hends, Bool.and_false]

/-- More value characters behind an operand are no separator. -/
theorem moreOperands_refuses_chars (hclose : Closes close) (hne : text ≠ [])
    (hchars : ∀ c ∈ text, isValueChar c = true) (rounds : Nat) :
    Refuses (moreOperands nested close rounds) (text ++ [close]) := by
  intro offset result h
  cases rounds with
  | zero => exact absurd h (Cursor.expected_ne_ok _ _ _)
  | succ rounds =>
    obtain ⟨ch, tail, rfl⟩ := List.exists_cons_of_ne_nil hne
    have hch := hchars ch (by simp)
    have hends : ∀ c ∈ ch :: tail ++ [close], endsKeyword c = false := by
      intro c hc
      rcases List.mem_append.1 hc with hc | hc
      · exact endsKeyword_eq_false_of_isValueChar (hchars c hc)
      · rw [List.mem_singleton.1 hc]
        rcases hclose with rfl | rfl <;> decide
    have hblank : isBlank ch = false := by
      simp only [isValueChar, Bool.and_eq_true, Bool.not_eq_true'] at hch
      exact hch.1
    have hskip : (Cursor.mk (ch :: tail ++ [close]) offset).skipBlank =
        ⟨ch :: tail ++ [close], offset⟩ :=
      Cursor.skipBlank_of_stops offset (stops_cons.2 hblank)
    have hpeek : ¬ (Cursor.mk (ch :: tail ++ [close]) offset).peek? = some close := by
      intro hclosed
      obtain rfl : ch = close := by simpa [Cursor.peek?] using hclosed
      simp [hclose.facts.2.1] at hch
    have hcomma : (Cursor.mk (ch :: tail ++ [close]) offset).eat? ',' = none := by
      refine Cursor.eat?_of_ne _ _ ?_
      rintro rfl
      exact absurd hch (by decide)
    simp only [moreOperands, hskip, if_neg hpeek, separator, hcomma,
      Cursor.keyword?_of_not offset isAlpha_and (comesFirst_of_not_endsKeyword "AND" hends),
      Cursor.keyword?_of_not offset isAlpha_or (comesFirst_of_not_endsKeyword "OR" hends)] at h
    simp [bind, Except.bind, Cursor.expected, Cursor.fail] at h

/-- A list is refused that starts with a pattern that is none, if nothing follows its closing
character. -/
theorem blockItems_refuses_pattern {key : List Char} (hclose : Closes close) (hne : key ≠ [])
    (hkey : ∀ c ∈ key, isKeyChar c = true) (hchars : ∀ c ∈ text, isValueChar c = true)
    (htoken : ¬ IsToken text) (levels : Nat) :
    Refuses (blockItems levels close) (key ++ ':' :: '~' :: (text ++ [close])) := by
  intro offset result h
  cases levels with
  | zero => simp [blockItems] at h
  | succ levels =>
    obtain ⟨⟨first, middle⟩, hfirst, h⟩ := bind_eq_ok_iff.1 h
    obtain ⟨read, hmore, -⟩ := bind_eq_ok_iff.1 h
    obtain ⟨start, v, hvalue⟩ := operand_of_pattern hne hkey hfirst
    obtain ⟨more, hmoreNe, hmoreChars, hrest⟩ :=
      value_of_not_isToken hclose hchars htoken hvalue
    obtain ⟨rest, stop⟩ := middle
    obtain rfl : rest = more ++ [close] := hrest
    exact moreOperands_refuses_chars hclose hmoreNe hmoreChars _ _ _ hmore

end Lists

end MetricQuery.Grammar
