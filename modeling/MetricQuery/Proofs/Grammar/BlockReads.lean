import MetricQuery.Proofs.Grammar.Spelling

/-!
# Reading written filter lists

The readers of `Grammar.Block` take the texts that the relation of the same shape in `Spelling`
allows.  The facts are in the order of the readers: values and their lists, comparisons,
conditions, the `NOT`s in front of operands, separators.

* `condition_reads`: a written condition is read as itself.
* `eatNot?_condition` and `eatNot?_word`: the key of a condition is not taken for a `NOT` in front
  of it, and a `NOT` is.
* `separator_word` and `moreOperands_step`: what separates operands is read, and one round of the
  loop over them.
-/

namespace MetricQuery.Grammar

open Text BlockItem

/-! ## Keywords -/

theorem isAlpha_not : ∀ ch ∈ "NOT".toList, ch.isAlpha = true :=
  isAlpha_keywords "NOT" (by simp)

theorem isAlpha_in : ∀ ch ∈ "IN".toList, ch.isAlpha = true :=
  isAlpha_keywords "IN" (by simp)

theorem isAlpha_and : ∀ ch ∈ "AND".toList, ch.isAlpha = true :=
  isAlpha_keywords "AND" (by simp)

theorem isAlpha_or : ∀ ch ∈ "OR".toList, ch.isAlpha = true :=
  isAlpha_keywords "OR" (by simp)

theorem isAlpha_junction (junction : Junction) :
    ∀ ch ∈ junction.word.toList, ch.isAlpha = true := by
  cases junction
  · exact isAlpha_and
  · exact isAlpha_or

/-- A word of letters in any case is a run of key characters. -/
theorem isKeyChar_of_sameLetters {text word : List Char} (hword : ∀ c ∈ word, c.isAlpha = true)
    (h : sameLetters text word = true) : ∀ c ∈ text, isKeyChar c = true := fun c hc =>
  isKeyChar_of_isAlpha (isAlpha_of_sameLetters hword h c hc)

/-- A blank or a parenthesis behind a word ends it. -/
theorem endsKeyword_of_blanks {gap rest : List Char} (hgap : Blanks gap) (hne : gap ≠ []) :
    (gap ++ rest).head?.any endsKeyword = true := by
  cases gap with
  | nil => exact absurd rfl hne
  | cons c gap => simp [endsKeyword, (blanks_cons.1 hgap).1]

theorem stops_of_endsKeyword {rest : List Char} (h : rest.head?.any endsKeyword = true) :
    Stops isKeyChar rest := by
  cases rest with
  | nil => simp
  | cons d rest =>
    exact stops_cons.2 (isKeyChar_eq_false_of_endsKeyword (by simpa using h))

theorem endsKeyword_append {text rest : List Char} (h : text.head?.any endsKeyword = true) :
    (text ++ rest).head?.any endsKeyword = true := by
  cases text with
  | nil => simp at h
  | cons c text => simpa using h

/-- A text that starts with a word has no blank in front. -/
theorem stops_blank_of_sameLetters {word text : List Char} (rest : List Char)
    (hword : ∀ c ∈ word, c.isAlpha = true) (hne : word ≠ [])
    (h : sameLetters text word = true) : text ≠ [] ∧ Stops isBlank (text ++ rest) := by
  have hlen := length_eq_of_sameLetters h
  cases text with
  | nil => simp at hlen; exact absurd hlen.symm (by simpa using hne)
  | cons c text =>
    have hkey := isKeyChar_of_sameLetters hword h c (by simp)
    exact ⟨by simp, by simpa using isBlank_eq_false_of_isKeyChar hkey⟩

/-- The words are told apart by their letters, whatever follows. -/
theorem comesFirst_of_sameLetters {text word rest : List Char} {name : String}
    (hword : ∀ c ∈ word, c.isAlpha = true) (h : sameLetters text word = true)
    (hends : rest.head?.any endsKeyword = true)
    (hdiffer : sameLetters word name.toList = false) : comesFirst name (text ++ rest) = false := by
  rw [comesFirst_of_run _ (isKeyChar_of_sameLetters hword h) (stops_of_endsKeyword hends)]
  have hnot : sameLetters text name.toList = false := by
    by_contra hsame
    have := sameLetters_trans (sameLetters_symm h) (by simpa using hsame)
    simp [this] at hdiffer
  rw [hnot, Bool.false_and]

/-! ## Values -/

/-- A literal ends with its quotation mark, any other value in front of what is no value
character. -/
theorem value_reads {v : String} {text rest : List Char} (h : ValueSpelled v text)
    (hrest : (Comparand.single v).endsBare = true → Stops isValueChar rest) :
    Reads value text rest (· = v) := by
  obtain ⟨rfl, htoken⟩ := h
  intro offset
  by_cases hlit : isLiteral v.toList = true
  · have hquote : (Cursor.mk (v.toList ++ rest) offset).peek?.any isQuote = true := by
      have hhead := (isQuote_ends_of_isLiteral hlit).1
      cases htext : v.toList with
      | nil => simp [htext] at hhead
      | cons c tail => simpa [htext, Cursor.peek?] using hhead
    refine ⟨v, offset + utf8Length v.toList, ?_, rfl⟩
    simp only [value, hquote, if_true, quoted_append rest offset hlit, bind, Except.bind]
    rw [String.ofList_toList]
    rfl
  · obtain ⟨hne, hbare⟩ := htoken.resolve_left hlit
    replace hrest := hrest (by simpa [Comparand.endsBare] using hlit)
    simp only [Filter.isBare, Bool.and_eq_true, Bool.not_eq_true'] at hbare
    have hquote : ¬ (Cursor.mk (v.toList ++ rest) offset).peek?.any isQuote = true := by
      cases htext : v.toList with
      | nil => exact absurd htext hne
      | cons c tail => simpa [htext, Cursor.peek?] using hbare.1
    have htake := Cursor.takeWhile_append offset (List.all_eq_true.1 hbare.2) hrest
    refine ⟨v, offset + utf8Length v.toList, ?_, rfl⟩
    simp only [value, if_neg hquote, htake]
    rw [String.ofList_toList]

theorem ValueSpelled.start {v : String} {text : List Char} (h : ValueSpelled v text) :
    text ≠ [] ∧ Stops isBlank text := by
  obtain ⟨rfl, htoken⟩ := h
  refine ⟨htoken.ne_nil, ?_⟩
  rcases htoken with hlit | ⟨hne, hbare⟩
  · have hhead := (isQuote_ends_of_isLiteral hlit).1
    cases htext : v.toList with
    | nil => simp
    | cons c tail =>
      rw [htext] at hhead
      exact stops_cons.2 (isBlank_eq_false_of_isQuote (by simpa using hhead))
  · cases htext : v.toList with
    | nil => simp
    | cons c tail =>
      simp only [Filter.isBare, Bool.and_eq_true] at hbare
      have hvalue := List.all_eq_true.1 hbare.2 c (by simp [htext])
      simp only [isValueChar, Bool.and_eq_true, Bool.not_eq_true'] at hvalue
      exact stops_cons.2 hvalue.1

theorem stops_of_itemEnds {rest : List Char} (h : ItemEnds ')' rest) :
    Stops isValueChar rest := by
  obtain ⟨c, hc, h⟩ := h
  intro d hd
  rw [Option.mem_def.1 hc] at hd
  obtain rfl := Option.some.inj hd
  rcases h with h | rfl | rfl
  · exact isValueChar_eq_false_of_isBlank h
  all_goals decide

theorem valueList_reads {vs : List String} {text : List Char} (h : ValuesSpelled vs text)
    (rest : List Char) : Reads valueList text rest (· = vs) := by
  have hopen : ∀ tail offset, (Cursor.mk ('(' :: tail) offset).skipBlank =
      ⟨'(' :: tail, offset⟩ := fun tail offset =>
    Cursor.skipBlank_of_stops offset (stops_cons.2 (by decide))
  intro offset
  cases h with
  | @none gap hgap =>
    have hskip : ∀ offset, (Cursor.mk (gap ++ [')'] ++ rest) offset).skipBlank =
        ⟨')' :: rest, offset + utf8Length gap⟩ := by
      intro offset
      rw [List.append_assoc]
      exact Cursor.skipBlank_append offset hgap (stops_cons.2 (by decide))
    refine ⟨[], offset + utf8Length ['('] + utf8Length gap + utf8Length [')'], ?_, rfl⟩
    simp only [List.cons_append, valueList, hopen, expect_self, bind, Except.bind, hskip,
      Cursor.eat?_self]
    rfl
  | @some gap text more v vs hgap hvalue hmore =>
    obtain ⟨hne, hstops⟩ := hvalue.start
    have hskip : ∀ offset, (Cursor.mk (gap ++ (text ++ more) ++ rest) offset).skipBlank =
        ⟨[] ++ (text ++ more) ++ rest, offset + utf8Length gap⟩ := by
      intro offset
      rw [List.append_assoc, List.append_assoc]
      simpa using Cursor.skipBlank_append offset hgap (stops_append hne hstops)
    have heat : ∀ offset, (Cursor.mk ([] ++ (text ++ more) ++ rest) offset).eat? ')' = none := by
      intro offset
      cases text with
      | nil => exact absurd rfl hne
      | cons c tail =>
        apply Cursor.eat?_of_ne
        rintro rfl
        rcases hvalue.2 with hlit | ⟨-, hbare⟩
        · simpa [isQuote] using (isQuote_ends_of_isLiteral hlit).1
        · simp [Filter.isBare, isValueChar] at hbare
    obtain ⟨_, stop, hread, rfl⟩ := commaList_reads (by decide)
      (fun h => ValueSpelled.start h)
      (fun h hends => value_reads h fun _ => stops_of_itemEnds hends) blanks_nil hvalue hmore
      rest (offset + utf8Length ['('] + utf8Length gap)
    refine ⟨_, stop, ?_, rfl⟩
    simp only [List.cons_append, valueList, hopen, expect_self, bind, Except.bind, hskip, heat,
      hread]

/-! ## Conditions -/

/-- A comparison starts where the run of key characters ends. -/
theorem ComparisonSpelled.start {comparator : Comparator} {comparand : Comparand}
    {text : List Char} (h : ComparisonSpelled comparator comparand text) :
    text ≠ [] ∧ Stops isKeyChar text := by
  cases h with
  | colon _ _ => exact ⟨by simp, stops_cons.2 (by decide)⟩
  | notColon _ => exact ⟨by simp, stops_cons.2 (by decide)⟩
  | regex _ => exact ⟨by simp, stops_cons.2 (by decide)⟩
  | oneOf hgap hne =>
    exact ⟨by simp [hne], stops_of_endsKeyword (endsKeyword_of_blanks hgap hne)⟩
  | noneOf hgap hne =>
    exact ⟨by simp [hne], stops_of_endsKeyword (endsKeyword_of_blanks hgap hne)⟩

theorem comparisonMark?_of_gap {gap : List Char} (rest : List Char) (offset : Nat)
    (hgap : Blanks gap) (hne : gap ≠ []) : comparisonMark? ⟨gap ++ rest, offset⟩ = none := by
  cases gap with
  | nil => exact absurd rfl hne
  | cons c gap =>
    have hblank := (blanks_cons.1 hgap).1
    have hbang := ne_of_isBlank hblank (show 33 ≤ '!'.toNat ∧ '!'.toNat ≤ 126 by decide)
    have hcolon := ne_of_isBlank hblank (show 33 ≤ ':'.toNat ∧ ':'.toNat ≤ 126 by decide)
    simp [comparisonMark?, hbang, hcolon]

theorem ValuesSpelled.ends {vs : List String} {text : List Char} (h : ValuesSpelled vs text)
    {space : List Char} (hspace : Blanks space) (rest : List Char) :
    (space ++ text ++ rest).head?.any endsKeyword = true := by
  cases space with
  | nil =>
    cases h with
    | none _ => simp [endsKeyword]
    | some _ _ _ => simp [endsKeyword]
  | cons c space => simp [endsKeyword, (blanks_cons.1 hspace).1]

theorem skipBlank_word {gap word text rest : List Char} (offset : Nat) {name : List Char}
    (hgap : Blanks gap) (hname : ∀ c ∈ name, c.isAlpha = true) (hne : name ≠ [])
    (hword : sameLetters word name = true) :
    (Cursor.mk (gap ++ (word ++ text) ++ rest) offset).skipBlank =
      ⟨word ++ (text ++ rest), offset + utf8Length gap⟩ := by
  rw [List.append_assoc, List.append_assoc]
  exact Cursor.skipBlank_append offset hgap (stops_blank_of_sameLetters _ hname hne hword).2

/-- Blanks in front of the list of values are no obstacle. -/
theorem valueList_reads_blanks {vs : List String} {space text : List Char}
    (hspace : Blanks space) (h : ValuesSpelled vs text) (rest : List Char) :
    Reads valueList (space ++ text) rest (· = vs) := by
  intro offset
  obtain ⟨_, stop, hread, rfl⟩ := valueList_reads h rest (offset + utf8Length space)
  refine ⟨_, stop, ?_, rfl⟩
  have hopen : Stops isBlank (text ++ rest) := by
    cases h <;> exact stops_cons.2 (by decide)
  have hskip : (Cursor.mk (space ++ text ++ rest) offset).skipBlank =
      (Cursor.mk (text ++ rest) (offset + utf8Length space)).skipBlank := by
    rw [List.append_assoc, Cursor.skipBlank_append offset hspace hopen,
      Cursor.skipBlank_of_stops _ hopen]
  rw [← hread]
  simp only [valueList, hskip]

/-- A sign and a value behind it. -/
theorem comparison_reads_mark {comparator : Comparator} {v : String} (key : String)
    (mark : List Char) {text rest : List Char} (hvalue : ValueSpelled v text)
    (hrest : (Comparand.single v).endsBare = true → Stops isValueChar rest)
    (hmark : ∀ offset, comparisonMark? ⟨mark ++ (text ++ rest), offset⟩ =
      some (comparator, ⟨text ++ rest, offset + utf8Length mark⟩)) :
    Reads (comparison key) (mark ++ text) rest (· = (comparator, .single v)) := by
  intro offset
  obtain ⟨_, stop, hread, rfl⟩ := value_reads hvalue hrest (offset + utf8Length mark)
  refine ⟨_, stop, ?_, rfl⟩
  rw [List.append_assoc]
  simp only [comparison, hmark, hread, bind, Except.bind]
  rfl

theorem comparison_reads {comparator : Comparator} {comparand : Comparand} (key : String)
    {text rest : List Char} (h : ComparisonSpelled comparator comparand text)
    (hrest : comparand.endsBare = true → Stops isValueChar rest) :
    Reads (comparison key) text rest (· = (comparator, comparand)) := by
  cases h with
  | @colon v text hvalue htilde =>
    refine comparison_reads_mark key [':'] hvalue hrest fun offset => ?_
    cases text with
    | nil => exact absurd rfl hvalue.start.1
    | cons c tail =>
      have hc : c ≠ '~' := by simpa using htilde
      simp [comparisonMark?, hc, Cursor.past]
  | notColon hvalue =>
    exact comparison_reads_mark key ['!', ':'] hvalue hrest fun offset => rfl
  | regex hvalue =>
    exact comparison_reads_mark key [':', '~'] hvalue hrest fun offset => rfl
  | @oneOf gap word space text vs hgap hne hword hspace hvalues =>
    intro offset
    have hends := hvalues.ends hspace rest
    obtain ⟨_, stop, hread, rfl⟩ := valueList_reads_blanks hspace hvalues rest
      (offset + utf8Length gap + utf8Length word)
    refine ⟨_, stop, ?_, rfl⟩
    have hmark := comparisonMark?_of_gap (word ++ (space ++ text) ++ rest) offset hgap hne
    rw [← List.append_assoc] at hmark
    have hnot : ∀ offset, (Cursor.mk (word ++ (space ++ text ++ rest)) offset).keyword? "NOT" =
        none := fun offset =>
      Cursor.keyword?_of_not offset isAlpha_not
        (comesFirst_of_sameLetters isAlpha_in hword hends (by decide))
    simp only [comparison, hmark, comparisonWord,
      skipBlank_word offset hgap isAlpha_in (by decide) hword, hnot,
      Cursor.keyword?_append _ isAlpha_in hword hends, bind, Except.bind, hread]
    rfl
  | @noneOf gap not between word space text vs hgap hne hnot hbetween hbetweenNe hword hspace
      hvalues =>
    intro offset
    have hends := hvalues.ends hspace rest
    have hendsNot : (between ++ (word ++ (space ++ text)) ++ rest).head?.any endsKeyword = true :=
      endsKeyword_append (endsKeyword_of_blanks hbetween hbetweenNe)
    obtain ⟨_, stop, hread, rfl⟩ := valueList_reads_blanks hspace hvalues rest
      (offset + utf8Length gap + utf8Length not + utf8Length between + utf8Length word)
    refine ⟨_, stop, ?_, rfl⟩
    have hmark := comparisonMark?_of_gap
      (not ++ (between ++ (word ++ (space ++ text))) ++ rest) offset hgap hne
    rw [← List.append_assoc] at hmark
    simp only [comparison, hmark, comparisonWord,
      skipBlank_word offset hgap isAlpha_not (by decide) hnot,
      Cursor.keyword?_append _ isAlpha_not hnot hendsNot,
      skipBlank_word _ hbetween isAlpha_in (by decide) hword,
      Cursor.keyword?_append _ isAlpha_in hword hends, bind, Except.bind, hread]
    rfl

theorem condition_reads {c : Condition} {text rest : List Char} (h : ConditionSpelled c text)
    (hrest : c.comparand.endsBare = true → Stops isValueChar rest) :
    Reads condition text rest (fun d => d.unplaced = c.unplaced) := by
  obtain ⟨hkey, hchars, comparison, hcomparison, rfl⟩ := h
  intro offset
  obtain ⟨hne, hstops⟩ := hcomparison.start
  have hkeyNe : c.key.toList ≠ [] := by simpa using hkey
  obtain ⟨_, stop, hread, rfl⟩ := comparison_reads c.key hcomparison hrest
    (offset + utf8Length (if c.negative then ['!'] else []) + utf8Length c.key.toList)
  refine ⟨⟨c.negative, c.key, c.comparator, c.comparand, ⟨offset, stop⟩⟩, stop, ?_, rfl⟩
  have htake : ∀ offset, (Cursor.mk (c.key.toList ++ (comparison ++ rest)) offset).takeWhile
      isKeyChar = (c.key.toList, ⟨comparison ++ rest, offset + utf8Length c.key.toList⟩) :=
    fun offset => Cursor.takeWhile_append offset hchars (stops_append hne hstops)
  cases hnegative : c.negative with
  | true =>
    simp only [hnegative, if_true] at hread ⊢
    simp only [List.cons_append, List.nil_append, List.append_assoc, condition,
      Cursor.eat?_self, htake, String.ofList_toList, hread, bind, Except.bind]
    rfl
  | false =>
    have heat : (Cursor.mk (c.key.toList ++ (comparison ++ rest)) offset).eat? '!' = none := by
      cases htext : c.key.toList with
      | nil => exact absurd htext hkeyNe
      | cons d tail =>
        apply Cursor.eat?_of_ne
        rintro rfl
        have := hchars '!' (by simp [htext])
        simp [isKeyChar] at this
    simp only [hnegative, Bool.false_eq_true, if_false, utf8Length, Nat.add_zero] at hread ⊢
    simp only [List.nil_append, List.append_assoc, condition, heat, htake,
      String.ofList_toList, hread, bind, Except.bind]
    rfl

/-! ## Operands -/

theorem eatNot?_of_ne {c : Char} (rest : List Char) (offset : Nat)
    (h : isKeyChar c = false) : eatNot? ⟨c :: rest, offset⟩ = none := by
  rw [eatNot?, Cursor.keyword?_of_not offset isAlpha_not]
  simp [comesFirst, h, sameLetters]

/-- No `NOT` is read in front of a condition, unless the key looks like one. -/
theorem eatNot?_condition {c : Condition} {text : List Char} (h : ConditionSpelled c text)
    (hplain : ¬ (BlockItem.condition c).LooksNegated) (rest : List Char) (offset : Nat) :
    eatNot? ⟨text ++ rest, offset⟩ = none := by
  obtain ⟨-, hchars, comparison, hcomparison, rfl⟩ := h
  obtain ⟨hne, hstops⟩ := hcomparison.start
  cases hnegative : c.negative with
  | true => exact eatNot?_of_ne _ offset (by decide)
  | false =>
    simp only [Bool.false_eq_true, if_false, List.nil_append, List.append_assoc]
    have hbehind : Stops isKeyChar (comparison ++ rest) := stops_append hne hstops
    have hfirst := comesFirst_of_run "NOT" hchars hbehind
    by_cases hword : comesFirst "NOT" (c.key.toList ++ (comparison ++ rest)) = false
    · rw [eatNot?, Cursor.keyword?_of_not offset isAlpha_not hword]
    -- the condition starts with the word `NOT`, so that is its key
    rw [Bool.not_eq_false, hfirst, Bool.and_eq_true] at hword
    obtain ⟨hkey, hends⟩ := hword
    have hnot : c.comparator ≠ .noneOf := fun heq => hplain ⟨hnegative, hkey, heq⟩
    rw [eatNot?, Cursor.keyword?_append offset isAlpha_not hkey hends]
    generalize hcomparator : c.comparator = comparator at hcomparison hnot
    generalize c.comparand = comparand at hcomparison
    cases hcomparison with
    | colon _ _ => simp [endsKeyword, isBlank, blankRanges] at hends
    | notColon _ => simp [endsKeyword, isBlank, blankRanges] at hends
    | regex _ => simp [endsKeyword, isBlank, blankRanges] at hends
    | noneOf => exact absurd rfl hnot
    | oneOf hgap _ hword hspace hvalues =>
      simp only [skipBlank_word _ hgap isAlpha_in (by decide) hword,
        Cursor.keyword?_append _ isAlpha_in hword (hvalues.ends hspace rest)]
      rfl

theorem ConditionSpelled.start {c : Condition} {text : List Char}
    (h : ConditionSpelled c text) :
    text ≠ [] ∧ Stops isBlank text ∧ text.head? ≠ some '(' ∧ ∃ d ∈ text, isKeyChar d = false := by
  obtain ⟨hkey, hchars, comparison, hcomparison, rfl⟩ := h
  obtain ⟨hne, hstops⟩ := hcomparison.start
  have hlast : ∃ d ∈ comparison, isKeyChar d = false := by
    cases comparison with
    | nil => exact absurd rfl hne
    | cons d tail => exact ⟨d, by simp, stops_cons.1 hstops⟩
  obtain ⟨d, hd, hdkey⟩ := hlast
  cases hnegative : c.negative with
  | true => exact ⟨by simp, stops_cons.2 (by decide), by simp, d, by simp [hd], hdkey⟩
  | false =>
    cases htext : c.key.toList with
    | nil => exact absurd htext (by simpa using hkey)
    | cons e tail =>
      have he := hchars e (by simp [htext])
      refine ⟨by simp, by simpa using isBlank_eq_false_of_isKeyChar he, ?_, d,
        by simp [hd], hdkey⟩
      simp only [Bool.false_eq_true, if_false, List.nil_append, List.cons_append,
        List.head?_cons, ne_eq, Option.some.injEq]
      rintro rfl
      simp [isKeyChar] at he

/-- A `NOT` of its own is read if no `IN` follows. -/
theorem eatNot?_word {word gap text : List Char} (offset : Nat)
    (hword : sameLetters word "NOT".toList = true) (hgap : Blanks gap)
    (hends : (gap ++ text).head?.any endsKeyword = true) (hstops : Stops isBlank text)
    (hin : comesFirst "IN" text = false) :
    eatNot? ⟨word ++ (gap ++ text), offset⟩ =
      some ⟨gap ++ text, offset + utf8Length word⟩ := by
  simp [eatNot?, Cursor.keyword?_append offset isAlpha_not hword hends,
    Cursor.skipBlank_append _ hgap hstops, Cursor.keyword?_of_not _ isAlpha_in hin]

/-! ## Lists -/

section Lists

variable {Nested : List BlockItem → List Char → Prop} {nested : Reader (List BlockItem)}

/-- The characters that close a list of items. -/
def Closes (close : Char) : Prop :=
  close = ')' ∨ close = '\x7d'

theorem Closes.facts {close : Char} (h : Closes close) :
    isBlank close = false ∧ isValueChar close = false ∧ isKeyChar close = false ∧
      close ≠ ',' := by
  rcases h with rfl | rfl <;> decide

/-- A blank ends a value. -/
theorem stops_of_blanks {gap : List Char} (rest : List Char) (hgap : Blanks gap) (hne : gap ≠ []) :
    Stops isValueChar (gap ++ rest) := by
  cases gap with
  | nil => exact absurd rfl hne
  | cons c gap => exact stops_cons.2 (isValueChar_eq_false_of_isBlank (blanks_cons.1 hgap).1)

/-- What separates operands ends the value in front of it. -/
theorem JointSpelled.stops {items : List BlockItem} {text : List Char}
    (h : JointSpelled Nested items text) (rest : List Char) : Stops isValueChar (text ++ rest) := by
  cases h with
  | @comma gap _ _ _ hgap =>
    by_cases hne : gap = []
    · rw [hne]
      exact stops_cons.2 (by decide)
    · rw [List.append_assoc]
      exact stops_of_blanks _ hgap hne
  | joined _ hgap hne =>
    rw [List.append_assoc]
    exact stops_of_blanks _ hgap hne
  | joinedNot _ hgap hne =>
    rw [List.append_assoc]
    exact stops_of_blanks _ hgap hne

/-- What follows an operand ends its value. -/
theorem TailSpelled.stops {items : List BlockItem} {text : List Char} {close : Char}
    (hclose : Closes close) (h : TailSpelled Nested items text) (rest : List Char) :
    Stops isValueChar (text ++ close :: rest) := by
  cases h with
  | done hgap =>
    by_cases hne : text = []
    · rw [hne]
      exact stops_cons.2 hclose.facts.2.1
    · exact stops_of_blanks _ hgap hne
  | more hjoint _ =>
    rw [List.append_assoc]
    exact hjoint.stops _

/-- The word that joins operands is read as its separator. -/
theorem separator_word {word : List Char} (rest : List Char) (close : Char) (offset : Nat)
    (junction : Junction) (hword : sameLetters word junction.word.toList = true)
    (hends : rest.head?.any endsKeyword = true) :
    separator close ⟨word ++ rest, offset⟩ =
      .ok (joiner (junction.separator false) (junction.separator true)
        ⟨rest, offset + utf8Length word⟩) := by
  have hcomma : (Cursor.mk (word ++ rest) offset).eat? ',' = none := by
    have hrun := isKeyChar_of_sameLetters (isAlpha_junction junction) hword
    cases word with
    | nil => cases junction <;> simp [sameLetters, Junction.word] at hword
    | cons c tail =>
      apply Cursor.eat?_of_ne
      rintro rfl
      have hkey := hrun ',' (by simp)
      simp [isKeyChar] at hkey
  cases junction with
  | and =>
    simp only [separator, hcomma, Cursor.keyword?_append offset isAlpha_and hword hends]
    rfl
  | or =>
    have hand := Cursor.keyword?_of_not offset isAlpha_and
      (comesFirst_of_sameLetters isAlpha_or hword hends (by decide))
    simp only [separator, hcomma, hand, Cursor.keyword?_append offset isAlpha_or hword hends]
    rfl

/-- A word is not the closing character. -/
theorem word_ne_close {close : Char} {word : List Char} (rest : List Char)
    (hkey : isKeyChar close = false) (hne : word ≠ []) (hword : ∀ c ∈ word, isKeyChar c = true) :
    (word ++ rest).head? ≠ some close := by
  cases word with
  | nil => exact absurd rfl hne
  | cons c tail =>
    simp only [List.cons_append, List.head?_cons, ne_eq, Option.some.injEq]
    rintro rfl
    simp [hword c (by simp)] at hkey

theorem joiner_plain {space text : List Char} (offset : Nat) (plain negated : Separator)
    (hspace : Blanks space) (hstops : Stops isBlank text)
    (hnot : comesFirst "NOT" text = false) :
    joiner plain negated ⟨space ++ text, offset⟩ =
      (plain, ⟨text, offset + utf8Length space⟩) := by
  simp only [joiner, Cursor.skipBlank_append offset hspace hstops,
    Cursor.keyword?_of_not _ isAlpha_not hnot]

theorem joiner_negated {between not rest : List Char} (offset : Nat)
    (plain negated : Separator) (hbetween : Blanks between)
    (hnot : sameLetters not "NOT".toList = true) (hends : rest.head?.any endsKeyword = true) :
    joiner plain negated ⟨between ++ (not ++ rest), offset⟩ =
      (negated, ⟨rest, offset + utf8Length between + utf8Length not⟩) := by
  have hstops := (stops_blank_of_sameLetters rest isAlpha_not (by decide) hnot).2
  simp only [joiner, Cursor.skipBlank_append offset hbetween hstops,
    Cursor.keyword?_append _ isAlpha_not hnot hends]

/-- One step of the loop over what follows an operand. -/
theorem moreOperands_step {close : Char} {gap text rest : List Char} {sep : Separator}
    {offset offset' : Nat} {c : Cursor} (rounds : Nat) (hgap : Blanks gap)
    (hstops : Stops isBlank text) (hclose : text.head? ≠ some close)
    (hsep : separator close ⟨text, offset + utf8Length gap⟩ = .ok (sep, ⟨rest, offset'⟩))
    {items : List BlockItem} (hoperand : operand nested ⟨rest, offset'⟩ = .ok (items, c)) :
    moreOperands nested close (rounds + 1) ⟨gap ++ text, offset⟩ = do
      let (more, c) ← moreOperands nested close rounds c
      return (.separator sep :: (items ++ more), c) := by
  have hpeek : ¬ (Cursor.mk text (offset + utf8Length gap)).peek? = some close := by
    simpa [Cursor.peek?] using hclose
  simp only [moreOperands, Cursor.skipBlank_append offset hgap hstops, if_neg hpeek, hsep,
    hoperand, bind, Except.bind]

end Lists

end MetricQuery.Grammar
