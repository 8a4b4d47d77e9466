import MetricQuery.Proofs.Grammar.BlockReads
import MetricQuery.Proofs.Grammar.Yields

/-!
# What a read has taken

Each lemma here turns a successful read into the text that it took and the way in which that
text spells what was read, in the relations of `Spelling`.  They are the converses of the
lemmas of `BlockReads`.

* `Cursor.takeWhile_passes`, `Cursor.keyword?_passes` and the like: the steps of a cursor.
* `moreItems_finds` and `commaList_finds`: lists separated by commas.
* `condition_finds`: a condition, with the place that it was read from.
-/

namespace MetricQuery.Grammar

open Text BlockItem

namespace Cursor

/-! ## Steps of a cursor -/

theorem takeWhile_passes {p : Char → Bool} {c next : Cursor} {text : List Char}
    (h : c.takeWhile p = (text, next)) :
    c.Passes text next ∧ (∀ ch ∈ text, p ch = true) ∧ Stops p next.rest := by
  have hchars := all_of_takeWhile h
  obtain ⟨rfl, rfl⟩ := Prod.mk.inj h
  exact ⟨⟨List.takeWhile_append_dropWhile.symm, rfl⟩, hchars, stops_dropWhile p c.rest⟩

theorem skipBlank_passes (c : Cursor) :
    ∃ gap, Blanks gap ∧ c.Passes gap c.skipBlank ∧ Stops isBlank c.skipBlank.rest := by
  obtain ⟨hpasses, hblanks, hstops⟩ := takeWhile_passes (c := c) (p := isBlank) rfl
  exact ⟨_, hblanks, hpasses, hstops⟩

theorem eat?_passes {ch : Char} {c next : Cursor} (h : c.eat? ch = some next) :
    c.Passes [ch] next := by
  obtain ⟨text, offset⟩ := c
  cases text with
  | nil => simp at h
  | cons d text =>
    by_cases hd : d = ch
    · rw [hd, eat?_self] at h
      obtain rfl := Option.some.inj h
      exact ⟨by rw [hd]; rfl, rfl⟩
    · simp [eat?_of_ne _ _ hd] at h

theorem keyword?_passes {word : String} {c next : Cursor}
    (hword : ∀ ch ∈ word.toList, ch.isAlpha = true) (h : c.keyword? word = some next) :
    ∃ text, sameLetters text word.toList = true ∧ c.Passes text next ∧
      next.rest.head?.any endsKeyword = true := by
  rw [keyword?_eq c hword] at h
  by_cases hfirst : comesFirst word c.rest = true
  · rw [if_pos hfirst] at h
    obtain rfl := Option.some.inj h
    obtain ⟨hsame, hends⟩ := Bool.and_eq_true_iff.1 hfirst
    exact ⟨_, hsame, (takeWhile_passes rfl).1, hends⟩
  · simp [if_neg hfirst] at h

/-- No keyword is read where it does not come first. -/
theorem comesFirst_of_keyword? {word : String} {c : Cursor}
    (hword : ∀ ch ∈ word.toList, ch.isAlpha = true) (h : c.keyword? word = none) :
    comesFirst word c.rest = false := by
  by_contra hfirst
  simp [keyword?_eq c hword, hfirst] at h

end Cursor

/-- A reader that takes a text stops behind it. -/
theorem Reads.takes {α : Type} {reader : Reader α} {text rest : List Char} {x : α}
    (h : Reads reader text rest (· = x))
    (hpasses : ∀ {c y next}, reader c = .ok (y, next) → ∃ taken, c.Passes taken next)
    (start : Nat) :
    reader ⟨text ++ rest, start⟩ = .ok (x, ⟨rest, start + utf8Length text⟩) := by
  obtain ⟨_, stop, hread, rfl⟩ := h start
  obtain ⟨taken, htaken⟩ := hpasses hread
  obtain rfl : taken = text := List.append_cancel_right htaken.rest.symm
  have hstop : stop = start + utf8Length taken := htaken.offset
  rw [hread, hstop]

theorem expect_passes {ch : Char} {c next : Cursor} (h : expect ch c = .ok next) :
    c.Passes [ch] next := by
  rw [expect] at h
  split at h
  · next heat =>
    obtain rfl := Except.ok.inj h
    exact Cursor.eat?_passes heat
  · exact absurd h (Cursor.expected_ne_ok _ _ _)

theorem quoted_finds {c next : Cursor} {lit : List Char} (h : quoted c = .ok (lit, next)) :
    c.Passes lit next ∧ isLiteral lit = true := by
  refine ⟨?_, quoted_yields h⟩
  rw [quoted] at h
  split at h
  · next hlit =>
    obtain ⟨rfl, rfl⟩ := Prod.mk.inj (Except.ok.inj h)
    exact ⟨(eq_append_of_literal? hlit).1, rfl⟩
  · exact absurd h (Cursor.fail_ne_ok _ _ _)

/-! ## Lists with commas -/

section CommaLists

variable {α : Type} {Item : α → List Char → Prop} {item : Reader α}

theorem moreItems_finds
    (hitem : ∀ {c x next}, item c = .ok (x, next) → ∃ text, Item x text ∧ c.Passes text next)
    (close : Char) (rounds : Nat) {c next : Cursor} {xs : List α}
    (h : moreItems item close rounds c = .ok (xs, next)) :
    ∃ text, MoreSpelled Item close xs text ∧ c.Passes text next := by
  have hclosed : ∀ {c next : Cursor}, expect close c.skipBlank = .ok next →
      ∃ text, MoreSpelled Item close [] text ∧ c.Passes text next := by
    intro c next hexpect
    obtain ⟨gap, hgap, hskip, -⟩ := c.skipBlank_passes
    exact ⟨gap ++ [close], .closed hgap, hskip.trans (expect_passes hexpect)⟩
  induction rounds generalizing c xs with
  | zero =>
    obtain ⟨stop, hexpect, heq⟩ := bind_eq_ok_iff.1 h
    obtain ⟨rfl, rfl⟩ := Prod.mk.inj (Except.ok.inj heq)
    exact hclosed hexpect
  | succ rounds ih =>
    rw [moreItems] at h
    split at h
    · obtain ⟨stop, hexpect, heq⟩ := bind_eq_ok_iff.1 h
      obtain ⟨rfl, rfl⟩ := Prod.mk.inj (Except.ok.inj heq)
      exact hclosed hexpect
    · next behind heat =>
      obtain ⟨⟨x, middle⟩, hfirst, h⟩ := bind_eq_ok_iff.1 h
      obtain ⟨⟨others, stop⟩, hothers, heq⟩ := bind_eq_ok_iff.1 h
      obtain ⟨rfl, rfl⟩ := Prod.mk.inj (Except.ok.inj heq)
      obtain ⟨gap, hgap, hgapPasses, -⟩ := c.skipBlank_passes
      obtain ⟨space, hspace, hspacePasses, -⟩ := behind.skipBlank_passes
      obtain ⟨text, htext, htextPasses⟩ := hitem hfirst
      obtain ⟨more, hmore, hmorePasses⟩ := ih hothers
      exact ⟨_, .comma hgap hspace htext hmore, hgapPasses.trans
        ((Cursor.eat?_passes heat).trans (hspacePasses.trans (htextPasses.trans hmorePasses)))⟩

theorem commaList_finds
    (hitem : ∀ {c x next}, item c = .ok (x, next) → ∃ text, Item x text ∧ c.Passes text next)
    (close : Char) {c next : Cursor} {xs : List α}
    (h : commaList item close c = .ok (xs, next)) :
    ∃ x others gap text more, xs = x :: others ∧ Blanks gap ∧ Item x text ∧
      MoreSpelled Item close others more ∧ c.Passes (gap ++ (text ++ more)) next := by
  obtain ⟨⟨x, middle⟩, hfirst, h⟩ := bind_eq_ok_iff.1 h
  obtain ⟨⟨others, stop⟩, hothers, heq⟩ := bind_eq_ok_iff.1 h
  obtain ⟨rfl, rfl⟩ := Prod.mk.inj (Except.ok.inj heq)
  obtain ⟨gap, hgap, hgapPasses, -⟩ := c.skipBlank_passes
  obtain ⟨text, htext, htextPasses⟩ := hitem hfirst
  obtain ⟨more, hmore, hmorePasses⟩ := moreItems_finds hitem close _ hothers
  exact ⟨x, others, gap, text, more, rfl, hgap, htext, hmore,
    hgapPasses.trans (htextPasses.trans hmorePasses)⟩

end CommaLists

/-! ## Values -/

theorem value_finds {c next : Cursor} {v : String} (h : value c = .ok (v, next)) :
    ValueSpelled v v.toList ∧ c.Passes v.toList next ∧
      ((Comparand.single v).endsBare = true → Stops isValueChar next.rest) := by
  refine ⟨⟨rfl, value_yields h⟩, ?_⟩
  rw [value] at h
  split at h
  · obtain ⟨⟨text, stop⟩, hquoted, heq⟩ := bind_eq_ok_iff.1 h
    obtain ⟨rfl, rfl⟩ := Prod.mk.inj (Except.ok.inj heq)
    obtain ⟨hpasses, hlit⟩ := quoted_finds hquoted
    rw [Comparand.endsBare, String.toList_ofList, hlit]
    exact ⟨hpasses, by simp⟩
  · generalize htake : c.takeWhile isValueChar = run at h
    obtain ⟨text, stop⟩ := run
    obtain ⟨hpasses, -, hstops⟩ := Cursor.takeWhile_passes htake
    cases text with
    | nil => simp at h
    | cons ch text =>
      obtain ⟨rfl, rfl⟩ := Prod.mk.inj (Except.ok.inj h)
      rw [String.toList_ofList]
      exact ⟨hpasses, fun _ => hstops⟩

theorem valueList_finds {c next : Cursor} {vs : List String} (h : valueList c = .ok (vs, next)) :
    ∃ space text, Blanks space ∧ ValuesSpelled vs text ∧ c.Passes (space ++ text) next := by
  obtain ⟨opened, hopened, h⟩ := bind_eq_ok_iff.1 h
  obtain ⟨space, hspace, hspacePasses, -⟩ := c.skipBlank_passes
  obtain ⟨gap, hgap, hgapPasses, -⟩ := opened.skipBlank_passes
  have hfront := hspacePasses.trans (expect_passes hopened)
  dsimp only at h
  split at h
  · next heat =>
    obtain ⟨rfl, rfl⟩ := Prod.mk.inj (Except.ok.inj h)
    refine ⟨space, _, hspace, .none hgap, ?_⟩
    simpa using hfront.trans (hgapPasses.trans (Cursor.eat?_passes heat))
  · obtain ⟨v, others, more, text, last, rfl, hmore, hvalue, hlast, hpasses⟩ :=
      commaList_finds (fun hread => ⟨_, (value_finds hread).1, (value_finds hread).2.1⟩) ')' h
    have hblanks : Blanks (gap ++ more) := fun ch hch =>
      (List.mem_append.1 hch).elim (hgap ch) (hmore ch)
    refine ⟨space, _, hspace, .some hblanks hvalue hlast, ?_⟩
    simpa using hfront.trans (hgapPasses.trans hpasses)

/-! ## Conditions -/

theorem comparisonMark?_finds {c next : Cursor} {comparator : Comparator}
    (h : comparisonMark? c = some (comparator, next)) :
    comparator = .notColon ∧ c.Passes ['!', ':'] next ∨
      comparator = .regex ∧ c.Passes [':', '~'] next ∨
      comparator = .colon ∧ c.Passes [':'] next ∧ next.rest.head? ≠ some '~' := by
  unfold comparisonMark? at h
  split at h
  · next rest hrest =>
    cases h
    exact .inl ⟨rfl, hrest, rfl⟩
  · next rest hrest =>
    cases h
    exact .inr (.inl ⟨rfl, hrest, rfl⟩)
  · next rest htilde hrest =>
    cases h
    refine .inr (.inr ⟨rfl, ⟨hrest, rfl⟩, ?_⟩)
    cases rest with
    | nil => simp [Cursor.past]
    | cons d rest =>
      intro hd
      obtain rfl : d = '~' := by simpa [Cursor.past] using hd
      exact htilde _ rfl
  · simp at h

/-- The word of a comparison has a blank in front, behind the key. -/
theorem ne_nil_of_keyword {c middle next : Cursor} {gap word : List Char} {name : String}
    (hname : ∀ ch ∈ name.toList, ch.isAlpha = true) (hne : name.toList ≠ [])
    (hstops : Stops isKeyChar c.rest) (hgap : c.Passes gap middle)
    (hword : sameLetters word name.toList = true) (hpasses : middle.Passes word next) :
    gap ≠ [] := by
  rintro rfl
  have hlen := length_eq_of_sameLetters hword
  rw [hgap.rest, hpasses.rest, List.nil_append] at hstops
  cases word with
  | nil => exact hne (List.length_eq_zero_iff.1 hlen.symm)
  | cons ch word =>
    have hkey := isKeyChar_of_sameLetters hname hword ch (by simp)
    simp [stops_cons.1 hstops] at hkey

theorem comparisonWord_finds {key : String} {c next : Cursor} {comparator : Comparator}
    (hstops : Stops isKeyChar c.rest) (h : comparisonWord key c = .ok (comparator, next)) :
    (∃ gap word, comparator = .oneOf ∧ Blanks gap ∧ gap ≠ [] ∧
        sameLetters word "IN".toList = true ∧ c.Passes (gap ++ word) next) ∨
      ∃ gap not between word, comparator = .noneOf ∧ Blanks gap ∧ gap ≠ [] ∧
        sameLetters not "NOT".toList = true ∧ Blanks between ∧ between ≠ [] ∧
        sameLetters word "IN".toList = true ∧
        c.Passes (gap ++ (not ++ (between ++ word))) next := by
  obtain ⟨gap, hgap, hgapPasses, -⟩ := c.skipBlank_passes
  unfold comparisonWord at h
  dsimp only at h
  split at h
  · next behind hnot =>
    obtain ⟨not, hnotSame, hnotPasses, hends⟩ := Cursor.keyword?_passes isAlpha_not hnot
    obtain ⟨between, hbetween, hbetweenPasses, -⟩ := behind.skipBlank_passes
    split at h
    · next stop hin =>
      obtain ⟨rfl, rfl⟩ := Prod.mk.inj (Except.ok.inj h)
      obtain ⟨word, hword, hwordPasses, -⟩ := Cursor.keyword?_passes isAlpha_in hin
      refine .inr ⟨gap, not, between, word, rfl, hgap,
        ne_nil_of_keyword isAlpha_not (by decide) hstops hgapPasses hnotSame hnotPasses,
        hnotSame, hbetween, ?_, hword,
        hgapPasses.trans (hnotPasses.trans (hbetweenPasses.trans hwordPasses))⟩
      exact ne_nil_of_keyword isAlpha_in (by decide) (stops_of_endsKeyword hends)
        hbetweenPasses hword hwordPasses
    · exact absurd h (Cursor.expected_ne_ok _ _ _)
  · split at h
    · next stop hin =>
      obtain ⟨rfl, rfl⟩ := Prod.mk.inj (Except.ok.inj h)
      obtain ⟨word, hword, hwordPasses, -⟩ := Cursor.keyword?_passes isAlpha_in hin
      exact .inl ⟨gap, word, rfl, hgap,
        ne_nil_of_keyword isAlpha_in (by decide) hstops hgapPasses hword hwordPasses, hword,
        hgapPasses.trans hwordPasses⟩
    · exact absurd h (Cursor.expected_ne_ok _ _ _)

theorem comparison_finds {key : String} {c next : Cursor} {comparator : Comparator}
    {comparand : Comparand} (hstops : Stops isKeyChar c.rest)
    (h : comparison key c = .ok ((comparator, comparand), next)) :
    ∃ text, ComparisonSpelled comparator comparand text ∧ c.Passes text next ∧
      (comparand.endsBare = true → Stops isValueChar next.rest) := by
  rw [comparison] at h
  split at h
  · next mark behind hmark =>
    obtain ⟨⟨v, stop⟩, hvalue, heq⟩ := bind_eq_ok_iff.1 h
    obtain ⟨hread, rfl⟩ := Prod.mk.inj (Except.ok.inj heq)
    obtain ⟨rfl, rfl⟩ := Prod.mk.inj hread
    obtain ⟨hspelled, hpasses, hends⟩ := value_finds hvalue
    obtain ⟨rfl, hfront⟩ | ⟨rfl, hfront⟩ | ⟨rfl, hfront, htilde⟩ := comparisonMark?_finds hmark
    · exact ⟨_, .notColon hspelled, hfront.trans hpasses, hends⟩
    · exact ⟨_, .regex hspelled, hfront.trans hpasses, hends⟩
    · refine ⟨_, .colon hspelled fun hhead => htilde ?_, hfront.trans hpasses, hends⟩
      rw [hpasses.rest]
      cases htext : v.toList with
      | nil => exact absurd htext hspelled.start.1
      | cons d tail => simpa [htext] using hhead
  · obtain ⟨⟨word, behind⟩, hword, h⟩ := bind_eq_ok_iff.1 h
    obtain ⟨⟨vs, stop⟩, hvalues, heq⟩ := bind_eq_ok_iff.1 h
    obtain ⟨hread, rfl⟩ := Prod.mk.inj (Except.ok.inj heq)
    obtain ⟨rfl, rfl⟩ := Prod.mk.inj hread
    obtain ⟨space, text, hspace, hspelled, hpasses⟩ := valueList_finds hvalues
    obtain ⟨gap, word, rfl, hgap, hne, hin, hfront⟩ |
      ⟨gap, not, between, word, rfl, hgap, hne, hnot, hbetween, hbetweenNe, hin, hfront⟩ :=
      comparisonWord_finds hstops hword
    · refine ⟨_, .oneOf hgap hne hin hspace hspelled, ?_, by simp [Comparand.endsBare]⟩
      simpa using hfront.trans hpasses
    · refine ⟨_, .noneOf hgap hne hnot hbetween hbetweenNe hin hspace hspelled, ?_,
        by simp [Comparand.endsBare]⟩
      simpa using hfront.trans hpasses

/-- A condition from its key on, behind an exclamation mark or none. -/
theorem condition_finds_key {start c next : Cursor} {negative : Bool} {mark : List Char}
    {test : Condition} (hmark : mark = if negative then ['!'] else [])
    (hfront : start.Passes mark c)
    (h : (match c.takeWhile isKeyChar with
      | ([], c) => c.expected .filterKey
      | (key, c) => do
        let key := String.ofList key
        let ((comparator, comparand), c) ← comparison key c
        return (Condition.mk negative key comparator comparand ⟨start.offset, c.offset⟩, c)) =
      .ok (test, next)) :
    ∃ text, ConditionSpelled test text ∧ start.Passes text next ∧
      test.span = ⟨start.offset, next.offset⟩ ∧
      (test.comparand.endsBare = true → Stops isValueChar next.rest) := by
  generalize htake : c.takeWhile isKeyChar = run at h
  obtain ⟨key, behind⟩ := run
  obtain ⟨hkeyPasses, hchars, hstops⟩ := Cursor.takeWhile_passes htake
  cases key with
  | nil => simp at h
  | cons ch key =>
    obtain ⟨⟨⟨comparator, comparand⟩, stop⟩, hcomparison, heq⟩ := bind_eq_ok_iff.1 h
    obtain ⟨rfl, rfl⟩ := Prod.mk.inj (Except.ok.inj heq)
    obtain ⟨text, hspelled, hpasses, hends⟩ := comparison_finds hstops hcomparison
    refine ⟨mark ++ (ch :: key ++ text), ⟨by simp, by simpa using hchars, text, hspelled, ?_⟩,
      hfront.trans (hkeyPasses.trans hpasses), rfl, hends⟩
    rw [hmark, String.toList_ofList]

/-- What is read as a condition spells it, and the condition knows its place. -/
theorem condition_finds {c next : Cursor} {test : Condition}
    (h : condition c = .ok (test, next)) :
    ∃ text, ConditionSpelled test text ∧ c.Passes text next ∧
      test.span = ⟨c.offset, next.offset⟩ ∧
      (test.comparand.endsBare = true → Stops isValueChar next.rest) := by
  rw [condition] at h
  cases hbang : c.eat? '!' with
  | none =>
    rw [hbang] at h
    exact condition_finds_key (show [] = if false then ['!'] else [] by rfl) (.refl c) h
  | some middle =>
    rw [hbang] at h
    exact condition_finds_key (show ['!'] = if true then ['!'] else [] by rfl)
      (Cursor.eat?_passes hbang) h

/-! ## What follows a block -/

theorem groupTag_finds {c next : Cursor} {tag : String} (h : groupTag c = .ok (tag, next)) :
    ∃ text, TagSpelled tag text ∧ c.Passes text next := by
  refine ⟨tag.toList, groupTag_yields h, ?_⟩
  rw [groupTag] at h
  generalize htake : c.takeWhile isTagChar = run at h
  obtain ⟨text, stop⟩ := run
  cases text with
  | nil => simp at h
  | cons ch text =>
    obtain ⟨rfl, rfl⟩ := Prod.mk.inj (Except.ok.inj h)
    rw [String.toList_ofList]
    exact (Cursor.takeWhile_passes htake).1

theorem groupTags_finds {c next : Cursor} {tags : List String}
    (h : groupTags c = .ok (tags, next)) :
    ∃ text, TagsSpelled tags text ∧ c.Passes text next := by
  obtain ⟨gap, hgap, hgapPasses, -⟩ := c.skipBlank_passes
  rw [groupTags] at h
  split at h
  · obtain ⟨rfl, rfl⟩ := Prod.mk.inj (Except.ok.inj h)
    exact ⟨[], .none, .refl c⟩
  · next behind hby =>
    obtain ⟨opened, hopened, h⟩ := bind_eq_ok_iff.1 h
    obtain ⟨word, hword, hwordPasses, -⟩ := Cursor.keyword?_passes isAlpha_by hby
    obtain ⟨space, hspace, hspacePasses, -⟩ := behind.skipBlank_passes
    obtain ⟨tag, others, inner, text, more, rfl, hinner, htag, hmore, hpasses⟩ :=
      commaList_finds groupTag_finds '\x7d' h
    refine ⟨_, .some hgap hword hspace hinner htag hmore, ?_⟩
    simpa using hgapPasses.trans (hwordPasses.trans (hspacePasses.trans
      ((expect_passes hopened).trans hpasses)))

theorem functionCall_finds {c next : Cursor} {call : FunctionCall}
    (h : functionCall c = .ok (call, next)) :
    ∃ text, CallSpelled call text ∧ c.Passes text next := by
  rw [functionCall] at h
  generalize htake : c.takeWhile isWordChar = run at h
  obtain ⟨name, behind⟩ := run
  obtain ⟨hpasses, hchars, -⟩ := Cursor.takeWhile_passes htake
  cases name with
  | nil => simp at h
  | cons ch name =>
    obtain ⟨inside, hinside, h⟩ := bind_eq_ok_iff.1 h
    obtain ⟨⟨arguments, stop⟩, harguments, heq⟩ := bind_eq_ok_iff.1 h
    obtain ⟨rfl, rfl⟩ := Prod.mk.inj (Except.ok.inj heq)
    obtain ⟨inner, hinner, hinnerPasses⟩ := rawArguments_finds harguments
    refine ⟨_, ⟨by simp, by simpa using hchars, inner, hinner, rfl⟩, ?_⟩
    rw [String.toList_ofList]
    exact hpasses.trans ((expect_passes hinside).trans hinnerPasses)

theorem moreCalls_finds (rounds : Nat) {c next : Cursor} {calls : List FunctionCall}
    (h : moreCalls rounds c = .ok (calls, next)) :
    ∃ text, CallsSpelled calls text ∧ c.Passes text next := by
  induction rounds generalizing c calls with
  | zero =>
    obtain ⟨rfl, rfl⟩ := Prod.mk.inj (Except.ok.inj h)
    exact ⟨[], .none, .refl c⟩
  | succ rounds ih =>
    rw [moreCalls] at h
    split at h
    · obtain ⟨rfl, rfl⟩ := Prod.mk.inj (Except.ok.inj h)
      exact ⟨[], .none, .refl c⟩
    · next behind hdot =>
      obtain ⟨⟨call, middle⟩, hcall, h⟩ := bind_eq_ok_iff.1 h
      obtain ⟨⟨more, stop⟩, hmore, heq⟩ := bind_eq_ok_iff.1 h
      obtain ⟨rfl, rfl⟩ := Prod.mk.inj (Except.ok.inj heq)
      obtain ⟨text, htext, hpasses⟩ := functionCall_finds hcall
      obtain ⟨others, hothers, hothersPasses⟩ := ih hmore
      exact ⟨_, .more htext hothers,
        (Cursor.eat?_passes hdot).trans (hpasses.trans hothersPasses)⟩

theorem functionCalls_finds {c next : Cursor} {calls : List FunctionCall}
    (h : functionCalls c = .ok (calls, next)) :
    ∃ text, CallsSpelled calls text ∧ c.Passes text next :=
  moreCalls_finds _ h

end MetricQuery.Grammar
