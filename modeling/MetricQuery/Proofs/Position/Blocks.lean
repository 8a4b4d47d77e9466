import MetricQuery.Proofs.Grammar.SuffixReads
import MetricQuery.Proofs.Position.Readers
import MetricQuery.Proofs.Position.Tracks

/-!
# Blocks, tags and calls by positions

What stands between the braces of a metric query and behind them is read by positions as its
readers read it, at every depth.

* `tracks_eat`, `tracks_keyword` and `tracks_word`: the steps branch where the readers do.
* `mirrors_blockItems`: filter lists, one level further down each.
* `mirrors_groupTags`: the tags, in front of which the steps go back if there are none.
* `does_argument` and `tracks_rawArguments`: arguments are cut out of the text once their loop
  has gone through them.
* `tracks_functionCalls`: calls.
-/

namespace MetricQuery.Position

open Text Grammar

variable {α β : Type} {src : Source} {depth limit : Nat} {c next : Cursor}

/-! ## Branches -/

/-- Other steps follow a character, if it comes next, or stand in its place. -/
theorem tracks_eat {ch : Char} {yes no : Steps β} {g : Cursor → Except Failure (β × Cursor)}
    {e : Except Failure (β × Cursor)} {target : Nat} (hc : c.Inside src.text limit)
    (hyes : ∀ next, c.Passes [ch] next → next.Inside src.text limit →
      Tracks src.text depth target (yes ⟨next.offset, depth⟩) (g next))
    (hno : Tracks src.text depth target (no ⟨c.offset, depth⟩) e) :
    Tracks src.text depth target ((do if ← eat src ch then yes else no) ⟨c.offset, depth⟩)
      (match c.eat? ch with
        | some c => g c
        | none => e) := by
  cases heat : c.eat? ch with
  | some next =>
    have hpasses := Cursor.eat?_passes heat
    rw [(does_eat hc heat).bind, if_pos rfl]
    exact hyes next hpasses (hc.behind hpasses)
  | none =>
    rw [(does_eat_not hc heat).bind, if_neg Bool.false_ne_true]
    exact hno

/-- Other steps follow a keyword, if it comes next, or stand in its place. -/
theorem tracks_keyword {word : String} {yes no : Steps β}
    {g : Cursor → Except Failure (β × Cursor)} {e : Except Failure (β × Cursor)} {target : Nat}
    (hword : ∀ ch ∈ word.toList, ch.isAlpha = true) (hc : c.Inside src.text limit)
    (hyes : ∀ next text, sameLetters text word.toList = true → c.Passes text next →
      next.Inside src.text limit → Tracks src.text depth target (yes ⟨next.offset, depth⟩) (g next))
    (hno : Tracks src.text depth target (no ⟨c.offset, depth⟩) e) :
    Tracks src.text depth target ((do if ← keyword src word then yes else no) ⟨c.offset, depth⟩)
      (match c.keyword? word with
        | some c => g c
        | none => e) := by
  cases hfind : c.keyword? word with
  | some next =>
    obtain ⟨text, hsame, hpasses, -⟩ := Cursor.keyword?_passes hword hfind
    rw [(does_keyword hword hc hfind).bind, if_pos rfl]
    exact hyes next text hsame hpasses (hc.behind hpasses)
  | none =>
    rw [(does_keyword_not hword hc hfind).bind, if_neg Bool.false_ne_true]
    exact hno

/-! ## Words and values -/

/-- A run of characters that must not be empty, in front of other steps. -/
theorem tracks_word {p : Char → Bool} {wanted : Expectation} {f : List Char → Steps β}
    {g : List Char → Reader β} (hc : c.Inside src.text limit)
    (hf : ∀ text next, next.Inside src.text limit →
      Tracks src.text depth limit (f text ⟨next.offset, depth⟩) (g text next)) :
    Tracks src.text depth limit
      ((do
        let text ← takeWhile src p
        if text.isEmpty then expected src wanted else f text : Steps β) ⟨c.offset, depth⟩)
      (match c.takeWhile p with
        | ([], c) => c.expected wanted
        | (text, c) => g text c) := by
  rw [(does_takeWhile hc).bind]
  rcases htake : c.takeWhile p with ⟨text, next⟩
  have hnext := hc.takeWhile htake
  cases text with
  | nil => exact tracks_expected hnext wanted
  | cons ch text => exact hf (ch :: text) next hnext

theorem mirrors_value : Mirrors src depth (value src) Grammar.value := by
  intro limit c hc
  rw [value, (does_peek hc).bind, Grammar.value]
  by_cases hmark : c.peek?.any isQuote = true
  · rw [if_pos hmark, if_pos hmark]
    exact (tracks_quoted hc hmark).bind fun text next hnext => .ok hnext
  · rw [if_neg hmark, if_neg hmark, (does_takeWhile hc).bind]
    rcases htake : c.takeWhile isValueChar with ⟨text, next⟩
    have hnext := hc.takeWhile htake
    cases text with
    | nil =>
      obtain rfl := (Cursor.takeWhile_passes htake).1.eq_of_nil
      exact tracks_expected hnext _
    | cons ch text => exact .ok hnext

theorem mirrors_valueList : Mirrors src depth (valueList src) Grammar.valueList := by
  intro limit c hc
  rw [valueList, (does_skipBlank hc).bind]
  refine tracks_expect hc.skipBlank fun next _ hnext => ?_
  rw [(does_skipBlank hnext).bind]
  refine tracks_eat hnext.skipBlank (fun after _ hafter => ?_) ?_
  · exact .ok hafter
  · exact mirrors_commaList mirrors_value hnext.skipBlank

/-! ## Comparisons -/

theorem does_comparisonMark (depth : Nat) {comparator : Comparator} (hc : c.Inside src.text limit)
    (h : comparisonMark? c = some (comparator, next)) :
    Does (comparisonMark src) ⟨c.offset, depth⟩ (some comparator) ⟨next.offset, depth⟩ ∧
      next.Inside src.text limit := by
  obtain ⟨text, offset⟩ := c
  unfold comparisonMark? at h
  split at h
  · next rest htext =>
    obtain ⟨rfl, rfl⟩ := Prod.mk.inj (Option.some.inj h)
    obtain rfl : text = '!' :: ':' :: rest := htext
    have hpasses : (Cursor.mk ('!' :: ':' :: rest) offset).Passes ['!', ':']
        ⟨rest, offset + utf8Length ['!', ':']⟩ := ⟨rfl, rfl⟩
    refine ⟨(does_rest hc).trans ?_, hc.behind hpasses⟩
    exact (does_advance hc hpasses rfl).trans rfl
  · next rest htext =>
    obtain ⟨rfl, rfl⟩ := Prod.mk.inj (Option.some.inj h)
    obtain rfl : text = ':' :: '~' :: rest := htext
    have hpasses : (Cursor.mk (':' :: '~' :: rest) offset).Passes [':', '~']
        ⟨rest, offset + utf8Length [':', '~']⟩ := ⟨rfl, rfl⟩
    refine ⟨(does_rest hc).trans ?_, hc.behind hpasses⟩
    exact (does_advance hc hpasses rfl).trans rfl
  · next rest hplain htext =>
    obtain ⟨rfl, rfl⟩ := Prod.mk.inj (Option.some.inj h)
    obtain rfl : text = ':' :: rest := htext
    have hregex : ¬ [':', '~'].isPrefixOf (':' :: rest) = true := by
      rw [List.isPrefixOf_iff_prefix]
      rintro ⟨more, hmore⟩
      exact hplain more (List.cons.inj hmore).2.symm
    have heat := Cursor.eat?_self ':' rest offset
    refine ⟨(does_rest hc).trans ?_, hc.behind (Cursor.eat?_passes heat)⟩
    rw [if_neg (by simp [List.isPrefixOf]), if_neg hregex]
    exact (does_eat hc heat).trans rfl
  · simp at h

theorem does_comparisonMark_not (hc : c.Inside src.text limit) (h : comparisonMark? c = none) :
    Does (comparisonMark src) ⟨c.offset, depth⟩ none ⟨c.offset, depth⟩ := by
  unfold comparisonMark? at h
  split at h
  · simp at h
  · simp at h
  · simp at h
  · next hnotColon hregex hcolon =>
    have heat : c.eat? ':' = none := by
      cases heat : c.eat? ':' with
      | none => rfl
      | some next => exact (hcolon _ (Cursor.eat?_passes heat).rest).elim
    refine (does_rest hc).trans ?_
    rw [if_neg, if_neg]
    · exact (does_eat_not hc heat).trans rfl
    · rw [List.isPrefixOf_iff_prefix]
      rintro ⟨more, hmore⟩
      exact hregex more hmore.symm
    · rw [List.isPrefixOf_iff_prefix]
      rintro ⟨more, hmore⟩
      exact hnotColon more hmore.symm

theorem mirrors_comparisonWord (key : String) :
    Mirrors src depth (comparisonWord src key) (Grammar.comparisonWord key) := by
  intro limit c hc
  rw [comparisonWord, (does_skipBlank hc).bind]
  refine tracks_keyword isAlpha_not hc.skipBlank (fun next _ _ _ hnext => ?_) ?_
  · rw [(does_skipBlank hnext).bind]
    exact tracks_keyword isAlpha_in hnext.skipBlank (fun after _ _ _ hafter => .ok hafter)
      (tracks_expected hnext.skipBlank _)
  · exact tracks_keyword isAlpha_in hc.skipBlank (fun next _ _ _ hnext => .ok hnext)
      (tracks_expected hc.skipBlank _)

theorem mirrors_comparison (key : String) :
    Mirrors src depth (comparison src key) (Grammar.comparison key) := by
  intro limit c hc
  rw [comparison, Grammar.comparison]
  cases hmark : comparisonMark? c with
  | some found =>
    obtain ⟨comparator, next⟩ := found
    obtain ⟨hdoes, hnext⟩ := does_comparisonMark depth hc hmark
    rw [hdoes.bind]
    exact (mirrors_value hnext).bind fun text after hafter => .ok hafter
  | none =>
    rw [(does_comparisonMark_not hc hmark).bind]
    refine (mirrors_comparisonWord key hc).bind fun comparator next hnext => ?_
    exact (mirrors_valueList hnext).bind fun texts after hafter => .ok hafter

theorem mirrors_condition : Mirrors src depth (condition src) Grammar.condition := by
  intro limit c hc
  rw [condition, (does_position _).bind]
  cases heat : c.eat? '!' with
  | some next =>
    rw [(does_eat hc heat).bind, Grammar.condition, heat]
    refine tracks_word (hc.behind (Cursor.eat?_passes heat)) fun key after hafter => ?_
    refine (mirrors_comparison _ hafter).bind fun found stop hstop => ?_
    obtain ⟨comparator, comparand⟩ := found
    exact .ok hstop
  | none =>
    rw [(does_eat_not hc heat).bind, Grammar.condition, heat]
    refine tracks_word hc fun key after hafter => ?_
    refine (mirrors_comparison _ hafter).bind fun found stop hstop => ?_
    obtain ⟨comparator, comparand⟩ := found
    exact .ok hstop

/-! ## Operands -/

/-- Blanks are skipped once. -/
theorem skipBlank_skipBlank (c : Cursor) : c.skipBlank.skipBlank = c.skipBlank :=
  Cursor.skipBlank_of_stops _ (stops_dropWhile isBlank c.rest)

theorem ne_nil_of_sameLetters {text word : List Char} (hword : word ≠ [])
    (h : sameLetters text word = true) : text ≠ [] := by
  rintro rfl
  exact hword (List.length_eq_zero_iff.1 (length_eq_of_sameLetters h).symm)

/-- Behind a `NOT` the steps have skipped the blanks, too. -/
theorem does_eatNot (depth : Nat) (hc : c.Inside src.text limit)
    (h : Grammar.eatNot? c = some next) :
    Does (eatNot src) ⟨c.offset, depth⟩ true ⟨next.skipBlank.offset, depth⟩ ∧
      ∃ fewer, limit = fewer + 1 ∧ next.Inside src.text fewer := by
  unfold Grammar.eatNot? at h
  split at h
  · simp at h
  · next after hnot =>
    split at h
    · simp at h
    · next hin =>
      obtain rfl := Option.some.inj h
      obtain ⟨word, hword, hpasses, -⟩ := Cursor.keyword?_passes isAlpha_not hnot
      have hafter := hc.behind hpasses
      have hne : word ≠ [] := ne_nil_of_sameLetters (by decide) hword
      refine ⟨(does_position _).trans ((does_keyword isAlpha_not hc hnot).trans ?_),
        hc.shrink hpasses hne⟩
      rw [if_pos rfl]
      refine (does_skipBlank hafter).trans ?_
      exact (does_keyword_not isAlpha_in hafter.skipBlank (by simpa using hin)).trans rfl

/-- Where there is no `NOT` the steps are back where they started. -/
theorem does_eatNot_not (hc : c.Inside src.text limit) (h : Grammar.eatNot? c = none) :
    Does (eatNot src) ⟨c.offset, depth⟩ false ⟨c.offset, depth⟩ := by
  unfold Grammar.eatNot? at h
  refine (does_position _).trans ?_
  split at h
  · next hnot => exact (does_keyword_not isAlpha_not hc hnot).trans rfl
  · next after hnot =>
    split at h
    · next hin =>
      obtain ⟨stop, hstop⟩ := Option.isSome_iff_exists.1 hin
      obtain ⟨_, -, hpasses, -⟩ := Cursor.keyword?_passes isAlpha_not hnot
      have hafter := hc.behind hpasses
      refine (does_keyword isAlpha_not hc hnot).trans ?_
      refine (does_skipBlank hafter).trans ?_
      refine (does_keyword isAlpha_in hafter.skipBlank hstop).trans ?_
      exact (does_seek hc _).trans rfl
    · simp at h

theorem does_leadingNots (depth : Nat) {k rounds : Nat} (hc : c.Inside src.text k)
    (hrounds : k < rounds) :
    Does (leadingNots src rounds) ⟨c.offset, depth⟩ (Grammar.leadingNots k c).1
        ⟨(Grammar.leadingNots k c).2.offset, depth⟩ ∧
      (Grammar.leadingNots k c).2.Inside src.text k := by
  refine loop_induction (fun rounds c hc => ?_) (fun k rounds ih c hc => ?_) hc hrounds
  · have hnone : Grammar.eatNot? c = none := by
      cases heat : Grammar.eatNot? c with
      | none => rfl
      | some next =>
        obtain ⟨-, _, hfewer, -⟩ := does_eatNot depth hc heat
        simp at hfewer
    exact ⟨(does_eatNot_not hc hnone).trans rfl, hc⟩
  · rw [Grammar.leadingNots]
    cases heat : eatNot? c with
    | none => exact ⟨(does_eatNot_not hc heat).trans rfl, hc⟩
    | some next =>
      obtain ⟨hdoes, _, hfewer, hnext⟩ := does_eatNot depth hc heat
      cases hfewer
      obtain ⟨hmore, hstop⟩ := ih _ hnext.skipBlank
      refine ⟨hdoes.trans ?_, hstop.mono (Nat.le_succ k)⟩
      rw [if_pos rfl]
      -- The steps skip the blanks once more than the reader does.
      have hblank : Does (skipBlank src) ⟨_, depth⟩ () _ := does_skipBlank hnext.skipBlank
      rw [skipBlank_skipBlank] at hblank
      exact hblank.trans (hmore.trans rfl)

section

variable {nested : Steps (List BlockItem)} {reader : Reader (List BlockItem)}

theorem mirrors_operand (hnested : Mirrors src depth nested reader) :
    Mirrors src depth (operand src nested) (Grammar.operand reader) := by
  intro limit c hc
  have hblank := hc.skipBlank
  obtain ⟨hnots, hnext⟩ := does_leadingNots depth hblank.tight (lt_rounds hblank)
  replace hnext := hnext.mono hblank.left
  rw [operand, (does_skipBlank hc).bind, hnots.bind]
  refine tracks_eat hnext (fun opened _ hopened => ?_) ?_
  · refine (hnested hopened).bind fun items next hnext => ?_
    rw [(does_skipBlank hnext).bind]
    exact tracks_expect hnext.skipBlank fun stop _ hstop => .ok hstop
  · exact (mirrors_condition hnext).bind fun test stop hstop => .ok hstop

theorem does_joiner (depth : Nat) (plain negated : Separator) (hc : c.Inside src.text limit) :
    Does (joiner src plain negated) ⟨c.offset, depth⟩ (Grammar.joiner plain negated c).1
        ⟨(Grammar.joiner plain negated c).2.offset, depth⟩ ∧
      (Grammar.joiner plain negated c).2.Inside src.text limit := by
  have hblank := hc.skipBlank
  simp only [Grammar.joiner]
  cases hnot : c.skipBlank.keyword? "NOT" with
  | some next =>
    obtain ⟨_, -, hpasses, -⟩ := Cursor.keyword?_passes isAlpha_not hnot
    exact ⟨(does_skipBlank hc).trans ((does_keyword isAlpha_not hblank hnot).trans rfl),
      hblank.behind hpasses⟩
  | none =>
    exact ⟨(does_skipBlank hc).trans ((does_keyword_not isAlpha_not hblank hnot).trans rfl),
      hblank⟩

/-- A separator takes a character. -/
theorem tracks_separator (close : Char) {fewer : Nat} (hc : c.Inside src.text limit)
    (hlimit : limit ≤ fewer + 1) :
    Tracks src.text depth fewer (separator src close ⟨c.offset, depth⟩)
      (Grammar.separator close c) := by
  have hshrink {text : List Char} {next : Cursor} (hne : text ≠ []) (hpasses : c.Passes text next) :
      next.Inside src.text fewer := by
    obtain ⟨few, hfew, hnext⟩ := hc.shrink hpasses hne
    exact hnext.mono (by omega)
  have hjoiner (plain negated : Separator) {next : Cursor} (hnext : next.Inside src.text fewer) :
      Tracks src.text depth fewer (joiner src plain negated ⟨next.offset, depth⟩)
        (.ok (Grammar.joiner plain negated next)) := by
    obtain ⟨hdoes, hstop⟩ := does_joiner depth plain negated hnext
    rw [hdoes]
    exact .ok hstop
  have hword {text word : List Char} {next : Cursor} (hsame : sameLetters text word = true)
      (hne : word ≠ []) (hpasses : c.Passes text next) : next.Inside src.text fewer :=
    hshrink (ne_nil_of_sameLetters hne hsame) hpasses
  refine tracks_eat hc (fun next hpasses _ => .ok (hshrink (List.cons_ne_nil _ _) hpasses)) ?_
  refine tracks_keyword isAlpha_and hc
    (fun next _ hsame hpasses _ => hjoiner _ _ (hword hsame (by decide) hpasses)) ?_
  refine tracks_keyword isAlpha_or hc
    (fun next _ hsame hpasses _ => hjoiner _ _ (hword hsame (by decide) hpasses)) ?_
  exact tracks_expected hc _

theorem tracks_moreOperands (hnested : Mirrors src depth nested reader) (close : Char)
    {k rounds : Nat} (hc : c.Inside src.text k) (hrounds : k < rounds) :
    Tracks src.text depth k (moreOperands src nested close rounds ⟨c.offset, depth⟩)
      (Grammar.moreOperands reader close k c) := by
  refine loop_induction (fun rounds c hc => ?_) (fun k rounds ih c hc => ?_) hc hrounds
  · have hblank := hc.skipBlank
    have hend := hblank.rest_eq_nil
    have hpeek : c.skipBlank.peek? ≠ some close := by simp [Cursor.peek?, hend]
    have hseparator : Tracks src.text depth 0 _ _ :=
      tracks_separator close hblank (Nat.zero_le (0 + 1))
    have hnone : Grammar.separator close c.skipBlank =
        c.skipBlank.expected (.separator close) := by
      simp [Grammar.separator, Cursor.eat?, Cursor.keyword?, hend, sameLetters]
    rw [hnone] at hseparator
    rw [moreOperands, (does_skipBlank hc).bind, (does_peek hblank).bind, if_neg hpeek]
    exact hseparator.bind_of_error
  · have hblank := hc.skipBlank
    rw [moreOperands, (does_skipBlank hc).bind, (does_peek hblank).bind, Grammar.moreOperands]
    dsimp only
    by_cases hclose : c.skipBlank.peek? = some close
    · rw [if_pos hclose, if_pos hclose]
      exact .ok hblank
    · rw [if_neg hclose, if_neg hclose]
      refine (tracks_separator close hblank (Nat.le_refl _)).bind fun sep next hnext => ?_
      refine (mirrors_operand hnested hnext).bind fun items middle hmiddle => ?_
      refine (ih middle hmiddle).bind fun more stop hstop => ?_
      exact .ok (hstop.mono (Nat.le_succ k))

end

/-- A list is read one level further down, if there is one left. -/
theorem mirrors_blockItems (levels : Nat) (close : Char) (hlevels : depth + levels = src.maxDepth) :
    Mirrors src depth (blockItems src (levels + 1) close) (Grammar.blockItems levels close) := by
  induction levels generalizing depth close with
  | zero =>
    intro limit c hc
    -- The reader has no level left where the steps cannot enter one.
    have hdepth : src.maxDepth ≤ depth := by omega
    rw [blockItems, level_of_le hdepth]
    exact .tooDeep
  | succ levels ih =>
    intro limit c hc
    have hnested : Mirrors src (depth + 1) _ _ := ih ')' (by omega)
    rw [blockItems]
    refine tracks_level (by omega) ?_
    refine (mirrors_operand hnested hc).bind fun items next hnext => ?_
    refine (tracks_moreOperands hnested close hnext.tight (lt_rounds hnext)).bind
      fun more stop hstop => ?_
    exact .ok (hstop.mono hnext.left)

/-! ## Tags -/

theorem mirrors_groupTag : Mirrors src depth (groupTag src) Grammar.groupTag :=
  fun _ _ hc => tracks_word hc fun _ _ hnext => .ok hnext

theorem mirrors_groupTags : Mirrors src depth (groupTags src) Grammar.groupTags := by
  intro limit c hc
  have hblank := hc.skipBlank
  rw [groupTags, (does_position _).bind, (does_skipBlank hc).bind, Grammar.groupTags]
  cases hby : c.skipBlank.keyword? "by" with
  | some next =>
    obtain ⟨_, -, hpasses, -⟩ := Cursor.keyword?_passes isAlpha_by hby
    have hnext := hblank.behind hpasses
    rw [(does_keyword isAlpha_by hblank hby).bind, if_pos rfl, (does_skipBlank hnext).bind]
    refine tracks_expect hnext.skipBlank fun stop _ hstop => ?_
    exact mirrors_commaList mirrors_groupTag hstop
  | none =>
    rw [(does_keyword_not isAlpha_by hblank hby).bind, if_neg Bool.false_ne_true,
      (does_seek hc _).bind]
    exact .ok hc

/-! ## Arguments -/

/-- The loop through an argument stops where its reader does. -/
theorem tracks_skipArgument {opened : Nat} (hopened : Boundary src.text opened)
    (rounds nested : Nat) {c : Cursor} (hc : c.Inside src.text limit)
    (hrounds : c.rest.length < rounds) :
    Tracks src.text depth limit (skipArgument src opened rounds nested ⟨c.offset, depth⟩)
      (do
        let (_, stop) ← rawArgument opened nested c
        return ((), stop)) := by
  induction rounds generalizing nested c with
  | zero => exact absurd hrounds (Nat.not_lt_zero _)
  | succ rounds ih =>
    obtain ⟨text, offset⟩ := c
    rw [skipArgument, (does_peek hc).bind]
    cases text with
    | nil =>
      rw [rawArgument]
      exact .malformed hopened
    | cons ch tail =>
      have hpasses : (Cursor.mk (ch :: tail) offset).Passes [ch]
          ⟨tail, offset + utf8Length [ch]⟩ := ⟨rfl, rfl⟩
      have hfew : tail.length < rounds := Nat.lt_of_succ_lt_succ hrounds
      simp only [Cursor.peek?, List.head?_cons]
      rw [rawArgument_cons]
      by_cases hquote : isQuote ch = true
      · rw [if_pos hquote, if_pos hquote]
        have hquoted : Tracks src.text depth limit _ _ := tracks_quoted hc hquote
        rw [Grammar.quoted] at hquoted
        cases hlit : literal? (ch :: tail) with
        | none =>
          rw [hlit] at hquoted
          exact hquoted.bind_of_error
        | some cut =>
          obtain ⟨lit, rest⟩ := cut
          have hshort := length_of_literal? hlit
          rw [hlit] at hquoted
          obtain ⟨hdoes, hstop⟩ := hquoted.does
          rw [hdoes.bind]
          simpa [Cursor.past] using ih nested hstop (Nat.lt_of_lt_of_le hshort hfew)
      · rw [if_neg hquote, if_neg hquote]
        by_cases hends : (ch = ')' && nested = 0 || ch = ',' && nested = 0) = true
        · rw [if_pos hends, if_pos hends]
          exact .ok hc
        · rw [if_neg hends, if_neg hends, (does_bump hc hpasses).bind]
          simpa using ih _ (hc.behind hpasses) hfew

/-- What an argument's loop skips is cut out of the text as its reader takes it. -/
theorem does_argument (depth : Nat) {opened : Nat} {raw : List Char}
    (hopened : Boundary src.text opened) (hc : c.Inside src.text limit)
    (hraw : rawArgument opened 0 c = .ok (raw, next)) :
    Does (skipArgument src opened src.rounds 0) ⟨c.offset, depth⟩ () ⟨next.offset, depth⟩ ∧
      Does (slice src c.offset next.offset) ⟨next.offset, depth⟩ raw ⟨next.offset, depth⟩ := by
  have hloop : Tracks src.text depth limit _ _ :=
    tracks_skipArgument hopened src.rounds 0 hc (lt_rounds hc)
  rw [hraw] at hloop
  exact ⟨hloop.does.1, does_slice hc (balanced_of_rawArgument hraw).1 _⟩

section

variable {opened : Nat}

/-- One argument and what ends it, in front of arguments that are read by fewer rounds.  Only the
first one may be empty, and then it must not be the only one. -/
theorem tracks_argument (hopened : Boundary src.text opened) {k rounds : Nat} {isFirst : Bool}
    (hc : c.Inside src.text (k + 1))
    (hempty : ∀ raw next, rawArgument opened 0 c = .ok (raw, next) → (trim raw).isEmpty = true →
      next.peek? = some ',' ∨ isFirst = false)
    (hmore : ∀ stop, stop.Inside src.text k →
      Tracks src.text depth k (argumentsFrom src opened rounds false ⟨stop.offset, depth⟩)
        (someArguments opened k stop)) :
    Tracks src.text depth (k + 1)
      (argumentsFrom src opened (rounds + 1) isFirst ⟨c.offset, depth⟩)
      (someArguments opened (k + 1) c) := by
  rw [argumentsFrom, (does_position _).bind, someArguments]
  cases hraw : rawArgument opened 0 c with
  | error failure =>
    have hloop : Tracks src.text depth (k + 1) _ _ :=
      tracks_skipArgument hopened src.rounds 0 hc (lt_rounds hc)
    rw [hraw] at hloop
    exact hloop.bind_of_error
  | ok read =>
    obtain ⟨raw, next⟩ := read
    obtain ⟨hloop, hslice⟩ := does_argument depth hopened hc hraw
    obtain ⟨hpasses, -, ch, tail, hrest, hch⟩ := balanced_of_rawArgument hraw
    have hnext := hc.behind hpasses
    have hpeek : next.peek? = some ch := by rw [Cursor.peek?, hrest]; rfl
    replace hempty := hempty raw next hraw
    rw [hloop.bind, (does_position _).bind, hslice.bind, (does_peek hnext).bind, hpeek]
    rw [hpeek] at hempty
    show Tracks _ _ _ _ (if (trim raw).isEmpty = true then _ else _)
    obtain ⟨text, offset⟩ := next
    obtain rfl : text = ch :: tail := hrest
    have hfirst : (Cursor.mk (ch :: tail) offset).Passes [ch]
        ⟨tail, offset + utf8Length [ch]⟩ := ⟨rfl, rfl⟩
    rcases hch with rfl | rfl
    · rw [if_pos rfl]
      by_cases hblank : (trim raw).isEmpty = true
      · rw [if_pos hblank, if_pos hblank]
        exact tracks_expected hnext _
      · obtain ⟨_, hfewer, hstop⟩ := hnext.shrink hfirst (List.cons_ne_nil _ _)
        cases hfewer
        rw [if_neg hblank, if_neg hblank, (does_bump hnext hfirst).bind, Cursor.eat?_self]
        exact (hmore _ hstop).bind fun more stop hstop => .ok (hstop.mono (Nat.le_succ k))
    · rw [if_neg (by decide)]
      by_cases hblank : (trim raw).isEmpty = true
      · have hlater : isFirst = false := by simpa using hempty hblank
        have hwanted : ((trim raw).isEmpty && !isFirst) = true := by rw [hblank, hlater]; rfl
        rw [if_pos hwanted, if_pos hblank]
        exact tracks_expected hnext _
      · have hlast : ¬ ((trim raw).isEmpty && !isFirst) = true := by simp [hblank]
        rw [if_neg hlast, if_neg hblank, if_neg hblank, Cursor.eat?_of_ne tail offset (by decide)]
        exact tracks_expect hnext fun stop _ hstop => .ok hstop

theorem tracks_argumentsFrom (hopened : Boundary src.text opened) {k rounds : Nat}
    (hc : c.Inside src.text k) (hrounds : k < rounds) :
    Tracks src.text depth k (argumentsFrom src opened rounds false ⟨c.offset, depth⟩)
      (someArguments opened k c) := by
  refine loop_induction (fun rounds c hc => ?_) (fun k rounds ih c hc => ?_) hc hrounds
  · have hend := hc.rest_eq_nil
    have hloop : Tracks src.text depth 0 _ _ :=
      tracks_skipArgument hopened src.rounds 0 hc (lt_rounds hc)
    obtain ⟨text, offset⟩ := c
    obtain rfl : text = [] := hend
    rw [rawArgument] at hloop
    rw [argumentsFrom, (does_position _).bind]
    exact hloop.bind_of_error
  · exact tracks_argument hopened hc (fun _ _ _ _ => .inr rfl) ih

/-- A first argument made of blanks, in front of the closing parenthesis, is no argument. -/
theorem does_argumentsFrom (depth rounds : Nat) {raw : List Char} {after : Cursor}
    (hopened : Boundary src.text opened) (hc : c.Inside src.text limit)
    (hraw : rawArgument opened 0 c = .ok (raw, next)) (hempty : (trim raw).isEmpty = true)
    (heat : next.eat? ')' = some after) :
    Does (argumentsFrom src opened (rounds + 1) true) ⟨c.offset, depth⟩ []
      ⟨after.offset, depth⟩ := by
  obtain ⟨hloop, hslice⟩ := does_argument depth hopened hc hraw
  have hnext := hc.behind (balanced_of_rawArgument hraw).1
  have hpeek : next.peek? ≠ some ',' := by
    rw [Cursor.peek?, (Cursor.eat?_passes heat).rest]
    simp
  have hfirst : ¬ ((trim raw).isEmpty && !true) = true := by simp
  have hclose : Does (expect src ')') ⟨next.offset, depth⟩ () ⟨after.offset, depth⟩ :=
    (does_eat hnext heat).trans rfl
  rw [argumentsFrom]
  refine (does_position _).trans (hloop.trans ((does_position _).trans (hslice.trans ?_)))
  refine (does_peek hnext).trans ?_
  rw [if_neg hpeek, if_neg hfirst, if_pos hempty]
  exact hclose.trans rfl

/-- The position in front of the one where the arguments start is that of their parenthesis. -/
theorem tracks_rawArguments (hc : c.Inside src.text limit) (hpasses : c.Passes ['('] next) :
    Tracks src.text depth limit (rawArguments src ⟨next.offset, depth⟩)
      (Grammar.rawArguments c.offset next) := by
  have hopened := hc.boundary
  have hnext := hc.behind hpasses
  have hplace : next.offset = c.offset + 1 := hpasses.offset
  rw [rawArguments, (does_position _).bind, hplace]
  show Tracks _ _ _ (argumentsFrom src c.offset (src.text.length + 1) true ⟨c.offset + 1, depth⟩) _
  rw [← hplace, Grammar.rawArguments]
  cases hraw : rawArgument c.offset 0 next with
  | error failure =>
    have hloop : Tracks src.text depth limit _ _ :=
      tracks_skipArgument hopened src.rounds 0 hnext (lt_rounds hnext)
    rw [hraw] at hloop
    rw [argumentsFrom, (does_position _).bind]
    exact hloop.bind_of_error
  | ok read =>
    obtain ⟨raw, stop⟩ := read
    obtain ⟨hpasses, -, ch, tail, hrest, hch⟩ := balanced_of_rawArgument hraw
    have hstop := hnext.behind hpasses
    dsimp only [bind, Except.bind]
    split
    · next after hempty heat =>
      rw [does_argumentsFrom depth _ hopened hnext hraw hempty heat]
      exact .ok (hstop.behind (Cursor.eat?_passes heat))
    · next hsome =>
      obtain ⟨left, hleft⟩ : ∃ left, next.rest.length = left + 1 :=
        Nat.exists_eq_succ_of_ne_zero (by rw [hpasses.rest, hrest]; simp)
      have hlength := hnext.length_le
      have htight := hnext.tight
      rw [hleft] at htight ⊢
      refine (tracks_argument hopened htight ?_ fun stop hstop => ?_).mono (hleft ▸ hnext.left)
      · intro raw' stop' hraw' hempty
        obtain ⟨rfl, rfl⟩ := Prod.mk.inj (Except.ok.inj (hraw.symm.trans hraw'))
        refine .inl ?_
        rcases hch with rfl | rfl
        · rw [Cursor.peek?, hrest]
          rfl
        · obtain ⟨text, offset⟩ := stop
          obtain rfl : text = ')' :: tail := hrest
          exact (hsome _ hempty (Cursor.eat?_self ')' tail offset)).elim
      · exact tracks_argumentsFrom hopened hstop (by omega)

end

/-! ## Calls -/

theorem mirrors_functionCall : Mirrors src depth (functionCall src) Grammar.functionCall := by
  intro limit c hc
  refine tracks_word hc fun name next hnext => ?_
  refine tracks_expect hnext fun inside hpasses _ => ?_
  exact (tracks_rawArguments hnext hpasses).bind fun arguments stop hstop => .ok hstop

theorem tracks_functionCalls {k rounds : Nat} (hc : c.Inside src.text k) (hrounds : k < rounds) :
    Tracks src.text depth k (functionCalls src rounds ⟨c.offset, depth⟩)
      (Grammar.moreCalls k c) := by
  refine loop_induction (fun rounds c hc => ?_) (fun k rounds ih c hc => ?_) hc hrounds
  · have heat : c.eat? '.' = none := by rw [Cursor.eat?, hc.rest_eq_nil]
    rw [functionCalls, (does_eat_not hc heat).bind]
    exact .ok hc
  · rw [functionCalls, Grammar.moreCalls]
    cases heat : c.eat? '.' with
    | none =>
      rw [(does_eat_not hc heat).bind]
      exact .ok hc
    | some next =>
      obtain ⟨_, hfewer, hnext⟩ := hc.eat? heat
      cases hfewer
      rw [(does_eat hc heat).bind, if_pos rfl]
      refine (mirrors_functionCall hnext).bind fun call middle hmiddle => ?_
      refine (ih middle hmiddle).bind fun calls stop hstop => ?_
      exact .ok (hstop.mono (Nat.le_succ k))

end MetricQuery.Position
