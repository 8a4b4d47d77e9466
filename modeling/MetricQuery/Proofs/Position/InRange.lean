import MetricQuery.Proofs.Grammar.TermExact
import MetricQuery.Proofs.Position.Blocks

/-!
# Every cut is in range

An expression is read by positions as its reader reads it, so no step over a whole text is stuck:
all positions lie between two characters of the text, all cuts fit it, and as many levels are
left as were entered.

* `tracks_timeWindow`: the look-ahead for a time window, by the bytes to the next parenthesis.
* `mirrors_term` and `mirrors_chain`: terms and what joins them.
* `mirrors_expression`: expressions and arguments of calls, by the levels that are left.
* `parse_in_range`: whole texts, and the positions of errors.
-/

namespace MetricQuery.Position

open Text Grammar

variable {α β : Type} {src : Source} {depth limit : Nat} {c next : Cursor}

/-! ## Metric queries -/

theorem mirrors_metricName : Mirrors src depth (metricName src) Grammar.metricName :=
  fun _ _ hc => tracks_word hc fun _ _ hnext => .ok hnext

section

variable {items : Steps (List BlockItem)} {reader : Reader (List BlockItem)}

theorem mirrors_blockBody (hitems : Mirrors src depth items reader) :
    Mirrors src depth (blockBody src items) (Grammar.blockBody reader) := by
  intro limit c hc
  rw [blockBody, (does_skipBlank hc).bind]
  exact tracks_eat hc.skipBlank (fun next _ hnext => .ok hnext) (hitems hc.skipBlank)

theorem mirrors_metricTail (hitems : Mirrors src depth items reader) (start : Nat)
    (aggregator window : Option String) (metric : String) :
    Mirrors src depth (metricTail src items start aggregator window metric)
      (Grammar.metricTail reader start aggregator window metric) := by
  intro limit c hc
  refine tracks_expect hc fun opened _ hopened => ?_
  rw [(does_position _).bind]
  refine (mirrors_blockBody hitems hopened).bind fun block next hnext => ?_
  rw [(does_skipBlank hnext).bind, (does_position _).bind]
  refine tracks_expect hnext.skipBlank fun after _ hafter => ?_
  refine (mirrors_groupTags hafter).bind fun groupBy middle hmiddle => ?_
  refine (tracks_functionCalls hmiddle.tight (lt_rounds hmiddle)).bind
    fun functions stop hstop => ?_
  exact .ok (hstop.mono hmiddle.left)

theorem mirrors_aggregated (hitems : Mirrors src depth items reader) {start : Nat}
    (hstart : Boundary src.text start) (aggregator : List Char) (window : Option String) :
    Mirrors src depth (aggregated src items start aggregator window)
      (Grammar.aggregated reader start aggregator window) := by
  intro limit c hc
  rw [aggregated, Grammar.aggregated]
  by_cases hname : (!isIdentifier aggregator) = true
  · rw [if_pos hname, if_pos hname]
    exact .malformed hstart
  · rw [if_neg hname, if_neg hname]
    exact (mirrors_metricName hc).bind fun metric next hnext =>
      mirrors_metricTail hitems start _ window metric hnext

end

/-! ## Windows -/

theorem all_ne_of_not_mem {ch : Char} {text : List Char} (h : ch ∉ text) :
    ∀ d ∈ text, (d ≠ ch : Bool) = true := by
  intro d hd
  rw [decide_eq_true_eq]
  rintro rfl
  exact h hd

theorem findByte?_eq_none {ch : Char} {text : List Char} (h : ch ∉ text) :
    findByte? ch text = none := by
  rw [findByte?, if_neg]
  rwa [List.contains_iff_mem]

theorem findByte?_append {ch : Char} {front : List Char} (h : ch ∉ front) (behind : List Char) :
    findByte? ch (front ++ ch :: behind) = some (utf8Length front) := by
  have hstop : Stops (fun d => (d ≠ ch : Bool)) (ch :: behind) := stops_cons.2 (by simp)
  rw [findByte?, if_pos (by simp), takeWhile_of_stops (all_ne_of_not_mem h) hstop]

/-- The window as a reader: without one nothing is read. -/
def windowReader (pattern : WindowPattern) : Reader (Option String) := fun c => do
  match ← timeWindow? pattern c with
  | some (window, c) => return (some window, c)
  | none => return (none, c)

theorem timeWindow?_of_not_mem {pattern : WindowPattern} {tail : List Char} (h : ')' ∉ tail)
    (offset : Nat) : timeWindow? pattern ⟨'(' :: tail, offset⟩ = .ok none := by
  have hdrop : tail.dropWhile (· ≠ ')') = [] := by
    rw [List.dropWhile_eq_nil_iff]
    exact all_ne_of_not_mem h
  rw [timeWindow?_cons, hdrop]

theorem timeWindow?_append {pattern : WindowPattern} {inner : List Char} (h : ')' ∉ inner)
    (behind : List Char) (offset : Nat) :
    timeWindow? pattern ⟨'(' :: (inner ++ ')' :: behind), offset⟩ =
      match behind with
      | colon :: rest =>
        if colon ≠ ':' || inner.contains '(' then .ok none
        else if pattern.occursIn (trim inner) then
          .ok (some (String.ofList (trim inner),
            ⟨rest, offset + utf8Length ('(' :: (inner ++ [')', colon]))⟩))
        else .error (.malformed (.timeWindow (String.ofList (trim inner))) (offset + 1))
      | [] => .ok none := by
  have hstop : Stops (fun d => (d ≠ ')' : Bool)) (')' :: behind) := stops_cons.2 (by decide)
  rw [timeWindow?_cons, takeWhile_of_stops (all_ne_of_not_mem h) hstop,
    dropWhile_of_stops (all_ne_of_not_mem h) hstop]
  cases behind <;> rfl

/-- The two cuts of the look-ahead are what stands in front of the first closing parenthesis and
what stands behind it. -/
theorem timeWindow_append {inner behind : List Char} {offset : Nat}
    (hc : (Cursor.mk ('(' :: (inner ++ ')' :: behind)) offset).Inside src.text limit)
    (h : ')' ∉ inner) :
    timeWindow src ⟨offset, depth⟩ =
      (if inner.contains '(' then return none
        else if behind.head? ≠ some ':' then return none
        else if src.pattern.occursIn (trim inner) then do
          advance src (utf8Length ('(' :: inner) + 2)
          return some (String.ofList (trim inner))
        else do
          failAt (.timeWindow (String.ofList (trim inner))) ((← position) + 1) :
        Steps (Option String)) ⟨offset, depth⟩ := by
  have hfront : ')' ∉ '(' :: inner := by simp [h]
  have hfind : findByte? ')' ('(' :: (inner ++ ')' :: behind)) =
      some (utf8Length ('(' :: inner)) := findByte?_append hfront behind
  have hslice : (Span.mk 1 (utf8Length ('(' :: inner))).slice? ('(' :: (inner ++ ')' :: behind)) =
      some inner := Span.slice?_append ['('] inner (')' :: behind)
  have hcut : (splitAtByte? (utf8Length ('(' :: inner) + 1)
      ('(' :: (inner ++ ')' :: behind))).map Prod.snd = some behind := by
    have hall := splitAtByte?_append ('(' :: inner ++ [')']) behind
    rw [utf8Length_append, List.append_assoc] at hall
    exact congrArg (Option.map Prod.snd) hall
  rw [timeWindow, (does_rest hc).bind, hfind]
  dsimp only
  rw [(does_orStuck hslice _).bind]
  by_cases hopen : inner.contains '(' = true
  · rw [if_pos hopen, if_pos hopen]
  · rw [if_neg hopen, if_neg hopen, (does_orStuck hcut _).bind]

/-- At an opening parenthesis a window is found where the reader finds one. -/
theorem tracks_timeWindow (hc : c.Inside src.text limit) {tail : List Char}
    (hrest : c.rest = '(' :: tail) :
    Tracks src.text depth limit (timeWindow src ⟨c.offset, depth⟩)
      (windowReader src.pattern c) := by
  obtain ⟨text, offset⟩ := c
  obtain rfl : text = '(' :: tail := hrest
  rw [windowReader]
  by_cases hmem : ')' ∈ tail
  · obtain ⟨inner, behind, rfl, hinner⟩ := List.eq_append_cons_of_mem hmem
    rw [timeWindow_append hc hinner, timeWindow?_append hinner]
    cases behind with
    | nil =>
      by_cases hopen : inner.contains '(' = true
      · rw [if_pos hopen]
        exact .ok hc
      · rw [if_neg hopen]
        exact .ok hc
    | cons colon rest =>
      dsimp only
      by_cases hopen : inner.contains '(' = true
      · rw [if_pos hopen, if_pos (by rw [hopen, Bool.or_true])]
        exact .ok hc
      by_cases hcolon : colon = ':'
      · subst hcolon
        have hhead : ¬ (':' :: rest).head? ≠ some ':' := not_not_intro List.head?_cons
        have hcall : ¬ (decide (':' ≠ ':') || inner.contains '(') = true := by
          simpa using hopen
        rw [if_neg hopen, if_neg hhead, if_neg hcall]
        by_cases hfits : src.pattern.occursIn (trim inner) = true
        · have hpasses : (Cursor.mk ('(' :: (inner ++ ')' :: ':' :: rest)) offset).Passes
              ('(' :: inner ++ [')', ':'])
              ⟨rest, offset + utf8Length ('(' :: inner ++ [')', ':'])⟩ :=
            ⟨by simp, rfl⟩
          have hbytes : utf8Length ('(' :: inner) + 2 =
              utf8Length ('(' :: inner ++ [')', ':']) := by
            rw [utf8Length_append]
            rfl
          rw [if_pos hfits, if_pos hfits, (does_advance hc hpasses hbytes).bind]
          exact .ok (hc.behind hpasses)
        · have hpasses : (Cursor.mk ('(' :: (inner ++ ')' :: ':' :: rest)) offset).Passes ['(']
              ⟨inner ++ ')' :: ':' :: rest, offset + 1⟩ := ⟨rfl, rfl⟩
          rw [if_neg hfits, if_neg hfits]
          exact .malformed (hc.behind hpasses).boundary
      · have hhead : (colon :: rest).head? ≠ some ':' := by simpa using hcolon
        have hcall : (decide (colon ≠ ':') || inner.contains '(') = true := by simp [hcolon]
        rw [if_neg hopen, if_pos hhead, if_pos hcall]
        exact .ok hc
  · have hnone : findByte? ')' ('(' :: tail) = none := findByte?_eq_none (by simp [hmem])
    rw [timeWindow, (does_rest hc).bind, hnone, timeWindow?_of_not_mem hmem]
    exact .ok hc

/-! ## Terms -/

section

variable {arguments : Steps (List Expr)} {argumentReader : Reader (List Expr)}
  {items : Steps (List BlockItem)} {itemReader : Reader (List BlockItem)} {inArguments : Bool}

theorem mirrors_callTail (harguments : Mirrors src depth arguments argumentReader) {start : Nat}
    (hstart : Boundary src.text start) (name : List Char) :
    Mirrors src depth (callTail src arguments start name)
      (Grammar.callTail argumentReader start name) := by
  intro limit c hc
  rw [callTail, Grammar.callTail]
  by_cases hname : (!isIdentifier name) = true
  · rw [if_pos hname, if_pos hname]
    exact .malformed hstart
  · rw [if_neg hname, if_neg hname]
    refine tracks_expect hc fun next _ hnext => ?_
    exact (harguments hnext).bind fun args stop hstop => .ok hstop

theorem mirrors_bareWord (start : Nat) (word : List Char) :
    Mirrors src depth (bareWord src inArguments start word)
      (Grammar.bareWord inArguments start word) := by
  intro limit c hc
  rw [bareWord, Grammar.bareWord]
  by_cases hname : (inArguments && isIdentifier word) = true
  · rw [if_pos hname, if_pos hname]
    exact .ok hc
  · rw [if_neg hname, if_neg hname]
    exact tracks_expected hc _

theorem mirrors_wordTerm (hitems : Mirrors src depth items itemReader)
    (harguments : Mirrors src depth arguments argumentReader) :
    Mirrors src depth (wordTerm src items arguments inArguments)
      (Grammar.wordTerm src.pattern itemReader argumentReader inArguments) := by
  intro limit start hstart
  have hboundary := hstart.boundary
  rw [wordTerm, (does_position _).bind, (does_takeWhile hstart).bind, Grammar.wordTerm]
  rcases htake : start.takeWhile isMetricChar with ⟨word, c⟩
  have hc := hstart.takeWhile htake
  rw [(does_peek hc).bind, Cursor.peek?]
  dsimp only
  cases hrest : c.rest with
  | nil => exact mirrors_bareWord _ _ hc
  | cons ch rest =>
    have hpasses : c.Passes [ch] (c.past [ch] rest) := ⟨hrest, rfl⟩
    dsimp only [List.head?_cons]
    by_cases hbrace : ch = '\x7b'
    · rw [if_pos hbrace, if_pos hbrace]
      exact mirrors_metricTail hitems _ none none _ hc
    by_cases hcolon : ch = ':'
    · rw [if_neg hbrace, if_neg hbrace, if_pos hcolon, if_pos hcolon, (does_bump hc hpasses).bind]
      exact mirrors_aggregated hitems hboundary word none (hc.behind hpasses)
    by_cases hopen : ch = '('
    · rw [if_neg hbrace, if_neg hbrace, if_neg hcolon, if_neg hcolon, if_pos hopen, if_pos hopen]
      have hwindow : Tracks src.text depth limit _ _ := tracks_timeWindow hc (hopen ▸ hrest)
      rw [windowReader] at hwindow
      cases hfound : timeWindow? src.pattern c with
      | error failure =>
        rw [hfound] at hwindow
        exact hwindow.bind_of_error
      | ok found =>
        rw [hfound] at hwindow
        cases found with
        | none =>
          rw [hwindow.does.1.bind]
          exact mirrors_callTail harguments hboundary word hc
        | some found =>
          rw [hwindow.does.1.bind]
          exact mirrors_aggregated hitems hboundary word _ hwindow.does.2
    · rw [if_neg hbrace, if_neg hbrace, if_neg hcolon, if_neg hcolon, if_neg hopen, if_neg hopen]
      exact mirrors_bareWord _ _ hc

theorem tracks_number (hc : c.Inside src.text limit) {ch : Char} {tail : List Char}
    (hrest : c.rest = ch :: tail) :
    Tracks src.text depth limit (number src ⟨c.offset, depth⟩) (Grammar.number c) := by
  have hsign : c.Passes [ch] (c.past [ch] tail) := ⟨hrest, rfl⟩
  have hfirst := hc.behind hsign
  rw [number, (does_position _).bind, (does_bump hc hsign).bind, (does_takeWhile hfirst).bind,
    (does_position _).bind]
  rcases htake : (c.past [ch] tail).takeWhile fun ch => ch.isDigit || ch = '.' with ⟨digits, next⟩
  have hpasses := hsign.trans (Cursor.takeWhile_passes htake).1
  have hreader : Grammar.number c =
      .ok (.number (String.ofList ([ch] ++ digits)) ⟨c.offset, next.offset⟩, next) := by
    simp only [Grammar.number, hrest, List.take_succ_cons, List.take_zero, List.drop_succ_cons,
      List.drop_zero, htake]
  rw [hreader, (does_slice hc hpasses _).bind]
  exact .ok (hc.behind hpasses)

section

variable {inner : Steps Expr} {innerReader : Reader Expr}

theorem mirrors_parenthesised (hinner : Mirrors src depth inner innerReader) :
    Mirrors src depth (parenthesised src inner) (Grammar.parenthesised innerReader) := by
  intro limit c hc
  rw [parenthesised, (does_position _).bind]
  refine tracks_expect hc fun next _ hnext => ?_
  refine (hinner hnext).bind fun expr middle hmiddle => ?_
  rw [(does_skipBlank hmiddle).bind]
  exact tracks_expect hmiddle.skipBlank fun stop _ hstop => .ok hstop

theorem mirrors_term (hitems : Mirrors src depth items itemReader)
    (hinner : Mirrors src depth inner innerReader)
    (harguments : Mirrors src depth arguments argumentReader) :
    Mirrors src depth (term src items inner arguments inArguments)
      (Grammar.term src.pattern itemReader innerReader argumentReader inArguments) := by
  intro limit c hc
  have hblank := hc.skipBlank
  rw [term, (does_skipBlank hc).bind, (does_position _).bind, (does_rest hblank).bind, Grammar.term]
  generalize c.skipBlank = c at hblank
  dsimp only
  cases hrest : c.rest with
  | nil => exact tracks_expected hblank _
  | cons ch rest =>
    dsimp only
    by_cases hopen : ch = '('
    · rw [if_pos hopen, if_pos hopen]
      exact mirrors_parenthesised hinner hblank
    by_cases hquote : isQuote ch = true
    · rw [if_neg hopen, if_neg hopen, if_pos hquote, if_pos hquote]
      have hpeek : c.peek?.any isQuote = true := by rw [Cursor.peek?, hrest]; exact hquote
      exact (tracks_quoted hblank hpeek).bind fun text next hnext => .ok hnext
    by_cases hnumber : startsNumber (ch :: rest) = true
    · rw [if_neg hopen, if_neg hopen, if_neg hquote, if_neg hquote, if_pos hnumber, if_pos hnumber]
      exact tracks_number hblank hrest
    by_cases hword : isWordStart ch = true
    · rw [if_neg hopen, if_neg hopen, if_neg hquote, if_neg hquote, if_neg hnumber,
        if_neg hnumber, if_pos hword, if_pos hword]
      exact mirrors_wordTerm hitems harguments hblank
    · rw [if_neg hopen, if_neg hopen, if_neg hquote, if_neg hquote, if_neg hnumber,
        if_neg hnumber, if_neg hword, if_neg hword]
      exact tracks_expected hblank _

end

end

/-! ## Expressions -/

section

variable {operand : Steps Expr} {reader : Reader Expr}

theorem tracks_chainFrom (hoperand : Mirrors src depth operand reader)
    (operator? : Char → Option Operator) {k rounds : Nat} (hc : c.Inside src.text k)
    (hrounds : k < rounds) (left : Expr) :
    Tracks src.text depth k (chainFrom src operand operator? rounds left ⟨c.offset, depth⟩)
      (Grammar.chainFrom reader operator? k left c) := by
  revert left
  refine loop_induction (fun rounds c hc left => ?_) (fun k rounds ih c hc left => ?_) hc hrounds
  · have hblank := hc.skipBlank
    have hpeek : c.skipBlank.peek? = none := by rw [Cursor.peek?, hblank.rest_eq_nil]; rfl
    rw [chainFrom, (does_skipBlank hc).bind, (does_peek hblank).bind, hpeek]
    exact .ok hblank
  · have hblank := hc.skipBlank
    rw [chainFrom, (does_skipBlank hc).bind, (does_peek hblank).bind, Cursor.peek?,
      Grammar.chainFrom]
    generalize c.skipBlank = c at hblank
    dsimp only
    cases hrest : c.rest with
    | nil => exact .ok hblank
    | cons ch rest =>
      have hpasses : c.Passes [ch] (c.past [ch] rest) := ⟨hrest, rfl⟩
      obtain ⟨_, hfewer, hnext⟩ := hblank.shrink hpasses (List.cons_ne_nil _ _)
      cases hfewer
      dsimp only [List.head?_cons, Option.bind_some]
      cases hop : operator? ch with
      | none => exact .ok hblank
      | some op =>
        dsimp only
        rw [(does_bump hblank hpasses).bind]
        refine (hoperand hnext).bind fun right stop hstop => ?_
        exact (ih stop hstop _).mono (Nat.le_succ k)

theorem mirrors_chain (hoperand : Mirrors src depth operand reader)
    (operator? : Char → Option Operator) :
    Mirrors src depth (chain src operand operator?) (Grammar.chain reader operator?) := by
  intro limit c hc
  refine (hoperand hc).bind fun left next hnext => ?_
  exact (tracks_chainFrom hoperand operator? hnext.tight (lt_rounds hnext) left).mono hnext.left

theorem mirrors_argumentList (hargument : Mirrors src depth operand reader) :
    Mirrors src depth (argumentList src operand) (Grammar.argumentList reader) := by
  intro limit c hc
  rw [argumentList, (does_skipBlank hc).bind]
  refine tracks_eat hc.skipBlank (fun next _ hnext => .ok hnext) ?_
  exact mirrors_commaList hargument hc.skipBlank

end

/-- With the levels that are left an expression and the arguments of a call are read by positions
as they are read from what is left of the text. -/
theorem mirrors_expression (levels : Nat) (hlevels : depth + levels = src.maxDepth) :
    (∀ inArguments, Mirrors src depth (expression src (levels + 1) inArguments)
      (Grammar.expression src.pattern levels inArguments)) ∧
    Mirrors src depth (callArguments src (levels + 1))
      (Grammar.callArguments src.pattern levels) := by
  induction levels generalizing depth with
  | zero =>
    -- The readers have no level left where the steps cannot enter one.
    have hdepth : src.maxDepth ≤ depth := by omega
    constructor
    · intro inArguments limit c hc
      rw [expression, level_of_le hdepth, Grammar.expression]
      exact .tooDeep
    · intro limit c hc
      rw [callArguments, level_of_le hdepth, Grammar.callArguments]
      exact .tooDeep
  | succ levels ih =>
    have hdepth : depth < src.maxDepth := by omega
    have hlevels : depth + 1 + levels = src.maxDepth := by omega
    obtain ⟨hexpression, harguments⟩ := ih hlevels
    have hitems := mirrors_blockItems levels '\x7d' hlevels
    constructor
    · intro inArguments limit c hc
      rw [expression, Grammar.expression]
      exact tracks_level hdepth (mirrors_chain (mirrors_chain
        (mirrors_term hitems (hexpression inArguments) harguments) _) _ hc)
    · intro limit c hc
      rw [callArguments, Grammar.callArguments]
      exact tracks_level hdepth (mirrors_argumentList (hexpression true) hc)

/-! ## Whole texts -/

/-- The bytes in front of a place and those behind it are all bytes of the text. -/
theorem offset_add_utf8Length (hc : c.Inside src.text limit) :
    c.offset + utf8Length c.rest = utf8Length src.text := by
  obtain ⟨before, htext, hoffset⟩ := hc.split
  rw [htext, utf8Length_append, hoffset]

/-- A whole text is read by positions as it is read from what is left of it. -/
theorem tracks_wholeExpression (src : Source) :
    Tracks src.text 0 src.text.length (wholeExpression src ⟨0, 0⟩)
      (do
        let expr ← Grammar.wholeExpression src.pattern src.maxDepth src.text
        return (expr, ⟨[], utf8Length src.text⟩)) := by
  obtain ⟨hexpression, -⟩ : (∀ inArguments, Mirrors src 0 _ _) ∧ _ :=
    mirrors_expression src.maxDepth (Nat.zero_add _)
  rw [wholeExpression, Grammar.wholeExpression, bind_assoc]
  refine (hexpression false (Cursor.Inside.ofText src.text)).bind fun expr c hc => ?_
  have hblank := hc.skipBlank
  have hbytes := offset_add_utf8Length hblank
  rw [(does_skipBlank hc).bind, (does_position _).bind]
  dsimp only
  generalize c.skipBlank = c at hblank hbytes
  cases hrest : c.rest with
  | nil =>
    rw [hrest] at hbytes
    have hend : c = ⟨[], utf8Length src.text⟩ := by
      rw [← hrest, ← hbytes]
      rfl
    rw [if_neg (by rw [hend]; exact Nat.lt_irrefl _), ← hend]
    exact .ok hblank
  | cons ch rest =>
    have hpos := ch.utf8Size_pos
    rw [hrest, utf8Length] at hbytes
    rw [if_pos (by omega)]
    exact tracks_expected hblank _

end MetricQuery.Position

namespace MetricQuery

open Text

/-- Reading a text is never stuck: by positions, with every cut and jump checked and no level left
that was not entered, it gives what `parse` gives.  The position that an error names is one
between two characters or at an end of the text. -/
theorem parse_in_range (text : String) (limits : Limits) (engine : PatternEngine) :
    Position.parse text limits engine = some (parse text limits engine) ∧
      ∀ cause offset, parse text limits engine = .error (.malformed cause offset) →
        Boundary text.toList offset ∧ offset ≤ text.utf8ByteSize := by
  rw [Position.parse, parse]
  cases limits.window? engine with
  | error cause => exact ⟨rfl, fun _ _ h => by simp at h⟩
  | ok pattern =>
    dsimp only
    by_cases hlong : text.utf8ByteSize > limits.maxLength
    · rw [if_pos hlong, if_pos hlong]
      exact ⟨rfl, fun _ _ h => by simp at h⟩
    · rw [if_neg hlong, if_neg hlong]
      have hwhole := Position.tracks_wholeExpression ⟨text.toList, limits.maxDepth, pattern⟩
      dsimp only at hwhole
      cases hread : Grammar.wholeExpression pattern limits.maxDepth text.toList with
      | ok expr =>
        rw [hread] at hwhole
        rw [hwhole.does.1]
        exact ⟨rfl, fun _ _ h => by simp at h⟩
      | error failure =>
        rw [hread] at hwhole
        obtain ⟨hfails, hoffset⟩ := hwhole.fails
        rw [hfails]
        cases failure with
        | tooDeep => exact ⟨rfl, fun _ _ h => by simp at h⟩
        | malformed cause position =>
          refine ⟨rfl, fun _ offset h => ?_⟩
          obtain ⟨-, rfl⟩ := ParseError.malformed.inj (Except.error.inj h)
          have hboundary := hoffset cause position rfl
          exact ⟨hboundary, by rw [utf8ByteSize_eq]; exact hboundary.le⟩

/-- Behind a mark of two bytes. -/
theorem parse_in_range_mark :
    let text := "m\x7ba:\"é\" ?\x7d"
    let failure := ParseError.malformed (.unexpected (.separator '\x7d') (some '?')) 9
    parse text = .error failure ∧ Boundary text.toList 9 ∧ 9 ≤ text.utf8ByteSize := by
  intro text failure
  have hfailure : (match parse text with
      | .ok _ => none
      | .error cause => some cause) = some failure := by decide +kernel
  have hparse : parse text = .error failure := by
    cases hread : parse text with
    | ok expr => simp [hread] at hfailure
    | error cause => simpa [hread] using hfailure
  exact ⟨hparse, (parse_in_range text {} .basic).2 _ 9 hparse⟩

end MetricQuery
