import MetricQuery.Proofs.Grammar.ExprLayout

/-!
# The texts of terms

What a term is read from, in the layouts of `ExprLayout`: `wordTerm_takes_metric` and
`metricTerm_finds` for metric queries, `timeWindow?_takes` and `timeWindow?_finds` for time
windows, `number_takes` and the like for the other terms that nest nothing.

A text is taken for a term only if what follows it does not go on with it: `Follows rank rest`
says that behind blanks comes the end, a comma, a closing parenthesis or an operator of a
higher rank.
-/

namespace MetricQuery.Grammar

open Text

/-! ## What follows -/

/-- May the character stand behind an expression of this rank? -/
def mayFollow (rank : Nat) (c : Char) : Bool :=
  c = ',' || c = ')' || rank < 2 && (c = '+' || c = '-') || rank < 1 && (c = '*' || c = '/')

/-- Nothing follows but blanks, or behind them what may stand behind an expression of this
rank. -/
def Follows (rank : Nat) (rest : List Char) : Prop :=
  ∀ c ∈ (skipBlank rest).head?, mayFollow rank c = true

theorem mayFollow_of_le {a b : Nat} {c : Char} (hab : a ≤ b) (h : mayFollow b c = true) :
    mayFollow a c = true := by
  have htwo : b < 2 → a < 2 := fun hb => Nat.lt_of_le_of_lt hab hb
  have hone : b < 1 → a < 1 := fun hb => Nat.lt_of_le_of_lt hab hb
  simp only [mayFollow, Bool.or_eq_true, Bool.and_eq_true, decide_eq_true_eq] at h ⊢
  tauto

theorem Follows.of_le {a b : Nat} {rest : List Char} (hab : a ≤ b) (h : Follows b rest) :
    Follows a rest :=
  fun c hc => mayFollow_of_le hab (h c hc)

/-- Whatever may follow is behind blanks. -/
theorem follows_append {rank : Nat} {gap rest : List Char} {c : Char} (hgap : Blanks gap)
    (hc : mayFollow rank c = true) : Follows rank (gap ++ c :: rest) := by
  have hblank : isBlank c = false := by
    simp only [mayFollow, Bool.or_eq_true, Bool.and_eq_true, decide_eq_true_eq] at hc
    rcases hc with ((rfl | rfl) | ⟨-, rfl | rfl⟩) | ⟨-, rfl | rfl⟩ <;> decide
  rw [Follows, skipBlank, List.dropWhile_append_of_pos hgap, List.dropWhile_cons, hblank]
  simpa using hc

/-- A class without blanks and without what may follow stops. -/
theorem Follows.stops {rank : Nat} {rest : List Char} (h : Follows rank rest) {p : Char → Bool}
    (hblank : ∀ c, isBlank c = true → p c = false)
    (hp : ∀ c ∈ [',', ')', '+', '-', '*', '/'], p c = false) : Stops p rest := by
  cases rest with
  | nil => simp
  | cons c rest =>
    refine stops_cons.2 ?_
    cases hc : isBlank c with
    | true => exact hblank c hc
    | false =>
      have hfollow : mayFollow 0 c = true := by
        refine mayFollow_of_le (Nat.zero_le rank) (h c ?_)
        simp [skipBlank, hc]
      apply hp
      simp only [mayFollow, Bool.or_eq_true, Bool.and_eq_true, decide_eq_true_eq] at hfollow
      rcases hfollow with ((rfl | rfl) | ⟨-, rfl | rfl⟩) | ⟨-, rfl | rfl⟩ <;> simp

/-- Names of metrics, words and numbers end in front of what may follow. -/
theorem Follows.stops_isMetricChar {rank : Nat} {rest : List Char} (h : Follows rank rest) :
    Stops isMetricChar rest := by
  refine h.stops (fun c hc => ?_) (by simp [isMetricChar, isWordChar])
  by_contra hmetric
  simp only [Bool.not_eq_false, isMetricChar, isWordChar, Bool.or_eq_true,
    decide_eq_true_eq] at hmetric
  have hkey : isKeyChar c = true := by
    rcases hmetric with (halpha | rfl) | rfl
    · simp [isKeyChar, halpha]
    · decide
    · decide
  simp [isKeyChar_eq_false_of_isBlank hc] at hkey

theorem Follows.head?_ne {rank : Nat} {rest : List Char} (h : Follows rank rest) {d : Char}
    (hblank : isBlank d = false) (hd : d ∉ [',', ')', '+', '-', '*', '/']) :
    rest.head? ≠ some d := by
  intro hhead
  have hstops : Stops (fun c => decide (c = d)) rest := by
    refine h.stops (fun c hc => ?_) fun c hc => ?_
    · rw [decide_eq_false_iff_not]
      rintro rfl
      simp [hblank] at hc
    · rw [decide_eq_false_iff_not]
      rintro rfl
      exact hd hc
  simpa using hstops d hhead

/-- A keyword comes first only in front of a letter. -/
theorem comesFirst_of_stops {word : String} {text : List Char}
    (hword : ∀ ch ∈ word.toList, ch.isAlpha = true) (hne : word.toList ≠ [])
    (h : Stops Char.isAlpha text) : comesFirst word text = false := by
  by_contra hfirst
  rw [Bool.not_eq_false, comesFirst, Bool.and_eq_true] at hfirst
  obtain ⟨hsame, -⟩ := hfirst
  have hempty : sameLetters [] word.toList = false := by
    by_contra hsame
    have hlen := length_eq_of_sameLetters (by simpa using hsame)
    exact hne (List.length_eq_zero_iff.1 hlen.symm)
  cases text with
  | nil => simp [hempty] at hsame
  | cons c text =>
    rw [List.takeWhile_cons] at hsame
    split at hsame
    · have halpha := isAlpha_of_sameLetters hword hsame c (by simp)
      simp [stops_cons.1 h] at halpha
    · simp [hempty] at hsame

/-! ## Metric queries -/

section Metric

variable {pattern : WindowPattern} {levels : Nat}

/-- A metric query is taken from its opening brace on. -/
theorem metricTail_takes {m : MetricLayout} (h : m.Readable pattern)
    (hdepth : m.body.depth ≤ levels)
    {rest : List Char} (hrest : Follows 0 rest) (start : Nat) :
    metricTail (blockItems levels '\x7d') start m.head.aggregator m.head.window
        (String.ofList m.metric)
        ⟨'\x7b' :: (m.body.text ++ '\x7d' :: (m.tags ++ (m.calls ++ rest))),
          start + utf8Length m.front⟩ =
      .ok (.metric (m.term start), ⟨rest, start + utf8Length m.text⟩) := by
  obtain ⟨middle, hbody, hmiddle⟩ := blockBody_takes h.body hdepth (m.tags ++ (m.calls ++ rest))
    (m.opened start)
  have halpha : ∀ c, isBlank c = true → c.isAlpha = false := by
    intro c hc
    by_contra hletter
    have hkey := isKeyChar_of_isAlpha (by simpa using hletter)
    simp [isKeyChar_eq_false_of_isBlank hc] at hkey
  have hby : comesFirst "by" (skipBlank (m.calls ++ rest)) = false := by
    refine comesFirst_of_stops isAlpha_by (by decide) ?_
    have hcalls := h.calls
    generalize m.functions = functions at hcalls
    generalize m.calls = calls at hcalls
    cases hcalls with
    | none =>
      intro c hc
      have hfollow := hrest c hc
      by_contra hletter
      simp only [mayFollow, Bool.or_eq_true, Bool.and_eq_true, decide_eq_true_eq] at hfollow
      rcases hfollow with ((rfl | rfl) | ⟨-, rfl | rfl⟩) | ⟨-, rfl | rfl⟩ <;>
        exact hletter (by decide)
    | more _ _ =>
      rw [List.cons_append, skipBlank_of_stops (stops_cons.2 (by decide))]
      exact stops_cons.2 (by decide)
  have htags := (groupTags_reads h.tags fun _ => hby).takes
    (fun hread => ⟨_, (groupTags_finds hread).choose_spec.2⟩)
    (m.opened start + utf8Length m.body.text + utf8Length ['\x7d'])
  have hcalls := (functionCalls_reads h.calls (hrest.head?_ne (by decide) (by decide))).takes
    (fun hread => ⟨_, (functionCalls_finds hread).choose_spec.2⟩)
    (m.opened start + utf8Length m.body.text + utf8Length ['\x7d'] + utf8Length m.tags)
  simp only [metricTail, expect_self, bind, Except.bind]
  rw [← MetricLayout.opened, hbody]
  simp only [hmiddle, expect_self, htags, hcalls]
  have hstop : m.opened start + utf8Length m.body.text + utf8Length ['\x7d'] +
      utf8Length m.tags + utf8Length m.calls = start + utf8Length m.text := by
    simp only [MetricLayout.opened, MetricLayout.text, utf8Length_append, utf8Length,
      Nat.add_assoc, Nat.add_zero]
  rw [hstop]
  rfl

/-- What is read from an opening brace on is a block, tags and calls. -/
theorem metricTail_finds {start : Nat} {aggregator window : Option String} {metric : String}
    {c next : Cursor} {x : Expr}
    (h : metricTail (blockItems levels '\x7d') start aggregator window metric c = .ok (x, next)) :
    ∃ (body : BodyLayout) (groupBy : List String) (functions : List FunctionCall)
      (tags calls : List Char), body.Readable ∧ body.depth ≤ levels ∧ TagsSpelled groupBy tags ∧
      CallsSpelled functions calls ∧
      c.Passes ('\x7b' :: (body.text ++ '\x7d' :: (tags ++ calls))) next ∧
      x = .metric ⟨aggregator, window, metric, body.block (c.offset + utf8Length ['\x7b']),
        ⟨c.offset + utf8Length ['\x7b'],
          c.offset + utf8Length ['\x7b'] + utf8Length body.text⟩,
        groupBy, functions, ⟨start, next.offset⟩⟩ := by
  obtain ⟨opened, hopened, h⟩ := bind_eq_ok_iff.1 h
  obtain ⟨⟨block, middle⟩, hblock, h⟩ := bind_eq_ok_iff.1 h
  obtain ⟨closed, hclosed, h⟩ := bind_eq_ok_iff.1 h
  obtain ⟨⟨groupBy, behind⟩, hgroupBy, h⟩ := bind_eq_ok_iff.1 h
  obtain ⟨⟨functions, stop⟩, hfunctions, heq⟩ := bind_eq_ok_iff.1 h
  obtain ⟨rfl, rfl⟩ := Prod.mk.inj (Except.ok.inj heq)
  have hopen := expect_passes hopened
  obtain ⟨body, hbody, hdepth, hpasses, rfl⟩ := blockBody_finds hblock hclosed
  obtain ⟨tags, htags, htagsPasses⟩ := groupTags_finds hgroupBy
  obtain ⟨calls, hcalls, hcallsPasses⟩ := functionCalls_finds hfunctions
  refine ⟨body, groupBy, functions, tags, calls, hbody, hdepth, htags, hcalls, ?_, ?_⟩
  · simpa using hopen.trans (hpasses.trans ((expect_passes hclosed).trans
      (htagsPasses.trans hcallsPasses)))
  · rw [hpasses.offset, hopen.offset]

end Metric

/-! ## Windows -/

section Windows

variable {pattern : WindowPattern}

/-- The first closing parenthesis, with no opening one in front, has a colon behind it. -/
theorem opensWindow_eq (text : List Char) :
    opensWindow text = (decide ((text.dropWhile (· ≠ ')')).tail.head? = some ':') &&
      !(text.takeWhile (· ≠ ')')).contains '(') := by
  induction text with
  | nil => rfl
  | cons c text ih =>
    rw [opensWindow, List.dropWhile_cons, List.takeWhile_cons]
    by_cases hclose : c = ')'
    · simp [hclose]
    · by_cases hopen : c = '('
      · simp [hopen]
      · rw [if_neg hclose, if_neg hopen, ih]
        simp [hclose, Ne.symm hopen]

theorem timeWindow?_cons (text : List Char) (offset : Nat) :
    timeWindow? pattern ⟨'(' :: text, offset⟩ =
      match text.dropWhile (· ≠ ')') with
      | close :: colon :: rest =>
        if colon ≠ ':' || (text.takeWhile (· ≠ ')')).contains '(' then .ok none
        else if pattern.occursIn (trim (text.takeWhile (· ≠ ')'))) then
          .ok (some (String.ofList (trim (text.takeWhile (· ≠ ')'))),
            ⟨rest, offset + utf8Length ('(' :: (text.takeWhile (· ≠ ')') ++ [close, colon]))⟩))
        else
          .error (.malformed (.timeWindow (String.ofList (trim (text.takeWhile (· ≠ ')')))))
            (offset + 1))
      | _ => .ok none :=
  rfl

/-- What is no window is left to be read as arguments. -/
theorem timeWindow?_eq_none_iff {text : List Char} {offset : Nat} :
    timeWindow? pattern ⟨'(' :: text, offset⟩ = .ok none ↔ opensWindow text = false := by
  rw [opensWindow_eq, timeWindow?_cons]
  split
  · next close colon rest hrest =>
    rw [hrest, List.tail_cons, List.head?_cons]
    by_cases hcall : (decide (colon ≠ ':') ||
        (text.takeWhile (· ≠ ')')).contains '(') = true
    · rw [if_pos hcall]
      rw [Bool.or_eq_true, decide_eq_true_eq] at hcall
      rcases hcall with hcolon | hopen
      · simp [hcolon]
      · rw [hopen]
        simp
    · rw [if_neg hcall]
      rw [Bool.or_eq_true, not_or, decide_eq_true_eq, Decidable.not_not,
        Bool.not_eq_true] at hcall
      obtain ⟨rfl, hopen⟩ := hcall
      rw [hopen]
      by_cases hfits : pattern.occursIn (trim (text.takeWhile (· ≠ ')'))) = true
      · rw [if_pos hfits]
        simp
      · rw [if_neg hfits]
        simp
  · next hnone =>
    cases hdrop : text.dropWhile (· ≠ ')') with
    | nil => simp
    | cons close tail =>
      cases tail with
      | nil => simp
      | cons colon rest => exact absurd hdrop (hnone close colon rest)

theorem timeWindow?_takes {window : List Char} (hwindow : ∀ c ∈ window, c ≠ '(' ∧ c ≠ ')')
    (hpattern : pattern.occursIn (trim window) = true) (rest : List Char) (offset : Nat) :
    timeWindow? pattern ⟨'(' :: (window ++ ')' :: ':' :: rest), offset⟩ =
      .ok (some (String.ofList (trim window),
        ⟨rest, offset + utf8Length ('(' :: (window ++ [')', ':']))⟩)) := by
  have hinside : ∀ c ∈ window, (c ≠ ')' : Bool) = true := fun c hc => by
    simpa using (hwindow c hc).2
  have hclose : Stops (fun c => (c ≠ ')' : Bool)) (')' :: ':' :: rest) := stops_cons.2 (by decide)
  have hopen : window.contains '(' = false := by
    rw [← Bool.not_eq_true, List.contains_iff_mem]
    exact fun hmem => (hwindow '(' hmem).1 rfl
  simp only [timeWindow?, List.tail_cons, takeWhile_of_stops hinside hclose,
    dropWhile_of_stops hinside hclose, hopen, hpattern, if_true, ne_eq, not_true_eq_false,
    decide_false, Bool.or_self, Bool.false_eq_true, if_false]
  rfl

theorem timeWindow?_finds {text : List Char} {offset : Nat} {window : String} {next : Cursor}
    (h : timeWindow? pattern ⟨'(' :: text, offset⟩ = .ok (some (window, next))) :
    ∃ inner, (∀ c ∈ inner, c ≠ '(' ∧ c ≠ ')') ∧ window = String.ofList (trim inner) ∧
      pattern.occursIn (trim inner) = true ∧
      (Cursor.mk ('(' :: text) offset).Passes ('(' :: (inner ++ [')', ':'])) next := by
  rw [timeWindow?_cons] at h
  split at h
  · next close colon rest hrest =>
    by_cases hcall : (decide (colon ≠ ':') ||
        (text.takeWhile (· ≠ ')')).contains '(') = true
    · rw [if_pos hcall] at h
      simp at h
    · rw [if_neg hcall] at h
      rw [Bool.or_eq_true, not_or, decide_eq_true_eq, Decidable.not_not,
        List.contains_iff_mem] at hcall
      obtain ⟨rfl, hopen⟩ := hcall
      by_cases hfits : pattern.occursIn (trim (text.takeWhile (· ≠ ')'))) = true
      · rw [if_pos hfits] at h
        simp only [Except.ok.injEq, Option.some.injEq, Prod.mk.injEq] at h
        obtain ⟨rfl, rfl⟩ := h
        have hclose : close = ')' := by
          have hhead := List.head?_dropWhile_not (· ≠ ')') text
          rw [hrest] at hhead
          simpa using hhead
        have hsplit := List.takeWhile_append_dropWhile (p := (· ≠ ')')) (l := text)
        rw [hrest, hclose] at hsplit
        refine ⟨text.takeWhile (· ≠ ')'), fun c hc => ⟨?_, ?_⟩, rfl, hfits, ?_, ?_⟩
        · rintro rfl
          exact hopen hc
        · simpa using List.mem_takeWhile_imp hc
        · rw [List.cons_append, List.append_assoc]
          exact congrArg ('(' :: ·) hsplit.symm
        · rw [hclose]
      · rw [if_neg hfits] at h
        simp at h
  · simp at h

end Windows

/-! ## Terms that start with a word -/

section Words

variable {pattern : WindowPattern} {levels : Nat} {arguments : Reader (List Expr)}
  {inArguments : Bool}

theorem metricName_takes {metric rest : List Char} (hne : metric ≠ [])
    (hchars : ∀ c ∈ metric, isMetricChar c = true) (hrest : Stops isMetricChar rest)
    (start : Nat) :
    metricName ⟨metric ++ rest, start⟩ =
      .ok (String.ofList metric, ⟨rest, start + utf8Length metric⟩) := by
  rw [metricName, Cursor.takeWhile_append start hchars hrest]
  split
  · next hnil => exact absurd (Prod.mk.inj hnil).1 hne
  · next heq =>
    obtain ⟨rfl, rfl⟩ := Prod.mk.inj heq
    rfl

/-- Behind its aggregator a metric query goes on with its name. -/
theorem aggregated_takes (items : Reader (List BlockItem)) {aggregator metric : List Char}
    (hname : isIdentifier aggregator = true) (hne : metric ≠ [])
    (hchars : ∀ c ∈ metric, isMetricChar c = true) (window : Option String) (rest : List Char)
    (start place : Nat) :
    aggregated items start aggregator window ⟨metric ++ '\x7b' :: rest, place⟩ =
      metricTail items start (some (String.ofList aggregator)) window (String.ofList metric)
        ⟨'\x7b' :: rest, place + utf8Length metric⟩ := by
  have hmetric := metricName_takes hne hchars
    (show Stops isMetricChar ('\x7b' :: rest) from stops_cons.2 (by decide)) place
  simp only [aggregated, hname, Bool.not_true, Bool.false_eq_true, if_false, hmetric, bind,
    Except.bind]

/-- What stands in front of an opening brace is taken, whatever follows the brace. -/
theorem wordTerm_takes_front {items : Reader (List BlockItem)} {head : HeadLayout}
    {metric : List Char} (hhead : head.Readable pattern metric) (hne : metric ≠ [])
    (hchars : ∀ c ∈ metric, isMetricChar c = true) (rest : List Char) (start : Nat) :
    wordTerm pattern items arguments inArguments
        ⟨head.text ++ (metric ++ '\x7b' :: rest), start⟩ =
      metricTail items start head.aggregator head.window (String.ofList metric)
        ⟨'\x7b' :: rest, start + utf8Length head.text + utf8Length metric⟩ := by
  have hbrace : Stops isMetricChar ('\x7b' :: rest) := stops_cons.2 (by decide)
  cases head with
  | plain =>
    have htake := Cursor.takeWhile_append start hchars hbrace
    rw [HeadLayout.text, List.nil_append, wordTerm, htake]
    rfl
  | aggregated aggregator =>
    have htake := Cursor.takeWhile_append start (isMetricChar_of_isIdentifier hhead)
      (show Stops isMetricChar (':' :: (metric ++ '\x7b' :: rest)) from stops_cons.2 (by decide))
    have hbehind := aggregated_takes items hhead hne hchars none rest start
      (start + utf8Length aggregator + utf8Length [':'])
    rw [HeadLayout.text, List.append_assoc, List.singleton_append, wordTerm, htake,
      utf8Length_append, ← Nat.add_assoc]
    exact hbehind
  | windowed aggregator window =>
    obtain ⟨hname, hwindow, hpattern⟩ := hhead
    have htake := Cursor.takeWhile_append start (isMetricChar_of_isIdentifier hname)
      (show Stops isMetricChar ('(' :: (window ++ ')' :: ':' :: (metric ++ '\x7b' :: rest)))
        from stops_cons.2 (by decide))
    have hopened := timeWindow?_takes hwindow hpattern (metric ++ '\x7b' :: rest)
      (start + utf8Length aggregator)
    have hbehind := aggregated_takes items hname hne hchars
      (some (String.ofList (trim window))) rest start
      (start + utf8Length aggregator + utf8Length ('(' :: (window ++ [')', ':'])))
    have htext : HeadLayout.text (.windowed aggregator window) ++ (metric ++ '\x7b' :: rest) =
        aggregator ++ '(' :: (window ++ ')' :: ':' :: (metric ++ '\x7b' :: rest)) := by
      simp [HeadLayout.text]
    rw [htext, wordTerm, htake, HeadLayout.text, utf8Length_append, ← Nat.add_assoc]
    simp only [hopened, bind, Except.bind]
    exact hbehind

theorem wordTerm_takes_metric {m : MetricLayout} (h : m.Readable pattern)
    (hdepth : m.body.depth ≤ levels) {rest : List Char} (hrest : Follows 0 rest) (start : Nat) :
    wordTerm pattern (blockItems levels '\x7d') arguments inArguments ⟨m.text ++ rest, start⟩ =
      .ok (.metric (m.term start), ⟨rest, start + utf8Length m.text⟩) := by
  have htext : m.text ++ rest = m.head.text ++ (m.metric ++
      '\x7b' :: (m.body.text ++ '\x7d' :: (m.tags ++ (m.calls ++ rest)))) := by
    simp [MetricLayout.text, MetricLayout.front]
  have htail := metricTail_takes h hdepth hrest start
  rw [MetricLayout.front, utf8Length_append, ← Nat.add_assoc] at htail
  rw [htext, wordTerm_takes_front h.head h.metric_ne h.metricChars, htail]

/-- What is read from an opening brace on completes the metric query. -/
theorem metricTerm_finds (head : HeadLayout) {start c next : Cursor} {metric : List Char}
    {x : Expr} (hhead : head.Readable pattern metric) (hne : metric ≠ [])
    (hchars : ∀ ch ∈ metric, isMetricChar ch = true) (hfront : start.Passes (head.text ++ metric) c)
    (h : metricTail (blockItems levels '\x7d') start.offset head.aggregator head.window
      (String.ofList metric) c = .ok (x, next)) :
    ∃ m : MetricLayout, m.Readable pattern ∧ m.body.depth ≤ levels ∧
      start.Passes m.text next ∧ x = .metric (m.term start.offset) := by
  obtain ⟨body, groupBy, functions, tags, calls, hbody, hdepth, htags, hcalls, hpasses, rfl⟩ :=
    metricTail_finds h
  let m : MetricLayout := ⟨head, metric, body, groupBy, functions, tags, calls⟩
  have hwhole : start.Passes m.text next := hfront.trans hpasses
  refine ⟨m, ⟨hne, hchars, hhead, hbody, htags, hcalls⟩, hdepth, hwhole, ?_⟩
  rw [hfront.offset, hwhole.offset]
  rfl

theorem metricName_finds {c next : Cursor} {metric : String}
    (h : metricName c = .ok (metric, next)) :
    ∃ name, metric = String.ofList name ∧ name ≠ [] ∧ (∀ ch ∈ name, isMetricChar ch = true) ∧
      c.Passes name next := by
  rw [metricName] at h
  generalize htake : c.takeWhile isMetricChar = run at h
  obtain ⟨name, behind⟩ := run
  obtain ⟨hpasses, hchars, -⟩ := Cursor.takeWhile_passes htake
  cases name with
  | nil => simp at h
  | cons ch name =>
    obtain ⟨rfl, rfl⟩ := Prod.mk.inj (Except.ok.inj h)
    exact ⟨_, rfl, by simp, hchars, hpasses⟩

theorem aggregated_finds (head : HeadLayout) {start c next : Cursor} {aggregator : List Char}
    {x : Expr} (hhead : isIdentifier aggregator = true → ∀ metric, head.Readable pattern metric)
    (haggregator : head.aggregator = some (String.ofList aggregator))
    (hfront : start.Passes head.text c)
    (h : aggregated (blockItems levels '\x7d') start.offset aggregator head.window c =
      .ok (x, next)) :
    ∃ m : MetricLayout, m.Readable pattern ∧ m.body.depth ≤ levels ∧
      start.Passes m.text next ∧ x = .metric (m.term start.offset) := by
  rw [aggregated] at h
  split at h
  · simp at h
  · next hname =>
    have hname : isIdentifier aggregator = true := by simpa using hname
    obtain ⟨⟨metric, behind⟩, hmetric, h⟩ := bind_eq_ok_iff.1 h
    obtain ⟨name, rfl, hne, hchars, hpasses⟩ := metricName_finds hmetric
    rw [← haggregator] at h
    exact metricTerm_finds head (hhead hname name) hne hchars (hfront.trans hpasses) h

theorem bareWord_takes {name rest : List Char} (hname : isIdentifier name = true)
    (hrest : Follows 0 rest) (start : Nat) (items : Reader (List BlockItem)) :
    wordTerm pattern items arguments true ⟨name ++ rest, start⟩ =
      .ok (.word (String.ofList name) ⟨start, start + utf8Length name⟩,
        ⟨rest, start + utf8Length name⟩) := by
  have htake := Cursor.takeWhile_append start (isMetricChar_of_isIdentifier hname)
    hrest.stops_isMetricChar
  have hbare : bareWord true start name ⟨rest, start + utf8Length name⟩ =
      .ok (.word (String.ofList name) ⟨start, start + utf8Length name⟩,
        ⟨rest, start + utf8Length name⟩) := by
    simp [bareWord, hname]
  rw [wordTerm, htake]
  cases rest with
  | nil => exact hbare
  | cons c rest =>
    have hne : ∀ d : Char, isBlank d = false → d ∉ [',', ')', '+', '-', '*', '/'] → c ≠ d := by
      rintro d hblank hd rfl
      exact hrest.head?_ne hblank hd rfl
    simp only [if_neg (hne '\x7b' (by decide) (by decide)),
      if_neg (hne ':' (by decide) (by decide)),
      if_neg (hne '(' (by decide) (by decide)), hbare]

theorem bareWord_finds {start c next : Cursor} {name : List Char} {x : Expr}
    (hfront : start.Passes name c) (h : bareWord inArguments start.offset name c = .ok (x, next)) :
    inArguments = true ∧ isIdentifier name = true ∧ start.Passes name next ∧
      x = .word (String.ofList name) ⟨start.offset, start.offset + utf8Length name⟩ := by
  rw [bareWord] at h
  split at h
  · next hword =>
    rw [Bool.and_eq_true] at hword
    obtain ⟨rfl, rfl⟩ := Prod.mk.inj (Except.ok.inj h)
    exact ⟨hword.1, hword.2, hfront, by rw [hfront.offset]⟩
  · exact absurd h (Cursor.expected_ne_ok _ _ _)

end Words

/-! ## Numbers -/

theorem number_takes {text rest : List Char} (hstart : startsNumber text = true)
    (htail : ∀ c ∈ text.tail, (c.isDigit || c = '.') = true) (hrest : Follows 0 rest)
    (start : Nat) :
    number ⟨text ++ rest, start⟩ =
      .ok (.number (String.ofList text) ⟨start, start + utf8Length text⟩,
        ⟨rest, start + utf8Length text⟩) := by
  have hstops : Stops (fun ch => ch.isDigit || decide (ch = '.')) rest := by
    refine hrest.stops (fun c hc => ?_) (by simp)
    have hkey := isKeyChar_eq_false_of_isBlank hc
    by_contra hdigit
    rw [Bool.not_eq_false, Bool.or_eq_true, decide_eq_true_eq] at hdigit
    rcases hdigit with hdigit | rfl
    · simp [isKeyChar, Char.isAlphanum, hdigit] at hkey
    · simp [isBlank, blankRanges] at hc
  cases text with
  | nil => simp [startsNumber] at hstart
  | cons c tail =>
    have htake := Cursor.takeWhile_append (start + utf8Length [c]) htail hstops
    have hlength : start + utf8Length [c] + utf8Length tail = start + utf8Length (c :: tail) := by
      simp [utf8Length, Nat.add_assoc]
    rw [List.tail_cons, hlength] at htake
    simp only [number, List.cons_append, List.take_succ_cons, List.take_zero, List.drop_succ_cons,
      List.drop_zero, Cursor.past, htake]
    rfl

theorem number_finds {c next : Cursor} {x : Expr} (hstart : startsNumber c.rest = true)
    (h : number c = .ok (x, next)) :
    ∃ text, startsNumber text = true ∧ (∀ ch ∈ text.tail, (ch.isDigit || ch = '.') = true) ∧
      c.Passes text next ∧
      x = .number (String.ofList text) ⟨c.offset, c.offset + utf8Length text⟩ := by
  obtain ⟨whole, offset⟩ := c
  cases whole with
  | nil => simp [startsNumber] at hstart
  | cons d tail =>
    rw [number] at h
    simp only [List.take_succ_cons, List.take_zero, List.drop_succ_cons, List.drop_zero] at h
    generalize htake : ((Cursor.mk (d :: tail) offset).past [d] tail).takeWhile
      (fun ch => ch.isDigit || decide (ch = '.')) = run at h
    obtain ⟨digits, behind⟩ := run
    obtain ⟨hpasses, hdigits, hstops⟩ := Cursor.takeWhile_passes htake
    obtain ⟨rfl, rfl⟩ := Prod.mk.inj (Except.ok.inj h)
    have hfirst : (Cursor.mk (d :: tail) offset).Passes [d]
        ((Cursor.mk (d :: tail) offset).past [d] tail) := ⟨rfl, rfl⟩
    have hwhole := hfirst.trans hpasses
    refine ⟨[d] ++ digits, ?_, hdigits, hwhole, by rw [hwhole.offset]⟩
    have hrest : tail = digits ++ behind.rest := hpasses.rest
    rw [List.singleton_append, startsNumber]
    rw [startsNumber, hrest] at hstart
    cases digits with
    | cons e digits => simpa using hstart
    | nil =>
      -- behind the sign there is a digit, and that is taken
      cases hd : d.isDigit with
      | true => rfl
      | false =>
        rw [hd, Bool.false_or, Bool.and_eq_true, List.nil_append] at hstart
        obtain ⟨-, hdigit⟩ := hstart
        cases hbehind : behind.rest with
        | nil => simp [hbehind] at hdigit
        | cons e rest =>
          rw [hbehind] at hstops hdigit
          have he := stops_cons.1 hstops
          have hdigit : e.isDigit = true := by simpa using hdigit
          simp [hdigit] at he

end MetricQuery.Grammar
