import MetricQuery.Proofs.Grammar.TermExact

/-!
# The texts of expressions

A text is read as an expression exactly if it is the text of a readable layout with blanks
around it, and then the expression is that of the layout: `parse_eq_ok_iff`.

`ReadsExprs` and `ReadsArguments` say this of a reader.  Terms have the property if what they
nest has it, a chain of operators if its operands have it, and the induction is on the levels.
-/

namespace MetricQuery.Grammar

open Text

/-- The reader reads the readable expressions of at most this rank with so many levels.  The
blanks behind them may be left or not. -/
structure ReadsExprs (pattern : WindowPattern) (inArguments : Bool) (levels rank : Nat)
    (reader : Reader Expr) : Prop where
  takes : ∀ {e : ExprLayout} {gap rest : List Char}, e.Readable pattern inArguments →
    e.rank ≤ rank → e.depth ≤ levels → Blanks gap → Follows rank rest → ∀ start,
      ∃ c, reader ⟨gap ++ (e.text ++ rest), start⟩ = .ok (e.expr (start + utf8Length gap), c) ∧
        c.skipBlank =
          (Cursor.mk rest (start + utf8Length gap + utf8Length e.text)).skipBlank
  finds : ∀ {c next : Cursor} {x : Expr}, reader c = .ok (x, next) →
    ∃ (gap : List Char) (e : ExprLayout) (stop : Cursor), Blanks gap ∧
      e.Readable pattern inArguments ∧ e.rank ≤ rank ∧ e.depth ≤ levels ∧
      c.Passes (gap ++ e.text) stop ∧ next.skipBlank = stop.skipBlank ∧
      x = e.expr (c.offset + utf8Length gap)

/-- The reader reads the readable arguments with so many levels. -/
structure ReadsArguments (pattern : WindowPattern) (levels : Nat) (reader : Reader (List Expr)) :
    Prop where
  takes : ∀ {arguments : ArgumentsLayout}, arguments.Readable pattern →
    arguments.depth ≤ levels → ∀ rest start, reader ⟨arguments.text ++ rest, start⟩ =
      .ok (arguments.exprs start, ⟨rest, start + utf8Length arguments.text⟩)
  finds : ∀ {c next : Cursor} {xs : List Expr}, reader c = .ok (xs, next) →
    ∃ arguments : ArgumentsLayout, arguments.Readable pattern ∧ arguments.depth ≤ levels ∧
      c.Passes arguments.text next ∧ xs = arguments.exprs c.offset

/-- A readable term with at most so many levels stands between two places, and `x` is its
expression. -/
def FindsTerm (pattern : WindowPattern) (inArguments : Bool) (levels : Nat) (c next : Cursor)
    (x : Expr) : Prop :=
  ∃ e : ExprLayout, e.Readable pattern inArguments ∧ e.rank = 0 ∧ e.depth ≤ levels ∧
    c.Passes e.text next ∧ x = e.expr c.offset

/-- Behind a gap stands a readable expression of at most this rank with so many levels, and `x` is
its expression.  The blanks behind it may be left or not. -/
def FindsBehind (pattern : WindowPattern) (inArguments : Bool) (levels rank : Nat)
    (gap : List Char) (c next : Cursor) (x : Expr) : Prop :=
  ∃ (e : ExprLayout) (stop : Cursor), e.Readable pattern inArguments ∧ e.rank ≤ rank ∧
    e.depth ≤ levels ∧ c.Passes (gap ++ e.text) stop ∧ next.skipBlank = stop.skipBlank ∧
    x = e.expr (c.offset + utf8Length gap)

/-- A term that stands behind blanks. -/
theorem FindsTerm.behind {pattern : WindowPattern} {inArguments : Bool} {levels : Nat}
    {gap : List Char} {c middle next : Cursor} {x : Expr} (hgap : c.Passes gap middle)
    (h : FindsTerm pattern inArguments levels middle next x) :
    FindsBehind pattern inArguments levels 0 gap c next x := by
  obtain ⟨e, he, hrank, hdepth, hpasses, rfl⟩ := h
  exact ⟨e, next, he, Nat.le_of_eq hrank, hdepth, hgap.trans hpasses, rfl, by rw [hgap.offset]⟩

section Readers

variable {pattern : WindowPattern} {inArguments : Bool} {levels : Nat}

/-! ## Terms -/

section Terms

variable {items : Reader (List BlockItem)} {inner : Reader Expr}
  {arguments : Reader (List Expr)}

/-- Blanks in front make no difference to a term. -/
theorem term_of_skipBlank {a b : Cursor} (h : a.skipBlank = b.skipBlank) :
    term pattern items inner arguments inArguments a =
      term pattern items inner arguments inArguments b := by
  simp only [term, h]

theorem term_of_isWordStart {name tail : List Char} {start : Nat}
    (hname : name.head?.any isWordStart = true) :
    term pattern items inner arguments inArguments ⟨name ++ tail, start⟩ =
      wordTerm pattern items arguments inArguments ⟨name ++ tail, start⟩ := by
  cases name with
  | nil => simp at hname
  | cons c name =>
    have hc : isWordStart c = true := by simpa using hname
    obtain ⟨hblank, hparen, hquote, hdigit, hminus⟩ := facts_of_isWordStart hc
    have hskip : (Cursor.mk (c :: (name ++ tail)) start).skipBlank =
        ⟨c :: (name ++ tail), start⟩ := Cursor.skipBlank_of_stops start (stops_cons.2 hblank)
    simp only [term, hskip, List.cons_append, hparen, if_false, hquote, Bool.false_eq_true,
      startsNumber, hdigit, hminus, decide_false, Bool.false_and, Bool.or_self, hc, if_true]

theorem term_of_startsNumber {text : List Char} {start : Nat} (h : startsNumber text = true) :
    term pattern items inner arguments inArguments ⟨text, start⟩ = number ⟨text, start⟩ := by
  cases text with
  | nil => simp [startsNumber] at h
  | cons c tail =>
    have hc : c.isDigit = true ∨ c = '-' := by
      rw [startsNumber, Bool.or_eq_true, Bool.and_eq_true, decide_eq_true_eq] at h
      exact h.imp_right And.left
    have hkey : isKeyChar c = true := by
      rcases hc with hdigit | rfl
      · simp [isKeyChar, Char.isAlphanum, hdigit]
      · decide
    have hparen : c ≠ '(' := by rintro rfl; simp [isKeyChar] at hkey
    have hquote : isQuote c = false := by
      by_contra hquote
      rw [Bool.not_eq_false, isQuote, Bool.or_eq_true, decide_eq_true_eq,
        decide_eq_true_eq] at hquote
      rcases hquote with rfl | rfl <;> simp [isKeyChar] at hkey
    have hskip : (Cursor.mk (c :: tail) start).skipBlank = ⟨c :: tail, start⟩ :=
      Cursor.skipBlank_of_stops start (stops_cons.2 (isBlank_eq_false_of_isKeyChar hkey))
    simp only [term, hskip, hparen, if_false, hquote, Bool.false_eq_true, h, if_true]

theorem literal_takes {lit : List Char} (h : isLiteral lit = true) (rest : List Char)
    (start : Nat) :
    term pattern items inner arguments inArguments ⟨lit ++ rest, start⟩ =
      .ok (.literal (String.ofList lit) ⟨start, start + utf8Length lit⟩,
        ⟨rest, start + utf8Length lit⟩) := by
  have hhead := (isQuote_ends_of_isLiteral h).1
  have hread := quoted_append rest start h
  cases lit with
  | nil => simp at hhead
  | cons c tail =>
    have hquote : isQuote c = true := by simpa using hhead
    have hparen : c ≠ '(' := by rintro rfl; simp [isQuote] at hquote
    have hskip : (Cursor.mk (c :: (tail ++ rest)) start).skipBlank =
        ⟨c :: (tail ++ rest), start⟩ :=
      Cursor.skipBlank_of_stops start (stops_cons.2 (isBlank_eq_false_of_isQuote hquote))
    rw [List.cons_append] at hread
    simp only [term, List.cons_append, hskip, if_neg hparen, if_pos hquote, hread, bind,
      Except.bind]
    rfl

theorem call_takes (harguments : ReadsArguments pattern levels arguments) {name : List Char}
    {layout : ArgumentsLayout} (hname : isIdentifier name = true)
    (h : layout.Readable pattern) (hdepth : layout.depth ≤ levels)
    (hopens : opensWindow layout.text = false) {rest : List Char} (hrest : Follows 0 rest)
    (start : Nat) :
    wordTerm pattern items arguments inArguments ⟨name ++ ('(' :: layout.text ++ rest), start⟩ =
      .ok (ExprLayout.expr (.call name layout) start,
        ⟨rest, start + utf8Length (ExprLayout.text (.call name layout))⟩) := by
  have htake := Cursor.takeWhile_append start (isMetricChar_of_isIdentifier hname)
    (show Stops isMetricChar ('(' :: layout.text ++ rest) from stops_cons.2 (by decide))
  have hcall : timeWindow? pattern
      ⟨'(' :: (layout.text ++ rest), start + utf8Length name⟩ = .ok none := by
    rw [timeWindow?_eq_none_iff, opensWindow_append_of_ne layout.close_mem_text
      (hrest.head?_ne (by decide) (by decide))]
    exact hopens
  have hread := harguments.takes h hdepth rest (start + utf8Length name + utf8Length ['('])
  have hstop : start + utf8Length name + utf8Length ['('] + utf8Length layout.text =
      start + utf8Length (ExprLayout.text (.call name layout)) := by
    simp [ExprLayout.text, utf8Length, Nat.add_assoc]
  rw [wordTerm, htake]
  simp only [List.cons_append, hcall, bind, Except.bind, callTail, hname, Bool.not_true,
    Bool.false_eq_true, if_false, expect_self, hread, ← hstop]
  rfl

theorem paren_takes (hinner : ReadsExprs pattern inArguments levels 2 inner)
    {gap space : List Char} {e : ExprLayout} (hgap : Blanks gap)
    (h : e.Readable pattern inArguments) (hdepth : e.depth ≤ levels) (hspace : Blanks space)
    (rest : List Char) (start : Nat) :
    term pattern items inner arguments inArguments
        ⟨ExprLayout.text (.paren gap e space) ++ rest, start⟩ =
      .ok (ExprLayout.expr (.paren gap e space) start,
        ⟨rest, start + utf8Length (ExprLayout.text (.paren gap e space))⟩) := by
  have hfollows : Follows 2 (space ++ ')' :: rest) := follows_append hspace (by decide)
  obtain ⟨c, hread, hskip⟩ := hinner.takes h e.rank_le hdepth hgap hfollows
    (start + utf8Length ['('])
  have hclose : (Cursor.mk (space ++ ')' :: rest)
      (start + utf8Length ['('] + utf8Length gap + utf8Length e.text)).skipBlank =
      ⟨')' :: rest,
        start + utf8Length ['('] + utf8Length gap + utf8Length e.text + utf8Length space⟩ :=
    Cursor.skipBlank_append _ hspace (stops_cons.2 (by decide))
  have hopen : (Cursor.mk ('(' :: (gap ++ (e.text ++ (space ++ ')' :: rest)))) start).skipBlank =
      ⟨'(' :: (gap ++ (e.text ++ (space ++ ')' :: rest))), start⟩ :=
    Cursor.skipBlank_of_stops start (stops_cons.2 (by decide))
  have hstop : start + utf8Length ['('] + utf8Length gap + utf8Length e.text +
      utf8Length space + utf8Length [')'] =
        start + utf8Length (ExprLayout.text (.paren gap e space)) := by
    simp [ExprLayout.text, utf8Length, Nat.add_assoc]
  rw [hclose] at hskip
  simp only [ExprLayout.text, List.cons_append, List.append_assoc, List.nil_append] at hstop ⊢
  simp only [term, hopen, if_true, parenthesised, expect_self, hread, hskip, bind, Except.bind,
    hstop]
  simp only [ExprLayout.expr, hstop]
  rfl

theorem paren_finds (hinner : ReadsExprs pattern inArguments levels 2 inner) {c next : Cursor}
    {x : Expr} (h : parenthesised inner c = .ok (x, next)) :
    FindsTerm pattern inArguments (levels + 1) c next x := by
  obtain ⟨inside, hinside, h⟩ := bind_eq_ok_iff.1 h
  obtain ⟨⟨y, behind⟩, hread, h⟩ := bind_eq_ok_iff.1 h
  obtain ⟨closed, hclosed, heq⟩ := bind_eq_ok_iff.1 h
  obtain ⟨rfl, rfl⟩ := Prod.mk.inj (Except.ok.inj heq)
  obtain ⟨gap, e, stop, hgap, he, -, hdepth, hpasses, hskip, rfl⟩ := hinner.finds hread
  obtain ⟨space, hspace, hspacePasses, -⟩ := stop.skipBlank_passes
  have hopen := expect_passes hinside
  rw [hskip] at hclosed
  have hwhole : c.Passes (ExprLayout.text (.paren gap e space)) closed := by
    simpa [ExprLayout.text] using
      hopen.trans (hpasses.trans (hspacePasses.trans (expect_passes hclosed)))
  refine ⟨.paren gap e space, ⟨hgap, he, hspace⟩, rfl, Nat.succ_le_succ hdepth, hwhole, ?_⟩
  have hstop : closed.offset = c.offset + utf8Length ['('] + utf8Length gap + utf8Length e.text +
      utf8Length space + utf8Length [')'] := by
    simp [hwhole.offset, ExprLayout.text, utf8Length, Nat.add_assoc]
  simp only [ExprLayout.expr, hopen.offset, hstop]

/-- What is read behind the name of a call is a list of arguments that does not open a window. -/
theorem callTail_finds (harguments : ReadsArguments pattern levels arguments)
    {start c next : Cursor} {name tail : List Char} {x : Expr} (hfront : start.Passes name c)
    (hrest : c.rest = '(' :: tail)
    (hopens : opensWindow tail = false)
    (h : callTail arguments start.offset name c = .ok (x, next)) :
    FindsTerm pattern inArguments (levels + 1) start next x := by
  rw [callTail] at h
  split at h
  · simp at h
  · next hname =>
    have hname : isIdentifier name = true := by simpa using hname
    obtain ⟨inside, hinside, h⟩ := bind_eq_ok_iff.1 h
    obtain ⟨⟨args, stop⟩, hargs, heq⟩ := bind_eq_ok_iff.1 h
    obtain ⟨rfl, rfl⟩ := Prod.mk.inj (Except.ok.inj heq)
    have hopen := expect_passes hinside
    obtain ⟨layout, hlayout, hdepth, hpasses, rfl⟩ := harguments.finds hargs
    have hinsideRest : inside.rest = tail :=
      (List.cons.inj (hopen.rest.symm.trans hrest)).2
    rw [← hinsideRest, hpasses.rest] at hopens
    have hcall : opensWindow layout.text = false := by
      by_contra hwindow
      rw [opensWindow_append _ (by simpa using hwindow)] at hopens
      simp at hopens
    refine ⟨.call name layout, ⟨hname, hlayout, hcall⟩, rfl, Nat.succ_le_succ hdepth,
      hfront.trans (hopen.trans hpasses), ?_⟩
    have hplace : inside.offset = start.offset + utf8Length name + utf8Length ['('] := by
      rw [hopen.offset, hfront.offset]
    rw [hpasses.offset, hplace]
    rfl

/-- The run of characters that a word term starts with is not empty and starts a word. -/
theorem head?_of_takeWhile_isMetricChar {c behind : Cursor} {word : List Char}
    (hstart : c.rest.head?.any isWordStart = true)
    (htake : c.takeWhile isMetricChar = (word, behind)) :
    word ≠ [] ∧ word.head?.any isWordStart = true := by
  obtain ⟨hpasses, -, hstops⟩ := Cursor.takeWhile_passes htake
  rw [hpasses.rest] at hstart
  cases word with
  | cons d word => exact ⟨List.cons_ne_nil d word, by simpa using hstart⟩
  | nil =>
    cases hrest : behind.rest with
    | nil => simp [hrest] at hstart
    | cons d rest =>
      rw [hrest] at hstart hstops
      have hmetric := isMetricChar_of_isWordStart (c := d) (by simpa using hstart)
      simp [stops_cons.1 hstops] at hmetric

/-- A metric query is a term. -/
theorem findsTerm_of_metric {c next : Cursor} {x : Expr}
    (h : ∃ m : MetricLayout, m.Readable pattern ∧ m.body.depth ≤ levels ∧ c.Passes m.text next ∧
      x = .metric (m.term c.offset)) :
    FindsTerm pattern inArguments (levels + 1) c next x := by
  obtain ⟨m, hm, hdepth, hpasses, rfl⟩ := h
  exact ⟨.metric m, hm, rfl, Nat.succ_le_succ hdepth, hpasses, rfl⟩

/-- A term that starts with a word is a metric query, a call or that word. -/
theorem wordTerm_finds (harguments : ReadsArguments pattern levels arguments) {c next : Cursor}
    {x : Expr} (hstart : c.rest.head?.any isWordStart = true)
    (h : wordTerm pattern (blockItems levels '\x7d') arguments inArguments c = .ok (x, next)) :
    FindsTerm pattern inArguments (levels + 1) c next x := by
  rw [wordTerm] at h
  generalize htake : c.takeWhile isMetricChar = run at h
  obtain ⟨word, behind⟩ := run
  obtain ⟨hpasses, hchars, -⟩ := Cursor.takeWhile_passes htake
  obtain ⟨hne, hword⟩ := head?_of_takeWhile_isMetricChar hstart htake
  have hbare : bareWord inArguments c.offset word behind = .ok (x, next) →
      FindsTerm pattern inArguments (levels + 1) c next x := by
    intro hread
    obtain ⟨hinside, hname, hwhole, rfl⟩ := bareWord_finds hpasses hread
    exact ⟨.word word, ⟨hinside, hname⟩, rfl, Nat.succ_le_succ (Nat.zero_le levels), hwhole, rfl⟩
  obtain ⟨text, offset⟩ := behind
  cases text with
  | nil => exact hbare h
  | cons ch rest =>
    dsimp only at h
    split at h
    · exact findsTerm_of_metric (metricTerm_finds .plain hword hne hchars hpasses h)
    · split at h
      · next hcolon =>
        rw [hcolon] at h hpasses
        have hbehind : (Cursor.mk (':' :: rest) offset).Passes [':']
            ((Cursor.mk (':' :: rest) offset).past [':'] rest) := ⟨rfl, rfl⟩
        exact findsTerm_of_metric (aggregated_finds (.aggregated word) (fun hname _ => hname) rfl
          (hpasses.trans hbehind) h)
      · split at h
        · next hparen =>
          rw [hparen] at h hpasses
          obtain ⟨window?, hopened, h⟩ := bind_eq_ok_iff.1 h
          cases window? with
          | none =>
            exact callTail_finds harguments hpasses rfl (timeWindow?_eq_none_iff.1 hopened) h
          | some opened =>
            obtain ⟨window, inside⟩ := opened
            obtain ⟨inner, hinner, rfl, hpattern, hwindowPasses⟩ := timeWindow?_finds hopened
            exact findsTerm_of_metric (aggregated_finds (.windowed word inner)
              (fun hname _ => ⟨hname, hinner, hpattern⟩) rfl (hpasses.trans hwindowPasses) h)
        · exact hbare h

/-- The start of a number is one whatever follows. -/
theorem startsNumber_append {text : List Char} (h : startsNumber text = true) (rest : List Char) :
    startsNumber (text ++ rest) = true := by
  cases text with
  | nil => simp [startsNumber] at h
  | cons c tail =>
    cases tail with
    | nil =>
      rw [startsNumber, Bool.or_eq_true] at h
      simp [startsNumber, h.resolve_right (by simp)]
    | cons d tail => simpa [startsNumber] using h

/-- The text of a readable term is taken for it, whatever may follow. -/
theorem term_takes (hinner : ReadsExprs pattern inArguments levels 2 inner)
    (harguments : ReadsArguments pattern levels arguments) {e : ExprLayout} {rest : List Char}
    (h : e.Readable pattern inArguments) (hrank : e.rank ≤ 0) (hdepth : e.depth ≤ levels + 1)
    (hrest : Follows 0 rest) (start : Nat) :
    term pattern (blockItems levels '\x7d') inner arguments inArguments ⟨e.text ++ rest, start⟩ =
      .ok (e.expr start, ⟨rest, start + utf8Length e.text⟩) := by
  cases e with
  | number text =>
    obtain ⟨hstart, htail⟩ := h
    rw [ExprLayout.text, term_of_startsNumber (startsNumber_append hstart rest),
      number_takes hstart htail hrest]
    rfl
  | literal text => exact literal_takes h rest start
  | word name =>
    obtain ⟨rfl, hname⟩ := h
    rw [ExprLayout.text, term_of_isWordStart (head?_isWordStart_of_isIdentifier hname),
      bareWord_takes hname hrest]
    rfl
  | metric m =>
    have hm : m.Readable pattern := h
    rw [ExprLayout.text, term_of_isWordStart hm.text_start, wordTerm_takes_metric hm
      (Nat.le_of_succ_le_succ hdepth) hrest]
    rfl
  | call name layout =>
    obtain ⟨hname, hlayout, hopens⟩ := h
    rw [ExprLayout.text, List.append_assoc,
      term_of_isWordStart (head?_isWordStart_of_isIdentifier hname)]
    exact call_takes harguments hname hlayout (Nat.le_of_succ_le_succ hdepth) hopens hrest start
  | paren space e behind =>
    obtain ⟨hspace, he, hbehind⟩ := h
    exact paren_takes hinner hspace he (Nat.le_of_succ_le_succ hdepth) hbehind rest start
  | binary operator left gap space right =>
    cases operator <;> simp [ExprLayout.rank, Operator.rank] at hrank

/-- What is read as a term is a readable one behind the blanks. -/
theorem term_finds (hinner : ReadsExprs pattern inArguments levels 2 inner)
    (harguments : ReadsArguments pattern levels arguments) {c next : Cursor} {x : Expr}
    (h : term pattern (blockItems levels '\x7d') inner arguments inArguments c = .ok (x, next)) :
    FindsTerm pattern inArguments (levels + 1) c.skipBlank next x := by
  rw [term] at h
  dsimp only at h
  split at h
  · exact absurd h (Cursor.expected_ne_ok _ _ _)
  · next ch rest hrest =>
    split at h
    · exact paren_finds hinner h
    · split at h
      · obtain ⟨⟨lit, behind⟩, hquoted, heq⟩ := bind_eq_ok_iff.1 h
        obtain ⟨rfl, rfl⟩ := Prod.mk.inj (Except.ok.inj heq)
        obtain ⟨hpasses, hlit⟩ := quoted_finds hquoted
        exact ⟨.literal lit, hlit, rfl, Nat.succ_le_succ (Nat.zero_le levels), hpasses,
          by rw [hpasses.offset]; rfl⟩
      · split at h
        · next hnumber =>
          obtain ⟨text, hstart, htail, hpasses, rfl⟩ := number_finds hnumber h
          exact ⟨.number text, ⟨hstart, htail⟩, rfl, Nat.succ_le_succ (Nat.zero_le levels),
            hpasses, rfl⟩
        · split at h
          · next hword => exact wordTerm_finds harguments (by rw [hrest]; simpa using hword) h
          · exact absurd h (Cursor.expected_ne_ok _ _ _)

/-- The terms are those of readable layouts. -/
theorem readsExprs_term (hinner : ReadsExprs pattern inArguments levels 2 inner)
    (harguments : ReadsArguments pattern levels arguments) :
    ReadsExprs pattern inArguments (levels + 1) 0
      (term pattern (blockItems levels '\x7d') inner arguments inArguments) := by
  constructor
  · intro e gap rest h hrank hdepth hgap hrest start
    refine ⟨⟨rest, start + utf8Length gap + utf8Length e.text⟩, ?_, rfl⟩
    rw [term_of_skipBlank (Cursor.skipBlank_gap hgap (e.text ++ rest) start)]
    exact term_takes hinner harguments h hrank hdepth hrest (start + utf8Length gap)
  · intro c next x h
    obtain ⟨gap, hgap, hgapPasses, -⟩ := c.skipBlank_passes
    obtain ⟨e, stop, hfound⟩ := (term_finds hinner harguments h).behind hgapPasses
    exact ⟨gap, e, stop, hgap, hfound⟩

end Terms

/-! ## Operators -/

section Chains

variable {operand : Reader Expr} {operator? : Char → Option Operator} {rank : Nat}

/-- The characters of the operators of a rank. -/
structure Joins (operator? : Char → Option Operator) (rank : Nat) : Prop where
  symbol : ∀ {operator : Operator}, operator.rank = rank →
    operator? operator.symbol = some operator
  found : ∀ {c : Char} {operator : Operator}, operator? c = some operator →
    c = operator.symbol ∧ operator.rank = rank
  none : ∀ {c : Char}, mayFollow rank c = true → operator? c = none

theorem joins_multiplicative : Joins Operator.multiplicative? 1 where
  symbol {operator} h := by cases operator <;> simp [Operator.rank] at h <;> rfl
  found {c operator} h := by
    rw [Operator.multiplicative?] at h
    split at h
    · next hc => cases h; exact ⟨hc, rfl⟩
    · split at h
      · next hc => cases h; exact ⟨hc, rfl⟩
      · simp at h
  none {c} h := by
    simp only [mayFollow, Nat.lt_irrefl, decide_false, Bool.false_and, Bool.or_false,
      Bool.or_eq_true, Bool.and_eq_true, decide_eq_true_eq] at h
    rcases h with (rfl | rfl) | ⟨-, rfl | rfl⟩ <;> rfl

theorem joins_additive : Joins Operator.additive? 2 where
  symbol {operator} h := by cases operator <;> simp [Operator.rank] at h <;> rfl
  found {c operator} h := by
    rw [Operator.additive?] at h
    split at h
    · next hc => cases h; exact ⟨hc, rfl⟩
    · split at h
      · next hc => cases h; exact ⟨hc, rfl⟩
      · simp at h
  none {c} h := by
    simp [mayFollow] at h
    rcases h with rfl | rfl <;> rfl

/-- An operator may follow what it joins. -/
theorem mayFollow_symbol {operator : Operator} {rank : Nat} (h : rank < operator.rank) :
    mayFollow rank operator.symbol = true := by
  cases operator <;> simp [Operator.rank, Operator.symbol, mayFollow] at h ⊢ <;> omega

theorem isBlank_symbol (operator : Operator) : isBlank operator.symbol = false := by
  cases operator <;> decide

/-- No further operand is read in front of what may follow. -/
theorem chainFrom_done (hjoins : Joins operator? rank) {c : Cursor}
    (hrest : Follows rank c.rest) (left : Expr) (rounds : Nat) :
    chainFrom operand operator? rounds left c = .ok (left, c.skipBlank) := by
  cases rounds with
  | zero => rfl
  | succ rounds =>
    rw [chainFrom]
    have hskip : c.skipBlank.rest = skipBlank c.rest := rfl
    rw [hskip]
    cases hbehind : skipBlank c.rest with
    | nil => rfl
    | cons d rest =>
      have hnone := hjoins.none (hrest d (by simp [hbehind]))
      simp only [hnone]

/-- The chain has read the expression and goes on behind it, with enough rounds left for all
that follows. -/
def JoinsUpTo (operand : Reader Expr) (operator? : Char → Option Operator) (e : ExprLayout)
    (gap rest : List Char) (start : Nat) : Prop :=
  ∃ c rounds, (skipBlank rest).length ≤ rounds ∧
    c.skipBlank = (Cursor.mk rest (start + utf8Length gap + utf8Length e.text)).skipBlank ∧
    chain operand operator? ⟨gap ++ (e.text ++ rest), start⟩ =
      chainFrom operand operator? rounds (e.expr (start + utf8Length gap)) c

theorem joinsUpTo_operand (hoperand : ReadsExprs pattern inArguments levels rank operand)
    {e : ExprLayout} {gap rest : List Char} (h : e.Readable pattern inArguments)
    (hrank : e.rank ≤ rank) (hdepth : e.depth ≤ levels) (hgap : Blanks gap)
    (hrest : Follows rank rest) (start : Nat) :
    JoinsUpTo operand operator? e gap rest start := by
  obtain ⟨c, hread, hskip⟩ := hoperand.takes h hrank hdepth hgap hrest start
  refine ⟨c, c.rest.length, ?_, hskip, ?_⟩
  · have hbehind : skipBlank c.rest = skipBlank rest := congrArg Cursor.rest hskip
    rw [← hbehind]
    exact (List.dropWhile_suffix isBlank).length_le
  · simp only [chain, hread, bind, Except.bind]

/-- The operands are joined to the left, one after another. -/
theorem joinsUpTo (hoperand : ReadsExprs pattern inArguments levels rank operand)
    (hjoins : Joins operator? (rank + 1)) : ∀ {e : ExprLayout} {gap rest : List Char},
      e.Readable pattern inArguments → e.rank ≤ rank + 1 → e.depth ≤ levels → Blanks gap →
      Follows rank rest → ∀ start, JoinsUpTo operand operator? e gap rest start
  | .number _, _, _, h, _, hdepth, hgap, hrest, start =>
    joinsUpTo_operand hoperand h (Nat.zero_le _) hdepth hgap hrest start
  | .literal _, _, _, h, _, hdepth, hgap, hrest, start =>
    joinsUpTo_operand hoperand h (Nat.zero_le _) hdepth hgap hrest start
  | .word _, _, _, h, _, hdepth, hgap, hrest, start =>
    joinsUpTo_operand hoperand h (Nat.zero_le _) hdepth hgap hrest start
  | .metric _, _, _, h, _, hdepth, hgap, hrest, start =>
    joinsUpTo_operand hoperand h (Nat.zero_le _) hdepth hgap hrest start
  | .call _ _, _, _, h, _, hdepth, hgap, hrest, start =>
    joinsUpTo_operand hoperand h (Nat.zero_le _) hdepth hgap hrest start
  | .paren _ _ _, _, _, h, _, hdepth, hgap, hrest, start =>
    joinsUpTo_operand hoperand h (Nat.zero_le _) hdepth hgap hrest start
  | .binary operator left behind space right, gap, rest, h, hrank, hdepth, hgap, hrest, start => by
    rcases Nat.lt_or_ge rank operator.rank with hhigh | hlow
    swap
    · exact joinsUpTo_operand hoperand h hlow hdepth hgap hrest start
    have heq : operator.rank = rank + 1 := Nat.le_antisymm hrank hhigh
    obtain ⟨hleft, hleftRank, hbehind, hspace, hright, hrightRank⟩ := h
    rw [ExprLayout.depth, Nat.max_le] at hdepth
    have hfollows : Follows rank (behind ++ operator.symbol :: (space ++ (right.text ++ rest))) :=
      follows_append hbehind (mayFollow_symbol hhigh)
    obtain ⟨c, rounds, hrounds, hskip, hread⟩ := joinsUpTo hoperand hjoins hleft
      (hleftRank.trans hrank) hdepth.1 hgap hfollows start
    have hstops : Stops isBlank (operator.symbol :: (space ++ (right.text ++ rest))) :=
      stops_cons.2 (isBlank_symbol operator)
    rw [Cursor.skipBlank_append _ hbehind hstops] at hskip
    have hlong : (skipBlank rest).length ≤ rest.length :=
      (List.dropWhile_suffix isBlank).length_le
    have hskipped : skipBlank (behind ++ operator.symbol :: (space ++ (right.text ++ rest))) =
        operator.symbol :: (space ++ (right.text ++ rest)) :=
      dropWhile_of_stops hbehind hstops
    simp only [hskipped, List.length_cons, List.length_append] at hrounds
    obtain ⟨rounds, rfl⟩ : ∃ n, rounds = n + 1 := ⟨rounds - 1, by omega⟩
    obtain ⟨next, hnext, hnextSkip⟩ := hoperand.takes hright
      (Nat.le_of_lt_succ (hrightRank.trans_eq heq)) hdepth.2 hspace hrest
      (start + utf8Length gap + utf8Length left.text + utf8Length behind +
        utf8Length [operator.symbol])
    refine ⟨next, rounds, by omega, ?_, ?_⟩
    · rw [hnextSkip]
      simp only [ExprLayout.text, utf8Length_append, utf8Length, Nat.add_assoc, Nat.add_zero]
    · rw [ExprLayout.text, List.append_assoc, List.append_assoc, List.cons_append,
        List.append_assoc, hread, chainFrom, hskip]
      simp only [hjoins.symbol heq, Cursor.past, hnext, bind, Except.bind]
      rfl

/-- An expression with no operator behind it has been read to its end. -/
theorem findsBehind_of_done {start c stop : Cursor} {gap : List Char} {left : ExprLayout}
    (hleft : left.Readable pattern inArguments) (hrank : left.rank ≤ rank)
    (hdepth : left.depth ≤ levels) (hpasses : start.Passes (gap ++ left.text) stop)
    (hskip : c.skipBlank = stop.skipBlank) :
    FindsBehind pattern inArguments levels rank gap start c.skipBlank
      (left.expr (start.offset + utf8Length gap)) := by
  obtain ⟨space, -, -, hstops⟩ := c.skipBlank_passes
  have htwice : c.skipBlank.skipBlank = c.skipBlank := Cursor.skipBlank_of_stops _ hstops
  exact ⟨left, stop, hleft, hrank, hdepth, hpasses, htwice.trans hskip, rfl⟩

/-- What is joined to the left comes from layouts. -/
theorem chainFrom_finds (hoperand : ReadsExprs pattern inArguments levels rank operand)
    (hjoins : Joins operator? (rank + 1)) (rounds : Nat) :
    ∀ {start c stop next : Cursor} {gap : List Char} {left : ExprLayout} {x : Expr},
      Blanks gap → left.Readable pattern inArguments → left.rank ≤ rank + 1 →
      left.depth ≤ levels → start.Passes (gap ++ left.text) stop →
      c.skipBlank = stop.skipBlank →
      chainFrom operand operator? rounds (left.expr (start.offset + utf8Length gap)) c =
        .ok (x, next) →
      FindsBehind pattern inArguments levels (rank + 1) gap start next x := by
  induction rounds with
  | zero =>
    intro start c stop next gap left x _ hleft hrank hdepth hpasses hskip h
    obtain ⟨rfl, rfl⟩ := Prod.mk.inj (Except.ok.inj h)
    exact findsBehind_of_done hleft hrank hdepth hpasses hskip
  | succ rounds ih =>
    intro start c stop next gap left x hgap hleft hrank hdepth hpasses hskip h
    rw [chainFrom] at h
    dsimp only at h
    split at h
    · obtain ⟨rfl, rfl⟩ := Prod.mk.inj (Except.ok.inj h)
      exact findsBehind_of_done hleft hrank hdepth hpasses hskip
    · next ch rest hrest =>
      split at h
      · obtain ⟨rfl, rfl⟩ := Prod.mk.inj (Except.ok.inj h)
        exact findsBehind_of_done hleft hrank hdepth hpasses hskip
      · next operator hoperator =>
        obtain ⟨rfl, hoperatorRank⟩ := hjoins.found hoperator
        obtain ⟨⟨y, behind⟩, hread, h⟩ := bind_eq_ok_iff.1 h
        obtain ⟨space, right, stop', hspace, hright, hrightRank, hrightDepth, hrightPasses,
          hbehindSkip, rfl⟩ := hoperand.finds hread
        obtain ⟨between, hbetween, hbetweenPasses, -⟩ := stop.skipBlank_passes
        rw [← hskip] at hbetweenPasses
        have hsymbol : c.skipBlank.Passes [operator.symbol]
            (c.skipBlank.past [operator.symbol] rest) := ⟨hrest, rfl⟩
        have hwhole := hpasses.trans (hbetweenPasses.trans (hsymbol.trans hrightPasses))
        let e : ExprLayout := .binary operator left between space right
        have htext : gap ++ left.text ++ (between ++ ([operator.symbol] ++ (space ++ right.text)))
            = gap ++ e.text := by
          simp [e, ExprLayout.text]
        rw [htext] at hwhole
        refine ih hgap
          (show e.Readable pattern inArguments from ⟨hleft, hoperatorRank ▸ hrank, hbetween,
            hspace, hright, hoperatorRank ▸ Nat.lt_succ_of_le hrightRank⟩)
          (Nat.le_of_eq hoperatorRank) (Nat.max_le.2 ⟨hdepth, hrightDepth⟩) hwhole hbehindSkip ?_
        have hplace : (c.skipBlank.past [operator.symbol] rest).offset + utf8Length space =
            start.offset + utf8Length gap + utf8Length left.text + utf8Length between +
              utf8Length [operator.symbol] + utf8Length space := by
          simp only [hsymbol.offset, hbetweenPasses.offset, hpasses.offset, utf8Length_append,
            Nat.add_assoc]
        rw [hplace] at h
        exact h

/-- A chain of operators is that of a readable layout if its operands are. -/
theorem readsExprs_chain (hoperand : ReadsExprs pattern inArguments levels rank operand)
    (hjoins : Joins operator? (rank + 1)) :
    ReadsExprs pattern inArguments levels (rank + 1) (chain operand operator?) := by
  constructor
  · intro e gap rest h hrank hdepth hgap hrest start
    obtain ⟨c, rounds, hrounds, hskip, hread⟩ := joinsUpTo hoperand hjoins h hrank hdepth hgap
      (hrest.of_le (Nat.le_succ rank)) start
    have hbehind : Follows (rank + 1) c.rest := by
      have hsame : skipBlank c.rest = skipBlank rest := congrArg Cursor.rest hskip
      intro d hd
      exact hrest d (hsame ▸ hd)
    refine ⟨c.skipBlank, ?_, ?_⟩
    · rw [hread, chainFrom_done hjoins hbehind]
    · obtain ⟨-, -, -, hstops⟩ := c.skipBlank_passes
      exact (Cursor.skipBlank_of_stops _ hstops).trans hskip
  · intro c next x h
    obtain ⟨⟨y, middle⟩, hread, h⟩ := bind_eq_ok_iff.1 h
    obtain ⟨gap, left, stop, hgap, hleft, hrank, hdepth, hpasses, hskip, rfl⟩ :=
      hoperand.finds hread
    obtain ⟨e, last, hfound⟩ := chainFrom_finds hoperand hjoins _ hgap hleft
      (hrank.trans (Nat.le_succ rank)) hdepth hpasses hskip h
    exact ⟨gap, e, last, hgap, hfound⟩

end Chains

/-! ## Arguments -/

section Arguments

variable {argument : Reader Expr}

theorem eat?_of_head?_ne {ch : Char} {text : List Char} (h : text.head? ≠ some ch) (start : Nat) :
    (Cursor.mk text start).eat? ch = none := by
  cases text with
  | nil => exact Cursor.eat?_nil ch start
  | cons d text => exact Cursor.eat?_of_ne text start (by simpa using h)

/-- An argument is read up to the blanks in front of the character that ends it. -/
theorem argument_take (hargument : ReadsExprs pattern true levels 2 argument) {e : ExprLayout}
    {gap space : List Char} (hgap : Blanks gap) (he : e.Readable pattern true)
    (hdepth : e.depth ≤ levels) (hspace : Blanks space) (ch : Char) (hch : mayFollow 2 ch = true)
    (hblank : isBlank ch = false) (tail : List Char) (start : Nat) :
    ∃ c, (Cursor.mk (gap ++ (e.text ++ (space ++ ch :: tail))) start).skipBlank.eat? ')' = none ∧
      argument (Cursor.mk (gap ++ (e.text ++ (space ++ ch :: tail))) start).skipBlank =
        .ok (e.expr (start + utf8Length gap), c) ∧
      c.skipBlank = ⟨ch :: tail,
        start + utf8Length gap + utf8Length e.text + utf8Length space⟩ := by
  obtain ⟨hstops, hhead⟩ := ExprLayout.start he (space ++ ch :: tail)
  obtain ⟨c, hread, hskip⟩ := hargument.takes he e.rank_le hdepth blanks_nil
    (follows_append hspace hch) (start + utf8Length gap)
  rw [Cursor.skipBlank_append start hgap hstops]
  refine ⟨c, eat?_of_head?_ne hhead _, hread, hskip.trans ?_⟩
  exact Cursor.skipBlank_append _ hspace (stops_cons.2 hblank)

/-- The first argument is read in front of the others, and those with as many rounds as
characters are left. -/
theorem arguments_take (hargument : ReadsExprs pattern true levels 2 argument) :
    ∀ {arguments : ArgumentsLayout}, arguments.Readable pattern → arguments.isNone = false →
      arguments.depth ≤ levels + 1 → ∀ rest start, ∃ x c xs,
        arguments.exprs start = x :: xs ∧
        (Cursor.mk (arguments.text ++ rest) start).skipBlank.eat? ')' = none ∧
        argument (Cursor.mk (arguments.text ++ rest) start).skipBlank = .ok (x, c) ∧
        (skipBlank c.rest).length ≤ (arguments.text ++ rest).length ∧
        ∀ rounds, (skipBlank c.rest).length ≤ rounds → moreItems argument ')' rounds c =
          .ok (xs, ⟨rest, start + utf8Length arguments.text⟩)
  | .none _, _, hsome, _, _, _ => by simp [ArgumentsLayout.isNone] at hsome
  | .last gap e space, h, _, hdepth, rest, start => by
    obtain ⟨hgap, he, hspace⟩ := h
    obtain ⟨c, hopen, hread, hclose⟩ := argument_take hargument hgap he
      (Nat.le_of_succ_le_succ hdepth) hspace ')' (by decide) (by decide) rest start
    have hbehind : skipBlank c.rest = ')' :: rest := congrArg Cursor.rest hclose
    have hstop : start + utf8Length gap + utf8Length e.text + utf8Length space +
        utf8Length [')'] = start + utf8Length (ArgumentsLayout.text (.last gap e space)) := by
      simp [ArgumentsLayout.text, utf8Length, Nat.add_assoc]
    have htext : ArgumentsLayout.text (.last gap e space) ++ rest =
        gap ++ (e.text ++ (space ++ ')' :: rest)) := by
      simp [ArgumentsLayout.text]
    rw [htext, ← hstop]
    refine ⟨_, c, [], rfl, hopen, hread, ?_, fun rounds _ => ?_⟩
    · simp [hbehind]
      omega
    · cases rounds with
      | zero => simp only [moreItems, hclose, expect_self]; rfl
      | succ rounds =>
        simp only [moreItems, hclose, Cursor.eat?_of_ne _ _ (show ')' ≠ ',' by decide),
          expect_self]
        rfl
  | .more gap e space others, h, _, hdepth, rest, start => by
    obtain ⟨hgap, he, hspace, hsome, hothers⟩ := h
    rw [ArgumentsLayout.depth, Nat.max_le] at hdepth
    obtain ⟨c, hopen, hread, hcomma⟩ := argument_take hargument hgap he
      (Nat.le_of_succ_le_succ hdepth.1) hspace ',' (by decide) (by decide)
      (others.text ++ rest) start
    have hbehind : skipBlank c.rest = ',' :: (others.text ++ rest) :=
      congrArg Cursor.rest hcomma
    obtain ⟨x, d, xs, hexprs, -, hfirst, hlong, hmore⟩ := arguments_take hargument hothers hsome
      hdepth.2 rest
      (start + utf8Length gap + utf8Length e.text + utf8Length space + utf8Length [','])
    have hstop : start + utf8Length gap + utf8Length e.text + utf8Length space +
        utf8Length [','] + utf8Length others.text =
          start + utf8Length (ArgumentsLayout.text (.more gap e space others)) := by
      simp [ArgumentsLayout.text, utf8Length, Nat.add_assoc]
    have htext : ArgumentsLayout.text (.more gap e space others) ++ rest =
        gap ++ (e.text ++ (space ++ ',' :: (others.text ++ rest))) := by
      simp [ArgumentsLayout.text]
    rw [htext, ← hstop]
    refine ⟨_, c, x :: xs, by rw [ArgumentsLayout.exprs, hexprs], hopen, hread, ?_,
      fun rounds hrounds => ?_⟩
    · simp [hbehind]
      omega
    · rw [hbehind, List.length_cons] at hrounds
      obtain ⟨rounds, rfl⟩ : ∃ n, rounds = n + 1 := ⟨rounds - 1, by omega⟩
      simp only [moreItems, hcomma, Cursor.eat?_self, hfirst, bind, Except.bind,
        hmore rounds (hlong.trans (Nat.le_of_succ_le_succ hrounds))]
      rfl

/-- Readable arguments, one at least, stand between two places, and `xs` are their
expressions. -/
def FindsArguments (pattern : WindowPattern) (levels : Nat) (start next : Cursor)
    (xs : List Expr) : Prop :=
  ∃ arguments : ArgumentsLayout, arguments.Readable pattern ∧ arguments.isNone = false ∧
    arguments.depth ≤ levels ∧ start.Passes arguments.text next ∧
    arguments.exprs start.offset = xs

section Found

variable {start stop : Cursor} {gap : List Char} {e : ExprLayout}

/-- The argument that a closing parenthesis stands behind is the last one. -/
theorem findsArguments_last {next : Cursor} (hgap : Blanks gap) (he : e.Readable pattern true)
    (hdepth : e.depth ≤ levels) (hpasses : start.Passes (gap ++ e.text) stop)
    (hclose : expect ')' stop.skipBlank = .ok next) :
    FindsArguments pattern (levels + 1) start next [e.expr (start.offset + utf8Length gap)] := by
  obtain ⟨space, hspace, hspacePasses, -⟩ := stop.skipBlank_passes
  refine ⟨.last gap e space, ⟨hgap, he, hspace⟩, rfl, Nat.succ_le_succ hdepth, ?_, rfl⟩
  simpa [ArgumentsLayout.text] using
    hpasses.trans (hspacePasses.trans (expect_passes hclose))

/-- Behind an argument and a comma stand the other ones. -/
theorem findsArguments_more {behind next : Cursor} {xs : List Expr} (hgap : Blanks gap)
    (he : e.Readable pattern true) (hdepth : e.depth ≤ levels)
    (hpasses : start.Passes (gap ++ e.text) stop)
    (hcomma : stop.skipBlank.eat? ',' = some behind)
    (hothers : FindsArguments pattern (levels + 1) behind next xs) :
    FindsArguments pattern (levels + 1) start next
      (e.expr (start.offset + utf8Length gap) :: xs) := by
  obtain ⟨others, hreadable, hsome, hothersDepth, hothersPasses, rfl⟩ := hothers
  obtain ⟨space, hspace, hspacePasses, -⟩ := stop.skipBlank_passes
  have hcommaPasses := Cursor.eat?_passes hcomma
  refine ⟨.more gap e space others, ⟨hgap, he, hspace, hsome, hreadable⟩, rfl,
    Nat.max_le.2 ⟨Nat.succ_le_succ hdepth, hothersDepth⟩, ?_, ?_⟩
  · simpa [ArgumentsLayout.text] using
      hpasses.trans (hspacePasses.trans (hcommaPasses.trans hothersPasses))
  · have hplace : start.offset + utf8Length gap + utf8Length e.text + utf8Length space +
        utf8Length [','] = behind.offset := by
      simp only [hcommaPasses.offset, hspacePasses.offset, hpasses.offset, utf8Length_append,
        Nat.add_assoc]
    rw [ArgumentsLayout.exprs, hplace]

end Found

/-- What is read behind an argument completes the arguments. -/
theorem arguments_find (hargument : ReadsExprs pattern true levels 2 argument) (rounds : Nat) :
    ∀ {start c stop next : Cursor} {gap : List Char} {e : ExprLayout} {xs : List Expr},
      Blanks gap → e.Readable pattern true → e.depth ≤ levels →
      start.Passes (gap ++ e.text) stop → c.skipBlank = stop.skipBlank →
      moreItems argument ')' rounds c = .ok (xs, next) →
      FindsArguments pattern (levels + 1) start next
        (e.expr (start.offset + utf8Length gap) :: xs) := by
  induction rounds with
  | zero =>
    intro start c stop next gap e xs hgap he hdepth hpasses hskip h
    obtain ⟨closed, hclose, heq⟩ := bind_eq_ok_iff.1 h
    obtain ⟨rfl, rfl⟩ := Prod.mk.inj (Except.ok.inj heq)
    exact findsArguments_last hgap he hdepth hpasses (hskip ▸ hclose)
  | succ rounds ih =>
    intro start c stop next gap e xs hgap he hdepth hpasses hskip h
    rw [moreItems] at h
    split at h
    · obtain ⟨closed, hclose, heq⟩ := bind_eq_ok_iff.1 h
      obtain ⟨rfl, rfl⟩ := Prod.mk.inj (Except.ok.inj heq)
      exact findsArguments_last hgap he hdepth hpasses (hskip ▸ hclose)
    · next behind hcomma =>
      obtain ⟨⟨x, middle⟩, hread, h⟩ := bind_eq_ok_iff.1 h
      obtain ⟨⟨others, last⟩, hothers, heq⟩ := bind_eq_ok_iff.1 h
      obtain ⟨rfl, rfl⟩ := Prod.mk.inj (Except.ok.inj heq)
      obtain ⟨front, hfront, hfrontPasses, -⟩ := behind.skipBlank_passes
      obtain ⟨inside, f, stop', hinside, hf, -, hfDepth, hfPasses, hmiddle, rfl⟩ :=
        hargument.finds hread
      have hinner : behind.Passes (front ++ inside ++ f.text) stop' := by
        rw [List.append_assoc]
        exact hfrontPasses.trans hfPasses
      have hfound := ih (hfront.append hinside) hf hfDepth hinner hmiddle hothers
      rw [utf8Length_append, ← Nat.add_assoc, ← hfrontPasses.offset] at hfound
      exact findsArguments_more hgap he hdepth hpasses (hskip ▸ hcomma) hfound

/-- The arguments are those of readable layouts if each of them is. -/
theorem readsArguments_argumentList (hargument : ReadsExprs pattern true levels 2 argument) :
    ReadsArguments pattern (levels + 1) (argumentList argument) := by
  constructor
  · intro arguments h hdepth rest start
    cases hnone : arguments.isNone with
    | true =>
      cases arguments with
      | last gap e space => simp [ArgumentsLayout.isNone] at hnone
      | more gap e space others => simp [ArgumentsLayout.isNone] at hnone
      | none gap =>
        have hskip : (Cursor.mk (gap ++ [')'] ++ rest) start).skipBlank =
            ⟨')' :: rest, start + utf8Length gap⟩ := by
          rw [List.append_assoc]
          exact Cursor.skipBlank_append start h (stops_cons.2 (by decide))
        simp only [ArgumentsLayout.text, argumentList, hskip, Cursor.eat?_self,
          utf8Length_append, ← Nat.add_assoc]
        rfl
    | false =>
      obtain ⟨x, c, xs, hexprs, hclose, hread, -, hmore⟩ :=
        arguments_take hargument h hnone hdepth rest start
      obtain ⟨-, -, -, hstops⟩ := (Cursor.mk (arguments.text ++ rest) start).skipBlank_passes
      have htwice : (Cursor.mk (arguments.text ++ rest) start).skipBlank.skipBlank =
          (Cursor.mk (arguments.text ++ rest) start).skipBlank :=
        Cursor.skipBlank_of_stops _ hstops
      have hothers := hmore c.rest.length (List.dropWhile_suffix isBlank).length_le
      simp only [argumentList, hclose, commaList, htwice, hread, hothers, bind, Except.bind,
        hexprs]
      rfl
  · intro c next xs h
    obtain ⟨gap, hgap, hgapPasses, -⟩ := c.skipBlank_passes
    rw [argumentList] at h
    split at h
    · next hclose =>
      obtain ⟨rfl, rfl⟩ := Prod.mk.inj (Except.ok.inj h)
      exact ⟨.none gap, hgap, Nat.succ_le_succ (Nat.zero_le levels),
        hgapPasses.trans (Cursor.eat?_passes hclose), rfl⟩
    · obtain ⟨⟨x, middle⟩, hread, h⟩ := bind_eq_ok_iff.1 h
      obtain ⟨⟨others, stop⟩, hothers, heq⟩ := bind_eq_ok_iff.1 h
      obtain ⟨rfl, rfl⟩ := Prod.mk.inj (Except.ok.inj heq)
      obtain ⟨space, hspace, hspacePasses, -⟩ := c.skipBlank.skipBlank_passes
      obtain ⟨inside, e, last, hinside, he, -, hdepth, hpasses, hskip, rfl⟩ :=
        hargument.finds hread
      have hwhole : c.Passes (gap ++ (space ++ inside) ++ e.text) last := by
        simpa using hgapPasses.trans (hspacePasses.trans hpasses)
      obtain ⟨arguments, harguments, -, hargumentsDepth, hargumentsPasses, hexprs⟩ :=
        arguments_find hargument _ (hgap.append (hspace.append hinside)) he hdepth hwhole hskip
          hothers
      refine ⟨arguments, harguments, hargumentsDepth, hargumentsPasses, ?_⟩
      rw [hexprs, hspacePasses.offset, hgapPasses.offset]
      simp only [utf8Length_append, Nat.add_assoc]

end Arguments

end Readers

/-! ## Expressions -/

variable (pattern : WindowPattern)

mutual

/-- An expression is read with the levels that it takes, and only then. -/
theorem readsExprs_expression : ∀ (levels : Nat) (inArguments : Bool),
    ReadsExprs pattern inArguments levels 2 (expression pattern levels inArguments)
  | 0, inArguments => by
    refine ⟨fun {e} {_ _} _ _ hdepth => ?_, fun h => ?_⟩
    · exact absurd hdepth (Nat.not_le_of_lt e.depth_pos)
    · simp [expression] at h
  | levels + 1, inArguments => by
    rw [expression]
    exact readsExprs_chain (readsExprs_chain (readsExprs_term
      (readsExprs_expression levels inArguments) (readsArguments_callArguments levels))
        joins_multiplicative) joins_additive

/-- The arguments of a call are read with the levels that they take, and only then. -/
theorem readsArguments_callArguments : ∀ levels : Nat,
    ReadsArguments pattern levels (callArguments pattern levels)
  | 0 => by
    refine ⟨fun {arguments} _ hdepth => ?_, fun h => ?_⟩
    · exact absurd hdepth (Nat.not_le_of_lt arguments.depth_pos)
    · simp [callArguments] at h
  | levels + 1 => by
    rw [callArguments]
    exact readsArguments_argumentList (readsExprs_expression levels true)

end

theorem wholeExpression_eq_ok_iff {levels : Nat} {text : List Char} {x : Expr} :
    wholeExpression pattern levels text = .ok x ↔
      ∃ (gap : List Char) (e : ExprLayout) (after : List Char), Blanks gap ∧ Blanks after ∧
        text = gap ++ (e.text ++ after) ∧ e.Readable pattern false ∧ e.depth ≤ levels ∧
        x = e.expr (utf8Length gap) := by
  have hreads := readsExprs_expression pattern levels false
  constructor
  · intro h
    obtain ⟨⟨y, c⟩, hread, h⟩ := bind_eq_ok_iff.1 h
    obtain ⟨gap, e, stop, hgap, he, -, hdepth, hpasses, hskip, rfl⟩ := hreads.finds hread
    obtain ⟨after, hafter, hafterPasses, -⟩ := stop.skipBlank_passes
    dsimp only at h
    rw [hskip] at h
    split at h
    · next hend =>
      obtain rfl := Except.ok.inj h
      refine ⟨gap, e, after, hgap, hafter, ?_, he, hdepth, ?_⟩
      · simpa [Cursor.ofText, hend] using (hpasses.trans hafterPasses).rest
      · simp [Cursor.ofText]
    · exact absurd h (Cursor.expected_ne_ok _ _ _)
  · rintro ⟨gap, e, after, hgap, hafter, rfl, he, hdepth, rfl⟩
    have hend : skipBlank after = [] := List.dropWhile_eq_nil_iff.2 hafter
    have hfollows : Follows 2 after := by simp [Follows, hend]
    obtain ⟨c, hread, hskip⟩ := hreads.takes he e.rank_le hdepth hgap hfollows 0
    have hrest : c.skipBlank.rest = [] := by rw [hskip]; exact hend
    simp only [wholeExpression, Cursor.ofText, hread, bind, Except.bind, hrest, Nat.zero_add]
    rfl

end MetricQuery.Grammar

namespace MetricQuery

open Text Grammar

/-- A text is accepted exactly if it is the text of a readable layout within the limits, with
blanks around it. -/
theorem parse_eq_ok_iff {text : String} {limits : Limits} {engine : PatternEngine} {x : Expr} :
    parse text limits engine = .ok x ↔
      ∃ pattern, limits.window? engine = .ok pattern ∧ text.utf8ByteSize ≤ limits.maxLength ∧
        ∃ (gap : List Char) (e : ExprLayout) (after : List Char), Blanks gap ∧ Blanks after ∧
          text.toList = gap ++ (e.text ++ after) ∧ e.Readable pattern false ∧
          e.depth ≤ limits.maxDepth ∧ x = e.expr (utf8Length gap) := by
  unfold parse
  cases hwindow : limits.window? engine with
  | error cause => simp
  | ok pattern =>
    simp only [Except.ok.injEq, exists_eq_left']
    by_cases hlong : text.utf8ByteSize > limits.maxLength
    · simp [if_pos hlong, Nat.not_le_of_lt hlong]
    · rw [if_neg hlong, ← wholeExpression_eq_ok_iff]
      simp only [Nat.not_lt.1 hlong, true_and]
      cases hread : wholeExpression pattern limits.maxDepth text.toList with
      | ok y => simp
      | error failure => cases failure <;> simp

/-- A readable layout is accepted under all limits with the pattern that leave room for as many
levels as the text has bytes. -/
theorem parse_of_readable {text : String} {limits : Limits} {engine : PatternEngine}
    {pattern : WindowPattern} {gap after : List Char} {e : ExprLayout}
    (hpattern : engine.compile? limits.windowPattern = some pattern)
    (htext : text.toList = gap ++ (e.text ++ after)) (hgap : Blanks gap) (hafter : Blanks after)
    (he : e.Readable pattern false) (hlength : text.utf8ByteSize ≤ limits.maxLength)
    (hdepth : text.utf8ByteSize ≤ limits.maxDepth) :
    parse text limits engine = .ok (e.expr (utf8Length gap)) := by
  have hlong := ExprLayout.depth_le_length he
  have hpos := ExprLayout.depth_pos e
  have hbytes := length_le_utf8Length text.toList
  rw [← utf8ByteSize_eq, htext, List.length_append, List.length_append] at hbytes
  have hwindow : limits.window? engine = .ok pattern :=
    Limits.window?_eq_ok_iff.2 ⟨by omega, by omega, hpattern⟩
  exact parse_eq_ok_iff.2 ⟨pattern, hwindow, hlength, gap, e, after, hgap, hafter, htext, he,
    by omega, rfl⟩

end MetricQuery
