import Mathlib.Data.List.Induction
import MetricQuery.Grammar.Suffix
import MetricQuery.Proofs.Grammar.Reads

/-!
# Raw arguments of calls

The arguments of a call behind a filter block are kept as text.  `Balanced depth text` says
that a scan of the text, inside so many open parentheses, closes every literal and every
parenthesis and meets no comma outside of them; a `CleanArgument` is a trimmed text that is
balanced by itself.

* `rawArgument_append` and `balanced_of_rawArgument`: the reader takes balanced texts up to
  what ends an argument, and takes nothing else.
* `rawArguments_reads` and `rawArguments_finds`: the same for the arguments of a call, in the
  relation `ArgumentsSpelled`.
* `ArgumentsSpelled.clean` and `argumentsSpelled_of_clean`: the arguments of a call are clean,
  and clean ones can be written with commas between them.
-/

namespace MetricQuery.Grammar

open Text

/-! ## Balanced texts -/

/-- With so many parentheses open in front, the text closes its literals and all parentheses,
and has no comma outside of them. -/
inductive Balanced : Nat → List Char → Prop where
  | done : Balanced 0 []
  | literal {depth : Nat} {lit more : List Char} (hlit : isLiteral lit = true)
      (hmore : Balanced depth more) : Balanced depth (lit ++ more)
  | opening {depth : Nat} {more : List Char} (hmore : Balanced (depth + 1) more) :
      Balanced depth ('(' :: more)
  | closing {depth : Nat} {more : List Char} (hmore : Balanced depth more) :
      Balanced (depth + 1) (')' :: more)
  | comma {depth : Nat} {more : List Char} (hmore : Balanced (depth + 1) more) :
      Balanced (depth + 1) (',' :: more)
  | other {depth : Nat} {c : Char} {more : List Char} (hquote : isQuote c = false)
      (hc : c ≠ '(' ∧ c ≠ ')' ∧ c ≠ ',') (hmore : Balanced depth more) :
      Balanced depth (c :: more)

/-- An argument that stands for itself. -/
structure CleanArgument (text : List Char) : Prop where
  ne_nil : text ≠ []
  trimmed : Trimmed text
  balanced : Balanced 0 text

/-- A blank in front changes nothing. -/
theorem Balanced.blank {depth : Nat} {c : Char} {text : List Char} (hc : isBlank c = true)
    (h : Balanced depth text) : Balanced depth (c :: text) := by
  refine .other (isQuote_eq_false_of_isBlank hc) ⟨?_, ?_, ?_⟩ h
  all_goals
    rintro rfl
    simp [isBlank, blankRanges] at hc

theorem Balanced.of_cons {depth : Nat} {c : Char} {text : List Char} (hc : isBlank c = true)
    (h : Balanced depth (c :: text)) : Balanced depth text := by
  generalize htext : c :: text = whole at h
  cases h with
  | done => simp at htext
  | @literal _ lit more hlit _ =>
    have hhead := (isQuote_ends_of_isLiteral hlit).1
    cases lit with
    | nil => simp at hhead
    | cons d lit =>
      obtain ⟨rfl, -⟩ := List.cons.inj htext
      simp [isQuote_eq_false_of_isBlank hc] at hhead
  | opening => obtain ⟨rfl, -⟩ := List.cons.inj htext; simp [isBlank, blankRanges] at hc
  | closing => obtain ⟨rfl, -⟩ := List.cons.inj htext; simp [isBlank, blankRanges] at hc
  | comma => obtain ⟨rfl, -⟩ := List.cons.inj htext; simp [isBlank, blankRanges] at hc
  | other _ _ hmore =>
    obtain ⟨-, rfl⟩ := List.cons.inj htext
    exact hmore

/-- Where a text with one more character at its end starts. -/
theorem concat_eq_cons {text more : List Char} {c d : Char} (h : text ++ [c] = d :: more) :
    (text = [] ∧ c = d ∧ more = []) ∨ ∃ front, text = d :: front ∧ front ++ [c] = more := by
  cases text with
  | nil =>
    obtain ⟨rfl, rfl⟩ := List.cons.inj h
    exact .inl ⟨rfl, rfl, rfl⟩
  | cons e front =>
    obtain ⟨rfl, hrest⟩ := List.cons.inj h
    exact .inr ⟨front, rfl, hrest⟩

/-- A blank at the end is outside of every literal. -/
theorem Balanced.of_concat {depth : Nat} {c : Char} {text : List Char} (hc : isBlank c = true)
    (h : Balanced depth (text ++ [c])) : Balanced depth text := by
  generalize hwhole : text ++ [c] = whole at h
  induction h generalizing text with
  | done => simp at hwhole
  | @literal depth lit more hlit hmore ih =>
    rcases List.eq_nil_or_concat more with rfl | ⟨front, d, rfl⟩
    · have hlast := (isQuote_ends_of_isLiteral hlit).2
      rw [← List.append_nil lit, ← hwhole] at hlast
      simp [isQuote_eq_false_of_isBlank hc] at hlast
    · rw [List.concat_eq_append, ← List.append_assoc] at hwhole
      obtain ⟨rfl, hd⟩ := List.append_inj' hwhole rfl
      exact .literal hlit (ih (by rw [List.concat_eq_append, hd]))
  | opening hmore ih =>
    obtain ⟨-, rfl, -⟩ | ⟨front, rfl, hrest⟩ := concat_eq_cons hwhole
    · simp [isBlank, blankRanges] at hc
    · exact .opening (ih hrest)
  | closing hmore ih =>
    obtain ⟨-, rfl, -⟩ | ⟨front, rfl, hrest⟩ := concat_eq_cons hwhole
    · simp [isBlank, blankRanges] at hc
    · exact .closing (ih hrest)
  | comma hmore ih =>
    obtain ⟨-, rfl, -⟩ | ⟨front, rfl, hrest⟩ := concat_eq_cons hwhole
    · simp [isBlank, blankRanges] at hc
    · exact .comma (ih hrest)
  | other hquote hd hmore ih =>
    obtain ⟨rfl, -, rfl⟩ | ⟨front, rfl, hrest⟩ := concat_eq_cons hwhole
    · exact hmore
    · exact .other hquote hd (ih hrest)

/-- Blanks around a text are outside of its literals. -/
theorem Balanced.of_blanks {depth : Nat} {before text behind : List Char}
    (hbefore : Blanks before) (hbehind : Blanks behind)
    (h : Balanced depth (before ++ text ++ behind)) : Balanced depth text := by
  have hfront : Balanced depth (before ++ text) := by
    induction behind using List.reverseRecOn with
    | nil => simpa using h
    | append_singleton behind c ih =>
      refine ih (fun d hd => hbehind d (by simp [hd])) ?_
      rw [← List.append_assoc] at h
      exact h.of_concat (hbehind c (by simp))
  clear h
  induction before with
  | nil => exact hfront
  | cons c before ih =>
    rw [blanks_cons] at hbefore
    exact ih hbefore.2 (Balanced.of_cons hbefore.1 hfront)

theorem Balanced.trimmed {depth : Nat} {text : List Char} (h : Balanced depth text) :
    Balanced depth (trim text) := by
  obtain ⟨before, behind, htext, hbefore, hbehind⟩ := exists_trim text
  rw [htext] at h
  exact h.of_blanks hbefore hbehind

/-! ## Reading one argument -/

theorem rawArgument_cons (opened depth : Nat) (ch : Char) (tail : List Char) (offset : Nat) :
    rawArgument opened depth ⟨ch :: tail, offset⟩ =
      if isQuote ch then
        match literal? (ch :: tail) with
        | none => (Cursor.mk (ch :: tail) offset).fail .unterminatedString
        | some (text, rest) => do
          let (more, c) ← rawArgument opened depth ⟨rest, offset + utf8Length text⟩
          return (text ++ more, c)
      else if ch = ')' && depth = 0 || ch = ',' && depth = 0 then .ok ([], ⟨ch :: tail, offset⟩)
      else do
        let inside := if ch = '(' then depth + 1 else if ch = ')' then depth - 1 else depth
        let (more, c) ← rawArgument opened inside ⟨tail, offset + utf8Length [ch]⟩
        return (ch :: more, c) := by
  rw [rawArgument]
  split
  · next hnil => simp at hnil
  next d more hcons =>
  obtain ⟨rfl, rfl⟩ := List.cons.inj hcons
  by_cases hquote : isQuote ch = true
  · rw [if_pos hquote, if_pos hquote]
    split
    · next hnone => simp only [hnone]
    · next text rest hsome =>
      simp only [hsome]
      rfl
  · rw [if_neg hquote, if_neg hquote]
    rfl

/-- A comma or a closing parenthesis is next. -/
def ArgumentEnds (rest : List Char) : Prop :=
  ∃ ch tail, rest = ch :: tail ∧ (ch = ',' ∨ ch = ')')

/-- A balanced text is taken up to what ends an argument. -/
theorem rawArgument_append (opened : Nat) {depth : Nat} {text rest : List Char}
    (h : Balanced depth text) (hrest : ArgumentEnds rest) :
    Reads (rawArgument opened depth) text rest (· = text) := by
  induction h with
  | done =>
    intro offset
    obtain ⟨ch, tail, rfl, hch⟩ := hrest
    refine ⟨[], offset, ?_, rfl⟩
    rw [List.nil_append, rawArgument_cons]
    rcases hch with rfl | rfl <;> simp [isQuote]
  | @literal depth lit more hlit _ ih =>
    intro offset
    obtain ⟨_, stop, hread, heq⟩ := ih (offset + utf8Length lit)
    rw [heq] at hread
    refine ⟨_, stop, ?_, rfl⟩
    have hcut := literal?_append (more ++ rest) hlit
    have hhead := (isQuote_ends_of_isLiteral hlit).1
    cases lit with
    | nil => simp at hhead
    | cons mark tail =>
      rw [List.append_assoc, List.cons_append, rawArgument_cons, if_pos (by simpa using hhead)]
      rw [List.cons_append] at hcut
      simp only [hcut, hread, bind, Except.bind]
      rfl
  | @opening depth more _ ih =>
    intro offset
    obtain ⟨_, stop, hread, rfl⟩ := ih (offset + utf8Length ['('])
    refine ⟨_, stop, ?_, rfl⟩
    rw [List.cons_append, rawArgument_cons]
    simp [isQuote, hread, bind, Except.bind, pure, Except.pure]
  | @closing depth more _ ih =>
    intro offset
    obtain ⟨_, stop, hread, rfl⟩ := ih (offset + utf8Length [')'])
    refine ⟨_, stop, ?_, rfl⟩
    rw [List.cons_append, rawArgument_cons]
    simp [isQuote, hread, bind, Except.bind, pure, Except.pure]
  | @comma depth more _ ih =>
    intro offset
    obtain ⟨_, stop, hread, rfl⟩ := ih (offset + utf8Length [','])
    refine ⟨_, stop, ?_, rfl⟩
    rw [List.cons_append, rawArgument_cons]
    simp [isQuote, hread, bind, Except.bind, pure, Except.pure]
  | @other depth c more hquote hc _ ih =>
    intro offset
    obtain ⟨_, stop, hread, rfl⟩ := ih (offset + utf8Length [c])
    refine ⟨_, stop, ?_, rfl⟩
    rw [List.cons_append, rawArgument_cons]
    simp [hquote, hc, hread, bind, Except.bind, pure, Except.pure]

/-- A character in front of a balanced text, neither a quotation mark nor the end of an
argument. -/
theorem balanced_of_inside {depth : Nat} {ch : Char} {more : List Char}
    (hquote : isQuote ch = false)
    (hend : (ch = ')' → depth ≠ 0) ∧ (ch = ',' → depth ≠ 0))
    (h : Balanced (if ch = '(' then depth + 1 else if ch = ')' then depth - 1 else depth)
      more) : Balanced depth (ch :: more) := by
  by_cases hopening : ch = '('
  · rw [if_pos hopening] at h
    rw [hopening]
    exact .opening h
  · rw [if_neg hopening] at h
    by_cases hclosing : ch = ')'
    · rw [if_pos hclosing] at h
      obtain ⟨inner, rfl⟩ : ∃ inner, depth = inner + 1 :=
        ⟨depth - 1, by have := hend.1 hclosing; omega⟩
      rw [hclosing]
      exact .closing h
    · rw [if_neg hclosing] at h
      by_cases hcomma : ch = ','
      · obtain ⟨inner, rfl⟩ : ∃ inner, depth = inner + 1 :=
          ⟨depth - 1, by have := hend.2 hcomma; omega⟩
        rw [hcomma]
        exact .comma h
      · exact .other hquote ⟨hopening, hclosing, hcomma⟩ h

/-- What is taken as an argument is balanced. -/
theorem balanced_of_rawArgument {opened : Nat} : ∀ {depth : Nat} {c next : Cursor}
    {text : List Char}, rawArgument opened depth c = .ok (text, next) →
      c.Passes text next ∧ Balanced depth text ∧ ArgumentEnds next.rest := by
  intro depth c
  induction hlen : c.rest.length using Nat.strong_induction_on generalizing c depth with
  | _ length ih =>
  intro next text h
  obtain ⟨whole, offset⟩ := c
  cases whole with
  | nil => simp [rawArgument] at h
  | cons ch tail =>
    rw [rawArgument_cons] at h
    by_cases hquote : isQuote ch = true
    · rw [if_pos hquote] at h
      cases hcut : literal? (ch :: tail) with
      | none => simp [hcut, Cursor.fail] at h
      | some cut =>
        obtain ⟨lit, rest⟩ := cut
        simp only [hcut, bind_eq_ok_iff] at h
        obtain ⟨⟨more, stop⟩, hmore, heq⟩ := h
        obtain ⟨rfl, rfl⟩ := Prod.mk.inj (Except.ok.inj heq)
        have hshort := length_of_literal? hcut
        obtain ⟨hpasses, hbalanced, hends⟩ := ih _ (by rw [← hlen]; exact hshort) rfl hmore
        have hlit : (Cursor.mk (ch :: tail) offset).Passes lit
            ⟨rest, offset + utf8Length lit⟩ := ⟨(eq_append_of_literal? hcut).1, rfl⟩
        exact ⟨hlit.trans hpasses, .literal (isLiteral_of_literal? hcut) hbalanced, hends⟩
    · rw [if_neg hquote] at h
      by_cases hend : (ch = ')' && depth = 0 || ch = ',' && depth = 0) = true
      · rw [if_pos hend] at h
        obtain ⟨rfl, rfl⟩ := Prod.mk.inj (Except.ok.inj h)
        have hend : depth = 0 ∧ (ch = ',' ∨ ch = ')') := by
          simp only [Bool.or_eq_true, Bool.and_eq_true, decide_eq_true_eq] at hend
          rcases hend with ⟨hch, hdepth⟩ | ⟨hch, hdepth⟩
          · exact ⟨hdepth, .inr hch⟩
          · exact ⟨hdepth, .inl hch⟩
        rw [hend.1]
        exact ⟨.refl _, .done, ch, tail, rfl, hend.2⟩
      · rw [if_neg hend] at h
        obtain ⟨⟨more, stop⟩, hmore, heq⟩ := bind_eq_ok_iff.1 h
        obtain ⟨rfl, rfl⟩ := Prod.mk.inj (Except.ok.inj heq)
        obtain ⟨hpasses, hbalanced, hends⟩ := ih _ (by rw [← hlen]; simp) rfl hmore
        have hfirst : (Cursor.mk (ch :: tail) offset).Passes [ch]
            ⟨tail, offset + utf8Length [ch]⟩ := ⟨rfl, rfl⟩
        exact ⟨hfirst.trans hpasses,
          balanced_of_inside (by simpa using hquote) (by simpa using hend) hbalanced, hends⟩

/-! ## Reading all arguments -/

/-- Arguments, none of them blank, up to and with the closing parenthesis.  Each stands for its
trimmed text. -/
inductive RawSpelled : List String → List Char → Prop where
  | last {raw : List Char} (hraw : Balanced 0 raw) (hne : trim raw ≠ []) :
      RawSpelled [String.ofList (trim raw)] (raw ++ [')'])
  | comma {raw more : List Char} {arguments : List String} (hraw : Balanced 0 raw)
      (hne : trim raw ≠ []) (hmore : RawSpelled arguments more) :
      RawSpelled (String.ofList (trim raw) :: arguments) (raw ++ ',' :: more)

/-- The arguments of a call, up to and with the closing parenthesis. -/
inductive ArgumentsSpelled : List String → List Char → Prop where
  | none {gap : List Char} (hgap : Blanks gap) : ArgumentsSpelled [] (gap ++ [')'])
  | some {arguments : List String} {text : List Char} (h : RawSpelled arguments text) :
      ArgumentsSpelled arguments text

theorem Balanced.blanks {depth : Nat} {gap text : List Char} (hgap : Blanks gap)
    (h : Balanced depth text) : Balanced depth (gap ++ text) := by
  induction gap with
  | nil => exact h
  | cons c gap ih =>
    rw [blanks_cons] at hgap
    exact .blank hgap.1 (ih hgap.2)

/-- The first argument is read up to its end. -/
theorem RawSpelled.first {arguments : List String} {text : List Char}
    (h : RawSpelled arguments text) (opened : Nat) (rest : List Char) (offset : Nat) :
    ∃ raw tail stop, trim raw ≠ [] ∧ ArgumentEnds tail ∧ text ++ rest = raw ++ tail ∧
      rawArgument opened 0 ⟨text ++ rest, offset⟩ = .ok (raw, ⟨tail, stop⟩) := by
  cases h with
  | @last raw hraw hne =>
    have hends : ArgumentEnds (')' :: rest) := ⟨')', rest, rfl, .inr rfl⟩
    obtain ⟨_, stop, hread, rfl⟩ := rawArgument_append opened hraw hends offset
    exact ⟨_, _, stop, hne, hends, by simp, by simpa using hread⟩
  | @comma raw more arguments hraw hne hmore =>
    have hends : ArgumentEnds (',' :: (more ++ rest)) := ⟨',', _, rfl, .inl rfl⟩
    obtain ⟨_, stop, hread, rfl⟩ := rawArgument_append opened hraw hends offset
    exact ⟨_, _, stop, hne, hends, by simp, by simpa using hread⟩

theorem someArguments_reads (opened : Nat) {arguments : List String} {text : List Char}
    (h : RawSpelled arguments text) (rest : List Char) :
    ∀ rounds, text.length ≤ rounds →
      Reads (someArguments opened rounds) text rest (· = arguments) := by
  induction h with
  | @last raw hraw hne =>
    intro rounds hrounds offset
    simp only [List.length_append, List.length_singleton] at hrounds
    obtain ⟨rounds, rfl⟩ : ∃ n, rounds = n + 1 := ⟨rounds - 1, by omega⟩
    obtain ⟨_, stop, hread, rfl⟩ :=
      rawArgument_append opened hraw ⟨')', rest, rfl, .inr rfl⟩ offset
    have hcomma : (Cursor.mk (')' :: rest) stop).eat? ',' = none :=
      Cursor.eat?_of_ne _ _ (by decide)
    refine ⟨_, stop + utf8Length [')'], ?_, rfl⟩
    rw [List.append_assoc, List.singleton_append, someArguments, hread]
    simp [bind, Except.bind, hne, hcomma, pure, Except.pure]
  | @comma raw more arguments hraw hne hmore ih =>
    intro rounds hrounds offset
    simp only [List.length_append, List.length_cons] at hrounds
    obtain ⟨rounds, rfl⟩ : ∃ n, rounds = n + 1 := ⟨rounds - 1, by omega⟩
    obtain ⟨_, middle, hread, rfl⟩ :=
      rawArgument_append opened hraw ⟨',', more ++ rest, rfl, .inl rfl⟩ offset
    obtain ⟨_, stop, hothers, rfl⟩ := ih rounds (by omega) (middle + utf8Length [','])
    refine ⟨_, stop, ?_, rfl⟩
    rw [List.append_assoc, List.cons_append, someArguments, hread]
    simp [bind, Except.bind, hne, hothers, pure, Except.pure]

theorem rawArguments_reads (opened : Nat) {arguments : List String} {text : List Char}
    (h : ArgumentsSpelled arguments text) (rest : List Char) :
    Reads (rawArguments opened) text rest (· = arguments) := by
  intro offset
  cases h with
  | @none gap hgap =>
    have hends : ArgumentEnds (')' :: rest) := ⟨')', rest, rfl, .inr rfl⟩
    obtain ⟨_, stop, hread, rfl⟩ :=
      rawArgument_append opened (Balanced.blanks hgap .done) hends offset
    have htrim : trim gap = [] := by
      simpa using trim_append (show Trimmed [] by simp [Trimmed]) hgap blanks_nil
    refine ⟨[], stop + utf8Length [')'], ?_, rfl⟩
    rw [List.append_nil] at hread
    rw [List.append_assoc, List.singleton_append, rawArguments, hread]
    simp [bind, Except.bind, htrim, pure, Except.pure]
  | some h =>
    obtain ⟨raw, tail, middle, hne, -, -, hread⟩ := h.first opened rest offset
    obtain ⟨_, stop, hsome, rfl⟩ :=
      someArguments_reads opened h rest (text ++ rest).length (by simp) offset
    refine ⟨_, stop, ?_, rfl⟩
    have hempty : (trim raw).isEmpty = false := by simpa using hne
    simp only [rawArguments, hread, bind, Except.bind, hempty]
    exact hsome

/-! ## What arguments are -/

theorem someArguments_finds {opened : Nat} (rounds : Nat) {c next : Cursor}
    {arguments : List String} (h : someArguments opened rounds c = .ok (arguments, next)) :
    ∃ text, RawSpelled arguments text ∧ c.Passes text next := by
  induction rounds generalizing c arguments with
  | zero => simp [someArguments] at h
  | succ rounds ih =>
    obtain ⟨⟨raw, middle⟩, hraw, h⟩ := bind_eq_ok_iff.1 h
    obtain ⟨hpasses, hbalanced, ch, tail, hrest, hch⟩ := balanced_of_rawArgument hraw
    obtain ⟨text, offset⟩ := middle
    obtain rfl : text = ch :: tail := hrest
    cases hempty : (trim raw).isEmpty with
    | true => simp [hempty, Cursor.expected, Cursor.fail] at h
    | false =>
      have hne : trim raw ≠ [] := by simpa using hempty
      simp only [hempty, Bool.false_eq_true, if_false] at h
      have hfirst : (Cursor.mk (ch :: tail) offset).Passes [ch]
          ⟨tail, offset + utf8Length [ch]⟩ := ⟨rfl, rfl⟩
      rcases hch with rfl | rfl
      · rw [Cursor.eat?_self] at h
        obtain ⟨⟨more, stop⟩, hmore, heq⟩ := bind_eq_ok_iff.1 h
        obtain ⟨rfl, rfl⟩ := Prod.mk.inj (Except.ok.inj heq)
        obtain ⟨others, hothers, hothersPasses⟩ := ih hmore
        exact ⟨_, .comma hbalanced hne hothers, hpasses.trans (hfirst.trans hothersPasses)⟩
      · rw [Cursor.eat?_of_ne _ _ (by decide)] at h
        obtain ⟨stop, hexpect, heq⟩ := bind_eq_ok_iff.1 h
        obtain ⟨rfl, rfl⟩ := Prod.mk.inj (Except.ok.inj heq)
        rw [expect_self] at hexpect
        obtain rfl := Except.ok.inj hexpect
        exact ⟨_, .last hbalanced hne, hpasses.trans hfirst⟩

/-- What is read as the arguments of a call spells them. -/
theorem rawArguments_finds {opened : Nat} {c next : Cursor} {arguments : List String}
    (h : rawArguments opened c = .ok (arguments, next)) :
    ∃ text, ArgumentsSpelled arguments text ∧ c.Passes text next := by
  obtain ⟨⟨raw, ⟨text, offset⟩⟩, hraw, h⟩ := bind_eq_ok_iff.1 h
  obtain ⟨hpasses, -, ch, tail, rfl, hch⟩ := balanced_of_rawArgument hraw
  dsimp only at h
  split at h
  · next stop hempty hclose =>
    obtain ⟨rfl, rfl⟩ := Prod.mk.inj (Except.ok.inj h)
    have hblank : Blanks raw := by
      obtain ⟨before, behind, hraw, hbefore, hbehind⟩ := exists_trim raw
      rw [List.isEmpty_iff.1 hempty, List.append_nil] at hraw
      rw [hraw]
      exact Blanks.append hbefore hbehind
    refine ⟨_, .none hblank, hpasses.trans ?_⟩
    rcases hch with rfl | rfl
    · simp [Cursor.eat?_of_ne] at hclose
    · rw [Cursor.eat?_self] at hclose
      obtain rfl := Option.some.inj hclose
      exact ⟨rfl, rfl⟩
  · obtain ⟨text, hspelled, hpasses⟩ := someArguments_finds _ h
    exact ⟨text, .some hspelled, hpasses⟩

/-! ## Clean arguments -/

theorem RawSpelled.clean {arguments : List String} {text : List Char}
    (h : RawSpelled arguments text) : ∀ a ∈ arguments, CleanArgument a.toList := by
  have hclean : ∀ {raw : List Char}, Balanced 0 raw → trim raw ≠ [] →
      CleanArgument (String.ofList (trim raw)).toList := by
    intro raw hraw hne
    rw [String.toList_ofList]
    exact ⟨hne, trimmed_trim raw, hraw.trimmed⟩
  induction h with
  | last hraw hne => simpa using hclean hraw hne
  | comma hraw hne _ ih => exact List.forall_mem_cons.2 ⟨hclean hraw hne, ih⟩

/-- All arguments of a call are clean. -/
theorem ArgumentsSpelled.clean {arguments : List String} {text : List Char}
    (h : ArgumentsSpelled arguments text) : ∀ a ∈ arguments, CleanArgument a.toList := by
  cases h with
  | none => simp
  | some h => exact h.clean

/-- A clean argument stands for itself, blanks in front or not. -/
theorem CleanArgument.raw {argument : String} (h : CleanArgument argument.toList)
    {gap : List Char} (hgap : Blanks gap) :
    Balanced 0 (gap ++ argument.toList) ∧ trim (gap ++ argument.toList) ≠ [] ∧
      String.ofList (trim (gap ++ argument.toList)) = argument := by
  have htrim : trim (gap ++ argument.toList) = argument.toList := by
    simpa using trim_append h.trimmed hgap blanks_nil
  rw [htrim, String.ofList_toList]
  exact ⟨h.balanced.blanks hgap, h.ne_nil, rfl⟩

/-- Clean arguments with commas and spaces between them spell themselves. -/
theorem rawSpelled_of_clean {more : List String} (hmore : ∀ a ∈ more, CleanArgument a.toList) :
    ∀ {argument : String} {gap : List Char}, CleanArgument argument.toList → Blanks gap →
      RawSpelled (argument :: more) (gap ++ argument.toList ++
        (more.flatMap (fun argument => ", ".toList ++ argument.toList) ++ [')'])) := by
  induction more with
  | nil =>
    intro argument gap h hgap
    obtain ⟨hraw, hne, heq⟩ := h.raw hgap
    have := RawSpelled.last hraw hne
    rwa [heq] at this
  | cons next more ih =>
    intro argument gap h hgap
    obtain ⟨hraw, hne, heq⟩ := h.raw hgap
    have hspace : Blanks [' '] := by simp [isBlank_space]
    have := RawSpelled.comma hraw hne
      (ih (fun a ha => hmore a (by simp [ha])) (hmore next (by simp)) hspace)
    rw [heq] at this
    simpa using this

/-- The text of clean arguments, with the closing parenthesis. -/
theorem argumentsSpelled_of_clean {arguments : List String}
    (h : ∀ a ∈ arguments, CleanArgument a.toList) :
    ArgumentsSpelled arguments ((", ".intercalate arguments).toList ++ [')']) := by
  cases arguments with
  | nil =>
    rw [String.intercalate_nil]
    exact .none blanks_nil
  | cons argument more =>
    have := rawSpelled_of_clean (fun a ha => h a (List.mem_cons_of_mem argument ha))
      (h argument (by simp)) blanks_nil
    rw [toList_intercalate_cons, List.append_assoc]
    exact .some (by simpa using this)

end MetricQuery.Grammar
