import MetricQuery.Proofs.Grammar.Finds

/-!
# Writing and reading values

A value is written as a token, bare or as a literal, and a token is read as itself wherever it
ends.

* `unescape`: what stands between the marks of a quoted text; `unescape_escape` says that it
  is the text that was quoted.
* `EndsValue`: what may follow a value that has no quotation marks.
* `isLiteral_iff_quoted`: the test for literals accepts what is read as one literal.
* `value_emitted`: the result, for all values and all texts.
-/

namespace MetricQuery.Text

/-- A backslash stands for the character behind it. -/
def unescape : List Char → List Char
  | [] => []
  | c :: rest =>
    if c = '\\' then
      match rest with
      | [] => []
      | d :: rest => d :: unescape rest
    else c :: unescape rest

theorem unescape_cons {c : Char} (rest : List Char) (h : c ≠ '\\') :
    unescape (c :: rest) = c :: unescape rest := by
  rw [unescape.eq_def]
  exact if_neg h

/-- Undoing the escapes gives back what was escaped. -/
theorem unescape_escape (text : List Char) : unescape (escape text) = text := by
  induction text with
  | nil => rfl
  | cons c rest ih =>
    by_cases hescaped : c = '\\' ∨ c = '"'
    · have hcond : (decide (c = '\\') || decide (c = '"')) = true := by simpa using hescaped
      rw [escape, if_pos hcond, unescape, if_pos rfl, ih]
    · have hcond : ¬(decide (c = '\\') || decide (c = '"')) = true := by simpa using hescaped
      rw [escape, if_neg hcond, unescape_cons _ fun hslash => hescaped (.inl hslash), ih]

end MetricQuery.Text

namespace MetricQuery.Grammar

open Text MetricQuery.Filter

/-- The text ends, or goes on with a blank, a comma, a parenthesis or a brace. -/
def EndsValue (rest : List Char) : Prop :=
  ∀ c, rest.head? = some c →
    isBlank c = true ∨ c = ',' ∨ c = '(' ∨ c = ')' ∨ c = '\x7b' ∨ c = '\x7d'

theorem EndsValue.stops {rest : List Char} (h : EndsValue rest) : Stops isValueChar rest := by
  cases rest with
  | nil => simp
  | cons c rest =>
    refine stops_cons.2 ?_
    rcases h c rfl with hblank | rfl | rfl | rfl | rfl | rfl
    · exact isValueChar_eq_false_of_isBlank hblank
    all_goals decide

/-- A text is a literal exactly if it starts with a quotation mark and is read as one literal up
to its end. -/
theorem isLiteral_iff_quoted {text : List Char} (offset : Nat) :
    isLiteral text = true ↔ text.head?.any isQuote = true ∧
      ∃ lit next, quoted ⟨text, offset⟩ = .ok (lit, next) ∧ next.rest = [] := by
  constructor
  · intro h
    have hread := quoted_append [] offset h
    rw [List.append_nil] at hread
    exact ⟨(isQuote_ends_of_isLiteral h).1, _, _, hread, rfl⟩
  · rintro ⟨-, lit, next, hread, hend⟩
    obtain ⟨hpasses, hlit⟩ := quoted_finds hread
    have htext : text = lit := by simpa [hend] using hpasses.rest
    rw [htext]
    exact hlit

/-- A token is read up to its end where nothing goes on with it. -/
theorem value_append {v : String} {rest : List Char} (h : IsToken v.toList)
    (hrest : EndsValue rest) (offset : Nat) :
    value ⟨v.toList ++ rest, offset⟩ = .ok (v, ⟨rest, offset + utf8Length v.toList⟩) :=
  (value_reads ⟨rfl, h⟩ fun _ => hrest.stops).takes (fun hread => ⟨_, (value_finds hread).2.1⟩)
    offset

/-- A value that is not written as it is stands between double quotation marks, with escapes. -/
theorem emitted_quoted {v : String} (hbare : isBare v.toList = false)
    (hlit : isLiteral v.toList = false) :
    (emitted v).toList = '"' :: (escape v.toList ++ ['"']) := by
  simp [emitted, hbare, hlit, quote]

/-- Writing and reading values are inverse to each other: what is written for a value is read as
it is written, is written unchanged the next time, and holds the value; literals are the texts
that are read as one literal; and what is read as a value is written unchanged. -/
theorem value_emitted :
    (∀ v : String, v ≠ "" →
      (∀ rest offset, EndsValue rest → value ⟨(emitted v).toList ++ rest, offset⟩ =
        .ok (emitted v, ⟨rest, offset + utf8Length (emitted v).toList⟩)) ∧
      emitted (emitted v) = emitted v ∧
      (isBare v.toList = false → isLiteral v.toList = false →
        ∃ body, (emitted v).toList = '"' :: (body ++ ['"']) ∧ unescape body = v.toList)) ∧
    (∀ (v : String) (offset : Nat), isLiteral v.toList = true ↔
      v.toList.head?.any isQuote = true ∧
        ∃ lit next, quoted ⟨v.toList, offset⟩ = .ok (lit, next) ∧ next.rest = []) ∧
    ∀ c v next, value c = .ok (v, next) → emitted v = v := by
  refine ⟨fun v hv => ⟨fun rest offset hrest => ?_, ?_, fun hbare hlit => ?_⟩,
    fun v offset => isLiteral_iff_quoted offset, fun c v next hread => ?_⟩
  · exact value_append (isToken_emitted hv) hrest offset
  · exact emitted_eq_self (isToken_emitted hv)
  · exact ⟨_, emitted_quoted hbare hlit, unescape_escape _⟩
  · exact emitted_eq_self (value_yields hread)

/-- A value with a mark that opens no literal, a backslash and a blank, in front of a parenthesis. -/
theorem value_emitted_mark :
    let v := "'é \\\" ü"
    isBare v.toList = false ∧ isLiteral v.toList = false ∧
      emitted v = "\"'é \\\\\\\" ü\"" ∧
      value ⟨(emitted v).toList ++ [')', 'x'], 7⟩ =
        .ok (emitted v, ⟨[')', 'x'], 7 + utf8Length (emitted v).toList⟩) ∧
      emitted (emitted v) = emitted v ∧
      ∃ body, (emitted v).toList = '"' :: (body ++ ['"']) ∧ unescape body = v.toList := by
  intro v
  have hne : v ≠ "" := by decide
  have hbare : isBare v.toList = false := by decide
  have hlit : isLiteral v.toList = false := by decide +kernel
  have hrest : EndsValue [')', 'x'] := by simp [EndsValue]
  obtain ⟨hread, hagain, hbody⟩ := value_emitted.1 v hne
  have hwritten : emitted v = "\"'é \\\\\\\" ü\"" := by decide +kernel
  exact ⟨hbare, hlit, hwritten, hread _ 7 hrest, hagain, hbody hbare hlit⟩

end MetricQuery.Grammar
