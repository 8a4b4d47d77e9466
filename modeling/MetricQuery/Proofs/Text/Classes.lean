import Mathlib.Data.List.TakeWhile
import Mathlib.Tactic.ByContra
import Mathlib.Tactic.SplitIfs
import MetricQuery.Text.Literal

/-!
# Character classes and runs

The classes of `Text.Word` and `Text.Blank` are told apart by code points, and a run of
one class ends where a character of another one follows.

* `toNat_of_isBlank`, `toNat_of_isKeyChar` and the like give the code points of a class;
  from them follow the facts that two classes have no character in common.
* `Stops` says that no character of a class comes next.  `takeWhile_of_stops` and
  `dropWhile_of_stops` cut a run off in front of such a place.
* `trim_of_trimmed`: a text without blanks at its ends stays as it is.
-/

namespace MetricQuery.Text

/-! ## Code points -/

theorem toNat_of_isBlank {c : Char} (h : isBlank c = true) :
    c.toNat ≤ 13 ∨ c.toNat = 32 ∨ 133 ≤ c.toNat := by
  simp [isBlank, blankRanges] at h
  omega

theorem isAlpha_iff_toNat {c : Char} :
    c.isAlpha = true ↔ 65 ≤ c.toNat ∧ c.toNat ≤ 90 ∨ 97 ≤ c.toNat ∧ c.toNat ≤ 122 := by
  show (decide (c.val ≥ 'A'.val ∧ c.val ≤ 'Z'.val) ||
    (c.val ≥ 'a'.val && c.val ≤ 'z'.val)) = true ↔ _
  simp [UInt32.le_iff_toNat_le]

theorem toNat_of_isAlphanum {c : Char} (h : c.isAlphanum = true) :
    48 ≤ c.toNat ∧ c.toNat ≤ 57 ∨ 65 ≤ c.toNat ∧ c.toNat ≤ 90 ∨
      97 ≤ c.toNat ∧ c.toNat ≤ 122 := by
  simp [Char.isAlphanum, isAlpha_iff_toNat, Char.isDigit, UInt32.le_iff_toNat_le] at h
  omega

/-- Key characters are ASCII characters above `,` and below `{`, and no colon. -/
theorem toNat_of_isKeyChar {c : Char} (h : isKeyChar c = true) :
    45 ≤ c.toNat ∧ c.toNat ≤ 122 ∧ c.toNat ≠ 58 := by
  simp only [isKeyChar, Bool.or_eq_true, decide_eq_true_eq] at h
  rcases h with ((((h | rfl) | rfl) | rfl) | rfl) | rfl
  · have := toNat_of_isAlphanum h
    omega
  all_goals decide

/-- An upper case form is a code point 32 below. -/
theorem toNat_toUpper (c : Char) :
    c.toUpper.toNat =
      if 97 ≤ c.toNat ∧ c.toNat ≤ 122 then c.toNat - 32 else c.toNat := by
  unfold Char.toUpper
  split
  · next h =>
    simp [UInt32.le_iff_toNat_le] at h
    rw [if_pos h, ← Char.toNat_val]
    simp
    omega
  · next h =>
    simp [UInt32.le_iff_toNat_le] at h
    rw [if_neg]
    simpa using h

/-! ## Classes without a common character -/

theorem isKeyChar_of_isAlpha {c : Char} (h : c.isAlpha = true) : isKeyChar c = true := by
  simp [isKeyChar, Char.isAlphanum, h]

theorem isKeyChar_eq_false_of_isBlank {c : Char} (h : isBlank c = true) :
    isKeyChar c = false := by
  by_contra hkey
  have hkey := toNat_of_isKeyChar (by simpa using hkey)
  have hblank := toNat_of_isBlank h
  omega

theorem isValueChar_eq_false_of_isBlank {c : Char} (h : isBlank c = true) :
    isValueChar c = false := by
  simp [isValueChar, h]

theorem isTagChar_eq_false_of_isBlank {c : Char} (h : isBlank c = true) :
    isTagChar c = false := by
  simp [isTagChar, h]

/-- A blank is not one of the characters that are visible in ASCII. -/
theorem ne_of_isBlank {c d : Char} (h : isBlank c = true)
    (hd : 33 ≤ d.toNat ∧ d.toNat ≤ 126) : c ≠ d := by
  rintro rfl
  have hblank := toNat_of_isBlank h
  omega

theorem isQuote_eq_false_of_isBlank {c : Char} (h : isBlank c = true) :
    isQuote c = false := by
  have hsingle := ne_of_isBlank h (show 33 ≤ '\''.toNat ∧ '\''.toNat ≤ 126 by decide)
  have hdouble := ne_of_isBlank h (show 33 ≤ '"'.toNat ∧ '"'.toNat ≤ 126 by decide)
  simp [isQuote, hsingle, hdouble]

theorem isBlank_eq_false_of_isQuote {c : Char} (h : isQuote c = true) :
    isBlank c = false := by
  by_contra hblank
  rw [isQuote_eq_false_of_isBlank (by simpa using hblank)] at h
  simp at h

/-- A word starts with none of the characters that start another term. -/
theorem facts_of_isWordStart {c : Char} (h : isWordStart c = true) :
    isBlank c = false ∧ c ≠ '(' ∧ isQuote c = false ∧ c.isDigit = false ∧ c ≠ '-' := by
  have hrange : 65 ≤ c.toNat ∧ c.toNat ≤ 90 ∨ 95 ≤ c.toNat ∧ c.toNat ≤ 122 := by
    simp only [isWordStart, Bool.or_eq_true, decide_eq_true_eq] at h
    rcases h with h | rfl
    · have := isAlpha_iff_toNat.1 h
      omega
    · decide
  have hne : ∀ d : Char, d.toNat < 65 → c ≠ d := by
    rintro d hd rfl
    omega
  refine ⟨?_, hne '(' (by decide), ?_, ?_, hne '-' (by decide)⟩
  · by_contra hblank
    have := toNat_of_isBlank (by simpa using hblank)
    omega
  · simp [isQuote, hne '\'' (by decide), hne '"' (by decide)]
  · by_contra hdigit
    simp [Char.isDigit, UInt32.le_iff_toNat_le] at hdigit
    omega

theorem isMetricChar_of_isWordStart {c : Char} (h : isWordStart c = true) :
    isMetricChar c = true := by
  simp only [isWordStart, Bool.or_eq_true] at h
  simp only [isMetricChar, isWordChar, Char.isAlphanum, Bool.or_eq_true]
  rcases h with h | h
  · exact .inl (.inl (.inl h))
  · exact .inl (.inr h)

theorem isBlank_eq_false_of_isKeyChar {c : Char} (h : isKeyChar c = true) :
    isBlank c = false := by
  by_contra hblank
  rw [isKeyChar_eq_false_of_isBlank (by simpa using hblank)] at h
  simp at h

/-! ## Letters in any case -/

theorem sameLetters_self (text : List Char) : sameLetters text text = true := by
  simp [sameLetters]

theorem sameLetters_symm {a b : List Char} (h : sameLetters a b = true) :
    sameLetters b a = true := by
  simp only [sameLetters, beq_iff_eq] at h ⊢
  exact h.symm

theorem sameLetters_trans {a b c : List Char} (hab : sameLetters a b = true)
    (hbc : sameLetters b c = true) : sameLetters a c = true := by
  simp only [sameLetters, beq_iff_eq] at hab hbc ⊢
  exact hab.trans hbc

theorem length_eq_of_sameLetters {a b : List Char} (h : sameLetters a b = true) :
    a.length = b.length := by
  simp only [sameLetters, beq_iff_eq] at h
  simpa using congrArg List.length h

theorem isAlpha_of_toUpper_eq {c d : Char} (hd : d.isAlpha = true)
    (h : c.toUpper = d.toUpper) : c.isAlpha = true := by
  have heq : c.toUpper.toNat = d.toUpper.toNat := by rw [h]
  rw [toNat_toUpper, toNat_toUpper] at heq
  have hd := isAlpha_iff_toNat.1 hd
  apply isAlpha_iff_toNat.2
  split_ifs at heq <;> omega

/-- A text that agrees with a word of letters up to their case is made of letters. -/
theorem isAlpha_of_sameLetters {a b : List Char} (hb : ∀ c ∈ b, c.isAlpha = true)
    (h : sameLetters a b = true) : ∀ c ∈ a, c.isAlpha = true := by
  simp only [sameLetters, beq_iff_eq] at h
  intro c hc
  have hmem : c.toUpper ∈ b.map Char.toUpper := h ▸ List.mem_map_of_mem hc
  obtain ⟨d, hd, heq⟩ := List.mem_map.1 hmem
  exact isAlpha_of_toUpper_eq (hb d hd) heq.symm

/-! ## Runs -/

/-- No character of the class comes next. -/
def Stops (p : Char → Bool) (rest : List Char) : Prop :=
  ∀ c ∈ rest.head?, p c = false

@[simp]
theorem stops_nil (p : Char → Bool) : Stops p [] := by
  simp [Stops]

@[simp]
theorem stops_cons {p : Char → Bool} {c : Char} {rest : List Char} :
    Stops p (c :: rest) ↔ p c = false := by
  simp [Stops]

theorem stops_append {p : Char → Bool} {text rest : List Char} (htext : text ≠ [])
    (h : Stops p text) : Stops p (text ++ rest) := by
  cases text with
  | nil => exact absurd rfl htext
  | cons c text => simpa using h

theorem Stops.append {p : Char → Bool} {a b : List Char} (ha : Stops p a) (hb : Stops p b) :
    Stops p (a ++ b) := by
  cases a with
  | nil => exact hb
  | cons c a => exact ha

theorem Stops.of_append {p : Char → Bool} {a b : List Char} (h : Stops p (a ++ b)) :
    Stops p a := by
  cases a with
  | nil => exact stops_nil p
  | cons c a => exact h

/-- Behind a run its class stops. -/
theorem stops_dropWhile (p : Char → Bool) (text : List Char) :
    Stops p (text.dropWhile p) := by
  intro c hc
  have h := List.head?_dropWhile_not p text
  rw [Option.mem_def.1 hc] at h
  simpa using h

theorem takeWhile_of_stops {p : Char → Bool} {text rest : List Char}
    (htext : ∀ c ∈ text, p c = true) (hrest : Stops p rest) :
    (text ++ rest).takeWhile p = text := by
  rw [List.takeWhile_append_of_pos htext]
  cases rest with
  | nil => simp
  | cons c rest => rw [List.takeWhile_cons, stops_cons.1 hrest]; simp

theorem dropWhile_of_stops {p : Char → Bool} {text rest : List Char}
    (htext : ∀ c ∈ text, p c = true) (hrest : Stops p rest) :
    (text ++ rest).dropWhile p = rest := by
  rw [List.dropWhile_append_of_pos htext]
  cases rest with
  | nil => simp
  | cons c rest => rw [List.dropWhile_cons, stops_cons.1 hrest]; simp

/-! ## Trimmed texts -/

/-- A text that neither starts nor ends with a blank. -/
def Trimmed (text : List Char) : Prop :=
  Stops isBlank text ∧ Stops isBlank text.reverse

theorem skipBlank_of_stops {text : List Char} (h : Stops isBlank text) :
    skipBlank text = text := by
  have hnone : ∀ c ∈ ([] : List Char), isBlank c = true := by simp
  simpa [skipBlank] using dropWhile_of_stops hnone h

theorem trim_of_trimmed {text : List Char} (h : Trimmed text) : trim text = text := by
  have hend : text.reverse.dropWhile isBlank = text.reverse := skipBlank_of_stops h.2
  rw [trim, skipBlank_of_stops h.1, trimRight, hend, List.reverse_reverse]

/-- A text is what is left of it without its trailing blanks, and those blanks. -/
theorem trimRight_append (text : List Char) :
    ∃ blanks, text = trimRight text ++ blanks ∧ ∀ c ∈ blanks, isBlank c = true := by
  refine ⟨(text.reverse.takeWhile isBlank).reverse, ?_, ?_⟩
  · rw [trimRight, ← List.reverse_append, List.takeWhile_append_dropWhile,
      List.reverse_reverse]
  · intro c hc
    exact List.mem_takeWhile_imp (List.mem_reverse.1 hc)

/-- A text is its leading blanks, the trimmed text and its trailing blanks. -/
theorem exists_trim (text : List Char) :
    ∃ before behind, text = before ++ trim text ++ behind ∧
      (∀ c ∈ before, isBlank c = true) ∧ (∀ c ∈ behind, isBlank c = true) := by
  obtain ⟨behind, hbehind, hblank⟩ := trimRight_append (skipBlank text)
  refine ⟨text.takeWhile isBlank, behind, ?_, ?_, hblank⟩
  · rw [trim, List.append_assoc, ← hbehind, skipBlank, List.takeWhile_append_dropWhile]
  · intro c hc
    exact List.mem_takeWhile_imp hc

theorem mem_of_mem_trim {c : Char} {text : List Char} (h : c ∈ trim text) : c ∈ text := by
  obtain ⟨before, behind, htext, -, -⟩ := exists_trim text
  rw [htext, List.append_assoc]
  exact List.mem_append_right _ (List.mem_append_left _ h)

theorem trimmed_trim (text : List Char) : Trimmed (trim text) := by
  refine ⟨?_, ?_⟩
  · rw [trim]
    obtain ⟨blanks, hblanks, -⟩ := trimRight_append (skipBlank text)
    cases hright : trimRight (skipBlank text) with
    | nil => simp
    | cons c rest =>
      have hstops : Stops isBlank (skipBlank text) := stops_dropWhile isBlank text
      rw [hblanks, hright, List.cons_append, stops_cons] at hstops
      exact stops_cons.2 hstops
  · rw [trim, trimRight, List.reverse_reverse]
    exact stops_dropWhile isBlank _

/-- Blanks at both ends do not matter to `trim`. -/
theorem trim_append {before text behind : List Char} (htext : Trimmed text)
    (hbefore : ∀ c ∈ before, isBlank c = true) (hbehind : ∀ c ∈ behind, isBlank c = true) :
    trim (before ++ text ++ behind) = text := by
  rw [trim, skipBlank, List.append_assoc, List.dropWhile_append_of_pos hbefore, trimRight]
  cases text with
  | nil =>
    have hskip : behind.dropWhile isBlank = [] := by
      simpa using dropWhile_of_stops hbehind (stops_nil isBlank)
    simp [hskip]
  | cons c text =>
    have hc := stops_cons.1 htext.1
    rw [List.cons_append, List.dropWhile_cons, hc]
    rw [← List.cons_append, if_neg (by simp), List.reverse_append,
      dropWhile_of_stops (fun d hd => hbehind d (List.mem_reverse.1 hd)) htext.2,
      List.reverse_reverse]

end MetricQuery.Text
