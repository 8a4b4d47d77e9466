import MetricQuery.Filter.Basic
import MetricQuery.Proofs.Text.Classes
import MetricQuery.Text.Span

/-!
# Literals and values

Whether a text is one string literal and where a literal ends are two functions.  They
agree: `literal?` cuts exactly the texts off that `isLiteral` accepts.

A value token is a text that stands for itself as a value, a literal or a run of value
characters.  `Filter.emitted` makes a token of every text that is not empty, and leaves
tokens as they are.
-/

namespace MetricQuery.Text

/-- Joined texts, the first one taken off: each of the others has the joint in front. -/
theorem toList_intercalate_cons (joint text : String) (more : List String) :
    (joint.intercalate (text :: more)).toList =
      text.toList ++ more.flatMap fun t => joint.toList ++ t.toList := by
  induction more generalizing text with
  | nil => simp
  | cons u more ih =>
    rw [String.intercalate_cons_cons, String.toList_append, String.toList_append, ih u,
      List.flatMap_cons]
    simp

theorem utf8ByteSize_eq (text : String) : text.utf8ByteSize = utf8Length text.toList := by
  have hlist : ∀ chars : List Char, (String.ofList chars).utf8ByteSize = utf8Length chars := by
    intro chars
    induction chars with
    | nil => rfl
    | cons c chars ih =>
      rw [← List.singleton_append, String.ofList_append, String.utf8ByteSize_append, ih]
      simp [utf8Length]
  rw [← hlist, String.ofList_toList]

theorem utf8Length_pos {text : List Char} (h : text ≠ []) : 0 < utf8Length text := by
  cases text with
  | nil => exact absurd rfl h
  | cons c text => exact Nat.lt_of_lt_of_le c.utf8Size_pos (Nat.le_add_right _ _)

/-- A character takes a byte or more. -/
theorem length_le_utf8Length (text : List Char) : text.length ≤ utf8Length text := by
  induction text with
  | nil => simp
  | cons c text ih =>
    have hpos := c.utf8Size_pos
    rw [List.length_cons, utf8Length]
    omega

/-! ## Literals -/

theorem closing?_cons {mark c : Char} (rest : List Char) (h : c ≠ '\\') :
    closing? mark (c :: rest) =
      if c = mark then some ([c], rest)
      else (closing? mark rest).map fun cut => (c :: cut.1, cut.2) := by
  rw [closing?.eq_def]
  exact if_neg h

theorem closesAtEnd_cons {mark c : Char} (rest : List Char) (h : c ≠ '\\') :
    closesAtEnd mark (c :: rest) =
      if c = mark then rest.isEmpty else closesAtEnd mark rest := by
  rw [closesAtEnd.eq_def]
  exact if_neg h

theorem closing?_append {mark : Char} {lit : List Char} (rest : List Char)
    (h : closesAtEnd mark lit = true) : closing? mark (lit ++ rest) = some (lit, rest) := by
  fun_induction closesAtEnd mark lit with
  | case1 => simp at h
  | case2 => simp at h
  | case3 d tail ih =>
    simp [closing?, ih h]
  | case4 tail hslash =>
    have htail : tail = [] := by simpa using h
    rw [htail, List.cons_append, closing?_cons _ hslash, if_pos rfl, List.nil_append]
  | case5 c tail hslash hmark ih =>
    rw [List.cons_append, closing?_cons _ hslash, if_neg hmark, ih h]
    rfl

theorem closesAtEnd_of_closing? {mark : Char} {text lit rest : List Char}
    (h : closing? mark text = some (lit, rest)) : closesAtEnd mark lit = true := by
  fun_induction closing? mark text generalizing lit rest with
  | case1 => simp at h
  | case2 => simp at h
  | case3 d tail ih =>
    obtain ⟨cut, hcut, heq⟩ := Option.map_eq_some_iff.1 h
    obtain ⟨rfl, rfl⟩ := Prod.mk.inj heq
    simpa [closesAtEnd] using ih hcut
  | case4 tail hslash =>
    obtain ⟨rfl, rfl⟩ := Prod.mk.inj (Option.some.inj h)
    rw [closesAtEnd_cons _ hslash, if_pos rfl, List.isEmpty_nil]
  | case5 c tail hslash hmark ih =>
    obtain ⟨cut, hcut, heq⟩ := Option.map_eq_some_iff.1 h
    obtain ⟨rfl, rfl⟩ := Prod.mk.inj heq
    rw [closesAtEnd_cons _ hslash, if_neg hmark]
    exact ih hcut

/-- A literal is cut off whatever follows it. -/
theorem literal?_append {lit : List Char} (rest : List Char) (h : isLiteral lit = true) :
    literal? (lit ++ rest) = some (lit, rest) := by
  cases lit with
  | nil => simp [isLiteral] at h
  | cons mark tail =>
    simp only [isLiteral, Bool.and_eq_true] at h
    simp [literal?, h.1, closing?_append rest h.2]

/-- What is cut off is a literal. -/
theorem isLiteral_of_literal? {text lit rest : List Char}
    (h : literal? text = some (lit, rest)) : isLiteral lit = true := by
  cases text with
  | nil => simp [literal?] at h
  | cons mark tail =>
    rw [literal?] at h
    split at h
    · next hmark =>
      obtain ⟨cut, hcut, heq⟩ := Option.map_eq_some_iff.1 h
      obtain ⟨rfl, rfl⟩ := Prod.mk.inj heq
      simp [isLiteral, hmark, closesAtEnd_of_closing? hcut]
    · simp at h

theorem getLast?_of_closesAtEnd {mark : Char} {text : List Char}
    (h : closesAtEnd mark text = true) : text.getLast? = some mark := by
  fun_induction closesAtEnd mark text with
  | case1 => simp at h
  | case2 => simp at h
  | case3 d tail ih =>
    have hlast := ih h
    simp [List.getLast?_cons, hlast]
  | case4 tail hslash =>
    have htail : tail = [] := by simpa using h
    simp [htail]
  | case5 c tail hslash hmark ih =>
    have hlast := ih h
    simp [List.getLast?_cons, hlast]

/-- A literal starts and ends with a quotation mark. -/
theorem isQuote_ends_of_isLiteral {lit : List Char} (h : isLiteral lit = true) :
    lit.head?.any isQuote = true ∧ lit.getLast?.any isQuote = true := by
  cases lit with
  | nil => simp [isLiteral] at h
  | cons mark tail =>
    simp only [isLiteral, Bool.and_eq_true] at h
    simp [h.1, List.getLast?_cons, getLast?_of_closesAtEnd h.2]

theorem closesAtEnd_escape (text : List Char) :
    closesAtEnd '"' (escape text ++ ['"']) = true := by
  induction text with
  | nil => decide
  | cons c rest ih =>
    by_cases hslash : c = '\\'
    · subst hslash
      simpa [escape, closesAtEnd] using ih
    · by_cases hquote : c = '"'
      · subst hquote
        simpa [escape, closesAtEnd] using ih
      · simp only [escape, hslash, hquote, decide_false, Bool.or_self, Bool.false_eq_true,
          if_false, List.cons_append]
        rw [closesAtEnd_cons _ hslash, if_neg hquote]
        exact ih

/-- Quoting makes a literal of any text. -/
theorem isLiteral_quote (text : List Char) : isLiteral (quote text) = true := by
  simp [quote, isLiteral, closesAtEnd_escape, isQuote]

/-! ## Values -/

/-- A text that is read as one value: a literal, or a run of value characters that does
not start with a quotation mark. -/
def IsToken (text : List Char) : Prop :=
  isLiteral text = true ∨ text ≠ [] ∧ Filter.isBare text = true

theorem IsToken.ne_nil {text : List Char} (h : IsToken text) : text ≠ [] := by
  rintro rfl
  rcases h with h | h
  · simp [isLiteral] at h
  · exact h.1 rfl

end MetricQuery.Text

namespace MetricQuery.Filter

open Text

theorem isToken_emitted {value : String} (h : value ≠ "") :
    IsToken (emitted value).toList := by
  rw [emitted]
  split
  · next hkept =>
    rcases Bool.or_eq_true_iff.1 hkept with hbare | hlit
    · exact .inr ⟨by simpa using h, hbare⟩
    · exact .inl hlit
  · rw [String.toList_ofList]
    exact .inl (isLiteral_quote _)

/-- A value that can stand for itself is written as it is. -/
theorem emitted_eq_self {value : String} (h : IsToken value.toList) :
    emitted value = value := by
  rw [emitted, if_pos]
  rcases h with hlit | hbare
  · simp [hlit]
  · simp [hbare.2]

end MetricQuery.Filter
