import MetricQuery.Text.Word

/-!
# String literals

A literal runs from a quotation mark to the next one of the same kind.  A
backslash takes the character behind it along, whatever that is, so an escaped
mark does not close.

* `closing?` and `literal?` cut a literal off a text;
* `isLiteral` tests a whole text;
* `quote` writes any text as a literal.
-/

namespace MetricQuery.Text

/-- Behind an opening mark: the text up to and with the closing one, and the rest;
`none` if no mark closes. -/
def closing? (mark : Char) : List Char → Option (List Char × List Char)
  | [] => none
  | c :: rest =>
    if c = '\\' then
      match rest with
      | [] => none
      | d :: rest => (closing? mark rest).map fun cut => (c :: d :: cut.1, cut.2)
    else if c = mark then some ([c], rest)
    else (closing? mark rest).map fun cut => (c :: cut.1, cut.2)

/-- The literal that a text starts with, its marks included, and the rest. -/
def literal? : List Char → Option (List Char × List Char)
  | [] => none
  | mark :: rest =>
    if isQuote mark then
      (closing? mark rest).map fun cut => (mark :: cut.1, cut.2)
    else none

/-- Behind an opening mark: is the next closing mark the last character? -/
def closesAtEnd (mark : Char) : List Char → Bool
  | [] => false
  | c :: rest =>
    if c = '\\' then
      match rest with
      | [] => false
      | _ :: rest => closesAtEnd mark rest
    else if c = mark then rest.isEmpty
    else closesAtEnd mark rest

/-- Is the whole text one literal? -/
def isLiteral : List Char → Bool
  | [] => false
  | mark :: rest => isQuote mark && closesAtEnd mark rest

/-- Backslashes and double quotation marks get a backslash in front. -/
def escape : List Char → List Char
  | [] => []
  | c :: rest =>
    if c = '\\' || c = '"' then '\\' :: c :: escape rest else c :: escape rest

/-- A text as a literal in double quotation marks. -/
def quote (text : List Char) : List Char :=
  '"' :: (escape text ++ ['"'])

/-! ## Cutting loses nothing -/

theorem eq_append_of_closing? {mark : Char} {text lit rest : List Char}
    (h : closing? mark text = some (lit, rest)) : text = lit ++ rest := by
  fun_induction closing? mark text generalizing lit rest with
  | case1 => simp at h
  | case2 => simp at h
  | case3 d tail ih =>
    obtain ⟨cut, hcut, heq⟩ := Option.map_eq_some_iff.1 h
    obtain ⟨rfl, rfl⟩ := Prod.mk.inj heq
    rw [ih hcut]
    rfl
  | case4 =>
    obtain ⟨rfl, rfl⟩ := Prod.mk.inj (Option.some.inj h)
    rfl
  | case5 c tail _ _ ih =>
    obtain ⟨cut, hcut, heq⟩ := Option.map_eq_some_iff.1 h
    obtain ⟨rfl, rfl⟩ := Prod.mk.inj heq
    rw [ih hcut]
    rfl

/-- A text that starts with a literal is that literal and the rest, and the literal is
not empty. -/
theorem eq_append_of_literal? {text lit rest : List Char}
    (h : literal? text = some (lit, rest)) : text = lit ++ rest ∧ lit ≠ [] := by
  cases text with
  | nil => simp [literal?] at h
  | cons mark tail =>
    rw [literal?] at h
    split at h
    · obtain ⟨cut, hcut, heq⟩ := Option.map_eq_some_iff.1 h
      obtain ⟨rfl, rfl⟩ := Prod.mk.inj heq
      rw [eq_append_of_closing? hcut]
      exact ⟨rfl, List.cons_ne_nil _ _⟩
    · simp at h

/-- Behind a literal less text is left. -/
theorem length_of_literal? {text lit rest : List Char}
    (h : literal? text = some (lit, rest)) : rest.length < text.length := by
  obtain ⟨htext, hlit⟩ := eq_append_of_literal? h
  have hpos := List.length_pos_iff.2 hlit
  rw [htext, List.length_append]
  omega

end MetricQuery.Text
