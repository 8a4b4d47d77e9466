/-!
# Spans of bytes

Positions in a text count the bytes of its UTF-8 form.  A span is a half-open
range of such positions.

* `utf8Length` measures a text;
* `splitAtByte?` cuts a text at a position, if the position is between characters, and
  `splitAtByte?_append` and `eq_append_of_splitAtByte?` say exactly when and where;
* `Span.slice?` reads the text under a span and `Span.replace` writes over it.
-/

namespace MetricQuery.Text

/-- The number of bytes that the characters occupy in UTF-8. -/
def utf8Length : List Char → Nat
  | [] => 0
  | c :: rest => c.utf8Size + utf8Length rest

/-- The first `n` bytes of a text and the rest; `none` if position `n` is inside a
character or behind the end. -/
def splitAtByte? : Nat → List Char → Option (List Char × List Char)
  | 0, text => some ([], text)
  | _ + 1, [] => none
  | n + 1, c :: rest =>
    if c.utf8Size ≤ n + 1 then
      (splitAtByte? (n + 1 - c.utf8Size) rest).map fun cut => (c :: cut.1, cut.2)
    else none

/-! ## Lengths and cuts -/

@[simp]
theorem utf8Length_append (a b : List Char) :
    utf8Length (a ++ b) = utf8Length a + utf8Length b := by
  induction a with
  | nil => simp [utf8Length]
  | cons c a ih => simp [utf8Length, ih, Nat.add_assoc]

/-- Cutting behind the first part of a text gives back both parts. -/
theorem splitAtByte?_append (a b : List Char) :
    splitAtByte? (utf8Length a) (a ++ b) = some (a, b) := by
  induction a with
  | nil => cases b <;> rfl
  | cons c a ih =>
    have hpos := c.utf8Size_pos
    obtain ⟨n, hn⟩ := Nat.exists_eq_add_of_lt
      (show 0 < c.utf8Size + utf8Length a by omega)
    have hlen : c.utf8Size + utf8Length a = n + 1 := by omega
    have hrest : n + 1 - c.utf8Size = utf8Length a := by omega
    rw [utf8Length, List.cons_append, hlen, splitAtByte?, if_pos (by omega), hrest, ih]
    rfl

/-- A cut loses nothing, and its first part has the bytes that were asked for. -/
theorem eq_append_of_splitAtByte? {n : Nat} {text a b : List Char}
    (h : splitAtByte? n text = some (a, b)) : text = a ++ b ∧ n = utf8Length a := by
  fun_induction splitAtByte? n text generalizing a b with
  | case1 =>
    obtain ⟨rfl, rfl⟩ := Prod.mk.inj (Option.some.inj h)
    exact ⟨rfl, rfl⟩
  | case2 => simp at h
  | case3 n c rest hfits ih =>
    obtain ⟨cut, hcut, heq⟩ := Option.map_eq_some_iff.1 h
    obtain ⟨rfl, rfl⟩ := Prod.mk.inj heq
    obtain ⟨hrest, hlen⟩ := ih hcut
    refine ⟨by rw [hrest]; rfl, ?_⟩
    rw [utf8Length]
    omega
  | case4 => simp at h

end MetricQuery.Text

namespace MetricQuery

/-- The half-open range of byte positions from `start` to `stop`. -/
structure Span where
  start : Nat
  stop : Nat
  deriving DecidableEq, Repr

namespace Span

open Text

/-- A text cut into what stands before, under and behind a span; `none` if the
span does not fit the text. -/
def cut? (span : Span) (text : List Char) : Option (List Char × List Char × List Char) :=
  if span.start ≤ span.stop then do
    let (before, rest) ← splitAtByte? span.start text
    let (under, behind) ← splitAtByte? (span.stop - span.start) rest
    return (before, under, behind)
  else none

/-- The text under a span; `none` if the span does not fit the text. -/
def slice? (span : Span) (text : List Char) : Option (List Char) :=
  (span.cut? text).map fun parts => parts.2.1

/-- A text with `block` in place of what stands under the span.  A span that does
not fit the text replaces nothing. -/
def replace (span : Span) (block text : List Char) : List Char :=
  match span.cut? text with
  | some (before, _, behind) => before ++ block ++ behind
  | none => text

end Span

end MetricQuery
