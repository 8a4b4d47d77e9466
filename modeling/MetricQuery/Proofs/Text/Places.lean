import MetricQuery.Proofs.Text.Splices

/-!
# Places in a text

Spans that fit a text, and spans that lie one behind the other in it.

* `Span.Fits`: the span is a range of the text between characters.
* `Marks`: the spans lie in the text in order and without overlap.  It is put together as the
  text is, by `Marks.prepend`, `Marks.append` and `Marks.within`; what it says of each span and
  of two of them is `Marks.fits`, `Marks.bounds` and `Marks.pairwise`.
-/

namespace MetricQuery

open Text

/-- A position of the text between two characters, or at an end. -/
def Boundary (text : List Char) (position : Nat) : Prop :=
  ∃ before behind, text = before ++ behind ∧ position = utf8Length before

theorem Boundary.le {text : List Char} {position : Nat} (h : Boundary text position) :
    position ≤ utf8Length text := by
  obtain ⟨before, behind, rfl, rfl⟩ := h
  rw [utf8Length_append]
  exact Nat.le_add_right _ _

/-- The span is a range of the text whose ends do not cut a character. -/
structure Span.Fits (span : Span) (text : List Char) : Prop where
  ordered : span.start ≤ span.stop
  inside : span.stop ≤ utf8Length text
  start : Boundary text span.start
  stop : Boundary text span.stop

theorem Span.fits_append (before under behind : List Char) :
    (Span.mk (utf8Length before) (utf8Length before + utf8Length under)).Fits
      (before ++ (under ++ behind)) := by
  refine ⟨Nat.le_add_right _ _, ?_, ⟨before, under ++ behind, rfl, rfl⟩,
    ⟨before ++ under, behind, by simp, (utf8Length_append before under).symm⟩⟩
  simp only [utf8Length_append]
  omega

/-- From byte `start` on there is this text, and the spans lie in it one behind the other. -/
inductive Marks : Nat → List Char → List Span → Prop where
  | none (start : Nat) (text : List Char) : Marks start text []
  | span {start : Nat} {before under rest : List Char} {spans : List Span}
      (hrest : Marks (start + utf8Length before + utf8Length under) rest spans) :
      Marks start (before ++ (under ++ rest))
        (⟨start + utf8Length before, start + utf8Length before + utf8Length under⟩ :: spans)

namespace Marks

variable {start : Nat} {text : List Char} {spans : List Span}

theorem whole (start : Nat) (text : List Char) :
    Marks start text [⟨start, start + utf8Length text⟩] := by
  have h : Marks start ([] ++ (text ++ [])) _ := .span (.none _ [])
  simpa [utf8Length] using h

theorem prepend (front : List Char) (h : Marks (start + utf8Length front) text spans) :
    Marks start (front ++ text) spans := by
  generalize hplace : start + utf8Length front = place at h
  cases h with
  | none => exact .none start _
  | @span _ before under rest spans hrest =>
    have hfront : start + utf8Length (front ++ before) = place + utf8Length before := by
      rw [utf8Length_append, ← Nat.add_assoc, hplace]
    rw [← hfront] at hrest ⊢
    rw [← List.append_assoc front before]
    exact .span hrest

theorem append {more : List Char} {others : List Span} (h : Marks start text spans)
    (hmore : Marks (start + utf8Length text) more others) :
    Marks start (text ++ more) (spans ++ others) := by
  induction h with
  | none => exact hmore.prepend _
  | @span start before under rest spans _ ih =>
    rw [List.append_assoc, List.append_assoc]
    refine .span (ih ?_)
    simpa only [utf8Length_append, Nat.add_assoc] using hmore

/-- The spans lie in a text that goes on. -/
theorem upTo (h : Marks start text spans) (rest : List Char) :
    Marks start (text ++ rest) spans := by
  simpa using h.append (.none _ rest)

/-- The spans lie in a text with more around it. -/
theorem within (front rest : List Char) (h : Marks (start + utf8Length front) text spans) :
    Marks start (front ++ (text ++ rest)) spans :=
  (h.upTo rest).prepend front

theorem bounds (h : Marks start text spans) :
    ∀ span ∈ spans, start ≤ span.start ∧ span.stop ≤ start + utf8Length text := by
  induction h with
  | none => simp
  | @span start before under rest spans _ ih =>
    simp only [utf8Length_append]
    refine List.forall_mem_cons.2 ⟨⟨Nat.le_add_right _ _, by dsimp only; omega⟩,
      fun span hmem => ?_⟩
    have := ih span hmem
    omega

theorem pairwise (h : Marks start text spans) :
    spans.Pairwise fun a b => a.stop ≤ b.start := by
  induction h with
  | none => exact .nil
  | span hrest ih => exact .cons (fun span hmem => (hrest.bounds span hmem).1) ih

/-- Under each span stands a part of the text. -/
theorem exists_under (h : Marks start text spans) :
    ∀ span ∈ spans, ∃ before under behind, text = before ++ (under ++ behind) ∧
      span = ⟨start + utf8Length before, start + utf8Length before + utf8Length under⟩ := by
  induction h with
  | none => simp
  | @span start before under rest spans _ ih =>
    refine List.forall_mem_cons.2 ⟨⟨before, under, rest, rfl, rfl⟩, fun span hmem => ?_⟩
    obtain ⟨skipped, marked, behind, rfl, rfl⟩ := ih span hmem
    exact ⟨before ++ (under ++ skipped), marked, behind, by simp,
      by simp only [utf8Length_append, Nat.add_assoc]⟩

theorem fits (h : Marks 0 text spans) : ∀ span ∈ spans, span.Fits text := by
  intro span hmem
  obtain ⟨before, under, behind, rfl, rfl⟩ := h.exists_under span hmem
  rw [Nat.zero_add]
  exact Span.fits_append before under behind

end Marks

end MetricQuery
