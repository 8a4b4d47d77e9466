import MetricQuery.Proofs.Grammar.Arguments
import MetricQuery.Proofs.Grammar.Finds
import MetricQuery.Query.FunctionCall

/-!
# Arguments that survive writing and reading

The arguments of a call are written with commas between them and nothing else that would mark
where one ends.  Which texts can be told apart there is said by a scan from left to right that
knows only how many parentheses are open and whether a literal is.

* `Scan.step`: the scan reads one character; `IsClean` is a trimmed text that it reads from its
  start to its end without leaving the argument.
* `isClean_iff`: these are the texts of `CleanArgument`.
* `rawArguments_render`: clean arguments are read as they are written, and arguments that are
  read are clean.
-/

namespace MetricQuery.Grammar

open Text

/-! ## The scan -/

/-- Where the scan of an argument is. -/
inductive Scan where
  /-- Outside of literals, with so many parentheses open. -/
  | outside (depth : Nat)
  /-- In a literal with this mark. -/
  | inside (depth : Nat) (mark : Char)
  /-- Behind a backslash in such a literal. -/
  | escaped (depth : Nat) (mark : Char)
  deriving DecidableEq, Repr

/-- One character more; `none` where it would end the argument. -/
def Scan.step : Scan → Char → Option Scan
  | .outside depth, c =>
    if isQuote c then some (.inside depth c)
    else if c = '(' then some (.outside (depth + 1))
    else if depth = 0 && (c = ')' || c = ',') then none
    else if c = ')' then some (.outside (depth - 1))
    else some (.outside depth)
  | .inside depth mark, c =>
    if c = '\\' then some (.escaped depth mark)
    else if c = mark then some (.outside depth)
    else some (.inside depth mark)
  | .escaped depth mark, _ => some (.inside depth mark)

/-- A character that neither opens a literal nor ends the argument counts if it is a parenthesis. -/
theorem Scan.step_outside {depth : Nat} {c : Char} (hquote : isQuote c = false)
    (hend : (c = ')' → depth ≠ 0) ∧ (c = ',' → depth ≠ 0)) :
    Scan.step (.outside depth) c = some (.outside
      (if c = '(' then depth + 1 else if c = ')' then depth - 1 else depth)) := by
  have hinside : (depth = 0 && (c = ')' || c = ',')) = false := by
    by_contra hnot
    simp only [Bool.not_eq_false, Bool.and_eq_true, Bool.or_eq_true, decide_eq_true_eq] at hnot
    rcases hnot.2 with hclose | hcomma
    · exact hend.1 hclose hnot.1
    · exact hend.2 hcomma hnot.1
  simp only [Scan.step, hquote, hinside, Bool.false_eq_true, if_false]
  split_ifs <;> rfl

/-- The text has no blanks at its ends, and a scan closes all of its literals and parentheses and
finds no comma outside of them. -/
def IsClean (text : List Char) : Prop :=
  text ≠ [] ∧ trim text = text ∧ text.foldlM Scan.step (.outside 0) = some (.outside 0)

instance (text : List Char) : Decidable (IsClean text) :=
  inferInstanceAs (Decidable (_ ∧ _ ∧ _))

/-! ## Literals -/

/-- Behind its first mark the rest of a literal is scanned up to its end. -/
theorem foldlM_inside {mark : Char} {text : List Char} (depth : Nat)
    (h : closesAtEnd mark text = true) :
    text.foldlM Scan.step (.inside depth mark) = some (.outside depth) := by
  fun_induction closesAtEnd mark text with
  | case1 => simp at h
  | case2 => simp at h
  | case3 d tail ih => simpa [Scan.step] using ih h
  | case4 tail hslash =>
    have htail : tail = [] := by simpa using h
    simp [htail, Scan.step, hslash]
  | case5 c tail hslash hmark ih => simpa [Scan.step, hslash, hmark] using ih h

/-- A literal is scanned whatever is open around it. -/
theorem foldlM_literal {lit : List Char} (depth : Nat) (h : isLiteral lit = true) :
    lit.foldlM Scan.step (.outside depth) = some (.outside depth) := by
  cases lit with
  | nil => simp [isLiteral] at h
  | cons mark tail =>
    rw [isLiteral, Bool.and_eq_true] at h
    simpa [Scan.step, h.1] using foldlM_inside depth h.2

/-- A scan that leaves a literal has read it up to its mark. -/
theorem exists_closesAtEnd {mark : Char} {depth last : Nat} {text : List Char}
    (h : text.foldlM Scan.step (.inside depth mark) = some (.outside last)) :
    ∃ lit rest, text = lit ++ rest ∧ closesAtEnd mark lit = true ∧
      rest.foldlM Scan.step (.outside depth) = some (.outside last) := by
  fun_induction closesAtEnd mark text with
  | case1 => simp at h
  | case2 => simp [Scan.step] at h
  | case3 d tail ih =>
    obtain ⟨lit, rest, rfl, hlit, hrest⟩ := ih (by simpa [Scan.step] using h)
    exact ⟨'\\' :: d :: lit, rest, rfl, by simpa [closesAtEnd] using hlit, hrest⟩
  | case4 tail hslash =>
    refine ⟨[mark], tail, rfl, ?_, by simpa [Scan.step, hslash] using h⟩
    rw [closesAtEnd_cons _ hslash, if_pos rfl, List.isEmpty_nil]
  | case5 c tail hslash hmark ih =>
    obtain ⟨lit, rest, rfl, hlit, hrest⟩ := ih (by simpa [Scan.step, hslash, hmark] using h)
    refine ⟨c :: lit, rest, rfl, ?_, hrest⟩
    rw [closesAtEnd_cons _ hslash, if_neg hmark]
    exact hlit

/-! ## Clean arguments -/

/-- A balanced text is scanned up to its end. -/
theorem Balanced.foldlM_eq {depth : Nat} {text : List Char} (h : Balanced depth text) :
    text.foldlM Scan.step (.outside depth) = some (.outside 0) := by
  induction h with
  | done => rfl
  | literal hlit _ ih => rw [List.foldlM_append, foldlM_literal _ hlit]; exact ih
  | opening _ ih => simpa [Scan.step, isQuote] using ih
  | closing _ ih => simpa [Scan.step, isQuote] using ih
  | comma _ ih => simpa [Scan.step, isQuote] using ih
  | other hquote hc _ ih => simpa [Scan.step, hquote, hc] using ih

/-- What is scanned up to its end is balanced. -/
theorem balanced_of_foldlM {depth : Nat} {text : List Char}
    (h : text.foldlM Scan.step (.outside depth) = some (.outside 0)) : Balanced depth text := by
  induction hlen : text.length using Nat.strong_induction_on generalizing text depth with
  | _ length ih =>
  cases text with
  | nil =>
    obtain rfl : depth = 0 := by simpa using h
    exact .done
  | cons c tail =>
    have hshort : tail.length < length := by simp [← hlen]
    cases hquote : isQuote c with
    | true =>
      obtain ⟨lit, rest, rfl, hlit, hrest⟩ :=
        exists_closesAtEnd (by simpa [Scan.step, hquote] using h)
      have hwhole : isLiteral (c :: lit) = true := by simp [isLiteral, hquote, hlit]
      exact .literal hwhole (ih _ (by simp at hshort; omega) hrest rfl)
    | false =>
      have hend : (c = ')' → depth ≠ 0) ∧ (c = ',' → depth ≠ 0) := by
        constructor <;> rintro rfl rfl <;> simp [Scan.step, isQuote] at h
      rw [List.foldlM_cons, Scan.step_outside hquote hend] at h
      exact balanced_of_inside hquote hend (ih _ hshort h rfl)

theorem isClean_iff {text : List Char} : IsClean text ↔ CleanArgument text := by
  constructor
  · rintro ⟨hne, htrim, hscan⟩
    exact ⟨hne, htrim ▸ trimmed_trim text, balanced_of_foldlM hscan⟩
  · rintro ⟨hne, htrimmed, hbalanced⟩
    exact ⟨hne, trim_of_trimmed htrimmed, hbalanced.foldlM_eq⟩

/-! ## Writing and reading -/

/-- Clean arguments behind the opening parenthesis of a written call are read as they are, up to and
with the closing parenthesis, whatever follows; and all arguments that are read from any text are
clean. -/
theorem rawArguments_render :
    (∀ (name : String) (arguments : List String), name ≠ "" →
      (∀ a ∈ arguments, IsClean a.toList) →
      ∃ written inside, (FunctionCall.mk name arguments).render = .ok written ∧
        written.toList = '.' :: (name.toList ++ '(' :: inside) ∧
        ∀ opened offset rest, rawArguments opened ⟨inside ++ rest, offset⟩ =
          .ok (arguments, ⟨rest, offset + utf8Length inside⟩)) ∧
    ∀ opened c arguments next, rawArguments opened c = .ok (arguments, next) →
      ∀ a ∈ arguments, IsClean a.toList := by
  constructor
  · intro name arguments hname hclean
    have hspelled := argumentsSpelled_of_clean fun a ha => isClean_iff.1 (hclean a ha)
    refine ⟨"." ++ name ++ "(" ++ ", ".intercalate arguments ++ ")",
      (", ".intercalate arguments).toList ++ [')'], ?_, by simp, fun opened offset rest => ?_⟩
    · exact if_neg (by simpa using hname)
    · refine Reads.takes (rawArguments_reads opened hspelled rest) (fun hread => ?_) offset
      obtain ⟨taken, -, hpasses⟩ := rawArguments_finds hread
      exact ⟨taken, hpasses⟩
  · intro opened c arguments next hread a ha
    obtain ⟨text, hspelled, -⟩ := rawArguments_finds hread
    exact isClean_iff.2 (hspelled.clean a ha)

/-- A comma and parentheses in a literal and in parentheses, an escaped mark, and a further call
behind the closing parenthesis. -/
theorem rawArguments_render_marks :
    let arguments := ["f(a, ')') + '\\',('", "é"]
    (∀ a ∈ arguments, IsClean a.toList) ∧
      ∃ inside, (FunctionCall.mk "g" arguments).render = .ok (".g(" ++ String.ofList inside) ∧
        rawArguments 2 ⟨inside ++ ".h()".toList, 3⟩ =
          .ok (arguments, ⟨".h()".toList, 3 + utf8Length inside⟩) := by
  intro arguments
  have hclean : ∀ a ∈ arguments, IsClean a.toList := by decide +kernel
  obtain ⟨written, inside, hwritten, htext, hread⟩ :=
    rawArguments_render.1 "g" arguments (by decide) hclean
  have hsame : written = ".g(" ++ String.ofList inside := by
    rw [← String.toList_inj, htext]
    simp
  exact ⟨hclean, inside, hsame ▸ hwritten, hread 2 3 _⟩

end MetricQuery.Grammar
