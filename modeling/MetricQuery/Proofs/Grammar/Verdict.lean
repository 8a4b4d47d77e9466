import MetricQuery.Proofs.Grammar.Metrics

/-!
# The first parenthesis

Whether an opening parenthesis behind a name opens a window or the arguments of a call is
decided by the next parenthesis, wherever that stands: in a literal, or in a filter block.  Here
that decision is taken apart.

* `verdict`: what the first parenthesis of a text says, if there is one.
* `Keeps`: with the second text in place of the first one, nothing becomes a window;
  `Splices.verdict` says this of a text with such edits.
* `BodyLayout.verdict_text`: the verdict of a filter block is that of its first operand that has
  one, and a list in parentheses or behind an `IN` has one.
-/

namespace MetricQuery.Grammar

open Text

/-- What the first parenthesis of a text tells of one that opens in front of the text: `true` if
it closes a window, `false` if there is none, and nothing without a parenthesis. -/
def verdict : List Char → Option Bool
  | [] => none
  | c :: rest =>
    if c = ')' then some (rest.head? = some ':')
    else if c = '(' then some false
    else verdict rest

theorem opensWindow_eq_verdict (text : List Char) :
    opensWindow text = (verdict text).getD false := by
  induction text with
  | nil => rfl
  | cons c text ih =>
    rw [opensWindow, verdict, ih]
    split
    · simp
    · split <;> rfl

theorem opensWindow_iff {text : List Char} :
    opensWindow text = true ↔ verdict text = some true := by
  rw [opensWindow_eq_verdict]
  cases verdict text with
  | none => simp
  | some b => simp

/-- There is no parenthesis in the text. -/
def ParenFree (text : List Char) : Prop :=
  ∀ c ∈ text, c ≠ '(' ∧ c ≠ ')'

theorem parenFree_of_class {p : Char → Bool} (hp : p '(' = false ∧ p ')' = false)
    {text : List Char} (h : ∀ c ∈ text, p c = true) : ParenFree text := by
  intro c hc
  have hclass := h c hc
  constructor <;> rintro rfl <;> simp [hp] at hclass

theorem ParenFree.append {a b : List Char} (ha : ParenFree a) (hb : ParenFree b) :
    ParenFree (a ++ b) :=
  fun c hc => (List.mem_append.1 hc).elim (ha c) (hb c)

theorem parenFree_of_blanks {gap : List Char} (h : Blanks gap) : ParenFree gap :=
  parenFree_of_class (p := isBlank) (by decide) h

theorem parenFree_of_keyChars {text : List Char} (h : ∀ c ∈ text, isKeyChar c = true) :
    ParenFree text :=
  parenFree_of_class (p := isKeyChar) (by decide) h

theorem parenFree_of_sameLetters {word : String} {text : List Char}
    (hword : ∀ c ∈ word.toList, c.isAlpha = true) (h : sameLetters text word.toList = true) :
    ParenFree text :=
  parenFree_of_keyChars (isKeyChar_of_sameLetters hword h)

/-- Text without a parenthesis decides nothing. -/
theorem verdict_append_of_parenFree {a : List Char} (ha : ParenFree a) (b : List Char) :
    verdict (a ++ b) = verdict b := by
  induction a with
  | nil => rfl
  | cons c a ih =>
    obtain ⟨hopen, hclose⟩ := ha c (by simp)
    rw [List.cons_append, verdict, if_neg hclose, if_neg hopen]
    exact ih fun d hd => ha d (by simp [hd])

theorem verdict_of_parenFree {text : List Char} (h : ParenFree text) : verdict text = none := by
  simpa [verdict] using verdict_append_of_parenFree h []

/-- The first text decides if it can, unless it is cut between the parenthesis and the colon of
a window. -/
theorem verdict_append : ∀ {a b : List Char}, (a.getLast? = some ')' → b.head? ≠ some ':') →
    verdict (a ++ b) = (verdict a).or (verdict b)
  | [], b, _ => by simp [verdict]
  | [c], b, h => by
    rw [List.singleton_append, verdict, verdict]
    split
    · next hclose => simpa [hclose] using h
    · split <;> simp [verdict]
  | c :: d :: a, b, h => by
    rw [List.cons_append, verdict, verdict]
    split
    · simp
    · split
      · rfl
      · exact verdict_append (by simpa using h)

/-- In place of the first text the second one opens no window that was not one: what it decides
in that way was decided so, and where it decides nothing nothing was decided. -/
structure Keeps (before after : List Char) : Prop where
  window : verdict after = some true → verdict before = some true
  undecided : verdict after = none → verdict before = none

end MetricQuery.Grammar

namespace MetricQuery

open Text Grammar

theorem Splices.opensWindow_of_result {start : Nat} {text result : List Char}
    {edits : List (Span × String)}
    (h : Splices Keeps start text edits result) (hwindow : verdict result = some true) :
    Grammar.verdict text = some true := by
  induction h with
  | none => exact hwindow
  | @edit start before under rest result block edits hopened hblock hclosed hrest ih =>
    have hresult : result.head? = some '\x7d' := hrest.head?_eq.trans hclosed
    rw [verdict_append (by simp [hopened]), verdict_append (by simp [hresult])] at hwindow
    rw [verdict_append (by simp [hopened]), verdict_append (by simp [hclosed])]
    rw [Option.or_eq_some_iff, Option.or_eq_some_iff] at hwindow ⊢
    refine hwindow.imp_right fun ⟨hbefore, hwindow⟩ => ⟨hbefore, ?_⟩
    rcases hwindow with hblockWindow | ⟨hundecided, hbehind⟩
    · exact .inl (hblock.window hblockWindow)
    · exact .inr ⟨hblock.undecided hundecided, ih hbehind⟩

/-! ## Filter blocks -/

/-- What a written value decides, and a list of them. -/
def Comparand.verdict : Comparand → Option Bool
  | .single value => Grammar.verdict value.toList
  | .list _ => some false

/-- What an operand decides; separators decide nothing. -/
def BlockItem.verdict : BlockItem → Option Bool
  | .wildcard => none
  | .condition c => c.comparand.verdict
  | .grouped _ => some false
  | .separator _ => none

@[simp]
theorem BlockItem.verdict_grouped (items : List BlockItem) :
    (grouped items).verdict = some false :=
  rfl

/-- The first item decides, or else the others do. -/
theorem findSome?_cons_eq_or {α β : Type} (f : α → Option β) (a : α) (as : List α) :
    (a :: as).findSome? f = (f a).or (as.findSome? f) := by
  rw [List.findSome?_cons]
  cases f a <;> rfl

namespace Grammar

theorem ValuesSpelled.verdict {vs : List String} {text : List Char} (h : ValuesSpelled vs text) :
    verdict text = Option.some false := by
  cases h <;> simp [Grammar.verdict]

/-- A condition decides what its value decides. -/
theorem ConditionSpelled.verdict {c : Condition} {text : List Char} (h : ConditionSpelled c text) :
    verdict text = c.comparand.verdict := by
  obtain ⟨-, hkey, comparison, hcomparison, rfl⟩ := h
  have hmark : ParenFree (if c.negative then ['!'] else []) := by
    cases c.negative <;> simp [ParenFree]
  rw [verdict_append_of_parenFree hmark, verdict_append_of_parenFree (parenFree_of_keyChars hkey)]
  generalize c.comparand = comparand at hcomparison
  generalize c.comparator = comparator at hcomparison
  cases hcomparison with
  | colon hvalue _ =>
    obtain ⟨rfl, -⟩ := hvalue
    exact verdict_append_of_parenFree (a := [':']) (by simp [ParenFree]) _
  | notColon hvalue =>
    obtain ⟨rfl, -⟩ := hvalue
    exact verdict_append_of_parenFree (a := ['!', ':']) (by simp [ParenFree]) _
  | regex hvalue =>
    obtain ⟨rfl, -⟩ := hvalue
    exact verdict_append_of_parenFree (a := [':', '~']) (by simp [ParenFree]) _
  | oneOf hgap _ hword hspace hvalues =>
    rw [verdict_append_of_parenFree (parenFree_of_blanks hgap),
      verdict_append_of_parenFree (parenFree_of_sameLetters isAlpha_in hword),
      verdict_append_of_parenFree (parenFree_of_blanks hspace), hvalues.verdict]
    rfl
  | noneOf hgap _ hnot hbetween _ hword hspace hvalues =>
    rw [verdict_append_of_parenFree (parenFree_of_blanks hgap),
      verdict_append_of_parenFree (parenFree_of_sameLetters isAlpha_not hnot),
      verdict_append_of_parenFree (parenFree_of_blanks hbetween),
      verdict_append_of_parenFree (parenFree_of_sameLetters isAlpha_in hword),
      verdict_append_of_parenFree (parenFree_of_blanks hspace), hvalues.verdict]
    rfl

end Grammar

/-- A separator is made of blanks, key characters and commas. -/
theorem JointLayout.chars {joint : JointLayout} {operand : List Char}
    (h : joint.Readable operand) :
    joint.text ≠ [] ∧ ∀ c ∈ joint.text, (isBlank c || isKeyChar c || c = ',') = true := by
  have hblanks : ∀ {gap : List Char}, Blanks gap →
      ∀ c ∈ gap, (isBlank c || isKeyChar c || c = ',') = true := by
    intro gap hgap c hc
    simp [hgap c hc]
  have hletters : ∀ {word : String} {text : List Char}, (∀ c ∈ word.toList, c.isAlpha = true) →
      sameLetters text word.toList = true →
      ∀ c ∈ text, (isBlank c || isKeyChar c || c = ',') = true := by
    intro word text hword hsame c hc
    simp [isKeyChar_of_sameLetters hword hsame c hc]
  have hjunction : ∀ {junction : Junction} {word : List Char},
      sameLetters word junction.word.toList = true → word ≠ [] := by
    intro junction word hword
    exact (stops_blank_of_sameLetters [] (isAlpha_junction junction)
      (by cases junction <;> decide) hword).1
  cases joint with
  | comma gap space =>
    obtain ⟨hgap, hspace⟩ := h
    refine ⟨by simp [text, sign], fun c hc => ?_⟩
    simp only [text, before, sign, behind, List.mem_append, List.mem_singleton] at hc
    rcases hc with hc | rfl | hc
    · exact hblanks hgap c hc
    · decide
    · exact hblanks hspace c hc
  | joined junction gap word space =>
    obtain ⟨hgap, hword, hspace, -⟩ := h
    refine ⟨by simp [text, sign, hjunction hword], fun c hc => ?_⟩
    simp only [text, before, sign, behind, List.append_nil, List.mem_append] at hc
    rcases hc with hc | hc | hc
    · exact hblanks hgap c hc
    · exact hletters (isAlpha_junction junction) hword c hc
    · exact hblanks hspace c hc
  | joinedNot junction gap word between not space =>
    obtain ⟨hgap, hword, hbetween, -, hnot, hspace, -⟩ := h
    refine ⟨by simp [text, sign, hjunction hword], fun c hc => ?_⟩
    simp only [text, before, sign, behind, List.mem_append] at hc
    rcases hc with hc | (hc | hc | hc) | hc
    · exact hblanks hgap c hc
    · exact hletters (isAlpha_junction junction) hword c hc
    · exact hblanks hbetween c hc
    · exact hletters isAlpha_not hnot c hc
    · exact hblanks hspace c hc

/-- So it has no parenthesis, and no colon starts it. -/
theorem JointLayout.parenFree {joint : JointLayout} {operand : List Char}
    (h : joint.Readable operand) :
    ParenFree joint.text ∧ ∀ rest, (joint.text ++ rest).head? ≠ some ':' := by
  obtain ⟨hne, hchars⟩ := JointLayout.chars h
  refine ⟨parenFree_of_class (by decide) hchars, fun rest hhead => ?_⟩
  cases htext : joint.text with
  | nil => exact hne htext
  | cons c text =>
    obtain rfl : c = ':' := by simpa [htext] using hhead
    exact absurd (hchars ':' (by simp [htext])) (by decide)

/-- What follows an operand does not start with a colon. -/
theorem TailLayout.head?_ne {tail : TailLayout} (h : tail.Readable) :
    tail.text.head? ≠ some ':' := by
  cases tail with
  | done gap =>
    cases gap with
    | nil => simp [text]
    | cons c gap =>
      have hc := (blanks_cons.1 h).1
      intro hhead
      obtain rfl : c = ':' := by simpa [text] using hhead
      exact absurd hc (by decide)
  | more joint operand others => exact (JointLayout.parenFree h.1).2 _

theorem OperandLayout.verdict_append : ∀ {operand : OperandLayout}, operand.Readable →
    ∀ {rest : List Char}, rest.head? ≠ some ':' → ∀ start, verdict (operand.text ++ rest) =
      ((operand.items start).findSome? BlockItem.verdict).or (verdict rest)
  | .condition c text, h, rest, hrest, start => by
    rw [OperandLayout.text, Grammar.verdict_append fun _ => hrest, h.1.verdict]
    rw [OperandLayout.items, List.findSome?_singleton]
    rfl
  | .grouped gap first more, _, rest, _, start => by
    simp [OperandLayout.text, OperandLayout.items, Grammar.verdict, List.findSome?_cons,
      BlockItem.verdict]
  | .negated word gap operand, h, rest, hrest, start => by
    obtain ⟨hword, hgap, -, -, hoperand⟩ := h
    rw [OperandLayout.text, List.append_assoc, List.append_assoc,
      verdict_append_of_parenFree (parenFree_of_sameLetters isAlpha_not hword),
      verdict_append_of_parenFree (parenFree_of_blanks hgap),
      OperandLayout.verdict_append hoperand hrest (start + utf8Length word + utf8Length gap)]
    rfl

theorem TailLayout.verdict_text : ∀ {tail : TailLayout}, tail.Readable → ∀ start,
    verdict tail.text = (tail.items start).findSome? BlockItem.verdict
  | .done gap, h, start => verdict_of_parenFree (parenFree_of_blanks h)
  | .more joint operand others, h, start => by
    obtain ⟨hjoint, hoperand, hothers, -⟩ := h
    rw [TailLayout.text, verdict_append_of_parenFree (JointLayout.parenFree hjoint).1,
      OperandLayout.verdict_append hoperand (TailLayout.head?_ne hothers)
        (start + utf8Length joint.text),
      TailLayout.verdict_text hothers
        (start + utf8Length joint.text + utf8Length operand.text), TailLayout.items,
      List.findSome?_cons, List.findSome?_append]
    rfl

/-- A filter block decides what its first operand does that decides anything. -/
theorem BodyLayout.verdict_text {body : BodyLayout} (h : body.Readable) (start : Nat) :
    verdict body.text = (body.block start).findSome? BlockItem.verdict := by
  cases body with
  | wildcard gap space =>
    obtain ⟨hgap, hspace⟩ := h
    refine verdict_of_parenFree ((parenFree_of_blanks hgap).append fun c hc => ?_)
    rcases List.mem_cons.1 hc with rfl | hc
    · decide
    · exact parenFree_of_blanks hspace c hc
  | items list =>
    obtain ⟨hgap, hfirst, hmore, -⟩ := h
    rw [BodyLayout.text, ItemsLayout.text,
      verdict_append_of_parenFree (parenFree_of_blanks hgap),
      OperandLayout.verdict_append hfirst (TailLayout.head?_ne hmore) (start + utf8Length list.gap),
      TailLayout.verdict_text hmore
        (start + utf8Length list.gap + utf8Length list.first.text),
      ← List.findSome?_append]
    rfl

end MetricQuery
