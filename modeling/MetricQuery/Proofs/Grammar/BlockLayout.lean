import MetricQuery.Proofs.Grammar.Finds

/-!
# Layouts of filter lists

A layout is a filter list together with all that its text says and its items do not: the
blanks, the letters of the keywords, the way values are written.  Its text and, for every
place where that starts, its items are functions of the layout.

* `OperandLayout` and `TailLayout`: an operand with the `NOT`s in front of it, and what follows
  an operand; `ItemsLayout` and `BodyLayout`: a list, and what stands between the braces.
* `text`, `items` and `depth`: what is written, what is read, and how many levels that takes.
* `Readable`: the words and values of the layout are taken for what they are.

Unlike the relations of `Spelling`, a layout needs no blank behind a literal or a parenthesis,
and it knows the place of every condition.
-/

namespace MetricQuery

open Text Grammar

/-- The condition, read from another place. -/
def Condition.movedTo (c : Condition) (span : Span) : Condition :=
  { c with span }

@[simp]
theorem Condition.comparand_movedTo (c : Condition) (span : Span) :
    (c.movedTo span).comparand = c.comparand :=
  rfl

theorem Condition.unplaced_movedTo (c : Condition) (span : Span) :
    (c.movedTo span).unplaced = c.unplaced :=
  rfl

theorem Condition.Legible.movedTo {c : Condition} (h : c.Legible) (span : Span) :
    (c.movedTo span).Legible :=
  ⟨h.key_ne, h.keyChars, h.values, h.form⟩

/-! ## Separators -/

/-- A separator as it is written. -/
inductive JointLayout where
  | comma (gap space : List Char)
  | joined (junction : Junction) (gap word space : List Char)
  | joinedNot (junction : Junction) (gap word between not space : List Char)

namespace JointLayout

/-- The blanks in front of a separator. -/
def before : JointLayout → List Char
  | .comma gap _ => gap
  | .joined _ gap _ _ => gap
  | .joinedNot _ gap _ _ _ _ => gap

/-- The separator itself, and the blanks that are read in search of a `NOT`. -/
def sign : JointLayout → List Char
  | .comma _ _ => [',']
  | .joined _ _ word space => word ++ space
  | .joinedNot _ _ word between not _ => word ++ (between ++ not)

/-- The blanks that are left to the operand. -/
def behind : JointLayout → List Char
  | .comma _ space => space
  | .joined _ _ _ _ => []
  | .joinedNot _ _ _ _ _ space => space

def text (joint : JointLayout) : List Char :=
  joint.before ++ (joint.sign ++ joint.behind)

def separator : JointLayout → Separator
  | .comma _ _ => .comma
  | .joined junction _ _ _ => junction.separator false
  | .joinedNot junction _ _ _ _ _ => junction.separator true

/-- In front of this operand the separator is taken for itself. -/
def Readable : JointLayout → List Char → Prop
  | .comma gap space, _ => Blanks gap ∧ Blanks space
  | .joined junction gap word space, operand =>
    Blanks gap ∧ sameLetters word junction.word.toList = true ∧ Blanks space ∧
      (space ++ operand).head?.any endsKeyword = true ∧ comesFirst "NOT" operand = false
  | .joinedNot junction gap word between not space, operand =>
    Blanks gap ∧ sameLetters word junction.word.toList = true ∧ Blanks between ∧
      between ≠ [] ∧ sameLetters not "NOT".toList = true ∧ Blanks space ∧
      (space ++ operand).head?.any endsKeyword = true

end JointLayout

/-! ## Operands -/

mutual

/-- An operand as it is written. -/
inductive OperandLayout where
  /-- A condition; its span is that of the place where the text stands. -/
  | condition (condition : Condition) (text : List Char)
  /-- A list in parentheses. -/
  | grouped (gap : List Char) (first : OperandLayout) (more : TailLayout)
  /-- A `NOT` of its own, and the operand behind it. -/
  | negated (word gap : List Char) (operand : OperandLayout)

/-- What follows an operand, as it is written. -/
inductive TailLayout where
  /-- Blanks up to what closes the list. -/
  | done (gap : List Char)
  | more (joint : JointLayout) (operand : OperandLayout) (others : TailLayout)

end

mutual

def OperandLayout.text : OperandLayout → List Char
  | .condition _ text => text
  | .grouped gap first more => '(' :: (gap ++ (first.text ++ (more.text ++ [')'])))
  | .negated word gap operand => word ++ (gap ++ operand.text)

def TailLayout.text : TailLayout → List Char
  | .done gap => gap
  | .more joint operand others => joint.text ++ (operand.text ++ others.text)

end

mutual

/-- The items of an operand whose text starts at a place. -/
def OperandLayout.items : OperandLayout → Nat → List BlockItem
  | .condition c text, start => [.condition (c.movedTo ⟨start, start + utf8Length text⟩)]
  | .grouped gap first more, start =>
    let inside := start + utf8Length ['('] + utf8Length gap
    [.grouped (first.items inside ++ more.items (inside + utf8Length first.text))]
  | .negated word gap operand, start =>
    .separator .not :: operand.items (start + utf8Length word + utf8Length gap)

def TailLayout.items : TailLayout → Nat → List BlockItem
  | .done _, _ => []
  | .more joint operand others, start =>
    let inside := start + utf8Length joint.text
    .separator joint.separator ::
      (operand.items inside ++ others.items (inside + utf8Length operand.text))

end

mutual

/-- How deep the lists in an operand nest. -/
def OperandLayout.depth : OperandLayout → Nat
  | .condition _ _ => 0
  | .grouped _ first more => max first.depth more.depth + 1
  | .negated _ _ operand => operand.depth

def TailLayout.depth : TailLayout → Nat
  | .done _ => 0
  | .more _ operand others => max operand.depth others.depth

end

/-- Does the operand end with a value that goes on up to what stops it? -/
def OperandLayout.endsBare : OperandLayout → Bool
  | .condition c _ => c.comparand.endsBare
  | .grouped _ _ _ => false
  | .negated _ _ operand => operand.endsBare

mutual

/-- The operand is taken for itself. -/
def OperandLayout.Readable : OperandLayout → Prop
  | .condition c text => ConditionSpelled c text ∧ ¬ (BlockItem.condition c).LooksNegated
  | .grouped gap first more =>
    Blanks gap ∧ first.Readable ∧ more.Readable ∧
      (first.endsBare = true → Stops isValueChar more.text)
  | .negated word gap operand =>
    sameLetters word "NOT".toList = true ∧ Blanks gap ∧
      (gap ++ operand.text).head?.any endsKeyword = true ∧
      comesFirst "IN" operand.text = false ∧ operand.Readable

/-- What follows an operand is taken for itself. -/
def TailLayout.Readable : TailLayout → Prop
  | .done gap => Blanks gap
  | .more joint operand others =>
    joint.Readable operand.text ∧ operand.Readable ∧ others.Readable ∧
      (operand.endsBare = true → Stops isValueChar others.text)

end

/-! ## Lists -/

/-- A list as it is written: its first operand and what follows. -/
structure ItemsLayout where
  gap : List Char
  first : OperandLayout
  more : TailLayout

namespace ItemsLayout

def text (list : ItemsLayout) : List Char :=
  list.gap ++ (list.first.text ++ list.more.text)

def items (list : ItemsLayout) (start : Nat) : List BlockItem :=
  list.first.items (start + utf8Length list.gap) ++
    list.more.items (start + utf8Length list.gap + utf8Length list.first.text)

def depth (list : ItemsLayout) : Nat :=
  max list.first.depth list.more.depth + 1

structure Readable (list : ItemsLayout) : Prop where
  gap : Blanks list.gap
  first : list.first.Readable
  more : list.more.Readable
  ends : list.first.endsBare = true → Stops isValueChar list.more.text

end ItemsLayout

/-- What stands between the braces of a block, as it is written. -/
inductive BodyLayout where
  | wildcard (gap space : List Char)
  | items (list : ItemsLayout)

namespace BodyLayout

def text : BodyLayout → List Char
  | .wildcard gap space => gap ++ '*' :: space
  | .items list => list.text

/-- The items of a block whose opening brace ends at a place. -/
def block : BodyLayout → Nat → List BlockItem
  | .wildcard _ _, _ => [.wildcard]
  | .items list, start => list.items start

def depth : BodyLayout → Nat
  | .wildcard _ _ => 0
  | .items list => list.depth

def Readable : BodyLayout → Prop
  | .wildcard gap space => Blanks gap ∧ Blanks space
  | .items list => list.Readable

end BodyLayout

/-! ## What texts start with -/

namespace JointLayout

variable {joint : JointLayout} {operand : List Char}

theorem blanks_of_readable (h : joint.Readable operand) :
    Blanks joint.before ∧ Blanks joint.behind := by
  cases joint with
  | comma => exact h
  | joined => exact ⟨h.1, blanks_nil⟩
  | joinedNot =>
    obtain ⟨hgap, -, -, -, -, hspace, -⟩ := h
    exact ⟨hgap, hspace⟩

/-- A separator starts with its sign. -/
theorem start_of_readable (h : joint.Readable operand) {close : Char} (hclose : Closes close)
    (rest : List Char) :
    Stops isBlank (joint.sign ++ rest) ∧ (joint.sign ++ rest).head? ≠ some close := by
  obtain ⟨-, -, hkey, hcomma⟩ := hclose.facts
  have hword : ∀ {junction : Junction} {word : List Char} (rest : List Char),
      sameLetters word junction.word.toList = true →
      Stops isBlank (word ++ rest) ∧ (word ++ rest).head? ≠ some close := by
    intro junction word rest hsame
    obtain ⟨hne, hstops⟩ := stops_blank_of_sameLetters rest (isAlpha_junction junction)
      (by cases junction <;> decide) hsame
    exact ⟨hstops, word_ne_close rest hkey hne
      (isKeyChar_of_sameLetters (isAlpha_junction junction) hsame)⟩
  cases joint with
  | comma =>
    refine ⟨stops_cons.2 (by decide), fun hhead => hcomma ?_⟩
    simpa [sign, eq_comm] using hhead
  | joined junction gap word space =>
    rw [sign, List.append_assoc]
    exact hword _ h.2.1
  | joinedNot junction gap word between not space =>
    rw [sign, List.append_assoc]
    exact hword _ h.2.1

end JointLayout

namespace OperandLayout

theorem start : ∀ {operand : OperandLayout}, operand.Readable →
    operand.text ≠ [] ∧ Stops isBlank operand.text ∧ ∃ d ∈ operand.text, isKeyChar d = false
  | .condition _ _, h => by
    obtain ⟨hne, hstops, -, hkey⟩ := ConditionSpelled.start h.1
    exact ⟨hne, hstops, hkey⟩
  | .grouped _ _ _, _ => ⟨by simp [text], stops_cons.2 (by decide), '(', by simp [text], by decide⟩
  | .negated word gap operand, h => by
    obtain ⟨hword, -, -, -, hoperand⟩ := h
    obtain ⟨hne, hstops⟩ := stops_blank_of_sameLetters (gap ++ operand.text) isAlpha_not
      (by decide) hword
    obtain ⟨-, -, d, hd, hkey⟩ := start hoperand
    exact ⟨by simp [text, hne], hstops, d, by simp [text, hd], hkey⟩

/-- No operand starts with an asterisk. -/
theorem head_ne {operand : OperandLayout} (h : operand.Readable) :
    operand.text.head? ≠ some '*' := by
  have hrun : ∀ {run rest : List Char}, run ≠ [] → (∀ c ∈ run, isKeyChar c = true) →
      (run ++ rest).head? ≠ some '*' := by
    intro run rest hne hchars
    cases run with
    | nil => exact absurd rfl hne
    | cons c run =>
      intro hhead
      obtain rfl : c = '*' := by simpa using hhead
      exact absurd (hchars '*' (by simp)) (by decide)
  cases operand with
  | condition c text =>
    obtain ⟨⟨hkey, hchars, comparison, -, rfl⟩, -⟩ := h
    rw [OperandLayout.text]
    cases c.negative with
    | true => simp
    | false =>
      rw [if_neg Bool.false_ne_true, List.nil_append]
      exact hrun (by simpa using hkey) hchars
  | grouped gap first more => simp [text]
  | negated word gap operand =>
    have hstart := stops_blank_of_sameLetters [] isAlpha_not (by decide) h.1
    exact hrun hstart.1 (isKeyChar_of_sameLetters isAlpha_not h.1)

end OperandLayout

/-! ## Levels and places -/

mutual

/-- Every level takes a parenthesis. -/
theorem OperandLayout.depth_lt_length : ∀ {operand : OperandLayout}, operand.Readable →
    operand.depth < operand.text.length
  | .condition c text, h => by
    obtain ⟨hne, -⟩ := OperandLayout.start h
    exact List.length_pos_iff.2 hne
  | .grouped gap first more, h => by
    obtain ⟨-, hfirst, hmore, -⟩ := h
    have := OperandLayout.depth_lt_length hfirst
    have := TailLayout.depth_le_length hmore
    simp only [OperandLayout.depth, OperandLayout.text, List.length_cons, List.length_append]
    omega
  | .negated word gap operand, h => by
    have := OperandLayout.depth_lt_length h.2.2.2.2
    simp only [OperandLayout.depth, OperandLayout.text, List.length_append]
    omega

theorem TailLayout.depth_le_length : ∀ {tail : TailLayout}, tail.Readable →
    tail.depth ≤ tail.text.length
  | .done gap, _ => Nat.zero_le _
  | .more joint operand others, h => by
    obtain ⟨-, hoperand, hothers, -⟩ := h
    have := OperandLayout.depth_lt_length hoperand
    have := TailLayout.depth_le_length hothers
    simp only [TailLayout.depth, TailLayout.text, List.length_append]
    omega

end

theorem BodyLayout.depth_le_length {body : BodyLayout} (h : body.Readable) :
    body.depth ≤ body.text.length := by
  cases body with
  | wildcard gap space => exact Nat.zero_le _
  | items list =>
    have := OperandLayout.depth_lt_length (ItemsLayout.Readable.first h)
    have := TailLayout.depth_le_length (ItemsLayout.Readable.more h)
    simp only [BodyLayout.depth, ItemsLayout.depth, BodyLayout.text, ItemsLayout.text,
      List.length_append]
    omega

/-! ## Legible items -/

mutual

/-- The items of an operand nest as deep as the operand does. -/
theorem OperandLayout.legible {depth : Nat} : ∀ {operand : OperandLayout} (start : Nat),
    operand.Readable → operand.depth ≤ depth → ∀ item ∈ operand.items start, item.Legible depth
  | .condition c text, start, h, _ => by
    simpa [OperandLayout.items] using (ConditionSpelled.legible h.1).movedTo _
  | .grouped gap first more, start, h, hdepth => by
    obtain ⟨-, hfirst, hmore, -⟩ := h
    rw [OperandLayout.depth] at hdepth
    obtain ⟨depth, rfl⟩ : ∃ n, depth = n + 1 := ⟨depth - 1, by omega⟩
    have hlevels := Nat.max_le.1 (Nat.le_of_succ_le_succ hdepth)
    simpa [OperandLayout.items, BlockItem.Legible] using List.forall_mem_append.2
      ⟨OperandLayout.legible _ hfirst hlevels.1, TailLayout.legible _ hmore hlevels.2⟩
  | .negated word gap operand, start, h, hdepth =>
    List.forall_mem_cons.2 ⟨by simp, OperandLayout.legible _ h.2.2.2.2 hdepth⟩

theorem TailLayout.legible {depth : Nat} : ∀ {tail : TailLayout} (start : Nat),
    tail.Readable → tail.depth ≤ depth → ∀ item ∈ tail.items start, item.Legible depth
  | .done gap, start, _, _ => by simp [TailLayout.items]
  | .more joint operand others, start, h, hdepth =>
    have hlevels := Nat.max_le.1 hdepth
    List.forall_mem_cons.2 ⟨by simp, List.forall_mem_append.2
      ⟨OperandLayout.legible _ h.2.1 hlevels.1, TailLayout.legible _ h.2.2.1 hlevels.2⟩⟩

end

/-- A block is an asterisk, or its items nest less deep than there are levels. -/
theorem BodyLayout.legible {body : BodyLayout} (h : body.Readable) (start : Nat) :
    body.block start = [.wildcard] ∨
      ∃ depth, depth + 1 = body.depth ∧ ∀ item ∈ body.block start, item.Legible depth := by
  cases body with
  | wildcard gap space => exact .inl rfl
  | items list =>
    refine .inr ⟨max list.first.depth list.more.depth, rfl, List.forall_mem_append.2 ⟨?_, ?_⟩⟩
    · exact OperandLayout.legible _ (ItemsLayout.Readable.first h) (Nat.le_max_left _ _)
    · exact TailLayout.legible _ (ItemsLayout.Readable.more h) (Nat.le_max_right _ _)

namespace BlockItem

mutual

/-- From another place the same operand is read, but for positions. -/
theorem agree_operand (a b : Nat) :
    ∀ operand : OperandLayout, Agree (operand.items a) (operand.items b)
  | .condition c text => Agree.condition (by simp only [Condition.unplaced_movedTo])
  | .grouped gap first more =>
    Agree.grouped ((agree_operand _ _ first).append (agree_tail _ _ more))
  | .negated word gap operand => (Agree.refl [.separator .not]).append (agree_operand _ _ operand)

theorem agree_tail (a b : Nat) : ∀ tail : TailLayout, Agree (tail.items a) (tail.items b)
  | .done _ => .refl []
  | .more joint operand others => (Agree.refl [.separator joint.separator]).append
    ((agree_operand _ _ operand).append (agree_tail _ _ others))

end

theorem agree_body (a b : Nat) (body : BodyLayout) : Agree (body.block a) (body.block b) := by
  cases body with
  | wildcard gap space => exact .refl _
  | items list => exact (agree_operand _ _ list.first).append (agree_tail _ _ list.more)

end BlockItem

end MetricQuery
