import MetricQuery.Grammar.Expr
import MetricQuery.Proofs.Grammar.BlockLayout

/-!
# The texts of filter lists

A filter list is read from a text exactly if the text is that of a readable layout, and then
its items are those of the layout: `readsLists_blockItems`.

The lemmas come in pairs, in the order of the readers.  One says that the text of a layout
is taken, whatever follows it; the other one says that all that is read has a layout.
The induction is on the levels: what is in parentheses has one less.
-/

namespace MetricQuery.Grammar

open Text BlockItem

/-! ## Conditions -/

/-- A condition is taken with the place where it stands. -/
theorem condition_takes {c : Condition} {text rest : List Char} (h : ConditionSpelled c text)
    (hrest : c.comparand.endsBare = true → Stops isValueChar rest) (start : Nat) :
    condition ⟨text ++ rest, start⟩ =
      .ok (c.movedTo ⟨start, start + utf8Length text⟩, ⟨rest, start + utf8Length text⟩) := by
  obtain ⟨d, stop, hread, hd⟩ := condition_reads h hrest start
  obtain ⟨taken, -, hpasses, hspan, -⟩ := condition_finds hread
  have htaken : taken = text := List.append_cancel_right hpasses.rest.symm
  have hstop : stop = start + utf8Length text := by
    rw [← htaken]
    exact hpasses.offset
  have hplace : d = c.movedTo ⟨start, start + utf8Length text⟩ := by
    obtain ⟨negative, key, comparator, comparand, span⟩ := d
    obtain ⟨rfl, rfl, rfl, rfl, -⟩ := Condition.mk.inj hd
    rw [← hstop]
    exact congrArg (Condition.mk _ _ _ _) hspan
  rw [hread, hplace, hstop]

theorem condition_eq_movedTo {test : Condition} {text : List Char} {start : Nat}
    (hspan : test.span = ⟨start, start + utf8Length text⟩) :
    test.movedTo ⟨start, start + utf8Length text⟩ = test := by
  rw [← hspan]
  rfl

/-! ## Operands -/

theorem skipBlank_of_peek? {c : Cursor} {ch : Char} (hpeek : c.peek? = some ch)
    (hch : isBlank ch = false) : c.skipBlank = c := by
  obtain ⟨text, offset⟩ := c
  cases text with
  | nil => simp [Cursor.peek?] at hpeek
  | cons d text =>
    obtain rfl : d = ch := by simpa [Cursor.peek?] using hpeek
    exact Cursor.skipBlank_of_stops offset (stops_cons.2 hch)

section Operands

variable {nested : Reader (List BlockItem)} {levels : Nat}

/-- The nested lists are those of readable layouts with so many levels. -/
structure ReadsLists (list : Reader (List BlockItem)) (close : Char) (levels : Nat) : Prop where
  takes : ∀ {layout : ItemsLayout}, layout.Readable → layout.depth ≤ levels →
    ∀ rest start, list ⟨layout.text ++ close :: rest, start⟩ =
      .ok (layout.items start, ⟨close :: rest, start + utf8Length layout.text⟩)
  finds : ∀ {c next : Cursor} {items : List BlockItem}, list c = .ok (items, next) →
    ∃ layout : ItemsLayout, layout.Readable ∧ layout.depth ≤ levels ∧
      c.Passes layout.text next ∧ next.peek? = some close ∧ items = layout.items c.offset

/-- The `NOT`s in front of an operand are counted, and the operand behind them is read. -/
theorem leadingNots_takes {operand : OperandLayout} (h : operand.Readable) :
    ∃ (count : Nat) (before : List Char) (core : OperandLayout),
      core.Readable ∧ (∀ word gap inner, core ≠ .negated word gap inner) ∧
      operand.text = before ++ core.text ∧ operand.depth = core.depth ∧
      operand.endsBare = core.endsBare ∧
      (∀ start, operand.items start = List.replicate count (.separator .not) ++
        core.items (start + utf8Length before)) ∧
      ∀ rest rounds start, operand.text.length ≤ rounds →
        leadingNots rounds ⟨operand.text ++ rest, start⟩ =
          (count, ⟨core.text ++ rest, start + utf8Length before⟩) := by
  cases operand with
  | condition c text =>
    refine ⟨0, [], .condition c text, h, by simp, rfl, rfl, rfl, fun start => rfl,
      fun rest rounds start _ => ?_⟩
    cases rounds with
    | zero => rfl
    | succ rounds => rw [leadingNots, OperandLayout.text, eatNot?_condition h.1 h.2]; rfl
  | grouped gap first more =>
    refine ⟨0, [], .grouped gap first more, h, by simp, rfl, rfl, rfl, fun start => rfl,
      fun rest rounds start _ => ?_⟩
    cases rounds with
    | zero => rfl
    | succ rounds =>
      rw [leadingNots, OperandLayout.text, List.cons_append,
        eatNot?_of_ne _ start (by decide)]
      rfl
  | negated word gap operand =>
    obtain ⟨hword, hgap, hends, hin, hoperand⟩ := h
    obtain ⟨count, before, core, hcore, hplain, htext, hdepth, hbare, hitems, hread⟩ :=
      leadingNots_takes hoperand
    obtain ⟨hne, hstops, hkey⟩ := OperandLayout.start hoperand
    refine ⟨count + 1, word ++ (gap ++ before), core, hcore, hplain, ?_, hdepth, hbare, ?_, ?_⟩
    · simp [OperandLayout.text, htext]
    · intro start
      simp [OperandLayout.items, hitems, List.replicate_succ, Nat.add_assoc]
    · intro rest rounds start hrounds
      have hlen := length_eq_of_sameLetters hword
      simp only [OperandLayout.text, List.length_append] at hrounds
      have hlong : "NOT".toList.length = 3 := rfl
      obtain ⟨rounds, rfl⟩ : ∃ n, rounds = n + 1 := ⟨rounds - 1, by omega⟩
      have heat : eatNot? ⟨word ++ (gap ++ (operand.text ++ rest)), start⟩ =
          some ⟨gap ++ (operand.text ++ rest), start + utf8Length word⟩ :=
        eatNot?_word start hword hgap
          (by rw [← List.append_assoc]; exact endsKeyword_append hends) (stops_append hne hstops)
          (by rw [comesFirst_append rest hkey, hin])
      have hskip := Cursor.skipBlank_append (start + utf8Length word) hgap
        (show Stops isBlank (operand.text ++ rest) from stops_append hne hstops)
      have hmore := hread rest rounds (start + utf8Length word + utf8Length gap) (by omega)
      rw [OperandLayout.text, List.append_assoc, List.append_assoc, leadingNots, heat]
      simp only [hskip, hmore, utf8Length_append, ← Nat.add_assoc]

/-- What is read behind the `NOT`s of an operand: a list in parentheses or a condition. -/
def operandCore (nested : Reader (List BlockItem)) : Reader (List BlockItem) := fun c =>
  match c.eat? '(' with
  | some c => do
    let (items, c) ← nested c
    let c ← expect ')' c.skipBlank
    return ([.grouped items], c)
  | none => do
    let (test, c) ← condition c
    return ([.condition test], c)

/-- Behind the `NOT`s of an operand its core is read. -/
theorem operand_eq {c next : Cursor} {count : Nat}
    (h : leadingNots c.skipBlank.rest.length c.skipBlank = (count, next)) :
    operand nested c = do
      let (items, c) ← operandCore nested next
      return (List.replicate count (.separator .not) ++ items, c) := by
  rw [operand, operandCore]
  dsimp only
  rw [h]
  dsimp only
  cases next.eat? '(' with
  | none => cases condition next <;> rfl
  | some inside =>
    cases hread : nested inside with
    | error err => simp only [hread, bind, Except.bind]
    | ok read =>
      simp only [hread, bind, Except.bind]
      cases expect ')' read.2.skipBlank <;> rfl

theorem operandCore_takes (hnested : ReadsLists nested ')' levels) {core : OperandLayout}
    (h : core.Readable) (hplain : ∀ word gap inner, core ≠ .negated word gap inner)
    (hdepth : core.depth ≤ levels) {rest : List Char}
    (hrest : core.endsBare = true → Stops isValueChar rest) (place : Nat) :
    operandCore nested ⟨core.text ++ rest, place⟩ =
      .ok (core.items place, ⟨rest, place + utf8Length core.text⟩) := by
  cases core with
  | negated word gap inner => exact absurd rfl (hplain word gap inner)
  | condition c text =>
    have hread := condition_takes h.1 hrest place
    have heat : (Cursor.mk (text ++ rest) place).eat? '(' = none := by
      obtain ⟨htextNe, -, hparen, -⟩ := h.1.start
      cases text with
      | nil => exact absurd rfl htextNe
      | cons e tail => exact Cursor.eat?_of_ne _ _ (by simpa using hparen)
    simp only [OperandLayout.text, operandCore, heat, hread, bind, Except.bind]
    rfl
  | grouped inner first more =>
    obtain ⟨hinner, hfirst, hmore, hends⟩ := h
    let list : ItemsLayout := ⟨inner, first, more⟩
    have hread := hnested.takes (show list.Readable from ⟨hinner, hfirst, hmore, hends⟩)
      hdepth rest (place + utf8Length ['('])
    have hclose : ∀ stop, (Cursor.mk (')' :: rest) stop).skipBlank = ⟨')' :: rest, stop⟩ :=
      fun stop => Cursor.skipBlank_of_stops stop (stops_cons.2 (by decide))
    have htail : OperandLayout.text (.grouped inner first more) ++ rest =
        '(' :: (list.text ++ ')' :: rest) := by
      simp [OperandLayout.text, ItemsLayout.text, list]
    have hlength : utf8Length (OperandLayout.text (.grouped inner first more)) =
        utf8Length ['('] + utf8Length list.text + utf8Length [')'] := by
      simp [OperandLayout.text, ItemsLayout.text, utf8Length, Nat.add_assoc, list]
    rw [htail, hlength]
    simp only [operandCore, Cursor.eat?_self, hread, hclose, expect_self, bind, Except.bind,
      ← Nat.add_assoc]
    rfl

theorem operand_takes (hnested : ReadsLists nested ')' levels) {o : OperandLayout}
    {gap rest : List Char} (h : o.Readable) (hdepth : o.depth ≤ levels) (hgap : Blanks gap)
    (hrest : o.endsBare = true → Stops isValueChar rest) (start : Nat) :
    operand nested ⟨gap ++ (o.text ++ rest), start⟩ =
      .ok (o.items (start + utf8Length gap),
        ⟨rest, start + utf8Length gap + utf8Length o.text⟩) := by
  obtain ⟨hne, hstops, -⟩ := OperandLayout.start h
  obtain ⟨count, before, core, hcore, hplain, htext, hlevels, hbare, hitems, hnots⟩ :=
    leadingNots_takes h
  have hcount : ∀ c, c = Cursor.mk (gap ++ (o.text ++ rest)) start →
      leadingNots c.skipBlank.rest.length c.skipBlank =
        (count, ⟨core.text ++ rest, start + utf8Length gap + utf8Length before⟩) := by
    rintro c rfl
    rw [Cursor.skipBlank_append start hgap (stops_append hne hstops)]
    exact hnots rest _ _ (by simp)
  rw [hlevels] at hdepth
  rw [hbare] at hrest
  rw [operand_eq (hcount _ rfl), operandCore_takes hnested hcore hplain hdepth hrest, hitems,
    htext, utf8Length_append, ← Nat.add_assoc (start + utf8Length gap)]
  rfl

/-- A `NOT` that is read alone has something else than the word `IN` behind it. -/
theorem eatNot?_finds {c next : Cursor} (h : eatNot? c = some next) :
    ∃ word, sameLetters word "NOT".toList = true ∧ c.Passes word next ∧
      next.rest.head?.any endsKeyword = true ∧ comesFirst "IN" next.skipBlank.rest = false := by
  rw [eatNot?] at h
  split at h
  · simp at h
  · next behind hword =>
    obtain ⟨word, hsame, hpasses, hends⟩ := Cursor.keyword?_passes isAlpha_not hword
    cases hin : behind.skipBlank.keyword? "IN" with
    | some stop => simp [hin] at h
    | none =>
      obtain rfl : behind = next := by simpa [hin] using h
      exact ⟨word, hsame, hpasses, hends, Cursor.comesFirst_of_keyword? isAlpha_in hin⟩

/-- Behind the leading `NOT`s comes no other one. -/
theorem eatNot?_of_leadingNots {rounds : Nat} {c next : Cursor} {count : Nat}
    (hrounds : c.rest.length ≤ rounds) (h : leadingNots rounds c = (count, next)) :
    eatNot? next = none := by
  induction rounds generalizing c count with
  | zero =>
    obtain ⟨-, rfl⟩ := Prod.mk.inj h
    obtain ⟨text, offset⟩ := c
    obtain rfl : text = [] := List.length_eq_zero_iff.1 (Nat.le_zero.1 hrounds)
    rw [eatNot?, Cursor.keyword?_of_not offset isAlpha_not (by decide)]
  | succ rounds ih =>
    rw [leadingNots] at h
    split at h
    · next hnone =>
      obtain ⟨-, rfl⟩ := Prod.mk.inj h
      exact hnone
    · next behind heat =>
      obtain ⟨-, rfl⟩ := Prod.mk.inj h
      refine ih ?_ rfl
      obtain ⟨word, hsame, hpasses, -⟩ := eatNot?_finds heat
      obtain ⟨gap, -, hgap, -⟩ := behind.skipBlank_passes
      have hlong := congrArg List.length (hpasses.trans hgap).rest
      have hword : word.length = 3 := length_eq_of_sameLetters hsame
      simp only [List.length_append] at hlong
      omega

theorem endsKeyword_of_append {text rest : List Char} (hne : text ≠ [])
    (h : (text ++ rest).head?.any endsKeyword = true) : text.head?.any endsKeyword = true := by
  cases text with
  | nil => exact absurd rfl hne
  | cons c text => simpa using h

/-- The key of a condition that looks negated is read as a `NOT`. -/
theorem eatNot?_of_looksNegated {c : Condition} {text : List Char} (h : ConditionSpelled c text)
    (hlooks : (BlockItem.condition c).LooksNegated) (rest : List Char) (offset : Nat) :
    eatNot? ⟨text ++ rest, offset⟩ ≠ none := by
  obtain ⟨-, -, comparison, hcomparison, rfl⟩ := h
  obtain ⟨hpositive, hkey, hlist⟩ := hlooks
  rw [hlist] at hcomparison
  generalize c.comparand = comparand at hcomparison
  cases hcomparison with
  | @noneOf gap not between word space text vs hgap hne hnot hbetween hbetweenNe =>
    have hends : (between ++ (word ++ (space ++ text) ++ rest)).head?.any endsKeyword = true :=
      endsKeyword_of_blanks hbetween hbetweenNe
    have hin := comesFirst_of_sameLetters isAlpha_not hnot hends
      (show sameLetters "NOT".toList "IN".toList = false by decide)
    have hstops := (stops_blank_of_sameLetters (between ++ (word ++ (space ++ text) ++ rest))
      isAlpha_not (by decide) hnot).2
    have heat := eatNot?_word offset hkey hgap (endsKeyword_of_blanks hgap hne) hstops hin
    rw [hpositive, if_neg Bool.false_ne_true, List.nil_append]
    simp only [List.append_assoc] at heat ⊢
    rw [heat]
    simp

/-- The `NOT`s in front of an operand belong to its layout. -/
theorem leadingNots_finds {core : OperandLayout} (hcore : core.Readable) {middle next : Cursor}
    (hpasses : middle.Passes core.text next) {rounds : Nat} :
    ∀ {c : Cursor} {count : Nat}, leadingNots rounds c = (count, middle) →
      ∃ o : OperandLayout, o.Readable ∧ o.depth = core.depth ∧ o.endsBare = core.endsBare ∧
        c.Passes o.text next ∧ o.items c.offset =
          List.replicate count (.separator .not) ++ core.items middle.offset := by
  induction rounds with
  | zero =>
    intro c count h
    obtain ⟨rfl, rfl⟩ := Prod.mk.inj h
    exact ⟨core, hcore, rfl, rfl, hpasses, rfl⟩
  | succ rounds ih =>
    intro c count h
    rw [leadingNots] at h
    split at h
    · obtain ⟨rfl, rfl⟩ := Prod.mk.inj h
      exact ⟨core, hcore, rfl, rfl, hpasses, rfl⟩
    · next behind heat =>
      generalize hmore : leadingNots rounds behind.skipBlank = more at h
      obtain ⟨others, stop⟩ := more
      obtain ⟨rfl, rfl⟩ := Prod.mk.inj h
      obtain ⟨word, hword, hwordPasses, hends, hin⟩ := eatNot?_finds heat
      obtain ⟨gap, hgap, hgapPasses, -⟩ := behind.skipBlank_passes
      obtain ⟨o, ho, hdepth, hbare, hoPasses, hitems⟩ := ih hmore
      obtain ⟨hne, -, hkey⟩ := OperandLayout.start ho
      rw [hoPasses.rest, comesFirst_append _ hkey] at hin
      have hfront : (gap ++ o.text).head?.any endsKeyword = true := by
        rw [(hgapPasses.trans hoPasses).rest] at hends
        exact endsKeyword_of_append (by simp [hne]) hends
      refine ⟨.negated word gap o, ⟨hword, hgap, hfront, hin, ho⟩, hdepth, hbare,
        hwordPasses.trans (hgapPasses.trans hoPasses), ?_⟩
      rw [OperandLayout.items, ← hwordPasses.offset, ← hgapPasses.offset, hitems]
      rfl

/-- Where no `NOT` stands, what is read has a layout without one in front. -/
theorem operandCore_finds (hnested : ReadsLists nested ')' levels) {c next : Cursor}
    {items : List BlockItem} (hnot : eatNot? c = none)
    (h : operandCore nested c = .ok (items, next)) :
    ∃ core : OperandLayout, core.Readable ∧ core.depth ≤ levels ∧
      (core.endsBare = true → Stops isValueChar next.rest) ∧
      c.Passes core.text next ∧ items = core.items c.offset := by
  rw [operandCore] at h
  split at h
  · next inside hparen =>
    obtain ⟨⟨inner, behind⟩, hread, h⟩ := bind_eq_ok_iff.1 h
    obtain ⟨stop, hexpect, heq⟩ := bind_eq_ok_iff.1 h
    obtain ⟨rfl, rfl⟩ := Prod.mk.inj (Except.ok.inj heq)
    obtain ⟨list, hlist, hdepth, hpasses, hpeek, rfl⟩ := hnested.finds hread
    rw [skipBlank_of_peek? hpeek (by decide)] at hexpect
    have hopen := Cursor.eat?_passes hparen
    refine ⟨.grouped list.gap list.first list.more,
      ⟨hlist.gap, hlist.first, hlist.more, hlist.ends⟩, hdepth,
      by simp [OperandLayout.endsBare], ?_, ?_⟩
    · simpa [OperandLayout.text, ItemsLayout.text] using
        hopen.trans (hpasses.trans (expect_passes hexpect))
    · rw [OperandLayout.items, ← hopen.offset]
      rfl
  · obtain ⟨⟨test, stop⟩, hread, heq⟩ := bind_eq_ok_iff.1 h
    obtain ⟨rfl, rfl⟩ := Prod.mk.inj (Except.ok.inj heq)
    obtain ⟨text, hspelled, hpasses, hspan, hends⟩ := condition_finds hread
    have hplain : ¬ (BlockItem.condition test).LooksNegated := by
      intro hlooks
      have hread := eatNot?_of_looksNegated hspelled hlooks stop.rest c.offset
      rw [← hpasses.rest] at hread
      exact hread hnot
    refine ⟨.condition test text, ⟨hspelled, hplain⟩, Nat.zero_le _, hends, hpasses, ?_⟩
    rw [hpasses.offset] at hspan
    rw [OperandLayout.items, condition_eq_movedTo hspan]

theorem operand_finds (hnested : ReadsLists nested ')' levels) {c next : Cursor}
    {items : List BlockItem} (h : operand nested c = .ok (items, next)) :
    ∃ (gap : List Char) (o : OperandLayout), Blanks gap ∧ o.Readable ∧ o.depth ≤ levels ∧
      (o.endsBare = true → Stops isValueChar next.rest) ∧
      c.Passes (gap ++ o.text) next ∧ items = o.items (c.offset + utf8Length gap) := by
  obtain ⟨gap, hgap, hgapPasses, -⟩ := c.skipBlank_passes
  generalize hnots : leadingNots c.skipBlank.rest.length c.skipBlank = nots
  obtain ⟨count, middle⟩ := nots
  rw [operand_eq hnots] at h
  obtain ⟨⟨inner, stop⟩, hread, heq⟩ := bind_eq_ok_iff.1 h
  obtain ⟨rfl, rfl⟩ := Prod.mk.inj (Except.ok.inj heq)
  -- the core is found first, and its `NOT`s are put in front
  obtain ⟨core, hcore, hdepth, hends, hpasses, rfl⟩ :=
    operandCore_finds hnested (eatNot?_of_leadingNots (Nat.le_refl _) hnots) hread
  obtain ⟨o, ho, hlevels, hbare, hoPasses, hitems⟩ := leadingNots_finds hcore hpasses hnots
  rw [← hlevels] at hdepth
  rw [← hbare] at hends
  refine ⟨gap, o, hgap, ho, hdepth, hends, hgapPasses.trans hoPasses, ?_⟩
  rw [← hgapPasses.offset, hitems]

end Operands

/-! ## Separators -/

section Separators

variable {joint : JointLayout} {operandText : List Char} {close : Char}

theorem separator_takes (close : Char) (h : joint.Readable operandText) (hne : operandText ≠ [])
    (hstops : Stops isBlank operandText) (hkey : ∃ d ∈ operandText, isKeyChar d = false)
    (rest : List Char) (start : Nat) :
    separator close ⟨joint.sign ++ (joint.behind ++ (operandText ++ rest)), start⟩ =
      .ok (joint.separator,
        ⟨joint.behind ++ (operandText ++ rest), start + utf8Length joint.sign⟩) := by
  cases joint with
  | comma gap space => simp only [JointLayout.sign, List.singleton_append, separator,
      Cursor.eat?_self, JointLayout.separator]
  | joined junction gap word space =>
    obtain ⟨-, hword, hspace, hends, hnot⟩ := h
    simp only [JointLayout.sign, JointLayout.behind, JointLayout.separator, List.append_assoc,
      List.nil_append]
    rw [separator_word _ close start junction hword
        (by rw [← List.append_assoc]; exact endsKeyword_append hends),
      joiner_plain _ _ _ hspace (stops_append hne hstops)
        (by rw [comesFirst_append _ hkey, hnot]), utf8Length_append, Nat.add_assoc]
  | joinedNot junction gap word between not space =>
    obtain ⟨-, hword, hbetween, hbetweenNe, hnot, -, hends⟩ := h
    simp only [JointLayout.sign, JointLayout.behind, JointLayout.separator, List.append_assoc]
    rw [separator_word _ close start junction hword (endsKeyword_of_blanks hbetween hbetweenNe),
      joiner_negated _ _ _ hbetween hnot
        (by rw [← List.append_assoc]; exact endsKeyword_append hends), utf8Length_append,
      utf8Length_append, Nat.add_assoc, Nat.add_assoc]

theorem joiner_finds {plain negated sep : Separator} {c next : Cursor}
    (h : joiner plain negated c = (sep, next)) :
    ∃ space, Blanks space ∧
      (sep = plain ∧ c.Passes space next ∧ Stops isBlank next.rest ∧
          comesFirst "NOT" next.rest = false ∨
        ∃ not, sep = negated ∧ sameLetters not "NOT".toList = true ∧
          c.Passes (space ++ not) next ∧ next.rest.head?.any endsKeyword = true) := by
  obtain ⟨space, hspace, hpasses, hstops⟩ := c.skipBlank_passes
  refine ⟨space, hspace, ?_⟩
  unfold joiner at h
  dsimp only at h
  split at h
  · next stop hword =>
    obtain ⟨rfl, rfl⟩ := Prod.mk.inj h
    obtain ⟨not, hnot, hnotPasses, hends⟩ := Cursor.keyword?_passes isAlpha_not hword
    exact .inr ⟨not, rfl, hnot, hpasses.trans hnotPasses, hends⟩
  · next hnone =>
    obtain ⟨rfl, rfl⟩ := Prod.mk.inj h
    exact .inl ⟨rfl, hpasses, hstops, Cursor.comesFirst_of_keyword? isAlpha_not hnone⟩

theorem separator_finds {c next : Cursor} {sep : Separator}
    (h : separator close c = .ok (sep, next)) :
    sep = .comma ∧ c.Passes [','] next ∨
      ∃ (junction : Junction) (word : List Char) (middle : Cursor),
        sameLetters word junction.word.toList = true ∧ c.Passes word middle ∧
        middle.rest.head?.any endsKeyword = true ∧
        joiner (junction.separator false) (junction.separator true) middle = (sep, next) := by
  rw [separator] at h
  split at h
  · next behind hcomma =>
    obtain ⟨rfl, rfl⟩ := Prod.mk.inj (Except.ok.inj h)
    exact .inl ⟨rfl, Cursor.eat?_passes hcomma⟩
  · split at h
    · next behind hand =>
      obtain ⟨word, hword, hpasses, hends⟩ := Cursor.keyword?_passes isAlpha_and hand
      exact .inr ⟨.and, word, behind, hword, hpasses, hends, Except.ok.inj h⟩
    · split at h
      · next behind hor =>
        obtain ⟨word, hword, hpasses, hends⟩ := Cursor.keyword?_passes isAlpha_or hor
        exact .inr ⟨.or, word, behind, hword, hpasses, hends, Except.ok.inj h⟩
      · exact absurd h (Cursor.expected_ne_ok _ _ _)

/-- A word does not end the word in front of it. -/
theorem endsKeyword_word {word keyword : List Char}
    (hkeyword : ∀ ch ∈ keyword, ch.isAlpha = true) (hne : keyword ≠ [])
    (h : sameLetters word keyword = true) (rest : List Char) :
    (word ++ rest).head?.any endsKeyword = false := by
  have hkeyed := isKeyChar_of_sameLetters hkeyword h
  have hword := (stops_blank_of_sameLetters rest hkeyword hne h).1
  cases word with
  | nil => exact absurd rfl hword
  | cons d word =>
    by_contra hends
    have hd := isKeyChar_eq_false_of_endsKeyword (by simpa using hends)
    simp [hkeyed d (by simp)] at hd

/-- A separator that is read in front of an operand has a layout. -/
theorem joint_finds {c middle next : Cursor} {sep : Separator} {gap : List Char}
    {o : OperandLayout} (hsep : separator close c.skipBlank = .ok (sep, middle))
    (hgap : Blanks gap) (ho : o.Readable) (hpasses : middle.Passes (gap ++ o.text) next) :
    ∃ joint : JointLayout, joint.Readable o.text ∧ sep = joint.separator ∧
      c.Passes (joint.text ++ o.text) next ∧
      middle.offset + utf8Length gap = c.offset + utf8Length joint.text := by
  obtain ⟨before, hbefore, hfront, -⟩ := c.skipBlank_passes
  obtain ⟨hne, hstart, hkey⟩ := OperandLayout.start ho
  have hwhole : ∀ joint : JointLayout, joint.Readable o.text → sep = joint.separator →
      (∃ sign, joint.text = before ++ (sign ++ gap) ∧ c.skipBlank.Passes sign middle) →
      ∃ joint : JointLayout, joint.Readable o.text ∧ sep = joint.separator ∧
        c.Passes (joint.text ++ o.text) next ∧
        middle.offset + utf8Length gap = c.offset + utf8Length joint.text := by
    rintro joint hjoint heq ⟨sign, htext, hsign⟩
    refine ⟨joint, hjoint, heq, ?_, ?_⟩
    · simpa [htext] using hfront.trans (hsign.trans hpasses)
    · simp [htext, hsign.offset, hfront.offset, Nat.add_assoc]
  obtain ⟨rfl, hcomma⟩ | ⟨junction, word, behind, hword, hwordPasses, hends, hjoiner⟩ :=
    separator_finds hsep
  · exact hwhole (.comma before gap) ⟨hbefore, hgap⟩ rfl ⟨[','], rfl, hcomma⟩
  · obtain ⟨space, hspace, ⟨rfl, hspacePasses, hstops, hnot⟩ |
      ⟨not, rfl, hnot, hnotPasses, hnotEnds⟩⟩ := joiner_finds hjoiner
    · rw [hpasses.rest, List.append_assoc] at hstops hnot
      obtain rfl := hgap.eq_nil hstops
      rw [List.nil_append, comesFirst_append _ hkey] at hnot
      rw [(hspacePasses.trans hpasses).rest] at hends
      have hfirst : (space ++ o.text).head?.any endsKeyword = true :=
        endsKeyword_of_append (by simp [hne]) hends
      exact hwhole (.joined junction before word space) ⟨hbefore, hword, hspace, hfirst, hnot⟩
        rfl ⟨word ++ space, by simp [JointLayout.text, JointLayout.before, JointLayout.sign,
          JointLayout.behind], hwordPasses.trans hspacePasses⟩
    · have hspaceNe : space ≠ [] := by
        rintro rfl
        rw [hnotPasses.rest, List.nil_append, endsKeyword_word isAlpha_not (by decide) hnot]
          at hends
        exact Bool.false_ne_true hends
      rw [hpasses.rest] at hnotEnds
      have hfirst : (gap ++ o.text).head?.any endsKeyword = true :=
        endsKeyword_of_append (by simp [hne]) hnotEnds
      exact hwhole (.joinedNot junction before word space not gap)
        ⟨hbefore, hword, hspace, hspaceNe, hnot, hgap, hfirst⟩ rfl
        ⟨word ++ (space ++ not), by simp [JointLayout.text, JointLayout.before,
          JointLayout.sign, JointLayout.behind], hwordPasses.trans hnotPasses⟩

end Separators

/-! ## Lists -/

section Lists

variable {nested : Reader (List BlockItem)} {levels : Nat} {close : Char}

/-- A separated operand is taken in one round of the loop. -/
theorem moreOperands_takes_joint (hnested : ReadsLists nested ')' levels) (hclose : Closes close)
    {joint : JointLayout} {o : OperandLayout} (hjoint : joint.Readable o.text) (ho : o.Readable)
    (hdepth : o.depth ≤ levels) {rest : List Char}
    (hrest : o.endsBare = true → Stops isValueChar rest) (rounds start : Nat) :
    moreOperands nested close (rounds + 1) ⟨joint.text ++ (o.text ++ rest), start⟩ = do
      let (more, c) ← moreOperands nested close rounds
        ⟨rest, start + utf8Length joint.text + utf8Length o.text⟩
      return (.separator joint.separator ::
        (o.items (start + utf8Length joint.text) ++ more), c) := by
  obtain ⟨hne, hstops, hkey⟩ := OperandLayout.start ho
  obtain ⟨hbefore, hbehind⟩ := JointLayout.blanks_of_readable hjoint
  obtain ⟨hsignStops, hsignHead⟩ := JointLayout.start_of_readable hjoint hclose
    (joint.behind ++ (o.text ++ rest))
  have hsep := separator_takes close hjoint hne hstops hkey rest
    (start + utf8Length joint.before)
  have hoperand := operand_takes hnested ho hdepth hbehind hrest
    (start + utf8Length joint.before + utf8Length joint.sign)
  have hstep := moreOperands_step rounds hbefore hsignStops hsignHead hsep hoperand
  simp only [JointLayout.text, List.append_assoc, utf8Length_append, ← Nat.add_assoc]
  exact hstep

theorem moreOperands_takes (hnested : ReadsLists nested ')' levels) (hclose : Closes close)
    (rest : List Char) : ∀ {tail : TailLayout}, tail.Readable → tail.depth ≤ levels →
      ∀ rounds start, tail.text.length < rounds →
        moreOperands nested close rounds ⟨tail.text ++ close :: rest, start⟩ =
          .ok (tail.items start, ⟨close :: rest, start + utf8Length tail.text⟩)
  | .done gap, h, _, rounds, start, hrounds => by
    have hskip : (Cursor.mk (gap ++ close :: rest) start).skipBlank =
        ⟨close :: rest, start + utf8Length gap⟩ :=
      Cursor.skipBlank_append start h (stops_cons.2 hclose.facts.1)
    obtain ⟨rounds, rfl⟩ : ∃ n, rounds = n + 1 := ⟨rounds - 1, by omega⟩
    simp only [TailLayout.text, TailLayout.items, moreOperands, hskip, Cursor.peek?,
      List.head?_cons, if_true]
  | .more joint o others, h, hdepth, rounds, start, hrounds => by
    obtain ⟨hjoint, ho, hothers, hends⟩ := h
    have hlong := List.length_pos_iff.2 (OperandLayout.start ho).1
    simp only [TailLayout.text, List.length_append] at hrounds
    simp only [TailLayout.depth, Nat.max_le] at hdepth
    obtain ⟨rounds, rfl⟩ : ∃ n, rounds = n + 1 := ⟨rounds - 1, by omega⟩
    have hrest : o.endsBare = true → Stops isValueChar (others.text ++ close :: rest) :=
      fun hbare => Stops.append (hends hbare) (stops_cons.2 hclose.facts.2.1)
    have hstep := moreOperands_takes_joint hnested hclose hjoint ho hdepth.1 hrest rounds start
    have hmore := moreOperands_takes hnested hclose rest hothers hdepth.2 rounds
      (start + utf8Length joint.text + utf8Length o.text) (by omega)
    rw [hmore] at hstep
    simp only [TailLayout.text, TailLayout.items, List.append_assoc, utf8Length_append,
      ← Nat.add_assoc]
    exact hstep

theorem moreOperands_finds (hnested : ReadsLists nested ')' levels) (rounds : Nat)
    {c next : Cursor} {items : List BlockItem}
    (h : moreOperands nested close rounds c = .ok (items, next)) :
    ∃ tail : TailLayout, tail.Readable ∧ tail.depth ≤ levels ∧ c.Passes tail.text next ∧
      next.peek? = some close ∧ items = tail.items c.offset := by
  induction rounds generalizing c items with
  | zero => exact absurd h (Cursor.expected_ne_ok _ _ _)
  | succ rounds ih =>
    rw [moreOperands] at h
    split at h
    · next hpeek =>
      obtain ⟨rfl, rfl⟩ := Prod.mk.inj (Except.ok.inj h)
      obtain ⟨gap, hgap, hpasses, -⟩ := c.skipBlank_passes
      exact ⟨.done gap, hgap, Nat.zero_le _, hpasses, hpeek, rfl⟩
    · obtain ⟨⟨sep, middle⟩, hsep, h⟩ := bind_eq_ok_iff.1 h
      obtain ⟨⟨first, behind⟩, hfirst, h⟩ := bind_eq_ok_iff.1 h
      obtain ⟨⟨more, stop⟩, hmore, heq⟩ := bind_eq_ok_iff.1 h
      obtain ⟨rfl, rfl⟩ := Prod.mk.inj (Except.ok.inj heq)
      obtain ⟨gap, o, hgap, ho, hdepth, hends, hpasses, rfl⟩ := operand_finds hnested hfirst
      obtain ⟨joint, hjoint, rfl, hjointPasses, hplace⟩ := joint_finds hsep hgap ho hpasses
      obtain ⟨others, hothers, hothersDepth, hothersPasses, hpeek, rfl⟩ := ih hmore
      refine ⟨.more joint o others, ⟨hjoint, ho, hothers, fun hbare => ?_⟩,
        Nat.max_le.2 ⟨hdepth, hothersDepth⟩, ?_, hpeek, ?_⟩
      · have hstops := hends hbare
        rw [hothersPasses.rest] at hstops
        exact hstops.of_append
      · simpa [TailLayout.text] using hjointPasses.trans hothersPasses
      · rw [TailLayout.items, hplace, hjointPasses.offset, utf8Length_append, Nat.add_assoc]

/-- A list is read with the levels that it takes, and only then. -/
theorem readsLists_blockItems (levels : Nat) {close : Char} (hclose : Closes close) :
    ReadsLists (blockItems levels close) close levels := by
  induction levels generalizing close with
  | zero =>
    refine ⟨fun _ hdepth => ?_, fun h => ?_⟩
    · simp [ItemsLayout.depth] at hdepth
    · simp [blockItems] at h
  | succ levels ih =>
    have hnested : ReadsLists (blockItems levels ')') ')' levels := ih (.inl rfl)
    constructor
    · intro layout h hdepth rest start
      simp only [ItemsLayout.depth, Nat.add_le_add_iff_right, Nat.max_le] at hdepth
      have hrest : layout.first.endsBare = true →
          Stops isValueChar (layout.more.text ++ close :: rest) :=
        fun hbare => Stops.append (h.ends hbare) (stops_cons.2 hclose.facts.2.1)
      have hfirst := operand_takes hnested h.first hdepth.1 h.gap hrest start
      have hmore := moreOperands_takes hnested hclose rest h.more hdepth.2
        (layout.more.text ++ close :: rest).length
        (start + utf8Length layout.gap + utf8Length layout.first.text) (by simp)
      simp only [ItemsLayout.text, List.append_assoc, utf8Length_append, ← Nat.add_assoc]
      simp only [blockItems, hfirst, hmore, bind, Except.bind]
      rfl
    · intro c next items h
      obtain ⟨⟨first, middle⟩, hfirst, h⟩ := bind_eq_ok_iff.1 h
      obtain ⟨⟨more, stop⟩, hmore, heq⟩ := bind_eq_ok_iff.1 h
      obtain ⟨rfl, rfl⟩ := Prod.mk.inj (Except.ok.inj heq)
      obtain ⟨gap, o, hgap, ho, hdepth, hends, hpasses, rfl⟩ := operand_finds hnested hfirst
      obtain ⟨tail, htail, htailDepth, htailPasses, hpeek, rfl⟩ :=
        moreOperands_finds hnested _ hmore
      refine ⟨⟨gap, o, tail⟩, ⟨hgap, ho, htail, fun hbare => ?_⟩, ?_, ?_, hpeek, ?_⟩
      · have hstops := hends hbare
        rw [htailPasses.rest] at hstops
        exact hstops.of_append
      · exact Nat.add_le_add_right (Nat.max_le.2 ⟨hdepth, htailDepth⟩) 1
      · simpa [ItemsLayout.text] using hpasses.trans htailPasses
      · rw [ItemsLayout.items, hpasses.offset, utf8Length_append, Nat.add_assoc]

end Lists

/-! ## Blocks -/

theorem blockBody_takes {body : BodyLayout} {levels : Nat} (h : body.Readable)
    (hdepth : body.depth ≤ levels) (rest : List Char) (start : Nat) :
    ∃ middle, blockBody (blockItems levels '\x7d') ⟨body.text ++ '\x7d' :: rest, start⟩ =
        .ok (body.block start, middle) ∧
      middle.skipBlank = ⟨'\x7d' :: rest, start + utf8Length body.text⟩ := by
  have hclose : ∀ stop, (Cursor.mk ('\x7d' :: rest) stop).skipBlank = ⟨'\x7d' :: rest, stop⟩ :=
    fun stop => Cursor.skipBlank_of_stops stop (stops_cons.2 (by decide))
  cases body with
  | wildcard gap space =>
    obtain ⟨hgap, hspace⟩ := h
    have hskip := Cursor.skipBlank_append start hgap
      (show Stops isBlank ('*' :: (space ++ '\x7d' :: rest)) from stops_cons.2 (by decide))
    refine ⟨⟨space ++ '\x7d' :: rest, start + utf8Length gap + utf8Length ['*']⟩, ?_, ?_⟩
    · simp only [BodyLayout.text, BodyLayout.block, List.append_assoc, List.cons_append,
        blockBody, hskip, Cursor.eat?_self]
    · rw [Cursor.skipBlank_append _ hspace (stops_cons.2 (by decide))]
      simp [BodyLayout.text, utf8Length, Nat.add_assoc]
  | items list =>
    obtain ⟨hgap, hfirst, hmore, hends⟩ := h
    obtain ⟨hne, hstops, -⟩ := OperandLayout.start hfirst
    have hskip := Cursor.skipBlank_append start hgap
      (show Stops isBlank (list.first.text ++ (list.more.text ++ '\x7d' :: rest)) from
        stops_append hne hstops)
    have hstar : ∀ offset, (Cursor.mk (list.first.text ++ (list.more.text ++ '\x7d' :: rest))
        offset).eat? '*' = none := by
      intro offset
      have hhead := OperandLayout.head_ne hfirst
      cases htext : list.first.text with
      | nil => exact absurd htext hne
      | cons d tail => exact Cursor.eat?_of_ne _ _ (by simpa [htext] using hhead)
    have hread := (readsLists_blockItems levels (.inr rfl)).takes
      (show ItemsLayout.Readable ⟨[], list.first, list.more⟩ from
        ⟨blanks_nil, hfirst, hmore, hends⟩) hdepth rest (start + utf8Length list.gap)
    refine ⟨⟨'\x7d' :: rest, start + utf8Length list.text⟩, ?_, hclose _⟩
    simp only [ItemsLayout.text, ItemsLayout.items, List.nil_append, List.append_assoc,
      utf8Length, Nat.add_zero, utf8Length_append, ← Nat.add_assoc] at hread
    simp only [BodyLayout.text, BodyLayout.block, ItemsLayout.text, ItemsLayout.items,
      List.append_assoc, utf8Length_append, ← Nat.add_assoc]
    simp only [blockBody, hskip, hstar, hread]

theorem blockBody_finds {levels : Nat} {c middle next : Cursor} {items : List BlockItem}
    (h : blockBody (blockItems levels '\x7d') c = .ok (items, middle))
    (hclose : expect '\x7d' middle.skipBlank = .ok next) :
    ∃ body : BodyLayout, body.Readable ∧ body.depth ≤ levels ∧
      c.Passes body.text middle.skipBlank ∧ items = body.block c.offset := by
  obtain ⟨gap, hgap, hpasses, -⟩ := c.skipBlank_passes
  rw [blockBody] at h
  split at h
  · next behind hstar =>
    obtain ⟨rfl, rfl⟩ := Prod.mk.inj (Except.ok.inj h)
    obtain ⟨space, hspace, hspacePasses, -⟩ := behind.skipBlank_passes
    exact ⟨.wildcard gap space, ⟨hgap, hspace⟩, Nat.zero_le _,
      hpasses.trans ((Cursor.eat?_passes hstar).trans hspacePasses), rfl⟩
  · obtain ⟨list, hlist, hdepth, hlistPasses, hpeek, rfl⟩ :=
      (readsLists_blockItems levels (.inr rfl)).finds h
    refine ⟨.items ⟨gap ++ list.gap, list.first, list.more⟩,
      ⟨hgap.append hlist.gap, hlist.first, hlist.more, hlist.ends⟩, hdepth, ?_, ?_⟩
    · rw [skipBlank_of_peek? hpeek (by decide)]
      simpa [BodyLayout.text, ItemsLayout.text] using hpasses.trans hlistPasses
    · simp only [BodyLayout.block, ItemsLayout.items, hpasses.offset, utf8Length_append,
        Nat.add_assoc]

/-! ## Spelled lists -/

section Spelled

variable {Nested : List BlockItem → List Char → Prop} {levels : Nat}

/-- The nested lists have layouts with so many levels. -/
def HasLayouts (Nested : List BlockItem → List Char → Prop) (levels : Nat) : Prop :=
  ∀ {items : List BlockItem} {text : List Char}, Nested items text →
    ∃ layout : ItemsLayout, layout.Readable ∧ layout.depth ≤ levels ∧ layout.text = text ∧
      Agree items (layout.items 0)

theorem OperandSpelled.exists_layout (hnested : HasLayouts Nested levels)
    {items : List BlockItem} {text : List Char} (h : OperandSpelled Nested items text) :
    ∃ o : OperandLayout, o.Readable ∧ o.depth ≤ levels ∧ o.text = text ∧
      Agree items (o.items 0) := by
  induction h with
  | @core item text hcore hplain =>
    cases hcore with
    | @condition c _ hcondition =>
      exact ⟨.condition c text, ⟨hcondition, hplain⟩, Nat.zero_le _, rfl,
        .condition (c.unplaced_movedTo _).symm⟩
    | @grouped inner text hitems =>
      obtain ⟨list, hlist, hdepth, rfl, hagree⟩ := hnested hitems
      refine ⟨.grouped list.gap list.first list.more,
        ⟨hlist.gap, hlist.first, hlist.more, hlist.ends⟩, hdepth,
        by simp [OperandLayout.text, ItemsLayout.text], .grouped ?_⟩
      exact hagree.trans ((agree_operand _ _ list.first).append (agree_tail _ _ list.more))
  | @negated word gap text items hword hgap hends hin _ ih =>
    obtain ⟨o, ho, hdepth, rfl, hagree⟩ := ih
    exact ⟨.negated word gap o, ⟨hword, hgap, hends, hin, ho⟩, hdepth, rfl,
      (Agree.refl [.separator .not]).append (hagree.trans (agree_operand _ _ o))⟩

theorem JointSpelled.exists_layout (hnested : HasLayouts Nested levels)
    {items : List BlockItem} {text : List Char} (h : JointSpelled Nested items text) :
    ∃ (joint : JointLayout) (o : OperandLayout), joint.Readable o.text ∧ o.Readable ∧
      o.depth ≤ levels ∧ joint.text ++ o.text = text ∧
      Agree items (.separator joint.separator :: o.items 0) := by
  have hjoin : ∀ (sep : Separator) {others : List BlockItem} {o : OperandLayout},
      Agree others (o.items 0) → Agree (.separator sep :: others) (.separator sep :: o.items 0) :=
    fun sep {_ _} hagree => (Agree.refl [.separator sep]).append hagree
  cases h with
  | @comma gap space text items hgap hspace hspelled =>
    obtain ⟨o, ho, hdepth, rfl, hagree⟩ := hspelled.exists_layout hnested
    exact ⟨.comma gap space, o, ⟨hgap, hspace⟩, ho, hdepth,
      by simp [JointLayout.text, JointLayout.before, JointLayout.sign, JointLayout.behind],
      hjoin _ hagree⟩
  | @joined gap word space text items junction hgap _ hword hspace hends hnot hspelled =>
    obtain ⟨o, ho, hdepth, rfl, hagree⟩ := hspelled.exists_layout hnested
    exact ⟨.joined junction gap word space, o, ⟨hgap, hword, hspace, hends, hnot⟩, ho, hdepth,
      by simp [JointLayout.text, JointLayout.before, JointLayout.sign, JointLayout.behind],
      hjoin _ hagree⟩
  | @joinedNot gap word between not space text items junction hgap _ hword hbetween hbetweenNe
      hnot hspace hends hspelled =>
    obtain ⟨o, ho, hdepth, rfl, hagree⟩ := hspelled.exists_layout hnested
    exact ⟨.joinedNot junction gap word between not space, o,
      ⟨hgap, hword, hbetween, hbetweenNe, hnot, hspace, hends⟩, ho, hdepth,
      by simp [JointLayout.text, JointLayout.before, JointLayout.sign, JointLayout.behind],
      hjoin _ hagree⟩

theorem TailSpelled.exists_layout (hnested : HasLayouts Nested levels)
    {items : List BlockItem} {text : List Char} (h : TailSpelled Nested items text) :
    ∃ tail : TailLayout, tail.Readable ∧ tail.depth ≤ levels ∧ tail.text = text ∧
      Agree items (tail.items 0) := by
  induction h with
  | @done gap hgap => exact ⟨.done gap, hgap, Nat.zero_le _, rfl, .refl []⟩
  | @more items others text more hjoint hmore ih =>
    obtain ⟨tail, htail, htailDepth, rfl, htailAgree⟩ := ih
    obtain ⟨joint, o, hreadable, ho, hdepth, rfl, hagree⟩ := hjoint.exists_layout hnested
    have hstops : Stops isValueChar tail.text := (hmore.stops (.inl rfl) []).of_append
    refine ⟨.more joint o tail, ⟨hreadable, ho, htail, fun _ => hstops⟩,
      Nat.max_le.2 ⟨hdepth, htailDepth⟩, by simp [TailLayout.text], ?_⟩
    have hfirst : Agree (.separator joint.separator :: o.items 0)
        (.separator joint.separator :: o.items (0 + utf8Length joint.text)) :=
      (Agree.refl [.separator joint.separator]).append (agree_operand _ _ o)
    exact (hagree.trans hfirst).append (htailAgree.trans (agree_tail _ _ tail))

/-- A spelled list has a layout. -/
theorem hasLayouts_listSpelled (levels : Nat) : HasLayouts (ListSpelled levels) levels := by
  induction levels with
  | zero => intro items text h; exact h.elim
  | succ levels ih =>
    rintro items text ⟨gap, first, firstText, others, more, hgap, hfirst, hmore, rfl, rfl⟩
    have hstops : Stops isValueChar more := (hmore.stops (.inl rfl) []).of_append
    obtain ⟨o, ho, hdepth, rfl, hagree⟩ := hfirst.exists_layout ih
    obtain ⟨tail, htail, htailDepth, rfl, htailAgree⟩ := hmore.exists_layout ih
    refine ⟨⟨gap, o, tail⟩, ⟨hgap, ho, htail, fun _ => hstops⟩,
      Nat.add_le_add_right (Nat.max_le.2 ⟨hdepth, htailDepth⟩) 1, rfl, ?_⟩
    exact (hagree.trans (agree_operand _ _ o)).append (htailAgree.trans (agree_tail _ _ tail))

end Spelled

end MetricQuery.Grammar
