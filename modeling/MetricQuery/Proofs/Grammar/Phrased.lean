import MetricQuery.Proofs.Grammar.ExprExact

/-!
# Filter blocks as a user may write them

A filter block is a list `NOT* X (S X)*` of operands `X` and separators `S`, and an operand is a
condition or such a list in parentheses.  If no condition has the key `NOT` or `IN`, nothing but
that shape matters: with keywords in any case, blanks around them and any blanks elsewhere, every
such list is accepted and read as it is written, `parse_phrased`.

* `CorePhrased`, `OperandPhrased` and `TailPhrased`: an operand, the same with `NOT`s in front of
  it, and what follows it; `ListPhrased`: a list.
* `ListPhrased.exists_layout`: each of these texts is that of a readable layout.  What `Spelling`
  asks of the words behind a keyword holds since no key is a keyword.
-/

namespace MetricQuery.Grammar

open Text BlockItem

/-! ## Texts -/

mutual

/-- An operand `X`: a condition whose key is no keyword, or a list in parentheses. -/
inductive CorePhrased : BlockItem → List Char → Prop where
  | condition {c : Condition} {text : List Char}
      (hnot : sameLetters c.key.toList "NOT".toList = false)
      (hin : sameLetters c.key.toList "IN".toList = false)
      (hcondition : ConditionSpelled c text) : CorePhrased (.condition c) text
  | grouped {gap text more : List Char} {items others : List BlockItem} (hgap : Blanks gap)
      (hfirst : OperandPhrased items text) (hmore : TailPhrased others more) :
      CorePhrased (.grouped (items ++ others)) ('(' :: (gap ++ (text ++ (more ++ [')']))))

/-- `NOT* X`. -/
inductive OperandPhrased : List BlockItem → List Char → Prop where
  | core {item : BlockItem} {text : List Char} (hcore : CorePhrased item text) :
      OperandPhrased [item] text
  | negated {word gap text : List Char} {items : List BlockItem}
      (hword : sameLetters word "NOT".toList = true) (hgap : Blanks gap) (hne : gap ≠ [])
      (hoperand : OperandPhrased items text) :
      OperandPhrased (.separator .not :: items) (word ++ (gap ++ text))

/-- `(S X)*` up to what closes the list; `S` is a comma, `AND NOT` or `OR NOT` with any `NOT`s
behind it, or `AND` or `OR` alone. -/
inductive TailPhrased : List BlockItem → List Char → Prop where
  | done {gap : List Char} (hgap : Blanks gap) : TailPhrased [] gap
  | comma {gap space text more : List Char} {items others : List BlockItem} (hgap : Blanks gap)
      (hspace : Blanks space) (hoperand : OperandPhrased items text)
      (hmore : TailPhrased others more) :
      TailPhrased (.separator .comma :: (items ++ others))
        (gap ++ (',' :: (space ++ (text ++ more))))
  | joined {gap word space text more : List Char} {item : BlockItem} {others : List BlockItem}
      (junction : Junction) (hgap : Blanks gap) (hgapNe : gap ≠ [])
      (hword : sameLetters word junction.word.toList = true) (hspace : Blanks space)
      (hspaceNe : space ≠ []) (hcore : CorePhrased item text) (hmore : TailPhrased others more) :
      TailPhrased (.separator (junction.separator false) :: item :: others)
        (gap ++ (word ++ (space ++ (text ++ more))))
  | joinedNot {gap word between not space text more : List Char} {items others : List BlockItem}
      (junction : Junction) (hgap : Blanks gap) (hgapNe : gap ≠ [])
      (hword : sameLetters word junction.word.toList = true) (hbetween : Blanks between)
      (hbetweenNe : between ≠ []) (hnot : sameLetters not "NOT".toList = true)
      (hspace : Blanks space) (hspaceNe : space ≠ []) (hoperand : OperandPhrased items text)
      (hmore : TailPhrased others more) :
      TailPhrased (.separator (junction.separator true) :: (items ++ others))
        (gap ++ (word ++ (between ++ (not ++ (space ++ (text ++ more))))))

end

/-- `NOT* X (S X)*`, with any blanks around it. -/
inductive ListPhrased : List BlockItem → List Char → Prop where
  | intro {gap text more : List Char} {items others : List BlockItem} (hgap : Blanks gap)
      (hfirst : OperandPhrased items text) (hmore : TailPhrased others more) :
      ListPhrased (items ++ others) (gap ++ (text ++ more))

/-! ## Their layouts -/

/-- A word that is not the key does not come first in the condition. -/
theorem ConditionSpelled.comesFirst_eq_false {c : Condition} {text : List Char} {word : String}
    (h : ConditionSpelled c text) (hword : word.toList ≠ [])
    (hkey : sameLetters c.key.toList word.toList = false) : comesFirst word text = false := by
  obtain ⟨-, hchars, comparison, hcomparison, rfl⟩ := h
  cases c.negative with
  | true =>
    have hlength : sameLetters [] word.toList = false := by
      rw [← Bool.not_eq_true]
      intro hsame
      exact hword (List.length_eq_zero_iff.1 (length_eq_of_sameLetters hsame).symm)
    simp [comesFirst, show isKeyChar '!' = false by decide, hlength]
  | false =>
    rw [if_neg Bool.false_ne_true, List.nil_append,
      comesFirst_of_run _ hchars hcomparison.start.2, hkey, Bool.false_and]

theorem stops_isValueChar_of_blanks {gap : List Char} (hgap : Blanks gap) :
    Stops isValueChar gap :=
  fun c hc => isValueChar_eq_false_of_isBlank (hgap c (List.mem_of_mem_head? hc))

/-- An operand and what follows it, put together. -/
theorem TailLayout.readable_more {joint : JointLayout} {o : OperandLayout} {tail : TailLayout}
    {items others : List BlockItem} (hjoint : joint.Readable o.text) (ho : o.Readable)
    (htail : tail.Readable) (hstops : Stops isValueChar tail.text)
    (hagree : Agree items (o.items 0)) (htailAgree : Agree others (tail.items 0)) :
    (TailLayout.more joint o tail).Readable ∧
      Agree (.separator joint.separator :: (items ++ others))
        ((TailLayout.more joint o tail).items 0) := by
  refine ⟨⟨hjoint, ho, htail, fun _ => hstops⟩, ?_⟩
  exact (Agree.refl [.separator joint.separator]).append
    ((hagree.trans (agree_operand _ _ o)).append (htailAgree.trans (agree_tail _ _ tail)))

mutual

theorem CorePhrased.exists_layout : ∀ {item : BlockItem} {text : List Char},
    CorePhrased item text → ∃ o : OperandLayout, o.Readable ∧ o.text = text ∧
      Agree [item] (o.items 0) ∧ comesFirst "NOT" text = false ∧ comesFirst "IN" text = false
  | _, _, @CorePhrased.condition c text hnot hin hcondition => by
    refine ⟨.condition c text, ⟨hcondition, fun hlooks => ?_⟩, rfl,
      .condition (c.unplaced_movedTo _).symm, hcondition.comesFirst_eq_false (by simp) hnot,
      hcondition.comesFirst_eq_false (by simp) hin⟩
    obtain ⟨-, hkey, -⟩ := hlooks
    rw [hnot] at hkey
    exact Bool.false_ne_true hkey
  | _, _, @CorePhrased.grouped gap _ _ _ _ hgap hfirst hmore => by
    obtain ⟨first, hfirst', rfl, hagree, -⟩ := hfirst.exists_layout
    obtain ⟨more, hmore', rfl, hmoreAgree, hstops⟩ := hmore.exists_layout
    refine ⟨.grouped gap first more, ⟨hgap, hfirst', hmore', fun _ => hstops⟩, rfl, .grouped ?_,
      by simp [comesFirst, isKeyChar, sameLetters], by simp [comesFirst, isKeyChar, sameLetters]⟩
    exact (hagree.trans (agree_operand _ _ first)).append (hmoreAgree.trans (agree_tail _ _ more))

theorem OperandPhrased.exists_layout : ∀ {items : List BlockItem} {text : List Char},
    OperandPhrased items text → ∃ o : OperandLayout, o.Readable ∧ o.text = text ∧
      Agree items (o.items 0) ∧ comesFirst "IN" text = false
  | _, _, .core hcore => by
    obtain ⟨o, ho, htext, hagree, -, hin⟩ := hcore.exists_layout
    exact ⟨o, ho, htext, hagree, hin⟩
  | _, _, @OperandPhrased.negated word gap _ _ hword hgap hne hoperand => by
    obtain ⟨o, ho, rfl, hagree, hin⟩ := hoperand.exists_layout
    have hends : (gap ++ o.text).head?.any endsKeyword = true := endsKeyword_of_blanks hgap hne
    exact ⟨.negated word gap o, ⟨hword, hgap, hends, hin, ho⟩, rfl,
      (Agree.refl [.separator .not]).append (hagree.trans (agree_operand _ _ o)),
      comesFirst_of_sameLetters isAlpha_not hword hends (by decide)⟩

theorem TailPhrased.exists_layout : ∀ {items : List BlockItem} {text : List Char},
    TailPhrased items text → ∃ tail : TailLayout, tail.Readable ∧ tail.text = text ∧
      Agree items (tail.items 0) ∧ Stops isValueChar text
  | _, _, @TailPhrased.done gap hgap =>
    ⟨.done gap, hgap, rfl, .refl [], stops_isValueChar_of_blanks hgap⟩
  | _, _, @TailPhrased.comma gap space _ _ _ _ hgap hspace hoperand hmore => by
    obtain ⟨o, ho, rfl, hagree, -⟩ := hoperand.exists_layout
    obtain ⟨tail, htail, rfl, htailAgree, hstops⟩ := hmore.exists_layout
    have hjoint : (JointLayout.comma gap space).Readable o.text := ⟨hgap, hspace⟩
    obtain ⟨hreadable, hitems⟩ :=
      TailLayout.readable_more hjoint ho htail hstops hagree htailAgree
    exact ⟨_, hreadable, by simp [TailLayout.text, JointLayout.text, JointLayout.before,
      JointLayout.sign, JointLayout.behind], hitems,
      (stops_isValueChar_of_blanks hgap).append (stops_cons.2 (by decide))⟩
  | _, _, @TailPhrased.joined gap word space _ _ _ _ junction hgap hgapNe hword hspace hspaceNe
      hcore hmore => by
    obtain ⟨o, ho, rfl, hagree, hnot, -⟩ := hcore.exists_layout
    obtain ⟨tail, htail, rfl, htailAgree, hstops⟩ := hmore.exists_layout
    have hjoint : (JointLayout.joined junction gap word space).Readable o.text :=
      ⟨hgap, hword, hspace, endsKeyword_of_blanks hspace hspaceNe, hnot⟩
    obtain ⟨hreadable, hitems⟩ :=
      TailLayout.readable_more hjoint ho htail hstops hagree htailAgree
    exact ⟨_, hreadable, by simp [TailLayout.text, JointLayout.text, JointLayout.before,
      JointLayout.sign, JointLayout.behind], hitems, stops_of_blanks _ hgap hgapNe⟩
  | _, _, @TailPhrased.joinedNot gap word between not space _ _ _ _ junction hgap hgapNe hword
      hbetween hbetweenNe hnot hspace hspaceNe hoperand hmore => by
    obtain ⟨o, ho, rfl, hagree, -⟩ := hoperand.exists_layout
    obtain ⟨tail, htail, rfl, htailAgree, hstops⟩ := hmore.exists_layout
    have hjoint : (JointLayout.joinedNot junction gap word between not space).Readable o.text :=
      ⟨hgap, hword, hbetween, hbetweenNe, hnot, hspace, endsKeyword_of_blanks hspace hspaceNe⟩
    obtain ⟨hreadable, hitems⟩ :=
      TailLayout.readable_more hjoint ho htail hstops hagree htailAgree
    exact ⟨_, hreadable, by simp [TailLayout.text, JointLayout.text, JointLayout.before,
      JointLayout.sign, JointLayout.behind], hitems, stops_of_blanks _ hgap hgapNe⟩

end

theorem ListPhrased.exists_layout {items : List BlockItem} {text : List Char}
    (h : ListPhrased items text) :
    ∃ list : ItemsLayout, list.Readable ∧ list.text = text ∧
      ∀ start, Agree items (list.items start) := by
  obtain ⟨hgap, hfirst, hmore⟩ := h
  obtain ⟨first, hfirst', rfl, hagree, -⟩ := hfirst.exists_layout
  obtain ⟨more, hmore', rfl, hmoreAgree, hstops⟩ := hmore.exists_layout
  exact ⟨⟨_, first, more⟩, ⟨hgap, hfirst', hmore', fun _ => hstops⟩, rfl, fun start =>
    (hagree.trans (agree_operand _ _ first)).append (hmoreAgree.trans (agree_tail _ _ more))⟩

end MetricQuery.Grammar

namespace MetricQuery

open Text Grammar

/-- A phrased list is accepted as a filter block, and its items are read as they are written:
under all limits with a pattern that leave room for the text. -/
theorem parse_phrased {items : List BlockItem} {text : String} {limits : Limits}
    {engine : PatternEngine}
    (h : ListPhrased items text.toList)
    (hpattern : (engine.compile? limits.windowPattern).isSome = true)
    (hlength : ("m\x7b" ++ text ++ "\x7d").utf8ByteSize ≤ limits.maxLength)
    (hdepth : ("m\x7b" ++ text ++ "\x7d").utf8ByteSize ≤ limits.maxDepth) :
    ∃ term : MetricTerm, parse ("m\x7b" ++ text ++ "\x7d") limits engine = .ok (.metric term) ∧
      term.metric = "m" ∧ BlockItem.Agree items term.block := by
  obtain ⟨pattern, hcompile⟩ := Option.isSome_iff_exists.1 hpattern
  obtain ⟨list, hlist, htext, hagree⟩ := h.exists_layout
  let m : MetricLayout := ⟨.plain, ['m'], .items list, [], [], [], []⟩
  have hm : m.Readable pattern :=
    ⟨List.cons_ne_nil _ _, by simp [m, isMetricChar, isWordChar],
      show ['m'].head?.any isWordStart = true by decide, hlist, .none, .none⟩
  have hwritten : ("m\x7b" ++ text ++ "\x7d").toList =
      [] ++ ((ExprLayout.metric m).text ++ []) := by
    simp [m, ExprLayout.text, MetricLayout.text, MetricLayout.front, HeadLayout.text,
      BodyLayout.text, htext]
  exact ⟨m.term 0, parse_of_readable hcompile hwritten blanks_nil blanks_nil hm hlength hdepth,
    rfl, hagree _⟩

/-- A list in parentheses with an empty list of values, and words in three cases. -/
theorem parse_phrased_nested :
    let a : Condition := ⟨false, "a", .oneOf, .list [], ⟨0, 0⟩⟩
    let b : Condition := ⟨true, "b", .notColon, .single "~x", ⟨0, 0⟩⟩
    let c : Condition := ⟨false, "c", .regex, .single "'y z'", ⟨0, 0⟩⟩
    let items : List BlockItem :=
      [.separator .not, .grouped [.condition a, .separator .comma, .condition b],
        .separator .orNot, .condition c]
    let text := "NOT ( a In () ,!b!:~x) or\tnot c:~'y z' "
    ListPhrased items text.toList ∧ ∃ term, parse ("m\x7b" ++ text ++ "\x7d") = .ok (.metric term) ∧
      term.metric = "m" ∧ BlockItem.Agree items term.block := by
  intro a b c items text
  have hspace : Blanks [' '] := by simp [isBlank_space]
  have htab : Blanks ['\t'] := by simp [isBlank, blankRanges]
  have hne : ∀ d : Char, [d] ≠ [] := fun d => List.cons_ne_nil d []
  have ha : ConditionSpelled a "a In ()".toList :=
    ⟨by decide, by simp [a, isKeyChar], [' '] ++ ("In".toList ++ ([' '] ++ '(' :: ([] ++ [')']))),
      .oneOf hspace (hne _) (show sameLetters "In".toList "IN".toList = true by decide) hspace
        (.none blanks_nil), by decide⟩
  have hb : ConditionSpelled b "!b!:~x".toList :=
    ⟨by decide, by simp [b, isKeyChar], '!' :: ':' :: "~x".toList,
      .notColon ⟨rfl, .inr ⟨by decide, by decide⟩⟩, by decide⟩
  have hc : ConditionSpelled c "c:~'y z'".toList :=
    ⟨by decide, by simp [c, isKeyChar], ':' :: '~' :: "'y z'".toList,
      .regex ⟨rfl, .inl (by decide)⟩, by decide⟩
  have hphrased : ListPhrased items text.toList := by
    have hkeys : ∀ key ∈ ["a", "b", "c"], sameLetters key.toList "NOT".toList = false ∧
        sameLetters key.toList "IN".toList = false := by decide
    have hgroup := CorePhrased.grouped hspace
      (.core (.condition (hkeys "a" (by simp)).1 (hkeys "a" (by simp)).2 ha))
      (.comma hspace blanks_nil
        (.core (.condition (hkeys "b" (by simp)).1 (hkeys "b" (by simp)).2 hb)) (.done blanks_nil))
    have hfirst := OperandPhrased.negated (sameLetters_self "NOT".toList) hspace (hne _)
      (.core hgroup)
    have hmore := TailPhrased.joinedNot .or hspace (hne _)
      (show sameLetters "or".toList Junction.or.word.toList = true by decide) htab (hne _)
      (show sameLetters "not".toList "NOT".toList = true by decide) hspace (hne _)
      (.core (.condition (hkeys "c" (by simp)).1 (hkeys "c" (by simp)).2 hc)) (.done hspace)
    simpa [items, text, Junction.separator] using ListPhrased.intro blanks_nil hfirst hmore
  exact ⟨hphrased, parse_phrased hphrased (by decide +kernel) (by decide +kernel)
    (by decide +kernel)⟩

end MetricQuery
