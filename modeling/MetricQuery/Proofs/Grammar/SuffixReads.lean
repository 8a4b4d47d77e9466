import MetricQuery.Proofs.FilterTree.Written
import MetricQuery.Proofs.Grammar.Arguments
import MetricQuery.Proofs.Grammar.BlockReads

/-!
# Reading what follows a written filter block

The group-by tags and the calls of a query are read from all texts that spell them, with the
word `by` in any case and with any blanks where blanks may stand.

* `TagsSpelled` and `CallsSpelled`: the texts of tags and of calls.
* `groupTags_reads` and `functionCalls_reads`: they are read as those tags and calls, in front
  of what starts no other ones.
* `tagsSpelled_written` and `callsSpelled_written`: a query writes its tags and calls so, if
  each tag is made of tag characters, each name of word characters, and each argument is clean.
-/

namespace MetricQuery.Grammar

open Text

/-! ## Tags -/

/-- A tag that can be read. -/
def TagSpelled (tag : String) (text : List Char) : Prop :=
  text = tag.toList ∧ text ≠ [] ∧ ∀ c ∈ text, isTagChar c = true

theorem TagSpelled.start {tag : String} {text : List Char} (h : TagSpelled tag text) :
    text ≠ [] ∧ Stops isBlank text := by
  obtain ⟨-, hne, hchars⟩ := h
  refine ⟨hne, ?_⟩
  cases text with
  | nil => simp
  | cons c text =>
    refine stops_cons.2 ?_
    have hc := hchars c (by simp)
    by_contra hblank
    rw [Bool.not_eq_false] at hblank
    simp [isTagChar_eq_false_of_isBlank hblank] at hc

theorem stops_isTagChar_of_itemEnds {rest : List Char} (h : ItemEnds '\x7d' rest) :
    Stops isTagChar rest := by
  obtain ⟨c, hc, h⟩ := h
  intro d hd
  rw [Option.mem_def.1 hc] at hd
  obtain rfl := Option.some.inj hd
  rcases h with h | rfl | rfl
  · exact isTagChar_eq_false_of_isBlank h
  all_goals decide

theorem groupTag_reads {tag : String} {text rest : List Char} (h : TagSpelled tag text)
    (hrest : ItemEnds '\x7d' rest) : Reads groupTag text rest (· = tag) := by
  obtain ⟨rfl, hne, hchars⟩ := h
  intro offset
  have htake := Cursor.takeWhile_append offset hchars (stops_isTagChar_of_itemEnds hrest)
  refine ⟨tag, offset + utf8Length tag.toList, ?_, rfl⟩
  rw [groupTag, htake]
  split
  · next hnil => exact absurd (Prod.mk.inj hnil).1 hne
  · next heq =>
    obtain ⟨rfl, rfl⟩ := Prod.mk.inj heq
    rw [String.ofList_toList]

/-- The tags of a query with the word in front of them, or nothing. -/
inductive TagsSpelled : List String → List Char → Prop where
  | none : TagsSpelled [] []
  | some {gap word space inner text more : List Char} {tag : String} {tags : List String}
      (hgap : Blanks gap) (hword : sameLetters word "by".toList = true) (hspace : Blanks space)
      (hinner : Blanks inner) (htag : TagSpelled tag text)
      (hmore : MoreSpelled TagSpelled '\x7d' tags more) :
      TagsSpelled (tag :: tags)
        (gap ++ (word ++ (space ++ '\x7b' :: (inner ++ (text ++ more)))))

theorem isAlpha_by : ∀ ch ∈ "by".toList, ch.isAlpha = true :=
  isAlpha_keywords "by" (by simp)

/-- Tags are read, and none where no further word `by` follows. -/
theorem groupTags_reads {tags : List String} {text rest : List Char} (h : TagsSpelled tags text)
    (hby : tags = [] → comesFirst "by" (skipBlank rest) = false) :
    Reads groupTags text rest (· = tags) := by
  intro offset
  cases h with
  | none =>
    have hnone : (Cursor.mk rest offset).skipBlank.keyword? "by" = none :=
      Cursor.keyword?_of_not _ isAlpha_by (hby rfl)
    exact ⟨[], offset, by rw [List.nil_append, groupTags, hnone], rfl⟩
  | @some gap word space inner text more tag tags hgap hword hspace hinner htag hmore =>
    have hbrace : Stops isBlank ('\x7b' :: (inner ++ (text ++ more) ++ rest)) :=
      stops_cons.2 (by decide)
    have hends : (space ++ '\x7b' :: (inner ++ (text ++ more) ++ rest)).head?.any
        endsKeyword = true := by
      cases space with
      | nil => simp [endsKeyword]
      | cons c space => simp [endsKeyword, (blanks_cons.1 hspace).1]
    have hstops := (stops_blank_of_sameLetters
      (space ++ '\x7b' :: (inner ++ (text ++ more) ++ rest)) isAlpha_by (by decide) hword).2
    have hskip := Cursor.skipBlank_append offset hgap hstops
    have hkeyword := Cursor.keyword?_append (offset + utf8Length gap) isAlpha_by hword hends
    obtain ⟨_, stop, hread, rfl⟩ := commaList_reads (by decide) TagSpelled.start
      (fun htag hends => groupTag_reads htag hends) hinner htag hmore rest
      (offset + utf8Length gap + utf8Length word + utf8Length space + utf8Length ['\x7b'])
    refine ⟨_, stop, ?_, rfl⟩
    simp only [List.append_assoc, List.cons_append] at hskip hkeyword hread hbrace ⊢
    simp only [groupTags, hskip, hkeyword, Cursor.skipBlank_append _ hspace hbrace, expect_self,
      bind, Except.bind, hread]

/-- The text of tags with commas between them. -/
theorem moreSpelled_tags {tags : List String} (h : ∀ tag ∈ tags, TagSpelled tag tag.toList) :
    MoreSpelled TagSpelled '\x7d' tags
      (tags.flatMap (fun tag => ", ".toList ++ tag.toList) ++ ['\x7d']) := by
  induction tags with
  | nil => exact .closed blanks_nil
  | cons tag tags ih =>
    have hspace : Blanks [' '] := by simp [isBlank_space]
    have := MoreSpelled.comma blanks_nil hspace (h tag (by simp))
      (ih fun other hother => h other (by simp [hother]))
    simpa using this

/-- The tags of a query are spelled as it writes them. -/
theorem tagsSpelled_written {q : Query} (h : ∀ tag ∈ q.tags, TagSpelled tag tag.toList) :
    TagsSpelled q.tags q.renderTags.toList := by
  cases htags : q.tags with
  | nil => simpa [Query.renderTags, htags] using TagsSpelled.none
  | cons tag tags =>
    rw [htags] at h
    have hspace : Blanks [' '] := by simp [isBlank_space]
    have hmore := moreSpelled_tags fun other hother => h other (List.mem_cons_of_mem tag hother)
    have hspelled := TagsSpelled.some hspace (sameLetters_self "by".toList) hspace blanks_nil
      (h tag (by simp)) hmore
    simp only [Query.renderTags, htags, List.isEmpty_cons, Bool.false_eq_true, if_false,
      String.toList_append, toList_intercalate_cons]
    simpa using hspelled

/-! ## Calls -/

/-- The text of a call behind its dot. -/
def CallSpelled (call : FunctionCall) (text : List Char) : Prop :=
  call.name ≠ "" ∧ (∀ c ∈ call.name.toList, isWordChar c = true) ∧
    ∃ inner, ArgumentsSpelled call.arguments inner ∧ text = call.name.toList ++ '(' :: inner

/-- The calls of a query, each behind a dot. -/
inductive CallsSpelled : List FunctionCall → List Char → Prop where
  | none : CallsSpelled [] []
  | more {call : FunctionCall} {calls : List FunctionCall} {text more : List Char}
      (hcall : CallSpelled call text) (hmore : CallsSpelled calls more) :
      CallsSpelled (call :: calls) ('.' :: (text ++ more))

theorem functionCall_reads {call : FunctionCall} {text : List Char} (h : CallSpelled call text)
    (rest : List Char) : Reads functionCall text rest (· = call) := by
  obtain ⟨hname, hchars, inner, hinner, rfl⟩ := h
  intro offset
  have hne : call.name.toList ≠ [] := by simpa using hname
  have htake := Cursor.takeWhile_append offset hchars
    (show Stops isWordChar ('(' :: (inner ++ rest)) from stops_cons.2 (by decide))
  obtain ⟨_, stop, hread, rfl⟩ := rawArguments_reads (offset + utf8Length call.name.toList)
    hinner rest (offset + utf8Length call.name.toList + utf8Length ['('])
  refine ⟨call, stop, ?_, rfl⟩
  rw [List.append_assoc, List.cons_append, functionCall, htake]
  split
  · next hnil => exact absurd (Prod.mk.inj hnil).1 hne
  · next heq =>
    obtain ⟨rfl, rfl⟩ := Prod.mk.inj heq
    simp only [expect_self, hread, bind, Except.bind, String.ofList_toList]
    rfl

/-- Calls are read one after the other, up to what starts no call. -/
theorem moreCalls_reads {calls : List FunctionCall} {text rest : List Char}
    (h : CallsSpelled calls text) (hrest : rest.head? ≠ some '.') :
    ∀ rounds, text.length ≤ rounds → Reads (moreCalls rounds) text rest (· = calls) := by
  induction h with
  | none =>
    intro rounds _ offset
    refine ⟨[], offset, ?_, rfl⟩
    have hdot : (Cursor.mk rest offset).eat? '.' = none := by
      cases rest with
      | nil => exact Cursor.eat?_nil _ _
      | cons c rest => exact Cursor.eat?_of_ne _ _ (by simpa using hrest)
    cases rounds with
    | zero => simp [moreCalls]
    | succ rounds => simp [moreCalls, hdot]
  | @more call calls text more hcall hmore ih =>
    intro rounds hrounds offset
    simp only [List.length_cons, List.length_append] at hrounds
    obtain ⟨rounds, rfl⟩ : ∃ n, rounds = n + 1 := ⟨rounds - 1, by omega⟩
    obtain ⟨_, middle, hfirst, rfl⟩ :=
      functionCall_reads hcall (more ++ rest) (offset + utf8Length ['.'])
    obtain ⟨_, stop, hothers, rfl⟩ := ih rounds (by omega) middle
    refine ⟨_, stop, ?_, rfl⟩
    rw [List.cons_append, List.append_assoc]
    simp only [moreCalls, Cursor.eat?_self, hfirst, hothers, bind, Except.bind]
    rfl

theorem functionCalls_reads {calls : List FunctionCall} {text rest : List Char}
    (h : CallsSpelled calls text) (hrest : rest.head? ≠ some '.') :
    Reads functionCalls text rest (· = calls) := by
  intro offset
  exact moreCalls_reads h hrest (text ++ rest).length (by simp) offset

end MetricQuery.Grammar

namespace MetricQuery

open Text Grammar

/-- A call that can be read. -/
structure FunctionCall.Readable (call : FunctionCall) : Prop where
  name_ne : call.name ≠ ""
  nameChars : ∀ c ∈ call.name.toList, isWordChar c = true
  arguments : ∀ a ∈ call.arguments, CleanArgument a.toList

/-- The calls of a query are spelled as it writes them. -/
theorem callsSpelled_written {calls : List FunctionCall} (h : ∀ call ∈ calls, call.Readable) :
    CallsSpelled calls (String.join (calls.map FunctionCall.written)).toList := by
  induction calls with
  | nil => exact .none
  | cons call calls ih =>
    have hcall := h call (by simp)
    have hspelled := CallsSpelled.more
      ⟨hcall.name_ne, hcall.nameChars, _, argumentsSpelled_of_clean hcall.arguments, rfl⟩
      (ih fun other hother => h other (by simp [hother]))
    simpa [FunctionCall.written] using hspelled

end MetricQuery
