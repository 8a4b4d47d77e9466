import MetricQuery.Grammar.Cursor
import MetricQuery.Proofs.Text.Values

/-!
# Readers on a given text

`Reads reader text rest P` says that a reader takes exactly `text` when `rest` follows,
and that `P` holds of what it reads.  Where in the text the reader starts makes no
difference: positions are only written down.  `c.Passes text next` says where a read from `c`
that took `text` has stopped.

* The steps of a cursor on a text that is known: `takeWhile_append`, `skipBlank_append`,
  `eat?_self`, `expect_self`.
* `keyword?_eq`: a keyword comes next if the run of key characters that comes next is the
  keyword, in any case, and a blank, a parenthesis or a brace follows.
* `moreItems_reads` and `commaList_reads`: lists separated by commas with any blanks
  around the commas.
-/

namespace MetricQuery

/-- Two steps succeed if the first one does and the second one does behind it. -/
theorem bind_eq_ok_iff {ε α β : Type} {result : Except ε α} {f : α → Except ε β} {b : β} :
    (result >>= f) = .ok b ↔ ∃ a, result = .ok a ∧ f a = .ok b := by
  cases result <;> simp [bind, Except.bind]

theorem toOption_eq_some_iff {ε α : Type} {result : Except ε α} {a : α} :
    result.toOption = some a ↔ result = .ok a := by
  cases result <;> simp [Except.toOption]

end MetricQuery

namespace MetricQuery.Grammar

open Text

/-- The reader takes `text` and stops in front of `rest`, and what it reads has a
property. -/
def Reads {α : Type} (reader : Reader α) (text rest : List Char) (P : α → Prop) : Prop :=
  ∀ offset, ∃ x stop, reader ⟨text ++ rest, offset⟩ = .ok (x, ⟨rest, stop⟩) ∧ P x

/-- The text starts at the first place and ends at the second one. -/
structure Cursor.Passes (c : Cursor) (text : List Char) (next : Cursor) : Prop where
  rest : c.rest = text ++ next.rest
  offset : next.offset = c.offset + utf8Length text

namespace Cursor

theorem Passes.refl (c : Cursor) : c.Passes [] c :=
  ⟨rfl, rfl⟩

theorem Passes.trans {c middle next : Cursor} {a b : List Char} (ha : c.Passes a middle)
    (hb : middle.Passes b next) : c.Passes (a ++ b) next where
  rest := by rw [ha.rest, hb.rest, List.append_assoc]
  offset := by rw [hb.offset, ha.offset, utf8Length_append, Nat.add_assoc]

end Cursor

/-- A text made of blanks. -/
def Blanks (gap : List Char) : Prop :=
  ∀ c ∈ gap, isBlank c = true

@[simp]
theorem blanks_nil : Blanks [] := by
  simp [Blanks]

@[simp]
theorem blanks_cons {c : Char} {gap : List Char} :
    Blanks (c :: gap) ↔ isBlank c = true ∧ Blanks gap := by
  simp [Blanks]

theorem isBlank_space : isBlank ' ' = true := by
  decide

theorem Blanks.append {a b : List Char} (ha : Blanks a) (hb : Blanks b) : Blanks (a ++ b) :=
  fun c hc => (List.mem_append.1 hc).elim (ha c) (hb c)

/-- Where a blank does not come next there are none. -/
theorem Blanks.eq_nil {gap rest : List Char} (hgap : Blanks gap)
    (hstops : Stops isBlank (gap ++ rest)) : gap = [] := by
  cases gap with
  | nil => rfl
  | cons c gap =>
    have hblank := stops_cons.1 hstops
    simp [(blanks_cons.1 hgap).1] at hblank

/-! ## Steps of a cursor -/

namespace Cursor

theorem takeWhile_append {p : Char → Bool} {text rest : List Char} (offset : Nat)
    (htext : ∀ c ∈ text, p c = true) (hrest : Stops p rest) :
    (Cursor.mk (text ++ rest) offset).takeWhile p =
      (text, ⟨rest, offset + utf8Length text⟩) := by
  simp only [Cursor.takeWhile, past, takeWhile_of_stops htext hrest,
    dropWhile_of_stops htext hrest]

theorem skipBlank_append {gap rest : List Char} (offset : Nat) (hgap : Blanks gap)
    (hrest : Stops isBlank rest) :
    (Cursor.mk (gap ++ rest) offset).skipBlank = ⟨rest, offset + utf8Length gap⟩ := by
  rw [skipBlank, takeWhile_append offset hgap hrest]

/-- Blanks in front are skipped with what follows them. -/
theorem skipBlank_gap {gap : List Char} (hgap : Blanks gap) (rest : List Char) (offset : Nat) :
    (Cursor.mk (gap ++ rest) offset).skipBlank =
      (Cursor.mk rest (offset + utf8Length gap)).skipBlank := by
  simp only [skipBlank, Cursor.takeWhile, past, List.takeWhile_append_of_pos hgap,
    List.dropWhile_append_of_pos hgap, utf8Length_append, Nat.add_assoc]

theorem skipBlank_of_stops {rest : List Char} (offset : Nat) (hrest : Stops isBlank rest) :
    (Cursor.mk rest offset).skipBlank = ⟨rest, offset⟩ := by
  simpa [utf8Length] using skipBlank_append offset blanks_nil hrest

@[simp]
theorem eat?_self (ch : Char) (rest : List Char) (offset : Nat) :
    (Cursor.mk (ch :: rest) offset).eat? ch = some ⟨rest, offset + utf8Length [ch]⟩ := by
  simp [eat?, past]

theorem eat?_of_ne {ch d : Char} (rest : List Char) (offset : Nat) (h : d ≠ ch) :
    (Cursor.mk (d :: rest) offset).eat? ch = none := by
  simp [eat?, h]

@[simp]
theorem eat?_nil (ch : Char) (offset : Nat) : (Cursor.mk [] offset).eat? ch = none := by
  simp [eat?]

end Cursor

@[simp]
theorem expect_self (ch : Char) (rest : List Char) (offset : Nat) :
    expect ch ⟨ch :: rest, offset⟩ = .ok ⟨rest, offset + utf8Length [ch]⟩ := by
  simp [expect]

theorem quoted_append {lit : List Char} (rest : List Char) (offset : Nat)
    (h : isLiteral lit = true) :
    quoted ⟨lit ++ rest, offset⟩ = .ok (lit, ⟨rest, offset + utf8Length lit⟩) := by
  simp [quoted, literal?_append rest h, Cursor.past]

/-! ## Keywords -/

/-- A keyword has to be followed by one of these. -/
def endsKeyword (c : Char) : Bool :=
  isBlank c || c = '(' || c = '\x7b'

theorem isKeyChar_eq_false_of_endsKeyword {c : Char} (h : endsKeyword c = true) :
    isKeyChar c = false := by
  simp only [endsKeyword, Bool.or_eq_true, decide_eq_true_eq] at h
  rcases h with (h | rfl) | rfl
  · exact isKeyChar_eq_false_of_isBlank h
  all_goals decide

/-- Does the word come first in the text, in any case and with nothing behind it that
would go on with it? -/
def comesFirst (word : String) (text : List Char) : Bool :=
  sameLetters (text.takeWhile isKeyChar) word.toList &&
    (text.dropWhile isKeyChar).head?.any endsKeyword

theorem comesFirst_of_run (word : String) {run rest : List Char}
    (hrun : ∀ c ∈ run, isKeyChar c = true) (hrest : Stops isKeyChar rest) :
    comesFirst word (run ++ rest) =
      (sameLetters run word.toList && rest.head?.any endsKeyword) := by
  rw [comesFirst, takeWhile_of_stops hrun hrest, dropWhile_of_stops hrun hrest]

/-- What comes first is decided in front of the first character that is no key
character. -/
theorem comesFirst_append {word : String} {text : List Char} (rest : List Char)
    (h : ∃ c ∈ text, isKeyChar c = false) :
    comesFirst word (text ++ rest) = comesFirst word text := by
  have hsplit := List.takeWhile_append_dropWhile (p := isKeyChar) (l := text)
  have hrun : ∀ c ∈ text.takeWhile isKeyChar, isKeyChar c = true := fun c hc =>
    List.mem_takeWhile_imp hc
  have hne : text.dropWhile isKeyChar ≠ [] := by
    intro hnil
    obtain ⟨c, hc, hkey⟩ := h
    rw [hnil, List.append_nil] at hsplit
    rw [← hsplit] at hc
    simp [hrun c hc] at hkey
  have hstops := stops_dropWhile isKeyChar text
  rw [← hsplit, List.append_assoc, comesFirst_of_run _ hrun (stops_append hne hstops),
    comesFirst_of_run _ hrun hstops]
  cases hdrop : text.dropWhile isKeyChar with
  | nil => exact absurd hdrop hne
  | cons d tail => rfl

/-- A keyword is read exactly if it comes first in what is still to be read. -/
theorem Cursor.keyword?_eq {word : String} (c : Cursor)
    (hword : ∀ ch ∈ word.toList, ch.isAlpha = true) :
    c.keyword? word =
      if comesFirst word c.rest then some (c.takeWhile isKeyChar).2 else none := by
  obtain ⟨text, offset⟩ := c
  by_cases hfirst : comesFirst word text = true
  · rw [if_pos hfirst]
    simp only [comesFirst, Bool.and_eq_true] at hfirst
    obtain ⟨hrun, hend⟩ := hfirst
    have hlen := length_eq_of_sameLetters hrun
    have htake : text.take word.toList.length = text.takeWhile isKeyChar := by
      rw [← hlen]
      exact (List.prefix_iff_eq_take.1 (List.takeWhile_prefix isKeyChar)).symm
    have hdrop : text.drop word.toList.length = text.dropWhile isKeyChar := by
      have hsplit := congrArg (List.drop (text.takeWhile isKeyChar).length)
        (List.takeWhile_append_dropWhile (p := isKeyChar) (l := text))
      rw [List.drop_left] at hsplit
      rw [← hlen, hsplit]
    simp only [keyword?, htake, hdrop, hrun, if_true]
    cases htail : text.dropWhile isKeyChar with
    | nil => simp [htail] at hend
    | cons d tail =>
      have hd : endsKeyword d = true := by simpa [htail] using hend
      rw [endsKeyword] at hd
      simp [Cursor.takeWhile, past, htail, hd]
  · rw [if_neg hfirst]
    simp only [keyword?]
    split
    · next hsame =>
      split
      · rfl
      · next d tail hdrop =>
        -- the letters of the keyword and the character behind them make up the run
        rw [if_neg]
        intro hd
        apply hfirst
        have hsplit := List.take_append_drop word.toList.length text
        rw [hdrop] at hsplit
        have hrun : ∀ ch ∈ text.take word.toList.length, isKeyChar ch = true := fun ch hch =>
          isKeyChar_of_isAlpha (isAlpha_of_sameLetters hword hsame ch hch)
        have hend : endsKeyword d = true := hd
        have hstops : Stops isKeyChar (d :: tail) :=
          stops_cons.2 (isKeyChar_eq_false_of_endsKeyword hend)
        rw [← hsplit, comesFirst_of_run _ hrun hstops, hsame]
        simpa using hend
    · rfl

/-- A keyword with a gap behind it is read, whatever its case. -/
theorem Cursor.keyword?_append {word : String} {text rest : List Char} (offset : Nat)
    (hword : ∀ ch ∈ word.toList, ch.isAlpha = true)
    (htext : sameLetters text word.toList = true) (hrest : rest.head?.any endsKeyword = true) :
    (Cursor.mk (text ++ rest) offset).keyword? word =
      some ⟨rest, offset + utf8Length text⟩ := by
  have hrun : ∀ c ∈ text, isKeyChar c = true := fun c hc =>
    isKeyChar_of_isAlpha (isAlpha_of_sameLetters hword htext c hc)
  have hstops : Stops isKeyChar rest := by
    cases rest with
    | nil => simp
    | cons d rest => exact stops_cons.2 (isKeyChar_eq_false_of_endsKeyword (by simpa using hrest))
  have hfirst : comesFirst word (text ++ rest) = true := by
    rw [comesFirst_of_run _ hrun hstops, htext, hrest, Bool.and_self]
  rw [keyword?_eq _ hword, if_pos hfirst, takeWhile_append offset hrun hstops]

theorem Cursor.keyword?_of_not {word : String} {text : List Char} (offset : Nat)
    (hword : ∀ ch ∈ word.toList, ch.isAlpha = true) (h : comesFirst word text = false) :
    (Cursor.mk text offset).keyword? word = none := by
  rw [keyword?_eq _ hword, h]
  rfl

/-- The keywords are made of letters. -/
theorem isAlpha_keywords : ∀ word ∈ ["NOT", "IN", "AND", "OR", "by"],
    ∀ ch ∈ word.toList, ch.isAlpha = true := by
  simp

/-! ## Lists with commas -/

/-- What may follow an item of a list. -/
def ItemEnds (close : Char) (rest : List Char) : Prop :=
  ∃ c ∈ rest.head?, isBlank c = true ∨ c = ',' ∨ c = close

/-- The rest of a list behind an item, up to and with the closing character. -/
inductive MoreSpelled {α : Type} (Item : α → List Char → Prop) (close : Char) :
    List α → List Char → Prop where
  | closed {gap : List Char} (hgap : Blanks gap) : MoreSpelled Item close [] (gap ++ [close])
  | comma {gap space text more : List Char} {x : α} {xs : List α}
      (hgap : Blanks gap) (hspace : Blanks space) (hitem : Item x text)
      (hmore : MoreSpelled Item close xs more) :
      MoreSpelled Item close (x :: xs) (gap ++ ',' :: (space ++ (text ++ more)))

section CommaLists

variable {α : Type} {Item : α → List Char → Prop} {item : Reader α} {close : Char}

/-- What holds of every item that can be spelled holds of all items. -/
theorem MoreSpelled.forall_mem {P : α → Prop}
    (hitem : ∀ x text, Item x text → P x) {xs : List α} {text : List Char}
    (h : MoreSpelled Item close xs text) : ∀ x ∈ xs, P x := by
  induction h with
  | closed _ => simp
  | comma _ _ hx _ ih => exact List.forall_mem_cons.2 ⟨hitem _ _ hx, ih⟩

theorem MoreSpelled.itemEnds {xs : List α} {text : List Char} (rest : List Char)
    (h : MoreSpelled Item close xs text) : ItemEnds close (text ++ rest) := by
  cases h with
  | @closed gap hgap =>
    cases gap with
    | nil => exact ⟨close, by simp, .inr (.inr rfl)⟩
    | cons c gap => exact ⟨c, by simp, .inl (blanks_cons.1 hgap).1⟩
  | @comma gap _ _ _ _ _ hgap =>
    cases gap with
    | nil => exact ⟨',', by simp, .inr (.inl rfl)⟩
    | cons c gap => exact ⟨c, by simp, .inl (blanks_cons.1 hgap).1⟩

theorem moreItems_reads (hclose : isBlank close = false ∧ close ≠ ',')
    (hstart : ∀ {x text}, Item x text → text ≠ [] ∧ Stops isBlank text)
    (hread : ∀ {x text rest}, Item x text → ItemEnds close rest →
      Reads item text rest (· = x))
    {xs : List α} {text : List Char} (h : MoreSpelled Item close xs text) (rest : List Char) :
    ∀ rounds, text.length ≤ rounds → Reads (moreItems item close rounds) text rest (· = xs) := by
  induction h with
  | @closed gap hgap =>
    intro rounds _ offset
    have hskip : (Cursor.mk (gap ++ [close] ++ rest) offset).skipBlank =
        ⟨close :: rest, offset + utf8Length gap⟩ := by
      rw [List.append_assoc]
      exact Cursor.skipBlank_append offset hgap (stops_cons.2 hclose.1)
    refine ⟨[], offset + utf8Length gap + utf8Length [close], ?_, rfl⟩
    cases rounds with
    | zero => simp only [moreItems, hskip, expect_self]; rfl
    | succ rounds =>
      simp only [moreItems, hskip, Cursor.eat?_of_ne _ _ hclose.2, expect_self]
      rfl
  | @comma gap space text more x xs hgap hspace hitem hmore ih =>
    intro rounds hrounds offset
    obtain ⟨hne, hstops⟩ := hstart hitem
    have hskip : (Cursor.mk (gap ++ ',' :: (space ++ (text ++ more)) ++ rest) offset).skipBlank
        = ⟨',' :: (space ++ (text ++ more) ++ rest), offset + utf8Length gap⟩ := by
      rw [List.append_assoc]
      exact Cursor.skipBlank_append offset hgap (stops_cons.2 (by decide))
    have hspaceSkip : ∀ offset,
        (Cursor.mk (space ++ (text ++ more) ++ rest) offset).skipBlank =
          ⟨text ++ (more ++ rest), offset + utf8Length space⟩ := by
      intro offset
      rw [List.append_assoc, List.append_assoc]
      exact Cursor.skipBlank_append offset hspace (stops_append hne hstops)
    cases rounds with
    | zero => simp at hrounds
    | succ rounds =>
      obtain ⟨_, stop, hfirst, rfl⟩ := hread hitem (hmore.itemEnds rest)
        (offset + utf8Length gap + utf8Length [','] + utf8Length space)
      obtain ⟨_, last, hothers, rfl⟩ := ih rounds (by
        simp only [List.length_append, List.length_cons] at hrounds
        omega) stop
      refine ⟨_, last, ?_, rfl⟩
      simp only [moreItems, hskip, Cursor.eat?_self, hspaceSkip, hfirst, bind, Except.bind,
        hothers]
      rfl

/-- A list is read, with any blanks around its commas. -/
theorem commaList_reads (hclose : isBlank close = false ∧ close ≠ ',')
    (hstart : ∀ {x text}, Item x text → text ≠ [] ∧ Stops isBlank text)
    (hread : ∀ {x text rest}, Item x text → ItemEnds close rest →
      Reads item text rest (· = x))
    {x : α} {xs : List α} {gap text more : List Char} (hgap : Blanks gap)
    (hitem : Item x text) (hmore : MoreSpelled Item close xs more) (rest : List Char) :
    Reads (commaList item close) (gap ++ (text ++ more)) rest (· = x :: xs) := by
  intro offset
  obtain ⟨hne, hstops⟩ := hstart hitem
  have hskip : (Cursor.mk (gap ++ (text ++ more) ++ rest) offset).skipBlank =
      ⟨text ++ (more ++ rest), offset + utf8Length gap⟩ := by
    rw [List.append_assoc, List.append_assoc]
    exact Cursor.skipBlank_append offset hgap (stops_append hne hstops)
  obtain ⟨_, stop, hfirst, rfl⟩ := hread hitem (hmore.itemEnds rest)
    (offset + utf8Length gap)
  obtain ⟨_, last, hothers, rfl⟩ := moreItems_reads hclose hstart hread hmore rest
    (more ++ rest).length (by simp) stop
  refine ⟨_, last, ?_, rfl⟩
  simp only [commaList, hskip, hfirst, bind, Except.bind, hothers]
  rfl

end CommaLists

end MetricQuery.Grammar
