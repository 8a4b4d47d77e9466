import MetricQuery.Proofs.Grammar.Finds
import MetricQuery.Proofs.Position.Steps
import MetricQuery.Proofs.Text.Places

/-!
# Steps that do what a reader does

A step by positions is never stuck if it starts at a place of the text, because every position
it goes to is one.  `Tracks` says this together with what the step does: it follows a reader.

* `Cursor.Inside`: the cursor is a place in the text.
* `Does`: a step succeeds, with this value and at this place.  The steps over characters do what
  the functions of a cursor give.
* `Tracks`: a step and a reader have the same outcome; `Tracks.bind` puts two of them one behind
  the other, and `tracks_level` opens a level around one.
* `Mirrors`: a step and a reader track each other from every place of the text.
* `loop_induction`: two loops that take a character a round, with different numbers of rounds.
* `tracks_quoted` and `mirrors_commaList`: literals and lists.
-/

namespace MetricQuery

open Text Grammar

/-- The cursor is a place in the text, with at most so many characters behind it. -/
structure Grammar.Cursor.Inside (text : List Char) (limit : Nat) (c : Cursor) : Prop where
  passes : ∃ before, (Cursor.ofText text).Passes before c
  left : c.rest.length ≤ limit

/-- Where nothing is read nothing moves. -/
theorem Grammar.Cursor.Passes.eq_of_nil {c next : Cursor} (h : c.Passes [] next) : next = c := by
  obtain ⟨text, offset⟩ := c
  obtain ⟨rest, stop⟩ := next
  obtain ⟨rfl, rfl⟩ : text = rest ∧ stop = offset := ⟨h.rest, h.offset⟩
  rfl

namespace Grammar.Cursor.Inside

variable {text taken : List Char} {limit : Nat} {c next : Cursor}

theorem ofText (text : List Char) : (Cursor.ofText text).Inside text text.length :=
  ⟨⟨[], .refl _⟩, Nat.le_refl _⟩

theorem split (h : c.Inside text limit) :
    ∃ before, text = before ++ c.rest ∧ c.offset = utf8Length before := by
  obtain ⟨⟨before, hrest, hoffset⟩, -⟩ := h
  exact ⟨before, hrest, by simpa [Cursor.ofText] using hoffset⟩

theorem boundary (h : c.Inside text limit) : Boundary text c.offset := by
  obtain ⟨before, htext, hoffset⟩ := h.split
  exact ⟨before, c.rest, htext, hoffset⟩

theorem length_le (h : c.Inside text limit) : c.rest.length ≤ text.length := by
  obtain ⟨before, htext, -⟩ := h.split
  rw [htext, List.length_append]
  exact Nat.le_add_left _ _

theorem tight (h : c.Inside text limit) : c.Inside text c.rest.length :=
  ⟨h.passes, Nat.le_refl _⟩

theorem mono {more : Nat} (h : c.Inside text limit) (hle : limit ≤ more) : c.Inside text more :=
  ⟨h.passes, h.left.trans hle⟩

/-- Where no character is left nothing is. -/
theorem rest_eq_nil (h : c.Inside text 0) : c.rest = [] :=
  List.length_eq_zero_iff.1 (Nat.le_zero.1 h.left)

/-- What is read from a place leads to a place. -/
theorem behind (h : c.Inside text limit) (hpasses : c.Passes taken next) :
    next.Inside text limit := by
  obtain ⟨⟨before, hbefore⟩, hleft⟩ := h
  rw [hpasses.rest, List.length_append] at hleft
  exact ⟨⟨_, hbefore.trans hpasses⟩, by omega⟩

/-- A character less is left behind something that was read. -/
theorem shrink (h : c.Inside text limit) (hpasses : c.Passes taken next) (hne : taken ≠ []) :
    ∃ fewer, limit = fewer + 1 ∧ next.Inside text fewer := by
  have hpos := List.length_pos_iff.2 hne
  have hleft := h.left
  rw [hpasses.rest, List.length_append] at hleft
  exact ⟨limit - 1, by omega, (h.behind hpasses).passes, by omega⟩

theorem takeWhile {p : Char → Bool} (h : c.Inside text limit)
    (htake : c.takeWhile p = (taken, next)) : next.Inside text limit :=
  h.behind (Cursor.takeWhile_passes htake).1

theorem skipBlank (h : c.Inside text limit) : c.skipBlank.Inside text limit :=
  h.takeWhile rfl

theorem eat? {ch : Char} (h : c.Inside text limit) (heat : c.eat? ch = some next) :
    ∃ fewer, limit = fewer + 1 ∧ next.Inside text fewer :=
  h.shrink (Cursor.eat?_passes heat) (List.cons_ne_nil _ _)

end Grammar.Cursor.Inside

namespace Position

variable {α β : Type} {src : Source} {depth limit : Nat} {c next : Cursor} {taken : List Char}

/-! ## Single steps -/

/-- From a place the step succeeds, with a value and at a place. -/
def Does (x : Steps α) (place : Place) (a : α) (next : Place) : Prop :=
  x place = some (.ok (a, next))

/-- What follows a step goes on where it stopped. -/
theorem Does.bind {x : Steps α} {place stop : Place} {a : α} (h : Does x place a stop)
    (f : α → Steps β) : (x >>= f) place = f a stop := by
  show ExceptT.bind (x place) (fun p => f p.1 p.2) = f a stop
  rw [show x place = some (.ok (a, stop)) from h]
  rfl

theorem Does.trans {x : Steps α} {f : α → Steps β} {place middle stop : Place} {a : α} {b : β}
    (h : Does x place a middle) (hf : Does (f a) middle b stop) : Does (x >>= f) place b stop :=
  (h.bind f).trans hf

theorem bind_of_failure {x : Steps α} {place : Place} {failure : Failure} {f : α → Steps β}
    (h : x place = some (.error failure)) : (x >>= f) place = some (.error failure) := by
  show ExceptT.bind (x place) (fun p => f p.1 p.2) = some (.error failure)
  rw [h]
  rfl

theorem does_get (place : Place) : Does get place place place :=
  rfl

theorem does_set (place next : Place) : Does (set next) place () next :=
  rfl

theorem does_position (place : Place) : Does position place place.position place :=
  rfl

theorem does_orStuck {x : Option α} {a : α} (h : x = some a) (place : Place) :
    Does (orStuck x) place a place := by
  rw [h]
  rfl

theorem does_sliceFrom (hc : c.Inside src.text limit) (place : Place) :
    Does (sliceFrom src c.offset) place c.rest place := by
  obtain ⟨before, htext, hoffset⟩ := hc.split
  refine does_orStuck ?_ place
  rw [htext, hoffset, splitAtByte?_append]
  rfl

/-- What was read between two places is the cut between their positions. -/
theorem does_slice (hc : c.Inside src.text limit) (hpasses : c.Passes taken next)
    (place : Place) : Does (slice src c.offset next.offset) place taken place := by
  obtain ⟨before, htext, hoffset⟩ := hc.split
  refine does_orStuck ?_ place
  rw [hpasses.offset, htext, hpasses.rest, hoffset]
  exact Span.slice?_append before taken next.rest

theorem does_seek (hc : c.Inside src.text limit) (place : Place) :
    Does (seek src c.offset) place () ⟨c.offset, place.depth⟩ :=
  (does_sliceFrom hc place).trans rfl

theorem does_rest (hc : c.Inside src.text limit) :
    Does (rest src) ⟨c.offset, depth⟩ c.rest ⟨c.offset, depth⟩ :=
  (does_position _).trans (does_sliceFrom hc _)

theorem does_peek (hc : c.Inside src.text limit) :
    Does (peek src) ⟨c.offset, depth⟩ c.peek? ⟨c.offset, depth⟩ :=
  (does_rest hc).trans rfl

theorem does_bump_end (hc : c.Inside src.text limit) (hend : c.rest = []) :
    Does (bump src) ⟨c.offset, depth⟩ none ⟨c.offset, depth⟩ := by
  refine (does_peek hc).trans ?_
  rw [Cursor.peek?, hend]
  rfl

/-- A jump over what comes next ends behind it. -/
theorem does_advance (hc : c.Inside src.text limit) (hpasses : c.Passes taken next) {bytes : Nat}
    (hbytes : bytes = utf8Length taken) :
    Does (advance src bytes) ⟨c.offset, depth⟩ () ⟨next.offset, depth⟩ := by
  have hseek := does_seek (hc.behind hpasses) ⟨c.offset, depth⟩
  rw [hpasses.offset, ← hbytes] at hseek ⊢
  exact (does_position _).trans hseek

theorem does_bump {ch : Char} (hc : c.Inside src.text limit) (hpasses : c.Passes [ch] next) :
    Does (bump src) ⟨c.offset, depth⟩ (some ch) ⟨next.offset, depth⟩ := by
  refine (does_peek hc).trans ?_
  rw [Cursor.peek?, hpasses.rest]
  exact (does_advance hc hpasses rfl).trans rfl

theorem does_eat {ch : Char} (hc : c.Inside src.text limit) (heat : c.eat? ch = some next) :
    Does (eat src ch) ⟨c.offset, depth⟩ true ⟨next.offset, depth⟩ := by
  have hpasses := Cursor.eat?_passes heat
  refine (does_peek hc).trans ?_
  have hpeek : c.peek? = some ch := by rw [Cursor.peek?, hpasses.rest]; rfl
  rw [if_pos hpeek]
  exact (does_bump hc hpasses).trans rfl

theorem does_eat_not {ch : Char} (hc : c.Inside src.text limit) (heat : c.eat? ch = none) :
    Does (eat src ch) ⟨c.offset, depth⟩ false ⟨c.offset, depth⟩ := by
  refine (does_peek hc).trans ?_
  rw [if_neg]
  · rfl
  · intro hpeek
    obtain ⟨text, offset⟩ := c
    cases text with
    | nil => simp [Cursor.peek?] at hpeek
    | cons d text =>
      obtain rfl : d = ch := by simpa [Cursor.peek?] using hpeek
      simp at heat

/-! ## Runs of characters -/

theorem lt_rounds (hc : c.Inside src.text limit) : c.rest.length < src.rounds :=
  Nat.lt_succ_of_le hc.length_le

theorem does_skipWhile {p : Char → Bool} (rounds : Nat) {c : Cursor}
    (hc : c.Inside src.text limit) (hrounds : c.rest.length < rounds) :
    Does (skipWhile src p rounds) ⟨c.offset, depth⟩ () ⟨(c.takeWhile p).2.offset, depth⟩ := by
  induction rounds generalizing c with
  | zero => exact absurd hrounds (Nat.not_lt_zero _)
  | succ rounds ih =>
    refine (does_peek hc).trans ?_
    obtain ⟨text, offset⟩ := c
    cases text with
    | nil => rfl
    | cons ch text =>
      have hpasses : (Cursor.mk (ch :: text) offset).Passes [ch]
          ⟨text, offset + utf8Length [ch]⟩ := ⟨rfl, rfl⟩
      simp only [Cursor.peek?, List.head?_cons]
      by_cases hch : p ch = true
      · rw [if_pos hch]
        have hskip := ih (hc.behind hpasses) (Nat.lt_of_succ_lt_succ hrounds)
        have hstop : (Cursor.takeWhile p ⟨ch :: text, offset⟩).2.offset =
            (Cursor.takeWhile p ⟨text, offset + utf8Length [ch]⟩).2.offset := by
          simp [Cursor.takeWhile, Cursor.past, hch, utf8Length, Nat.add_assoc]
        rw [hstop]
        exact (does_advance hc hpasses rfl).trans hskip
      · rw [if_neg hch]
        have hstop : (Cursor.takeWhile p ⟨ch :: text, offset⟩).2.offset = offset := by
          simp [Cursor.takeWhile, Cursor.past, hch, utf8Length]
        rw [hstop]
        rfl

theorem does_skipBlank (hc : c.Inside src.text limit) :
    Does (skipBlank src) ⟨c.offset, depth⟩ () ⟨c.skipBlank.offset, depth⟩ :=
  does_skipWhile _ hc (lt_rounds hc)

theorem does_takeWhile {p : Char → Bool} (hc : c.Inside src.text limit) :
    Does (takeWhile src p) ⟨c.offset, depth⟩ (c.takeWhile p).1
      ⟨(c.takeWhile p).2.offset, depth⟩ := by
  have hpasses : c.Passes (c.takeWhile p).1 (c.takeWhile p).2 := (Cursor.takeWhile_passes rfl).1
  refine (does_position _).trans ((does_skipWhile _ hc (lt_rounds hc)).trans ?_)
  exact (does_position _).trans (does_slice hc hpasses _)

/-! ## Keywords -/

theorem utf8Size_of_isAlpha {c : Char} (h : c.isAlpha = true) : c.utf8Size = 1 := by
  have hletter := isAlpha_iff_toNat.1 h
  rw [Char.utf8Size_eq_one_iff, UInt32.le_iff_toNat_le]
  simp
  omega

/-- The letters of a keyword are as many bytes as it has. -/
theorem utf8Length_of_sameLetters {text word : List Char}
    (hword : ∀ c ∈ word, c.isAlpha = true) (h : sameLetters text word = true) :
    utf8Length text = word.length := by
  have hletters := isAlpha_of_sameLetters hword h
  rw [← length_eq_of_sameLetters h]
  clear h
  induction text with
  | nil => rfl
  | cons c text ih =>
    have hsize : c.utf8Size = 1 := utf8Size_of_isAlpha (hletters c (by simp))
    rw [utf8Length, ih fun d hd => hletters d (by simp [hd]), hsize, List.length_cons]
    omega

theorem utf8ByteSize_of_isAlpha {word : String} (hword : ∀ ch ∈ word.toList, ch.isAlpha = true) :
    word.utf8ByteSize = word.toList.length := by
  rw [utf8ByteSize_eq, utf8Length_of_sameLetters hword (sameLetters_self _)]

/-- Where the letters of a keyword come next, the bytes of the keyword cut them off, and where those
bytes cut letters of the keyword off they come next. -/
theorem splitAtByte?_of_sameLetters {word : String} {text : List Char}
    (hword : ∀ ch ∈ word.toList, ch.isAlpha = true) :
    (sameLetters (text.take word.toList.length) word.toList = true →
      splitAtByte? word.utf8ByteSize text =
        some (text.take word.toList.length, text.drop word.toList.length)) ∧
    ∀ head tail, splitAtByte? word.utf8ByteSize text = some (head, tail) →
      sameLetters head word.toList = true →
      sameLetters (text.take word.toList.length) word.toList = true := by
  constructor
  · intro hsame
    have hcut := splitAtByte?_append (text.take word.toList.length) (text.drop word.toList.length)
    have hbytes := (utf8Length_of_sameLetters hword hsame).trans
      (utf8ByteSize_of_isAlpha hword).symm
    rwa [List.take_append_drop, hbytes] at hcut
  · intro head tail hcut hsame
    obtain ⟨rfl, -⟩ := eq_append_of_splitAtByte? hcut
    rw [← length_eq_of_sameLetters hsame, List.take_left]
    exact hsame

theorem does_keyword {word : String} (hword : ∀ ch ∈ word.toList, ch.isAlpha = true)
    (hc : c.Inside src.text limit) (h : c.keyword? word = some next) :
    Does (keyword src word) ⟨c.offset, depth⟩ true ⟨next.offset, depth⟩ := by
  refine (does_rest hc).trans ?_
  simp only [Cursor.keyword?] at h
  split at h
  · next hsame =>
    split at h
    · simp at h
    · next d tail hdrop =>
      split at h
      · next hends =>
        obtain rfl := Option.some.inj h
        have hcut := (splitAtByte?_of_sameLetters hword).1 hsame
        have hpasses : c.Passes (c.rest.take word.toList.length)
            (c.past (c.rest.take word.toList.length) (c.rest.drop word.toList.length)) :=
          ⟨(List.take_append_drop _ _).symm, rfl⟩
        have hbytes : word.utf8ByteSize = utf8Length (c.rest.take word.toList.length) := by
          rw [utf8Length_of_sameLetters hword hsame, utf8ByteSize_of_isAlpha hword]
        simp only [hcut, hsame, if_true]
        refine (does_orStuck rfl _).trans ?_
        rw [if_pos (by simpa [hdrop] using hends)]
        exact (does_advance hc hpasses hbytes).trans rfl
      · simp at h
  · simp at h

theorem does_keyword_not {word : String} (hword : ∀ ch ∈ word.toList, ch.isAlpha = true)
    (hc : c.Inside src.text limit) (h : c.keyword? word = none) :
    Does (keyword src word) ⟨c.offset, depth⟩ false ⟨c.offset, depth⟩ := by
  refine (does_rest hc).trans ?_
  by_cases hsame : sameLetters (c.rest.take word.toList.length) word.toList = true
  · have hcut := (splitAtByte?_of_sameLetters hword).1 hsame
    simp only [hcut, hsame, if_true]
    refine (does_orStuck rfl _).trans ?_
    rw [if_neg]
    · rfl
    · intro hends
      cases hdrop : c.rest.drop word.toList.length with
      | nil => simp [hdrop] at hends
      | cons d tail =>
        have hd : (isBlank d || d = '(' || d = '\x7b') = true := by simpa [hdrop] using hends
        simp [Cursor.keyword?, hsame, hdrop, hd] at h
  · cases hcut : splitAtByte? word.utf8ByteSize c.rest with
    | none => rfl
    | some cut =>
      obtain ⟨head, tail⟩ := cut
      have hhead : ¬ sameLetters head word.toList = true := fun hhead =>
        hsame ((splitAtByte?_of_sameLetters hword).2 head tail hcut hhead)
      simp only [if_neg hhead]
      rfl

/-! ## Outcomes -/

/-- The outcome of a step is that of a reader: the same value at the same place, with as many levels
open as before, or the same failure at a position between two characters. -/
inductive Tracks (text : List Char) (depth limit : Nat) :
    Option (Except Failure (α × Place)) → Except Failure (α × Cursor) → Prop where
  | ok {a : α} {c : Cursor} (hc : c.Inside text limit) :
      Tracks text depth limit (some (.ok (a, ⟨c.offset, depth⟩))) (.ok (a, c))
  | malformed {cause : Malformed} {offset : Nat} (h : Boundary text offset) :
      Tracks text depth limit (some (.error (.malformed cause offset)))
        (.error (.malformed cause offset))
  | tooDeep : Tracks text depth limit (some (.error .tooDeep)) (.error .tooDeep)

namespace Tracks

variable {text : List Char} {fewer : Nat}

theorem mono {out : Option (Except Failure (α × Place))} {result : Except Failure (α × Cursor)}
    (h : Tracks text depth fewer out result) (hle : fewer ≤ limit) :
    Tracks text depth limit out result := by
  cases h with
  | ok hc => exact .ok (hc.mono hle)
  | malformed h => exact .malformed h
  | tooDeep => exact .tooDeep

theorem does {x : Steps α} {place : Place} {stop : α × Cursor}
    (h : Tracks text depth limit (x place) (.ok stop)) :
    Does x place stop.1 ⟨stop.2.offset, depth⟩ ∧ stop.2.Inside text limit := by
  generalize hout : x place = out at h
  cases h with
  | ok hc => exact ⟨hout, hc⟩

theorem fails {x : Steps α} {place : Place} {failure : Failure}
    (h : Tracks text depth limit (x place) (.error failure)) :
    x place = some (.error failure) ∧
      ∀ cause offset, failure = .malformed cause offset → Boundary text offset := by
  generalize hout : x place = out at h
  cases h with
  | malformed hoffset =>
    refine ⟨rfl, fun cause offset h => ?_⟩
    cases h
    exact hoffset
  | tooDeep => exact ⟨rfl, fun _ _ h => by simp at h⟩

theorem of_failure {failure : Failure}
    (h : ∀ cause offset, failure = .malformed cause offset → Boundary text offset) :
    Tracks text depth limit (some (.error failure) : Option (Except Failure (α × Place)))
      (.error failure) := by
  cases failure with
  | malformed cause offset => exact .malformed (h cause offset rfl)
  | tooDeep => exact .tooDeep

/-- Nothing follows a failure. -/
theorem bind_of_error {x : Steps α} {f : α → Steps β} {place : Place} {inner : Nat}
    {failure : Failure} (h : Tracks text inner fewer (x place) (.error failure)) :
    Tracks text depth limit ((x >>= f) place) (.error failure) := by
  obtain ⟨hfails, hoffset⟩ := h.fails
  rw [bind_of_failure hfails]
  exact .of_failure hoffset

/-- Two steps follow two readers, if the second one does so from where the first one stops. -/
theorem bind {x : Steps α} {f : α → Steps β} {place : Place} {inner : Nat}
    {result : Except Failure (α × Cursor)} {g : α × Cursor → Except Failure (β × Cursor)}
    (hx : Tracks text inner fewer (x place) result)
    (hf : ∀ a c, c.Inside text fewer →
      Tracks text depth limit (f a ⟨c.offset, inner⟩) (g (a, c))) :
    Tracks text depth limit ((x >>= f) place) (result >>= g) := by
  cases result with
  | ok stop =>
    obtain ⟨hdoes, hc⟩ := hx.does
    rw [hdoes.bind]
    exact hf _ _ hc
  | error failure => exact hx.bind_of_error

end Tracks

/-- At every place of the text the step has the outcome of the reader. -/
def Mirrors (src : Source) (depth : Nat) (x : Steps α) (reader : Reader α) : Prop :=
  ∀ ⦃limit : Nat⦄ ⦃c : Cursor⦄, c.Inside src.text limit →
    Tracks src.text depth limit (x ⟨c.offset, depth⟩) (reader c)

theorem tracks_expected {any : Nat} (hc : c.Inside src.text limit) (wanted : Expectation) :
    Tracks src.text depth any ((expected src wanted : Steps α) ⟨c.offset, depth⟩)
      (c.expected wanted) := by
  rw [expected, (does_peek hc).bind, (does_position _).bind]
  exact .malformed hc.boundary

/-- A character that has to come next, in front of other steps. -/
theorem tracks_expect {ch : Char} {f : Unit → Steps β}
    {g : Cursor → Except Failure (β × Cursor)} (hc : c.Inside src.text limit)
    (hf : ∀ next, c.Passes [ch] next → next.Inside src.text limit →
      Tracks src.text depth limit (f () ⟨next.offset, depth⟩) (g next)) :
    Tracks src.text depth limit ((expect src ch >>= f) ⟨c.offset, depth⟩)
      (Grammar.expect ch c >>= g) := by
  rw [Grammar.expect]
  cases heat : c.eat? ch with
  | some next =>
    have hpasses := Cursor.eat?_passes heat
    have hdoes : Does (expect src ch) ⟨c.offset, depth⟩ () ⟨next.offset, depth⟩ :=
      (does_eat hc heat).trans rfl
    rw [hdoes.bind]
    exact hf next hpasses (hc.behind hpasses)
  | none =>
    have hfails : expect src ch ⟨c.offset, depth⟩ =
        some (.error (.malformed (.unexpected (.char ch) c.peek?) c.offset)) := by
      rw [expect, (does_eat_not hc heat).bind, if_neg Bool.false_ne_true, expected,
        (does_peek hc).bind]
      rfl
    rw [bind_of_failure hfails]
    exact .malformed hc.boundary

/-- One level further down there is one level less to be had. -/
theorem tracks_level {x : Steps α} {result : Except Failure (α × Cursor)}
    (hdepth : depth < src.maxDepth)
    (h : Tracks src.text (depth + 1) limit (x ⟨c.offset, depth + 1⟩) result) :
    Tracks src.text depth limit (level src x ⟨c.offset, depth⟩) result := by
  have henter : Does (enter src) ⟨c.offset, depth⟩ () ⟨c.offset, depth + 1⟩ := by
    refine (does_get _).trans ((does_set _ _).trans ?_)
    rw [if_neg (Nat.not_lt_of_ge hdepth)]
    rfl
  rw [level, henter.bind, ← bind_pure result]
  exact h.bind fun _ _ hstop => .ok hstop

theorem level_of_le {x : Steps α} (hdepth : src.maxDepth ≤ depth) :
    level src x ⟨c.offset, depth⟩ = some (.error .tooDeep) := by
  have henter : enter src ⟨c.offset, depth⟩ = some (.error .tooDeep) := by
    rw [enter, (does_get _).bind, (does_set _ _).bind, if_pos (Nat.lt_succ_of_le hdepth)]
    rfl
  exact bind_of_failure henter

/-! ## Loops -/

/-- A reader's loop has as many rounds as characters are left, that of the steps has more.  Each
round takes a character, so from one to the next both numbers go down by one. -/
@[elab_as_elim]
theorem loop_induction {text : List Char} {motive : Nat → Nat → Cursor → Prop}
    (last : ∀ rounds c, c.Inside text 0 → motive 0 (rounds + 1) c)
    (round : ∀ k rounds, (∀ c, c.Inside text k → motive k rounds c) →
      ∀ c, c.Inside text (k + 1) → motive (k + 1) (rounds + 1) c)
    {k rounds : Nat} {c : Cursor} (hc : c.Inside text k) (hrounds : k < rounds) :
    motive k rounds c := by
  induction k generalizing rounds c with
  | zero =>
    obtain ⟨rounds, rfl⟩ := Nat.exists_eq_succ_of_ne_zero (Nat.ne_zero_of_lt hrounds)
    exact last rounds c hc
  | succ k ih =>
    obtain ⟨rounds, rfl⟩ := Nat.exists_eq_succ_of_ne_zero (Nat.ne_zero_of_lt hrounds)
    exact round k rounds (fun c hc => ih hc (Nat.lt_of_succ_lt_succ hrounds)) c hc

/-! ## Literals and lists -/

/-- The loop through a literal stops behind the mark that closes it, or fails at its start. -/
theorem closeLiteral_eq (depth start : Nat) (mark : Char) (rounds : Nat) {c : Cursor}
    (hc : c.Inside src.text limit) (hrounds : c.rest.length < rounds) :
    closeLiteral src start mark rounds ⟨c.offset, depth⟩ =
      match closing? mark c.rest with
      | none => some (.error (.malformed .unterminatedString start))
      | some (lit, _) => some (.ok ((), ⟨c.offset + utf8Length lit, depth⟩)) := by
  induction rounds generalizing c with
  | zero => exact absurd hrounds (Nat.not_lt_zero _)
  | succ rounds ih =>
    obtain ⟨text, offset⟩ := c
    cases text with
    | nil =>
      rw [closeLiteral, (does_bump_end hc rfl).bind]
      rfl
    | cons ch tail =>
      have hpasses : (Cursor.mk (ch :: tail) offset).Passes [ch]
          ⟨tail, offset + utf8Length [ch]⟩ := ⟨rfl, rfl⟩
      have hfirst := hc.behind hpasses
      have htail := ih hfirst (Nat.lt_of_succ_lt_succ hrounds)
      rw [closeLiteral, (does_bump hc hpasses).bind]
      by_cases hslash : ch = '\\'
      · -- The character behind a backslash is read in the same round.
        subst hslash
        simp only [if_true]
        cases tail with
        | nil =>
          rw [(does_bump_end hfirst rfl).bind, htail]
          rfl
        | cons d tail =>
          have hescaped : (Cursor.mk (d :: tail) (offset + utf8Length ['\\'])).Passes [d]
              ⟨tail, offset + utf8Length ['\\'] + utf8Length [d]⟩ := ⟨rfl, rfl⟩
          rw [(does_bump hfirst hescaped).bind,
            ih (hfirst.behind hescaped) (by simp at hrounds ⊢; omega), closing?, if_pos rfl]
          cases closing? mark tail with
          | none => rfl
          | some cut => simp [utf8Length, Nat.add_assoc]
      · simp only [if_neg hslash]
        by_cases hmark : ch = mark
        · rw [if_pos hmark, closing?.eq_def]
          simp only [if_neg hslash, if_pos hmark]
          rfl
        · rw [if_neg hmark, htail, closing?.eq_def mark (ch :: tail)]
          simp only [if_neg hslash, if_neg hmark]
          cases closing? mark tail with
          | none => rfl
          | some cut => simp [utf8Length, Nat.add_assoc]

/-- At a quotation mark a literal is read as a cut, or fails where it starts. -/
theorem tracks_quoted (hc : c.Inside src.text limit) (hmark : c.peek?.any isQuote = true) :
    Tracks src.text depth limit (quoted src ⟨c.offset, depth⟩) (Grammar.quoted c) := by
  obtain ⟨text, offset⟩ := c
  cases text with
  | nil => simp [Cursor.peek?] at hmark
  | cons mark tail =>
    have hquote : isQuote mark = true := by simpa [Cursor.peek?] using hmark
    have hpasses : (Cursor.mk (mark :: tail) offset).Passes [mark]
        ⟨tail, offset + utf8Length [mark]⟩ := ⟨rfl, rfl⟩
    have hloop := closeLiteral_eq depth offset mark src.rounds (hc.behind hpasses)
      (lt_rounds (hc.behind hpasses))
    rw [quoted, (does_position _).bind, (does_bump hc hpasses).bind]
    simp only [Grammar.quoted, literal?, hquote, if_true]
    cases hcut : closing? mark tail with
    | none =>
      rw [hcut] at hloop
      rw [bind_of_failure hloop]
      exact .malformed hc.boundary
    | some cut =>
      obtain ⟨lit, rest⟩ := cut
      rw [hcut] at hloop
      have hliteral : (Cursor.mk (mark :: tail) offset).Passes (mark :: lit)
          ⟨rest, offset + utf8Length (mark :: lit)⟩ :=
        ⟨by rw [eq_append_of_closing? hcut]; rfl, rfl⟩
      have hstop : offset + utf8Length [mark] + utf8Length lit =
          offset + utf8Length (mark :: lit) := by
        simp [utf8Length, Nat.add_assoc]
      rw [Does.bind hloop, (does_position _).bind, hstop]
      have hslice := does_slice hc hliteral ⟨offset + utf8Length (mark :: lit), depth⟩
      rw [hslice]
      exact .ok (hc.behind hliteral)

section

variable {item : Steps α} {reader : Reader α} {close : Char}

theorem tracks_close (hc : c.Inside src.text limit) :
    Tracks src.text depth limit
      ((do expect src close; return []) ⟨c.offset, depth⟩ :
        Option (Except Failure (List α × Place)))
      (do let c ← Grammar.expect close c; return ([], c)) :=
  tracks_expect hc fun _ _ hnext => .ok hnext

theorem tracks_moreItems (hitem : Mirrors src depth item reader) {k rounds : Nat} {c : Cursor}
    (hc : c.Inside src.text k) (hrounds : k < rounds) :
    Tracks src.text depth k (moreItems src item close rounds ⟨c.offset, depth⟩)
      (Grammar.moreItems reader close k c) := by
  refine loop_induction (fun rounds c hc => ?_) (fun k rounds ih c hc => ?_) hc hrounds
  · have heat : c.skipBlank.eat? ',' = none := by rw [Cursor.eat?, hc.skipBlank.rest_eq_nil]
    rw [moreItems, (does_skipBlank hc).bind, (does_eat_not hc.skipBlank heat).bind]
    exact tracks_close hc.skipBlank
  · rw [moreItems, (does_skipBlank hc).bind, Grammar.moreItems]
    cases heat : c.skipBlank.eat? ',' with
    | none =>
      rw [(does_eat_not hc.skipBlank heat).bind]
      exact tracks_close hc.skipBlank
    | some next =>
      obtain ⟨_, hfewer, hnext⟩ := hc.skipBlank.eat? heat
      cases hfewer
      rw [(does_eat hc.skipBlank heat).bind, if_pos rfl, (does_skipBlank hnext).bind]
      refine (hitem hnext.skipBlank).bind fun x c hc => ?_
      refine (ih c hc).bind fun xs c hc => ?_
      exact .ok (hc.mono (Nat.le_succ k))

theorem mirrors_commaList (hitem : Mirrors src depth item reader) :
    Mirrors src depth (commaList src item close) (Grammar.commaList reader close) := by
  intro limit c hc
  rw [commaList, (does_skipBlank hc).bind]
  refine (hitem hc.skipBlank).bind fun x c hc => ?_
  refine (tracks_moreItems hitem hc.tight (lt_rounds hc)).bind fun xs next hnext => ?_
  exact .ok (hnext.mono hc.left)

end

end Position

end MetricQuery
