import MetricQuery.Json.Reader

/-!
# Reading what is written

A tree of words, strings, arrays and objects is read from its text as it was written.

* `string?_foldr_writeChar`: a string is read up to its quotation mark; `units?_writeChar` is the
  step for one character, escaped or not.
* `Plain`: the trees without numbers, whose strings are texts.
* `value?_write`: a plain tree is read from its text, and what stands behind is left, as long as
  there is fuel for twice the length; `read?_render` is the case of a whole text.
* `nesting`: how deep arrays and objects nest; `isSound_iff` says that a plain tree is sound
  exactly where there is room for that.
-/

namespace MetricQuery.Json

/-! ## Strings -/

theorem hexValue?_hexDigit : ∀ n < 16, hexValue? (hexDigit n) = some n := by decide

/-- A control character is written as the code unit with its number. -/
theorem hexUnit?_of_lt {n : Nat} (h : n < 0x20) :
    hexUnit? '0' '0' (hexDigit (n / 16)) (hexDigit (n % 16)) = some n := by
  have hhigh := hexValue?_hexDigit (n / 16) (by omega)
  have hlow := hexValue?_hexDigit (n % 16) (by omega)
  have hzero : hexValue? '0' = some 0 := by decide
  simp only [hexUnit?, hhigh, hlow, hzero, Option.bind_eq_bind, Option.bind_some, Option.pure_def,
    Option.some.injEq]
  omega

/-- A control character is what the code unit with its number stands for. -/
theorem chars?_unit_toNat {c : Char} (h : c.toNat < 0x20) (units : List Unit16) :
    chars? (.unit c.toNat :: units) = (chars? units).map (c :: ·) := by
  have hhigh : isHighSurrogate c.toNat = false := by simp [isHighSurrogate]; omega
  have hlow : isLowSurrogate c.toNat = false := by simp [isLowSurrogate]; omega
  rw [chars?.eq_def]
  simp only [hhigh, hlow, Bool.false_eq_true, if_false, Char.ofNat_toNat]

/-- A letter behind a backslash is read as what it stands for. -/
theorem units?_escape {e c : Char} (hu : e ≠ 'u') (h : escaped? e = some c) (rest : List Char) :
    units? ('\\' :: e :: rest) = (units? rest).map fun cut => (.char c :: cut.1, cut.2) := by
  rw [units?, if_neg (by decide), if_pos rfl, h]
  · rfl
  · rintro _ _ _ _ _ heq _
    exact hu heq

/-- A character is read as one unit, which stands for it. -/
theorem units?_writeChar (c : Char) (rest : List Char) :
    ∃ unit, (units? (writeChar c rest) = (units? rest).map fun cut => (unit :: cut.1, cut.2)) ∧
      ∀ units, chars? (unit :: units) = (chars? units).map (c :: ·) := by
  have hescape : ∀ e, e ≠ 'u' → escaped? e = some c →
      ∃ unit, (units? ('\\' :: e :: rest) = (units? rest).map fun cut => (unit :: cut.1, cut.2)) ∧
        ∀ units, chars? (unit :: units) = (chars? units).map (c :: ·) :=
    fun e hu he => ⟨.char c, units?_escape hu he rest, fun _ => rfl⟩
  unfold writeChar
  -- seven characters have a letter for their escape, in the order of the writer
  split
  · next hc => exact hescape '"' (by decide) (by rw [hc]; rfl)
  split
  · next hc => exact hescape '\\' (by decide) (by rw [hc]; rfl)
  split
  · next hc => exact hescape 'b' (by decide) (by rw [hc]; rfl)
  split
  · next hc => exact hescape 't' (by decide) (by rw [hc]; rfl)
  split
  · next hc => exact hescape 'n' (by decide) (by rw [hc]; rfl)
  split
  · next hc => exact hescape 'f' (by decide) (by rw [hc]; rfl)
  split
  · next hc => exact hescape 'r' (by decide) (by rw [hc]; rfl)
  split
  · next hc =>
    refine ⟨.unit c.toNat, ?_, chars?_unit_toNat hc⟩
    rw [units?.eq_def]
    simp [hexUnit?_of_lt hc]
  · next hquote hbackslash _ _ _ _ _ hcontrol =>
    refine ⟨.char c, ?_, fun _ => rfl⟩
    rw [units?.eq_def]
    simp only [if_neg hquote, if_neg hbackslash, if_neg hcontrol]

/-- The characters of a string are read up to its quotation mark. -/
theorem units?_foldr_writeChar (text behind : List Char) :
    ∃ units, units? (text.foldr writeChar ('"' :: behind)) = some (units, behind) ∧
      chars? units = some text := by
  induction text with
  | nil => exact ⟨[], by rw [List.foldr_nil, units?.eq_def]; rfl, rfl⟩
  | cons c text ih =>
    obtain ⟨units, hunits, hchars⟩ := ih
    obtain ⟨unit, hunit, hstands⟩ := units?_writeChar c (text.foldr writeChar ('"' :: behind))
    refine ⟨unit :: units, ?_, ?_⟩
    · rw [List.foldr_cons, hunit, hunits]
      rfl
    · rw [hstands, hchars]
      rfl

theorem string?_foldr_writeChar (s : String) (behind : List Char) :
    string? (s.toList.foldr writeChar ('"' :: behind)) = some (some s, behind) := by
  obtain ⟨units, hunits, hchars⟩ := units?_foldr_writeChar s.toList behind
  simp only [string?, hunits, hchars, Option.map_some, String.ofList_toList]

/-! ## Plain trees -/

mutual

/-- The tree has no numbers, and its strings are texts. -/
def Plain : Json → Prop
  | .null => True
  | .bool _ => True
  | .number _ => False
  | .string s => s.isSome = true
  | .array items => AllPlain items
  | .object members => MembersPlain members

def AllPlain : List Json → Prop
  | [] => True
  | item :: rest => Plain item ∧ AllPlain rest

def MembersPlain : List (Option String × Json) → Prop
  | [] => True
  | (key, value) :: rest => key.isSome = true ∧ Plain value ∧ MembersPlain rest

end

/-- A text is written as something in quotation marks that is read as the text. -/
theorem exists_writeString {s : Option String} (h : s.isSome = true) (behind : List Char) :
    ∃ body, writeString s behind = '"' :: body ∧ string? body = some (s, behind) := by
  obtain ⟨s, rfl⟩ := Option.isSome_iff_exists.1 h
  exact ⟨_, rfl, string?_foldr_writeChar s behind⟩

/-- The text of a tree starts with no blank and closes nothing. -/
theorem exists_write_eq_cons {j : Json} (h : j.Plain) (behind : List Char) :
    ∃ c rest, j.write behind = c :: rest ∧ isBlank c = false ∧ c ≠ ']' := by
  cases j with
  | null => exact ⟨'n', _, rfl, by decide, by decide⟩
  | bool b => cases b <;> exact ⟨_, _, rfl, by decide, by decide⟩
  | number n => exact h.elim
  | string s =>
    obtain ⟨body, hbody, -⟩ := exists_writeString h behind
    exact ⟨'"', body, hbody, by decide, by decide⟩
  | array items => cases items <;> exact ⟨'[', _, rfl, by decide, by decide⟩
  | object members =>
    rcases members with _ | ⟨⟨key, value⟩, members⟩ <;> exact ⟨'\x7b', _, rfl, by decide, by decide⟩

theorem skipBlank_cons {c : Char} (h : isBlank c = false) (rest : List Char) :
    skipBlank (c :: rest) = c :: rest := by
  rw [skipBlank, List.dropWhile_cons_of_neg (by simp [h])]

/-! ## Lengths -/

theorem length_le_writeChar (c : Char) (behind : List Char) :
    behind.length ≤ (writeChar c behind).length := by
  grind [writeChar]

theorem length_le_writeString (s : Option String) (behind : List Char) :
    behind.length ≤ (writeString s behind).length := by
  cases s with
  | none =>
    simp only [writeString, List.length_cons]
    omega
  | some s =>
    have htext : ∀ text : List Char,
        behind.length ≤ (text.foldr writeChar ('"' :: behind)).length := by
      intro text
      induction text with
      | nil => exact Nat.le_succ _
      | cons c text ih => exact Nat.le_trans ih (length_le_writeChar c _)
    exact Nat.le_trans (htext s.toList) (Nat.le_succ _)

mutual

/-- Writing only adds to a text. -/
theorem length_le_write : ∀ (j : Json) (behind : List Char),
    behind.length ≤ (j.write behind).length
  | .null, behind => by simp only [write, List.length_cons]; omega
  | .bool true, behind => by simp only [write, List.length_cons]; omega
  | .bool false, behind => by simp only [write, List.length_cons]; omega
  | .number n, behind => by simp only [write, List.length_append]; omega
  | .string s, behind => length_le_writeString s behind
  | .array [], behind => by simp only [write, List.length_cons]; omega
  | .array (item :: items), behind => by
    have hitem := length_le_write item (writeItems items behind)
    have hitems := length_le_writeItems items behind
    rw [write, List.length_cons]
    omega
  | .object [], behind => by simp only [write, List.length_cons]; omega
  | .object ((key, value) :: members), behind => by
    have hkey := length_le_writeString key (':' :: value.write (writeMembers members behind))
    have hvalue := length_le_write value (writeMembers members behind)
    have hmembers := length_le_writeMembers members behind
    rw [write, List.length_cons]
    rw [List.length_cons] at hkey
    omega

theorem length_le_writeItems : ∀ (items : List Json) (behind : List Char),
    behind.length ≤ (writeItems items behind).length
  | [], behind => Nat.le_succ _
  | item :: items, behind => by
    have hitem := length_le_write item (writeItems items behind)
    have hitems := length_le_writeItems items behind
    rw [writeItems, List.length_cons]
    omega

theorem length_le_writeMembers : ∀ (members : List (Option String × Json)) (behind : List Char),
    behind.length ≤ (writeMembers members behind).length
  | [], behind => Nat.le_succ _
  | (key, value) :: members, behind => by
    have hkey := length_le_writeString key (':' :: value.write (writeMembers members behind))
    have hvalue := length_le_write value (writeMembers members behind)
    have hmembers := length_le_writeMembers members behind
    rw [writeMembers, List.length_cons]
    rw [List.length_cons] at hkey
    omega

end

/-! ## Trees -/

section Blanks

variable {fuel : Nat} {c : Char} {rest : List Char}

theorem value?_quote : value? (fuel + 1) ('"' :: rest) =
    (string? rest).map fun cut => (.string cut.1, cut.2) :=
  rfl

/-- The items of an array are read behind its bracket, unless it is closed there. -/
theorem value?_array (hblank : isBlank c = false) (hclose : c ≠ ']') :
    value? (fuel + 1) ('[' :: c :: rest) =
      (items? fuel (c :: rest)).map fun cut => (.array cut.1, cut.2) := by
  rw [value?, skipBlank_cons (by decide)]
  simp [skipBlank_cons hblank, hclose]

/-- The members of an object are read behind its brace. -/
theorem value?_object : value? (fuel + 1) ('\x7b' :: '"' :: rest) =
    (members? fuel ('"' :: rest)).map fun cut => (.object cut.1, cut.2) :=
  rfl

end Blanks

mutual

/-- A tree is read up to its end, if there is fuel for twice the length of the text. -/
theorem value?_write : ∀ (j : Json) (fuel : Nat) (behind : List Char), j.Plain →
    2 * (j.write behind).length ≤ fuel + 1 →
      value? (fuel + 1) (j.write behind) = some (j, behind)
  | .null, fuel, behind, _, _ => rfl
  | .bool true, fuel, behind, _, _ => rfl
  | .bool false, fuel, behind, _, _ => rfl
  | .string s, fuel, behind, h, _ => by
    obtain ⟨body, hbody, hread⟩ := exists_writeString h behind
    rw [write, hbody, value?_quote, hread]
    rfl
  | .array [], fuel, behind, _, _ => rfl
  | .array (item :: items), fuel, behind, h, hfuel => by
    -- the reader looks for a closing bracket first, which no item starts with
    obtain ⟨c, rest, hstart, hblank, hclose⟩ :=
      exists_write_eq_cons h.1 (writeItems items behind)
    rw [write, List.length_cons] at hfuel
    have hitems := items?_writeItems (item :: items) fuel behind (by simp) h
      (by rw [writeItems, List.tail_cons]; omega)
    rw [writeItems, List.tail_cons, hstart] at hitems
    rw [write, hstart, value?_array hblank hclose, hitems]
    rfl
  | .object [], fuel, behind, _, _ => rfl
  | .object ((key, value) :: members), fuel, behind, h, hfuel => by
    obtain ⟨body, hbody, -⟩ :=
      exists_writeString h.1 (':' :: value.write (writeMembers members behind))
    rw [write, List.length_cons] at hfuel
    have hmembers := members?_writeMembers ((key, value) :: members) fuel behind (by simp) h
      (by rw [writeMembers, List.tail_cons]; omega)
    rw [writeMembers, List.tail_cons, hbody] at hmembers
    rw [write, hbody, value?_object, hmembers]
    rfl

/-- The items of an array are read behind the comma in front of them. -/
theorem items?_writeItems : ∀ (items : List Json) (fuel : Nat) (behind : List Char),
    items ≠ [] → AllPlain items →
    2 * (writeItems items behind).tail.length + 1 ≤ fuel →
      items? fuel (writeItems items behind).tail = some (items, behind)
  | item :: items, fuel, behind, _, h, hfuel => by
    rw [writeItems, List.tail_cons] at hfuel ⊢
    obtain ⟨c, rest, hstart, -⟩ := exists_write_eq_cons h.1 (writeItems items behind)
    obtain ⟨fuel, rfl⟩ : ∃ less, fuel = less + 2 := ⟨fuel - 2, by simp [hstart] at hfuel; omega⟩
    have hitem := value?_write item fuel (writeItems items behind) h.1 (by omega)
    have hlength := length_le_write item (writeItems items behind)
    rw [items?, hitem]
    -- the fuel of the further items is one less, and their text shorter by a comma
    cases items with
    | nil => rfl
    | cons other items =>
      have hcomma : writeItems (other :: items) behind =
          ',' :: other.write (writeItems items behind) := rfl
      rw [hcomma] at hfuel hlength
      rw [List.length_cons] at hlength
      have hitems := items?_writeItems (other :: items) (fuel + 1) behind (by simp) h.2
        (by rw [hcomma, List.tail_cons]; omega)
      rw [hcomma, List.tail_cons] at hitems
      simp [hcomma, skipBlank_cons (c := ',') (by decide), hitems]

theorem members?_writeMembers : ∀ (members : List (Option String × Json)) (fuel : Nat)
    (behind : List Char), members ≠ [] → MembersPlain members →
    2 * (writeMembers members behind).tail.length + 1 ≤ fuel →
      members? fuel (writeMembers members behind).tail = some (members, behind)
  | (key, value) :: members, fuel, behind, _, h, hfuel => by
    rw [writeMembers, List.tail_cons] at hfuel ⊢
    obtain ⟨body, hbody, hkey⟩ :=
      exists_writeString h.1 (':' :: value.write (writeMembers members behind))
    have hstart := length_le_writeString key (':' :: value.write (writeMembers members behind))
    rw [List.length_cons] at hstart
    have hlength := length_le_write value (writeMembers members behind)
    obtain ⟨fuel, rfl⟩ : ∃ less, fuel = less + 2 := ⟨fuel - 2, by omega⟩
    have hvalue := value?_write value fuel (writeMembers members behind) h.2.1 (by omega)
    rw [hbody, members?, skipBlank_cons (by decide)]
    simp only [hkey, Option.bind_eq_bind, Option.bind_some,
      skipBlank_cons (c := ':') (by decide), hvalue]
    cases members with
    | nil => rfl
    | cons other members =>
      have hcomma : writeMembers (other :: members) behind =
          ',' :: writeString other.1 (':' :: other.2.write (writeMembers members behind)) := rfl
      rw [hcomma] at hfuel hlength hstart
      rw [List.length_cons] at hlength
      have hmembers := members?_writeMembers (other :: members) (fuel + 1) behind (by simp) h.2.2
        (by rw [hcomma, List.tail_cons]; omega)
      rw [hcomma, List.tail_cons] at hmembers
      simp [hcomma, skipBlank_cons (c := ',') (by decide), hmembers]

end

/-- A plain tree is read from its text. -/
theorem read?_render {j : Json} (h : j.Plain) : read? j.render = some j := by
  have hvalue := value?_write j (2 * (j.write []).length) [] h (by omega)
  simp [read?, render, hvalue, skipBlank]

/-! ## Room -/

mutual

/-- How deep arrays and objects nest. -/
def nesting : Json → Nat
  | .null => 0
  | .bool _ => 0
  | .number _ => 0
  | .string _ => 0
  | .array items => deepest items + 1
  | .object members => deepestMember members + 1

/-- How deep the deepest of some values nests. -/
def deepest : List Json → Nat
  | [] => 0
  | item :: rest => max (nesting item) (deepest rest)

/-- How deep the deepest of some members nests. -/
def deepestMember : List (Option String × Json) → Nat
  | [] => 0
  | (_, value) :: rest => max (nesting value) (deepestMember rest)

end

mutual

/-- A plain tree is sound if there is room for its nesting, and otherwise it is not. -/
theorem isSound_iff : ∀ (j : Json) (room : Nat), j.Plain →
    (j.isSound room = true ↔ j.nesting ≤ room)
  | .null, _, _ => by simp [isSound, nesting]
  | .bool _, _, _ => by simp [isSound, nesting]
  | .string s, _, h => by
    rw [isSound, nesting]
    exact iff_of_true h (Nat.zero_le _)
  | .array items, 0, _ => by simp [isSound, nesting]
  | .array items, room + 1, h => by
    rw [isSound, nesting, areSound_iff items room h, Nat.succ_le_succ_iff]
  | .object members, 0, _ => by simp [isSound, nesting]
  | .object members, room + 1, h => by
    rw [isSound, nesting, areSoundMembers_iff members room h, Nat.succ_le_succ_iff]

theorem areSound_iff : ∀ (items : List Json) (room : Nat), AllPlain items →
    (areSound room items = true ↔ deepest items ≤ room)
  | [], _, _ => by simp [areSound, deepest]
  | item :: rest, room, h => by
    rw [areSound, deepest, Bool.and_eq_true, isSound_iff item room h.1,
      areSound_iff rest room h.2, Nat.max_le]

theorem areSoundMembers_iff : ∀ (members : List (Option String × Json)) (room : Nat),
    MembersPlain members → (areSoundMembers room members = true ↔ deepestMember members ≤ room)
  | [], _, _ => by simp [areSoundMembers, deepestMember]
  | (key, value) :: rest, room, h => by
    rw [areSoundMembers, deepestMember, Bool.and_eq_true, Bool.and_eq_true,
      isSound_iff value room h.2.1, areSoundMembers_iff rest room h.2.2, Nat.max_le,
      and_iff_right h.1]

end

end MetricQuery.Json
