import MetricQuery.Proofs.Json.Reread

/-!
# How deep a JSON text nests

The depth of a text is counted on its characters alone: brackets and braces open and close,
and what stands in quotation marks is passed over.  On the text of a tree that count is the
nesting of the tree.

* `depthFrom` and `textDepth`: the count, behind some characters and for a whole text.
* `depthFrom_write`: the characters of a tree raise the count to the nesting of the tree.
* `textDepth_render`: the case of a whole text.
-/

namespace MetricQuery.Json

/-! ## Counting -/

/-- How deep brackets and braces nest from here on.  So many of them are open, and `inside`
says that a string is. -/
def depthFrom : List Char → Bool → Nat → Nat
  | [], _, level => level
  | c :: rest, true, level =>
    if c = '\\' then
      match rest with
      | [] => level
      | _ :: rest => depthFrom rest true level
    else if c = '"' then depthFrom rest false level
    else depthFrom rest true level
  | c :: rest, false, level =>
    if c = '"' then depthFrom rest true level
    else if c = '[' ∨ c = '\x7b' then depthFrom rest false (level + 1)
    else if c = ']' ∨ c = '\x7d' then max level (depthFrom rest false (level - 1))
    else depthFrom rest false level

/-- How deep the containers of a JSON text nest. -/
def textDepth (text : String) : Nat :=
  depthFrom text.toList false 0

theorem level_le_depthFrom (text : List Char) (inside : Bool) (level : Nat) :
    level ≤ depthFrom text inside level := by
  fun_induction depthFrom text inside level with
  | case1 => exact Nat.le_refl _
  | case2 => exact Nat.le_refl _
  | case3 _ _ _ ih => exact ih
  | case4 _ _ _ ih => exact ih
  | case5 _ _ _ _ _ ih => exact ih
  | case6 _ _ ih => exact ih
  | case7 _ _ _ _ _ ih => exact Nat.le_of_succ_le ih
  | case8 => exact Nat.le_max_left _ _
  | case9 _ _ _ _ _ _ ih => exact ih

section Steps

variable (rest : List Char) (level : Nat)

/-- What is neither a mark of a string nor a container counts for nothing. -/
theorem depthFrom_outside {c : Char} (hquote : c ≠ '"') (hopen : ¬ (c = '[' ∨ c = '\x7b'))
    (hclose : ¬ (c = ']' ∨ c = '\x7d')) :
    depthFrom (c :: rest) false level = depthFrom rest false level := by
  rw [depthFrom.eq_def]
  simp only [if_neg hquote, if_neg hopen, if_neg hclose]

theorem depthFrom_open {c : Char} (h : c = '[' ∨ c = '\x7b') :
    depthFrom (c :: rest) false level = depthFrom rest false (level + 1) := by
  have hquote : c ≠ '"' := by rcases h with rfl | rfl <;> decide
  rw [depthFrom.eq_def]
  simp only [if_neg hquote, if_pos h]

theorem depthFrom_close {c : Char} (h : c = ']' ∨ c = '\x7d') :
    depthFrom (c :: rest) false (level + 1) = max (level + 1) (depthFrom rest false level) := by
  have hquote : c ≠ '"' := by rcases h with rfl | rfl <;> decide
  have hopen : ¬ (c = '[' ∨ c = '\x7b') := by rcases h with rfl | rfl <;> decide
  rw [depthFrom.eq_def]
  simp only [if_neg hquote, if_neg hopen, if_pos h, Nat.add_sub_cancel]

/-- A quotation mark starts a string outside of one, and ends it inside. -/
theorem depthFrom_mark (inside : Bool) :
    depthFrom ('"' :: rest) inside level = depthFrom rest (!inside) level := by
  rw [depthFrom.eq_def]
  cases inside <;> rfl

/-- A character of a string that is no mark of it. -/
theorem depthFrom_inside {c : Char} (hslash : c ≠ '\\') (hquote : c ≠ '"') :
    depthFrom (c :: rest) true level = depthFrom rest true level := by
  rw [depthFrom.eq_def]
  simp only [if_neg hslash, if_neg hquote]

/-- A backslash takes the character behind it along. -/
theorem depthFrom_escape (c : Char) :
    depthFrom ('\\' :: c :: rest) true level = depthFrom rest true level := by
  simp [depthFrom]

end Steps

/-! ## Strings -/

theorem hexDigit_ne : ∀ n < 16, hexDigit n ≠ '\\' ∧ hexDigit n ≠ '"' := by decide

/-- A character of a string, escaped or not, opens and closes nothing. -/
theorem depthFrom_writeChar (c : Char) (rest : List Char) (level : Nat) :
    depthFrom (writeChar c rest) true level = depthFrom rest true level := by
  unfold writeChar
  -- seven characters have a letter for their escape
  split
  · exact depthFrom_escape rest level '"'
  next hquote =>
  split
  · exact depthFrom_escape rest level '\\'
  next hslash =>
  iterate 5
    split
    · exact depthFrom_escape rest level _
  split
  · next hcontrol =>
    have hhigh := hexDigit_ne (c.toNat / 16) (by omega)
    have hlow := hexDigit_ne (c.toNat % 16) (by omega)
    rw [depthFrom_escape, depthFrom_inside _ _ (by decide) (by decide),
      depthFrom_inside _ _ (by decide) (by decide), depthFrom_inside _ _ hhigh.1 hhigh.2,
      depthFrom_inside _ _ hlow.1 hlow.2]
  · exact depthFrom_inside rest level hslash hquote

/-- A string is passed over. -/
theorem depthFrom_writeString {s : Option String} (h : s.isSome = true) (behind : List Char)
    (level : Nat) : depthFrom (writeString s behind) false level = depthFrom behind false level := by
  obtain ⟨s, rfl⟩ := Option.isSome_iff_exists.1 h
  have htext : ∀ text : List Char, depthFrom (text.foldr writeChar ('"' :: behind)) true level =
      depthFrom behind false level := by
    intro text
    induction text with
    | nil => exact depthFrom_mark behind level true
    | cons c text ih => rw [List.foldr_cons, depthFrom_writeChar, ih]
  rw [writeString, depthFrom_mark]
  exact htext s.toList

/-! ## Trees -/

mutual

/-- The characters of a tree raise the count to the nesting of the tree. -/
theorem depthFrom_write : ∀ (j : Json) (behind : List Char) (level : Nat), j.Plain →
    depthFrom (j.write behind) false level =
      max (level + j.nesting) (depthFrom behind false level)
  | .null, behind, level, _ => by
    have hword : depthFrom (write .null behind) false level = depthFrom behind false level := by
      simp [write, depthFrom]
    rw [hword, nesting, Nat.add_zero, Nat.max_eq_right (level_le_depthFrom behind false level)]
  | .bool b, behind, level, _ => by
    have hword : depthFrom (write (.bool b) behind) false level = depthFrom behind false level := by
      cases b <;> simp [write, depthFrom]
    rw [hword, nesting, Nat.add_zero, Nat.max_eq_right (level_le_depthFrom behind false level)]
  | .string s, behind, level, h => by
    rw [write, depthFrom_writeString h, nesting, Nat.add_zero,
      Nat.max_eq_right (level_le_depthFrom behind false level)]
  | .array [], behind, level, _ => by
    rw [write, depthFrom_open _ _ (by simp), depthFrom_close _ _ (by simp), nesting, deepest]
  | .array (item :: items), behind, level, h => by
    rw [write, depthFrom_open _ _ (by simp), depthFrom_write item _ _ h.1,
      depthFrom_writeItems items behind level h.2, nesting, deepest]
    omega
  | .object [], behind, level, _ => by
    rw [write, depthFrom_open _ _ (by simp), depthFrom_close _ _ (by simp), nesting, deepestMember]
  | .object ((key, value) :: members), behind, level, h => by
    rw [write, depthFrom_open _ _ (by simp), depthFrom_writeString h.1,
      depthFrom_outside _ _ (by decide) (by decide) (by decide), depthFrom_write value _ _ h.2.1,
      depthFrom_writeMembers members behind level h.2.2, nesting, deepestMember]
    omega

/-- Further items, up to the bracket that closes their array. -/
theorem depthFrom_writeItems : ∀ (items : List Json) (behind : List Char) (level : Nat),
    AllPlain items → depthFrom (writeItems items behind) false (level + 1) =
      max (level + 1 + deepest items) (depthFrom behind false level)
  | [], behind, level, _ => by rw [writeItems, depthFrom_close _ _ (by simp), deepest]
  | item :: items, behind, level, h => by
    rw [writeItems, depthFrom_outside _ _ (by decide) (by decide) (by decide),
      depthFrom_write item _ _ h.1, depthFrom_writeItems items behind level h.2, deepest]
    omega

theorem depthFrom_writeMembers : ∀ (members : List (Option String × Json)) (behind : List Char)
    (level : Nat), MembersPlain members →
    depthFrom (writeMembers members behind) false (level + 1) =
      max (level + 1 + deepestMember members) (depthFrom behind false level)
  | [], behind, level, _ => by rw [writeMembers, depthFrom_close _ _ (by simp), deepestMember]
  | (key, value) :: members, behind, level, h => by
    rw [writeMembers, depthFrom_outside _ _ (by decide) (by decide) (by decide),
      depthFrom_writeString h.1, depthFrom_outside _ _ (by decide) (by decide) (by decide),
      depthFrom_write value _ _ h.2.1, depthFrom_writeMembers members behind level h.2.2,
      deepestMember]
    omega

end

/-- The text of a plain tree nests as deep as the tree. -/
theorem textDepth_render {j : Json} (h : j.Plain) : textDepth j.render = j.nesting := by
  rw [textDepth, render, String.toList_ofList, depthFrom_write j [] 0 h, Nat.zero_add]
  exact Nat.max_eq_left (Nat.zero_le _)

/-- A bracket in a string does not count, behind an escaped quotation mark either. -/
example : textDepth "\x7b\"a\\\"[\":[[],null]\x7d" = 3 := by decide +kernel

end MetricQuery.Json
