import MetricQuery.Grammar.Block
import MetricQuery.Proofs.Grammar.SuffixReads

/-!
# What can be spelled

What is read, and what is spelled, has certain properties.

* A value is a token, and the key of a condition is made of key characters:
  `ConditionSpelled.legible`.
* The items of a filter list nest only so deep as there are levels: `BlockItem.Legible`.
* Tags are made of tag characters, and the arguments of calls are clean.

`Yields reader P` says that whatever the reader reads, from any place in any text, has a
property.
-/

namespace MetricQuery

open Text Grammar

/-! ## Conditions and items -/

namespace Comparand

/-- The values that are compared with. -/
def texts : Comparand → List String
  | .single value => [value]
  | .list values => values

end Comparand

/-- What the comparators compare with: one value, or a list of them. -/
inductive Comparator.Takes : Comparator → Comparand → Prop where
  | colon {value : String} : Takes .colon (.single value)
  | notColon {value : String} : Takes .notColon (.single value)
  | regex {value : String} : Takes .regex (.single value)
  | oneOf {values : List String} : Takes .oneOf (.list values)
  | noneOf {values : List String} : Takes .noneOf (.list values)

/-- A condition as it is read: it has a key, and the values are tokens, a list of them where the
comparator takes one. -/
structure Condition.Legible (c : Condition) : Prop where
  key_ne : c.key ≠ ""
  keyChars : ∀ ch ∈ c.key.toList, isKeyChar ch = true
  values : ∀ v ∈ c.comparand.texts, IsToken v.toList
  form : c.comparator.Takes c.comparand

/-- An item as it is read, with lists in parentheses that nest so deep. -/
def BlockItem.Legible : Nat → BlockItem → Prop
  | _, .wildcard => False
  | _, .condition c => c.Legible
  | _, .separator _ => True
  | 0, .grouped _ => False
  | depth + 1, .grouped items => ∀ item ∈ items, item.Legible depth

@[simp]
theorem BlockItem.legible_condition {depth : Nat} {c : Condition} :
    (BlockItem.condition c).Legible depth ↔ c.Legible := by
  cases depth <;> exact Iff.rfl

@[simp]
theorem BlockItem.legible_separator {depth : Nat} {sep : Separator} :
    (BlockItem.separator sep).Legible depth := by
  cases depth <;> exact trivial

namespace Grammar

/-- Whatever the reader reads has the property. -/
def Yields {α : Type} (reader : Reader α) (P : α → Prop) : Prop :=
  ∀ ⦃c : Cursor⦄ ⦃x : α⦄ ⦃next : Cursor⦄, reader c = .ok (x, next) → P x

namespace Cursor

@[simp]
theorem fail_ne_ok {α : Type} (c : Cursor) (cause : Malformed) (a : α) :
    c.fail cause ≠ .ok a := by
  simp [fail]

@[simp]
theorem expected_ne_ok {α : Type} (c : Cursor) (wanted : Expectation) (a : α) :
    c.expected wanted ≠ .ok a := by
  simp [expected]

theorem all_of_takeWhile {p : Char → Bool} {c next : Cursor} {text : List Char}
    (h : c.takeWhile p = (text, next)) : ∀ ch ∈ text, p ch = true := by
  obtain ⟨rfl, -⟩ := Prod.mk.inj h
  exact fun ch hch => List.mem_takeWhile_imp hch

theorem peek?_of_takeWhile {p : Char → Bool} {c next : Cursor} {ch : Char} {text : List Char}
    (h : c.takeWhile p = (ch :: text, next)) : c.peek? = some ch := by
  have hrun : c.rest.takeWhile p = ch :: text := (Prod.mk.inj h).1
  rw [peek?]
  cases hrest : c.rest with
  | nil => simp [hrest] at hrun
  | cons d rest =>
    rw [hrest, List.takeWhile_cons] at hrun
    split at hrun
    · rw [(List.cons.inj hrun).1, List.head?_cons]
    · simp at hrun

end Cursor

/-! ## Values -/

theorem quoted_yields : Yields quoted (fun text => isLiteral text = true) := by
  intro c text next h
  rw [quoted] at h
  split at h
  · next hliteral =>
    obtain ⟨rfl, -⟩ := Prod.mk.inj (Except.ok.inj h)
    exact isLiteral_of_literal? hliteral
  · simp at h

/-- What is read as a value is a token. -/
theorem value_yields : Yields value (fun v => IsToken v.toList) := by
  intro c v next h
  rw [value] at h
  split at h
  · obtain ⟨⟨text, stop⟩, hquoted, heq⟩ := bind_eq_ok_iff.1 h
    obtain ⟨rfl, -⟩ := Prod.mk.inj (Except.ok.inj heq)
    rw [String.toList_ofList]
    exact .inl (quoted_yields hquoted)
  · next hquote =>
    generalize htake : c.takeWhile isValueChar = run at h
    obtain ⟨text, stop⟩ := run
    cases text with
    | nil => simp at h
    | cons ch text =>
      obtain ⟨rfl, -⟩ := Prod.mk.inj (Except.ok.inj h)
      rw [Cursor.peek?_of_takeWhile htake] at hquote
      have hchars := List.all_eq_true.2 (Cursor.all_of_takeWhile htake)
      rw [String.toList_ofList]
      refine .inr ⟨by simp, ?_⟩
      simpa [Filter.isBare, hquote] using hchars

/-! ## Spelled conditions -/

theorem ValueSpelled.isToken {v : String} {text : List Char} (h : ValueSpelled v text) :
    IsToken v.toList :=
  h.1 ▸ h.2

theorem ValuesSpelled.isToken {vs : List String} {text : List Char} (h : ValuesSpelled vs text) :
    ∀ v ∈ vs, IsToken v.toList := by
  cases h with
  | none => simp
  | some _ hvalue hmore =>
    exact List.forall_mem_cons.2 ⟨hvalue.isToken, hmore.forall_mem fun _ _ h => h.isToken⟩

/-- The values of a comparison are tokens, and a list where the comparator takes one. -/
theorem ComparisonSpelled.legible {comparator : Comparator} {comparand : Comparand}
    {text : List Char} (h : ComparisonSpelled comparator comparand text) :
    (∀ v ∈ comparand.texts, IsToken v.toList) ∧ comparator.Takes comparand := by
  cases h with
  | colon hvalue => exact ⟨by simpa [Comparand.texts] using hvalue.isToken, .colon⟩
  | notColon hvalue => exact ⟨by simpa [Comparand.texts] using hvalue.isToken, .notColon⟩
  | regex hvalue => exact ⟨by simpa [Comparand.texts] using hvalue.isToken, .regex⟩
  | oneOf _ _ _ _ hvalues => exact ⟨hvalues.isToken, .oneOf⟩
  | noneOf _ _ _ _ _ _ _ hvalues => exact ⟨hvalues.isToken, .noneOf⟩

theorem ConditionSpelled.legible {c : Condition} {text : List Char} (h : ConditionSpelled c text) :
    c.Legible := by
  obtain ⟨hkey, hchars, comparison, hcomparison, -⟩ := h
  exact ⟨hkey, hchars, hcomparison.legible.1, hcomparison.legible.2⟩

/-! ## What follows a block -/

theorem groupTag_yields : Yields groupTag (fun tag => TagSpelled tag tag.toList) := by
  intro c tag next h
  rw [groupTag] at h
  generalize htake : c.takeWhile isTagChar = run at h
  obtain ⟨text, stop⟩ := run
  cases text with
  | nil => simp at h
  | cons ch text =>
    obtain ⟨rfl, -⟩ := Prod.mk.inj (Except.ok.inj h)
    refine ⟨rfl, by simp, ?_⟩
    simpa using Cursor.all_of_takeWhile htake

theorem TagsSpelled.forall_mem {tags : List String} {text : List Char}
    (h : TagsSpelled tags text) : ∀ tag ∈ tags, TagSpelled tag tag.toList := by
  have htag : ∀ {tag : String} {text : List Char}, TagSpelled tag text →
      TagSpelled tag tag.toList := fun h => h.1 ▸ h
  cases h with
  | none => simp
  | some _ _ _ _ hfirst hmore =>
    exact List.forall_mem_cons.2 ⟨htag hfirst, hmore.forall_mem fun _ _ h => htag h⟩

theorem CallsSpelled.readable {calls : List FunctionCall} {text : List Char}
    (h : CallsSpelled calls text) : ∀ call ∈ calls, call.Readable := by
  induction h with
  | none => simp
  | more hcall _ ih =>
    obtain ⟨hname, hchars, inner, hinner, -⟩ := hcall
    exact List.forall_mem_cons.2 ⟨⟨hname, hchars, hinner.clean⟩, ih⟩

end Grammar

end MetricQuery
