import MetricQuery.Proofs.FilterTree.Written
import MetricQuery.Proofs.Grammar.BlockReads

/-!
# The condition that a written filter spells

The text of a filter is a condition, or a `NOT` and a condition: a key `NOT` in front of
`NOT IN` is read as a negation.  `Filter.toOperand` gives the items.

`Filter.Rereadable` excludes the values of `key:value` that cannot be told from the
comparison: the sign `~` alone, and that sign with a quotation mark behind it that starts no
complete literal.  `Filter.operandSpelled` says that any other complete filter is spelled by
its text, and `Filter.comesFirst_written` which word the text starts with.
-/

namespace MetricQuery

open Text Grammar

/-! ## Items of filters -/

/-- A condition that is not negated, without a place. -/
def Condition.ofParts (key : String) (comparator : Comparator) (comparand : Comparand) :
    Condition :=
  ⟨false, key, comparator, comparand, ⟨0, 0⟩⟩

namespace Filter

/-- Is this word, in any case, the key of the filter? -/
def HasKey (word : String) (f : Filter) : Prop :=
  sameLetters f.key.toList word.toList = true

instance (word : String) (f : Filter) : Decidable (f.HasKey word) :=
  inferInstanceAs (Decidable (_ = true))

/-- The condition that `key:text` spells: with a sign `~` in front, the text is a
pattern. -/
def ofColon (key : String) (text : List Char) : Condition :=
  match text with
  | '~' :: pattern => .ofParts key .regex (.single (String.ofList pattern))
  | text => .ofParts key .colon (.single (String.ofList text))

/-- The items that the text of a filter spells.  A key `NOT` in front of `NOT IN` is read as a
negation, and the other `NOT` as the key. -/
def toOperand (f : Filter) : List BlockItem :=
  let texts := f.values.map emitted
  match f.operation with
  | some .equal => [.condition (ofColon f.key (texts.flatMap String.toList))]
  | some .notEqual => [.condition (.ofParts f.key .notColon (.single (String.join texts)))]
  | some .regex => [.condition (.ofParts f.key .regex (.single (String.join texts)))]
  | some .oneOf => [.condition (.ofParts f.key .oneOf (.list texts))]
  | some .noneOf =>
    if f.HasKey "NOT" then [.separator .not, .condition (.ofParts "NOT" .oneOf (.list texts))]
    else [.condition (.ofParts f.key .noneOf (.list texts))]
  | none => []

/-- The value of the filter can be told from its comparison: what stands behind a sign `~`
at its start is a value itself. -/
def Rereadable (f : Filter) : Prop :=
  f.operation = some .equal →
    ∀ v ∈ f.values, ∀ pattern, (emitted v).toList = '~' :: pattern → IsToken pattern

/-- Nothing in the text of the filter can be taken for something else: its key is no keyword
of a condition, and its value does not start with the sign of another comparison. -/
structure Plain (f : Filter) : Prop where
  key_not : ¬ f.HasKey "NOT"
  key_in : ¬ f.HasKey "IN"
  value : f.operation = some .equal → ∀ v ∈ f.values, (emitted v).toList.head? ≠ some '~'

instance (f : Filter) : Decidable f.Plain :=
  decidable_of_iff (¬ f.HasKey "NOT" ∧ ¬ f.HasKey "IN" ∧ (f.operation = some .equal →
      ∀ v ∈ f.values, (emitted v).toList.head? ≠ some '~'))
    ⟨fun h => ⟨h.1, h.2.1, h.2.2⟩, fun h => ⟨h.key_not, h.key_in, h.value⟩⟩

theorem Plain.rereadable {f : Filter} (h : f.Plain) : f.Rereadable := by
  intro hop v hv pattern htext
  exact absurd (by rw [htext]; rfl) (h.value hop v hv)

theorem valuesSpelled_intercalate {v : String} {vs : List String}
    (h : ∀ u ∈ v :: vs, IsToken u.toList) :
    ValuesSpelled (v :: vs) ('(' :: ((",".intercalate (v :: vs)).toList ++ [')'])) := by
  have hmore : ∀ us : List String, (∀ u ∈ us, IsToken u.toList) →
      MoreSpelled ValueSpelled ')' us (us.flatMap (fun u => ',' :: u.toList) ++ [')']) := by
    intro us
    induction us with
    | nil => exact fun _ => .closed blanks_nil
    | cons u us ih =>
      intro hus
      have hvalue : ValueSpelled u u.toList := ⟨rfl, hus u (by simp)⟩
      have := MoreSpelled.comma blanks_nil blanks_nil hvalue
        (ih fun w hw => hus w (by simp [hw]))
      simpa using this
  have hvalue : ValueSpelled v v.toList := ⟨rfl, h v (by simp)⟩
  have := ValuesSpelled.some blanks_nil hvalue (hmore vs fun u hu => h u (by simp [hu]))
  rw [toList_intercalate_cons]
  simpa using this

theorem conditionSpelled_ofParts {key : String} {comparator : Comparator}
    {comparand : Comparand} {comparison : List Char} (hkey : key ≠ "")
    (hchars : ∀ c ∈ key.toList, isKeyChar c = true)
    (h : ComparisonSpelled comparator comparand comparison) :
    ConditionSpelled (.ofParts key comparator comparand) (key.toList ++ comparison) :=
  ⟨hkey, hchars, comparison, h, by simp [Condition.ofParts]⟩

/-- The text of a comparison with a list. -/
theorem conditionSpelled_list {key : String} {vs : List String} (hkey : key ≠ "")
    (hchars : ∀ c ∈ key.toList, isKeyChar c = true) (hne : vs ≠ [])
    (htokens : ∀ v ∈ vs, IsToken v.toList) :
    ConditionSpelled (.ofParts key .oneOf (.list vs))
        (key ++ " IN (" ++ ",".intercalate vs ++ ")").toList ∧
      ConditionSpelled (.ofParts key .noneOf (.list vs))
        (key ++ " NOT IN (" ++ ",".intercalate vs ++ ")").toList := by
  have hspace : Blanks [' '] := by simp [isBlank_space]
  cases vs with
  | nil => exact absurd rfl hne
  | cons v vs =>
    have hvalues := valuesSpelled_intercalate htokens
    have hone := conditionSpelled_ofParts hkey hchars
      (.oneOf hspace (by simp) (sameLetters_self "IN".toList) hspace hvalues)
    have hnone := conditionSpelled_ofParts hkey hchars
      (.noneOf hspace (by simp) (sameLetters_self "NOT".toList) hspace (by simp)
        (sameLetters_self "IN".toList) hspace hvalues)
    constructor
    · simpa using hone
    · simpa using hnone

/-- The emitted values of a complete filter are tokens. -/
theorem isToken_of_complete {f : Filter} (h : f.Complete) :
    ∀ v ∈ f.values.map emitted, IsToken v.toList := by
  intro v hv
  obtain ⟨u, hu, rfl⟩ := List.mem_map.1 hv
  exact isToken_emitted (h.value_ne u hu)

/-- A complete filter has one value, or a list of values that is not empty. -/
theorem values_of_complete {f : Filter} {operation : Operation} (h : f.Complete)
    (hop : f.operation = some operation) :
    (operation.isList = true ∧ f.values ≠ []) ∨
      (operation.isList = false ∧ ∃ v, f.values = [v]) := by
  obtain ⟨operation', hop', hcount⟩ := h.values
  obtain rfl : operation = operation' := Option.some.inj (hop.symm.trans hop')
  rw [Operation.takes_iff] at hcount
  cases hkind : operation.isList with
  | true => exact .inl ⟨rfl, by simpa [hkind] using hcount⟩
  | false =>
    rw [hkind] at hcount
    exact .inr ⟨rfl, List.length_eq_one_iff.1 (by simpa using hcount)⟩

/-- What `key:text` spells, if a sign `~` at the start of the text is followed by a value. -/
theorem conditionSpelled_ofColon {key : String} {text : List Char} (hkey : key ≠ "")
    (hchars : ∀ c ∈ key.toList, isKeyChar c = true) (htoken : IsToken text)
    (hpattern : ∀ pattern, text = '~' :: pattern → IsToken pattern) :
    ConditionSpelled (ofColon key text) (key.toList ++ ':' :: text) := by
  unfold ofColon
  split
  · next pattern =>
    have hpattern := hpattern pattern rfl
    have hvalue : ValueSpelled (String.ofList pattern) pattern := ⟨by simp, hpattern⟩
    exact conditionSpelled_ofParts hkey hchars (.regex hvalue)
  · next hnot =>
    have hvalue : ValueSpelled (String.ofList text) text := ⟨by simp, htoken⟩
    refine conditionSpelled_ofParts hkey hchars (.colon hvalue ?_)
    intro hhead
    cases text with
    | nil => simp at hhead
    | cons c tail => exact hnot tail (by simp at hhead; rw [hhead])

theorem ofColon_not_looksNegated (key : String) (text : List Char) :
    ¬ (BlockItem.condition (ofColon key text)).LooksNegated := by
  unfold ofColon
  split <;> simp [BlockItem.LooksNegated, Condition.ofParts]

section Operands

variable (Nested : List BlockItem → List Char → Prop)

/-- The text of a filter with the key `NOT` that compares by `NOT IN`: its key is a `NOT` of its
own, and a comparison of the key `NOT` with `IN` follows. -/
theorem written_of_not {f : Filter} (hcomplete : f.Complete) (hop : f.operation = some .noneOf) :
    ∃ text, f.written.toList = f.key.toList ++ ([' '] ++ text) ∧
      comesFirst "IN" text = false ∧
      OperandSpelled Nested
        [.condition (.ofParts "NOT" .oneOf (.list (f.values.map emitted)))] text := by
  have hne : f.values.map emitted ≠ [] := by
    simpa [Operation.isList] using values_of_complete hcomplete hop
  have hkey : "NOT" ≠ "" := by decide
  have hchars := isKeyChar_of_sameLetters isAlpha_not (sameLetters_self "NOT".toList)
  have hspelled := (conditionSpelled_list hkey hchars hne (isToken_of_complete hcomplete)).1
  refine ⟨_, ?_, ?_, .core (.condition hspelled)
    (by simp [BlockItem.LooksNegated, Condition.ofParts])⟩
  · simp [written, hop, write]
  · simp [comesFirst, isKeyChar, sameLetters]

/-- A filter is spelled by its text. -/
theorem operandSpelled {f : Filter} (hcomplete : f.Complete) (hread : f.Rereadable) :
    OperandSpelled Nested f.toOperand f.written.toList := by
  have htokens := isToken_of_complete hcomplete
  obtain ⟨operation, hop, -⟩ := hcomplete.values
  have hvalues := values_of_complete hcomplete hop
  have hkey := hcomplete.key_ne
  have hchars := hcomplete.keyChars
  simp only [toOperand, written, hop, write]
  cases operation with
  | equal =>
    obtain ⟨v, hv⟩ : ∃ v, f.values = [v] := by simpa [Operation.isList] using hvalues
    have htoken := htokens (emitted v) (by simp [hv])
    have hspelled := conditionSpelled_ofColon hkey hchars htoken
      (hread hop v (by simp [hv]))
    simpa [hv] using OperandSpelled.core (.condition hspelled)
      (ofColon_not_looksNegated f.key (emitted v).toList)
  | notEqual =>
    obtain ⟨v, hv⟩ : ∃ v, f.values = [v] := by simpa [Operation.isList] using hvalues
    have hvalue : ValueSpelled (emitted v) (emitted v).toList :=
      ⟨rfl, htokens _ (by simp [hv])⟩
    simpa [hv] using OperandSpelled.core
      (.condition (conditionSpelled_ofParts hkey hchars (.notColon hvalue)))
      (by simp [BlockItem.LooksNegated, Condition.ofParts])
  | regex =>
    obtain ⟨v, hv⟩ : ∃ v, f.values = [v] := by simpa [Operation.isList] using hvalues
    have hvalue : ValueSpelled (emitted v) (emitted v).toList :=
      ⟨rfl, htokens _ (by simp [hv])⟩
    simpa [hv] using OperandSpelled.core
      (.condition (conditionSpelled_ofParts hkey hchars (.regex hvalue)))
      (by simp [BlockItem.LooksNegated, Condition.ofParts])
  | oneOf =>
    have hne : f.values.map emitted ≠ [] := by simpa [Operation.isList] using hvalues
    exact .core (.condition (conditionSpelled_list hkey hchars hne htokens).1)
      (by simp [BlockItem.LooksNegated, Condition.ofParts])
  | noneOf =>
    have hne : f.values.map emitted ≠ [] := by simpa [Operation.isList] using hvalues
    by_cases hnot : f.HasKey "NOT"
    · obtain ⟨text, htext, hin, hoperand⟩ := written_of_not Nested hcomplete hop
      simp only [written, hop, write] at htext
      rw [if_pos hnot, htext]
      exact .negated hnot (by simp [isBlank_space]) (by simp [endsKeyword, isBlank_space]) hin
        hoperand
    · rw [if_neg hnot]
      exact .core (.condition (conditionSpelled_list hkey hchars hne htokens).2)
        (fun hlooks => hnot hlooks.2.1)

/-- The text of a filter is its key and a comparison. -/
theorem written_eq_key_append {f : Filter} {operation : Operation}
    (hop : f.operation = some operation) :
    ∃ c tail, f.written.toList = f.key.toList ++ c :: tail ∧ isKeyChar c = false ∧
      endsKeyword c = operation.isList := by
  simp only [written, hop, write]
  cases operation with
  | equal => exact ⟨':', _, by simp; rfl, by decide, by decide⟩
  | notEqual => exact ⟨'!', _, by simp; rfl, by decide, by decide⟩
  | regex => exact ⟨':', _, by simp; rfl, by decide, by decide⟩
  | oneOf => exact ⟨' ', _, by simp; rfl, by decide, by decide⟩
  | noneOf => exact ⟨' ', _, by simp; rfl, by decide, by decide⟩

/-- A filter starts with a word exactly if that is its key and it compares with a list. -/
theorem comesFirst_written {f : Filter} {operation : Operation} {word : String}
    (hcomplete : f.Complete) (hop : f.operation = some operation) (rest : List Char) :
    comesFirst word (f.written.toList ++ rest) =
      (sameLetters f.key.toList word.toList && operation.isList) := by
  obtain ⟨c, tail, htext, hkey, hends⟩ := written_eq_key_append hop
  rw [htext, List.append_assoc, List.cons_append,
    comesFirst_of_run _ hcomplete.keyChars (stops_cons.2 hkey)]
  simp [hends]

end Operands

end Filter

end MetricQuery
