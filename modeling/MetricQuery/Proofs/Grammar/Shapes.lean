import MetricQuery.Proofs.Grammar.Metrics

/-!
# The shape of filter lists that are read

A list that is read from a text alternates between operands and separators at every level, and
its conditions are complete but for lists of values, which may be empty.

* `BlockItem.conditionsOfAll`: the conditions of a list, those in parentheses included.
* `BlockItem.Listed`: the shape `NOT* X (S X)*`, where `X` is an operand and `S` a separator.
* `BodyLayout.listed`: the items of a readable layout have it, if they are no wildcard.
-/

namespace MetricQuery

open Text Grammar

/-- A condition with a key, values that are not empty, and a list of them exactly where the
comparator takes one. -/
structure Condition.Formed (c : Condition) : Prop where
  key_ne : c.key ≠ ""
  keyChars : ∀ ch ∈ c.key.toList, isKeyChar ch = true
  values : ∀ v ∈ c.comparand.texts, v ≠ ""
  form : c.comparator.Takes c.comparand

theorem Condition.Legible.formed {c : Condition} (h : c.Legible) : c.Formed :=
  ⟨h.key_ne, h.keyChars, fun v hv hempty => (h.values v hv).ne_nil (by simp [hempty]), h.form⟩

namespace BlockItem

/-! ## Conditions and shapes -/

mutual

/-- The conditions of an item, those in parentheses included. -/
def conditions : BlockItem → List Condition
  | .wildcard => []
  | .condition c => [c]
  | .grouped items => conditionsOfAll items
  | .separator _ => []

/-- The conditions of a list, in the order of the text. -/
def conditionsOfAll : List BlockItem → List Condition
  | [] => []
  | item :: rest => conditions item ++ conditionsOfAll rest

end

theorem conditionsOfAll_append (items more : List BlockItem) :
    conditionsOfAll (items ++ more) = conditionsOfAll items ++ conditionsOfAll more := by
  induction items with
  | nil => rfl
  | cons item rest ih =>
    rw [List.cons_append, conditionsOfAll, conditionsOfAll, ih, List.append_assoc]

mutual

/-- An operand `X`: a condition, or a list in parentheses. -/
inductive IsOperand : BlockItem → Prop where
  | condition {c : Condition} (hc : c.Formed) : IsOperand (.condition c)
  | grouped {items : List BlockItem} (hitems : Listed items) : IsOperand (.grouped items)

/-- A list `NOT* X (S X)*`. -/
inductive Listed : List BlockItem → Prop where
  | operand {item : BlockItem} {rest : List BlockItem} (hitem : IsOperand item)
      (hrest : Continues rest) : Listed (item :: rest)
  | negated {rest : List BlockItem} (hrest : Listed rest) : Listed (.separator .not :: rest)

/-- What follows an operand, `(S X)*`.  Behind a comma, `AND NOT` and `OR NOT` any number of
`NOT`s may stand, and behind `AND` and `OR` none. -/
inductive Continues : List BlockItem → Prop where
  | done : Continues []
  | separated {sep : Separator} {rest : List BlockItem}
      (hsep : sep = .comma ∨ sep = .andNot ∨ sep = .orNot) (hrest : Listed rest) :
      Continues (.separator sep :: rest)
  | joined {sep : Separator} {item : BlockItem} {rest : List BlockItem}
      (hsep : sep = .and ∨ sep = .or) (hitem : IsOperand item) (hrest : Continues rest) :
      Continues (.separator sep :: item :: rest)

end

mutual

theorem IsOperand.formed : ∀ {item : BlockItem}, IsOperand item → ∀ c ∈ item.conditions, c.Formed
  | _, .condition hc => List.forall_mem_singleton.2 hc
  | _, .grouped hitems => hitems.formed

/-- Every condition of a list that has the shape is complete. -/
theorem Listed.formed : ∀ {items : List BlockItem}, Listed items →
    ∀ c ∈ conditionsOfAll items, c.Formed
  | _, .operand hitem hrest => List.forall_mem_append.2 ⟨hitem.formed, hrest.formed⟩
  | _, .negated hrest => hrest.formed

theorem Continues.formed : ∀ {items : List BlockItem}, Continues items →
    ∀ c ∈ conditionsOfAll items, c.Formed
  | _, .done => by simp [conditionsOfAll]
  | _, .separated _ hrest => hrest.formed
  | .separator _ :: _, .joined _ hitem hrest => by
    rw [conditionsOfAll, conditions, List.nil_append]
    exact List.forall_mem_append.2 ⟨hitem.formed, hrest.formed⟩

end

/-- A list that does not start with a `NOT` starts with an operand. -/
theorem Listed.operand_of_ne {item : BlockItem} {rest : List BlockItem}
    (h : Listed (item :: rest)) (hne : item ≠ .separator .not) :
    IsOperand item ∧ Continues rest := by
  cases h with
  | operand hitem hrest => exact ⟨hitem, hrest⟩
  | negated => exact absurd rfl hne

end BlockItem

/-! ## Layouts -/

open BlockItem

/-- An operand that a `NOT` does not come first in is a single item. -/
theorem OperandLayout.items_eq_singleton {operand : OperandLayout} (h : operand.Readable)
    (hnot : comesFirst "NOT" operand.text = false) (start : Nat) :
    ∃ item, operand.items start = [item] ∧ item ≠ .separator .not := by
  cases operand with
  | condition => exact ⟨_, rfl, by simp⟩
  | grouped => exact ⟨_, rfl, by simp⟩
  | negated word gap operand =>
    obtain ⟨hword, -, hends, -⟩ := h
    rw [OperandLayout.text, comesFirst_of_run _ (isKeyChar_of_sameLetters isAlpha_not hword)
      (stops_of_endsKeyword hends), hword, hends] at hnot
    exact absurd hnot (by decide)

mutual

/-- The items of an operand go on with whatever may follow one. -/
theorem OperandLayout.listed : ∀ {operand : OperandLayout} (start : Nat) {rest : List BlockItem},
    operand.Readable → Continues rest → Listed (operand.items start ++ rest)
  | .condition _ _, _, _, h, hrest =>
    .operand (.condition ((ConditionSpelled.legible h.1).movedTo _).formed) hrest
  | .grouped _ _ _, _, _, h, hrest =>
    .operand (.grouped (OperandLayout.listed _ h.2.1 (TailLayout.continues _ h.2.2.1))) hrest
  | .negated _ _ _, _, _, h, hrest =>
    .negated (OperandLayout.listed _ h.2.2.2.2 hrest)

theorem TailLayout.continues : ∀ {tail : TailLayout} (start : Nat),
    tail.Readable → Continues (tail.items start)
  | .done _, _, _ => .done
  | .more joint operand others, start, h => by
    obtain ⟨hjoint, hoperand, hothers, -⟩ := h
    have hlisted := OperandLayout.listed (start + utf8Length joint.text) hoperand
      (TailLayout.continues (start + utf8Length joint.text + utf8Length operand.text) hothers)
    rw [TailLayout.items]
    cases joint with
    | comma gap space => exact .separated (.inl rfl) hlisted
    | joined junction gap word space =>
      obtain ⟨item, hitem, hne⟩ := operand.items_eq_singleton hoperand hjoint.2.2.2.2 _
      rw [hitem] at hlisted ⊢
      obtain ⟨hcore, hrest⟩ := hlisted.operand_of_ne hne
      exact .joined (by cases junction <;> simp [JointLayout.separator, Junction.separator])
        hcore hrest
    | joinedNot junction gap word between not space =>
      exact .separated (by cases junction <;> simp [JointLayout.separator, Junction.separator])
        hlisted

end

/-- A block is an asterisk, or a list of operands and separators. -/
theorem BodyLayout.listed {body : BodyLayout} (h : body.Readable) (start : Nat) :
    body.block start = [.wildcard] ∨ Listed (body.block start) := by
  cases body with
  | wildcard gap space => exact .inl rfl
  | items list =>
    exact .inr (OperandLayout.listed _ (ItemsLayout.Readable.first h)
      (TailLayout.continues _ (ItemsLayout.Readable.more h)))

/-- So is each filter list of an expression that is read from a text. -/
theorem listed_of_parse {text : String} {limits : Limits} {engine : PatternEngine} {expr : Expr}
    {term : MetricTerm} (h : parse text limits engine = .ok expr)
    (hterm : term ∈ expr.metricTerms) :
    term.block = [.wildcard] ∨ Listed term.block := by
  obtain ⟨pattern, -, -, gap, e, after, -, -, -, he, -, rfl⟩ := parse_eq_ok_iff.1 h
  rw [e.metricTerms_expr] at hterm
  obtain ⟨⟨m, start⟩, hplaced, rfl⟩ := List.mem_map.1 hterm
  exact BodyLayout.listed (ExprLayout.exists_text_of_mem_placed he hplaced).1.body _

end MetricQuery
