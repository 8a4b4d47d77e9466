import MetricQuery.Grammar.Block
import MetricQuery.FilterTree.Basic
import MetricQuery.Proofs.Grammar.Reads

/-!
# Written filter lists

How a list of block items may be written, with keywords in any case and with any blanks
where blanks may stand.

The relations follow the readers of `Grammar.Block` one by one: `ComparisonSpelled` and
`ConditionSpelled` for conditions, `OperandSpelled` for an operand with its `NOT`s,
`JointSpelled` and `TailSpelled` for what follows it, `ListSpelled` for a list that nests so
many levels.
Two side conditions keep a word from being read as something else:

* a `NOT` of its own may not stand in front of an operand that starts with the word `IN`,
  since it would be the key of a condition;
* `AND` or `OR` may not stand in front of one that starts with the word `NOT`, which
  would be taken as part of the separator.

That such a text is read as the list follows from its layout, which `hasLayouts_listSpelled`
gives.  The positions that conditions carry are not part of what is written, so all of this is
about items up to `BlockItem.unplaced`.
-/

namespace MetricQuery

/-! ## Items without positions -/

/-- The condition without the place it was read from. -/
def Condition.unplaced (condition : Condition) : Condition :=
  { condition with span := ⟨0, 0⟩ }

namespace BlockItem

mutual

/-- The item without the places its conditions were read from. -/
def unplaced : BlockItem → BlockItem
  | .wildcard => .wildcard
  | .condition c => .condition c.unplaced
  | .grouped items => .grouped (unplacedAll items)
  | .separator sep => .separator sep

/-- Some items without the places their conditions were read from. -/
def unplacedAll : List BlockItem → List BlockItem
  | [] => []
  | item :: rest => unplaced item :: unplacedAll rest

end

theorem unplacedAll_append (a b : List BlockItem) :
    unplacedAll (a ++ b) = unplacedAll a ++ unplacedAll b := by
  induction a with
  | nil => rfl
  | cons item a ih => simp [unplacedAll, ih]

/-- The same items, but for positions. -/
def Agree (a b : List BlockItem) : Prop :=
  unplacedAll a = unplacedAll b

theorem Agree.refl (a : List BlockItem) : Agree a a := by
  rfl

theorem Agree.trans {a b c : List BlockItem} (hab : Agree a b) (hbc : Agree b c) : Agree a c :=
  Eq.trans hab hbc

theorem Agree.append {a b c d : List BlockItem} (hab : Agree a b) (hcd : Agree c d) :
    Agree (a ++ c) (b ++ d) := by
  unfold Agree at *
  rw [unplacedAll_append, unplacedAll_append, hab, hcd]

theorem Agree.grouped {a b : List BlockItem} (h : Agree a b) :
    Agree [.grouped a] [.grouped b] := by
  unfold Agree at *
  simp [unplacedAll, unplaced, h]

theorem Agree.condition {a b : Condition} (h : a.unplaced = b.unplaced) :
    Agree [.condition a] [.condition b] := by
  simp [Agree, unplacedAll, unplaced, h]

open Text in
/-- The key of the condition would be read as a `NOT` of its own: another `NOT`, and not
`IN`, stands behind it. -/
def LooksNegated : BlockItem → Prop
  | .condition c =>
    c.negative = false ∧ sameLetters c.key.toList "NOT".toList = true ∧ c.comparator = .noneOf
  | _ => False

end BlockItem

/-- Is the text of a single value a run of characters, which goes on up to what stops it? -/
def Comparand.endsBare : Comparand → Bool
  | .single value => !Text.isLiteral value.toList
  | .list _ => false

/-- The separator that joins operands by this word, with or without a `NOT`. -/
def Junction.separator : Junction → Bool → Separator
  | .and, false => .and
  | .and, true => .andNot
  | .or, false => .or
  | .or, true => .orNot

namespace Grammar

open Text BlockItem

/-! ## Written forms -/

/-- A value is written as it is. -/
def ValueSpelled (v : String) (text : List Char) : Prop :=
  text = v.toList ∧ IsToken text

/-- Values in parentheses. -/
inductive ValuesSpelled : List String → List Char → Prop where
  | none {gap : List Char} (hgap : Blanks gap) : ValuesSpelled [] ('(' :: (gap ++ [')']))
  | some {gap text more : List Char} {v : String} {vs : List String} (hgap : Blanks gap)
      (hvalue : ValueSpelled v text) (hmore : MoreSpelled ValueSpelled ')' vs more) :
      ValuesSpelled (v :: vs) ('(' :: (gap ++ (text ++ more)))

/-- What follows the key of a condition. -/
inductive ComparisonSpelled : Comparator → Comparand → List Char → Prop where
  | colon {v : String} {text : List Char} (hvalue : ValueSpelled v text)
      (htilde : text.head? ≠ some '~') : ComparisonSpelled .colon (.single v) (':' :: text)
  | notColon {v : String} {text : List Char} (hvalue : ValueSpelled v text) :
      ComparisonSpelled .notColon (.single v) ('!' :: ':' :: text)
  | regex {v : String} {text : List Char} (hvalue : ValueSpelled v text) :
      ComparisonSpelled .regex (.single v) (':' :: '~' :: text)
  | oneOf {gap word space text : List Char} {vs : List String} (hgap : Blanks gap)
      (hne : gap ≠ []) (hword : sameLetters word "IN".toList = true) (hspace : Blanks space)
      (hvalues : ValuesSpelled vs text) :
      ComparisonSpelled .oneOf (.list vs) (gap ++ (word ++ (space ++ text)))
  | noneOf {gap not between word space text : List Char} {vs : List String}
      (hgap : Blanks gap) (hne : gap ≠ []) (hnot : sameLetters not "NOT".toList = true)
      (hbetween : Blanks between) (hbetweenNe : between ≠ [])
      (hword : sameLetters word "IN".toList = true) (hspace : Blanks space)
      (hvalues : ValuesSpelled vs text) :
      ComparisonSpelled .noneOf (.list vs)
        (gap ++ (not ++ (between ++ (word ++ (space ++ text)))))

/-- A condition: an exclamation mark if it is negative, the key and the comparison. -/
def ConditionSpelled (condition : Condition) (text : List Char) : Prop :=
  condition.key ≠ "" ∧ (∀ c ∈ condition.key.toList, isKeyChar c = true) ∧
    ∃ comparison, ComparisonSpelled condition.comparator condition.comparand comparison ∧
      text = (if condition.negative then ['!'] else []) ++
        (condition.key.toList ++ comparison)

/-- An operand without the `NOT`s in front of it. -/
inductive CoreSpelled (Nested : List BlockItem → List Char → Prop) :
    BlockItem → List Char → Prop where
  | condition {condition : Condition} {text : List Char}
      (hcondition : ConditionSpelled condition text) :
      CoreSpelled Nested (.condition condition) text
  | grouped {items : List BlockItem} {text : List Char} (hitems : Nested items text) :
      CoreSpelled Nested (.grouped items) ('(' :: (text ++ [')']))

/-- An operand with the `NOT`s in front of it. -/
inductive OperandSpelled (Nested : List BlockItem → List Char → Prop) :
    List BlockItem → List Char → Prop where
  | core {item : BlockItem} {text : List Char} (hcore : CoreSpelled Nested item text)
      (hplain : ¬ item.LooksNegated) : OperandSpelled Nested [item] text
  | negated {word gap text : List Char} {items : List BlockItem}
      (hword : sameLetters word "NOT".toList = true) (hgap : Blanks gap)
      (hends : (gap ++ text).head?.any endsKeyword = true)
      (hin : comesFirst "IN" text = false) (hoperand : OperandSpelled Nested items text) :
      OperandSpelled Nested (.separator .not :: items) (word ++ (gap ++ text))

/-- An operand behind another one, with what separates them. -/
inductive JointSpelled (Nested : List BlockItem → List Char → Prop) :
    List BlockItem → List Char → Prop where
  | comma {gap space text : List Char} {items : List BlockItem} (hgap : Blanks gap)
      (hspace : Blanks space) (hoperand : OperandSpelled Nested items text) :
      JointSpelled Nested (.separator .comma :: items) (gap ++ (',' :: (space ++ text)))
  | joined {gap word space text : List Char} {items : List BlockItem} (junction : Junction)
      (hgap : Blanks gap) (hne : gap ≠ [])
      (hword : sameLetters word junction.word.toList = true) (hspace : Blanks space)
      (hends : (space ++ text).head?.any endsKeyword = true)
      (hnot : comesFirst "NOT" text = false) (hoperand : OperandSpelled Nested items text) :
      JointSpelled Nested (.separator (junction.separator false) :: items)
        (gap ++ (word ++ (space ++ text)))
  | joinedNot {gap word between not space text : List Char} {items : List BlockItem}
      (junction : Junction) (hgap : Blanks gap) (hne : gap ≠ [])
      (hword : sameLetters word junction.word.toList = true) (hbetween : Blanks between)
      (hbetweenNe : between ≠ []) (hnot : sameLetters not "NOT".toList = true)
      (hspace : Blanks space) (hends : (space ++ text).head?.any endsKeyword = true)
      (hoperand : OperandSpelled Nested items text) :
      JointSpelled Nested (.separator (junction.separator true) :: items)
        (gap ++ (word ++ (between ++ (not ++ (space ++ text)))))

/-- What follows an operand, up to the closing character. -/
inductive TailSpelled (Nested : List BlockItem → List Char → Prop) :
    List BlockItem → List Char → Prop where
  | done {gap : List Char} (hgap : Blanks gap) : TailSpelled Nested [] gap
  | more {items others : List BlockItem} {text more : List Char}
      (hjoint : JointSpelled Nested items text) (hmore : TailSpelled Nested others more) :
      TailSpelled Nested (items ++ others) (text ++ more)

/-- A list that takes at most so many levels, its own one included. -/
def ListSpelled : Nat → List BlockItem → List Char → Prop
  | 0, _, _ => False
  | levels + 1, items, text =>
    ∃ gap first firstText others more, Blanks gap ∧
      OperandSpelled (ListSpelled levels) first firstText ∧
      TailSpelled (ListSpelled levels) others more ∧
      items = first ++ others ∧ text = gap ++ (firstText ++ more)

end Grammar

end MetricQuery
