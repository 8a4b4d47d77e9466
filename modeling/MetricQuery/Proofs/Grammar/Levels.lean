import MetricQuery.Grammar.Expr

/-!
# Reading with fewer levels

Each reader of the grammar that takes levels of nesting does with fewer of them as it does with
more, or it stops because there are not enough: `StopsShort` says so of two results, and
`Shallower` of two readers.

* `StopsShort.bind`: what is put together from such results is such a result.
* `shallower_blockItems`, `shallower_expression` and `shallower_callArguments`: the recursive
  readers, by induction on the levels; one lemma for each reader that they are made of.
* `stopsShort_parse`: whole texts under limits.
-/

namespace MetricQuery.Grammar

/-- The first result is the second one, unless it lacks levels. -/
def StopsShort {α : Type} (few many : Except Failure α) : Prop :=
  few = .error .tooDeep ∨ few = many

/-- Wherever it starts, the first reader does as the second one, unless it lacks levels. -/
def Shallower {α : Type} (few many : Reader α) : Prop :=
  ∀ c, StopsShort (few c) (many c)

theorem StopsShort.refl {α : Type} (result : Except Failure α) : StopsShort result result :=
  .inr rfl

theorem StopsShort.bind {α β : Type} {few many : Except Failure α} {f g : α → Except Failure β}
    (h : StopsShort few many) (hnext : ∀ a, StopsShort (f a) (g a)) :
    StopsShort (few >>= f) (many >>= g) := by
  rcases h with rfl | rfl
  · exact .inl rfl
  · cases few with
    | error failure => exact .refl _
    | ok a => exact hnext a

/-! ## Lists with commas -/

section CommaLists

variable {α : Type} {few many : Reader α}

theorem shallower_moreItems (h : Shallower few many) (close : Char) (rounds : Nat) :
    Shallower (moreItems few close rounds) (moreItems many close rounds) := by
  induction rounds with
  | zero => exact fun c => .refl _
  | succ rounds ih =>
    intro c
    rw [moreItems, moreItems]
    split
    · exact .refl _
    · exact (h _).bind fun _ => (ih _).bind fun _ => .refl _

theorem shallower_commaList (h : Shallower few many) (close : Char) :
    Shallower (commaList few close) (commaList many close) :=
  fun _ => (h _).bind fun _ => (shallower_moreItems h close _ _).bind fun _ => .refl _

end CommaLists

/-! ## Filter lists -/

section Blocks

variable {few many : Reader (List BlockItem)}

theorem shallower_operand (h : Shallower few many) : Shallower (operand few) (operand many) := by
  intro c
  simp only [operand]
  split
  · exact (h _).bind fun _ => .refl _
  · exact .refl _

theorem shallower_moreOperands (h : Shallower few many) (close : Char) (rounds : Nat) :
    Shallower (moreOperands few close rounds) (moreOperands many close rounds) := by
  induction rounds with
  | zero => exact fun c => .refl _
  | succ rounds ih =>
    intro c
    simp only [moreOperands]
    split
    · exact .refl _
    · exact (StopsShort.refl _).bind fun _ => (shallower_operand h _).bind fun _ =>
        (ih _).bind fun _ => .refl _

theorem shallower_blockItems {less more : Nat} (hle : less ≤ more) (close : Char) :
    Shallower (blockItems less close) (blockItems more close) := by
  induction less generalizing more close with
  | zero => exact fun _ => .inl rfl
  | succ less ih =>
    obtain ⟨more, rfl⟩ : ∃ n, more = n + 1 := ⟨more - 1, by omega⟩
    have hnested := ih (Nat.le_of_succ_le_succ hle) ')'
    exact fun _ => (shallower_operand hnested _).bind fun _ =>
      (shallower_moreOperands hnested close _ _).bind fun _ => .refl _

theorem shallower_blockBody (h : Shallower few many) :
    Shallower (blockBody few) (blockBody many) := by
  intro c
  simp only [blockBody]
  split
  · exact .refl _
  · exact h _

/-! ## Terms -/

theorem shallower_metricTail (h : Shallower few many) (start : Nat)
    (aggregator window : Option String) (metric : String) :
    Shallower (metricTail few start aggregator window metric)
      (metricTail many start aggregator window metric) :=
  fun _ => (StopsShort.refl _).bind fun _ => (shallower_blockBody h _).bind fun _ => .refl _

theorem shallower_aggregated (h : Shallower few many) (start : Nat) (aggregator : List Char)
    (window : Option String) :
    Shallower (aggregated few start aggregator window)
      (aggregated many start aggregator window) := by
  intro c
  simp only [aggregated]
  split
  · exact .refl _
  · exact (StopsShort.refl _).bind fun _ => shallower_metricTail h _ _ _ _ _

end Blocks

theorem shallower_callTail {few many : Reader (List Expr)} (h : Shallower few many) (start : Nat)
    (name : List Char) : Shallower (callTail few start name) (callTail many start name) := by
  intro c
  simp only [callTail]
  split
  · exact .refl _
  · exact (StopsShort.refl _).bind fun _ => (h _).bind fun _ => .refl _

section Terms

variable {pattern : WindowPattern} {few many : Reader (List BlockItem)} {fewer more : Reader Expr}
  {fewArguments manyArguments : Reader (List Expr)}

theorem shallower_wordTerm (hitems : Shallower few many)
    (harguments : Shallower fewArguments manyArguments) (inArguments : Bool) :
    Shallower (wordTerm pattern few fewArguments inArguments)
      (wordTerm pattern many manyArguments inArguments) := by
  intro c
  simp only [wordTerm]
  split
  · exact .refl _
  · split
    · exact shallower_metricTail hitems _ _ _ _ _
    · split
      · exact shallower_aggregated hitems _ _ _ _
      · split
        · refine (StopsShort.refl _).bind fun window? => ?_
          cases window? with
          | none => exact shallower_callTail harguments _ _ _
          | some window => exact shallower_aggregated hitems _ _ _ _
        · exact .refl _

theorem shallower_parenthesised (h : Shallower fewer more) :
    Shallower (parenthesised fewer) (parenthesised more) :=
  fun _ => (StopsShort.refl _).bind fun _ => (h _).bind fun _ => .refl _

theorem shallower_term (hitems : Shallower few many) (hinner : Shallower fewer more)
    (harguments : Shallower fewArguments manyArguments) (inArguments : Bool) :
    Shallower (term pattern few fewer fewArguments inArguments)
      (term pattern many more manyArguments inArguments) := by
  intro c
  simp only [term]
  split
  · exact .refl _
  · split
    · exact shallower_parenthesised hinner _
    · split
      · exact .refl _
      · split
        · exact .refl _
        · split
          · exact shallower_wordTerm hitems harguments _ _
          · exact .refl _

/-! ## Expressions -/

theorem shallower_chainFrom (h : Shallower fewer more) (operator? : Char → Option Operator)
    (rounds : Nat) (left : Expr) :
    Shallower (chainFrom fewer operator? rounds left) (chainFrom more operator? rounds left) := by
  induction rounds generalizing left with
  | zero => exact fun _ => .refl _
  | succ rounds ih =>
    intro c
    simp only [chainFrom]
    split
    · exact .refl _
    · split
      · exact .refl _
      · exact (h _).bind fun _ => ih _ _

theorem shallower_chain (h : Shallower fewer more) (operator? : Char → Option Operator) :
    Shallower (chain fewer operator?) (chain more operator?) :=
  fun _ => (h _).bind fun _ => shallower_chainFrom h operator? _ _ _

theorem shallower_argumentList (h : Shallower fewer more) :
    Shallower (argumentList fewer) (argumentList more) := by
  intro c
  simp only [argumentList]
  split
  · exact .refl _
  · exact shallower_commaList h ')' _

end Terms

variable (pattern : WindowPattern)

mutual

theorem shallower_expression : ∀ {less more : Nat}, less ≤ more → ∀ inArguments : Bool,
    Shallower (expression pattern less inArguments) (expression pattern more inArguments)
  | 0, _, _, _ => by
    rw [expression]
    exact fun _ => .inl rfl
  | less + 1, 0, hle, _ => absurd hle (Nat.not_succ_le_zero less)
  | less + 1, more + 1, hle, inArguments => by
    have hle := Nat.le_of_succ_le_succ hle
    rw [expression, expression]
    exact shallower_chain (shallower_chain (shallower_term (shallower_blockItems hle _)
      (shallower_expression hle inArguments) (shallower_callArguments hle) inArguments) _) _

theorem shallower_callArguments : ∀ {less more : Nat}, less ≤ more →
    Shallower (callArguments pattern less) (callArguments pattern more)
  | 0, _, _ => by
    rw [callArguments]
    exact fun _ => .inl rfl
  | less + 1, 0, hle => absurd hle (Nat.not_succ_le_zero less)
  | less + 1, more + 1, hle => by
    rw [callArguments, callArguments]
    exact shallower_argumentList (shallower_expression (Nat.le_of_succ_le_succ hle) true)

end

theorem stopsShort_wholeExpression {less more : Nat} (hle : less ≤ more) (text : List Char) :
    StopsShort (wholeExpression pattern less text) (wholeExpression pattern more text) :=
  (shallower_expression pattern hle false _).bind fun _ => .refl _

end MetricQuery.Grammar
