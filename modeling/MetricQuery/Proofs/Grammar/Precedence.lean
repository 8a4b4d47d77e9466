import MetricQuery.Proofs.Grammar.Places

/-!
# Precedence of the operators

Factors are joined before summands, and operators of one rank are joined from the left.

* `Sequence`: operands with operators between them, in the order of the text.  `Sequence.runs`
  cuts one at its additive operators, and `Sequence.value` computes first each run and then what
  the runs are joined to, both from left to right.
* `Expr.operands` is the sequence that an expression joins, and `Expr.value` its value along the
  tree; `Expr.value_eq_of_binds` says that both values agree if every operator of the tree
  `Binds` its operands.
* `parse_precedence`: the result, for a text under limits.
-/

namespace MetricQuery

open Text Grammar

/-! ## Operators and operands -/

/-- Does the operator join summands? -/
def Operator.isAdditive : Operator → Bool
  | .add => true
  | .sub => true
  | .mul => false
  | .div => false

/-- The operator that an expression applies last, if it is not a single operand. -/
def Expr.operator? : Expr → Option Operator
  | .binary operator _ _ _ => some operator
  | _ => none

/-- A sum is joined to nothing but a sum, as its left operand; a product is not joined to the
right of a product. -/
structure Operator.Binds (operator : Operator) (left right : Expr) : Prop where
  left : ∀ inner, left.operator? = some inner → inner.isAdditive = true →
    operator.isAdditive = true
  right : ∀ inner, right.operator? = some inner →
    operator.isAdditive = true ∧ inner.isAdditive = false

namespace Operator.Binds

variable {operator : Operator} {left right : Expr}

theorem left_of_product (h : operator.Binds left right) (hoperator : operator.isAdditive = false) :
    ∀ inner, left.operator? = some inner → inner.isAdditive = false := by
  intro inner hinner
  cases hadditive : inner.isAdditive with
  | false => rfl
  | true => simpa [hoperator] using h.left inner hinner hadditive

theorem right_of_product (h : operator.Binds left right)
    (hoperator : operator.isAdditive = false) : right.operator? = none := by
  cases hinner : right.operator? with
  | none => rfl
  | some inner => simpa [hoperator] using (h.right inner hinner).1

end Operator.Binds

/-- From the first position to the second one the text has the operator, with nothing but blanks
around it. -/
def Operator.StandsBetween (text : List Char) (stop : Nat) (operator : Operator) (start : Nat) :
    Prop :=
  ∃ gap space, Blanks gap ∧ Blanks space ∧
    (Span.mk stop start).slice? text = some (gap ++ operator.symbol :: space)

/-! ## Sequences of operands -/

/-- Operands with an operator between each two of them. -/
structure Sequence (α : Type*) where
  first : α
  /-- The other operands, each with the operator in front of it. -/
  more : List (Operator × α)

namespace Sequence

variable {α β : Type*}

/-- A single operand. -/
def one (x : α) : Sequence α :=
  ⟨x, []⟩

/-- Two sequences with an operator between them. -/
def append (operator : Operator) (a b : Sequence α) : Sequence α :=
  ⟨a.first, a.more ++ (operator, b.first) :: b.more⟩

def map (f : α → β) (s : Sequence α) : Sequence β :=
  ⟨f s.first, s.more.map fun p => (p.1, f p.2)⟩

/-- The operators applied one after the other, from left to right. -/
def foldLeft (apply : Operator → α → α → α) (s : Sequence α) : α :=
  s.more.foldl (fun value p => apply p.1 value p.2) s.first

/-- The longest runs without an additive operator, and the additive operators between them. -/
def runsFrom : α → List (Operator × α) → Sequence (Sequence α)
  | x, [] => one (one x)
  | x, (operator, y) :: more =>
    let others := runsFrom y more
    if operator.isAdditive then append operator (one (one x)) others
    else ⟨append operator (one x) others.first, others.more⟩

def runs (s : Sequence α) : Sequence (Sequence α) :=
  runsFrom s.first s.more

/-- The value of a sequence: the products, each computed from left to right, are added and
subtracted from left to right. -/
def value (apply : Operator → α → α → α) (s : Sequence α) : α :=
  (s.runs.map (foldLeft apply)).foldLeft apply

/-- The sequence has no additive operator. -/
def IsProduct (s : Sequence α) : Prop :=
  ∀ p ∈ s.more, p.1.isAdditive = false

theorem map_append (f : α → β) (operator : Operator) (a b : Sequence α) :
    (append operator a b).map f = append operator (a.map f) (b.map f) := by
  simp [append, map]

theorem foldLeft_append_one (apply : Operator → α → α → α) (operator : Operator)
    (s : Sequence α) (x : α) :
    (append operator s (one x)).foldLeft apply = apply operator (s.foldLeft apply) x := by
  simp [append, one, foldLeft]

theorem IsProduct.map {s : Sequence α} (h : s.IsProduct) (f : α → β) : (s.map f).IsProduct := by
  intro p hp
  obtain ⟨q, hq, rfl⟩ := List.mem_map.1 hp
  exact h q hq

theorem IsProduct.append {operator : Operator} {a b : Sequence α} (ha : a.IsProduct)
    (hoperator : operator.isAdditive = false) (hb : b.IsProduct) :
    (append operator a b).IsProduct := by
  intro p hp
  rcases List.mem_append.1 hp with hp | hp
  · exact ha p hp
  · rcases List.mem_cons.1 hp with rfl | hp
    · exact hoperator
    · exact hb p hp

theorem isProduct_one (x : α) : (one x).IsProduct := by
  simp [IsProduct, one]

/-- A product is one run. -/
theorem IsProduct.runs_eq {s : Sequence α} (h : s.IsProduct) : s.runs = one s := by
  obtain ⟨first, more⟩ := s
  induction more generalizing first with
  | nil => rfl
  | cons p more ih =>
    have hp : p.1.isAdditive = false := h p List.mem_cons_self
    have hrest := ih p.2 fun q hq => h q (List.mem_cons_of_mem p hq)
    simp only [runs] at hrest
    simp [runs, runsFrom, hp, hrest, Sequence.append, one]

theorem IsProduct.value_eq {s : Sequence α} (h : s.IsProduct) (apply : Operator → α → α → α) :
    s.value apply = s.foldLeft apply := by
  rw [value, h.runs_eq]
  rfl

/-- An additive operator ends the last run of what stands in front of it. -/
theorem runs_append {operator : Operator} (h : operator.isAdditive = true) (a b : Sequence α) :
    (append operator a b).runs = append operator a.runs b.runs := by
  obtain ⟨first, more⟩ := a
  induction more generalizing first with
  | nil => simp [append, runs, runsFrom, h, one]
  | cons p more ih =>
    have hrest := ih p.2
    simp only [append, runs] at hrest
    cases hp : p.1.isAdditive <;>
      simp [append, runs, runsFrom, hp, hrest, one]

/-- What stands behind an additive operator is computed by itself up to the next one. -/
theorem value_append {operator : Operator} (h : operator.isAdditive = true) {a b : Sequence α}
    (hb : b.IsProduct) (apply : Operator → α → α → α) :
    (append operator a b).value apply = apply operator (a.value apply) (b.value apply) := by
  rw [value, runs_append h, hb.runs_eq, map_append, hb.value_eq]
  exact foldLeft_append_one apply operator _ _

/-- A further factor is joined to the product in front of it. -/
theorem value_append_one {operator : Operator} (h : operator.isAdditive = false) {s : Sequence α}
    (hs : s.IsProduct) (x : α) (apply : Operator → α → α → α) :
    (append operator s (one x)).value apply = apply operator (s.value apply) x := by
  have hwhole : (append operator s (one x)).IsProduct :=
    hs.append h (isProduct_one x)
  rw [hwhole.value_eq, hs.value_eq, foldLeft_append_one]

end Sequence

/-! ## Operands in a text -/

/-- The operand that no operator stands behind. -/
def lastFrom : Expr → List (Operator × Expr) → Expr
  | expr, [] => expr
  | _, p :: more => lastFrom p.2 more

/-- Behind the first operand the others stand in the text, in order and with their operators. -/
def SpelledFrom (text : List Char) : Expr → List (Operator × Expr) → Prop
  | _, [] => True
  | expr, p :: more =>
    p.1.StandsBetween text expr.span.stop p.2.span.start ∧ SpelledFrom text p.2 more

/-- The text under a span is the sequence: the operands stand in it from its start to its end, each
two of them with their operator between. -/
structure Sequence.Spelled (text : List Char) (span : Span) (s : Sequence Expr) : Prop where
  start : s.first.span.start = span.start
  stop : (lastFrom s.first s.more).span.stop = span.stop
  between : SpelledFrom text s.first s.more

theorem lastFrom_append (expr : Expr) (p : Operator × Expr) (more others : List (Operator × Expr)) :
    lastFrom expr (more ++ p :: others) = lastFrom p.2 others := by
  induction more generalizing expr with
  | nil => rfl
  | cons q more ih => exact ih q.2

theorem SpelledFrom.append {text : List Char} {operator : Operator} {expr right : Expr}
    {more others : List (Operator × Expr)} (h : SpelledFrom text expr more)
    (hoperator : operator.StandsBetween text (lastFrom expr more).span.stop right.span.start)
    (hothers : SpelledFrom text right others) :
    SpelledFrom text expr (more ++ (operator, right) :: others) := by
  induction more generalizing expr with
  | nil => exact ⟨hoperator, hothers⟩
  | cons p more ih => exact ⟨h.1, ih h.2 hoperator⟩

theorem Sequence.Spelled.append {text : List Char} {operator : Operator} {left right : Span}
    {a b : Sequence Expr} (ha : a.Spelled text left) (hb : b.Spelled text right)
    (hoperator : operator.StandsBetween text left.stop right.start) :
    (Sequence.append operator a b).Spelled text ⟨left.start, right.stop⟩ where
  start := ha.start
  stop := by
    rw [← hb.stop]
    exact congrArg (·.span.stop) (lastFrom_append a.first (operator, b.first) a.more b.more)
  between := by
    rw [← ha.stop, ← hb.start] at hoperator
    exact ha.between.append hoperator hb.between

/-! ## Values of expressions -/

namespace Expr

/-- The operands that an expression joins by operators, in the order of the text.  An operand is
no operator node; what is inside of it is not looked at. -/
def operands : Expr → Sequence Expr
  | .binary operator left right _ => .append operator left.operands right.operands
  | expr => .one expr

/-- The value of an expression along the tree, for given values of the operands. -/
def value {α : Type*} (leaf : Expr → α) (apply : Operator → α → α → α) : Expr → α
  | .binary operator left right _ =>
    apply operator (left.value leaf apply) (right.value leaf apply)
  | expr => leaf expr

theorem operands_of_operator? {expr : Expr} (h : expr.operator? = none) :
    expr.operands = .one expr := by
  cases expr with
  | binary => simp [operator?] at h
  | _ => rfl

theorem IsNode.trans {a b c : Expr} (hab : a.IsNode b) (hbc : b.IsNode c) : a.IsNode c := by
  induction hbc with
  | root => exact hab
  | child _ hpart ih => exact ih.child hpart

section Binary

variable {operator : Operator} {left right : Expr} {span : Span}

theorem isNode_left : (Expr.binary operator left right span).IsNode left :=
  IsNode.root.child List.mem_cons_self

theorem isNode_right : (Expr.binary operator left right span).IsNode right :=
  IsNode.root.child (List.mem_cons_of_mem _ List.mem_cons_self)

end Binary

/-- All operators of the expression bind their operands. -/
def Bound (expr : Expr) : Prop :=
  ∀ operator left right span, expr.IsNode (.binary operator left right span) →
    operator.Binds left right

theorem Bound.of_isNode {expr node : Expr} (h : expr.Bound) (hnode : expr.IsNode node) :
    node.Bound :=
  fun operator left right span hpart => h operator left right span (hnode.trans hpart)

/-- What is not a sum joins its operands without additive operators. -/
theorem Bound.isProduct {expr : Expr} (h : expr.Bound)
    (hlast : ∀ operator, expr.operator? = some operator → operator.isAdditive = false) :
    expr.operands.IsProduct := by
  fun_induction operands expr with
  | case1 operator left right span ihleft _ =>
    have hoperator := hlast operator rfl
    have hbinds := h operator left right span .root
    have hleft := ihleft (h.of_isNode isNode_left) (hbinds.left_of_product hoperator)
    rw [operands_of_operator? (hbinds.right_of_product hoperator)]
    exact hleft.append hoperator (Sequence.isProduct_one right)
  | case2 expr _ => exact Sequence.isProduct_one expr

/-- Along the tree an expression has the value of the sequence of its operands. -/
theorem Bound.value_eq {α : Type*} {expr : Expr} (h : expr.Bound) (leaf : Expr → α)
    (apply : Operator → α → α → α) :
    expr.value leaf apply = (expr.operands.map leaf).value apply := by
  fun_induction operands expr with
  | case1 operator left right span ihleft ihright =>
    have hbinds := h operator left right span .root
    have hleft := h.of_isNode isNode_left
    have hright := h.of_isNode isNode_right
    rw [value, ihleft hleft, ihright hright, Sequence.map_append]
    cases hoperator : operator.isAdditive with
    | true =>
      have hproduct := hright.isProduct fun inner hinner => (hbinds.right inner hinner).2
      rw [Sequence.value_append hoperator (hproduct.map leaf)]
    | false =>
      have hproduct := hleft.isProduct (hbinds.left_of_product hoperator)
      rw [operands_of_operator? (hbinds.right_of_product hoperator)]
      exact (Sequence.value_append_one hoperator (hproduct.map leaf) (leaf right) apply).symm
  | case2 expr hleaf =>
    cases expr with
    | binary operator left right span => exact absurd rfl (hleaf operator left right span)
    | _ => rfl

/-- The text has the operator of each operator node between the operands of the node, and the node
goes from the start of the left one to the end of the right one. -/
def Separated (text : List Char) (expr : Expr) : Prop :=
  ∀ operator left right span, expr.IsNode (.binary operator left right span) →
    operator.StandsBetween text left.span.stop right.span.start ∧
      span = ⟨left.span.start, right.span.stop⟩

/-- The operands of an expression are those of its text. -/
theorem Separated.spelled {text : List Char} {expr : Expr} (h : expr.Separated text) :
    expr.operands.Spelled text expr.span := by
  fun_induction operands expr with
  | case1 operator left right span ihleft ihright =>
    obtain ⟨hbetween, hspan⟩ := h operator left right span .root
    have hleft := ihleft fun _ _ _ _ hnode => h _ _ _ _ (isNode_left.trans hnode)
    have hright := ihright fun _ _ _ _ hnode => h _ _ _ _ (isNode_right.trans hnode)
    rw [Expr.span, hspan]
    exact hleft.append hright hbetween
  | case2 expr _ => exact ⟨rfl, rfl, trivial⟩

end Expr

/-! ## Expressions that are read -/

/-- The rank of a layout is that of the operator that its expression applies last. -/
theorem ExprLayout.rank_of_operator? {e : ExprLayout} {start : Nat} {operator : Operator}
    (h : (e.expr start).operator? = some operator) : e.rank = operator.rank := by
  cases e with
  | binary inner left gap space right =>
    obtain rfl : inner = operator := Option.some.inj h
    rfl
  | _ => simp [expr, Expr.operator?] at h

/-- The operators of a readable layout bind their operands. -/
theorem ExprLayout.binds_of_readable {pattern : WindowPattern} {operator : Operator}
    {left right : ExprLayout} {gap space : List Char} {inArguments : Bool}
    (h : (ExprLayout.binary operator left gap space right).Readable pattern inArguments)
    (start place : Nat) : operator.Binds (left.expr start) (right.expr place) := by
  obtain ⟨-, hleft, -, -, -, hright⟩ := h
  constructor
  · intro inner hinner hadditive
    rw [ExprLayout.rank_of_operator? hinner] at hleft
    cases operator <;> cases inner <;> simp_all [Operator.rank, Operator.isAdditive]
  · intro inner hinner
    rw [ExprLayout.rank_of_operator? hinner] at hright
    cases operator <;> cases inner <;> simp_all [Operator.rank, Operator.isAdditive]

/-- Between the operands of a layout that stands in the text stands the operator. -/
theorem ExprLayout.standsBetween {pattern : WindowPattern} {operator : Operator}
    {left right : ExprLayout} {gap space text : List Char} {inArguments : Bool} {place : Nat}
    (h : (ExprLayout.binary operator left gap space right).Readable pattern inArguments)
    (hpart : PartOf (ExprLayout.binary operator left gap space right).text text 0 place) :
    operator.StandsBetween text (place + utf8Length left.text)
      (place + utf8Length left.text + utf8Length gap + utf8Length [operator.symbol] +
        utf8Length space) := by
  obtain ⟨-, -, hgap, hspace, -, -⟩ := h
  have hinside : PartOf (gap ++ operator.symbol :: space)
      (ExprLayout.binary operator left gap space right).text place
        (place + utf8Length left.text) :=
    ⟨left.text, right.text, by simp [ExprLayout.text], rfl⟩
  have hslice := (hinside.trans hpart).slice?_eq
  refine ⟨gap, space, hgap, hspace, ?_⟩
  rw [← hslice]
  simp only [utf8Length_append, utf8Length, Nat.add_assoc, Nat.add_zero]

/-- What `parse` reads applies products before sums and operators of one rank from the left: the
operators bind their operands, they stand between them in the text, and so every expression in it
has the value of the sequence of operands and operators that its text is. -/
theorem parse_precedence {text : String} {limits : Limits} {engine : PatternEngine} {expr : Expr}
    (h : parse text limits engine = .ok expr) :
    (∀ operator left right span, expr.IsNode (.binary operator left right span) →
      operator.Binds left right ∧
        operator.StandsBetween text.toList left.span.stop right.span.start ∧
        span = ⟨left.span.start, right.span.stop⟩) ∧
      ∀ node, expr.IsNode node → node.operands.Spelled text.toList node.span ∧
        ∀ {α : Type*} (leaf : Expr → α) (apply : Operator → α → α → α),
          node.value leaf apply = (node.operands.map leaf).value apply := by
  obtain ⟨pattern, -, -, gap, e, after, -, -, htext, he, -, rfl⟩ := parse_eq_ok_iff.1 h
  have hwhole : PartOf e.text text.toList 0 (utf8Length gap) :=
    ⟨gap, after, htext, (Nat.zero_add _).symm⟩
  have hnodes : ∀ operator left right span,
      (e.expr (utf8Length gap)).IsNode (.binary operator left right span) →
      operator.Binds left right ∧
        operator.StandsBetween text.toList left.span.stop right.span.start ∧
        span = ⟨left.span.start, right.span.stop⟩ := by
    intro operator left right span hnode
    obtain ⟨part, inArguments, place, hpart, hreadable, hplace⟩ :=
      ExprLayout.exists_of_isNode he hnode
    cases part with
    | binary operator' left' gap' space' right' =>
      obtain ⟨rfl, rfl, rfl, rfl⟩ := Expr.binary.inj hpart
      refine ⟨ExprLayout.binds_of_readable hreadable _ _, ?_, rfl⟩
      simp only [ExprLayout.span_expr]
      exact ExprLayout.standsBetween hreadable (hplace.trans hwhole)
    | _ => simp [ExprLayout.expr] at hpart
  refine ⟨hnodes, fun node hnode => ⟨?_, fun leaf apply => ?_⟩⟩
  · exact Expr.Separated.spelled fun operator left right span hpart =>
      (hnodes operator left right span (hnode.trans hpart)).2
  · exact Expr.Bound.value_eq (fun operator left right span hpart =>
      (hnodes operator left right span (hnode.trans hpart)).1) leaf apply

/-- A minus sign in front of a number, a product of three factors, a sum in parentheses and a metric
query, in one expression. -/
theorem parse_precedence_mixed :
    let text := "8 - -4/2 *3-(1+2) * m\x7b*\x7d"
    let shown := fun e : Expr => String.ofList ((e.span.slice? text.toList).getD [])
    let joined := fun (operator : Operator) a b =>
      "[" ++ a ++ String.singleton operator.symbol ++ b ++ "]"
    ∃ expr, parse text = .ok expr ∧
      expr.value shown joined = "[[8-[[-4/2]*3]]-[(1+2)*m\x7b*\x7d]]" ∧
      (expr.operands.map shown).value joined = expr.value shown joined ∧
      expr.operands.Spelled text.toList expr.span := by
  intro text shown joined
  have hread : (parse text).toOption.map (fun expr => expr.value shown joined) =
      some "[[8-[[-4/2]*3]]-[(1+2)*m\x7b*\x7d]]" := by
    decide +kernel
  obtain ⟨expr, hexpr, hvalue⟩ := Option.map_eq_some_iff.1 hread
  have hparse : parse text = .ok expr := toOption_eq_some_iff.1 hexpr
  obtain ⟨hspelled, hsame⟩ := (parse_precedence hparse).2 expr .root
  exact ⟨expr, hparse, hvalue, (hsame shown joined).symm, hspelled⟩

end MetricQuery
