import MetricQuery.Proofs.Grammar.ExprExact
import MetricQuery.Proofs.Text.Splices

/-!
# The literals of an expression

An expression records the literals among its arguments and filter values.  This module takes an
expression apart into these literals and all the rest.

* `Expr.literals`: the recorded literals in the order of the text.
* `Expr.hollow`: the expression with its literals left empty and its places moved.
* `Expr.argumentSpans`: what stands behind the opening parentheses of the calls;
  `ExprLayout.calls_iff` says which of these texts decide that a layout is read as it is.
* `ExprLayout.hollow_expr`: an expression whose text is moved as a whole is the same, but for
  its places.
-/

namespace MetricQuery

open Text Grammar

/-! ## Taking expressions apart -/

/-- The span with its two ends moved. -/
def Span.map (move : Nat → Nat) (span : Span) : Span :=
  ⟨move span.start, move span.stop⟩

/-- A literal leaves an empty value, and any other value stays. -/
def hollowValue (value : String) : String :=
  if isLiteral value.toList then "" else value

namespace Comparand

/-- The literals among some values. -/
def literalsOf (values : List String) : List String :=
  values.filter fun value => isLiteral value.toList

def literals : Comparand → List String
  | .single value => literalsOf [value]
  | .list values => literalsOf values

def hollow : Comparand → Comparand
  | .single value => .single (hollowValue value)
  | .list values => .list (values.map hollowValue)

end Comparand

/-- The condition with its literals left empty and its span moved. -/
def Condition.hollow (move : Nat → Nat) (c : Condition) : Condition :=
  { c with comparand := c.comparand.hollow, span := c.span.map move }

namespace BlockItem

mutual

/-- The literals of an item, in the order of the text. -/
def literals : BlockItem → List String
  | .wildcard => []
  | .condition c => c.comparand.literals
  | .grouped items => literalsOfAll items
  | .separator _ => []

/-- The literals of some items. -/
def literalsOfAll : List BlockItem → List String
  | [] => []
  | item :: rest => literals item ++ literalsOfAll rest

end

mutual

/-- The item with its literals left empty and its places moved. -/
def hollow (move : Nat → Nat) : BlockItem → BlockItem
  | .wildcard => .wildcard
  | .condition c => .condition (c.hollow move)
  | .grouped items => .grouped (hollowAll move items)
  | .separator sep => .separator sep

/-- Some items with their literals left empty and their places moved. -/
def hollowAll (move : Nat → Nat) : List BlockItem → List BlockItem
  | [] => []
  | item :: rest => hollow move item :: hollowAll move rest

end

theorem literalsOfAll_append (a b : List BlockItem) :
    literalsOfAll (a ++ b) = literalsOfAll a ++ literalsOfAll b := by
  induction a with
  | nil => rfl
  | cons item a ih => simp [literalsOfAll, ih]

theorem hollowAll_append (move : Nat → Nat) (a b : List BlockItem) :
    hollowAll move (a ++ b) = hollowAll move a ++ hollowAll move b := by
  induction a with
  | nil => rfl
  | cons item a ih => simp [hollowAll, ih]

end BlockItem

/-- The metric query with its literals left empty and its places moved. -/
def MetricTerm.hollow (move : Nat → Nat) (term : MetricTerm) : MetricTerm :=
  { term with
    block := BlockItem.hollowAll move term.block
    blockSpan := term.blockSpan.map move
    span := term.span.map move }

namespace Expr

mutual

/-- The literals of an expression, in the order of the text. -/
def literals : Expr → List String
  | .metric term => BlockItem.literalsOfAll term.block
  | .number _ _ => []
  | .literal text _ => [text]
  | .word _ _ => []
  | .call _ arguments _ => literalsOfAll arguments
  | .binary _ left right _ => literals left ++ literals right
  | .paren inner _ => literals inner

/-- The literals of some expressions. -/
def literalsOfAll : List Expr → List String
  | [] => []
  | expr :: rest => literals expr ++ literalsOfAll rest

end

mutual

/-- The expression with its literals left empty and its places moved. -/
def hollow (move : Nat → Nat) : Expr → Expr
  | .metric term => .metric (term.hollow move)
  | .number text span => .number text (span.map move)
  | .literal _ span => .literal "" (span.map move)
  | .word name span => .word name (span.map move)
  | .call name arguments span => .call name (hollowAll move arguments) (span.map move)
  | .binary operator left right span =>
    .binary operator (hollow move left) (hollow move right) (span.map move)
  | .paren inner span => .paren (hollow move inner) (span.map move)

/-- Some expressions with their literals left empty and their places moved. -/
def hollowAll (move : Nat → Nat) : List Expr → List Expr
  | [] => []
  | expr :: rest => hollow move expr :: hollowAll move rest

end

mutual

/-- What stands behind the opening parentheses of the calls, with the closing ones. -/
def argumentSpans : Expr → List Span
  | .metric _ => []
  | .number _ _ => []
  | .literal _ _ => []
  | .word _ _ => []
  | .call name arguments span =>
    ⟨span.start + name.utf8ByteSize + 1, span.stop⟩ :: argumentSpansOfAll arguments
  | .binary _ left right _ => argumentSpans left ++ argumentSpans right
  | .paren inner _ => argumentSpans inner

/-- What stands behind the opening parentheses of the calls in some expressions. -/
def argumentSpansOfAll : List Expr → List Span
  | [] => []
  | expr :: rest => argumentSpans expr ++ argumentSpansOfAll rest

end

theorem span_hollow (move : Nat → Nat) (expr : Expr) :
    (expr.hollow move).span = expr.span.map move := by
  cases expr <;> rfl

theorem hollow_join (move : Nat → Nat) (operator : Operator) (left right : Expr) :
    (join operator left right).hollow move =
      join operator (left.hollow move) (right.hollow move) := by
  simp only [join, hollow, span_hollow]
  rfl

end Expr

/-! ## The literals of layouts -/

mutual

def OperandLayout.literals : OperandLayout → List String
  | .condition c _ => c.comparand.literals
  | .grouped _ first more => first.literals ++ more.literals
  | .negated _ _ operand => operand.literals

def TailLayout.literals : TailLayout → List String
  | .done _ => []
  | .more _ operand others => operand.literals ++ others.literals

end

def BodyLayout.literals : BodyLayout → List String
  | .wildcard _ _ => []
  | .items list => list.first.literals ++ list.more.literals

mutual

def ExprLayout.literals : ExprLayout → List String
  | .number _ => []
  | .literal text => [String.ofList text]
  | .word _ => []
  | .metric m => m.body.literals
  | .call _ arguments => arguments.literals
  | .paren _ inner _ => inner.literals
  | .binary _ left _ _ right => left.literals ++ right.literals

def ArgumentsLayout.literals : ArgumentsLayout → List String
  | .none _ => []
  | .last _ argument _ => argument.literals
  | .more _ argument _ others => argument.literals ++ others.literals

end

namespace BlockItem

mutual

theorem literalsOfAll_operand : ∀ (operand : OperandLayout) (start : Nat),
    literalsOfAll (operand.items start) = operand.literals
  | .condition c text, _ => by
    simp [OperandLayout.items, OperandLayout.literals, literalsOfAll, literals]
  | .grouped gap first more, _ => by
    simp [OperandLayout.items, OperandLayout.literals, literalsOfAll, literals,
      literalsOfAll_append, literalsOfAll_operand first, literalsOfAll_tail more]
  | .negated word gap operand, _ => by
    simp [OperandLayout.items, OperandLayout.literals, literalsOfAll, literals,
      literalsOfAll_operand operand]

theorem literalsOfAll_tail : ∀ (tail : TailLayout) (start : Nat),
    literalsOfAll (tail.items start) = tail.literals
  | .done _, _ => rfl
  | .more joint operand others, _ => by
    simp [TailLayout.items, TailLayout.literals, literalsOfAll, literals,
      literalsOfAll_append, literalsOfAll_operand operand, literalsOfAll_tail others]

end

theorem literalsOfAll_body (body : BodyLayout) (start : Nat) :
    literalsOfAll (body.block start) = body.literals := by
  cases body with
  | wildcard gap space => rfl
  | items list =>
    rw [BodyLayout.block, ItemsLayout.items, literalsOfAll_append, literalsOfAll_operand,
      literalsOfAll_tail, BodyLayout.literals]

end BlockItem

mutual

/-- The literals of an expression are those of its layout. -/
theorem ExprLayout.literals_expr : ∀ (e : ExprLayout) (start : Nat),
    (e.expr start).literals = e.literals
  | .number _, _ => rfl
  | .literal _, _ => rfl
  | .word _, _ => rfl
  | .metric m, _ => BlockItem.literalsOfAll_body m.body _
  | .call _ arguments, _ => arguments.literalsOfAll_exprs _
  | .paren _ inner _, _ => inner.literals_expr _
  | .binary _ left _ _ right, _ => by
    rw [ExprLayout.expr, Expr.join, Expr.literals, left.literals_expr, right.literals_expr,
      ExprLayout.literals]

theorem ArgumentsLayout.literalsOfAll_exprs : ∀ (arguments : ArgumentsLayout) (start : Nat),
    Expr.literalsOfAll (arguments.exprs start) = arguments.literals
  | .none _, _ => rfl
  | .last _ argument _, _ => by
    rw [ArgumentsLayout.exprs, Expr.literalsOfAll, argument.literals_expr, Expr.literalsOfAll,
      List.append_nil, ArgumentsLayout.literals]
  | .more _ argument _ others, _ => by
    rw [ArgumentsLayout.exprs, Expr.literalsOfAll, argument.literals_expr,
      others.literalsOfAll_exprs, ArgumentsLayout.literals]

end

/-! ## Moved texts -/

/-- From byte `a` on, `len` bytes are moved to byte `b` as a whole. -/
def Moves (move : Nat → Nat) (a b len : Nat) : Prop :=
  ∀ k ≤ len, move (a + k) = b + k

section Moves

variable {move : Nat → Nat} {a b len : Nat}

theorem Moves.part (h : Moves move a b len) (skip : Nat) {n : Nat} (hn : skip + n ≤ len) :
    Moves move (a + skip) (b + skip) n := by
  intro k hk
  rw [Nat.add_assoc, Nat.add_assoc, h (skip + k) (by omega)]

theorem Moves.span (h : Moves move a b len) {n : Nat} (hn : n ≤ len) :
    (Span.mk a (a + n)).map move = ⟨b, b + n⟩ := by
  rw [Span.map, h n hn]
  exact congrArg (Span.mk · (b + n)) (h 0 (Nat.zero_le _))

end Moves

theorem Span.map_id (span : Span) : span.map id = span :=
  rfl

namespace BlockItem

variable {move : Nat → Nat}

mutual

theorem hollowAll_operand : ∀ (operand : OperandLayout) {a b : Nat},
    Moves move a b (utf8Length operand.text) →
    hollowAll id (operand.items b) = hollowAll move (operand.items a)
  | .condition c text, a, b, h => by
    have hspan : (Span.mk a (a + utf8Length text)).map move = _ := h.span (Nat.le_refl _)
    simp only [OperandLayout.items, hollowAll, hollow, Condition.hollow, Condition.movedTo,
      hspan, Span.map_id]
  | .grouped gap first more, a, b, h => by
    have hfirst := hollowAll_operand first (h.part (utf8Length ['('] + utf8Length gap) (by
      simp only [OperandLayout.text, utf8Length, utf8Length_append]; omega))
    have hmore := hollowAll_tail more
      (h.part (utf8Length ['('] + utf8Length gap + utf8Length first.text) (by
        simp only [OperandLayout.text, utf8Length, utf8Length_append]; omega))
    simp only [← Nat.add_assoc] at hfirst hmore
    simp only [OperandLayout.items, hollowAll, hollow, hollowAll_append, hfirst, hmore]
  | .negated word gap operand, a, b, h => by
    have hoperand := hollowAll_operand operand (h.part (utf8Length word + utf8Length gap) (by
      simp only [OperandLayout.text, utf8Length_append]; omega))
    simp only [← Nat.add_assoc] at hoperand
    simp only [OperandLayout.items, hollowAll, hollow, hoperand]

theorem hollowAll_tail : ∀ (tail : TailLayout) {a b : Nat},
    Moves move a b (utf8Length tail.text) →
    hollowAll id (tail.items b) = hollowAll move (tail.items a)
  | .done _, _, _, _ => rfl
  | .more joint operand others, a, b, h => by
    have hoperand := hollowAll_operand operand (h.part (utf8Length joint.text) (by
      simp only [TailLayout.text, utf8Length_append]; omega))
    have hothers := hollowAll_tail others
      (h.part (utf8Length joint.text + utf8Length operand.text) (by
        simp only [TailLayout.text, utf8Length_append]; omega))
    simp only [← Nat.add_assoc] at hothers
    simp only [TailLayout.items, hollowAll, hollow, hollowAll_append, hoperand, hothers]

end

theorem hollowAll_body (body : BodyLayout) {a b : Nat}
    (h : Moves move a b (utf8Length body.text)) :
    hollowAll id (body.block b) = hollowAll move (body.block a) := by
  cases body with
  | wildcard gap space => rfl
  | items list =>
    have hfirst := hollowAll_operand list.first (h.part (utf8Length list.gap) (by
      simp only [BodyLayout.text, ItemsLayout.text, utf8Length_append]; omega))
    have hmore := hollowAll_tail list.more
      (h.part (utf8Length list.gap + utf8Length list.first.text) (by
        simp only [BodyLayout.text, ItemsLayout.text, utf8Length_append]; omega))
    simp only [← Nat.add_assoc] at hmore
    simp only [BodyLayout.block, ItemsLayout.items, hollowAll_append, hfirst, hmore]

end BlockItem

section Moves

variable {move : Nat → Nat}

theorem MetricLayout.hollow_term (m : MetricLayout) {a b : Nat}
    (h : Moves move a b (utf8Length m.text)) :
    (m.term b).hollow id = (m.term a).hollow move := by
  have hbody := h.part (utf8Length m.front + utf8Length ['\x7b'])
    (n := utf8Length m.body.text) (by simp only [text, utf8Length, utf8Length_append]; omega)
  simp only [← Nat.add_assoc] at hbody
  have hblock := BlockItem.hollowAll_body m.body hbody
  have hblockSpan := hbody.span (Nat.le_refl _)
  have hspan := h.span (Nat.le_refl _)
  simp only [MetricTerm.hollow, term, opened, hblock, hblockSpan, hspan, Span.map_id]

mutual

/-- An expression that is moved as a whole is the same, but for its places. -/
theorem ExprLayout.hollow_expr : ∀ (e : ExprLayout) {a b : Nat},
    Moves move a b (utf8Length e.text) → (e.expr b).hollow id = (e.expr a).hollow move
  | .number text, a, b, h => by
    have hspan : (Span.mk a (a + utf8Length text)).map move = _ := h.span (Nat.le_refl _)
    simp only [ExprLayout.expr, Expr.hollow, hspan, Span.map_id]
  | .literal text, a, b, h => by
    have hspan : (Span.mk a (a + utf8Length text)).map move = _ := h.span (Nat.le_refl _)
    simp only [ExprLayout.expr, Expr.hollow, hspan, Span.map_id]
  | .word name, a, b, h => by
    have hspan : (Span.mk a (a + utf8Length name)).map move = _ := h.span (Nat.le_refl _)
    simp only [ExprLayout.expr, Expr.hollow, hspan, Span.map_id]
  | .metric m, a, b, h => by
    simp only [ExprLayout.expr, Expr.hollow, m.hollow_term h]
  | .call name arguments, a, b, h => by
    have hspan := h.span (Nat.le_refl _)
    have harguments := arguments.hollowAll_exprs (h.part (utf8Length name + utf8Length ['('])
      (by simp only [ExprLayout.text, utf8Length, utf8Length_append]; omega))
    simp only [ExprLayout.text, utf8Length_append, utf8Length, ← Nat.add_assoc, Nat.add_zero]
      at hspan harguments
    simp only [ExprLayout.expr, Expr.hollow, utf8Length, Nat.add_zero, hspan, harguments,
      Span.map_id]
  | .paren gap inner space, a, b, h => by
    have hspan := h.span (Nat.le_refl _)
    have hinner := inner.hollow_expr (h.part (utf8Length ['('] + utf8Length gap)
      (by simp only [ExprLayout.text, utf8Length, utf8Length_append]; omega))
    simp only [ExprLayout.text, utf8Length_append, utf8Length, ← Nat.add_assoc, Nat.add_zero]
      at hspan hinner
    simp only [ExprLayout.expr, Expr.hollow, utf8Length, Nat.add_zero, hspan, hinner,
      Span.map_id]
  | .binary operator left gap space right, a, b, h => by
    have hleft := left.hollow_expr (h.part 0
      (by simp only [ExprLayout.text, utf8Length_append]; omega))
    have hright := right.hollow_expr
      (h.part (utf8Length left.text + utf8Length gap + utf8Length [operator.symbol] +
        utf8Length space)
        (by simp only [ExprLayout.text, utf8Length, utf8Length_append]; omega))
    simp only [← Nat.add_assoc] at hright
    simp only [ExprLayout.expr, Expr.hollow_join, hright]
    exact congrArg (Expr.join operator · _) hleft

theorem ArgumentsLayout.hollowAll_exprs : ∀ (arguments : ArgumentsLayout) {a b : Nat},
    Moves move a b (utf8Length arguments.text) →
    Expr.hollowAll id (arguments.exprs b) = Expr.hollowAll move (arguments.exprs a)
  | .none _, _, _, _ => rfl
  | .last gap argument space, a, b, h => by
    have hargument := argument.hollow_expr (h.part (utf8Length gap)
      (by simp only [ArgumentsLayout.text, utf8Length_append]; omega))
    simp only [ArgumentsLayout.exprs, Expr.hollowAll, hargument]
  | .more gap argument space others, a, b, h => by
    have hargument := argument.hollow_expr (h.part (utf8Length gap)
      (by simp only [ArgumentsLayout.text, utf8Length_append]; omega))
    have hothers := others.hollowAll_exprs
      (h.part (utf8Length gap + utf8Length argument.text + utf8Length space + utf8Length [','])
        (by simp only [ArgumentsLayout.text, utf8Length, utf8Length_append]; omega))
    simp only [← Nat.add_assoc] at hothers
    simp only [ArgumentsLayout.exprs, Expr.hollowAll, hargument, hothers]

end

end Moves

/-! ## Calls -/

mutual

/-- No call of the expression would be taken for a window. -/
def ExprLayout.Calls : ExprLayout → Prop
  | .number _ => True
  | .literal _ => True
  | .word _ => True
  | .metric _ => True
  | .call _ arguments => opensWindow arguments.text = false ∧ arguments.Calls
  | .paren _ inner _ => inner.Calls
  | .binary _ left _ _ right => left.Calls ∧ right.Calls

/-- No call in the arguments would be taken for a window. -/
def ArgumentsLayout.Calls : ArgumentsLayout → Prop
  | .none _ => True
  | .last _ argument _ => argument.Calls
  | .more _ argument _ others => argument.Calls ∧ others.Calls

end

mutual

theorem ExprLayout.calls_of_readable {pattern : WindowPattern} :
    ∀ (e : ExprLayout) {inArguments : Bool}, e.Readable pattern inArguments → e.Calls
  | .number _, _, _ => trivial
  | .literal _, _, _ => trivial
  | .word _, _, _ => trivial
  | .metric _, _, _ => trivial
  | .call _ arguments, _, h => ⟨h.2.2, arguments.calls_of_readable h.2.1⟩
  | .paren _ inner _, _, h => inner.calls_of_readable h.2.1
  | .binary _ left _ _ right, _, h =>
    ⟨left.calls_of_readable h.1, right.calls_of_readable h.2.2.2.2.1⟩

theorem ArgumentsLayout.calls_of_readable {pattern : WindowPattern} :
    ∀ (arguments : ArgumentsLayout), arguments.Readable pattern → arguments.Calls
  | .none _, _ => trivial
  | .last _ argument _, h => argument.calls_of_readable h.2.1
  | .more _ argument _ others, h =>
    ⟨argument.calls_of_readable h.2.1, others.calls_of_readable h.2.2.2.2⟩

end

/-- In none of the places of the text does a window open. -/
def NoWindow (text : List Char) (spans : List Span) : Prop :=
  ∀ span ∈ spans, (span.slice? text).any opensWindow = false

instance (text : List Char) (spans : List Span) : Decidable (NoWindow text spans) :=
  inferInstanceAs (Decidable (∀ span ∈ spans, _))

theorem noWindow_append {text : List Char} {spans more : List Span} :
    NoWindow text (spans ++ more) ↔ NoWindow text spans ∧ NoWindow text more := by
  simp [NoWindow, or_imp, forall_and]

theorem noWindow_nil (text : List Char) : NoWindow text [] := by
  simp [NoWindow]

theorem noWindow_cons {text : List Char} {span : Span} {spans : List Span} :
    NoWindow text (span :: spans) ↔
      (span.slice? text).any opensWindow = false ∧ NoWindow text spans := by
  simp [NoWindow]

mutual

/-- The texts behind the opening parentheses of the calls open no windows. -/
theorem ExprLayout.calls_iff : ∀ (e : ExprLayout) (front behind : List Char),
    e.Calls ↔ NoWindow (front ++ (e.text ++ behind)) (e.expr (utf8Length front)).argumentSpans
  | .number _, _, _ => iff_of_true trivial (noWindow_nil _)
  | .literal _, _, _ => iff_of_true trivial (noWindow_nil _)
  | .word _, _, _ => iff_of_true trivial (noWindow_nil _)
  | .metric _, _, _ => iff_of_true trivial (noWindow_nil _)
  | .call name arguments, front, behind => by
    have hinside := arguments.calls_iff (front ++ (name ++ ['('])) behind
    have hslice := Span.slice?_append (front ++ (name ++ ['('])) arguments.text behind
    have hsize : '('.utf8Size = 1 := rfl
    simp only [utf8Length_append, utf8Length, List.append_assoc, List.cons_append,
      List.nil_append, Nat.add_zero, ← Nat.add_assoc, hsize] at hinside hslice
    simp only [ExprLayout.Calls, ExprLayout.expr, ExprLayout.text, Expr.argumentSpans,
      noWindow_cons, utf8Length, utf8ByteSize_eq, String.toList_ofList, Nat.add_zero,
      List.append_assoc, List.cons_append, hsize, hinside, hslice, Option.any_some]
  | .paren gap inner space, front, behind => by
    have hinner := inner.calls_iff (front ++ ('(' :: gap)) (space ++ (')' :: behind))
    simpa [ExprLayout.Calls, ExprLayout.expr, ExprLayout.text, Expr.argumentSpans, utf8Length,
      Nat.add_assoc] using hinner
  | .binary operator left gap space right, front, behind => by
    have hleft := left.calls_iff front (gap ++ operator.symbol :: (space ++ (right.text ++ behind)))
    have hright :=
      right.calls_iff (front ++ (left.text ++ (gap ++ operator.symbol :: space))) behind
    simp only [List.append_assoc, List.cons_append, utf8Length_append, utf8Length,
      ← Nat.add_assoc] at hright
    simp only [ExprLayout.Calls, ExprLayout.expr, ExprLayout.text, Expr.join, Expr.argumentSpans,
      noWindow_append, utf8Length, Nat.add_zero, List.append_assoc, List.cons_append, hleft,
      hright]

theorem ArgumentsLayout.calls_iff : ∀ (arguments : ArgumentsLayout) (front behind : List Char),
    arguments.Calls ↔ NoWindow (front ++ (arguments.text ++ behind))
      (Expr.argumentSpansOfAll (arguments.exprs (utf8Length front)))
  | .none _, _, _ => iff_of_true trivial (noWindow_nil _)
  | .last gap argument space, front, behind => by
    have hargument := argument.calls_iff (front ++ gap) (space ++ (')' :: behind))
    simpa [ArgumentsLayout.Calls, ArgumentsLayout.exprs, ArgumentsLayout.text,
      Expr.argumentSpansOfAll] using hargument
  | .more gap argument space others, front, behind => by
    have hargument := argument.calls_iff (front ++ gap) (space ++ ',' :: (others.text ++ behind))
    have hothers := others.calls_iff (front ++ (gap ++ (argument.text ++ (space ++ [','])))) behind
    simp only [List.append_assoc, List.cons_append, List.nil_append, utf8Length_append, utf8Length,
      Nat.add_zero, ← Nat.add_assoc] at hargument hothers
    simp only [ArgumentsLayout.Calls, ArgumentsLayout.exprs, ArgumentsLayout.text,
      Expr.argumentSpansOfAll, noWindow_append, utf8Length, Nat.add_zero, List.append_assoc,
      List.cons_append, hargument, hothers]

end

end MetricQuery
