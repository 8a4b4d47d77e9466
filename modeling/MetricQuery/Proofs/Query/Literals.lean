import MetricQuery.Proofs.Grammar.OtherLiteral

/-!
# Texts with another literal

What stands between the quotation marks of a literal is nothing to the grammar, but for one
thing: whether a parenthesis behind a name opens a window is decided by the next parenthesis,
and that may stand in a literal.  `parse_other_literal_iff` says that nothing else can go wrong
if a literal makes room for another one.
-/

namespace MetricQuery

open Text Grammar

mutual

/-- The places of the arguments are left by an expression without its literals. -/
theorem Expr.argumentSpans_hollow_id : ∀ expr : Expr,
    (expr.hollow id).argumentSpans = expr.argumentSpans
  | .metric _ => rfl
  | .number _ _ => rfl
  | .literal _ _ => rfl
  | .word _ _ => rfl
  | .call name arguments span => by
    rw [Expr.hollow, Expr.argumentSpans, Expr.argumentSpans, Span.map_id,
      argumentSpansOfAll_hollowAll_id arguments]
  | .binary operator left right span => by
    rw [Expr.hollow, Expr.argumentSpans, Expr.argumentSpans, argumentSpans_hollow_id left,
      argumentSpans_hollow_id right]
  | .paren inner span => argumentSpans_hollow_id inner

theorem Expr.argumentSpansOfAll_hollowAll_id : ∀ exprs : List Expr,
    Expr.argumentSpansOfAll (Expr.hollowAll id exprs) = Expr.argumentSpansOfAll exprs
  | [] => rfl
  | expr :: rest => by
    rw [Expr.hollowAll, Expr.argumentSpansOfAll, Expr.argumentSpansOfAll,
      argumentSpans_hollow_id expr, argumentSpansOfAll_hollowAll_id rest]

end

/-- Each recorded literal stands between two quotation marks in the text.  With any other text
without backslashes and without that mark between them, the same expression is read but for this
literal and the places, exactly if no call has arguments that open a window. -/
theorem parse_other_literal_iff {text : String} {limits : Limits} {engine : PatternEngine}
    {expr : Expr} {lit : String} {front back : List String}
    (h : parse text limits engine = .ok expr)
    (hliterals : expr.literals = front ++ lit :: back) :
    ∃ before inner behind mark, isQuote mark = true ∧ lit.toList = mark :: (inner ++ [mark]) ∧
      text.toList = before ++ (lit.toList ++ behind) ∧
      ∀ other, '\\' ∉ other → mark ∉ other →
        let new := mark :: (other ++ [mark])
        let written := String.ofList (before ++ (new ++ behind))
        let moved := expr.hollow
          (shift (utf8Length before) (utf8Length lit.toList) (utf8Length new))
        ∀ limits' : Limits, limits'.windowPattern = limits.windowPattern →
          written.utf8ByteSize ≤ limits'.maxLength → written.utf8ByteSize ≤ limits'.maxDepth →
          ((∃ expr', parse written limits' engine = .ok expr' ∧
              expr'.literals = front ++ String.ofList new :: back ∧ expr'.hollow id = moved) ↔
            NoWindow written.toList moved.argumentSpans) := by
  obtain ⟨pattern, hcompiled, -, gap, e, after, hgap, hafter, htext, he, -, rfl⟩ :=
    parse_eq_ok_iff.1 h
  obtain ⟨lit, rfl⟩ : ∃ chars, lit = String.ofList chars :=
    ⟨lit.toList, String.ofList_toList.symm⟩
  rw [e.literals_expr] at hliterals
  obtain ⟨hlit, before, behind, hpart, hswap⟩ := e.swappable he hliterals
  obtain ⟨mark, inner, hmark, rfl⟩ := exists_marks_of_isLiteral hlit
  rw [String.toList_ofList]
  refine ⟨gap ++ before, inner, behind ++ after, mark, hmark, rfl, by simp [htext, hpart], ?_⟩
  intro other hslash hother new written moved limits' hpattern hlength hdepth
  obtain ⟨e', hreadable, -, hswapped⟩ :=
    hswap new ⟨isLiteral_plain hmark hslash hother, rfl⟩
  have hwritten : written.toList = gap ++ (e'.text ++ after) := by
    simp [written, hswapped.text]
  have hmoved : (e'.expr (utf8Length gap)).hollow id = moved := by
    rw [hswapped.hollow, ← utf8Length_append]
  have hcalls : e'.Calls ↔ NoWindow written.toList moved.argumentSpans := by
    rw [hwritten, ← hmoved, Expr.argumentSpans_hollow_id, e'.calls_iff gap after]
  rw [← hcalls]
  constructor
  · rintro ⟨expr', hparse, -, hsame⟩
    obtain ⟨_, -, -, gap', e'', after', -, -, htext', he'', -, rfl⟩ := parse_eq_ok_iff.1 hparse
    rw [hcalls, htext', ← hsame, Expr.argumentSpans_hollow_id, ← e''.calls_iff gap' after']
    exact e''.calls_of_readable he''
  · intro hno
    have hcompile : engine.compile? limits'.windowPattern = some pattern :=
      hpattern ▸ (Limits.window?_eq_ok_iff.1 hcompiled).2.2
    exact ⟨e'.expr (utf8Length gap), parse_of_readable hcompile hwritten hgap hafter
      (hreadable hno) hlength hdepth, by rw [e'.literals_expr, hswapped.literals], hmoved⟩

/-- A colon behind a parenthesis in a literal makes the call a window, and the text is refused;
a semicolon makes no difference. -/
theorem parse_other_literal_iff_window :
    ∃ expr, parse "f(\"a\")" = .ok expr ∧ expr.literals = ["\"a\""] ∧
      (∃ expr', parse "f(\");\")" = .ok expr' ∧ expr'.literals = ["\");\""] ∧
        expr'.hollow id = expr.hollow (shift 2 3 4)) ∧
      ¬ ∃ expr', parse "f(\"):\")" = .ok expr' ∧ expr'.literals = ["\"):\""] ∧
        expr'.hollow id = expr.hollow (shift 2 3 4) := by
  have hread : (parse "f(\"a\")").toOption.map (fun expr =>
      (expr.literals, (expr.hollow (shift 2 3 4)).argumentSpans)) =
        some (["\"a\""], [⟨2, 7⟩]) := by
    decide +kernel
  cases hparse : parse "f(\"a\")" with
  | error _ => simp [hparse, Except.toOption] at hread
  | ok expr =>
    obtain ⟨hliterals, hspans⟩ : expr.literals = ["\"a\""] ∧
        (expr.hollow (shift 2 3 4)).argumentSpans = [⟨2, 7⟩] := by
      simpa [hparse, Except.toOption] using hread
    obtain ⟨before, inner, behind, mark, -, hlit, htext, hiff⟩ :=
      parse_other_literal_iff (show parse "f(\"a\")" {} = .ok expr from hparse)
        (show expr.literals = [] ++ "\"a\"" :: [] from hliterals)
    obtain ⟨rfl, -⟩ : '"' = mark ∧ _ := List.cons.inj hlit
    have hplace : before = ['f', '('] ∧ behind = [')'] := by
      have hlength := congrArg List.length htext
      rcases before with _ | ⟨a, _ | ⟨b, _ | ⟨c, _ | ⟨d, before⟩⟩⟩⟩ <;> simp at htext hlength
      · obtain ⟨rfl, rfl, rfl⟩ := htext
        exact ⟨rfl, rfl⟩
      · omega
    obtain ⟨rfl, rfl⟩ := hplace
    have hmoved : ∀ new : List Char, utf8Length new = 4 →
        expr.hollow (shift (utf8Length ['f', '(']) (utf8Length "\"a\"".toList) (utf8Length new)) =
          expr.hollow (shift 2 3 4) := by
      intro new hnew
      rw [hnew]
      rfl
    refine ⟨expr, rfl, hliterals, ?_, ?_⟩
    · have hallowed := hiff [')', ';'] (by decide) (by decide) {} rfl (by decide) (by decide)
      rw [hmoved _ rfl, hspans] at hallowed
      exact hallowed.2 (by decide +kernel)
    · have hrefused := hiff [')', ':'] (by decide) (by decide) {} rfl (by decide) (by decide)
      rw [hmoved _ rfl, hspans] at hrefused
      exact mt hrefused.1 (by decide +kernel)

end MetricQuery
