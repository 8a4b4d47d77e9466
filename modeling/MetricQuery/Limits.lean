import MetricQuery.ParseError
import MetricQuery.Window.Spelling

/-!
# Limits

How long a query text may be, how deep it may nest, and what its time windows
look like.  The pattern of the windows is a text; an engine says what it means, the basic
one where no other is given.
-/

namespace MetricQuery

/-- The windows `5m`, `1h`, `last_15m` and the like. -/
def defaultWindowPattern : String :=
  "^([0-9]+[smhdw]|last_[0-9]+[smhdw])$"

/-- The engine takes the default pattern for a pattern. -/
def PatternEngine.ReadsDefault (engine : PatternEngine) : Prop :=
  (engine.compile? defaultWindowPattern).isSome = true

theorem PatternEngine.readsDefault_basic : PatternEngine.basic.ReadsDefault := by
  rw [ReadsDefault]
  decide +kernel

/-- What a query text has to keep to. -/
structure Limits where
  /-- Bytes of the text. -/
  maxLength : Nat := 8192
  /-- Levels of parentheses, filter lists and calls, the whole expression being one. -/
  maxDepth : Nat := 64
  /-- The pattern of time windows, in its text form. -/
  windowPattern : String := defaultWindowPattern
  deriving DecidableEq, Repr

namespace Limits

/-- The window pattern, once both numbers are found to be positive. -/
def window? (limits : Limits) (engine : PatternEngine) : Except BadLimits WindowPattern :=
  if limits.maxLength = 0 then .error .zeroLength
  else if limits.maxDepth = 0 then .error .zeroDepth
  else
    match engine.compile? limits.windowPattern with
    | some pattern => .ok pattern
    | none => .error .windowPattern

/-- What is wrong with the limits, if anything. -/
def fault? (limits : Limits) (engine : PatternEngine := .basic) : Option ParseError :=
  match limits.window? engine with
  | .ok _ => none
  | .error cause => some (.badLimits cause)

theorem window?_eq_ok_iff {limits : Limits} {engine : PatternEngine} {pattern : WindowPattern} :
    limits.window? engine = .ok pattern ↔ 0 < limits.maxLength ∧ 0 < limits.maxDepth ∧
      engine.compile? limits.windowPattern = some pattern := by
  unfold window?
  split
  · next hlength => simp [hlength]
  · next hlength =>
    split
    · next hdepth => simp [hdepth]
    · next hdepth =>
      split
      · next hcompile => simp [hcompile, Nat.pos_of_ne_zero hlength, Nat.pos_of_ne_zero hdepth]
      · next hcompile => simp [hcompile]

end Limits

end MetricQuery
