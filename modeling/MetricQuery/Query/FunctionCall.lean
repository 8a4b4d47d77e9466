import MetricQuery.QueryError

/-!
# Function calls of a query

A call is made from a name and takes arguments one by one or several at once.  The
arguments are kept as they are given.
-/

namespace MetricQuery.FunctionCall

/-- A call without arguments. -/
def new (name : String) : FunctionCall :=
  ⟨name, []⟩

def arg (call : FunctionCall) (argument : String) : FunctionCall :=
  { call with arguments := call.arguments ++ [argument] }

def args (call : FunctionCall) (arguments : List String) : FunctionCall :=
  { call with arguments := call.arguments ++ arguments }

/-- The written call, with the dot in front of it. -/
def render (call : FunctionCall) : Except QueryError String :=
  if call.name.isEmpty then .error (.invalid .noFunctionName)
  else .ok ("." ++ call.name ++ "(" ++ ", ".intercalate call.arguments ++ ")")

end MetricQuery.FunctionCall
