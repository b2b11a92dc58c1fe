import EmberAssist.Completion.Candidate
import EmberAssist.Template.Context

/-! The names that templates know without a project. -/
namespace EmberAssist.Completion

/-- What can be called between braces (`MUSTACHE_KEYWORDS`). -/
def mustacheKeywords : List String :=
  ["action", "array", "component", "concat", "debugger", "each-in", "fn", "get", "hash", "if", "input",
    "link-to", "loc", "log", "mount", "mut", "outlet", "partial", "query-params", "textarea",
    "unbound", "unless", "with", "yield"]

/-- What can open a block (`BLOCK_KEYWORDS`). -/
def blockKeywords : List String :=
  ["component", "each", "each-in", "if", "in-element", "let", "link-to", "unless", "with"]

/-- What can be called inside parentheses (`SUB_EXPRESSION_KEYWORDS`). -/
def subExpressionKeywords : List String :=
  ["action", "array", "component", "concat", "fn", "get", "hash", "if", "loc", "log", "mut",
    "query-params", "unless"]

/-- The candidate for a name that templates know (`_builtins`). -/
def ofKeyword (label : String) : Candidate := ⟨.function, label, "built-in", none⟩

/-- The candidates for the names that templates know in a context. -/
def keywords : Template.Context → List Candidate
  | .mustache => mustacheKeywords.map ofKeyword
  | .block => blockKeywords.map ofKeyword
  | .subExpression => subExpressionKeywords.map ofKeyword
  | .link | .none => []

end EmberAssist.Completion
