import EmberAssist.Position

/-! What can be wrong with a template, where, and how it is told. -/
namespace EmberAssist.Template

/-- The ways in which a text is not a template. -/
inductive Fault where
  | expected (token : List Char)
  | unexpectedClosing
  | unterminatedComment
  | elseAfterElse
  | unclosedBlock (name : Option String)
  | mismatchedBlock (opened : Option String) (closed : String)
  | unterminatedExpression
  | positionalAfterNamed
  | expectedExpression
  | unterminatedString
  | unclosedTag (tag : String)
  | unclosedElement (tag : String)
  | expectedAttributeName
  | expectedAttributeValue
  | unterminatedAttributeValue
  | nestedTooDeep
deriving DecidableEq, Repr

/-- The name of a block in a message; a block that is not called by name has none. -/
def blockName (name : Option String) : String := name.getD "None"

/-- The wording of a fault. -/
def Fault.message : Fault → String
  | expected token => "Expected '" ++ String.ofList token ++ "'"
  | unexpectedClosing => "Unexpected closing construct"
  | unterminatedComment => "Unterminated comment"
  | elseAfterElse => "Unexpected else after final else"
  | unclosedBlock name => "Unclosed block '" ++ blockName name ++ "'"
  | mismatchedBlock opened closed => "Block '" ++ blockName opened ++ "' closed by '" ++ closed ++ "'"
  | unterminatedExpression => "Unterminated expression"
  | positionalAfterNamed => "Positional argument after named arguments"
  | expectedExpression => "Expected expression"
  | unterminatedString => "Unterminated string"
  | unclosedTag tag => "Unclosed start tag <" ++ tag ++ ">"
  | unclosedElement tag => "Unclosed element <" ++ tag ++ ">"
  | expectedAttributeName => "Expected attribute name"
  | expectedAttributeValue => "Expected attribute value"
  | unterminatedAttributeValue => "Unterminated attribute value"
  | nestedTooDeep => "Nested too deep"

/-- A fault at an offset of the text. -/
structure Failure where
  fault : Fault
  offset : Nat
deriving DecidableEq, Repr

/-- A fault at a position of the text (`TemplateSyntaxError`). -/
structure SyntaxError where
  fault : Fault
  position : Position
deriving DecidableEq, Repr

/-- The wording of a fault and its place. -/
def SyntaxError.message (error : SyntaxError) : String :=
  error.fault.message ++ " (line " ++ toString error.position.line ++ ", column " ++
    toString error.position.column ++ ")"

end EmberAssist.Template
