import EmberAssist.Document.Language
import EmberAssist.Script.Grouping

/-! Expressions among the nodes between a pair of brackets: properties of objects, invocations,
assignments and other operations. Brackets have been closed already, so that each is one node. What
is no expression is left as it stands. -/
namespace EmberAssist.Script

/-- Comments before other nodes. -/
def splitComments (nodes : List Node) : List Node × List Node := nodes.span (·.isLeaf .comment)

/-- A mark between expressions. -/
def isSeparator (node : Node) : Bool :=
  node.isMark [','] || node.isMark [';'] || node.isMark [':']

/-- A mark that joins operands but assigns nothing. -/
def isOperator (language : Language) (node : Node) : Bool :=
  match node with
  | .leaf .mark _ text =>
    !isSeparator node && text != ['='] && text != ['?'] && text != ['+', '+'] &&
      text != ['-', '-'] && text != ['.'] && text != ['?', '.'] && text != ['!'] &&
      text != ['@'] && text != ['~'] && text != ['.', '.', '.']
  | .leaf .name _ text =>
    text == "in".toList || text == "instanceof".toList ||
      (language = .typescript && (text == "as".toList || text == "satisfies".toList))
  | _ => false

/-- Whether a node can stand among the arguments of a type. -/
def fitsType (node : Node) : Bool :=
  match node with
  | .leaf .mark _ text =>
    [[','], ['.'], ['|'], ['&'], ['?'], [':'], ['=', '>'], ['-'], ['.', '.', '.']].contains text
  | .leaf .regex .. => false
  | .leaf .. => true
  | .branch kind .. =>
    [BranchKind.parenthesized, .array, .object, .block, .template].contains kind

/-- Types between angle brackets, of which some are open, and the nodes behind them. -/
def typeArguments? : Nat → List Node → Option (List Node × List Node)
  | _, [] => none
  | opened, node :: rest =>
    if node.isMark ['<'] then
      (typeArguments? (opened + 1) rest).map fun (types, rest) => (node :: types, rest)
    else if node.isMark ['>'] then
      if opened ≤ 1 then some ([node], rest)
      else (typeArguments? (opened - 1) rest).map fun (types, rest) => (node :: types, rest)
    else if fitsType node then
      (typeArguments? opened rest).map fun (types, rest) => (node :: types, rest)
    else none

/-- The parentheses of an invocation. -/
def asArguments : Node → Node
  | .branch .parenthesized start stop children => .branch .arguments start stop children
  | node => node

/-- Whether nodes are arguments of an invocation: parentheses, or a template. -/
def isArguments (node : Node) : Bool := node.isBranch .parenthesized || node.isBranch .template

/-- An invocation of a node, with what stands between it and its arguments. -/
def invocation (kind : BranchKind) (callee : List (Field × Node)) (between : List Node)
    (arguments : Node) : Node :=
  spanning kind (callee ++ plain between ++ [(.arguments, asArguments arguments)])

/-- What continues an operand: a property, an index, arguments, or the mark that something is not
null. Gives the longer operand and the nodes behind it. An invocation may be asked not to count. -/
def extend? (language : Language) (mayCall : Bool) (base : Node) (rest : List Node) :
    Option (Node × List Node) :=
  let (gap, behind) := splitComments rest
  match behind with
  | [] => none
  | next :: others =>
    let (gap', behind') := splitComments others
    let linked := gap ++ next :: gap'
    if next.isMark ['.'] || next.isMark ['?', '.'] then
      match behind' with
      | [] => none
      | target :: others' =>
        if target.isLeaf .name then
          some (spanning .member ((.object, base) :: plain linked ++ [(.property, target)]), others')
        else if next.isMark ['.'] then none
        else if isArguments target then
          if mayCall then some (invocation .call [(.callee, base)] linked target, others') else none
        else if target.isBranch .array then
          some (spanning .subscript ((.object, base) :: plain (linked ++ [target])), others')
        else if target.isMark ['<'] then
          match typeArguments? 1 others' with
          | some (types, call :: others'') =>
            if isArguments call && mayCall then
              some (invocation .call [(.callee, base)] (linked ++ target :: types) call, others'')
            else none
          | _ => none
        else none
    else if next.isBranch .array then
      some (spanning .subscript ((.object, base) :: plain (gap ++ [next])), others)
    else if isArguments next then
      if mayCall then some (invocation .call [(.callee, base)] gap next, others) else none
    else if language = .typescript && next.isMark ['!'] && next.start == base.stop then
      some (spanning .operation (plain [base, next]), others)
    else if language = .typescript && next.isMark ['<'] && mayCall then
      match typeArguments? 1 others with
      | some (types, call :: others') =>
        if isArguments call then
          some (invocation .call [(.callee, base)] (gap ++ next :: types) call, others')
        else none
      | _ => none
    else none

/-- An operand with all that continues it. -/
def operand (language : Language) (mayCall : Bool) : Nat → Node → List Node → Node × List Node
  | 0, base, rest => (base, rest)
  | steps + 1, base, rest =>
    if base.isBranch .block then (base, rest)
    else
      match extend? language mayCall base rest with
      | none => (base, rest)
      | some (longer, rest) => operand language mayCall steps longer rest

/-- The arguments behind what is constructed, if there are any: types and parentheses. -/
def constructionArguments? (language : Language) (rest : List Node) :
    Option (List Node × Node × List Node) :=
  let (gap, behind) := splitComments rest
  match behind with
  | [] => none
  | next :: others =>
    if next.isBranch .parenthesized then some (gap, next, others)
    else if language = .typescript && next.isMark ['<'] then
      match typeArguments? 1 others with
      | some (types, call :: others') =>
        if call.isBranch .parenthesized then some (gap ++ next :: types, call, others') else none
      | _ => none
    else none

/-- The word for a construction. -/
def isNew (node : Node) : Bool :=
  match node with
  | .leaf .name _ text => text == "new".toList
  | _ => false

/-- A construction, or an operand that begins with any other node. What is constructed may have
properties, but its first arguments are those of the construction. -/
def primary (language : Language) : Nat → Node → List Node → Node × List Node
  | 0, head, rest => (head, rest)
  | steps + 1, head, rest =>
    let (gap, behind) := splitComments rest
    match isNew head, behind with
    | true, next :: others =>
      if isSeparator next || next.isMark ['.'] then (head, rest)
      else
        let (inner, others) := primary language steps next others
        let (constructed, others) := operand language false (others.length + 1) inner others
        match constructionArguments? language others with
        | some (between, arguments, others) =>
          let callee := (Field.none, head) :: plain gap ++ [(.callee, constructed)]
          (invocation .construction callee between arguments, others)
        | none => (spanning .construction (plain (head :: gap ++ [constructed])), others)
    | _, _ => (head, rest)

mutual

/-- An expression that begins with a node: an operand and what it is joined with. A mark joins what
follows it as well, if nothing stands before it. -/
def expression (language : Language) : Nat → Node → List Node → Node × List Node
  | 0, head, rest => (head, rest)
  | steps + 1, head, rest =>
    if head.isLeaf .mark then
      let (tail, rest) := operandBehind language steps rest
      (spanning .operation (plain (head :: tail)), rest)
    else
      let (base, rest) := primary language rest.length head rest
      let (left, rest) := operand language true (rest.length + 1) base rest
      if left.isBranch .block then (left, rest) else continued language steps left rest

/-- An operand and the operation that it is the left side of. -/
def continued (language : Language) : Nat → Node → List Node → Node × List Node
  | 0, left, rest => (left, rest)
  | steps + 1, left, rest =>
    let (gap, behind) := splitComments rest
    match behind with
    | [] => (left, rest)
    | next :: others =>
      if next.isMark ['='] then
        let (gap', right) := splitComments others
        match right with
        | [] => (spanning .operation (plain (left :: gap ++ [next])), others)
        | head :: others' =>
          if isSeparator head then (spanning .operation (plain (left :: gap ++ [next])), others)
          else
            let (value, others') := expression language steps head others'
            let children :=
              (Field.left, left) :: plain (gap ++ next :: gap') ++ [(.right, value)]
            (spanning .assignment children, others')
      else if isOperator language next then
        let (tail, others) := operandBehind language steps others
        (spanning .operation (plain (left :: gap ++ next :: tail)), others)
      else if next.isMark ['?'] then
        let (tail, others) := operandBehind language steps others
        match splitComments others with
        | (gap', colon :: others') =>
          if colon.isMark [':'] && !tail.isEmpty then
            let (last, others') := operandBehind language steps others'
            (spanning .operation (plain (left :: gap ++ next :: tail ++ gap' ++ colon :: last)),
              others')
          else (spanning .operation (plain (left :: gap ++ next :: tail)), others)
        | _ => (spanning .operation (plain (left :: gap ++ next :: tail)), others)
      else (left, rest)

/-- The expression behind an operator, if there is one, with the comments before it. -/
def operandBehind (language : Language) : Nat → List Node → List Node × List Node
  | 0, rest => ([], rest)
  | steps + 1, rest =>
    match splitComments rest with
    | (_, []) => ([], rest)
    | (gap, head :: others) =>
      if isSeparator head then ([], rest)
      else
        let (value, others) := expression language steps head others
        (gap ++ [value], others)

end

/-- Whether a node can be the key of a property. -/
def isKey (node : Node) : Bool :=
  node.isLeaf .name || node.isLeaf .string || node.isLeaf .number || node.isBranch .array

/-- The property that begins with a node, if a colon makes it one. -/
def property? (language : Language) (depth : Nat) (key : Node) (rest : List Node) :
    Option (Node × List Node) :=
  match splitComments rest with
  | (gap, colon :: others) =>
    if isKey key && colon.isMark [':'] then
      match splitComments others with
      | (gap', head :: others') =>
        if isSeparator head then none
        else
          let (value, others') := expression language depth head others'
          let children :=
            (Field.key, key) :: plain (gap ++ colon :: gap') ++ [(.value, value)]
          some (spanning .pair children, others')
      | _ => none
    else none
  | _ => none

/-- Arranges nodes into expressions, and into properties where one can begin in an object. -/
def arrangeWithin (language : Language) (inObject : Bool) :
    Nat → Bool → List Node → List Node
  | 0, _, nodes => nodes
  | _ + 1, _, [] => []
  | steps + 1, atProperty, head :: rest =>
    if head.isLeaf .comment then
      head :: arrangeWithin language inObject steps atProperty rest
    else if isSeparator head then
      head :: arrangeWithin language inObject steps (head.isMark [',']) rest
    else
      let depth := 4 * (rest.length + 1)
      let found := if inObject && atProperty then property? language depth head rest else none
      let (node, rest) := found.getD (expression language depth head rest)
      node :: arrangeWithin language inObject steps false rest

/-- Arranges the nodes between a pair of brackets, or outside all brackets. -/
def arrange (language : Language) (inObject : Bool) (nodes : List Node) : List Node :=
  arrangeWithin language inObject (nodes.length + 1) true nodes

end EmberAssist.Script
