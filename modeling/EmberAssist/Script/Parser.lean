import EmberAssist.Script.Expression
import EmberAssist.Script.Lexer
import EmberAssist.Script.Lookup

/-! The tree of a script: its tokens, nested by their brackets and arranged into expressions. An offset is
looked for in the tree from the outside in. -/
namespace EmberAssist.Script

/-- The tree of a script. -/
def parse (language : Language) (source : List Char) : Node :=
  let nodes := nest (arrange language) [] [] (tokens language source)
  .branch .program 0 (Text.utf8Length source) (plain (arrange language false nodes))

/-- Whether a search for an offset enters a node: the node ends behind the offset, or at it if the
node is empty. -/
def reaches (offset : Nat) (node : Node) : Bool :=
  offset < node.stop || (node.start == node.stop && offset == node.stop)

mutual

/-- The chain of nodes around an offset, innermost first, below some that have been entered. -/
def chainAt (offset : Nat) (entered : List Node) : Node → List Node
  | .leaf kind start text => .leaf kind start text :: entered
  | .branch kind start stop children =>
    chainAmong offset (.branch kind start stop children :: entered) children

/-- The chain below some nodes that have been entered, by one of the nodes in a branch: the first that
reaches behind the offset is entered, unless it begins behind it. -/
def chainAmong (offset : Nat) (entered : List Node) : List (Field × Node) → List Node
  | [] => entered
  | (_, child) :: others =>
    if reaches offset child then
      if child.start ≤ offset then chainAt offset entered child else entered
    else chainAmong offset entered others

end

/-- The usual reader of scripts. -/
def Reader.usual : Reader := ⟨parse, fun root offset => chainAt offset [] root⟩

end EmberAssist.Script
