/-! Reading a template from left to right: what is left of the text, and the offset at which it
begins. -/
namespace EmberAssist.Template

/-- The part of a text that has not been read yet. -/
structure Input where
  offset : Nat
  rest : List Char
deriving DecidableEq, Repr, Inhabited

namespace Input

/-- A whole text. -/
def ofText (chars : List Char) : Input := ⟨0, chars⟩

/-- Nothing is left. -/
def atEnd (input : Input) : Bool := input.rest.isEmpty

/-- Reads a given text, if it comes next. -/
def eat? : List Char → Input → Option Input
  | [], input => some input
  | _ :: _, ⟨_, []⟩ => none
  | a :: pattern, ⟨offset, c :: rest⟩ => if a = c then eat? pattern ⟨offset + 1, rest⟩ else none

/-- Whether a given text comes next. -/
def sees (pattern : List Char) (input : Input) : Bool := (input.eat? pattern).isSome

/-- Reads a given text if it comes next, and nothing otherwise. -/
def skipOptional (pattern : List Char) (input : Input) : Input :=
  (input.eat? pattern).getD input

/-- Reads the next characters of a class. -/
def takeWhile (p : Char → Bool) (input : Input) : List Char × Input :=
  let taken := input.rest.takeWhile p
  (taken, ⟨input.offset + taken.length, input.rest.dropWhile p⟩)

/-- Skips the next characters of a class. -/
def skipWhile (p : Char → Bool) (input : Input) : Input := (input.takeWhile p).2

/-- Reads the next characters of a class, at least one. -/
def takeSome? (p : Char → Bool) (input : Input) : Option (List Char × Input) :=
  match input.takeWhile p with
  | ([], _) => none
  | found => some found

/-- Looks in a text that begins at an offset for the first place where a closer can be read. Gives
what stands before it and the input behind it. -/
def upToFrom (closer : Input → Option Input) : Nat → List Char → Option (List Char × Input)
  | _, [] => none
  | offset, c :: rest =>
    match closer ⟨offset, c :: rest⟩ with
    | some behind => some ([], behind)
    | none => (upToFrom closer (offset + 1) rest).map fun (before, behind) => (c :: before, behind)

/-- Reads up to the first place where a closer can be read, and the closer. -/
def upTo (closer : Input → Option Input) (input : Input) : Option (List Char × Input) :=
  upToFrom closer input.offset input.rest

/-- Reads characters of a text that begins at an offset until a stop comes next or nothing is left. -/
def untilFrom (stops : List Char → Bool) : Nat → List Char → List Char × Input
  | offset, [] => ([], ⟨offset, []⟩)
  | offset, c :: rest =>
    if stops (c :: rest) then ([], ⟨offset, c :: rest⟩)
    else
      let (taken, behind) := untilFrom stops (offset + 1) rest
      (c :: taken, behind)

/-- Reads characters until a stop comes next or nothing is left. -/
def takeUntil (stops : List Char → Bool) (input : Input) : List Char × Input :=
  untilFrom stops input.offset input.rest


end Input

end EmberAssist.Template
