import ModelMend.Grammar.Table
import ModelMend.Line.Kind
import ModelMend.Token.Lexer

/-!
# Relationship types

A type is a relationship container when it is a path, by any route, whose last segment is the name
of a container. A text that is no type still counts when it plainly starts with a container.
-/

namespace ModelMend

open Grammar Text

/-- The name of the last segment of a path that has been found to be one, its head taken off. At
most `fuel` segments are passed. -/
def lastSegment? : Nat → List Token → Option (List Char)
  | fuel + 1, .word name :: rest =>
    match after? (.opt (argumentsAhead false) (Phrase.phrase .arguments)) rest with
    | none => none
    | some [] => some name
    | some rest =>
      match Rule.takeOp "::".toList rest with
      | some rest => lastSegment? fuel rest
      | none => none
  | _, _ => none

/-- The name of the last segment of a path, which may be qualified. -/
def pathName? (tokens : List Token) : Option (List Char) :=
  let head := .choose (Phrase.sign "<") selfType (.opt (Phrase.sign "::") (Phrase.sign "::"))
  (after? head tokens).bind (lastSegment? tokens.length)

def isRelationType (type : List Char) : Bool :=
  let tokens? := Token.ofText? type
  match tokens?.filter isType with
  | some tokens => isPathType tokens && (pathName? tokens).any relationContainers.contains
  | none => startsWithContainer (trimStart type)

end ModelMend
