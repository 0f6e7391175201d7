import ModelMend.Line.Kind
import ModelMend.Token.Lexer

/-!
# Field declarations as syntax

A field declaration is a name and a type, and a type is a path whose segments may have generic
arguments. The parts of a type form one family (`TypeSyntax`), so that what is said of all of them is
proved by one induction. Each part has its text and its tokens; a declaration has its text.

Declarations are laid out as items of a body, with a space or a line break in front of each.
-/

namespace ModelMend

open Text

/-- An identifier, raw or not. A raw one may be a keyword, but none of those that a path may start
with. -/
structure Identifier where
  raw : Bool
  first : Char
  more : List Char
  starts : isIdentStart first = true
  continues : ∀ c ∈ more, isIdentContinue c = true
  plain : raw = false → Token.isPlainName (first :: more) = true
  rawable : raw = true →
    (["_", "super", "self", "Self", "crate"].map String.toList).contains (first :: more) = false

namespace Identifier

/-- The identifier without its raw mark. -/
def word (name : Identifier) : List Char :=
  name.first :: name.more

/-- The plain identifier with these characters. -/
def ofChars (first : Char) (more : List Char)
    (h : (isIdentStart first && more.all isIdentContinue && Token.isPlainName (first :: more)) = true) :
    Identifier where
  raw := false
  first := first
  more := more
  starts := by simp_all
  continues := by simp_all
  plain := by simp_all
  rawable := fun h => by cases h

def text (name : Identifier) : List Char :=
  if name.raw then "r#".toList ++ name.word else name.word

end Identifier

/-- The keywords that stand for a segment of a path. -/
inductive PathKeyword where
  | super
  | self
  | selfType
  | crate
deriving DecidableEq, Repr

def PathKeyword.text : PathKeyword → List Char
  | super => "super".toList
  | self => "self".toList
  | selfType => "Self".toList
  | crate => "crate".toList

/-- The parts that a type is made of. -/
inductive TypePart where
  | path
  | segment
  | arguments
  | argument
  | type
deriving DecidableEq, Repr

/-- A type that is a path with generic arguments, and the parts of it. -/
inductive TypeSyntax : TypePart → Type where
  | last (segment : TypeSyntax .segment) : TypeSyntax .path
  | nested (segment : TypeSyntax .segment) (path : TypeSyntax .path) : TypeSyntax .path
  | keyword (word : PathKeyword) : TypeSyntax .segment
  | plain (name : Identifier) : TypeSyntax .segment
  | generic (name : Identifier) (arguments : TypeSyntax .arguments) : TypeSyntax .segment
  | one (argument : TypeSyntax .argument) : TypeSyntax .arguments
  | more (argument : TypeSyntax .argument) (arguments : TypeSyntax .arguments) :
      TypeSyntax .arguments
  | lifetime (name : Identifier) : TypeSyntax .argument
  | typed (type : TypeSyntax .type) : TypeSyntax .argument
  | relative (path : TypeSyntax .path) : TypeSyntax .type
  | absolute (path : TypeSyntax .path) : TypeSyntax .type

namespace TypeSyntax

variable {part : TypePart}

def text : {part : TypePart} → TypeSyntax part → List Char
  | _, last segment => segment.text
  | _, nested segment path => segment.text ++ "::".toList ++ path.text
  | _, keyword word => word.text
  | _, plain name => name.text
  | _, generic name arguments => name.text ++ ['<'] ++ arguments.text ++ ['>']
  | _, one argument => argument.text
  | _, more argument arguments => argument.text ++ ", ".toList ++ arguments.text
  | _, lifetime name => '\'' :: name.text
  | _, typed type => type.text
  | _, relative path => path.text
  | _, absolute path => "::".toList ++ path.text

/-- A double colon. -/
def colons : List Token :=
  [.punct ':' true, .punct ':' false]

/-- The tokens of the text, where `joint` says that punctuation follows it at once. -/
def tokens : {part : TypePart} → TypeSyntax part → (joint : Bool) → List Token
  | _, last segment, joint => segment.tokens joint
  | _, nested segment path, joint => segment.tokens true ++ colons ++ path.tokens joint
  | _, keyword word, _ => [.word word.text]
  | _, plain name, _ => [.word name.text]
  | _, generic name arguments, joint =>
    [.word name.text, .punct '<' (Lexeme.startsPunct arguments.text)] ++ arguments.tokens true ++
      [.punct '>' joint]
  | _, one argument, joint => argument.tokens joint
  | _, more argument arguments, joint =>
    argument.tokens true ++ [.punct ',' false] ++ arguments.tokens joint
  | _, lifetime name, _ => [.lifetime name.text]
  | _, typed type, joint => type.tokens joint
  | _, relative path, joint => path.tokens joint
  | _, absolute path, joint => colons ++ path.tokens joint

/-- The name of the last segment. -/
def lastName : {part : TypePart} → TypeSyntax part → List Char
  | _, last segment => segment.lastName
  | _, nested _ path => path.lastName
  | _, keyword word => word.text
  | _, plain name => name.text
  | _, generic name _ => name.text
  | _, one argument => argument.lastName
  | _, more _ arguments => arguments.lastName
  | _, lifetime name => name.text
  | _, typed type => type.lastName
  | _, relative path => path.lastName
  | _, absolute path => path.lastName

/-- The path names a relationship container. -/
def isContainer (type : TypeSyntax .type) : Bool :=
  relationContainers.contains type.lastName

end TypeSyntax

/-- A public field. -/
structure Declaration where
  name : Identifier
  type : TypeSyntax .type

def Declaration.text (field : Declaration) : List Char :=
  "pub ".toList ++ field.name.text ++ ": ".toList ++ field.type.text ++ [',']

/-! ## Layout -/

/-- What stands in front of an item. -/
inductive Gap where
  | space
  | lineBreak
deriving DecidableEq, Repr

def Gap.char : Gap → Char
  | space => ' '
  | lineBreak => '\n'

/-- The text of a body with these fields, each behind its gap. -/
def bodyText (items : List (Gap × Declaration)) : List Char :=
  items.flatMap fun item => item.1.char :: item.2.text

/-- The fields of each line, the rest of the opening line first. -/
def rows : List (Gap × Declaration) → List (List Declaration)
  | [] => [[]]
  | (.space, field) :: items => (field :: (rows items).headD []) :: (rows items).tail
  | (.lineBreak, field) :: items => [] :: (field :: (rows items).headD []) :: (rows items).tail

end ModelMend
