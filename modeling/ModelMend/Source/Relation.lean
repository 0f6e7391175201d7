import ModelMend.Source.Stats
import ModelMend.Text.Wording

/-!
# The relation declaration

An entity needs a `Relation` enum. Where a source text has none and implements the behaviour of
its active model, an empty enum is inserted in front of that implementation, set apart by a blank
line and in the line ending style of the text.
-/

namespace ModelMend

open Text

def relationHead : Wording :=
  [.boundary, .chars "pub".toList, .gap, .chars "enum".toList, .gap, .chars "Relation".toList,
   .boundary]

/-- The head of the implementation that a relation declaration is inserted in front of. -/
def behaviorHead : Wording :=
  [.chars "impl".toList, .gap, .chars "ActiveModelBehavior".toList, .gap, .chars "for".toList, .gap,
   .chars "ActiveModel".toList, .boundary]

/-- The declaration of a relation enum without variants. -/
def emptyRelation : List Char :=
  "#[derive(Copy, Clone, Debug, EnumIter, DeriveRelation)]\npub enum Relation \x7b\x7d\n\n".toList

/-- What has to stand between a text and a declaration, so that a blank line does. -/
def gapAfter (before : List Char) : List Char :=
  if before.isEmpty || "\n\n".toList.isSuffixOf before ||
      "\r\n\r\n".toList.isSuffixOf before then
    []
  else if ['\n'].isSuffixOf before then ['\n']
  else ['\n', '\n']

/-- The text with a carriage return in front of every line feed. -/
def withReturns (text : List Char) : List Char :=
  text.flatMap fun c => if c = '\n' then ['\r', '\n'] else [c]

/-- The text has a carriage return in front of some line feed. -/
def usesReturns : List Char → Bool
  | [] => false
  | c :: rest => (c == '\r' && rest.head? == some '\n') || usesReturns rest

/-- Inserts an empty relation enum if the text needs one. -/
def ensureRelation (text : List Char) : List Char × Bool :=
  if relationHead.occursIn text then (text, false)
  else
    match behaviorHead.find? text with
    | none => (text, false)
    | some found =>
      let declaration := gapAfter found.before ++ emptyRelation
      let declaration := if usesReturns text then withReturns declaration else declaration
      (found.before ++ declaration ++ found.onward, true)

end ModelMend
