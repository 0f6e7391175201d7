import ModelMend.Grammar.Items
import ModelMend.Grammar.Patterns
import ModelMend.Grammar.Expressions

/-!
# The grammar as a whole

The table that assigns each phrase its rule, and the readings of it that the rest of the library
uses: whether tokens form a type, and where the first item of an attribute list ends.
-/

namespace ModelMend.Grammar

open Rule Phrase

/-- One item of an attribute list: a path of plain words alone, with a group, or with a value. -/
def metaItemRule : Rule Phrase :=
  choose (key "unsafe") any (wordPath pathWord) ++
    choose (oneOf [group .round, group .square, group .curly]) any
      (opt (sign "=") (sign "=" ++ without (sign "#" ++ group .square) ++ phrase (.expr true)))

def attributesRule : Rule Phrase :=
  loop (sign "#") (sign "#" ++ within .square (phrase .metaItem))

/-- Attributes at the start of a block. -/
def innerAttributesRule : Rule Phrase :=
  loop (sign "#" ++ sign "!") (sign "#" ++ sign "!" ++ within .square (phrase .metaItem))

def table : Phrase → Rule Phrase
  | .segment inExpr => segmentRule inExpr
  | .path inExpr => pathRule inExpr
  | .qualifiedPath inExpr => qualifiedPathRule inExpr
  | .arguments => argumentsRule
  | .argument => argumentRule
  | .binder => binderRule
  | .traitPath => traitPathRule
  | .traitBound const => traitBoundRule const
  | .bound precise const => boundRule precise const
  | .type plus => typeRule plus
  | .functionInput => functionInputRule
  | .metaItem => metaItemRule
  | .attributes => attributesRule
  | .innerAttributes => innerAttributesRule
  | .pattern => patternRule
  | .alternatives => alternativesRule
  | .expr structs => exprRule structs
  | .unary structs => unaryRule structs
  | .atom structs => atomRule structs
  | .trailers => trailersRule
  | .tightTail structs => tightTailRule structs
  | .compareTail structs => compareTailRule structs
  | .logicTail structs => logicTailRule structs
  | .exprTail structs => exprTailRule structs
  | .range structs => rangeRule structs
  | .closure structs => closureRule structs
  | .blockLike => blockLikeRule
  | .ifElse => ifElseRule
  | .arm => armRule
  | .block => within .curly (phrase .innerAttributes ++ statements)
  | .plainBlock => within .curly statements
  | .statement => statementRule
  | .generics => genericsRule
  | .whereClause => whereClauseRule
  | .fields => fieldsRule
  | .importTree mayRoot => importTreeRule mayRoot
  | .member place => memberRule place
  | .item => itemRule

/-- The tokens as a whole follow the rule. -/
def fits (rule : Rule Phrase) (tokens : List Token) : Bool :=
  rule.accepts table tokens

/-- The tokens left after the front that the rule takes. -/
def after? (rule : Rule Phrase) (tokens : List Token) : Option (List Token) :=
  rule.rest? table tokens

def isType (tokens : List Token) : Bool :=
  fits (phrase (.type true)) tokens

/-- The tokens form a type that is a path and nothing else. -/
def isPathType (tokens : List Token) : Bool :=
  fits (choose (oneOf [pathWord, sign "::", sign "<"]) (phrase (.qualifiedPath false)) never) tokens

def areAttributes (tokens : List Token) : Bool :=
  fits (phrase .attributes) tokens

end ModelMend.Grammar
