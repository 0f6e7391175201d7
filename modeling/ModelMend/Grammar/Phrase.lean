import ModelMend.Grammar.Rule

/-!
# Phrases

The names of the phrases of the attribute and type grammar, and short forms for the rules that
mention them.

An expression knows whether a struct literal may start at an opening brace (`structs`): it may not
where the brace opens a block. A type knows whether a plus sign may go on with further bounds
(`plus`). A path knows whether it stands in an expression (`inExpr`), where an angle bracket after
a name is a comparison. An import knows whether the trees in its braces may start with two colons
(`mayRoot`), and a member knows where it stands (`place`).
-/

namespace ModelMend.Grammar

/-- Where members stand. -/
inductive MemberPlace where
  | foreignModule
  | traitBody
  | implBody
deriving DecidableEq, Repr

inductive Phrase where
  | segment (inExpr : Bool)
  | path (inExpr : Bool)
  | qualifiedPath (inExpr : Bool)
  | arguments
  | argument
  | binder
  | traitPath
  | traitBound (const : Bool)
  | bound (precise const : Bool)
  | type (plus : Bool)
  | functionInput
  | metaItem
  | attributes
  | innerAttributes
  | pattern
  | alternatives
  | expr (structs : Bool)
  | unary (structs : Bool)
  | atom (structs : Bool)
  | trailers
  | tightTail (structs : Bool)
  | compareTail (structs : Bool)
  | logicTail (structs : Bool)
  | exprTail (structs : Bool)
  | range (structs : Bool)
  | closure (structs : Bool)
  | blockLike
  | ifElse
  | arm
  | block
  | plainBlock
  | statement
  | generics
  | whereClause
  | fields
  | importTree (mayRoot : Bool)
  | member (place : MemberPlace)
  | item
deriving DecidableEq, Repr

namespace Phrase

open Rule

def phrase (name : Phrase) : Rule Phrase :=
  named name

/-- Adjoining punctuation. -/
def sign (chars : String) : Rule Phrase :=
  op chars.toList

def key (name : String) : Rule Phrase :=
  word name.toList

/-- One of several words, for looking ahead. -/
def anyKey (names : List String) : Rule Phrase :=
  oneOf (names.map key)

/-- An identifier that is no keyword. -/
def name : Rule Phrase :=
  one .plainName

/-- The words that a path in a type or an expression may start with, for looking ahead. -/
def pathWord : Rule Phrase :=
  oneOf [name, key "super", key "self", key "Self", key "crate"]

def anyGroup : Rule Phrase :=
  choose (group .round) any (choose (group .square) any (group .curly))

/-- A path of plain words, as in front of a macro call or in an attribute. -/
def wordPath (words : Rule Phrase) : Rule Phrase :=
  opt (sign "::") (sign "::") ++ choose words any never ++
    loop (sign "::") (sign "::" ++ choose words any never)

/-- The name of a macro and its exclamation mark. -/
def macroHead : Rule Phrase :=
  wordPath (oneOf [pathWord, key "try"]) ++ without (sign "!=") ++ sign "!"

/-- A literal, for looking ahead: a truth value and a negative number count as well. -/
def literalAhead : Rule Phrase :=
  oneOf [one .literal, sign "-" ++ one .number]

def literal : Rule Phrase :=
  choose (one .literal) any (sign "-" ++ one .number)

/-- A point that is not the start of a range. -/
def pointAhead : Rule Phrase :=
  without (sign "..") ++ sign "."

end Phrase

end ModelMend.Grammar
