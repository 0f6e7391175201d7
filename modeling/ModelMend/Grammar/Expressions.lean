import ModelMend.Grammar.Phrase

/-!
# Expressions

The rules for expressions, blocks and statements. Binary operators come in four tiers, each of
which goes on with the tails of the tier above it: arithmetic and bits, comparisons (which do not
chain), logic, and last assignment and ranges. A statement may be an item.
-/

namespace ModelMend.Grammar

open Rule Phrase

/-- Signs that start with the sign of an arithmetic operator and mean something else. -/
def notArithmetic : Rule Phrase :=
  oneOf (["+=", "-=", "*=", "/=", "%=", "^=", "&=", "|=", "<<=", ">>=", "&&", "||"].map sign)

/-- An operator of the arithmetic tier. -/
def arithmetic : Rule Phrase :=
  without notArithmetic ++
    choose (oneOf [sign "<<", sign ">>"]) (any ++ any)
      (choose (oneOf (["+", "-", "*", "/", "%", "^", "&", "|"].map sign)) any never)

def comparison : Rule Phrase :=
  without (oneOf (["<<", ">>", "<<=", ">>="].map sign)) ++
    choose (oneOf (["==", "<=", "!=", ">="].map sign)) (any ++ any)
      (choose (oneOf [sign "<", sign ">"]) any never)

def logical : Rule Phrase :=
  choose (oneOf [sign "&&", sign "||"]) (any ++ any) never

def assignment : Rule Phrase :=
  choose (oneOf [sign "<<=", sign ">>="]) (any ++ any ++ any)
    (choose (oneOf (["+=", "-=", "*=", "/=", "%=", "^=", "&=", "|="].map sign)) (any ++ any)
      (without (sign "=>") ++ without (sign "==") ++ sign "="))

/-- Casts after an operand. What reads like a call or an access may not follow a cast. -/
def casts : Rule Phrase :=
  loop (key "as")
    (key "as" ++ phrase (.type false) ++
      without (oneOf [pointAhead, sign "?", group .square, group .round]))

/-- Operators of the arithmetic tier and their operands. -/
def tightTailRule (structs : Bool) : Rule Phrase :=
  casts ++ loop arithmetic (arithmetic ++ phrase (.unary structs) ++ casts)

/-- At most one comparison after an operand. -/
def compareTailRule (structs : Bool) : Rule Phrase :=
  phrase (.tightTail structs) ++
    opt comparison
      (comparison ++ phrase (.unary structs) ++ phrase (.tightTail structs) ++ without comparison)

/-- Logical operators and their operands. -/
def logicTailRule (structs : Bool) : Rule Phrase :=
  phrase (.compareTail structs) ++
    loop logical (logical ++ phrase (.unary structs) ++ phrase (.compareTail structs))

/-- The upper end of a range is left out here, for looking ahead. -/
def upperEndMissing (structs : Bool) : Rule Phrase :=
  oneOf
    ([atEnd, pointAhead, key "as"] ++ (if structs then [] else [group .curly]) ++
      [",", ";", "?", "=>", "=", "+", "/", "%", "^", ">", "<=", "!=", "-=", "*=", "&=", "|=",
       "<<="].map sign)

/-- The dots of a range and its upper end. -/
def rangeRule (structs : Bool) : Rule Phrase :=
  let upper :=
    choose (sign "..") (phrase (.range structs))
      (phrase (.unary structs) ++ phrase (.logicTail structs))
  without (sign "...") ++
    choose (sign "..=") (sign "..=" ++ upper)
      (sign ".." ++ choose (upperEndMissing structs) nothing upper)

/-- What may follow the first operand of an expression. -/
def exprTailRule (structs : Bool) : Rule Phrase :=
  phrase (.logicTail structs) ++
    choose assignment (assignment ++ phrase (.expr structs))
      (opt (sign "..") (phrase (.range structs)))

def exprRule (structs : Bool) : Rule Phrase :=
  choose (sign "..") (phrase (.range structs))
    (phrase (.unary structs) ++ phrase (.exprTail structs))

/-- An operand with the operators in front of it. -/
def unaryRule (structs : Bool) : Rule Phrase :=
  let borrowed :=
    choose (key "raw" ++ anyKey ["mut", "const"]) (any ++ any) (opt (key "mut") any)
  choose (sign "#") (phrase .attributes ++ without (sign "..") ++ phrase (.unary structs))
    (choose (sign "&") (sign "&" ++ borrowed ++ phrase (.unary structs))
      (choose (oneOf [sign "*", sign "!", sign "-"]) (any ++ phrase (.unary structs))
        (choose (sign "..") (phrase (.range structs))
          (phrase (.atom structs) ++ phrase .trailers))))

def callArguments : Rule Phrase :=
  within .round (commaList (phrase (.expr true)))

/-- What follows the point of an access: an index, `await`, a field or a method call. -/
def member : Rule Phrase :=
  let named :=
    name ++
      choose (sign "::") (without (sign "::" ++ group .round) ++ phrase .arguments ++ callArguments)
        (opt (group .round) callArguments)
  choose (one .indexPair) any
    (opt (one .indexPoint) any ++
      choose (key "await") any (choose (one .index) any named))

/-- Calls, accesses, indexing and question marks after an operand. -/
def trailersRule : Rule Phrase :=
  loop (oneOf [group .round, group .square, sign "?", pointAhead])
    (choose (group .round) callArguments
      (choose (group .square) (within .square (phrase (.expr true)))
        (choose (sign "?") any (sign "." ++ member))))

def structFields : Rule Phrase :=
  let value :=
    choose (one .index) (any ++ sign ":" ++ phrase (.expr true))
      (name ++ opt (sign ":") (sign ":" ++ phrase (.expr true)))
  loop notAtEnd
    (choose (sign "..") (sign ".." ++ choose atEnd nothing (phrase (.expr true)) ++ atEnd)
      (phrase .attributes ++ value ++ choose atEnd nothing (sign ",")))

/-- A path, a macro call or a struct literal. -/
def pathExpr (structs : Bool) : Rule Phrase :=
  choose macroHead (macroHead ++ anyGroup)
    (phrase (.qualifiedPath true) ++
      if structs then opt (group .curly) (within .curly structFields) else nothing)

/-- The content of a pair of square brackets: a list, or a value and its count. -/
def arrayContent : Rule Phrase :=
  choose atEnd nothing
    (phrase (.expr true) ++
      choose (sign ";") (sign ";" ++ phrase (.expr true))
        (loop notAtEnd (sign "," ++ choose atEnd nothing (phrase (.expr true)))))

/-- An expression may start here, for looking ahead. -/
def exprAhead : Rule Phrase :=
  oneOf
    [one .anyWord, group .round, group .square, group .curly, literalAhead,
     without (sign "!=") ++ sign "!", without (sign "-=") ++ without (sign "->") ++ sign "-",
     without (sign "*=") ++ sign "*", without (sign "|=") ++ sign "|",
     without (sign "&=") ++ sign "&", sign "..",
     without (sign "<=") ++ without (sign "<<=") ++ sign "<", sign "::", one .lifetime, sign "#"]

def closureRule (structs : Bool) : Rule Phrase :=
  let input :=
    phrase .attributes ++ phrase .pattern ++ opt (sign ":") (sign ":" ++ phrase (.type true))
  opt (key "for") (phrase .binder) ++ opt (key "const") any ++ opt (key "static") any ++
    opt (key "async") any ++ opt (key "move") any ++ sign "|" ++
    separated (sign "|") (sign ",") input ++ sign "|" ++
    choose (sign "->") (sign "->" ++ phrase (.type true) ++ phrase .plainBlock)
      (phrase (.expr structs))

/-- A closure starts here, for looking ahead. -/
def closureAhead : Rule Phrase :=
  oneOf
    [sign "|", key "move", key "for" ++ sign "<" ++ oneOf [one .lifetime, sign ">"],
     without (any ++ group .curly) ++ key "const", key "static",
     key "async" ++ oneOf [sign "|", key "move"]]

/-- An expression that ends with a block starts here, for looking ahead. -/
def blockAhead : Rule Phrase :=
  oneOf
    [anyKey ["if", "while", "loop", "match", "unsafe"],
     without (any ++ sign "<" ++ oneOf [one .lifetime, sign ">"]) ++ key "for",
     key "try" ++ group .curly, key "const" ++ group .curly, group .curly, one .lifetime]

def ifElseRule : Rule Phrase :=
  key "if" ++ phrase (.expr false) ++ phrase .plainBlock ++
    opt (key "else") (key "else" ++ choose (key "if") (phrase .ifElse) (phrase .plainBlock))

/-- An expression that ends with a block. -/
def blockLikeRule : Rule Phrase :=
  opt (one .lifetime)
      (any ++ sign ":" ++ oneOf [anyKey ["while", "for", "loop"], group .curly]) ++
    choose (key "if") (phrase .ifElse)
    (choose (key "while") (key "while" ++ phrase (.expr false) ++ phrase .block)
    (choose (key "for")
      (key "for" ++ phrase .alternatives ++ key "in" ++ phrase (.expr false) ++ phrase .block)
    (choose (anyKey ["loop", "unsafe", "const"]) (any ++ phrase .block)
    (choose (key "try") (any ++ phrase .plainBlock)
    (choose (key "match")
      (key "match" ++ phrase (.expr false) ++
        within .curly (phrase .innerAttributes ++ loop notAtEnd (phrase .arm)))
      (phrase .block))))))

/-- One arm of a `match`. Its comma may be missing at the end and after a block. -/
def armRule : Rule Phrase :=
  let comma := choose atEnd nothing (sign ",")
  phrase .attributes ++ phrase .alternatives ++ opt (key "if") (key "if" ++ phrase (.expr true)) ++
    sign "=>" ++
    choose (phrase .attributes ++ blockAhead)
      (phrase .attributes ++ phrase .blockLike ++
        choose (oneOf [pointAhead, sign "?"])
          (phrase .trailers ++ phrase (.exprTail true) ++ comma) (opt (sign ",") any))
      (phrase (.expr true) ++ comma)

/-- An expression without operators around it. -/
def atomRule (structs : Bool) : Rule Phrase :=
  let result := opt exprAhead (phrase (.expr true))
  choose literalAhead literal
    (choose (key "async" ++ oneOf [group .curly, key "move" ++ group .curly])
      (key "async" ++ opt (key "move") any ++ phrase .plainBlock)
    (choose (key "try" ++ group .curly) (phrase .blockLike)
    (choose closureAhead (phrase (.closure structs))
    (choose (key "builtin" ++ sign "#") (any ++ any ++ name ++ group .round)
    (choose (oneOf [pathWord, sign "::", sign "<", key "try" ++ oneOf [sign "!", sign "::"]])
      (pathExpr structs)
    (choose (group .round) callArguments
    (choose (key "break")
      (key "break" ++ opt (one .lifetime) (any ++ without (sign ":")) ++
        (if structs then opt exprAhead (phrase (.expr true))
        else opt (without (group .curly) ++ exprAhead) (phrase (.expr false))))
    (choose (key "continue") (key "continue" ++ opt (one .lifetime) any)
    (choose (anyKey ["return", "yield"]) (any ++ result)
    (choose (key "become") (any ++ phrase (.expr true))
    (choose (group .square) (within .square arrayContent)
    (choose (key "let")
      (key "let" ++ phrase .alternatives ++ sign "=" ++ phrase (.unary structs) ++
        phrase (.compareTail structs))
    (choose (key "_") any
    (choose blockAhead (phrase .blockLike) never))))))))))))))

def statements : Rule Phrase :=
  loop notAtEnd (choose (sign ";") any (phrase .statement))

/-- An item starts here, for looking ahead. -/
def itemAhead : Rule Phrase :=
  oneOf
    [anyKey
       ["pub", "extern", "use", "fn", "mod", "type", "struct", "enum", "trait", "impl", "macro"],
     key "crate" ++ without (sign "::"), key "static" ++ oneOf [key "mut", name],
     key "const" ++
       without
         (oneOf
           [group .curly, anyKey ["static", "move"], sign "|",
            key "async" ++ without (anyKey ["unsafe", "extern", "fn"])]),
     key "unsafe" ++ without (group .curly), key "async" ++ anyKey ["unsafe", "extern", "fn"],
     key "union" ++ name, key "auto" ++ key "trait", key "default" ++ anyKey ["unsafe", "impl"],
     wordPath pathWord ++ sign "!" ++ oneOf [name, key "try"]]

def statementRule : Rule Phrase :=
  let done := choose atEnd nothing (sign ";")
  let binding :=
    key "let" ++ phrase .pattern ++ opt (sign ":") (sign ":" ++ phrase (.type true)) ++
      opt (without (sign "==") ++ sign "=")
        (sign "=" ++ phrase (.expr true) ++ opt (key "else") (key "else" ++ phrase .plainBlock)) ++
      sign ";"
  phrase .attributes ++
    choose (macroHead ++ group .curly ++ without (oneOf [pointAhead, sign "?"]))
      (macroHead ++ any ++ opt (sign ";") any)
      (choose (key "let") binding
        (choose itemAhead (phrase .item)
          (choose blockAhead
            (phrase .blockLike ++
              choose (oneOf [pointAhead, sign "?"])
                (phrase .trailers ++ phrase (.exprTail true) ++ done) (opt (sign ";") any))
            (phrase (.expr true) ++ done))))

end ModelMend.Grammar
