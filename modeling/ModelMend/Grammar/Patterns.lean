import ModelMend.Grammar.Phrase

/-!
# Patterns

The rules for the patterns of `let`, `for`, `match` and closures.
-/

namespace ModelMend.Grammar

open Rule Phrase

/-- The end of a range pattern is left out here, for looking ahead. -/
def rangeEndMissing : Rule Phrase :=
  oneOf [atEnd, sign "|", sign "=", without (sign "::") ++ sign ":", sign ",", sign ";", key "if"]

def rangeBound : Rule Phrase :=
  choose literalAhead literal
    (choose (oneOf [pathWord, sign "::", sign "<"]) (phrase (.qualifiedPath true))
      (key "const" ++ phrase .block))

/-- The dots of a range pattern and its upper end, which may be missing after two dots only. -/
def rangeRest : Rule Phrase :=
  choose (oneOf [sign "..=", sign "..."])
    (choose (sign "..=") (sign "..=") (sign "...") ++ without rangeEndMissing ++ rangeBound)
    (sign ".." ++ choose rangeEndMissing nothing rangeBound)

def patternList : Rule Phrase :=
  commaList (phrase .alternatives)

def fieldPattern : Rule Phrase :=
  choose (anyKey ["box", "ref", "mut"])
    (opt (key "box") any ++ opt (key "ref") any ++ opt (key "mut") any ++ name)
    (choose (one .index) (any ++ sign ":" ++ phrase .alternatives)
      (name ++ opt (sign ":") (sign ":" ++ phrase .alternatives)))

/-- The fields of a struct pattern; two dots may stand last. -/
def fieldPatterns : Rule Phrase :=
  loop notAtEnd
    (phrase .attributes ++
      choose (sign "..") (sign ".." ++ atEnd) (fieldPattern ++ choose atEnd nothing (sign ",")))

def pathPattern : Rule Phrase :=
  choose macroHead (macroHead ++ anyGroup)
    (phrase (.qualifiedPath true) ++
      choose (group .curly) (within .curly fieldPatterns)
        (choose (group .round) (within .round patternList) (opt (sign "..") rangeRest)))

/-- A pattern without alternatives at its top. -/
def patternRule : Rule Phrase :=
  let pathAhead :=
    oneOf
      [name ++ oneOf [sign "::", sign "!", group .curly, group .round, sign ".."],
       key "self" ++ sign "::", sign "::", sign "<", anyKey ["Self", "super", "crate"]]
  choose pathAhead pathPattern
    (choose (key "_") any
    (choose (key "box") (key "box" ++ phrase .pattern)
    (choose (oneOf [sign "-", literalAhead, key "const"])
      (rangeBound ++ opt (sign "..") rangeRest)
    (choose (oneOf [anyKey ["ref", "mut", "self"], name])
      (opt (key "ref") any ++ opt (key "mut") any ++ choose (key "self") any name ++
        opt (sign "@") (sign "@" ++ phrase .pattern))
    (choose (sign "&") (sign "&" ++ opt (key "mut") any ++ phrase .pattern)
    (choose (group .round) (within .round patternList)
    (choose (group .square) (within .square patternList)
    (choose (sign "..")
      (choose (oneOf [sign "..=", sign "..."]) (sign "..=" ++ without rangeEndMissing ++ rangeBound)
        (sign ".." ++ choose rangeEndMissing nothing rangeBound))
      never))))))))

/-- Patterns with bars between them, perhaps after a leading bar. -/
def alternativesRule : Rule Phrase :=
  opt (sign "|") (sign "|") ++ phrase .pattern ++
    loop (without (sign "||") ++ without (sign "|=") ++ sign "|") (sign "|" ++ phrase .pattern)

end ModelMend.Grammar
