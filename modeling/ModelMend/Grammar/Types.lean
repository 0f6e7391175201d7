import ModelMend.Grammar.Phrase

/-!
# Paths, bounds and types

The rules for paths with generic arguments, for trait bounds and for types.
-/

namespace ModelMend.Grammar

open Rule Phrase

/-- Generic arguments follow a path segment, for looking ahead. -/
def argumentsAhead (inExpr : Bool) : Rule Phrase :=
  oneOf ((if inExpr then [] else [without (sign "<=") ++ without (sign "<<=") ++ sign "<"]) ++
    [sign "::" ++ sign "<"])

/-- A further segment follows in a path, for looking ahead. -/
def segmentAhead : Rule Phrase :=
  without (sign "::" ++ group .round) ++ sign "::"

def segmentRule (inExpr : Bool) : Rule Phrase :=
  choose (anyKey ["super", "self", "crate", "try"]) any
    (choose (key "Self") any name ++ opt (argumentsAhead inExpr) (phrase .arguments))

def furtherSegments (inExpr : Bool) : Rule Phrase :=
  loop segmentAhead (sign "::" ++ phrase (.segment inExpr))

def pathRule (inExpr : Bool) : Rule Phrase :=
  opt (sign "::") (sign "::") ++ phrase (.segment inExpr) ++ furtherSegments inExpr

/-- The head of a qualified path: a type, perhaps seen as a trait, between angle brackets. -/
def selfType : Rule Phrase :=
  sign "<" ++ phrase (.type true) ++ opt (key "as") (key "as" ++ phrase (.path false)) ++
    sign ">" ++ sign "::"

def qualifiedPathRule (inExpr : Bool) : Rule Phrase :=
  choose (sign "<")
    (selfType ++ phrase (.segment inExpr) ++
      loop (sign "::") (sign "::" ++ phrase (.segment inExpr)))
    (phrase (.path inExpr))

def argumentsRule : Rule Phrase :=
  opt (sign "::") (sign "::") ++ sign "<" ++ separated (sign ">") (sign ",") (phrase .argument) ++
    sign ">"

def constArgument : Rule Phrase :=
  choose literalAhead literal (phrase .block)

/-- A constant can be read as a generic argument, for looking ahead. -/
def constAhead : Rule Phrase :=
  oneOf [literalAhead, group .curly]

/-- A bound may start here, for looking ahead. -/
def boundAhead (const : Bool) : Rule Phrase :=
  oneOf ([one .anyWord, sign "::", sign "?", one .lifetime, group .round] ++
    if const then [group .square] else [])

/-- Bounds that go on after a first one; a last plus sign may stand alone. -/
def furtherBounds (precise const : Bool) : Rule Phrase :=
  loop (sign "+" ++ boundAhead const) (sign "+" ++ phrase (.bound precise const)) ++
    opt (sign "+") (sign "+")

/-- Bounds of which at least one is no lifetime. -/
def traitBounds (plus precise const : Bool) : Rule Phrase :=
  let lifetimesOnly :=
    if plus then
      one .lifetime ++ loop (sign "+" ++ one .lifetime) (sign "+" ++ one .lifetime) ++
        opt (sign "+") (sign "+") ++ without (boundAhead const)
    else one .lifetime
  without lifetimesOnly ++ phrase (.bound precise const) ++
    if plus then furtherBounds precise const else nothing

/-- One generic argument: a lifetime, a constant, a type, or a name with its value or its
bounds. -/
def argumentRule : Rule Phrase :=
  choose (one .lifetime ++ without (sign "+")) any
    (choose constAhead constArgument
      (choose macroHead (phrase (.type true))
        (choose pathWord
          (phrase (.segment false) ++
            choose (sign "=") (sign "=" ++ choose constAhead constArgument (phrase (.type true)))
              (choose (without (sign "::") ++ sign ":")
                (sign ":" ++ separated (oneOf [sign ",", sign ">"]) (sign "+")
                  (phrase (.bound false true)))
                (furtherSegments false ++ furtherBounds false false)))
          (phrase (.type true)))))

/-- Lifetimes bound in front of a type or a bound. -/
def binderRule : Rule Phrase :=
  key "for" ++ sign "<" ++
    separated (sign ">") (sign ",") (phrase .attributes ++ one .lifetime) ++ sign ">"

/-- The result of a function, if it is named. -/
def resultRule : Rule Phrase :=
  opt (sign "->") (sign "->" ++ phrase (.type false))

/-- The path of a trait, whose last segment may have arguments in round brackets. -/
def traitPathRule : Rule Phrase :=
  let further := opt segmentAhead (sign "::" ++ phrase .traitPath)
  let inputs :=
    opt (sign "::") (sign "::") ++ within .round (commaList (phrase (.type true))) ++ resultRule
  let rest := choose (oneOf [group .round, sign "::" ++ group .round]) inputs further
  choose (anyKey ["super", "self", "crate", "try"]) (any ++ rest)
    (choose (key "Self") any name ++
      choose (argumentsAhead false) (phrase .arguments ++ further) rest)

def traitBoundRule (const : Bool) : Rule Phrase :=
  let constness :=
    if const then
      choose (group .square) (within .square (key "const")) (opt (key "const") (key "const"))
    else nothing
  choose (key "for") (phrase .binder ++ constness ++ without (sign "?"))
      (constness ++ opt (sign "?") (sign "?" ++ opt (key "for") (phrase .binder))) ++
    opt (sign "::") (sign "::") ++ phrase .traitPath

/-- One bound: a lifetime, a list of captured names, or a trait, perhaps in round brackets. -/
def boundRule (precise const : Bool) : Rule Phrase :=
  choose (one .lifetime) any
    (choose (key "use")
      (if precise then
        key "use" ++ sign "<" ++
          separated (sign ">") (sign ",")
            (choose (one .lifetime) any (choose (key "Self") any name)) ++ sign ">"
      else never)
      (choose (group .round) (within .round (phrase (.traitBound const)))
        (phrase (.traitBound const))))

/-- A type that starts with a path, or a macro call in its place. -/
def pathType (plus : Bool) : Rule Phrase :=
  choose macroHead (macroHead ++ anyGroup)
    (phrase (.path false) ++ if plus then furtherBounds false false else nothing)

/-- A type in round brackets, a tuple, or bounds of which the first stands in brackets. -/
def roundType (plus : Bool) : Rule Phrase :=
  let moreBounds := loop (sign "+") (sign "+" ++ phrase (.bound false false))
  let tail := loop notAtEnd (sign "," ++ choose atEnd nothing (phrase (.type true)))
  let content :=
    choose atEnd nothing
      (choose (one .lifetime) (traitBounds true false false)
        (phrase (.type true) ++ opt (sign ",") tail))
  let single := opt (key "for") (phrase .binder) ++ phrase (.path false)
  choose (within .round (sign "?" ++ remainder))
    (within .round (phrase (.traitBound false)) ++ moreBounds)
    (choose (if plus then group .round ++ sign "+" else never)
      (within .round single ++ moreBounds) (within .round content))

/-- The calling convention of a function type. -/
def convention : Rule Phrase :=
  opt (key "extern") (key "extern" ++ opt (one .string) any)

/-- One input of a function type; the first may be a receiver. -/
def functionInputRule : Rule Phrase :=
  let named := without (any ++ sign "::") ++ any ++ sign ":"
  choose (key "mut" ++ key "self")
    (any ++ any ++ opt (without (sign "::") ++ sign ":") (sign ":" ++ phrase (.type true)))
    (opt (oneOf [name ++ nothing, key "_", key "self"] ++ named) (any ++ sign ":") ++
      phrase (.type true))

def functionType : Rule Phrase :=
  let variadic :=
    oneOf [sign "...", oneOf [name, key "_"] ++ any ++ sign ":" ++ sign "..."]
  let inputs :=
    loop notAtEnd
      (phrase .attributes ++
        choose variadic
          (opt (one .anyWord) (any ++ sign ":") ++ sign "..." ++ opt (sign ",") (sign ",") ++ atEnd)
          (phrase .functionInput ++ choose atEnd nothing (sign ",")))
  opt (key "for") (phrase .binder) ++ opt (key "unsafe") (key "unsafe") ++ convention ++ key "fn" ++
    within .round inputs ++ resultRule

def typeRule (plus : Bool) : Rule Phrase :=
  let functionAhead := anyKey ["fn", "unsafe", "extern"]
  choose (key "for")
    (phrase .binder ++ choose functionAhead functionType (choose pathWord (pathType plus) never))
    (choose (group .round) (roundType plus)
    (choose functionAhead functionType
    (choose (sign "<") (phrase (.qualifiedPath false))
    (choose (oneOf [pathWord, sign "::"]) (pathType plus)
    (choose (key "dyn")
      (key "dyn" ++ opt (sign "*") (sign "*") ++ traitBounds plus false false)
    (choose (group .square)
      (within .square (phrase (.type true) ++ opt (sign ";") (sign ";" ++ phrase (.expr true))))
    (choose (sign "*")
      (sign "*" ++ choose (anyKey ["const", "mut"]) any never ++ phrase (.type false))
    (choose (sign "&")
      (sign "&" ++ opt (one .lifetime) any ++ opt (key "mut") any ++ phrase (.type false))
    (choose (sign "!") (sign "!")
    (choose (key "impl") (key "impl" ++ traitBounds plus true true)
    (choose (key "_") any
    (choose (one .lifetime) (traitBounds true false false) never))))))))))))

end ModelMend.Grammar
