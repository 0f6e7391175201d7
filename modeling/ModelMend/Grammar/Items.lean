import ModelMend.Grammar.Types

/-!
# Items

The rules for the items among the statements of a block: functions, constants, types, imports, traits,
implementations, modules and macros. An item is read after its attributes, and so are the members of
traits, implementations and foreign modules.
-/

namespace ModelMend.Grammar

open Rule Phrase

/-- Who may see an item. What stands in brackets after `pub` belongs to it if it names a place. -/
def visibility : Rule Phrase :=
  let place := anyKey ["crate", "self", "super"] ++ any
  opt (key "pub")
    (any ++
      choose (within .round place) any
        (opt (within .round (key "in" ++ remainder)) (within .round (key "in" ++ wordPath pathWord))))

/-- The name of a macro and its exclamation mark, where an item stands. -/
def itemMacroHead : Rule Phrase :=
  without (key "Self") ++ wordPath pathWord ++ sign "!"

/-- What a macro is called with; a semicolon follows unless it stands in braces. -/
def macroInput : Rule Phrase :=
  choose (group .curly) any (anyGroup ++ sign ";")

/-- An equals sign and a value, if they are there. -/
def valueRule : Rule Phrase :=
  opt (sign "=") (any ++ phrase (.expr true))

/-! ## Generics -/

/-- Bounds with plus signs between them, and perhaps one after the last, up to `stop`. -/
def boundsUpTo (stop : Rule Phrase) : Rule Phrase :=
  separated stop (sign "+") (phrase (.bound false true))

def genericParameter : Rule Phrase :=
  let lifetimes := separated (oneOf [atEnd, sign ",", sign ">"]) (sign "+") (one .lifetime)
  let bounds := boundsUpTo (oneOf [atEnd, sign ",", sign ">", sign "="])
  phrase .attributes ++
    choose (one .lifetime) (any ++ opt (sign ":") (any ++ lifetimes))
      (choose name
        (any ++ opt (sign ":") (any ++ bounds) ++ opt (sign "=") (any ++ phrase (.type true)))
        (choose (key "const")
          (any ++ name ++ sign ":" ++ phrase (.type true) ++
            opt (sign "=") (any ++ choose name any constArgument))
          (key "_")))

def genericsRule : Rule Phrase :=
  opt (sign "<") (any ++ separated (sign ">") (sign ",") genericParameter ++ sign ">")

/-- A where clause ends here, for looking ahead. -/
def clauseEnd : Rule Phrase :=
  oneOf [atEnd, group .curly, sign ";", without (sign "::") ++ sign ":", sign "="]

/-- What a where clause asks of a lifetime or a type. -/
def predicate : Rule Phrase :=
  let stop := oneOf [clauseEnd, sign ","]
  choose (one .lifetime ++ sign ":") (any ++ any ++ separated stop (sign "+") (one .lifetime))
    (opt (key "for") (phrase .binder) ++ phrase (.type true) ++ sign ":" ++ boundsUpTo stop)

def whereClauseRule : Rule Phrase :=
  opt (key "where")
    (any ++
      loop (without (oneOf [clauseEnd, sign ","])) (predicate ++ choose (sign ",") any clauseEnd))

/-! ## Functions -/

def unsafety : Rule Phrase :=
  opt (key "unsafe") any

/-- What stands in front of the name of a function. A function of a foreign module may be safe. -/
def functionHead (isForeign : Bool) : Rule Phrase :=
  opt (key "const") any ++ opt (key "async") any ++
    (if isForeign then choose (key "safe") any unsafety else unsafety) ++ convention ++ key "fn"

/-- The receiver of a method. -/
def receiver : Rule Phrase :=
  choose (sign "&") (any ++ opt (one .lifetime) any ++ opt (key "mut") any ++ key "self")
    (opt (key "mut") any ++ key "self" ++ opt (sign ":") (any ++ phrase (.type true)))

/-- One parameter of a function and its comma. Only the first may be a receiver, and only the last may
stand for any number of arguments. -/
def parameter (isFirst : Bool) : Rule Phrase :=
  let rest := sign "..." ++ opt (sign ",") any ++ atEnd
  let comma := choose atEnd nothing (sign ",")
  let typed := phrase (.type true) ++ comma
  phrase .attributes ++
    choose (sign "...") rest
      (choose receiver (if isFirst then receiver ++ comma else never)
        (choose (name ++ sign "<") typed
          (phrase .pattern ++ sign ":" ++ choose (sign "...") rest typed)))

/-- A function up to its body. -/
def signature (isForeign : Bool) : Rule Phrase :=
  functionHead isForeign ++ name ++ phrase .generics ++
    within .round (opt notAtEnd (parameter true) ++ loop notAtEnd (parameter false)) ++
    opt (sign "->") (sign "->" ++ phrase (.type true)) ++ phrase .whereClause

/-- The body of a function, or a semicolon in its place. -/
def bodyOrNone : Rule Phrase :=
  choose (group .curly) (phrase .block) (sign ";")

/-! ## Constants and types -/

def constItem : Rule Phrase :=
  key "const" ++ choose (key "_") any name ++ phrase .generics ++ sign ":" ++ phrase (.type true) ++
    valueRule ++ phrase .whereClause ++ sign ";"

/-- A static; in a foreign module its type may not be missing. -/
def staticItem (isForeign : Bool) : Rule Phrase :=
  let typed := sign ":" ++ phrase (.type true) ++ valueRule
  key "static" ++ opt (key "mut") any ++ name ++
    (if isForeign then typed else choose (sign "=") valueRule typed) ++ sign ";"

/-- The name of a type, with its bounds and its definition if it has them. The where clause stands
before the definition, after it, or on one of both sides. -/
def typeAlias (before after : Bool) : Rule Phrase :=
  let definition := opt (sign "=") (any ++ phrase (.type true))
  let clauseAfter := if after then definition ++ phrase .whereClause else definition
  key "type" ++ name ++ phrase .generics ++
    opt (sign ":") (any ++ boundsUpTo (oneOf [key "where", sign "=", sign ";"])) ++
    (if before then choose (key "where") (phrase .whereClause ++ definition) clauseAfter
      else clauseAfter) ++ sign ";"

/-- Fields in braces; a field without a name may hold the fields of a struct or a union. -/
def fieldsRule : Rule Phrase :=
  let type := phrase (.type true)
  let unnamed :=
    choose (oneOf [key "struct", key "union" ++ group .curly]) (any ++ phrase .fields) type
  within .curly
    (commaList
      (phrase .attributes ++ visibility ++
        choose (key "_") (any ++ sign ":" ++ unnamed) (name ++ sign ":" ++ type)))

def tupleFields : Rule Phrase :=
  within .round (commaList (phrase .attributes ++ visibility ++ phrase (.type true)))

def structItem : Rule Phrase :=
  let fieldsOrNone := choose (group .curly) (phrase .fields) (sign ";")
  key "struct" ++ name ++ phrase .generics ++
    choose (group .round) (tupleFields ++ phrase .whereClause ++ sign ";")
      (phrase .whereClause ++ fieldsOrNone)

def enumItem : Rule Phrase :=
  let variant :=
    phrase .attributes ++ visibility ++ name ++
      choose (group .curly) (phrase .fields) (opt (group .round) tupleFields) ++ valueRule
  key "enum" ++ name ++ phrase .generics ++ phrase .whereClause ++ within .curly (commaList variant)

def unionItem : Rule Phrase :=
  key "union" ++ name ++ phrase .generics ++ phrase .whereClause ++ phrase .fields

/-! ## Imports -/

/-- What is imported, perhaps after two colons. -/
def rootedTree : Rule Phrase :=
  choose (sign "::") (sign "::" ++ phrase (.importTree false)) (phrase (.importTree true))

/-- What is imported: a name, a path to more, everything, or several trees in braces, which may start
with two colons where nothing precedes them. -/
def importTreeRule (mayRoot : Bool) : Rule Phrase :=
  choose (oneOf [name, anyKey ["self", "super", "crate", "try"]])
    (any ++
      choose (sign "::") (sign "::" ++ phrase (.importTree false))
        (opt (key "as") (any ++ choose (key "_") any name)))
    (choose (sign "*") any
      (within .curly (commaList (if mayRoot then rootedTree else phrase (.importTree false)))))

def importItem : Rule Phrase :=
  key "use" ++ rootedTree ++ sign ";"

def externCrate : Rule Phrase :=
  key "extern" ++ key "crate" ++ choose (key "self") any name ++
    opt (key "as") (any ++ choose (key "_") any name) ++ sign ";"

/-! ## Traits, implementations and modules -/

/-- The members in braces. -/
def members (place : MemberPlace) : Rule Phrase :=
  within .curly
    (phrase .innerAttributes ++ loop notAtEnd (phrase .attributes ++ phrase (.member place)))

/-- One member after its attributes. -/
def memberRule : MemberPlace → Rule Phrase
  | .foreignModule =>
    choose itemMacroHead (itemMacroHead ++ macroInput)
      (visibility ++
        choose (functionHead true) (signature true ++ bodyOrNone)
          (choose (key "type") (typeAlias true true)
            (opt (anyKey ["unsafe", "safe"]) any ++ staticItem true)))
  | place =>
    -- In a trait, the word `default` in front of an exclamation mark is no name of a macro.
    let callAhead :=
      if place = .traitBody then without (key "default") ++ itemMacroHead else itemMacroHead
    choose callAhead (itemMacroHead ++ macroInput)
      (visibility ++ opt (key "default") any ++
        choose (functionHead false) (signature false ++ bodyOrNone)
          (choose (key "const") constItem (typeAlias false true)))

/-- A trait, or another name for bounds. -/
def traitItem : Rule Phrase :=
  let body :=
    opt (sign ":") (any ++ boundsUpTo (oneOf [key "where", group .curly])) ++ phrase .whereClause ++
      members .traitBody
  let shorthand :=
    sign "=" ++
      separated (oneOf [key "where", sign ";"]) (sign "+") (phrase (.bound false false)) ++
      phrase .whereClause ++ sign ";"
  choose (key "trait") (any ++ name ++ phrase .generics ++ choose (sign "=") shorthand body)
    (unsafety ++ opt (key "auto") any ++ key "trait" ++ name ++ phrase .generics ++ body)

/-- The angle brackets after `impl` hold generics, and no type, for looking ahead. -/
def genericsAhead : Rule Phrase :=
  sign "<" ++
    oneOf
      [sign ">", sign "#", key "const",
       oneOf [one .lifetime, name] ++ any ++
         oneOf [sign ">", sign ",", without (sign "::") ++ sign ":", sign "="]]

def implItem : Rule Phrase :=
  opt (key "default") any ++ unsafety ++ key "impl" ++ opt genericsAhead (phrase .generics) ++
    opt (oneOf [key "const", sign "?" ++ key "const"]) (opt (sign "?") any ++ any) ++
    opt (sign "!" ++ without (group .curly)) any ++ phrase (.type true) ++
    opt (key "for") (any ++ phrase (.type true)) ++ phrase .whereClause ++ members .implBody

def foreignModuleHead : Rule Phrase :=
  unsafety ++ key "extern" ++ opt (one .string) any

def moduleItem : Rule Phrase :=
  unsafety ++ key "mod" ++ choose (key "try") any name ++
    choose (sign ";") any
      (within .curly
        (phrase .innerAttributes ++ loop notAtEnd (phrase .attributes ++ phrase .item)))

def macroDefinition : Rule Phrase :=
  key "macro" ++ name ++ opt (group .round) any ++ group .curly

/-- One item after its attributes. A macro call and a foreign module have no visibility. -/
def itemRule : Rule Phrase :=
  choose itemMacroHead (itemMacroHead ++ opt (oneOf [name, key "try"]) any ++ macroInput)
  (choose (foreignModuleHead ++ group .curly) (foreignModuleHead ++ members .foreignModule)
  (visibility ++
    choose (functionHead false) (signature false ++ bodyOrNone)
    (choose (key "extern") externCrate
    (choose (key "use") importItem
    (choose (key "static") (staticItem false)
    (choose (key "const") constItem
    (choose (unsafety ++ key "mod") moduleItem
    (choose (key "type") (typeAlias true false)
    (choose (key "struct") structItem
    (choose (key "enum") enumItem
    (choose (key "union" ++ name) unionItem
    (choose (unsafety ++ opt (key "auto") any ++ key "trait") traitItem
    (choose (key "macro") macroDefinition implItem)))))))))))))

end ModelMend.Grammar
