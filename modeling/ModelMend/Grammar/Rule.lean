import ModelMend.Token.Literal

/-!
# Rules of a predictive grammar

A grammar is a table from the names of its phrases to rules. A rule says what the front of a token
list must look like; `Rule.run` takes that front away. Alternatives are predictive: `choose`
decides by looking ahead and never goes back on the decision, so a text that fails anywhere fails
as a whole.

`run` is bounded by fuel. `Rule.accepts` supplies enough of it for the number of tokens: between
two tokens a grammar passes through a fixed number of rules.
-/

namespace ModelMend.Grammar

/-- The classes of single tokens that a rule can ask for. -/
inductive TokenClass where
  /-- An identifier that is no keyword. -/
  | plainName
  /-- Any word, keywords and the underscore included. -/
  | anyWord
  | lifetime
  | literal
  | string
  /-- An integer or a number with a fraction or an exponent. -/
  | number
  /-- An integer without a suffix, of at most 32 bits. -/
  | index
  /-- Two unsuffixed integers with a point between them, read as one number. -/
  | indexPair
  /-- An unsuffixed integer with a point after it, read as one number. -/
  | indexPoint
deriving DecidableEq, Repr

namespace TokenClass

/-- The base of an unsuffixed integer, and its digits. -/
def baseAndDigits : List Char → Nat × List Char
  | '0' :: 'x' :: rest => (16, rest)
  | '0' :: 'o' :: rest => (8, rest)
  | '0' :: 'b' :: rest => (2, rest)
  | text => (10, text)

/-- The text is an unsuffixed integer that fits into 32 bits. -/
def isIndex (text : List Char) : Bool :=
  let (base, digits) := baseAndDigits (text.filter (· != '_'))
  let value? (sum? : Option Nat) (c : Char) :=
    sum?.bind fun sum => ((Literal.hexDigit? c).filter (· < base)).map (base * sum + ·)
  !digits.isEmpty && (digits.foldl value? (some 0)).any (· < 0x100000000)

def has : TokenClass → Token → Bool
  | plainName, .word name => Token.isPlainName name
  | anyWord, .word _ => true
  | lifetime, .lifetime _ => true
  | literal, .literal _ _ => true
  | literal, .word name => name == "true".toList || name == "false".toList
  | string, .literal .string _ => true
  | number, .literal .integer _ => true
  | number, .literal .float _ => true
  | index, .literal .integer text => isIndex text
  | indexPair, .literal .float text =>
    isIndex (text.takeWhile (· != '.')) && isIndex ((text.dropWhile (· != '.')).drop 1)
  | indexPoint, .literal .float text =>
    isIndex (text.takeWhile (· != '.')) && text.dropWhile (· != '.') == ['.']
  | _, _ => false

end TokenClass

/-- What the front of a token list must look like. `P` names the phrases of the grammar. -/
inductive Rule (P : Type) where
  /-- Takes nothing. -/
  | nothing
  /-- Fails. -/
  | never
  /-- Takes nothing, and fails unless no token is left. -/
  | atEnd
  /-- Takes punctuation characters that adjoin each other. -/
  | op (chars : List Char)
  /-- Takes exactly this word. -/
  | word (name : List Char)
  /-- Takes one token of the class. -/
  | one (kind : TokenClass)
  /-- Takes any one token. -/
  | any
  /-- Takes a group, whatever it holds. -/
  | group (delimiter : Delimiter)
  /-- Takes a group whose whole content follows the rule. -/
  | within (delimiter : Delimiter) (body : Rule P)
  | seq (first second : Rule P)
  /-- Goes on with `yes` if `look` fits here, and with `no` otherwise. -/
  | choose (look yes no : Rule P)
  /-- Takes `body` as often as `look` fits. -/
  | loop (look body : Rule P)
  /-- Takes the phrase of this name. -/
  | named (name : P)

namespace Rule

variable {P : Type}

instance : Append (Rule P) := ⟨seq⟩

/-- Takes `body` if it is foreseen by `look`. -/
def opt (look body : Rule P) : Rule P :=
  choose look body nothing

/-- Looks ahead for something that must not stand here. -/
def without (look : Rule P) : Rule P :=
  choose look never nothing

def oneOf : List (Rule P) → Rule P
  | [] => never
  | look :: looks => choose look nothing (oneOf looks)

def notAtEnd : Rule P :=
  without atEnd

def remainder : Rule P :=
  loop notAtEnd any

/-- Takes items with separators between them, and perhaps one after the last, up to `stop`. -/
def separated (stop separator item : Rule P) : Rule P :=
  choose stop nothing (item ++ loop (without stop) (separator ++ choose stop nothing item))

/-- Takes items with commas between them, and perhaps one after the last, up to the end. -/
def commaList (item : Rule P) : Rule P :=
  separated atEnd (op [',']) item

/-- Takes the given punctuation from the front of the tokens. -/
def takeOp : List Char → List Token → Option (List Token)
  | [], tokens => some tokens
  | [c], .punct d _ :: tokens => if c = d then some tokens else none
  | c :: next :: chars, .punct d true :: tokens =>
    if c = d then takeOp (next :: chars) tokens else none
  | _, _ => none

/-- Takes one token that passes the test. -/
def takeOne (test : Token → Bool) : List Token → Option (List Token)
  | token :: tokens => if test token then some tokens else none
  | [] => none

/-- The token is a group with these brackets. -/
def isGroup (delimiter : Delimiter) : Token → Bool
  | .group other _ => delimiter == other
  | _ => false

def isWord (name : List Char) : Token → Bool
  | .word other => name == other
  | _ => false

/-- The tokens that are left when the rule has taken its front, or nothing if the front does not
follow the rule or the fuel runs out. -/
def run (grammar : P → Rule P) : Nat → Rule P → List Token → Option (List Token)
  | 0, _, _ => none
  | _ + 1, nothing, tokens => some tokens
  | _ + 1, never, _ => none
  | _ + 1, atEnd, tokens => if tokens.isEmpty then some tokens else none
  | _ + 1, op chars, tokens => takeOp chars tokens
  | _ + 1, word name, tokens => takeOne (isWord name) tokens
  | _ + 1, one kind, tokens => takeOne kind.has tokens
  | _ + 1, any, tokens => takeOne (fun _ => true) tokens
  | _ + 1, group delimiter, tokens => takeOne (isGroup delimiter) tokens
  | fuel + 1, within delimiter body, tokens =>
    match tokens with
    | .group other content :: rest =>
      if delimiter = other then
        match run grammar fuel body content with
        | some [] => some rest
        | _ => none
      else none
    | _ => none
  | fuel + 1, seq first second, tokens =>
    match run grammar fuel first tokens with
    | some rest => run grammar fuel second rest
    | none => none
  | fuel + 1, choose look yes no, tokens =>
    match run grammar fuel look tokens with
    | some _ => run grammar fuel yes tokens
    | none => run grammar fuel no tokens
  | fuel + 1, loop look body, tokens =>
    match run grammar fuel look tokens with
    | some _ =>
      match run grammar fuel body tokens with
      | some rest => run grammar fuel (loop look body) rest
      | none => none
    | none => some tokens
  | fuel + 1, named name, tokens => run grammar fuel (grammar name) tokens

theorem run_append (grammar : P → Rule P) (fuel : Nat) (first second : Rule P)
    (tokens : List Token) : run grammar (fuel + 1) (first ++ second) tokens =
      (run grammar fuel first tokens).bind (run grammar fuel second) := by
  change run grammar (fuel + 1) (.seq first second) tokens = _
  rw [run]
  cases run grammar fuel first tokens <;> rfl

/-- Fuel that suffices for these tokens. -/
def fuelFor (tokens : List Token) : Nat :=
  512 * (Token.weightAll tokens + 1)

/-- The tokens left after the front that the rule takes. -/
def rest? (grammar : P → Rule P) (rule : Rule P) (tokens : List Token) : Option (List Token) :=
  run grammar (fuelFor tokens) rule tokens

/-- The tokens as a whole follow the rule. -/
def accepts (grammar : P → Rule P) (rule : Rule P) (tokens : List Token) : Bool :=
  (rest? grammar rule tokens).any List.isEmpty

end Rule

end ModelMend.Grammar
