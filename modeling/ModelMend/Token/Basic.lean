/-!
# Tokens

The text of an attribute or of a type is read as a list of token trees: words, lifetimes,
punctuation, literals, and groups between matching brackets. A raw identifier keeps its `r#` as
part of its name, so that it never equals a keyword or a plain name.
-/

namespace ModelMend

inductive Delimiter where
  | round
  | square
  | curly
deriving DecidableEq, Repr

/-- What a literal is, as far as the grammar tells literals apart. -/
inductive LiteralKind where
  /-- A string literal, plain or raw. -/
  | string
  | integer
  | float
  /-- A character, a byte, a byte string or a C string. -/
  | other
deriving DecidableEq, Repr

/-- A token tree. -/
inductive Token where
  /-- An identifier or a keyword. -/
  | word (name : List Char)
  /-- A name after a single quote. -/
  | lifetime (name : List Char)
  /-- One punctuation character; `joint` says that another one follows at once. -/
  | punct (char : Char) (joint : Bool)
  | literal (kind : LiteralKind) (text : List Char)
  /-- A pair of matching brackets and what stands between them. -/
  | group (delimiter : Delimiter) (content : List Token)
deriving Repr

namespace Token

mutual

/-- The number of tokens in a tree, its groups counted as well. -/
def weight : Token → Nat
  | word _ => 1
  | lifetime _ => 1
  | punct _ _ => 1
  | literal _ _ => 1
  | group _ content => weightAll content + 1

/-- The number of tokens in a list of trees. -/
def weightAll : List Token → Nat
  | [] => 0
  | token :: tokens => weight token + weightAll tokens

end

/-- The words that are never read as a plain name. -/
def keywords : List (List Char) :=
  ["_", "abstract", "as", "async", "await", "become", "box", "break", "const", "continue", "crate",
   "do", "dyn", "else", "enum", "extern", "false", "final", "fn", "for", "if", "impl", "in", "let",
   "loop", "macro", "match", "mod", "move", "mut", "override", "priv", "pub", "ref", "return",
   "Self", "self", "static", "struct", "super", "trait", "true", "try", "type", "typeof", "unsafe",
   "unsized", "use", "virtual", "where", "while", "yield"].map String.toList

/-- The word is a plain name: no keyword and no underscore. -/
def isPlainName (name : List Char) : Bool :=
  !keywords.contains name

theorem weight_pos (token : Token) : 0 < token.weight := by
  cases token <;> simp [weight]

end Token

end ModelMend
