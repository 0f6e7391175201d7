import ModelMend.Proofs.Line.Unquoted

/-!
# Texts written with given tokens

Tokens are written down one after the other, with white space and line comments between them that document
nothing (`Lexeme.Written`). From such a text the lexer reads the tokens back
(`Token.ofText?_of_written`), however it is laid out.
-/

namespace ModelMend

open Text

namespace Token

mutual

/-- The lexemes of a tree: those of a group stand between its brackets. -/
def lexemes : Token → List Lexeme
  | group delimiter content => .opens delimiter :: (lexemesAll content ++ [.closes delimiter])
  | leaf => [.token leaf]

def lexemesAll : List Token → List Lexeme
  | [] => []
  | token :: tokens => lexemes token ++ lexemesAll tokens

end

mutual

/-- The lexemes of a tree are nested into the tree. -/
theorem nest_lexemes (token : Token) (stack : List (Delimiter × List Token)) (current : List Token)
    (back : List Lexeme) :
    Lexeme.nest stack current (token.lexemes ++ back) = Lexeme.nest stack (token :: current) back := by
  cases token with
  | word name => rfl
  | lifetime name => rfl
  | punct c joint => rfl
  | literal kind text => rfl
  | group delimiter content =>
    rw [lexemes, List.cons_append, List.append_assoc, Lexeme.nest, nest_lexemesAll content,
      List.append_nil, List.singleton_append, Lexeme.nest, if_pos rfl, List.reverse_reverse]

theorem nest_lexemesAll (tokens : List Token) (stack : List (Delimiter × List Token))
    (current : List Token) (back : List Lexeme) :
    Lexeme.nest stack current (lexemesAll tokens ++ back) =
      Lexeme.nest stack (tokens.reverse ++ current) back := by
  cases tokens with
  | nil => rfl
  | cons token tokens =>
    rw [lexemesAll, List.append_assoc, nest_lexemes token, nest_lexemesAll tokens, List.reverse_cons,
      List.append_assoc, List.singleton_append]

end

end Token

namespace Lexeme

/-! ## Leaves -/

/-- Nothing is read from a character that begins no name, no number, no string and no sign. -/
theorem leaf?_eq_none {c : Char} {rest : List Char} (hstart : isIdentStart c = false)
    (hdigit : c.isDigit = false) (hquote : c ≠ '"') (hsign : punctuation.contains c = false) :
    leaf? (c :: rest) = none := by
  have hne {d : Char} (hd : isIdentStart d = true) : c ≠ d := by
    rintro rfl
    rw [hd] at hstart
    cases hstart
  have hsingle : c ≠ '\'' := by
    rintro rfl
    cases hsign
  have hslash : c ≠ '/' := by
    rintro rfl
    cases hsign
  have hread : Literal.read? (c :: rest) = none := by
    have hr : c ≠ 'r' := hne rfl
    have hb : c ≠ 'b' := hne rfl
    have hc : c ≠ 'c' := hne rfl
    rw [Literal.read?_of_notMem (by simp [hquote, hr, hb, hc, hsingle])]
    exact Literal.number?_of_not_isDigit hdigit rest
  have hident : ident? (c :: rest) = none := by
    have hraw : "r#".toList.isPrefixOf (c :: rest) = false := by
      have hr : ('r' == c) = false := beq_false_of_ne (Ne.symm (hne rfl))
      change (('r' == c) && _) = false
      rw [hr, Bool.false_and]
    rw [ident?_eq, hraw, if_neg Bool.false_ne_true, plainIdent?, hstart, if_neg Bool.false_ne_true]
  have hword : word? (c :: rest) = none := by
    rw [word?, hident, ite_self]
  rw [leaf?_of_no_literal hread, if_neg hsingle, startsPunct_cons hslash, hsign,
    if_neg Bool.false_ne_true, hword]
  rfl

theorem leaf?_of_isSpace {c : Char} {rest : List Char} (h : isSpace c = true) :
    leaf? (c :: rest) = none := by
  rw [isSpace, Bool.or_eq_true, Bool.or_eq_true, beq_iff_eq, beq_iff_eq] at h
  have hident : isIdentContinue c = false := by
    rcases h with (hblank | rfl) | rfl
    · exact not_isIdentContinue_of_isBlank c hblank
    · exact not_isIdentContinue_of_special (by decide)
    · exact not_isIdentContinue_of_special (by decide)
  have hspace : isSpace c = true := by
    rw [isSpace, Bool.or_eq_true, Bool.or_eq_true, beq_iff_eq, beq_iff_eq]
    exact h
  have hmarks : ('"' :: punctuation).any isSpace = false := by decide
  have hnone : c ∉ '"' :: punctuation := notMem_of_any hmarks hspace
  rw [List.mem_cons, not_or] at hnone
  apply leaf?_eq_none (not_isIdentStart_of_not_isIdentContinue hident)
    (not_isDigit_of_not_isIdentContinue hident) hnone.1
  rw [Bool.eq_false_iff]
  exact fun hmem => hnone.2 (List.contains_iff_mem.1 hmem)

theorem leaf?_of_bracket {c : Char} {rest : List Char} {lexeme : Lexeme} (h : bracket? c = some lexeme) :
    leaf? (c :: rest) = none := by
  unfold bracket? at h
  split at h
  case h_7 => cases h
  all_goals exact leaf?_eq_none rfl rfl (by decide) rfl

/-- A leaf is neither white space nor a comment nor a bracket. -/
theorem leaf?_spec {text rest : List Char} {leaf : Token} (h : leaf? text = some (leaf, rest)) :
    afterSpace? text = none ∧ next? text = some ([token leaf], rest) := by
  have hcomment : NoCommentFirst text := by
    rintro back rfl
    have hread : Literal.read? ('/' :: back) = none := by
      change Literal.number? ('/' :: back) = none
      exact Literal.number?_of_not_isDigit (by decide) back
    have hword : word? ('/' :: back) = none := by
      have hident : ident? ('/' :: back) = none := rfl
      rw [word?, hident, ite_self]
    rw [leaf?_of_no_literal hread, if_neg (by decide), startsPunct_slash, hword] at h
    constructor
    · intro hslash
      rw [hslash] at h
      cases h
    · intro hstar
      rw [hstar] at h
      cases h
  cases text with
  | nil => cases h
  | cons c text =>
    have hspace : isSpace c = false := by
      rw [Bool.eq_false_iff]
      intro hspace
      rw [leaf?_of_isSpace hspace] at h
      cases h
    have hbracket : bracket? c = none := by
      rw [Option.eq_none_iff_forall_ne_some]
      intro lexeme hlexeme
      rw [leaf?_of_bracket hlexeme] at h
      cases h
    rw [hcomment.afterSpace?, hcomment.next?, hspace, hbracket, h]
    exact ⟨rfl, rfl⟩

/-! ## Comments -/

/-- A line comment with this text behind its two slashes documents nothing. -/
def DocumentsNothing (comment : List Char) : Prop :=
  comment.head? ≠ some '!' ∧ (comment.head? = some '/' → comment.tail.head? = some '/')

/-- The text begins with a line end, if it goes on at all. -/
def BreaksLine (text : List Char) : Prop :=
  text = [] ∨ text.head? = some '\n'

/-- A line is read up to its end, but for a carriage return in front of it. -/
theorem drop_restOfLine {comment rest : List Char} (hline : '\n' ∉ comment) (hrest : BreaksLine rest) :
    (comment ++ rest).drop (restOfLine (comment ++ rest)).length = rest ∨
      (comment ++ rest).drop (restOfLine (comment ++ rest)).length = '\r' :: rest := by
  induction comment with
  | nil =>
    left
    rcases hrest with rfl | hbreak
    · rfl
    · obtain ⟨more, rfl⟩ := List.head?_eq_some_iff.1 hbreak
      rfl
  | cons c comment ih =>
    rw [List.mem_cons, not_or] at hline
    obtain ⟨hc, hmore⟩ := hline
    unfold restOfLine
    split
    · next heq => cases heq
    · next heq =>
      -- the carriage return is the last character of the comment
      cases comment with
      | nil =>
        cases heq
        exact Or.inr rfl
      | cons d comment =>
        cases heq
        exact absurd List.mem_cons_self hmore
    · next heq =>
      cases heq
      rw [if_neg (by simpa using Ne.symm hc)]
      exact ih hmore

theorem afterSpace?_comment {comment rest : List Char} (hplain : DocumentsNothing comment)
    (hrest : BreaksLine rest) : afterSpace? ("//".toList ++ (comment ++ rest)) =
      some ((comment ++ rest).drop (restOfLine (comment ++ rest)).length) := by
  have hbehind : DocumentsNothing (comment ++ rest) := by
    have hbreak : rest.head? ≠ some '!' ∧ rest.head? ≠ some '/' := by
      rcases hrest with rfl | hbreak
      · exact ⟨nofun, nofun⟩
      · rw [hbreak]
        decide
    cases comment with
    | nil => exact ⟨hbreak.1, fun hslash => absurd hslash hbreak.2⟩
    | cons c comment =>
      refine ⟨hplain.1, fun hslash => ?_⟩
      obtain ⟨more, rfl⟩ := List.head?_eq_some_iff.1 (hplain.2 hslash)
      rfl
  generalize comment ++ rest = text at hbehind
  obtain ⟨hinner, houter⟩ := hbehind
  have hline : restOfLine ('/' :: '/' :: text) = '/' :: '/' :: restOfLine text := by
    simp [restOfLine]
  change afterSpace? ('/' :: '/' :: text) = _
  unfold afterSpace?
  rw [hline]
  cases text with
  | nil => rfl
  | cons c text =>
    have hc : '!' ≠ c := fun heq => hinner (congrArg some heq.symm)
    by_cases hslash : c = '/'
    · obtain ⟨more, rfl⟩ := List.head?_eq_some_iff.1 (houter (congrArg some hslash))
      simp [List.isPrefixOf, hslash]
    · simp [List.isPrefixOf, hc, Ne.symm hslash]

/-! ## Texts -/

/-- The text is written with these lexemes: brackets, and leaves as the lexer reads them where they stand,
with white space and line comments between them that document nothing. -/
inductive Written : List Lexeme → List Char → Prop
  | done : Written [] []
  | blank {c : Char} {text : List Char} {lexemes : List Lexeme} (blank : isBlank c = true)
    (more : Written lexemes text) : Written lexemes (c :: text)
  | comment {comment text : List Char} {lexemes : List Lexeme} (line : '\n' ∉ comment)
    (plain : DocumentsNothing comment) (breaks : BreaksLine text) (more : Written lexemes text) :
    Written lexemes ("//".toList ++ (comment ++ text))
  | leaf {piece text : List Char} {leaf : Token} {lexemes : List Lexeme} (visible : piece ≠ [])
    (reads : leaf? (piece ++ text) = some (leaf, text)) (more : Written lexemes text) :
    Written (token leaf :: lexemes) (piece ++ text)
  | opens {text : List Char} {lexemes : List Lexeme} (delimiter : Delimiter) (more : Written lexemes text) :
    Written (opens delimiter :: lexemes) (delimiter.opening :: text)
  | closes {text : List Char} {lexemes : List Lexeme} (delimiter : Delimiter) (more : Written lexemes text) :
    Written (closes delimiter :: lexemes) (delimiter.closing :: text)

/-- **A text is cut into the lexemes it is written with.** -/
theorem Written.cut {lexemes : List Lexeme} {text : List Char} (h : Written lexemes text) {fuel : Nat}
    (hfuel : text.length ≤ fuel) : Lexeme.cut fuel text = some lexemes := by
  induction h generalizing fuel with
  | done => cases fuel <;> rfl
  | @blank c text lexemes blank more ih =>
    have hspace : isSpace c = true := by rw [isSpace, blank, Bool.true_or, Bool.true_or]
    obtain ⟨less, hless, hcut⟩ :=
      cut_of_afterSpace? (afterSpace?_of_isSpace hspace text) (Nat.lt_succ_self _) hfuel
    rw [hcut, ih hless]
  | @comment comment text lexemes line plain breaks more ih =>
    have hafter := afterSpace?_comment plain breaks
    have hlength : text.length + 1 < ("//".toList ++ (comment ++ text)).length := by
      simp only [String.length_toList, List.length_append]
      have : "//".length = 2 := rfl
      omega
    rcases drop_restOfLine line breaks with hdrop | hdrop
    · rw [hdrop] at hafter
      obtain ⟨less, hless, hcut⟩ := cut_of_afterSpace? hafter (by omega) hfuel
      rw [hcut, ih hless]
    · -- a carriage return in front of the line end is white space of its own
      rw [hdrop] at hafter
      obtain ⟨less, hless, hcut⟩ := cut_of_afterSpace? hafter hlength hfuel
      obtain ⟨less', hless', hcut'⟩ :=
        cut_of_afterSpace? (afterSpace?_of_isSpace rfl text) (Nat.lt_succ_self _) hless
      rw [hcut, hcut', ih hless']
  | @leaf piece text leaf lexemes visible reads more ih =>
    obtain ⟨hspace, hnext⟩ := leaf?_spec reads
    have hlength : text.length < (piece ++ text).length := by
      have := List.length_pos_iff.2 visible
      rw [List.length_append]
      omega
    obtain ⟨less, hless, hcut⟩ := cut_of_next? hspace hnext hlength hfuel
    rw [hcut, ih hless]
    rfl
  | opens delimiter more ih =>
    obtain ⟨hspace, hnext⟩ := next?_opening delimiter _
    obtain ⟨less, hless, hcut⟩ := cut_of_next? hspace hnext (Nat.lt_succ_self _) hfuel
    rw [hcut, ih hless]
    rfl
  | closes delimiter more ih =>
    obtain ⟨hspace, hnext⟩ := next?_closing delimiter _
    obtain ⟨less, hless, hcut⟩ := cut_of_next? hspace hnext (Nat.lt_succ_self _) hfuel
    rw [hcut, ih hless]
    rfl

theorem Written.head?_ne {lexemes : List Lexeme} {text : List Char} (h : Written lexemes text) :
    text.head? ≠ some '\ufeff' := by
  cases h with
  | done => exact nofun
  | blank blank =>
    rintro ⟨⟩
    exact absurd blank (by decide)
  | comment => exact nofun
  | @leaf piece rest leaf lexemes visible reads =>
    intro hmark
    obtain ⟨more, hmore⟩ := List.head?_eq_some_iff.1 hmark
    have hident : isIdentContinue '\ufeff' = false := not_isIdentContinue_of_special (by decide)
    rw [hmore, leaf?_eq_none (not_isIdentStart_of_not_isIdentContinue hident) rfl (by decide) rfl] at reads
    cases reads
  | opens delimiter =>
    cases delimiter <;> exact nofun
  | closes delimiter => cases delimiter <;> exact nofun

end Lexeme

/-- **The tokens of a text are those it is written with**, however it is laid out. -/
theorem Token.ofText?_of_written {tokens : List Token} {text : List Char}
    (h : Lexeme.Written (lexemesAll tokens) text) : Token.ofText? text = some tokens := by
  have hmark : ['\ufeff'].isPrefixOf text = false := by
    rw [Bool.eq_false_iff]
    intro hfront
    obtain ⟨rest, rfl⟩ := List.isPrefixOf_iff_prefix.1 hfront
    exact h.head?_ne rfl
  have hnest : Lexeme.nest [] [] (lexemesAll tokens) = some tokens := by
    have hall := nest_lexemesAll tokens [] [] []
    rw [List.append_nil, List.append_nil] at hall
    rw [hall, Lexeme.nest, List.reverse_reverse]
    rfl
  rw [Token.ofText?, hmark, if_neg Bool.false_ne_true, h.cut (Nat.le_refl _), Option.bind_some, hnest]

end ModelMend
