import ModelMend.Proofs.Text.Identifier
import ModelMend.Token.Lexer

/-!
# Words, lifetimes and signs as lexemes

What the lexer makes of a word in front of a character that ends it, of a lifetime, and of the signs
that paths and generic arguments are written with. A word may be raw. No reader for literals takes
it, since no quote and no number sign follows.
-/

namespace ModelMend

open Text

/-- The text goes on with nothing that would make a letter before it the opening of a literal. -/
def Quiet (text : List Char) : Prop :=
  ∀ c, text.head? = some c → c ≠ '"' ∧ c ≠ '\'' ∧ c ≠ '#'

theorem Quiet.head_notMem {c : Char} {rest : List Char} (h : Quiet (c :: rest)) :
    c ∉ ['"', '\'', '#'] := by
  obtain ⟨hquote, hsingle, hsign⟩ := h c rfl
  simp [hquote, hsingle, hsign]

/-- A word ends in front of the text. -/
def EndsWord (text : List Char) : Prop :=
  Quiet text ∧ ∀ c, text.head? = some c → isIdentContinue c = false

theorem EndsWord.nil : EndsWord [] := by
  refine ⟨?_, ?_⟩ <;> intro c hc <;> cases hc

theorem EndsWord.cons {c : Char} (hc : c ∈ [':', '<', '>', ',']) (rest : List Char) :
    EndsWord (c :: rest) := by
  have hends : (c ≠ '"' ∧ c ≠ '\'' ∧ c ≠ '#') ∧ isIdentContinue c = false := by
    simp only [List.mem_cons, List.not_mem_nil, or_false] at hc
    rcases hc with rfl | rfl | rfl | rfl <;> decide
  refine ⟨?_, ?_⟩ <;> intro d hd <;> cases hd
  · exact hends.1
  · exact hends.2

/-- The characters of a word, the first one not included. -/
def Continues (word : List Char) : Prop :=
  ∀ c ∈ word, isIdentContinue c = true

theorem Continues.tail {c : Char} {word : List Char} (h : Continues (c :: word)) :
    Continues word :=
  fun d hd => h d (List.mem_cons_of_mem c hd)

section

variable {c : Char} {word rest : List Char} (hc : isIdentStart c = true) (hword : Continues word)
  (hrest : EndsWord rest)

include hword hrest in
theorem Quiet.of_continues : Quiet (word ++ rest) := by
  cases word with
  | nil => exact hrest.1
  | cons d word =>
    intro e he
    cases he
    have hident := hword d List.mem_cons_self
    exact ⟨ne_of_isIdentContinue hident (by decide), ne_of_isIdentContinue hident (by decide),
      ne_of_isIdentContinue hident (by decide)⟩

include hword hrest in
/-- A letter that goes on with the word is itself a letter of it. -/
theorem Quiet.of_continues_tail {d : Char} {tail : List Char} (hd : isIdentContinue d = true)
    (h : word ++ rest = d :: tail) : Quiet tail := by
  cases word with
  | nil =>
    have hend := hrest.2 d (by rw [List.nil_append] at h; rw [h]; rfl)
    rw [hd] at hend
    cases hend
  | cons e word =>
    cases h
    exact .of_continues hword.tail hrest

include hc in
theorem ne_of_isIdentStart {d : Char} (hd : d ∈ specialChars) : c ≠ d :=
  ne_of_isIdentContinue (isIdentContinue_of_isIdentStart hc) hd

/-! ## No literal -/

namespace Literal

theorem rawLiteralTail_of_quiet {kind : QuoteKind} {text : List Char} (h : Quiet text) :
    rawLiteralTail kind text = none := by
  cases text with
  | nil => rfl
  | cons c rest =>
    obtain ⟨hquote, -, hsign⟩ := h c rfl
    have hdrop : (c :: rest).dropWhile (· == '#') = c :: rest := by simp [hsign]
    unfold rawLiteralTail
    simp only [hdrop]
    split
    · next heq =>
      cases heq
      exact absurd rfl hquote
    · rfl

theorem ten_le_of_hexDigit? {c : Char} {digit : Nat} (hc : c.isDigit = false)
    (h : hexDigit? c = some digit) : 10 ≤ digit := by
  unfold hexDigit? at h
  split at h
  · next hrange =>
    simp only [Char.isDigit, Bool.and_eq_false_iff, Bool.and_eq_true, decide_eq_true_eq,
      decide_eq_false_iff_not] at hc hrange
    rcases hc with hlow | hhigh
    · exact absurd hrange.1 hlow
    · exact absurd hrange.2 hhigh
  · split at h
    · cases h
      exact Nat.le_add_left _ _
    · split at h <;> cases h
      exact Nat.le_add_left _ _

/-- Nothing but a digit starts a number. -/
theorem number?_of_not_isDigit {c : Char} (hc : c.isDigit = false) (rest : List Char) :
    number? (c :: rest) = none := by
  have hfloat : floatLiteralTail (c :: rest) = none := by
    simp [floatLiteralTail, hc]
  have hdigits : digitsTail 10 false (c :: rest) = none := by
    unfold digitsTail
    split
    · next digit hdigit =>
      have := ten_le_of_hexDigit? hc hdigit
      rw [if_neg (by omega)]
      simp [hc]
    · simp
  have hinteger : integerLiteralTail (c :: rest) = none := by
    have hzero : c ≠ '0' := by
      rintro rfl
      cases hc
    unfold integerLiteralTail
    split
    · exact absurd (List.cons.inj ‹c :: rest = _›).1 hzero
    · exact absurd (List.cons.inj ‹c :: rest = _›).1 hzero
    · exact absurd (List.cons.inj ‹c :: rest = _›).1 hzero
    · rw [hdigits]
      rfl
  rw [number?, hfloat, hinteger]
  rfl

/-- Where no quoted literal can begin, a literal is a number. -/
theorem read?_of_notMem {c : Char} (hc : c ∉ ['"', 'r', 'b', 'c', '\'']) (rest : List Char) :
    read? (c :: rest) = number? (c :: rest) := by
  simp only [List.mem_cons, List.not_mem_nil, or_false, not_or] at hc
  obtain ⟨hquote, hr, hb, hc, hsingle⟩ := hc
  unfold read?
  split <;> rename_i heq
  · exact absurd (List.cons.inj heq).1 hquote
  · exact absurd (List.cons.inj heq).1 hr
  · exact absurd (List.cons.inj heq).1 hb
  · exact absurd (List.cons.inj heq).1 hb
  · exact absurd (List.cons.inj heq).1 hb
  · exact absurd (List.cons.inj heq).1 hc
  · exact absurd (List.cons.inj heq).1 hc
  · exact absurd (List.cons.inj heq).1 hsingle
  · rfl

include hc hword hrest in
theorem read?_of_word : read? (c :: (word ++ rest)) = none := by
  have hquiet : Quiet (word ++ rest) := .of_continues hword hrest
  have hraw {kind : LiteralKind} {quoteKind : QuoteKind} {tail : List Char} (h : Quiet tail) :
      (rawLiteralTail quoteKind tail).map (kind, dropSuffix ·) = none := by
    rw [rawLiteralTail_of_quiet h]
    rfl
  generalize htext : word ++ rest = text at hquiet
  unfold read?
  split
  · next heq => exact absurd (List.cons.inj heq).1 (ne_of_isIdentStart hc (by decide))
  · next heq =>
    obtain ⟨-, rfl⟩ := List.cons.inj heq
    exact hraw hquiet
  · next heq =>
    obtain ⟨-, rfl⟩ := List.cons.inj heq
    exact absurd rfl (hquiet _ rfl).1
  · next heq =>
    obtain ⟨-, rfl⟩ := List.cons.inj heq
    exact hraw (.of_continues_tail hword hrest (by decide) htext)
  · next heq =>
    obtain ⟨-, rfl⟩ := List.cons.inj heq
    exact absurd rfl (hquiet _ rfl).2.1
  · next heq =>
    obtain ⟨-, rfl⟩ := List.cons.inj heq
    exact absurd rfl (hquiet _ rfl).1
  · next heq =>
    obtain ⟨-, rfl⟩ := List.cons.inj heq
    exact hraw (.of_continues_tail hword hrest (by decide) htext)
  · next heq => exact absurd (List.cons.inj heq).1 (ne_of_isIdentStart hc (by decide))
  · exact number?_of_not_isDigit (not_isDigit_of_isIdentStart hc) text

end Literal

/-! ## Words -/

namespace Lexeme

theorem no_literalOpening {text : List Char} (htext : Quiet text)
    (htail : ∀ tail, text = 'r' :: tail → Quiet tail) :
    literalOpenings.any (·.isPrefixOf (c :: text)) = false := by
  rw [List.any_eq_false]
  intro opening hopening hfits
  obtain ⟨after, hafter⟩ := List.isPrefixOf_iff_prefix.1 hfits
  simp only [literalOpenings, List.map_cons, List.map_nil, List.mem_cons, List.not_mem_nil,
    or_false] at hopening
  rcases hopening with rfl | rfl | rfl | rfl | rfl | rfl | rfl | rfl | rfl | rfl <;>
    cases hafter
  -- the mark that makes a literal of the letters stands second or, after `br` and `cr`, third
  all_goals
    first
      | exact htext.head_notMem (by decide)
      | exact (htail _ rfl).head_notMem (by decide)

include hword hrest in
theorem not_raw : "r#".toList.isPrefixOf (c :: (word ++ rest)) = false := by
  rw [Bool.eq_false_iff]
  intro hfits
  obtain ⟨after, hafter⟩ := List.isPrefixOf_iff_prefix.1 hfits
  have htail := (List.cons.inj hafter).2
  exact (Quiet.of_continues hword hrest '#' (by rw [← htail]; rfl)).2.2 rfl

theorem takeWhile_of_continues (hword : Continues word) (hrest : EndsWord rest) :
    (word ++ rest).takeWhile isIdentContinue = word ∧
      (word ++ rest).dropWhile isIdentContinue = rest := by
  have hstop : rest.takeWhile isIdentContinue = [] ∧ rest.dropWhile isIdentContinue = rest := by
    cases rest with
    | nil => exact ⟨rfl, rfl⟩
    | cons d rest =>
      have hd := hrest.2 d rfl
      simp [hd]
  rw [List.takeWhile_append_of_pos hword, List.dropWhile_append_of_pos hword, hstop.1, hstop.2,
    List.append_nil]
  exact ⟨rfl, rfl⟩

/-- The name at the start of the text, not in its raw form, and what follows it. -/
def plainIdent? : List Char → Option (List Char × List Char)
  | [] => none
  | c :: rest =>
    if isIdentStart c then some (c :: rest.takeWhile isIdentContinue, rest.dropWhile isIdentContinue)
    else none

theorem ident?_eq (text : List Char) : ident? text =
    if "r#".toList.isPrefixOf text then
      (plainIdent? (text.drop "r#".toList.length)).bind fun (name, rest) =>
        if (["_", "super", "self", "Self", "crate"].map String.toList).contains name then none
        else some ("r#".toList ++ name, rest)
    else plainIdent? text := by
  have hlength : "r#".toList.length = 2 := rfl
  rw [hlength]
  by_cases hopens : "r#".toList.isPrefixOf text = true
  · rw [if_pos hopens, ident?, hopens]
    dsimp only [if_true]
    cases text.drop 2 with
    | nil => rfl
    | cons c rest => cases hstart : isIdentStart c <;> simp [plainIdent?, hstart]
  · rw [if_neg hopens, ident?, Bool.eq_false_iff.2 hopens]
    cases text <;> rfl

include hc hword hrest in
theorem ident?_of_word : ident? (c :: (word ++ rest)) = some (c :: word, rest) := by
  obtain ⟨htake, hdrop⟩ := takeWhile_of_continues hword hrest
  unfold ident?
  simp only [not_raw hword hrest, Bool.false_eq_true, ↓reduceIte, hc, Bool.not_false, htake, hdrop]

include hc hword hrest in
theorem ident?_of_raw (hrawable :
      (["_", "super", "self", "Self", "crate"].map String.toList).contains (c :: word) = false) :
    ident? ('r' :: '#' :: c :: (word ++ rest)) = some ('r' :: '#' :: c :: word, rest) := by
  obtain ⟨htake, hdrop⟩ := takeWhile_of_continues hword hrest
  have hraw : "r#".toList.isPrefixOf ('r' :: '#' :: c :: (word ++ rest)) = true := rfl
  unfold ident?
  simp only [hraw, ↓reduceIte, List.drop_succ_cons, List.drop_zero, hc, htake, hdrop, Bool.not_true,
    Bool.false_eq_true, hrawable]
  rfl

include hc hword hrest in
theorem word?_of_word : word? (c :: (word ++ rest)) = some (c :: word, rest) := by
  have hopening := no_literalOpening (c := c) (.of_continues hword hrest)
    fun tail => .of_continues_tail hword hrest (by decide)
  rw [word?, hopening]
  exact ident?_of_word hc hword hrest

include hc hword hrest in
theorem word?_of_raw (hrawable :
      (["_", "super", "self", "Self", "crate"].map String.toList).contains (c :: word) = false) :
    word? ('r' :: '#' :: c :: (word ++ rest)) = some ('r' :: '#' :: c :: word, rest) := by
  have hquote : ('"' == c) = false :=
    beq_false_of_ne (ne_of_isIdentStart hc (by decide)).symm
  have hsign : ('#' == c) = false :=
    beq_false_of_ne (ne_of_isIdentStart hc (by decide)).symm
  have hopening :
      literalOpenings.any (·.isPrefixOf ('r' :: '#' :: c :: (word ++ rest))) = false := by
    simp [literalOpenings, List.isPrefixOf, hquote, hsign]
  rw [word?, hopening]
  exact ident?_of_raw hc hword hrest hrawable

theorem startsPunct_cons {c : Char} (hc : c ≠ '/') (text : List Char) :
    startsPunct (c :: text) = punctuation.contains c := by
  unfold startsPunct
  split
  · next heq => exact absurd (List.cons.inj heq).1 hc
  · next heq => exact absurd (List.cons.inj heq).1 hc
  · next heq =>
    cases heq
    rfl
  · next heq => cases heq

theorem startsPunct_slash (rest : List Char) : startsPunct ('/' :: rest) =
    !(rest.head? == some '/' || rest.head? == some '*') := by
  have hmark : punctuation.contains '/' = true := by decide
  cases rest with
  | nil => exact hmark
  | cons c rest =>
    by_cases hslash : c = '/'
    · rw [hslash]
      rfl
    · by_cases hstar : c = '*'
      · rw [hstar]
        rfl
      · have hone : startsPunct ('/' :: c :: rest) = punctuation.contains '/' := by
          unfold startsPunct
          split
          · next heq =>
            cases heq
            exact absurd rfl hslash
          · next heq =>
            cases heq
            exact absurd rfl hstar
          · next heq =>
            cases heq
            rfl
          · next heq => cases heq
        rw [hone, hmark]
        simp [hslash, hstar]

theorem startsPunct_of_notMem {c : Char} (hc : c ∉ punctuation) (text : List Char) :
    startsPunct (c :: text) = false := by
  have hslash : c ≠ '/' := by
    rintro rfl
    exact hc (by decide)
  rw [startsPunct_cons hslash, Bool.eq_false_iff]
  exact fun hmem => hc (List.contains_iff_mem.1 hmem)

include hc in
theorem not_startsPunct_of_word (text : List Char) : startsPunct (c :: text) = false := by
  have hnone : punctuation.any isIdentStart = false := by decide
  exact startsPunct_of_notMem (notMem_of_any hnone hc) text

include hc hword hrest in
theorem leaf?_of_word : leaf? (c :: (word ++ rest)) = some (.word (c :: word), rest) := by
  have hpunct := not_startsPunct_of_word hc (word ++ rest)
  unfold leaf?
  rw [Literal.read?_of_word hc hword hrest]
  dsimp only
  split
  · next heq => exact absurd (List.cons.inj heq).1 (ne_of_isIdentStart hc (by decide))
  · rw [hpunct]
    dsimp only
    rw [word?_of_word hc hword hrest]
    rfl

include hc hword hrest in
theorem leaf?_of_raw (hrawable :
      (["_", "super", "self", "Self", "crate"].map String.toList).contains (c :: word) = false) :
    leaf? ('r' :: '#' :: c :: (word ++ rest)) = some (.word ('r' :: '#' :: c :: word), rest) := by
  have hread : Literal.read? ('r' :: '#' :: c :: (word ++ rest)) = none := by
    have hsign : (c == '#') = false := beq_false_of_ne (ne_of_isIdentStart hc (by decide))
    have hquote : c ≠ '"' := ne_of_isIdentStart hc (by decide)
    unfold Literal.read?
    simp [Literal.rawLiteralTail, List.dropWhile, hsign, hquote]
  have hpunct : startsPunct ('r' :: '#' :: c :: (word ++ rest)) = false :=
    not_startsPunct_of_word (by decide) _
  unfold leaf?
  rw [hread]
  dsimp only
  rw [hpunct]
  dsimp only
  rw [word?_of_raw hc hword hrest hrawable]
  rfl

/-- A name after a single quote is a lifetime unless the quote closes after its first character. -/
theorem leaf?_of_lifetime {text name : List Char} (hident : ident? text = some (name, rest))
    (hname : word? text = some (name, rest)) (hchar : Literal.charTail .text text = none)
    (hrest : EndsWord rest) : leaf? ('\'' :: text) = some (.lifetime name, rest) := by
  have hread : Literal.read? ('\'' :: text) = none := by
    have hquote : Literal.read? ('\'' :: text) =
        (Literal.charTail .text text).map (.other, Literal.dropSuffix ·) := rfl
    rw [hquote, hchar]
    rfl
  have hafter : ['\''].isPrefixOf rest = false ∧ ['#'].isPrefixOf rest = false := by
    cases rest with
    | nil => exact ⟨rfl, rfl⟩
    | cons d rest =>
      obtain ⟨-, hsingle, hsign⟩ := hrest.1 d rfl
      simp [List.isPrefixOf, hsingle.symm, hsign.symm]
  unfold leaf?
  rw [hread]
  change lifetime? text = some (.lifetime name, rest)
  unfold lifetime?
  rw [hident]
  dsimp only
  rw [hafter.1, hafter.2, hname]
  rfl

theorem charTail_of_ne {kind : Literal.QuoteKind} {c : Char} {text : List Char} (hescape : c ≠ '\\')
    (htext : ∀ d, text.head? = some d → d ≠ '\'') : Literal.charTail kind (c :: text) = none := by
  have hquote : Literal.afterSingleQuote text = none := by
    unfold Literal.afterSingleQuote
    split
    · exact absurd rfl (htext _ rfl)
    · rfl
  unfold Literal.charTail
  split
  · next heq => cases heq
  · next heq => exact absurd (List.cons.inj heq).1 hescape
  · next heq =>
    cases heq
    rw [hquote]
    exact ite_self none

theorem leaf?_of_no_literal {c : Char} {rest : List Char} (hread : Literal.read? (c :: rest) = none) :
    leaf? (c :: rest) =
      if c = '\'' then lifetime? rest
      else if startsPunct (c :: rest) then some (.punct c (startsPunct rest), rest)
      else (word? (c :: rest)).map fun found => (.word found.1, found.2) := by
  unfold leaf?
  rw [hread]
  dsimp only
  split
  · next heq =>
    cases heq
    rw [if_pos rfl]
  · next hquote =>
    have hne : c ≠ '\'' := by
      rintro rfl
      exact hquote rest rfl
    rw [if_neg hne]
    cases startsPunct (c :: rest) <;> rfl

theorem leaf?_of_punct {c : Char} (hc : c ∈ punctuation) (hquote : c ≠ '\'') {rest : List Char}
    (hcomment : c = '/' → rest.head? ≠ some '/' ∧ rest.head? ≠ some '*') :
    leaf? (c :: rest) = some (.punct c (startsPunct rest), rest) := by
  have hread : Literal.read? (c :: rest) = none := by
    have hdigit : punctuation.any Char.isDigit = false := by decide
    have hmarks : ['"', 'r', 'b', 'c', '\''].filter punctuation.contains = ['\''] := rfl
    have hplain : c ∉ ['"', 'r', 'b', 'c', '\''] := by
      intro hmem
      have hmark := List.mem_filter.2 ⟨hmem, List.contains_iff_mem.2 hc⟩
      rw [hmarks] at hmark
      exact hquote (List.mem_singleton.1 hmark)
    rw [Literal.read?_of_notMem hplain]
    exact Literal.number?_of_not_isDigit (Bool.eq_false_iff.2 (List.any_eq_false.1 hdigit c hc)) rest
  have hstarts : startsPunct (c :: rest) = true := by
    by_cases hslash : c = '/'
    · obtain ⟨hline, hblock⟩ := hcomment hslash
      rw [hslash, startsPunct_slash]
      simp [hline, hblock]
    · rw [startsPunct_cons hslash]
      exact List.contains_iff_mem.2 hc
  rw [leaf?_of_no_literal hread, if_neg hquote, if_pos hstarts]

/-- The signs of paths and generic arguments. -/
def pathSigns : List Char :=
  [':', '<', '>', ',']

theorem leaf?_of_sign {c : Char} (hc : c ∈ pathSigns) (rest : List Char) :
    leaf? (c :: rest) = some (.punct c (startsPunct rest), rest) := by
  have hsigns : pathSigns ⊆ punctuation := by decide
  have hnone : '\'' ∉ pathSigns ∧ '/' ∉ pathSigns := by decide
  apply leaf?_of_punct (hsigns hc)
  · rintro rfl
    exact hnone.1 hc
  · rintro rfl
    exact absurd hc hnone.2

/-! ## One step of the lexer -/

/-- The characters that may start a token, as far as comments, brackets and blanks are concerned. -/
def opensLeaf (c : Char) : Bool :=
  !(['/', '(', ')', '[', ']', '\x7b', '\x7d'].contains c) && !isSpace c

theorem cut_of_leaf {c : Char} {text : List Char} {leaf : Token} (hopens : opensLeaf c = true)
    (hleaf : leaf? (c :: text) = some (leaf, rest)) (fuel : Nat) :
    cut (fuel + 1) (c :: text) = (cut fuel rest).map ([token leaf] ++ ·) := by
  simp only [opensLeaf, Bool.and_eq_true, Bool.not_eq_true', List.contains_eq_mem,
    decide_eq_false_iff_not, List.mem_cons, List.not_mem_nil, or_false, not_or] at hopens
  obtain ⟨⟨hslash, hround, hround', hsquare, hsquare', hcurly, hcurly'⟩, hspace⟩ := hopens
  have hcomment : ('/' == c) = false := beq_false_of_ne (Ne.symm hslash)
  have hnospace : afterSpace? (c :: text) = none := by
    simp [afterSpace?, List.isPrefixOf, hcomment, hspace]
  have hdoc : docComment? (c :: text) = none := by
    simp [docComment?, List.isPrefixOf, hcomment]
  have hnext : next? (c :: text) = some ([token leaf], rest) := by
    unfold next?
    rw [hdoc]
    dsimp only
    split
    · next heq => exact absurd (List.cons.inj heq).1 hround
    · next heq => exact absurd (List.cons.inj heq).1 hsquare
    · next heq => exact absurd (List.cons.inj heq).1 hcurly
    · next heq => exact absurd (List.cons.inj heq).1 hround'
    · next heq => exact absurd (List.cons.inj heq).1 hsquare'
    · next heq => exact absurd (List.cons.inj heq).1 hcurly'
    · rw [hleaf]
      rfl
  rw [cut, hnospace, hnext]
  intro h
  cases h

end Lexeme

end

end ModelMend
