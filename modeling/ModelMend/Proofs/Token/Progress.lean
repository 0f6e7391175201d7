import ModelMend.Token.Lexer

/-!
# The lexer only moves forward

What a reader of the lexer leaves is an end of the text it was given: first for the readers of
literals, one lemma each, then for blanks, comments and the lexemes of a text (`next?_suffix`).
-/

namespace ModelMend

open Text

/-! ## Literals -/

namespace Literal

theorem quotedTail_suffix {kind : QuoteKind} {state : QuoteState} {text rest : List Char}
    (h : quotedTail kind state text = some rest) : rest <:+ text := by
  induction text generalizing state with
  | nil => simp [quotedTail] at h
  | cons c tail ih =>
    unfold quotedTail at h
    split at h
    · exact (ih h).trans (List.suffix_cons _ _)
    · cases h
      exact List.suffix_cons _ _
    · cases h

theorem escapeTail_suffix {kind : QuoteKind} {state : QuoteState} {text rest : List Char}
    (h : escapeTail kind state text = some rest) : rest <:+ text := by
  induction text generalizing state with
  | nil => simp [escapeTail] at h
  | cons c tail ih =>
    unfold escapeTail at h
    split at h
    · cases h
      exact List.suffix_cons _ _
    · cases h
    · exact (ih h).trans (List.suffix_cons _ _)
    · cases h
    · cases h

theorem afterSingleQuote_suffix {text rest : List Char} (h : afterSingleQuote text = some rest) :
    rest <:+ text := by
  unfold afterSingleQuote at h
  split at h
  · cases h
    exact List.suffix_cons _ _
  · cases h

theorem charTail_suffix {kind : QuoteKind} {text rest : List Char}
    (h : charTail kind text = some rest) : rest <:+ text := by
  unfold charTail at h
  split at h
  · cases h
  · obtain ⟨escaped, hescaped, hquote⟩ := Option.bind_eq_some_iff.1 h
    exact ((afterSingleQuote_suffix hquote).trans (escapeTail_suffix hescaped)).trans
      (List.suffix_cons _ _)
  · split at h
    · exact (afterSingleQuote_suffix h).trans (List.suffix_cons _ _)
    · cases h

theorem rawTail_suffix {kind : QuoteKind} {signs text rest : List Char}
    (h : rawTail kind signs text = some rest) : rest <:+ text := by
  fun_induction rawTail kind signs text with
  | case1 => cases h
  | case2 text ih => exact (ih h).trans ((List.suffix_cons _ _).trans (List.suffix_cons _ _))
  | case3 c text _ hclosed =>
    cases h
    exact (List.drop_suffix _ _).trans (List.suffix_cons c text)
  | case4 => cases h
  | case5 c text _ _ _ ih => exact (ih h).trans (List.suffix_cons c text)

theorem rawLiteralTail_suffix {kind : QuoteKind} {text rest : List Char}
    (h : rawLiteralTail kind text = some rest) : rest <:+ text := by
  unfold rawLiteralTail at h
  dsimp only at h
  split at h
  · next opened hopened =>
    split at h
    · have hquote := rawTail_suffix h
      have hsigns : '"' :: opened <:+ text := hopened ▸ List.dropWhile_suffix _
      exact (hquote.trans (List.suffix_cons _ _)).trans hsigns
    · cases h
  · cases h

theorem dropSuffix_suffix (text : List Char) : dropSuffix text <:+ text := by
  unfold dropSuffix
  split
  · exact List.suffix_refl _
  · split
    · exact (List.dropWhile_suffix _).trans (List.suffix_cons _ _)
    · exact List.suffix_refl _

theorem numberTail_suffix {text rest : List Char} (h : numberTail text = some rest) :
    rest <:+ text := by
  unfold numberTail at h
  dsimp only at h
  split at h
  · cases h
  · cases h
    exact dropSuffix_suffix text

theorem exponentTail_suffix {sawSign sawDigit : Bool} {text rest : List Char}
    (h : exponentTail sawSign sawDigit text = some rest) : rest <:+ text := by
  induction text generalizing sawSign sawDigit with
  | nil =>
    unfold exponentTail at h
    split at h <;> cases h
    exact List.suffix_refl _
  | cons c tail ih =>
    have more {sign digit : Bool} (h : exponentTail sign digit tail = some rest) :
        rest <:+ c :: tail := (ih h).trans (List.suffix_cons c tail)
    have stop (h : some (c :: tail) = some rest) : rest <:+ c :: tail := by
      cases h
      exact List.suffix_refl _
    unfold exponentTail at h
    split at h
    · split at h
      · exact stop h
      · split at h
        · cases h
        · exact more h
    · split at h
      · exact more h
      · split at h
        · exact more h
        · split at h
          · exact stop h
          · cases h

theorem floatTail_suffix {sawPoint : Bool} {text rest : List Char}
    (h : floatTail sawPoint text = some rest) : rest <:+ text := by
  induction text generalizing sawPoint with
  | nil =>
    unfold floatTail at h
    split at h <;> cases h
    exact List.suffix_refl _
  | cons c tail ih =>
    have more {point : Bool} (h : floatTail point tail = some rest) : rest <:+ c :: tail :=
      (ih h).trans (List.suffix_cons c tail)
    have stop (h : some (c :: tail) = some rest) : rest <:+ c :: tail := by
      cases h
      exact List.suffix_refl _
    unfold floatTail at h
    split at h
    · exact more h
    · split at h
      · split at h
        · cases h
        · exact more h
      · split at h
        · split at h
          · next hexponent =>
            cases h
            exact (exponentTail_suffix hexponent).trans (List.suffix_cons c tail)
          · split at h
            · exact stop h
            · cases h
        · split at h
          · exact stop h
          · cases h

theorem floatLiteralTail_suffix {text rest : List Char} (h : floatLiteralTail text = some rest) :
    rest <:+ text := by
  unfold floatLiteralTail at h
  split at h
  · cases h
  · split at h
    · obtain ⟨digits, hdigits, hnumber⟩ := Option.bind_eq_some_iff.1 h
      exact ((numberTail_suffix hnumber).trans (floatTail_suffix hdigits)).trans
        (List.suffix_cons _ _)
    · cases h

theorem digitsTail_suffix {base : Nat} {sawDigit : Bool} {text rest : List Char}
    (h : digitsTail base sawDigit text = some rest) : rest <:+ text := by
  induction text generalizing sawDigit with
  | nil =>
    unfold digitsTail at h
    split at h <;> cases h
    exact List.suffix_refl _
  | cons c tail ih =>
    have more {digit : Bool} (h : digitsTail base digit tail = some rest) : rest <:+ c :: tail :=
      (ih h).trans (List.suffix_cons c tail)
    have stop (h : some (c :: tail) = some rest) : rest <:+ c :: tail := by
      cases h
      exact List.suffix_refl _
    unfold digitsTail at h
    split at h
    · split at h
      · exact more h
      · split at h
        · cases h
        · split at h
          · exact stop h
          · cases h
    · split at h
      · exact more h
      · split at h
        · exact stop h
        · cases h

theorem integerLiteralTail_suffix {text rest : List Char}
    (h : integerLiteralTail text = some rest) : rest <:+ text := by
  unfold integerLiteralTail at h
  obtain ⟨digits, hdigits, hnumber⟩ := Option.bind_eq_some_iff.1 h
  refine (numberTail_suffix hnumber).trans ?_
  split at hdigits
  · exact (digitsTail_suffix hdigits).trans ((List.suffix_cons _ _).trans (List.suffix_cons _ _))
  · exact (digitsTail_suffix hdigits).trans ((List.suffix_cons _ _).trans (List.suffix_cons _ _))
  · exact (digitsTail_suffix hdigits).trans ((List.suffix_cons _ _).trans (List.suffix_cons _ _))
  · exact digitsTail_suffix hdigits

theorem number?_suffix {text rest : List Char} {kind : LiteralKind}
    (h : number? text = some (kind, rest)) : rest <:+ text := by
  unfold number? at h
  split at h
  · next hfloat =>
    cases h
    exact floatLiteralTail_suffix hfloat
  · obtain ⟨tail, htail, heq⟩ := Option.map_eq_some_iff.1 h
    cases heq
    exact integerLiteralTail_suffix htail

/-- What follows a literal is an end of the text. -/
theorem read?_suffix {text rest : List Char} {kind : LiteralKind}
    (h : read? text = some (kind, rest)) : rest <:+ text := by
  have opened {c : Char} {tail : List Char} {reads : Option (List Char)} {kind' : LiteralKind}
      (hreads : ∀ after, reads = some after → after <:+ tail)
      (h : reads.map (kind', dropSuffix ·) = some (kind, rest)) : rest <:+ c :: tail := by
    obtain ⟨after, hafter, heq⟩ := Option.map_eq_some_iff.1 h
    cases heq
    exact ((dropSuffix_suffix _).trans (hreads _ hafter)).trans (List.suffix_cons c tail)
  unfold read? at h
  split at h
  · exact opened (fun _ => quotedTail_suffix) h
  · exact opened (fun _ => rawLiteralTail_suffix) h
  · exact (opened (fun _ => quotedTail_suffix) h).trans (List.suffix_cons _ _)
  · exact (opened (fun _ => rawLiteralTail_suffix) h).trans (List.suffix_cons _ _)
  · exact (opened (fun _ => charTail_suffix) h).trans (List.suffix_cons _ _)
  · exact (opened (fun _ => quotedTail_suffix) h).trans (List.suffix_cons _ _)
  · exact (opened (fun _ => rawLiteralTail_suffix) h).trans (List.suffix_cons _ _)
  · exact opened (fun _ => charTail_suffix) h
  · exact number?_suffix h

end Literal

/-! ## Blanks and comments -/

namespace Lexeme

theorem blockTail_suffix {depth : Nat} {text rest : List Char}
    (h : blockTail depth text = some rest) : rest <:+ text := by
  fun_induction blockTail depth text with
  | case1 => cases h
  | case2 depth tail ih => exact (ih h).trans ((List.suffix_cons _ _).trans (List.suffix_cons _ _))
  | case3 depth tail =>
    cases h
    exact (List.suffix_cons _ _).trans (List.suffix_cons _ _)
  | case4 depth tail _ ih =>
    exact (ih h).trans ((List.suffix_cons _ _).trans (List.suffix_cons _ _))
  | case5 depth c tail _ _ ih => exact (ih h).trans (List.suffix_cons c tail)

theorem afterSpace?_suffix {text rest : List Char} (h : afterSpace? text = some rest) :
    rest <:+ text := by
  unfold afterSpace? at h
  dsimp only at h
  split at h
  · cases h
    exact List.drop_suffix _ _
  · split at h
    · cases h
      exact List.drop_suffix _ _
    · split at h
      · exact blockTail_suffix h
      · split at h
        · cases h
        · split at h <;> cases h
          exact List.suffix_cons _ _

theorem docComment?_suffix {text comment rest : List Char} {inner : Bool}
    (h : docComment? text = some (inner, comment, rest)) : rest <:+ text := by
  have line {inner' : Bool}
      (h : some (inner', restOfLine (text.drop 3),
        text.drop (3 + (restOfLine (text.drop 3)).length)) = some (inner, comment, rest)) :
      rest <:+ text := by
    cases h
    exact List.drop_suffix _ _
  have block {inner' : Bool} {content : List Char → List Char}
      (h : (blockTail 0 text).map (fun after => (inner', content after, after)) =
        some (inner, comment, rest)) : rest <:+ text := by
    obtain ⟨after, hafter, heq⟩ := Option.map_eq_some_iff.1 h
    cases heq
    exact blockTail_suffix hafter
  unfold docComment? at h
  dsimp only at h
  split at h
  · exact line h
  · split at h
    · exact block h
    · split at h
      · exact line h
      · split at h
        · exact block h
        · cases h

/-! ## Words and other leaves -/

/-- An identifier and what follows it are the text. -/
theorem ident?_append {text name rest : List Char} (h : ident? text = some (name, rest)) :
    name ++ rest = text := by
  unfold ident? at h
  cases hraw : "r#".toList.isPrefixOf text with
  | false =>
    simp only [hraw, Bool.false_eq_true, ↓reduceIte, Bool.not_false] at h
    split at h
    · cases h
    · split at h <;> cases h
      rw [List.cons_append, List.takeWhile_append_dropWhile]
  | true =>
    obtain ⟨tail, rfl⟩ := List.isPrefixOf_iff_prefix.1 hraw
    simp only [hraw, ↓reduceIte, Bool.not_true, Bool.false_eq_true] at h
    split at h
    · cases h
    · next c after htail =>
      split at h
      · split at h <;> cases h
        rw [List.append_assoc, List.cons_append, List.takeWhile_append_dropWhile, ← htail]
        rfl
      · cases h

theorem word?_append {text name rest : List Char} (h : word? text = some (name, rest)) :
    name ++ rest = text := by
  unfold word? at h
  split at h
  · cases h
  · exact ident?_append h

theorem lifetime?_suffix {text rest : List Char} {token : Token}
    (h : lifetime? text = some (token, rest)) : rest <:+ text := by
  unfold lifetime? at h
  split at h
  · cases h
  · next name tail hident =>
    have htail : tail <:+ text := ⟨name, ident?_append hident⟩
    split at h
    · cases h
    · split at h <;> cases h
      · exact htail
      · exact List.suffix_refl _

theorem leaf?_suffix {text rest : List Char} {token : Token}
    (h : leaf? text = some (token, rest)) : rest <:+ text := by
  unfold leaf? at h
  split at h
  · next hread =>
    cases h
    exact Literal.read?_suffix hread
  · split at h
    · exact (lifetime?_suffix h).trans (List.suffix_cons _ _)
    · split at h
      · cases h
        exact List.suffix_cons _ _
      · obtain ⟨⟨name, tail⟩, hword, heq⟩ := Option.map_eq_some_iff.1 h
        cases heq
        exact ⟨name, word?_append hword⟩

/-- **What follows a lexeme is an end of the text.** -/
theorem next?_suffix {text rest : List Char} {found : List Lexeme}
    (h : next? text = some (found, rest)) : rest <:+ text := by
  unfold next? at h
  split at h
  · next hdoc =>
    split at h <;> cases h
    exact docComment?_suffix hdoc
  · split at h <;> try (cases h; exact List.suffix_cons _ _)
    obtain ⟨⟨leaf, tail⟩, hleaf, heq⟩ := Option.map_eq_some_iff.1 h
    cases heq
    exact leaf?_suffix hleaf

end Lexeme

end ModelMend
