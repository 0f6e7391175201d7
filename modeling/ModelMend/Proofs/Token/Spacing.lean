import ModelMend.Proofs.Token.Steady
import ModelMend.Proofs.Token.Words

/-!
# The lexer and white space

In a bare text the lexer finds the same tokens whatever the white space between them is
(`Lexeme.cut_squeezed`, `Token.ofText?_squeezed`).
-/

namespace ModelMend

open Text

namespace Lexeme

variable {text : List Char}

/-! ## Names -/

theorem findsSteadily_plainIdent? (text : List Char) : FindsSteadily plainIdent? text := by
  have hblank (c : Char) (hc : isBlank c = true) (rest : List Char) : plainIdent? (c :: rest) = none := by
    rw [plainIdent?, not_isIdentStart_of_isBlank c hc, if_neg Bool.false_ne_true]
  cases text with
  | nil =>
    refine ⟨rfl, ?_⟩
    intro name rest hread
    cases hread
  | cons c rest =>
    cases hc : isBlank c with
    | true =>
      constructor
      · rw [squeezed_cons_of_blank hc, hblank c hc]
        rcases gap_eq_nil_or_cons (squeezed rest) with ⟨hgap, -⟩ | ⟨more, hgap, -⟩
        · rw [hgap]
          rfl
        · rw [hgap, hblank ' ' isBlank_space]
          rfl
      · intro name after hread
        rw [hblank c hc] at hread
        cases hread
    | false =>
      have hrun := run_squeezed not_isIdentContinue_of_isBlank rest
      constructor
      · rw [squeezed_cons_of_not_blank hc, plainIdent?, plainIdent?, hrun.1, hrun.2]
        split <;> rfl
      · intro name after hread
        rw [plainIdent?] at hread
        split at hread
        · cases hread
          exact (solidUpTo_dropWhile not_isIdentContinue_of_isBlank rest).cons hc
        · cases hread

theorem solidUpTo_drop {opening : List Char} (h : Solid opening)
    (hfront : opening.isPrefixOf text = true) : SolidUpTo (text.drop opening.length) text := by
  obtain ⟨rest, rfl⟩ := List.isPrefixOf_iff_prefix.1 hfront
  rw [List.drop_left]
  exact ⟨opening, rfl, h⟩

theorem findsSteadily_ident? (text : List Char) : FindsSteadily ident? text := by
  have hraw : Solid "r#".toList := solid_of_any rfl
  have hfront := isPrefixOf_squeezed hraw text
  by_cases hopens : "r#".toList.isPrefixOf text = true
  · obtain ⟨hbody, hsolid⟩ := findsSteadily_plainIdent? (text.drop "r#".toList.length)
    constructor
    · rw [ident?_eq, ident?_eq, hfront, if_pos hopens, if_pos hopens, drop_squeezed hraw hopens, hbody]
      cases plainIdent? (text.drop "r#".toList.length) with
      | none => rfl
      | some read =>
        dsimp only [Option.map_some, Option.bind_some]
        split <;> rfl
    · intro name rest hread
      rw [ident?_eq, if_pos hopens] at hread
      obtain ⟨⟨body, after⟩, hfound, hname⟩ := Option.bind_eq_some_iff.1 hread
      dsimp only at hname
      split at hname
      · cases hname
      · cases hname
        exact (hsolid body rest hfound).trans (solidUpTo_drop hraw hopens)
  · obtain ⟨hbody, hsolid⟩ := findsSteadily_plainIdent? text
    constructor
    · rw [ident?_eq, ident?_eq, hfront, if_neg hopens, if_neg hopens, hbody]
    · intro name rest hread
      rw [ident?_eq, if_neg hopens] at hread
      exact hsolid name rest hread

theorem literalOpenings_squeezed (text : List Char) :
    literalOpenings.any (·.isPrefixOf (squeezed text)) = literalOpenings.any (·.isPrefixOf text) := by
  have hsolid : ∀ opening ∈ literalOpenings, Solid opening := solid_of_mem rfl
  rw [Bool.eq_iff_iff, List.any_eq_true, List.any_eq_true]
  constructor
  · rintro ⟨opening, hmem, hfront⟩
    rw [isPrefixOf_squeezed (hsolid opening hmem)] at hfront
    exact ⟨opening, hmem, hfront⟩
  · rintro ⟨opening, hmem, hfront⟩
    rw [← isPrefixOf_squeezed (hsolid opening hmem)] at hfront
    exact ⟨opening, hmem, hfront⟩

theorem findsSteadily_word? (text : List Char) : FindsSteadily word? text := by
  obtain ⟨hident, hsolid⟩ := findsSteadily_ident? text
  constructor
  · unfold word?
    rw [literalOpenings_squeezed, hident]
    split <;> rfl
  · intro name rest hread
    unfold word? at hread
    split at hread
    · cases hread
    · exact hsolid name rest hread

theorem findsSteadily_lifetime? (text : List Char) : FindsSteadily lifetime? text := by
  have hquote : Solid ['\''] := solid_of_any rfl
  have hsign : Solid ['#'] := solid_of_any rfl
  have hraw : Solid "r#".toList := solid_of_any rfl
  obtain ⟨hident, hidentSolid⟩ := findsSteadily_ident? text
  have hword : (word? (squeezed text)).isSome = (word? text).isSome := by
    rw [(findsSteadily_word? text).squeezed_eq, Option.isSome_map]
  constructor
  · unfold lifetime?
    rw [hident, isPrefixOf_squeezed hraw, hword]
    cases ident? text with
    | none => rfl
    | some read =>
      dsimp only [Option.map_some]
      rw [isPrefixOf_squeezed hquote, isPrefixOf_squeezed hsign]
      split
      · rfl
      · split <;> rfl
  · intro found rest hread
    unfold lifetime? at hread
    split at hread
    · cases hread
    · next name after hname =>
      split at hread
      · cases hread
      · split at hread
        · cases hread
          exact hidentSolid name rest hname
        · cases hread
          exact SolidUpTo.refl _

/-! ## Leaves -/

theorem startsPunct_of_blank {c : Char} (hc : isBlank c = true) (rest : List Char) :
    startsPunct (c :: rest) = false := by
  have hnone : punctuation.any isBlank = false := by decide
  exact startsPunct_of_notMem (notMem_of_any hnone hc) rest

theorem startsPunct_squeezed (text : List Char) : startsPunct (squeezed text) = startsPunct text := by
  cases text with
  | nil => rfl
  | cons c rest =>
    cases hc : isBlank c with
    | true =>
      rw [squeezed_cons_of_blank hc, startsPunct_of_blank hc]
      rcases gap_eq_nil_or_cons (squeezed rest) with ⟨hgap, -⟩ | ⟨more, hgap, -⟩
      · rw [hgap]
        rfl
      · rw [hgap, startsPunct_of_blank isBlank_space]
    | false =>
      rw [squeezed_cons_of_not_blank hc]
      by_cases hslash : c = '/'
      · have hhead (d : Char) (hd : isBlank d = false) :
            ((squeezed rest).head? == some d) = (rest.head? == some d) := by
          rw [Bool.eq_iff_iff, beq_iff_eq, beq_iff_eq, head?_squeezed hd]
        rw [hslash, startsPunct_slash, startsPunct_slash, hhead '/' (by decide), hhead '*' (by decide)]
      · rw [startsPunct_cons hslash, startsPunct_cons hslash]

/-- In a bare text every literal is a number. -/
theorem read?_of_bare (h : Bare text) : Literal.read? text = Literal.number? text := by
  have hraw {kind : Literal.QuoteKind} {rest : List Char} (hrest : Bare rest) :
      Literal.rawLiteralTail kind rest = none := by
    have hbehind : Bare (rest.dropWhile (· == '#')) := hrest.of_suffix (List.dropWhile_suffix _)
    unfold Literal.rawLiteralTail
    dsimp only
    split
    · next heq =>
      rw [heq] at hbehind
      exact absurd rfl hbehind.1.1
    · rfl
  have hchar {kind : Literal.QuoteKind} {rest : List Char} (hrest : StartsName rest) :
      Literal.charTail kind rest = none := by
    obtain ⟨c, more, rfl, hc, hclosed⟩ := hrest
    have hescape : c ≠ '\\' := by
      rintro rfl
      revert hc
      decide
    apply charTail_of_ne hescape
    rintro d hd rfl
    exact hclosed hd
  have hnumber {c : Char} {rest : List Char} (hc : c.isDigit = false) :
      Literal.number? (c :: rest) = none := Literal.number?_of_not_isDigit hc rest
  unfold Literal.read?
  split
  · exact absurd rfl h.1.1
  · rw [hraw h.2, hnumber rfl]
    rfl
  · exact absurd rfl h.2.1.1
  · rw [hraw h.2.2, hnumber rfl]
    rfl
  · rw [hchar (h.2.1.2.2 rfl), hnumber rfl]
    rfl
  · exact absurd rfl h.2.1.1
  · rw [hraw h.2.2, hnumber rfl]
    rfl
  · rw [hchar (h.1.2.2 rfl), hnumber rfl]
    rfl
  · rfl

variable {c : Char} {rest : List Char}

theorem findsSteadily_leaf? (hc : isBlank c = false) (h : Bare (c :: rest)) :
    FindsSteadily leaf? (c :: rest) := by
  have hsqueezed : squeezed (c :: rest) = c :: squeezed rest := squeezed_cons_of_not_blank hc rest
  have hbare : Bare (squeezed (c :: rest)) := bare_squeezed_iff.2 h
  obtain ⟨hnumber, hsolid⟩ := Literal.findsSteadily_number? (c :: rest)
  rw [← read?_of_bare h, ← read?_of_bare hbare] at hnumber
  rw [← read?_of_bare h] at hsolid
  cases hread : Literal.read? (c :: rest) with
  | some found =>
    obtain ⟨kind, after⟩ := found
    have hbehind := hsolid kind after hread
    rw [hread, Option.map_some] at hnumber
    constructor
    · unfold leaf?
      rw [hnumber, hread]
      dsimp only [Option.map_some]
      rw [hbehind.take_squeezed]
    · intro leaf behind hleaf
      unfold leaf? at hleaf
      rw [hread] at hleaf
      cases hleaf
      exact hbehind
  | none =>
    rw [hread, Option.map_none, hsqueezed] at hnumber
    have hpunct := startsPunct_squeezed (c :: rest)
    have hword := findsSteadily_word? (c :: rest)
    have hlifetime := findsSteadily_lifetime? rest
    rw [hsqueezed] at hpunct
    constructor
    · rw [hsqueezed, leaf?_of_no_literal hnumber, leaf?_of_no_literal hread, hpunct,
        startsPunct_squeezed, ← hsqueezed, hword.squeezed_eq, hlifetime.squeezed_eq]
      split
      · rfl
      · split
        · rfl
        · cases word? (c :: rest) <;> rfl
    · intro leaf behind hleaf
      rw [leaf?_of_no_literal hread] at hleaf
      split at hleaf
      · exact (hlifetime.solid leaf behind hleaf).cons hc
      · split at hleaf
        · cases hleaf
          exact (SolidUpTo.refl rest).cons hc
        · obtain ⟨⟨name, after⟩, hname, heq⟩ := Option.map_eq_some_iff.1 hleaf
          cases heq
          exact hword.solid name after hname

/-- No leaf of a bare text is quoted. -/
theorem isQuoted_of_leaf? {leaf : Token} {after : List Char} (h : Bare (c :: rest))
    (hleaf : leaf? (c :: rest) = some (leaf, after)) : leaf.isQuoted = false := by
  cases hread : Literal.read? (c :: rest) with
  | some found =>
    obtain ⟨kind, behind⟩ := found
    unfold leaf? at hleaf
    rw [hread] at hleaf
    cases hleaf
    rw [read?_of_bare h, Literal.number?] at hread
    split at hread
    · cases hread
      rfl
    · obtain ⟨tail, -, heq⟩ := Option.map_eq_some_iff.1 hread
      cases heq
      rfl
  | none =>
    rw [leaf?_of_no_literal hread] at hleaf
    split at hleaf
    · unfold lifetime? at hleaf
      split at hleaf
      · cases hleaf
      · split at hleaf
        · cases hleaf
        · split at hleaf <;> cases hleaf <;> rfl
    · split at hleaf
      · cases hleaf
        rfl
      · obtain ⟨found, -, heq⟩ := Option.map_eq_some_iff.1 hleaf
        cases heq
        rfl

/-! ## Lexemes -/

theorem findsSteadily_next? (hc : isBlank c = false) (h : Bare (c :: rest)) :
    FindsSteadily next? (c :: rest) := by
  have hsqueezed : squeezed (c :: rest) = c :: squeezed rest := squeezed_cons_of_not_blank hc rest
  have hbare : Bare (c :: squeezed rest) := by
    rw [← hsqueezed]
    exact bare_squeezed_iff.2 h
  obtain ⟨hleaf, hsolid⟩ := findsSteadily_leaf? hc h
  constructor
  · rw [hsqueezed, hbare.noCommentFirst.next?, h.noCommentFirst.next?, ← hsqueezed, hleaf]
    cases bracket? c with
    | some lexeme => rfl
    | none => cases leaf? (c :: rest) <;> rfl
  · intro found after hnext
    rw [h.noCommentFirst.next?] at hnext
    split at hnext
    · cases hnext
      exact (SolidUpTo.refl rest).cons hc
    · obtain ⟨⟨leaf, behind⟩, hread, heq⟩ := Option.map_eq_some_iff.1 hnext
      cases heq
      exact hsolid leaf behind hread

theorem length_lt_of_next? {found : List Lexeme} {after : List Char} (h : Bare (c :: rest))
    (hnext : next? (c :: rest) = some (found, after)) : after.length < (c :: rest).length := by
  rw [h.noCommentFirst.next?] at hnext
  split at hnext
  · cases hnext
    exact Nat.lt_succ_self rest.length
  · obtain ⟨⟨leaf, behind⟩, hread, heq⟩ := Option.map_eq_some_iff.1 hnext
    cases heq
    exact (unquotedShape_of_leaf? hread (isQuoted_of_leaf? h hread)).length_lt

theorem cut_cons_of_bare (h : Bare (c :: rest)) (fuel : Nat) : cut (fuel + 1) (c :: rest) =
    if isSpace c then cut fuel rest
    else (next? (c :: rest)).bind fun found => (cut fuel found.2).map (found.1 ++ ·) := by
  rw [cut, h.noCommentFirst.afterSpace?]
  · by_cases hspace : isSpace c = true
    · rw [if_pos hspace, if_pos hspace]
    · rw [if_neg hspace, if_neg hspace]
      cases next? (c :: rest) <;> rfl
  · intro heq
    cases heq

/-- **The lexer finds the same in a bare text** whatever the white space between its words is, as long as
it may take a step for every character. -/
theorem cut_squeezed (h : Bare text) {fuel fuel' : Nat} (hfuel : text.length ≤ fuel)
    (hfuel' : (squeezed text).length ≤ fuel') : cut fuel' (squeezed text) = cut fuel text := by
  induction hlength : text.length using Nat.strong_induction_on generalizing text fuel fuel' with
  | _ length ih =>
    subst hlength
    cases text with
    | nil => rw [squeezed_nil, cut, cut]
    | cons c rest =>
      obtain ⟨less, rfl⟩ : ∃ less, fuel = less + 1 :=
        ⟨fuel - 1, by rw [List.length_cons] at hfuel; omega⟩
      have hless : rest.length ≤ less := Nat.le_of_succ_le_succ hfuel
      rw [cut_cons_of_bare h]
      cases hc : isBlank c with
      | true =>
        have hspace : isSpace c = true := by rw [isSpace, hc, Bool.true_or, Bool.true_or]
        have hrest {fuel' : Nat} (hfuel' : (squeezed rest).length ≤ fuel') :
            cut fuel' (squeezed rest) = cut less rest :=
          ih rest.length (Nat.lt_succ_self _) h.2 hless hfuel' rfl
        rw [squeezed_cons_of_blank hc] at hfuel' ⊢
        rw [if_pos hspace]
        rcases gap_eq_nil_or_cons (squeezed rest) with ⟨hgap, hnil⟩ | ⟨more, hgap, hmore | hmore⟩
        · rw [hgap, ← hnil]
          apply hrest
          rw [hnil]
          exact Nat.zero_le fuel'
        · -- the blank is not in the squeezed rest
          have hbare : Bare (' ' :: more) := by
            rw [bare_cons_of_blank isBlank_space, ← hmore]
            exact bare_squeezed_iff.2 h.2
          rw [hgap] at hfuel' ⊢
          obtain ⟨less', rfl⟩ : ∃ less', fuel' = less' + 1 :=
            ⟨fuel' - 1, by rw [List.length_cons] at hfuel'; omega⟩
          have hblank : isSpace ' ' = true := by decide
          rw [cut_cons_of_bare hbare, if_pos hblank, ← hmore]
          apply hrest
          rw [hmore]
          exact Nat.le_of_succ_le_succ hfuel'
        · rw [hgap] at hfuel' ⊢
          rw [← hmore] at hfuel' ⊢
          exact hrest hfuel'
      | false =>
        have hsqueezed : squeezed (c :: rest) = c :: squeezed rest := squeezed_cons_of_not_blank hc rest
        have hbare : Bare (c :: squeezed rest) := by
          rw [← hsqueezed]
          exact bare_squeezed_iff.2 h
        obtain ⟨hnext, hsolid⟩ := findsSteadily_next? hc h
        rw [hsqueezed] at hfuel' hnext ⊢
        obtain ⟨less', rfl⟩ : ∃ less', fuel' = less' + 1 :=
          ⟨fuel' - 1, by rw [List.length_cons] at hfuel'; omega⟩
        have hless' : (squeezed rest).length ≤ less' := Nat.le_of_succ_le_succ hfuel'
        rw [cut_cons_of_bare hbare]
        by_cases hspace : isSpace c = true
        · rw [if_pos hspace, if_pos hspace]
          exact ih rest.length (Nat.lt_succ_self _) h.2 hless hless' rfl
        · rw [if_neg hspace, if_neg hspace]
          cases hread : next? (c :: rest) with
          | none =>
            rw [hread] at hnext
            rw [hnext]
            rfl
          | some read =>
            obtain ⟨found, after⟩ := read
            rw [hread] at hnext
            change next? (c :: squeezed rest) = some (found, squeezed after) at hnext
            have hshort := length_lt_of_next? h hread
            have hshort' := length_lt_of_next? hbare hnext
            rw [List.length_cons] at hshort hshort'
            have hafter : cut less' (squeezed after) = cut less after :=
              ih after.length hshort (h.of_suffix (hsolid found after hread).suffix) (by omega) (by omega) rfl
            rw [hnext, Option.bind_some, Option.bind_some, hafter]

end Lexeme

/-- **The tokens of a bare text** do not depend on its white space. -/
theorem Token.ofText?_squeezed {text : List Char} (h : Bare text) :
    Token.ofText? (squeezed text) = Token.ofText? text := by
  have hmark : Solid ['\ufeff'] := solid_of_any rfl
  unfold Token.ofText?
  dsimp only
  rw [isPrefixOf_squeezed hmark]
  by_cases hmarked : ['\ufeff'].isPrefixOf text = true
  · have hdrop : (squeezed text).drop 1 = squeezed (text.drop 1) := drop_squeezed hmark hmarked
    have hbare : Bare (text.drop 1) := h.of_suffix (List.drop_suffix 1 text)
    rw [if_pos hmarked, if_pos hmarked, hdrop, Lexeme.cut_squeezed hbare (Nat.le_refl _) (Nat.le_refl _)]
  · rw [if_neg hmarked, if_neg hmarked, Lexeme.cut_squeezed h (Nat.le_refl _) (Nat.le_refl _)]

end ModelMend
