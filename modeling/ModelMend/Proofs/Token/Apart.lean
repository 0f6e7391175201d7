import ModelMend.Proofs.Token.Steady
import ModelMend.Proofs.Token.Written

/-!
# Leaves and what ends them

A leaf that the lexer reads from a text by itself is read in front of any text that it cannot go on with
(`Lexeme.leaf?_apart`). So tokens that are set apart by white space, brackets or signs between them may be
written down one after the other (`Lexeme.Written.apart`).
-/

namespace ModelMend

open Text

/-- No leaf goes on with the text: it begins with no character of a word, no quote, no number sign, no
point and no sign of an exponent. -/
def Apart (text : List Char) : Prop :=
  ∀ c, text.head? = some c → isIdentContinue c = false ∧ c ∉ ['"', '\'', '#', '.', '+', '-']

theorem Apart.cons {c : Char} (hident : isIdentContinue c = false)
    (hmarks : c ∉ ['"', '\'', '#', '.', '+', '-']) (rest : List Char) : Apart (c :: rest) := by
  rintro d ⟨⟩
  exact ⟨hident, hmarks⟩

section

variable {rest : List Char} (hrest : Apart rest)

include hrest

theorem Apart.endsWord : EndsWord rest := by
  constructor
  · intro c hc
    have hmarks := (hrest c hc).2
    simp only [List.mem_cons, List.not_mem_nil, or_false, not_or] at hmarks
    exact ⟨hmarks.1, hmarks.2.1, hmarks.2.2.1⟩
  · exact fun c hc => (hrest c hc).1

theorem Apart.not_isIdentStart {c : Char} (hc : rest.head? = some c) : isIdentStart c = false :=
  not_isIdentStart_of_not_isIdentContinue (hrest c hc).1

theorem Apart.noNumber {c : Char} (hc : rest.head? = some c) : NoNumber c := by
  obtain ⟨hident, hmarks⟩ := hrest c hc
  have hsigns : ['+', '-', '.'] ⊆ ['"', '\'', '#', '.', '+', '-'] := by decide
  exact noNumber_of_not_isIdentContinue hident fun hmem => hmarks (hsigns hmem)

/-- What a reader looks for in front of a text that sets apart is in front of what comes before. -/
theorem Apart.head?_any {p : Char → Bool} (hp : ∀ c, rest.head? = some c → p c = false) (text : List Char) :
    (text ++ rest).head?.any p = text.head?.any p := by
  cases text with
  | cons c text => rfl
  | nil =>
    cases rest with
    | nil => rfl
    | cons c rest => exact hp c rfl

end

/-- A run of characters ends in front of a text that begins with none of them. -/
theorem run_append {p : Char → Bool} {rest : List Char} (hp : ∀ c, rest.head? = some c → p c = false)
    (text : List Char) : (text ++ rest).takeWhile p = text.takeWhile p ∧
      (text ++ rest).dropWhile p = text.dropWhile p ++ rest := by
  induction text with
  | nil =>
    cases rest with
    | nil => exact ⟨rfl, rfl⟩
    | cons c rest => simp [hp c rfl]
  | cons c text ih =>
    rw [List.cons_append, List.takeWhile_cons, List.takeWhile_cons, List.dropWhile_cons, List.dropWhile_cons,
      ih.1, ih.2]
    cases p c <;> exact ⟨rfl, rfl⟩

/-- An opening that holds no character of the rest is not completed by it. -/
theorem isPrefixOf_append {opening rest : List Char} (h : ∀ c, rest.head? = some c → c ∉ opening)
    (text : List Char) : opening.isPrefixOf (text ++ rest) = opening.isPrefixOf text := by
  induction text generalizing opening with
  | nil =>
    cases opening with
    | nil => cases rest <;> rfl
    | cons d opening =>
      cases rest with
      | nil => rfl
      | cons c rest =>
        have hne : d ≠ c := fun heq => h c rfl (heq ▸ List.mem_cons_self)
        rw [List.nil_append, List.isPrefixOf_cons_cons, beq_false_of_ne hne]
        rfl
  | cons c text ih =>
    cases opening with
    | nil => rfl
    | cons d opening =>
      rw [List.cons_append, List.isPrefixOf_cons_cons, List.isPrefixOf_cons_cons,
        ih fun c hc hmem => h c hc (List.mem_cons_of_mem d hmem)]

namespace Literal

/-! ## Numbers -/

section

variable {rest : List Char} (hrest : Apart rest)

include hrest

theorem exponentTail_apart (sawSign sawDigit : Bool) (text : List Char) :
    exponentTail sawSign sawDigit (text ++ rest) = (exponentTail sawSign sawDigit text).map (· ++ rest) := by
  induction text generalizing sawSign sawDigit with
  | nil =>
    rw [List.nil_append, exponentTail_stops fun _ => hrest.noNumber]
    cases sawDigit <;> rfl
  | cons c text ih =>
    rw [List.cons_append, exponentTail, exponentTail]
    split_ifs <;> first | exact ih _ _ | rfl

theorem floatTail_apart (sawPoint : Bool) (text : List Char) :
    floatTail sawPoint (text ++ rest) = (floatTail sawPoint text).map (· ++ rest) := by
  have hpoint (d : Char) (hd : rest.head? = some d) : (d == '.' || isIdentStart d) = false := by
    have hnumber := (hrest.noNumber hd).noSign
    simp only [List.mem_cons, List.not_mem_nil, or_false, not_or] at hnumber
    simp [hnumber, hrest.not_isIdentStart hd]
  induction text generalizing sawPoint with
  | nil =>
    rw [List.nil_append, floatTail_stops fun _ => hrest.noNumber]
    cases sawPoint <;> rfl
  | cons c text ih =>
    rw [List.cons_append, floatTail, floatTail, hrest.head?_any hpoint, exponentTail_apart hrest, ih, ih]
    cases exponentTail false false text with
    | none => split_ifs <;> rfl
    | some tail => split_ifs <;> rfl

theorem digitsTail_apart (base : Nat) (sawDigit : Bool) (text : List Char) :
    digitsTail base sawDigit (text ++ rest) = (digitsTail base sawDigit text).map (· ++ rest) := by
  induction text generalizing sawDigit with
  | nil =>
    rw [List.nil_append, digitsTail_stops fun _ => hrest.noNumber]
    cases sawDigit <;> rfl
  | cons c text ih =>
    rw [List.cons_append, digitsTail, digitsTail, ih, ih]
    cases hexDigit? c with
    | none =>
      dsimp only
      split_ifs <;> rfl
    | some digit =>
      dsimp only
      split_ifs <;> rfl

theorem dropSuffix_apart (text : List Char) : dropSuffix (text ++ rest) = dropSuffix text ++ rest := by
  cases text with
  | nil =>
    cases rest with
    | nil => rfl
    | cons c rest =>
      change (if isIdentStart c then _ else _) = _
      rw [hrest.not_isIdentStart rfl, if_neg Bool.false_ne_true]
      rfl
  | cons c text =>
    rw [List.cons_append, dropSuffix, dropSuffix, (run_append (fun d hd => (hrest d hd).1) text).2]
    split_ifs <;> rfl

theorem numberTail_apart (text : List Char) :
    numberTail (text ++ rest) = (numberTail text).map (· ++ rest) := by
  unfold numberTail
  dsimp only
  rw [dropSuffix_apart hrest, hrest.head?_any fun d hd => (hrest d hd).1]
  split_ifs <;> rfl

theorem markedBase?_apart (text : List Char) : markedBase? (text ++ rest) = markedBase? text := by
  match text with
  | _ :: _ :: _ => rfl
  | [] =>
    have hzero : rest.head? ≠ some '0' := by
      intro heq
      exact absurd (hrest '0' heq).1 (by decide)
    rw [List.nil_append, markedBase?, if_neg hzero]
    rfl
  | [c] =>
    have hmark : rest.head?.bind (List.lookup · baseMarks) = none := by
      rw [Option.bind_eq_none_iff]
      intro d hd
      have hmarks : baseMarks.all (fun mark => isIdentContinue mark.1) = true := rfl
      rw [List.lookup_eq_none_iff]
      intro mark hmem
      rw [bne_iff_ne]
      rintro rfl
      have hident := List.all_eq_true.1 hmarks mark hmem
      rw [(hrest mark.1 hd).1] at hident
      cases hident
    unfold markedBase?
    change (if some c = some '0' then rest.head?.bind (List.lookup · baseMarks) else none) = _
    rw [hmark, ite_self]
    exact (ite_self _).symm

theorem number?_apart (text : List Char) :
    number? (text ++ rest) = (number? text).map fun found => (found.1, found.2 ++ rest) := by
  have hbind (tail? : Option (List Char)) :
      (tail?.map (· ++ rest)).bind numberTail = (tail?.bind numberTail).map (· ++ rest) := by
    cases tail? with
    | none => rfl
    | some tail => exact numberTail_apart hrest tail
  have hfloat : floatLiteralTail (text ++ rest) = (floatLiteralTail text).map (· ++ rest) := by
    cases text with
    | nil =>
      cases rest with
      | nil => rfl
      | cons c rest =>
        change (if c.isDigit then _ else none) = none
        rw [(hrest.noNumber rfl).noDigit, if_neg Bool.false_ne_true]
    | cons c text =>
      rw [List.cons_append, floatLiteralTail, floatLiteralTail, floatTail_apart hrest, hbind]
      split_ifs <;> rfl
  have hinteger : integerLiteralTail (text ++ rest) = (integerLiteralTail text).map (· ++ rest) := by
    rw [integerLiteralTail_eq, integerLiteralTail_eq, markedBase?_apart hrest]
    cases hmarked : markedBase? text with
    | none =>
      dsimp only
      rw [digitsTail_apart hrest, hbind]
    | some base =>
      obtain ⟨mark, more, rfl, -⟩ := exists_cons_of_markedBase? hmarked
      change (digitsTail base false (more ++ rest)).bind numberTail = _
      rw [digitsTail_apart hrest, hbind]
      rfl
  rw [number?, number?, hfloat, hinteger]
  cases floatLiteralTail text with
  | some tail => rfl
  | none => cases integerLiteralTail text <;> rfl

end

/-! ## Quoted literals -/

section

variable {kind : QuoteKind} {text tail : List Char} (rest : List Char)

/-- A quoted literal that is closed stays as it is, whatever follows. -/
theorem quotedTail_extend {state : QuoteState} (h : quotedTail kind state text = some tail) :
    quotedTail kind state (text ++ rest) = some (tail ++ rest) := by
  fun_induction quotedTail kind state text with
  | case1 => cases h
  | case2 state c text next hstep ih =>
    rw [List.cons_append, quotedTail, hstep]
    exact ih h
  | case3 state c text hstep =>
    cases h
    rw [List.cons_append, quotedTail, hstep]
  | case4 => cases h

theorem escapeTail_extend {state : QuoteState} (h : escapeTail kind state text = some tail) :
    escapeTail kind state (text ++ rest) = some (tail ++ rest) := by
  fun_induction escapeTail kind state text with
  | case1 => cases h
  | case2 state c text hstep =>
    cases h
    rw [List.cons_append, escapeTail, hstep]
  | case3 => cases h
  | case4 state c text next hplain hbreak hstep ih =>
    rw [List.cons_append, escapeTail, hstep]
    cases next with
    | plain => exact absurd rfl hplain
    | lineBreak afterReturn => exact absurd rfl (hbreak afterReturn)
    | _ => exact ih h
  | case5 => cases h
  | case6 => cases h

theorem afterSingleQuote_extend (h : afterSingleQuote text = some tail) :
    afterSingleQuote (text ++ rest) = some (tail ++ rest) := by
  unfold afterSingleQuote at h
  split at h
  · cases h
    rfl
  · cases h

theorem charTail_extend (h : charTail kind text = some tail) :
    charTail kind (text ++ rest) = some (tail ++ rest) := by
  unfold charTail at h
  split at h
  · cases h
  · next escape =>
    obtain ⟨middle, hescape, hquote⟩ := Option.bind_eq_some_iff.1 h
    change (escapeTail kind .escape (escape ++ rest)).bind afterSingleQuote = _
    rw [escapeTail_extend rest hescape]
    exact afterSingleQuote_extend rest hquote
  · next c text hbackslash =>
    split_ifs at h with hadmits
    rw [List.cons_append, charTail, if_pos hadmits]
    · exact afterSingleQuote_extend rest h
    · exact hbackslash

end

section

variable {kind : QuoteKind} {text tail rest : List Char} (hrest : Apart rest)

include hrest

theorem rawTail_apart {signs : List Char} (hsigns : ∀ c ∈ signs, c = '#')
    (h : rawTail kind signs text = some tail) : rawTail kind signs (text ++ rest) = some (tail ++ rest) := by
  have hfront (text : List Char) : signs.isPrefixOf (text ++ rest) = signs.isPrefixOf text := by
    apply isPrefixOf_append
    intro c hc hmem
    rw [hsigns c hmem] at hc
    exact (hrest '#' hc).2 (by decide)
  fun_induction rawTail kind signs text with
  | case1 => cases h
  | case2 text ih =>
    rw [List.cons_append, List.cons_append, rawTail]
    exact ih h
  | case3 c text hreturn hclosed =>
    cases h
    obtain ⟨hquote, hstarts⟩ := Bool.and_eq_true_iff.1 hclosed
    have hlength := (List.isPrefixOf_iff_prefix.1 hstarts).length_le
    rw [List.cons_append, rawTail, hfront, if_pos hclosed, List.drop_append_of_le_length hlength]
    intro more hc
    rw [hc] at hquote
    cases hquote
  | case4 => cases h
  | case5 c text hreturn hclosed hadmits ih =>
    rw [List.cons_append, rawTail, hfront, if_neg hclosed, if_neg hadmits]
    · exact ih h
    · rintro more rfl
      exact absurd rfl hadmits

theorem rawLiteralTail_apart (h : rawLiteralTail kind text = some tail) :
    rawLiteralTail kind (text ++ rest) = some (tail ++ rest) := by
  have hsign (c : Char) (hc : rest.head? = some c) : (c == '#') = false := by
    rw [beq_eq_false_iff_ne]
    rintro rfl
    exact (hrest '#' hc).2 (by decide)
  obtain ⟨htake, hdrop⟩ := run_append hsign text
  have hall : ∀ c ∈ text.takeWhile (· == '#'), c = '#' := by
    intro c hc
    have hone := List.mem_takeWhile_imp hc
    exact eq_of_beq hone
  unfold rawLiteralTail at h ⊢
  dsimp only at h ⊢
  rw [htake, hdrop]
  split at h
  · next body hbody =>
    split_ifs at h with hcount
    rw [hbody, List.cons_append]
    change (if (text.takeWhile (· == '#')).length ≤ 255 then _ else none) = _
    rw [if_pos hcount]
    exact rawTail_apart hrest hall h
  · cases h

/-- **A literal that is read by itself** is read in front of a text that sets it apart. -/
theorem read?_apart {read : LiteralKind} (h : read? text = some (read, tail)) :
    read? (text ++ rest) = some (read, tail ++ rest) := by
  have hopened {reader : List Char → Option (List Char)} {found : LiteralKind} {body : List Char}
      (hreader : ∀ tail, reader body = some tail → reader (body ++ rest) = some (tail ++ rest))
      (h : (reader body).map (found, dropSuffix ·) = some (read, tail)) :
      (reader (body ++ rest)).map (found, dropSuffix ·) = some (read, tail ++ rest) := by
    obtain ⟨middle, hmiddle, heq⟩ := Option.map_eq_some_iff.1 h
    cases heq
    rw [hreader middle hmiddle, Option.map_some, dropSuffix_apart hrest]
  unfold read? at h
  split at h
  · exact hopened (fun _ => quotedTail_extend rest) h
  · exact hopened (fun _ => rawLiteralTail_apart hrest) h
  · exact hopened (fun _ => quotedTail_extend rest) h
  · exact hopened (fun _ => rawLiteralTail_apart hrest) h
  · exact hopened (fun _ => charTail_extend rest) h
  · exact hopened (fun _ => quotedTail_extend rest) h
  · exact hopened (fun _ => rawLiteralTail_apart hrest) h
  · exact hopened (fun _ => charTail_extend rest) h
  · -- a number begins with a digit, and so with none of the other openings
    have hnumber := number?_apart hrest text
    rw [h, Option.map_some] at hnumber
    cases text with
    | nil => cases h
    | cons c text =>
      have hdigit : c.isDigit = true := by
        rw [← Bool.not_eq_false]
        intro hdigit
        rw [number?_of_not_isDigit hdigit] at h
        cases h
      have hplain : c ∉ ['"', 'r', 'b', 'c', '\''] := by
        have hnone : ['"', 'r', 'b', 'c', '\''].any Char.isDigit = false := by decide
        exact notMem_of_any hnone hdigit
      rw [List.cons_append, read?_of_notMem hplain]
      exact hnumber

end

end Literal

namespace Lexeme

/-! ## Names -/

section

variable {text name rest : List Char} (hname : ident? text = some (name, []))

include hname

/-- A name by itself is a word or the raw form of one. -/
theorem ident?_shape : text = name ∧ ∃ c word, isIdentStart c = true ∧ Continues word ∧
    (name = c :: word ∨ (name = 'r' :: '#' :: c :: word ∧
      (["_", "super", "self", "Self", "crate"].map String.toList).contains (c :: word) = false)) := by
  have hplain {text name : List Char} (h : plainIdent? text = some (name, [])) :
      text = name ∧ ∃ c word, isIdentStart c = true ∧ Continues word ∧ name = c :: word := by
    cases text with
    | nil => cases h
    | cons c text =>
      rw [plainIdent?, Option.ite_none_right_eq_some, Option.some_inj, Prod.mk.injEq] at h
      obtain ⟨hstart, rfl, hdrop⟩ := h
      have hword : text.takeWhile isIdentContinue = text := by
        rw [List.dropWhile_eq_nil_iff] at hdrop
        exact List.takeWhile_eq_self_iff.2 hdrop
      rw [hword]
      exact ⟨rfl, c, text, hstart, List.dropWhile_eq_nil_iff.1 hdrop, rfl⟩
  rw [ident?_eq] at hname
  split_ifs at hname with hraw
  · obtain ⟨back, rfl⟩ := List.isPrefixOf_iff_prefix.1 hraw
    rw [List.drop_left] at hname
    obtain ⟨⟨word, after⟩, hword, hkept⟩ := Option.bind_eq_some_iff.1 hname
    rw [Option.ite_none_left_eq_some, Option.some_inj, Prod.mk.injEq] at hkept
    obtain ⟨hrawable, rfl, rfl⟩ := hkept
    obtain ⟨rfl, c, more, hstart, hmore, rfl⟩ := hplain hword
    exact ⟨rfl, c, more, hstart, hmore, Or.inr ⟨rfl, Bool.eq_false_iff.2 hrawable⟩⟩
  · obtain ⟨rfl, c, word, hstart, hword, rfl⟩ := hplain hname
    exact ⟨rfl, c, word, hstart, hword, Or.inl rfl⟩

/-- A name by itself is read as a word in front of what ends it. -/
theorem leaf?_name (hrest : EndsWord rest) : ident? (text ++ rest) = some (name, rest) ∧
    word? (text ++ rest) = some (name, rest) ∧ leaf? (text ++ rest) = some (.word name, rest) := by
  obtain ⟨rfl, c, word, hc, hword, rfl | ⟨rfl, hrawable⟩⟩ := ident?_shape hname
  · exact ⟨ident?_of_word hc hword hrest, word?_of_word hc hword hrest, leaf?_of_word hc hword hrest⟩
  · exact ⟨ident?_of_raw hc hword hrest hrawable, word?_of_raw hc hword hrest hrawable,
      leaf?_of_raw hc hword hrest hrawable⟩

/-- A single quote in front of the name opens no character. -/
theorem charTail_name (hrest : EndsWord rest) : Literal.charTail .text (text ++ rest) = none := by
  obtain ⟨rfl, c, word, hc, hword, rfl | ⟨rfl, -⟩⟩ := ident?_shape hname
  · apply charTail_of_ne (ne_of_isIdentStart hc (by decide))
    exact fun d hd => (Quiet.of_continues hword hrest d hd).2.1
  · apply charTail_of_ne (by decide)
    rintro d ⟨⟩
    decide

end

/-! ## Leaves -/

variable {piece rest : List Char} {leaf : Token}

/-- **A leaf that is read by itself** is read in front of a text that sets it apart. A sign is no such leaf:
it says whether another one follows. -/
theorem leaf?_apart (h : leaf? piece = some (leaf, [])) (hsign : ∀ c joint, leaf ≠ .punct c joint)
    (hrest : Apart rest) : leaf? (piece ++ rest) = some (leaf, rest) := by
  cases hread : Literal.read? piece with
  | some found =>
    obtain ⟨kind, tail⟩ := found
    unfold leaf? at h ⊢
    rw [hread] at h
    cases h
    rw [Literal.read?_apart hrest hread]
    simp
  | none =>
    cases piece with
    | nil => cases h
    | cons c piece =>
      rw [leaf?_of_no_literal hread] at h
      split_ifs at h with hquote hstarts
      · -- a lifetime
        unfold lifetime? at h
        split at h
        · cases h
        · next name after hident =>
          split_ifs at h with hclosed hword
          · cases h
            obtain ⟨hname, hfound, -⟩ := leaf?_name hident hrest.endsWord
            rw [hquote]
            exact leaf?_of_lifetime hname hfound (charTail_name hident hrest.endsWord) hrest.endsWord
          · cases h
            exact absurd rfl (hsign _ _)
      · cases h
        exact absurd rfl (hsign _ _)
      · obtain ⟨⟨name, after⟩, hword, heq⟩ := Option.map_eq_some_iff.1 h
        cases heq
        rw [word?, Option.ite_none_left_eq_some] at hword
        exact (leaf?_name hword.2 hrest.endsWord).2.2

/-! ## Texts -/

variable {text : List Char} {lexemes : List Lexeme}

/-- A leaf may be written in front of a text that sets it apart. -/
theorem Written.apart (h : leaf? piece = some (leaf, [])) (hsign : ∀ c joint, leaf ≠ .punct c joint)
    (hrest : Apart text) (more : Written lexemes text) : Written (token leaf :: lexemes) (piece ++ text) := by
  refine .leaf ?_ (leaf?_apart h hsign hrest) more
  rintro rfl
  cases h

/-- A sign may be written in front of any text that it opens no comment with. -/
theorem Written.sign {c : Char} {joint : Bool} (hc : c ∈ punctuation) (hquote : c ≠ '\'')
    (hcomment : c = '/' → text.head? ≠ some '/' ∧ text.head? ≠ some '*') (hjoint : startsPunct text = joint)
    (more : Written lexemes text) : Written (token (.punct c joint) :: lexemes) (c :: text) := by
  rw [← List.singleton_append, ← hjoint]
  exact .leaf (List.cons_ne_nil c []) (leaf?_of_punct hc hquote hcomment) more

end Lexeme

end ModelMend
