import ModelMend.Proofs.Line.Brackets
import ModelMend.Proofs.Token.Pieces

/-!
# Texts without quotes

Where the lexer finds no string, no character and no comment in a text, a single quote in it starts a
lifetime and nothing else is quoted (`unquoted_of_cut`).
-/

namespace ModelMend

open Text

/-- The leaf is a string or a character of some kind. -/
def Token.isQuoted : Token → Bool
  | .literal .string _ | .literal .other _ => true
  | .literal .integer _ | .literal .float _ | .word _ | .lifetime _ | .punct _ _ | .group _ _ => false

/-- A number is written without quotes and slashes. -/
def numberMarks : List Char :=
  ['"', '\'', '/']

theorem Unquoted.append {piece rest : List Char} (hpiece : ∀ c ∈ piece, c ∉ numberMarks)
    (h : Unquoted rest) : Unquoted (piece ++ rest) := by
  induction piece with
  | nil => exact h
  | cons c piece ih =>
    obtain ⟨hc, hmore⟩ := List.forall_mem_cons.1 hpiece
    simp only [numberMarks, List.mem_cons, List.not_mem_nil, or_false, not_or] at hc
    obtain ⟨hstring, hquote, hslash⟩ := hc
    rw [List.cons_append, unquoted_cons]
    exact ⟨⟨hstring, fun h => absurd h hslash, fun h => absurd h hquote⟩, ih hmore⟩

theorem notMem_numberMarks_of_plain {piece : List Char} (h : Plain piece) :
    ∀ c ∈ piece, c ∉ numberMarks := by
  have hmarks : numberMarks ⊆ attributeMarks := by decide
  exact fun c hc hmem => h c hc (hmarks hmem)

/-! ## Numbers -/

theorem notMem_numberMarks {c : Char}
    (h : c.isDigit = true ∨ c ∈ ['_', '.', '+', '-', 'e', 'E']) : c ∉ numberMarks := by
  have hmarks : numberMarks.all
      (fun c => !c.isDigit && !(['_', '.', '+', '-', 'e', 'E'].contains c)) = true := by decide
  intro hmem
  obtain ⟨hdigit, hsign⟩ := Bool.and_eq_true_iff.1 (List.all_eq_true.1 hmarks c hmem)
  rcases h with h | h
  · simp [h] at hdigit
  · simp only [List.contains_iff_mem.2 h, Bool.not_true, Bool.false_eq_true] at hsign

theorem exponentTail_append {sawSign sawDigit : Bool} {text rest : List Char}
    (h : Literal.exponentTail sawSign sawDigit text = some rest) :
    ∃ piece, text = piece ++ rest ∧ ∀ c ∈ piece, c ∉ numberMarks := by
  induction text generalizing sawSign sawDigit with
  | nil =>
    unfold Literal.exponentTail at h
    split at h <;> cases h
    exact ⟨[], rfl, by simp⟩
  | cons c tail ih =>
    have hmore {sawSign sawDigit : Bool} (hc : c.isDigit = true ∨ c ∈ ['_', '.', '+', '-', 'e', 'E'])
        (h : Literal.exponentTail sawSign sawDigit tail = some rest) :
        ∃ piece, c :: tail = piece ++ rest ∧ ∀ c ∈ piece, c ∉ numberMarks := by
      obtain ⟨piece, happend, hpiece⟩ := ih h
      exact ⟨c :: piece, congrArg (c :: ·) happend,
        List.forall_mem_cons.2 ⟨notMem_numberMarks hc, hpiece⟩⟩
    have hstop (h : some (c :: tail) = some rest) :
        ∃ piece, c :: tail = piece ++ rest ∧ ∀ c ∈ piece, c ∉ numberMarks := by
      cases h
      exact ⟨[], rfl, by simp⟩
    unfold Literal.exponentTail at h
    split at h
    · next hsign =>
      have hc : c = '+' ∨ c = '-' := by simpa using hsign
      split at h
      · exact hstop h
      · split at h
        · cases h
        · exact hmore (Or.inr (by rcases hc with rfl | rfl <;> decide)) h
    · split at h
      · next hdigit => exact hmore (Or.inl hdigit) h
      · split at h
        · next hline =>
          have hc : c = '_' := eq_of_beq hline
          exact hmore (Or.inr (by rw [hc]; decide)) h
        · split at h
          · exact hstop h
          · cases h

theorem floatTail_append {sawPoint : Bool} {text rest : List Char}
    (h : Literal.floatTail sawPoint text = some rest) :
    ∃ piece, text = piece ++ rest ∧ ∀ c ∈ piece, c ∉ numberMarks := by
  induction text generalizing sawPoint with
  | nil =>
    unfold Literal.floatTail at h
    split at h <;> cases h
    exact ⟨[], rfl, by simp⟩
  | cons c tail ih =>
    have hcons (hc : c.isDigit = true ∨ c ∈ ['_', '.', '+', '-', 'e', 'E'])
        (h : ∃ piece, tail = piece ++ rest ∧ ∀ c ∈ piece, c ∉ numberMarks) :
        ∃ piece, c :: tail = piece ++ rest ∧ ∀ c ∈ piece, c ∉ numberMarks := by
      obtain ⟨piece, happend, hpiece⟩ := h
      exact ⟨c :: piece, congrArg (c :: ·) happend,
        List.forall_mem_cons.2 ⟨notMem_numberMarks hc, hpiece⟩⟩
    have hstop (h : some (c :: tail) = some rest) :
        ∃ piece, c :: tail = piece ++ rest ∧ ∀ c ∈ piece, c ∉ numberMarks := by
      cases h
      exact ⟨[], rfl, by simp⟩
    unfold Literal.floatTail at h
    split at h
    · next hdigit =>
      refine hcons ?_ (ih h)
      rcases Bool.or_eq_true_iff.1 hdigit with hdigit | hline
      · exact Or.inl hdigit
      · rw [eq_of_beq hline]
        exact Or.inr (by decide)
    · split at h
      · next hpoint =>
        split at h
        · cases h
        · refine hcons (Or.inr ?_) (ih h)
          rw [eq_of_beq (Bool.and_eq_true_iff.1 hpoint).1]
          decide
      · split at h
        · next hexponent =>
          have hc : c = 'e' ∨ c = 'E' := by simpa using hexponent
          split at h
          · next tail' htail =>
            cases h
            exact hcons (Or.inr (by rcases hc with rfl | rfl <;> decide)) (exponentTail_append htail)
          · split at h
            · exact hstop h
            · cases h
        · split at h
          · exact hstop h
          · cases h

theorem number?_append {text rest : List Char} {kind : LiteralKind}
    (h : Literal.number? text = some (kind, rest)) :
    ∃ piece, text = piece ++ rest ∧ piece ≠ [] ∧ ∀ c ∈ piece, c ∉ numberMarks := by
  unfold Literal.number? at h
  split at h
  · next tail hfloat =>
    cases h
    unfold Literal.floatLiteralTail at hfloat
    split at hfloat
    · cases hfloat
    · next c text =>
      split at hfloat
      · next hdigit =>
        obtain ⟨middle, hdigits, hnumber⟩ := Option.bind_eq_some_iff.1 hfloat
        obtain ⟨front, rfl, hfront⟩ := floatTail_append hdigits
        obtain ⟨suffix, rfl, hsuffix⟩ := Lexeme.numberTail_append hnumber
        refine ⟨c :: (front ++ suffix), by simp, List.cons_ne_nil c _, List.forall_mem_cons.2 ⟨?_, ?_⟩⟩
        · exact notMem_numberMarks (Or.inl hdigit)
        · exact List.forall_mem_append.2 ⟨hfront, notMem_numberMarks_of_plain hsuffix⟩
      · cases hfloat
  · obtain ⟨tail, hinteger, heq⟩ := Option.map_eq_some_iff.1 h
    cases heq
    obtain ⟨piece, happend, hsome, hplain⟩ := Lexeme.integerLiteralTail_append hinteger
    exact ⟨piece, happend, hsome, notMem_numberMarks_of_plain hplain⟩

/-! ## Leaves -/

namespace Lexeme

/-- A literal that is no string and no character is a number. -/
theorem number?_of_read? {text rest : List Char} {kind : LiteralKind}
    (h : Literal.read? text = some (kind, rest)) (hkind : kind = .integer ∨ kind = .float) :
    Literal.number? text = some (kind, rest) := by
  have hnone {read : LiteralKind} {reads : Option (List Char)} (hread : read = .string ∨ read = .other)
      (h : reads.map (read, Literal.dropSuffix ·) = some (kind, rest)) :
      Literal.number? text = some (kind, rest) := by
    obtain ⟨tail, -, heq⟩ := Option.map_eq_some_iff.1 h
    cases heq
    rcases hread with rfl | rfl <;> rcases hkind with hkind | hkind <;> cases hkind
  unfold Literal.read? at h
  split at h
  · exact hnone (Or.inl rfl) h
  · exact hnone (Or.inl rfl) h
  · exact hnone (Or.inr rfl) h
  · exact hnone (Or.inr rfl) h
  · exact hnone (Or.inr rfl) h
  · exact hnone (Or.inr rfl) h
  · exact hnone (Or.inr rfl) h
  · exact hnone (Or.inr rfl) h
  · exact h

/-- What a leaf is written as that is not quoted, and what follows it. -/
inductive UnquotedShape (text rest : List Char) : Prop
  /-- A word or a number. -/
  | plain {piece : List Char} (written : text = piece ++ rest) (some : piece ≠ [])
    (plain : ∀ c ∈ piece, c ∉ numberMarks)
  | sign {c : Char} (written : text = c :: rest) (noQuote : c ∉ ['"', '\''])
  /-- A single quote in front of a name. -/
  | lifetime {name : List Char} (written : text = '\'' :: (name ++ rest))
    (plain : ∀ c ∈ name, c ∉ numberMarks) (opens : Scanner.literalTail (name ++ rest) = none)
    (named : (ident? (name ++ rest)).isSome = true)

theorem unquotedShape_of_leaf? {text rest : List Char} {leaf : Token}
    (h : leaf? text = some (leaf, rest)) (hquoted : leaf.isQuoted = false) :
    UnquotedShape text rest := by
  have hread {kind : LiteralKind} {after : List Char} (hkind : kind = .string ∨ kind = .other)
      (hread : Literal.read? text = some (kind, after)) : False := by
    unfold leaf? at h
    rw [hread] at h
    cases h
    rcases hkind with rfl | rfl <;> cases hquoted
  by_cases hordinary : leaf.isOrdinary = true
  · cases leafShape_of_leaf? h hordinary with
    | plain written some plain => exact .plain written some (notMem_numberMarks_of_plain plain)
    | @sign c written plain =>
      have hmarks : ['"', '\''] ⊆ attributeMarks.erase '/' := by decide
      exact .sign written fun hmem => plain (hmarks hmem)
    | @lifetime name written plain opens =>
      refine .lifetime written (notMem_numberMarks_of_plain plain) opens ?_
      subst written
      unfold leaf? at h
      split at h
      · next kind after hliteral =>
        have hother : kind = .other := by
          obtain ⟨tail, -, heq⟩ := Option.map_eq_some_iff.1 hliteral
          cases heq
          rfl
        exact (hread (Or.inr hother) hliteral).elim
      · change lifetime? (name ++ rest) = some (leaf, rest) at h
        unfold lifetime? at h
        split at h
        · cases h
        · next hident => rw [hident]; rfl
    | @string body suffix written closed plain =>
      rw [written] at hread
      have hstring : Literal.read? ('"' :: body) = some (.string, Literal.dropSuffix (suffix ++ rest)) := by
        change (Literal.quotedTail .text .plain body).map _ = _
        rw [closed]
        rfl
      exact (hread (Or.inl rfl) hstring).elim
    | @char piece suffix written closed oneLine plain =>
      rw [written] at hread
      have hchar : Literal.read? ('\'' :: (piece ++ (suffix ++ rest))) =
          some (.other, Literal.dropSuffix (suffix ++ rest)) := by
        change (Literal.charTail .text (piece ++ (suffix ++ rest))).map _ = _
        rw [closed]
        rfl
      exact (hread (Or.inr rfl) hchar).elim
  · -- what is left are numbers with a fraction or an exponent
    have hfloat : Literal.read? text = some (.float, rest) := by
      unfold leaf? at h
      split at h
      · next kind after hliteral =>
        cases h
        cases kind with
        | string => cases hquoted
        | other => cases hquoted
        | integer => exact absurd rfl hordinary
        | float => exact hliteral
      · split at h
        · unfold lifetime? at h
          split at h
          · cases h
          · split at h
            · cases h
            · split at h <;> cases h <;> exact absurd rfl hordinary
        · split at h
          · cases h
            exact absurd rfl hordinary
          · obtain ⟨word, -, heq⟩ := Option.map_eq_some_iff.1 h
            cases heq
            exact absurd rfl hordinary
    obtain ⟨piece, written, hsome, hpiece⟩ := number?_append (number?_of_read? hfloat (Or.inr rfl))
    exact .plain written hsome hpiece

theorem UnquotedShape.length_lt {text rest : List Char} (h : UnquotedShape text rest) :
    rest.length < text.length := by
  cases h with
  | plain written some =>
    have := List.length_pos_iff.2 some
    rw [written, List.length_append]
    omega
  | sign written => simp [written]
  | lifetime written =>
    rw [written, List.length_cons, List.length_append]
    omega

/-- No comment starts in front of the text. -/
def NoCommentFirst (text : List Char) : Prop :=
  ∀ back, text = '/' :: back → back.head? ≠ some '/' ∧ back.head? ≠ some '*'

theorem NoCommentFirst.not_isPrefixOf {text : List Char} (h : NoCommentFirst text) :
    ∀ opening ∈ ["//", "///", "////", "//!", "/**/", "/*", "/**", "/***", "/*!"],
      opening.toList.isPrefixOf text = false := by
  have hopening : ∀ opening ∈ ["//", "///", "////", "//!", "/**/", "/*", "/**", "/***", "/*!"],
      ['/', '/'].isPrefixOf opening.toList = true ∨ ['/', '*'].isPrefixOf opening.toList = true := by
    decide
  intro opening hmem
  by_contra hprefix
  have hstarts := List.isPrefixOf_iff_prefix.1 (Bool.of_not_eq_false hprefix)
  rcases hopening opening hmem with hslash | hstar
  · obtain ⟨more, rfl⟩ := (List.isPrefixOf_iff_prefix.1 hslash).trans hstarts
    exact (h ('/' :: more) rfl).1 rfl
  · obtain ⟨more, rfl⟩ := (List.isPrefixOf_iff_prefix.1 hstar).trans hstarts
    exact (h ('*' :: more) rfl).2 rfl

theorem NoCommentFirst.afterSpace? {c : Char} {text : List Char} (h : NoCommentFirst (c :: text)) :
    Lexeme.afterSpace? (c :: text) = if isSpace c then some text else none := by
  have hnone := h.not_isPrefixOf
  simp only [List.forall_mem_cons] at hnone
  unfold Lexeme.afterSpace?
  simp only [hnone, Bool.false_and, Bool.false_eq_true, if_false]

theorem NoCommentFirst.docComment? {text : List Char} (h : NoCommentFirst text) :
    Lexeme.docComment? text = none := by
  have hnone := h.not_isPrefixOf
  simp only [List.forall_mem_cons] at hnone
  unfold Lexeme.docComment?
  simp only [hnone, Bool.false_and, Bool.false_eq_true, if_false]

/-- The bracket that a character is. -/
def bracket? : Char → Option Lexeme
  | '(' => some (opens .round)
  | '[' => some (opens .square)
  | '\x7b' => some (opens .curly)
  | ')' => some (closes .round)
  | ']' => some (closes .square)
  | '\x7d' => some (closes .curly)
  | _ => none

/-- Where no comment starts, a lexeme is a bracket or a leaf. -/
theorem NoCommentFirst.next? {c : Char} {rest : List Char} (h : NoCommentFirst (c :: rest)) :
    Lexeme.next? (c :: rest) = match bracket? c with
    | some lexeme => some ([lexeme], rest)
    | none => (leaf? (c :: rest)).map fun found => ([token found.1], found.2) := by
  unfold Lexeme.next?
  rw [h.docComment?]
  dsimp only
  split
  case h_7 hround hsquare hcurly hround' hsquare' hcurly' =>
    have hnone : bracket? c = none := by
      unfold bracket?
      split
      · exact absurd rfl (hround rest)
      · exact absurd rfl (hsquare rest)
      · exact absurd rfl (hcurly rest)
      · exact absurd rfl (hround' rest)
      · exact absurd rfl (hsquare' rest)
      · exact absurd rfl (hcurly' rest)
      · rfl
    rw [hnone]
  all_goals
    rename_i heq
    cases heq
    rfl

/-- **Going through a text without strings, characters and comments**, as the lexer cuts it: what holds
of the empty text, behind one more character of white space or bracket, and behind one more leaf holds of
the text. -/
theorem cut_induction {P : List Char → Prop} (hnil : P [])
    (hone : ∀ c rest, c ∉ ['"', '\'', '/'] → P rest → P (c :: rest))
    (hleaf : ∀ text rest, UnquotedShape text rest → NoCommentFirst text → P rest → P text) {fuel : Nat}
    {text : List Char} {lexemes : List Lexeme} (hcut : cut fuel text = some lexemes)
    (hquoted : ∀ leaf, token leaf ∈ lexemes → leaf.isQuoted = false)
    (hcomment : ∀ place, place <:+ text → NoCommentFirst place) : P text := by
  induction fuel generalizing text lexemes with
  | zero =>
    cases text with
    | nil => exact hnil
    | cons c tail => cases hcut
  | succ fuel ih =>
    cases text with
    | nil => exact hnil
    | cons c tail =>
      have hfirst : NoCommentFirst (c :: tail) := hcomment _ (List.suffix_refl _)
      have hbehind {rest : List Char} (hrest : rest <:+ c :: tail) :
          ∀ place, place <:+ rest → NoCommentFirst place :=
        fun place hplace => hcomment place (hplace.trans hrest)
      rw [cut, hfirst.afterSpace?] at hcut
      · by_cases hspace : isSpace c = true
        · rw [if_pos hspace] at hcut
          refine hone c tail ?_ (ih hcut hquoted (hbehind (List.suffix_cons c tail)))
          have hmarks : ['"', '\'', '/'].any isSpace = false := by decide
          exact notMem_of_any hmarks hspace
        · rw [if_neg hspace] at hcut
          cases hnext : next? (c :: tail) with
          | none =>
            rw [hnext] at hcut
            cases hcut
          | some read =>
            obtain ⟨found, rest⟩ := read
            rw [hnext] at hcut
            obtain ⟨more, hmore, rfl⟩ := Option.map_eq_some_iff.1 hcut
            have hrest : P rest := ih hmore
              (fun leaf hmem => hquoted leaf (List.mem_append_right found hmem))
              (hbehind (next?_suffix hnext))
            rw [hfirst.next?] at hnext
            split at hnext
            · next lexeme hbracket =>
              cases hnext
              refine hone c _ ?_ hrest
              have hnone : ['"', '\'', '/'].any (fun d => (bracket? d).isSome) = false := rfl
              intro hmem
              have hany := List.any_eq_false.1 hnone c hmem
              rw [hbracket] at hany
              exact hany rfl
            · obtain ⟨⟨leaf, after⟩, hread, heq⟩ := Option.map_eq_some_iff.1 hnext
              cases heq
              exact hleaf _ _ (unquotedShape_of_leaf? hread (hquoted leaf List.mem_cons_self)) hfirst hrest
      · intro heq
        cases heq

/-- **Where the lexer finds no string, no character and no comment** in a text, it holds none. -/
theorem unquoted_of_cut {fuel : Nat} {text : List Char} {lexemes : List Lexeme}
    (hcut : cut fuel text = some lexemes) (hleaf : ∀ leaf, token leaf ∈ lexemes → leaf.isQuoted = false)
    (hcomment : ∀ place, place <:+ text → NoCommentFirst place) : Unquoted text := by
  apply cut_induction unquoted_nil ?_ ?_ hcut hleaf hcomment
  · intro c rest hc hrest
    simp only [List.mem_cons, List.not_mem_nil, or_false, not_or] at hc
    rw [unquoted_cons]
    exact ⟨⟨hc.1, fun heq => absurd heq hc.2.2, fun heq => absurd heq hc.2.1⟩, hrest⟩
  · intro text rest hshape hfirst hrest
    cases hshape with
    | plain written _ plain =>
      rw [written]
      exact hrest.append plain
    | @sign c written noQuote =>
      simp only [List.mem_cons, List.not_mem_nil, or_false, not_or] at noQuote
      rw [written] at hfirst ⊢
      rw [unquoted_cons]
      refine ⟨⟨noQuote.1, ?_, fun heq => absurd heq noQuote.2⟩, hrest⟩
      rintro rfl
      exact (hfirst rest rfl).1
    | lifetime written plain opens =>
      rw [written, unquoted_cons]
      refine ⟨⟨by decide, fun heq => absurd heq (by decide), fun _ => opens⟩, ?_⟩
      exact hrest.append plain

end Lexeme

end ModelMend
