import Mathlib.Data.List.TakeWhile
import ModelMend.Line.Scan
import ModelMend.Proofs.Token.Progress
import ModelMend.Proofs.Token.Words

/-!
# Reading a text piece by piece

The lexer goes through a text from place to place (`Lexeme.Visits`). A piece that it finds there is white
space, a line comment, a bracket or an ordinary leaf, that is a word, a lifetime, a sign, an integer, a
string or a character (`Lexeme.Reads`), and what such a leaf looks like is told by its first character
(`Lexeme.LeafShape`).
-/

namespace ModelMend

open Text

namespace Lexeme

/-! ## Places -/

/-- The text behind the piece at its start: white space, a comment, a lexeme, or a character that starts
none of these. -/
def advance (text : List Char) : List Char :=
  match afterSpace? text with
  | some rest => rest
  | none =>
    match next? text with
    | some (_, rest) => rest
    | none => text.tail

/-- Reading the text piece by piece, the lexer comes to what is left. -/
inductive Visits : List Char → List Char → Prop
  | here (text : List Char) : Visits text text
  | later {text rest : List Char} (h : Visits (advance text) rest) : Visits text rest

theorem advance_of_afterSpace? {text after : List Char} (h : afterSpace? text = some after) :
    advance text = after := by
  rw [advance, h]

theorem advance_of_next? {text after : List Char} {found : List Lexeme} (hspace : afterSpace? text = none)
    (h : next? text = some (found, after)) : advance text = after := by
  rw [advance, hspace, h]

/-- A place that is visited is the start of an end of the text. -/
theorem Visits.suffix {text rest : List Char} (h : Visits text rest) : rest <:+ text := by
  induction h with
  | here text => exact List.suffix_refl text
  | @later text rest h ih =>
    refine ih.trans ?_
    unfold advance
    split
    · next hspace => exact afterSpace?_suffix hspace
    · split
      · next hnext => exact next?_suffix hnext
      · exact List.tail_suffix text

theorem Visits.behind {text after rest : List Char} (hadvance : advance text = after)
    (h : Visits after rest) : Visits text rest :=
  .later (hadvance ▸ h)

/-- Where a text can be cut into lexemes, the cutting goes through every place that is visited. -/
theorem Visits.cut {text rest : List Char} (h : Visits text rest) {fuel : Nat}
    {lexemes : List Lexeme} (hcut : cut fuel text = some lexemes) :
    ∃ fuel' back, Lexeme.cut fuel' rest = some back ∧ back <:+ lexemes := by
  induction h generalizing fuel lexemes with
  | here text => exact ⟨fuel, lexemes, hcut, List.suffix_refl lexemes⟩
  | @later text rest h ih =>
    cases text with
    | nil => exact ih hcut
    | cons c tail =>
      cases fuel with
      | zero => cases hcut
      | succ fuel =>
        rw [Lexeme.cut] at hcut
        · cases hspace : afterSpace? (c :: tail) with
          | some after =>
            rw [hspace] at hcut
            rw [← advance_of_afterSpace? hspace] at hcut
            exact ih hcut
          | none =>
            rw [hspace] at hcut
            cases hnext : next? (c :: tail) with
            | none =>
              rw [hnext] at hcut
              cases hcut
            | some read =>
              obtain ⟨found, after⟩ := read
              rw [hnext] at hcut
              obtain ⟨more, hmore, rfl⟩ := Option.map_eq_some_iff.1 hcut
              rw [← advance_of_next? hspace hnext] at hmore
              obtain ⟨fuel', back, hback, hsuffix⟩ := ih hmore
              exact ⟨fuel', back, hback, hsuffix.trans (List.suffix_append found more)⟩
        · exact List.cons_ne_nil c tail

/-! ## Line comments -/

/-- The text is over or goes on with a line end. -/
def EndsLine (text : List Char) : Prop :=
  text = [] ∨ (∃ more, text = '\n' :: more) ∨ ∃ more, text = '\r' :: '\n' :: more

theorem restOfLine_spec (text : List Char) :
    restOfLine text ++ text.drop (restOfLine text).length = text ∧ '\n' ∉ restOfLine text ∧
      EndsLine (text.drop (restOfLine text).length) := by
  fun_induction restOfLine text with
  | case1 => exact ⟨rfl, by simp, Or.inl rfl⟩
  | case2 rest => exact ⟨rfl, by simp, Or.inr (Or.inr ⟨rest, rfl⟩)⟩
  | case3 c rest _ hc =>
    have hnewline : c = '\n' := eq_of_beq hc
    exact ⟨rfl, by simp, Or.inr (Or.inl ⟨rest, by rw [hnewline]; rfl⟩)⟩
  | case4 c rest _ hc ih =>
    obtain ⟨happend, hnewline, hends⟩ := ih
    have hne : c ≠ '\n' := by simpa using hc
    exact ⟨congrArg (c :: ·) happend, by simp [hnewline, Ne.symm hne], hends⟩

/-- The text starts with a line comment, and this is what follows it. -/
def CommentFirst (text after : List Char) : Prop :=
  ∃ comment, text = '/' :: '/' :: (comment ++ after) ∧ '\n' ∉ comment ∧ EndsLine after

/-- A comment that documents nothing. -/
theorem commentFirst_of_afterSpace? {text after : List Char}
    (h : afterSpace? ('/' :: '/' :: text) = some after) : CommentFirst ('/' :: '/' :: text) after := by
  have hline : restOfLine ('/' :: '/' :: text) = '/' :: '/' :: restOfLine text := by
    simp [restOfLine]
  have hafter : after = text.drop (restOfLine text).length := by
    unfold afterSpace? at h
    simp only [hline, List.length_cons, List.drop_succ_cons] at h
    split at h
    · cases h
      rfl
    · have hslash : isSpace '/' = false := by decide
      simp [List.isPrefixOf, hslash] at h
  obtain ⟨happend, hnewline, hends⟩ := restOfLine_spec text
  subst hafter
  exact ⟨_, by rw [happend], hnewline, hends⟩

/-- A comment that documents something. -/
theorem commentFirst_of_next? {text after : List Char} {found : List Lexeme}
    (hspace : afterSpace? ('/' :: '/' :: text) = none)
    (h : next? ('/' :: '/' :: text) = some (found, after)) :
    (∃ inner comment, found = documents inner comment) ∧
      CommentFirst ('/' :: '/' :: text) after := by
  obtain ⟨d, rest, rfl, hd⟩ : ∃ d rest, text = d :: rest ∧
      (d = '!' ∨ d = '/' ∧ ¬['/'] <+: rest) := by
    cases text with
    | nil => cases hspace
    | cons d rest =>
      refine ⟨d, rest, rfl, ?_⟩
      by_cases hbang : d = '!'
      · exact Or.inl hbang
      · by_cases hslash : d = '/'
        · subst hslash
          refine Or.inr ⟨rfl, fun hprefix => ?_⟩
          simp [afterSpace?, List.isPrefixOf, hprefix] at hspace
        · have hnoslash : ['/'].isPrefixOf (d :: rest) = false := by
            simp [List.isPrefixOf, Ne.symm hslash]
          have hnobang : ['!'].isPrefixOf (d :: rest) = false := by
            simp [List.isPrefixOf, Ne.symm hbang]
          simp [afterSpace?, hnoslash, hnobang] at hspace
  obtain ⟨happend, hnewline, hends⟩ := restOfLine_spec rest
  have hdoc : ∃ inner, docComment? ('/' :: '/' :: d :: rest) =
      some (inner, restOfLine rest, rest.drop (restOfLine rest).length) := by
    have hdrop : ('/' :: '/' :: d :: rest).drop (3 + (restOfLine rest).length) =
        rest.drop (restOfLine rest).length := by
      rw [Nat.add_comm]
      rfl
    rcases hd with rfl | ⟨rfl, hrest⟩
    · exact ⟨true, by simp [docComment?, List.isPrefixOf, hdrop]⟩
    · exact ⟨false, by simp [docComment?, List.isPrefixOf, hdrop, hrest]⟩
  obtain ⟨inner, hdoc⟩ := hdoc
  unfold next? at h
  rw [hdoc] at h
  dsimp only at h
  split at h
  · cases h
    refine ⟨⟨inner, _, rfl⟩, d :: restOfLine rest, ?_, ?_, hends⟩
    · rw [List.cons_append, happend]
    · rcases hd with rfl | ⟨rfl, -⟩ <;> simp [hnewline]
  · cases h

end Lexeme

/-! ## Leaves -/

/-- The characters that mean something to a scanner of attributes, and the line feed. -/
def attributeMarks : List Char :=
  ['"', '\'', '\\', '(', ')', '[', ']', '\x7b', '\x7d', '/', '\n']

/-- No character of the text means anything to a scanner of attributes. -/
def Plain (text : List Char) : Prop :=
  ∀ c ∈ text, c ∉ attributeMarks

instance (text : List Char) : Decidable (Plain text) :=
  decidable_of_iff (text.all (!attributeMarks.contains ·) = true) (by simp [Plain])

theorem notMem_attributeMarks {c : Char} (h : isIdentContinue c = true) : c ∉ attributeMarks := by
  intro hmem
  have hspecial : attributeMarks ⊆ specialChars := by decide
  exact notMem_specialChars h (hspecial hmem)

/-- The leaf is a word, a lifetime, a sign, an integer, a string that is not raw, or a character on one
line. -/
def Token.isOrdinary : Token → Bool
  | .word _ | .lifetime _ | .punct _ _ | .literal .integer _ => true
  | .literal .string text => text.head? == some '"'
  | .literal .other text => text.head? == some '\'' && !text.contains '\n'
  | .literal .float _ | .group _ _ => false

namespace Lexeme

/-- What an ordinary leaf is written as, and what follows it. -/
inductive LeafShape (text after : List Char) : Prop
  /-- A word or an integer. -/
  | plain {piece : List Char} (written : text = piece ++ after) (some : piece ≠ [])
    (plain : Plain piece)
  | sign {c : Char} (written : text = c :: after) (plain : c ∉ attributeMarks.erase '/')
    (apart : c = '/' → after.head? ≠ some '/')
  /-- A single quote in front of a name. -/
  | lifetime {name : List Char} (written : text = '\'' :: (name ++ after)) (plain : Plain name)
    (opens : Scanner.literalTail (name ++ after) = none)
  | string {body suffix : List Char} (written : text = '"' :: body)
    (closed : Literal.quotedTail .text .plain body = some (suffix ++ after)) (plain : Plain suffix)
  | char {piece suffix : List Char} (written : text = '\'' :: (piece ++ (suffix ++ after)))
    (closed : Literal.charTail .text (piece ++ (suffix ++ after)) = some (suffix ++ after))
    (oneLine : '\n' ∉ piece) (plain : Plain suffix)

theorem dropSuffix_append (text : List Char) :
    ∃ suffix, text = suffix ++ Literal.dropSuffix text ∧ Plain suffix := by
  unfold Literal.dropSuffix
  split
  · exact ⟨[], rfl, by simp [Plain]⟩
  · next c rest =>
    split
    · next hstart =>
      refine ⟨c :: rest.takeWhile isIdentContinue, ?_, ?_⟩
      · rw [List.cons_append, List.takeWhile_append_dropWhile]
      · intro d hd
        rcases List.mem_cons.1 hd with rfl | hd
        · exact notMem_attributeMarks (isIdentContinue_of_isIdentStart hstart)
        · exact notMem_attributeMarks (List.mem_takeWhile_imp hd)
    · exact ⟨[], rfl, by simp [Plain]⟩

theorem numberTail_append {text rest : List Char} (h : Literal.numberTail text = some rest) :
    ∃ suffix, text = suffix ++ rest ∧ Plain suffix := by
  unfold Literal.numberTail at h
  dsimp only at h
  split at h
  · cases h
  · cases h
    exact dropSuffix_append text

theorem isIdentContinue_of_hexDigit? {c : Char} {digit : Nat}
    (h : Literal.hexDigit? c = some digit) : isIdentContinue c = true := by
  have hle (c d : Char) : c ≤ d ↔ c.toNat ≤ d.toNat := UInt32.le_iff_toNat_le
  have hcases : c.isDigit = true ∨ c.isAlpha = true := by
    have hsmall : 'a'.toNat = 97 ∧ 'f'.toNat = 102 := by decide
    have hcapital : 'A'.toNat = 65 ∧ 'F'.toNat = 70 := by decide
    rw [isDigit_iff, isAlpha_iff]
    unfold Literal.hexDigit? at h
    simp only [Bool.and_eq_true, decide_eq_true_eq, hle] at h
    split at h
    · next hrange => exact Or.inl hrange
    · split at h
      · omega
      · split at h
        · omega
        · cases h
  unfold isIdentContinue isIdentStart
  rcases hcases with hdigit | halpha
  · simp [hdigit]
  · simp [halpha]

/-- The digits of an integer are characters of a word. -/
theorem digitsTail_append {base : Nat} {sawDigit : Bool} {text rest : List Char}
    (h : Literal.digitsTail base sawDigit text = some rest) :
    ∃ piece, text = piece ++ rest ∧ Plain piece ∧ (sawDigit = false → piece ≠ []) := by
  induction text generalizing sawDigit with
  | nil =>
    unfold Literal.digitsTail at h
    split at h <;> cases h
    exact ⟨[], rfl, by simp [Plain], by simp_all⟩
  | cons c tail ih =>
    have hmore {sawDigit : Bool} (hc : isIdentContinue c = true)
        (h : Literal.digitsTail base sawDigit tail = some rest) :
        ∃ piece, c :: tail = piece ++ rest ∧ Plain piece ∧ piece ≠ [] := by
      obtain ⟨piece, happend, hplain, -⟩ := ih h
      exact ⟨c :: piece, congrArg (c :: ·) happend,
        List.forall_mem_cons.2 ⟨notMem_attributeMarks hc, hplain⟩, List.cons_ne_nil c piece⟩
    have hstop (hsaw : sawDigit = true) (h : some (c :: tail) = some rest) :
        ∃ piece, c :: tail = piece ++ rest ∧ Plain piece ∧ (sawDigit = false → piece ≠ []) := by
      cases h
      exact ⟨[], rfl, by simp [Plain], by simp [hsaw]⟩
    unfold Literal.digitsTail at h
    split at h
    · next digit hdigit =>
      split at h
      · obtain ⟨piece, happend, hplain, hne⟩ := hmore (isIdentContinue_of_hexDigit? hdigit) h
        exact ⟨piece, happend, hplain, fun _ => hne⟩
      · split at h
        · cases h
        · split at h
          · next hsaw => exact hstop hsaw h
          · cases h
    · split at h
      · next hline =>
        have hc : c = '_' := by simp_all
        subst hc
        obtain ⟨piece, happend, hplain, hne⟩ := hmore (by decide) h
        exact ⟨piece, happend, hplain, fun _ => hne⟩
      · split at h
        · next hsaw => exact hstop (by simp_all) h
        · cases h

theorem integerLiteralTail_append {text rest : List Char}
    (h : Literal.integerLiteralTail text = some rest) :
    ∃ piece, text = piece ++ rest ∧ piece ≠ [] ∧ Plain piece := by
  unfold Literal.integerLiteralTail at h
  obtain ⟨digits, hdigits, hnumber⟩ := Option.bind_eq_some_iff.1 h
  obtain ⟨front, hfront, hplain, hne⟩ :
      ∃ front, text = front ++ digits ∧ Plain front ∧ front ≠ [] := by
    have hprefixed {a b : Char} {base : Nat} {tail : List Char} (hab : Plain [a, b])
        (h : Literal.digitsTail base false tail = some digits) :
        ∃ front, a :: b :: tail = front ++ digits ∧ Plain front ∧ front ≠ [] := by
      obtain ⟨piece, rfl, hplain, -⟩ := digitsTail_append h
      exact ⟨a :: b :: piece, rfl, List.forall_mem_append.2 ⟨hab, hplain⟩, List.cons_ne_nil a _⟩
    split at hdigits
    · exact hprefixed (by decide) hdigits
    · exact hprefixed (by decide) hdigits
    · exact hprefixed (by decide) hdigits
    · obtain ⟨piece, happend, hplain, hne⟩ := digitsTail_append hdigits
      exact ⟨piece, happend, hplain, hne rfl⟩
  obtain ⟨suffix, rfl, hmore⟩ := numberTail_append hnumber
  refine ⟨front ++ suffix, ?_, ?_, List.forall_mem_append.2 ⟨hplain, hmore⟩⟩
  · rw [List.append_assoc, hfront]
  · simp [hne]

/-- A name is made of plain characters. -/
theorem plain_of_ident? {text name rest : List Char} (h : ident? text = some (name, rest)) :
    name ≠ [] ∧ Plain name := by
  have hname {c : Char} {tail : List Char} (hc : isIdentStart c = true) :
      Plain (c :: tail.takeWhile isIdentContinue) := by
    intro d hd
    rcases List.mem_cons.1 hd with rfl | hd
    · exact notMem_attributeMarks (isIdentContinue_of_isIdentStart hc)
    · exact notMem_attributeMarks (List.mem_takeWhile_imp hd)
  unfold ident? at h
  dsimp only at h
  split at h
  · cases h
  · split at h
    · next hstart =>
      split at h
      · cases h
        exact ⟨List.cons_ne_nil _ _, hname hstart⟩
      · split at h
        · cases h
        · cases h
          have hraw : Plain "r#".toList := by decide
          exact ⟨by simp, List.forall_mem_append.2 ⟨hraw, hname hstart⟩⟩
    · cases h

theorem leafShape_of_read? {text after : List Char} {kind : LiteralKind}
    (h : Literal.read? text = some (kind, after))
    (hordinary : (Token.literal kind (text.take (text.length - after.length))).isOrdinary = true) :
    LeafShape text after := by
  -- a literal that starts with a letter is raw, or one of bytes or of C
  have hletter {c : Char} {rest : List Char} (htext : text = c :: rest) (hc : c ∈ ['r', 'b', 'c'])
      (hkind : kind = .string ∨ kind = .other) : LeafShape text after := by
    have hne : c ≠ '"' ∧ c ≠ '\'' := by
      simp only [List.mem_cons, List.not_mem_nil, or_false] at hc
      rcases hc with rfl | rfl | rfl <;> decide
    have hhead (n : Nat) (d : Char) (hd : c ≠ d) : ((c :: rest).take n).head? ≠ some d := by
      cases n <;> simp [hd]
    rw [htext] at hordinary
    rcases hkind with rfl | rfl
    · exact absurd (eq_of_beq hordinary) (hhead _ _ hne.1)
    · exact absurd (eq_of_beq (Bool.and_eq_true_iff.1 hordinary).1) (hhead _ _ hne.2)
  have hread {kind' : LiteralKind} {reads : Option (List Char)}
      (h : reads.map (kind', Literal.dropSuffix ·) = some (kind, after)) :
      kind = kind' ∧ ∃ tail, reads = some tail ∧ after = Literal.dropSuffix tail := by
    obtain ⟨tail, htail, heq⟩ := Option.map_eq_some_iff.1 h
    cases heq
    exact ⟨rfl, tail, htail, rfl⟩
  unfold Literal.read? at h
  split at h
  · obtain ⟨-, tail, hclosed, rfl⟩ := hread h
    obtain ⟨suffix, hsuffix, hplain⟩ := dropSuffix_append tail
    exact .string rfl (hsuffix ▸ hclosed) hplain
  · exact hletter rfl (by simp) (Or.inl (hread h).1)
  · exact hletter rfl (by simp) (Or.inr (hread h).1)
  · exact hletter rfl (by simp) (Or.inr (hread h).1)
  · exact hletter rfl (by simp) (Or.inr (hread h).1)
  · exact hletter rfl (by simp) (Or.inr (hread h).1)
  · exact hletter rfl (by simp) (Or.inr (hread h).1)
  · obtain ⟨rfl, tail, hclosed, rfl⟩ := hread h
    obtain ⟨suffix, hsuffix, hplain⟩ := dropSuffix_append tail
    obtain ⟨piece, rfl⟩ := Literal.charTail_suffix hclosed
    generalize Literal.dropSuffix tail = after at hsuffix hordinary ⊢
    subst hsuffix
    refine .char rfl hclosed ?_ hplain
    have hwritten : ('\'' :: (piece ++ (suffix ++ after))).take
        (('\'' :: (piece ++ (suffix ++ after))).length - after.length) =
          '\'' :: (piece ++ suffix) := by
      have hsplit : '\'' :: (piece ++ (suffix ++ after)) = '\'' :: (piece ++ suffix) ++ after := by
        simp
      rw [hsplit, List.length_append, Nat.add_sub_cancel, List.take_left]
    rw [hwritten] at hordinary
    simp only [Token.isOrdinary, Bool.and_eq_true, Bool.not_eq_true', List.contains_eq_mem,
      decide_eq_false_iff_not, List.mem_cons, List.mem_append, not_or] at hordinary
    exact hordinary.2.2.1
  · unfold Literal.number? at h
    split at h
    · cases h
      cases hordinary
    · obtain ⟨tail, htail, heq⟩ := Option.map_eq_some_iff.1 h
      cases heq
      obtain ⟨piece, happend, hne, hplain⟩ := integerLiteralTail_append htail
      exact .plain happend hne hplain

/-- A single quote that opens no character stands in front of a name. -/
theorem leafShape_of_lifetime? {text after : List Char} {token : Token}
    (hchar : Literal.charTail .text text = none) (h : lifetime? text = some (token, after)) :
    LeafShape ('\'' :: text) after := by
  unfold lifetime? at h
  split at h
  · cases h
  · next name rest hident =>
    have happend := ident?_append hident
    obtain ⟨hne, hplain⟩ := plain_of_ident? hident
    have hopens : Scanner.literalTail text = none := by
      obtain ⟨c, tail, rfl⟩ := List.exists_cons_of_ne_nil hne
      have hbackslash : c ≠ '\\' := by
        rintro rfl
        rw [← happend] at hident
        cases hident
      rw [List.cons_append] at happend
      subst happend
      unfold Scanner.literalTail
      split
      · rfl
      · next heq => exact absurd (List.cons.inj heq).1 hbackslash
      · next heq =>
        obtain ⟨rfl, htail⟩ := List.cons.inj heq
        rw [htail] at hchar
        simp [Literal.charTail, Literal.afterSingleQuote, Literal.QuoteKind.admits] at hchar
      · rfl
    split at h
    · cases h
    · split at h
      · cases h
        subst happend
        exact .lifetime rfl hplain hopens
      · cases h
        exact @LeafShape.lifetime _ _ [] rfl (by simp [Plain]) hopens

/-- **What an ordinary leaf looks like.** -/
theorem leafShape_of_leaf? {text after : List Char} {leaf : Token}
    (h : leaf? text = some (leaf, after)) (hordinary : leaf.isOrdinary = true) :
    LeafShape text after := by
  unfold leaf? at h
  split at h
  · next kind rest hread =>
    cases h
    exact leafShape_of_read? hread hordinary
  · next hread =>
    split at h
    · next text =>
      refine leafShape_of_lifetime? ?_ h
      have hquote : Literal.read? ('\'' :: text) =
          (Literal.charTail .text text).map (.other, Literal.dropSuffix ·) := rfl
      rw [hquote, Option.map_eq_none_iff] at hread
      exact hread
    · next hquote =>
      split at h
      · next c rest hpunct =>
        cases h
        refine .sign rfl ?_ ?_
        · intro hmem
          have hmarks : (attributeMarks.erase '/').all
              (fun c => c != '/' && (c == '\'' || !punctuation.contains c)) = true := by decide
          have hc := List.all_eq_true.1 hmarks c hmem
          simp only [Bool.and_eq_true, bne_iff_ne, Bool.or_eq_true, beq_iff_eq, Bool.not_eq_true'] at hc
          obtain ⟨hslash, rfl | hnone⟩ := hc
          · exact hquote _ rfl
          · rw [startsPunct_cons hslash, hnone] at hpunct
            cases hpunct
        · rintro rfl hhead
          obtain ⟨more, rfl⟩ := List.head?_eq_some_iff.1 hhead
          cases hpunct
      · obtain ⟨⟨name, rest⟩, hword, heq⟩ := Option.map_eq_some_iff.1 h
        cases heq
        unfold word? at hword
        split at hword
        · cases hword
        · obtain ⟨hne, hplain⟩ := plain_of_ident? hword
          exact .plain (ident?_append hword).symm hne hplain

/-! ## Texts made of pieces -/

end Lexeme

def Delimiter.opening : Delimiter → Char
  | .round => '('
  | .square => '['
  | .curly => '\x7b'

def Delimiter.closing : Delimiter → Char
  | .round => ')'
  | .square => ']'
  | .curly => '\x7d'

namespace Lexeme

/-- The text is made of pieces up to `rest`: white space, line comments, brackets and ordinary leaves,
each as the lexer reads it in front of what follows. The list holds what they stand for. -/
inductive Reads (rest : List Char) : List Char → List Lexeme → Prop
  | done : Reads rest rest []
  | space {c : Char} {text : List Char} {lexemes : List Lexeme} (blank : isSpace c = true)
    (more : Reads rest text lexemes) : Reads rest (c :: text) lexemes
  | comment {text after : List Char} {lexemes : List Lexeme}
    (behind : afterSpace? ('/' :: '/' :: text) = some after) (more : Reads rest after lexemes) :
    Reads rest ('/' :: '/' :: text) lexemes
  /-- A line comment that documents something. -/
  | document {text after : List Char} {found lexemes : List Lexeme}
    (noSpace : afterSpace? ('/' :: '/' :: text) = none)
    (reads : next? ('/' :: '/' :: text) = some (found, after)) (more : Reads rest after lexemes) :
    Reads rest ('/' :: '/' :: text) (found ++ lexemes)
  | leaf {text after : List Char} {leaf : Token} {lexemes : List Lexeme}
    (noSpace : afterSpace? text = none) (reads : next? text = some ([token leaf], after))
    (ordinary : leaf.isOrdinary = true) (more : Reads rest after lexemes) :
    Reads rest text (token leaf :: lexemes)
  | opens {text : List Char} {lexemes : List Lexeme} (delimiter : Delimiter)
    (more : Reads rest text lexemes) :
    Reads rest (delimiter.opening :: text) (opens delimiter :: lexemes)
  | closes {text : List Char} {lexemes : List Lexeme} (delimiter : Delimiter)
    (more : Reads rest text lexemes) :
    Reads rest (delimiter.closing :: text) (closes delimiter :: lexemes)

theorem afterSpace?_of_isSpace {c : Char} (h : isSpace c = true) (text : List Char) :
    afterSpace? (c :: text) = some text := by
  have hslash : c ≠ '/' := by
    rintro rfl
    exact absurd h (by decide)
  simp [afterSpace?, List.isPrefixOf, Ne.symm hslash, h]

theorem next?_opening (delimiter : Delimiter) (text : List Char) :
    afterSpace? (delimiter.opening :: text) = none ∧
      next? (delimiter.opening :: text) = some ([opens delimiter], text) := by
  cases delimiter <;> exact ⟨rfl, rfl⟩

theorem next?_closing (delimiter : Delimiter) (text : List Char) :
    afterSpace? (delimiter.closing :: text) = none ∧
      next? (delimiter.closing :: text) = some ([closes delimiter], text) := by
  cases delimiter <;> exact ⟨rfl, rfl⟩

/-- A leaf that is read is read by the reader of leaves. -/
theorem leaf?_of_next? {text after : List Char} {leaf : Token}
    (h : next? text = some ([token leaf], after)) : leaf? text = some (leaf, after) := by
  unfold next? at h
  split at h
  · next inner comment rest _ =>
    split at h
    · cases inner <;> cases h
    · cases h
  · split at h
    · cases h
    · cases h
    · cases h
    · cases h
    · cases h
    · cases h
    · obtain ⟨⟨other, rest⟩, hleaf, heq⟩ := Option.map_eq_some_iff.1 h
      cases heq
      exact hleaf

theorem LeafShape.length_lt {text after : List Char} (h : LeafShape text after) :
    after.length < text.length := by
  cases h with
  | plain written some =>
    have := List.length_pos_iff.2 some
    rw [written, List.length_append]
    omega
  | sign written => simp [written]
  | lifetime written =>
    rw [written, List.length_cons, List.length_append]
    omega
  | string written closed =>
    have hbody := (Literal.quotedTail_suffix closed).length_le
    rw [List.length_append] at hbody
    rw [written, List.length_cons]
    omega
  | char written =>
    simp only [written, List.length_cons, List.length_append]
    omega

/-- No leaf starts with a backslash. -/
theorem LeafShape.head?_ne {text after : List Char} (h : LeafShape text after) :
    text.head? ≠ some '\\' := by
  cases h with
  | @plain piece written some plain =>
    obtain ⟨c, tail, rfl⟩ := List.exists_cons_of_ne_nil some
    rw [written]
    intro heq
    exact plain c List.mem_cons_self (Option.some.inj heq ▸ by decide)
  | sign written plain =>
    rw [written]
    intro heq
    exact plain (Option.some.inj heq ▸ by decide)
  | lifetime written => simp [written]
  | string written => simp [written]
  | char written => simp [written]

theorem CommentFirst.length_lt {text after : List Char} (h : CommentFirst text after) :
    after.length < text.length := by
  obtain ⟨comment, rfl, -, -⟩ := h
  simp only [List.length_cons, List.length_append]
  omega

/-- One step of cutting a text whose first piece is a lexeme. -/
theorem cut_of_next? {text after : List Char} {found : List Lexeme} (hspace : afterSpace? text = none)
    (hnext : next? text = some (found, after)) (hlength : after.length < text.length) {fuel : Nat}
    (hfuel : text.length ≤ fuel) :
    ∃ less, after.length ≤ less ∧ cut fuel text = (cut less after).map (found ++ ·) := by
  obtain ⟨less, rfl⟩ : ∃ less, fuel = less + 1 := ⟨fuel - 1, by omega⟩
  refine ⟨less, by omega, ?_⟩
  cases text with
  | nil => simp at hlength
  | cons c tail =>
    rw [cut, hspace, hnext]
    intro h
    cases h

/-- One step of cutting a text whose first piece is white space or a comment. -/
theorem cut_of_afterSpace? {text after : List Char} (hspace : afterSpace? text = some after)
    (hlength : after.length < text.length) {fuel : Nat} (hfuel : text.length ≤ fuel) :
    ∃ less, after.length ≤ less ∧ cut fuel text = cut less after := by
  obtain ⟨less, rfl⟩ : ∃ less, fuel = less + 1 := ⟨fuel - 1, by omega⟩
  refine ⟨less, by omega, ?_⟩
  cases text with
  | nil => simp at hlength
  | cons c tail =>
    rw [cut, hspace]
    intro h
    cases h

/-- **A text made of pieces is cut into what they stand for**, whatever the rest is cut into. -/
theorem Reads.cut {rest text : List Char} {lexemes back : List Lexeme} (h : Reads rest text lexemes)
    (hback : ∀ fuel, rest.length ≤ fuel → Lexeme.cut fuel rest = some back) {fuel : Nat}
    (hfuel : text.length ≤ fuel) : Lexeme.cut fuel text = some (lexemes ++ back) := by
  have hlexeme {text after : List Char} {found lexemes : List Lexeme}
      (hspace : afterSpace? text = none) (hnext : next? text = some (found, after))
      (hlength : after.length < text.length)
      (ih : ∀ {fuel}, after.length ≤ fuel → Lexeme.cut fuel after = some (lexemes ++ back))
      {fuel : Nat} (hfuel : text.length ≤ fuel) :
      Lexeme.cut fuel text = some (found ++ lexemes ++ back) := by
    obtain ⟨less, hless, hcut⟩ := cut_of_next? hspace hnext hlength hfuel
    rw [hcut, ih hless, Option.map_some, List.append_assoc]
  induction h generalizing fuel with
  | done => exact hback fuel hfuel
  | @space c text lexemes blank more ih =>
    obtain ⟨less, hless, hcut⟩ :=
      cut_of_afterSpace? (afterSpace?_of_isSpace blank text) (Nat.lt_succ_self _) hfuel
    rw [hcut, ih hless]
  | comment behind more ih =>
    obtain ⟨less, hless, hcut⟩ :=
      cut_of_afterSpace? behind (commentFirst_of_afterSpace? behind).length_lt hfuel
    rw [hcut, ih hless]
  | document noSpace reads more ih =>
    exact hlexeme noSpace reads (commentFirst_of_next? noSpace reads).2.length_lt ih hfuel
  | leaf noSpace reads ordinary more ih =>
    have hshape := leafShape_of_leaf? (leaf?_of_next? reads) ordinary
    exact hlexeme noSpace reads hshape.length_lt ih hfuel
  | opens delimiter more ih =>
    obtain ⟨hspace, hnext⟩ := next?_opening delimiter _
    exact hlexeme hspace hnext (Nat.lt_succ_self _) ih hfuel
  | closes delimiter more ih =>
    obtain ⟨hspace, hnext⟩ := next?_closing delimiter _
    exact hlexeme hspace hnext (Nat.lt_succ_self _) ih hfuel

/-- No text made of pieces starts with a backslash. -/
theorem Reads.head?_ne {rest text : List Char} {lexemes : List Lexeme} (h : Reads rest text lexemes)
    (hrest : rest.head? ≠ some '\\') : text.head? ≠ some '\\' := by
  cases h with
  | done => exact hrest
  | space blank =>
    intro heq
    rw [Option.some.inj heq] at blank
    exact absurd blank (by decide)
  | comment => simp
  | document => simp
  | leaf noSpace reads ordinary => exact (leafShape_of_leaf? (leaf?_of_next? reads) ordinary).head?_ne
  | opens delimiter => cases delimiter <;> simp [Delimiter.opening]
  | closes delimiter => cases delimiter <;> simp [Delimiter.closing]

/-! ## Nesting -/

/-- Lexemes whose brackets have their partners among them are nested by themselves. -/
theorem nest_append {stack outer : List (Delimiter × List Token)} {current content : List Token}
    {front : List Lexeme} (h : nest stack current front = some content) (back : List Lexeme) :
    nest (stack ++ outer) current (front ++ back) = nest outer content.reverse back := by
  fun_induction nest stack current front with
  | case1 stack current hempty =>
    cases h
    rw [List.isEmpty_iff.1 hempty, List.reverse_reverse]
    rfl
  | case2 => cases h
  | case3 stack current leaf rest ih => exact ih h
  | case4 stack current delimiter rest ih => exact ih h
  | case5 => cases h
  | case6 current rest opened outer' stack ih =>
    rw [List.cons_append, List.cons_append, nest, if_pos rfl]
    exact ih h
  | case7 => cases h

/-- The attribute that a comment stands for is two tokens. -/
theorem nest_documents (inner : Bool) (comment : List Char) (stack : List (Delimiter × List Token))
    (current : List Token) : ∃ tokens, ∀ back,
      nest stack current (documents inner comment ++ back) = nest stack tokens back := by
  cases inner <;> exact ⟨_, fun back => rfl⟩

end Lexeme

end ModelMend
