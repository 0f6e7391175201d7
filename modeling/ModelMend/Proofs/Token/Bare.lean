import ModelMend.Proofs.Line.Unquoted
import ModelMend.Proofs.Text.Spacing

/-!
# Bare texts

A bare text holds no string and no comment, and every single quote in it stands in front of a name that no
quote closes. So is every text in which the lexer finds no string, no character and no comment
(`Lexeme.bare_of_cut`), and it is so whatever its white space is (`bare_squeezed_iff`).
-/

namespace ModelMend

open Text

/-- A name stands in front, with no quote behind its first character. -/
def StartsName (text : List Char) : Prop :=
  ∃ c rest, text = c :: rest ∧ isIdentStart c = true ∧ rest.head? ≠ some '\''

/-- The text holds no string, no comment and no character literal. -/
def Bare : List Char → Prop
  | [] => True
  | c :: rest =>
    (c ≠ '"' ∧ (c = '/' → rest.head? ≠ some '/' ∧ rest.head? ≠ some '*') ∧
      (c = '\'' → StartsName rest)) ∧ Bare rest

theorem bare_cons {c : Char} {rest : List Char} : Bare (c :: rest) ↔
    (c ≠ '"' ∧ (c = '/' → rest.head? ≠ some '/' ∧ rest.head? ≠ some '*') ∧
      (c = '\'' → StartsName rest)) ∧ Bare rest := Iff.rfl

theorem bare_cons_of_notMem {c : Char} (hc : c ∉ ['"', '\'', '/']) {rest : List Char} :
    Bare (c :: rest) ↔ Bare rest := by
  simp only [List.mem_cons, List.not_mem_nil, or_false, not_or] at hc
  rw [bare_cons]
  exact and_iff_right ⟨hc.1, fun heq => absurd heq hc.2.2, fun heq => absurd heq hc.2.1⟩

theorem notMem_of_isBlank {c : Char} (h : isBlank c = true) : c ∉ ['"', '\'', '/'] := by
  have hnone : ['"', '\'', '/'].any isBlank = false := by decide
  exact notMem_of_any hnone h

theorem bare_cons_of_blank {c : Char} (hc : isBlank c = true) {rest : List Char} :
    Bare (c :: rest) ↔ Bare rest :=
  bare_cons_of_notMem (notMem_of_isBlank hc)

variable {front back text : List Char}

theorem isBlank_of_isIdentStart {c : Char} (h : isIdentStart c = true) : isBlank c = false :=
  not_isBlank_of_isIdentContinue (isIdentContinue_of_isIdentStart h)

/-! ## Pieces of bare texts -/

theorem Bare.of_append_right (h : Bare (front ++ back)) : Bare back := by
  induction front with
  | nil => exact h
  | cons c front ih => exact ih h.2

theorem Bare.of_suffix (h : Bare text) (hsuffix : back <:+ text) : Bare back := by
  obtain ⟨front, rfl⟩ := hsuffix
  exact h.of_append_right

theorem StartsName.of_append_left (h : StartsName (front ++ back))
    (hback : ∀ c, back.head? = some c → isIdentStart c = false) : StartsName front := by
  obtain ⟨c, rest, heq, hc, hquote⟩ := h
  cases front with
  | nil =>
    rw [List.nil_append] at heq
    have hstart := hback c (by rw [heq]; rfl)
    rw [hc] at hstart
    cases hstart
  | cons d more =>
    obtain ⟨rfl, rfl⟩ := List.cons.inj heq
    refine ⟨d, more, rfl, hc, ?_⟩
    cases more with
    | nil => simp
    | cons e more => exact hquote

/-- What comes before a character that starts no name is bare by itself. -/
theorem Bare.of_append_left (h : Bare (front ++ back))
    (hback : ∀ c, back.head? = some c → isIdentStart c = false) : Bare front := by
  induction front with
  | nil => trivial
  | cons c front ih =>
    obtain ⟨⟨hstring, hslash, hquote⟩, hmore⟩ := h
    refine ⟨⟨hstring, ?_, fun heq => (hquote heq).of_append_left hback⟩, ih hmore⟩
    intro heq
    cases front with
    | nil => simp
    | cons d front => exact hslash heq

theorem Bare.of_append_cons {c : Char} (h : Bare (front ++ c :: back)) (hc : isBlank c = true) :
    Bare front := by
  apply h.of_append_left
  rintro d ⟨⟩
  rw [Bool.eq_false_iff]
  intro hstart
  rw [isBlank_of_isIdentStart hstart] at hc
  cases hc

theorem Bare.append (hfront : ∀ c ∈ front, c ∉ numberMarks) (h : Bare back) : Bare (front ++ back) := by
  induction front with
  | nil => exact h
  | cons c front ih =>
    obtain ⟨hc, hmore⟩ := List.forall_mem_cons.1 hfront
    rw [List.cons_append, bare_cons_of_notMem hc]
    exact ih hmore

/-! ## White space in bare texts -/

theorem startsName_squeezed_iff : StartsName (squeezed text) ↔ StartsName text := by
  have hquote : isBlank '\'' = false := by decide
  constructor
  · rintro ⟨c, rest, heq, hc, hclosed⟩
    have hhead : text.head? = some c := by
      rw [← head?_squeezed (isBlank_of_isIdentStart hc), heq]
      rfl
    obtain ⟨more, rfl⟩ := List.head?_eq_some_iff.1 hhead
    rw [squeezed_cons_of_not_blank (isBlank_of_isIdentStart hc)] at heq
    obtain ⟨-, rfl⟩ := List.cons.inj heq
    exact ⟨c, more, rfl, hc, fun h => hclosed ((head?_squeezed hquote).2 h)⟩
  · rintro ⟨c, rest, rfl, hc, hclosed⟩
    refine ⟨c, squeezed rest, squeezed_cons_of_not_blank (isBlank_of_isIdentStart hc) rest, hc, ?_⟩
    exact fun h => hclosed ((head?_squeezed hquote).1 h)

theorem bare_gap_iff : Bare (gap text) ↔ Bare text := by
  rcases gap_eq_nil_or_cons text with ⟨hgap, rfl⟩ | ⟨rest, hgap, rfl | rfl⟩
  · rw [hgap]
  · rw [hgap, bare_cons_of_blank isBlank_space]
  · rw [hgap]

/-- White space does not matter to what is bare. -/
theorem bare_squeezed_iff : Bare (squeezed text) ↔ Bare text := by
  induction text with
  | nil => exact Iff.rfl
  | cons c rest ih =>
    cases hc : isBlank c with
    | true => rw [squeezed_cons_of_blank hc, bare_gap_iff, bare_cons_of_blank hc, ih]
    | false =>
      have hslash : isBlank '/' = false := by decide
      have hstar : isBlank '*' = false := by decide
      rw [squeezed_cons_of_not_blank hc, bare_cons, bare_cons, ih, startsName_squeezed_iff, Ne, Ne, Ne, Ne,
        Ne, head?_squeezed hslash, head?_squeezed hstar]

/-! ## What bare texts are to the scanner and to the lexer -/

theorem StartsName.literalTail (h : StartsName text) : Scanner.literalTail text = none := by
  obtain ⟨c, rest, rfl, hc, hclosed⟩ := h
  rw [literalTail_cons (ne_of_isIdentStart hc (by decide)), if_neg hclosed]

theorem Bare.unquoted (h : Bare text) : Unquoted text := by
  induction text with
  | nil => exact unquoted_nil
  | cons c rest ih =>
    obtain ⟨⟨hstring, hslash, hquote⟩, hmore⟩ := h
    rw [unquoted_cons]
    exact ⟨⟨hstring, fun heq => (hslash heq).1, fun heq => (hquote heq).literalTail⟩, ih hmore⟩

theorem Bare.noCommentFirst (h : Bare text) : Lexeme.NoCommentFirst text := by
  rintro back rfl
  exact h.1.2.1 rfl

namespace Lexeme

/-- A name is read in front of a text that starts a name. -/
theorem startsName_of_ident? (hopens : Scanner.literalTail text = none)
    (hnamed : (ident? text).isSome = true) : StartsName text := by
  obtain ⟨⟨name, rest⟩, hident⟩ := Option.isSome_iff_exists.1 hnamed
  obtain ⟨c, more, rfl, hc⟩ : ∃ c more, text = c :: more ∧ isIdentStart c = true := by
    unfold ident? at hident
    cases text with
    | nil => cases hident
    | cons c more =>
      refine ⟨c, more, rfl, ?_⟩
      dsimp only at hident
      by_cases hraw : "r#".toList.isPrefixOf (c :: more) = true
      · obtain ⟨after, hafter⟩ := List.isPrefixOf_iff_prefix.1 hraw
        have hletter : c = 'r' := (List.cons.inj hafter).1.symm
        rw [hletter]
        decide
      · rw [if_neg hraw] at hident
        dsimp only at hident
        split at hident
        · next hstart => exact hstart
        · cases hident
  refine ⟨c, more, rfl, hc, ?_⟩
  rw [literalTail_cons (ne_of_isIdentStart hc (by decide))] at hopens
  intro hclosed
  rw [if_pos hclosed] at hopens
  cases hopens

/-- **Where the lexer finds no string, no character and no comment** in a text, the text is bare. -/
theorem bare_of_cut {fuel : Nat} {lexemes : List Lexeme} (hcut : cut fuel text = some lexemes)
    (hleaf : ∀ leaf, token leaf ∈ lexemes → leaf.isQuoted = false)
    (hcomment : ∀ place, place <:+ text → NoCommentFirst place) : Bare text := by
  apply cut_induction trivial ?_ ?_ hcut hleaf hcomment
  · intro c rest hc hrest
    exact (bare_cons_of_notMem hc).2 hrest
  · intro text rest hshape hfirst hrest
    cases hshape with
    | plain written _ plain =>
      rw [written]
      exact hrest.append plain
    | @sign c written noQuote =>
      simp only [List.mem_cons, List.not_mem_nil, or_false, not_or] at noQuote
      rw [written] at hfirst ⊢
      refine ⟨⟨noQuote.1, ?_, fun heq => absurd heq noQuote.2⟩, hrest⟩
      rintro rfl
      exact hfirst rest rfl
    | lifetime written plain opens named =>
      rw [written]
      refine ⟨⟨by decide, fun heq => absurd heq (by decide), fun _ => ?_⟩, hrest.append plain⟩
      exact startsName_of_ident? opens named

end Lexeme

end ModelMend
