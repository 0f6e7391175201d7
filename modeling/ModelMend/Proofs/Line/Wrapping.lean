import ModelMend.Line.DeclaredType
import ModelMend.Proofs.Token.Bare
import ModelMend.Text.Lines

/-!
# Declarations in one piece

A scanner that is fed the lines of a declaration finds the comma that ends it as if the declaration stood
in one piece (`squeezed_declarationCode`), as long as there are no strings, comments and character
literals. So neither the line ends nor any other white space matter to the type that is declared
(`fieldType_squeezed`).
-/

namespace ModelMend

open Text Scanner Scanner.Cursor

/-! ## Code up to a comma -/

/-- Where a scanner of fields stands in code: so many brackets are open, and a dash is in front. -/
structure CodePlace where
  depth : Nat
  afterDash : Bool
deriving DecidableEq

namespace CodePlace

/-- The place behind one more character. The angle of an arrow is no bracket. -/
def next (place : CodePlace) (c : Char) : CodePlace :=
  ⟨if c = '>' ∧ place.afterDash then place.depth else depthAfter place.depth c, c = '-'⟩

/-- The place behind a text, unless a comma outside all brackets comes before. -/
def behind? (place : CodePlace) : List Char → Option CodePlace
  | [] => some place
  | c :: rest => if c = ',' ∧ place.depth = 0 then none else (place.next c).behind? rest

end CodePlace

/-- The text up to its first comma outside all brackets. -/
def codeBefore (place : CodePlace) : List Char → List Char
  | [] => []
  | c :: rest => if c = ',' ∧ place.depth = 0 then [] else c :: codeBefore (place.next c) rest

variable {place : CodePlace} {text other front back : List Char} {c : Char}

theorem codeBefore_prefix (place : CodePlace) (text : List Char) :
    ∃ rest, text = codeBefore place text ++ rest ∧ ∀ c, rest.head? = some c → c = ',' := by
  induction text generalizing place with
  | nil => exact ⟨[], rfl, nofun⟩
  | cons c text ih =>
    unfold codeBefore
    split
    · next hcomma =>
      refine ⟨c :: text, rfl, ?_⟩
      rintro d ⟨⟩
      exact hcomma.1
    · obtain ⟨rest, hrest, hhead⟩ := ih (place.next c)
      exact ⟨rest, by rw [List.cons_append, ← hrest], hhead⟩

theorem take_codeBefore (place : CodePlace) (text : List Char) :
    text.take (codeBefore place text).length = codeBefore place text := by
  obtain ⟨rest, hrest, -⟩ := codeBefore_prefix place text
  exact (List.prefix_iff_eq_take.1 ⟨rest, hrest.symm⟩).symm

theorem codeBefore_append (place : CodePlace) (front back : List Char) :
    codeBefore place (front ++ back) =
      match place.behind? front with
      | none => codeBefore place front
      | some after => front ++ codeBefore after back := by
  induction front generalizing place with
  | nil => rfl
  | cons c front ih =>
    rw [List.cons_append, codeBefore, CodePlace.behind?]
    split
    · next hcomma => rw [codeBefore, if_pos hcomma]
    · next hcomma =>
      rw [ih, codeBefore, if_neg hcomma]
      cases (place.next c).behind? front <;> rfl

/-! ## White space in code -/

theorem next_of_blank (hc : isBlank c = true) (place : CodePlace) :
    place.next c = ⟨place.depth, false⟩ := by
  have hmarks : (['>', '-', '<', '(', '[', '\x7b', ')', ']', '\x7d'] : List Char).any isBlank = false := by
    decide
  have hne : ∀ d ∈ ['>', '-', '<', '(', '[', '\x7b', ')', ']', '\x7d'], c ≠ d := by
    rintro d hd rfl
    exact notMem_of_any hmarks hc hd
  simp only [List.forall_mem_cons] at hne
  simp [CodePlace.next, depthAfter, hne]

theorem codeBefore_cons_of_blank (hc : isBlank c = true) (place : CodePlace) (text : List Char) :
    codeBefore place (c :: text) = c :: codeBefore ⟨place.depth, false⟩ text := by
  have hcomma : c ≠ ',' := by
    rintro rfl
    revert hc
    decide
  rw [codeBefore, if_neg (fun h => hcomma h.1), next_of_blank hc]

/-- White space does not matter to where the code ends. -/
theorem squeezed_codeBefore (place : CodePlace) (text : List Char) :
    squeezed (codeBefore place (squeezed text)) = squeezed (codeBefore place text) := by
  induction text generalizing place with
  | nil => rfl
  | cons c text ih =>
    cases hc : isBlank c with
    | false =>
      rw [squeezed_cons_of_not_blank hc, codeBefore, codeBefore]
      split
      · rfl
      · rw [squeezed_cons_of_not_blank hc, squeezed_cons_of_not_blank hc, ih]
    | true =>
      rw [squeezed_cons_of_blank hc, codeBefore_cons_of_blank hc, squeezed_cons_of_blank hc, ← ih]
      have hspace (place : CodePlace) (more : List Char) : squeezed (codeBefore place (' ' :: more)) =
          gap (squeezed (codeBefore ⟨place.depth, false⟩ more)) := by
        rw [codeBefore_cons_of_blank isBlank_space, squeezed_cons_of_blank isBlank_space]
      rcases gap_eq_nil_or_cons (squeezed text) with ⟨hgap, hnil⟩ | ⟨more, hgap, hmore | hmore⟩
      · rw [hgap, hnil]
        rfl
      · rw [hgap, hmore, hspace]
      · rw [hgap, hmore, hspace, hspace, gap_gap]

/-! ## Scanning lines -/

namespace Scanner.Cursor

/-- The cursor stands at a place in code and has found no comma. -/
structure AtPlace (cursor : Cursor) (place : CodePlace) : Prop where
  atDepth : AtDepth cursor place.depth
  afterDash_eq : place.afterDash = decide (cursor.previous = some '-')
  no_comma : cursor.topComma = none

/-- A scanner goes through a line up to its first comma outside all brackets, or to its end. -/
theorem AtPlace.walk {cursor : Cursor} {line : List Char} (h : AtPlace cursor place)
    (hline : Unquoted line) :
    (place.behind? line = none →
      (cursor.walk line).topComma = some (cursor.position + (codeBefore place line).length)) ∧
    ∀ after, place.behind? line = some after → (cursor.walk line).topComma = none ∧
      (cursor.walk line).position = cursor.position + line.length ∧
      (cursor.walk line).scanner = ⟨true, after.depth, false⟩ := by
  induction line generalizing cursor place with
  | nil =>
    refine ⟨nofun, ?_⟩
    rintro after ⟨⟩
    exact ⟨h.no_comma, rfl, h.atDepth.scanner_eq⟩
  | cons c line ih =>
    obtain ⟨hcode, hmore⟩ := (unquoted_cons c line).1 hline
    obtain ⟨middle, hposition, hprevious, hmiddle, htop, hwalk⟩ :=
      h.atDepth.walk_next hcode.1 hcode.2.1 hcode.2.2
    rw [hwalk, CodePlace.behind?, codeBefore]
    by_cases hcomma : c = ',' ∧ place.depth = 0
    · rw [if_pos ⟨hcomma.1, hcomma.2, by rw [h.no_comma]; rfl⟩] at htop
      rw [if_pos hcomma, if_pos hcomma]
      exact ⟨fun _ => topComma_walk htop line, nofun⟩
    · rw [if_neg (fun hall => hcomma ⟨hall.1, hall.2.1⟩), h.no_comma] at htop
      have hnext : AtPlace middle (place.next c) := by
        refine ⟨?_, ?_, htop⟩
        · simpa only [CodePlace.next, h.afterDash_eq, decide_eq_true_eq] using hmiddle
        · rw [hprevious]
          simp [CodePlace.next]
      obtain ⟨hstops, hpasses⟩ := ih hnext hmore
      rw [if_neg hcomma, if_neg hcomma]
      constructor
      · intro hnone
        rw [hstops hnone, hposition, List.length_cons]
        congr 1
        omega
      · intro after hafter
        obtain ⟨hnone, hend, hscanner⟩ := hpasses after hafter
        refine ⟨hnone, ?_, hscanner⟩
        rw [hend, hposition, List.length_cons]
        omega

end Scanner.Cursor

/-- The code of a declaration, line by line, is its code in one piece, but for white space. -/
theorem squeezed_declarationCode {lines : List (List Char)} (h : ∀ line ∈ lines, Unquoted line)
    (depth : Nat) : squeezed (declarationCode ⟨true, depth, false⟩ lines) =
      squeezed (codeBefore ⟨depth, false⟩ (joinLines lines)) := by
  induction lines generalizing depth with
  | nil => rfl
  | cons line lines ih =>
    obtain ⟨hline, hmore⟩ := List.forall_mem_cons.1 h
    have hstart : AtPlace (start ⟨true, depth, false⟩) ⟨depth, false⟩ := ⟨⟨rfl, rfl⟩, rfl, rfl⟩
    have hwalk := hstart.walk hline
    have hspace : ∀ d ∈ [' '], isBlank d = true := List.forall_mem_singleton.2 isBlank_space
    have hbreak (more : List Char) :
        squeezed (' ' :: more) = squeezed ('\n' :: more) := by
      rw [squeezed_cons_of_blank isBlank_space, squeezed_cons_of_blank (by decide)]
    obtain ⟨rest, hjoin, hrest⟩ : ∃ rest, joinLines (line :: lines) = line ++ rest ∧
        (lines = [] ∧ rest = [] ∨ rest = '\n' :: joinLines lines) := by
      cases lines with
      | nil => exact ⟨[], (List.append_nil line).symm, Or.inl ⟨rfl, rfl⟩⟩
      | cons next lines => exact ⟨_, joinLines_cons line (List.cons_ne_nil _ _), Or.inr rfl⟩
    have hposition : (start ⟨true, depth, false⟩).position = 0 := rfl
    obtain ⟨hstops, hpasses⟩ := hwalk
    rw [hposition, Nat.zero_add] at hstops hpasses
    rw [declarationCode, Scanner.feed, hjoin, codeBefore_append]
    cases hbehind : CodePlace.behind? ⟨depth, false⟩ line with
    | none =>
      rw [hstops hbehind]
      dsimp only
      rw [take_codeBefore, squeezed_append_of_blank hspace]
    | some after =>
      obtain ⟨hnone, hend, hscanner⟩ := hpasses after hbehind
      rw [hnone, hend, hscanner]
      dsimp only
      rw [List.take_length]
      apply squeezed_append_congr
      rcases hrest with ⟨rfl, rfl⟩ | rfl
      · rfl
      · rw [codeBefore_cons_of_blank (by decide), ← hbreak, squeezed_cons_of_blank isBlank_space,
          squeezed_cons_of_blank isBlank_space, ih hmore]

/-! ## The colon of a field -/

/-- The character in front only matters if it is a colon. -/
theorem afterFieldColon_congr {previous previous' : Option Char}
    (h : previous = some ':' ↔ previous' = some ':') (depth : Nat) (text : List Char) :
    afterFieldColon previous depth text = afterFieldColon previous' depth text := by
  cases text with
  | nil => rfl
  | cons c text =>
    have hcolon : (previous != some ':') = (previous' != some ':') := by
      rw [Bool.eq_iff_iff, bne_iff_ne, bne_iff_ne, Ne, Ne, h]
    rw [afterFieldColon, afterFieldColon, hcolon]

theorem afterFieldColon_cons_of_blank (hc : isBlank c = true) {previous : Option Char}
    (depth : Nat) (text : List Char) :
    afterFieldColon previous depth (c :: text) = afterFieldColon none depth text := by
  have hnone : ['(', ')', ':'].any isBlank = false := by decide
  have hne : ∀ d ∈ ['(', ')', ':'], c ≠ d := by
    rintro d hd rfl
    exact notMem_of_any hnone hc hd
  simp only [List.forall_mem_cons] at hne
  have hcolon : (some c = some ':' ↔ (none : Option Char) = some ':') := by
    simp [hne]
  rw [← afterFieldColon_congr hcolon, afterFieldColon]
  simp [hne]

/-- White space does not matter to what follows the colon of a field. -/
theorem afterFieldColon_squeezed (previous : Option Char) (depth : Nat) (text : List Char) :
    (afterFieldColon previous depth (squeezed text)).map squeezed =
      (afterFieldColon previous depth text).map squeezed := by
  induction text generalizing previous depth with
  | nil => rfl
  | cons c text ih =>
    cases hc : isBlank c with
    | true =>
      rw [squeezed_cons_of_blank hc, afterFieldColon_cons_of_blank hc, ← ih]
      rcases gap_eq_nil_or_cons (squeezed text) with ⟨hgap, hnil⟩ | ⟨more, hgap, hmore | hmore⟩
      · rw [hgap, hnil]
        rfl
      · rw [hgap, hmore, afterFieldColon_cons_of_blank isBlank_space]
      · rw [hgap, hmore, afterFieldColon_cons_of_blank isBlank_space,
          afterFieldColon_cons_of_blank isBlank_space]
    | false =>
      have hcolon : isBlank ':' = false := by decide
      have hhead : ((squeezed text).head? != some ':') = (text.head? != some ':') := by
        rw [Bool.eq_iff_iff, bne_iff_ne, bne_iff_ne, Ne, Ne, head?_squeezed hcolon]
      rw [squeezed_cons_of_not_blank hc, afterFieldColon, afterFieldColon, hhead]
      split
      · exact ih _ _
      · split
        · exact ih _ _
        · split
          · rw [Option.map_some, Option.map_some, squeezed_squeezed]
          · exact ih _ _

/-! ## The declared type -/

theorem trim_eq_nil_iff (text : List Char) : trim text = [] ↔ squeezed (trim text) = [] := by
  constructor
  · intro h
    rw [h, squeezed_nil]
  · intro h
    have hstart : squeezed (trimStart text) = [] := by
      rw [squeezed_trimStart, ← squeezed_trim, h]
    cases htext : trimStart text with
    | nil => rw [trim, htext, trimEnd_nil]
    | cons c rest =>
      have hc : isBlank c = false := by
        have hhead := List.head?_dropWhile_not isBlank text
        rw [← trimStart, htext] at hhead
        simpa using hhead
      rw [htext, squeezed_cons_of_not_blank hc] at hstart
      cases hstart

/-- **Declarations with the same code, but for white space, declare the same type**, but for white
space. -/
theorem fieldType_squeezed {lines lines' : List (List Char)} (h : ∀ line ∈ lines, Unquoted line)
    (h' : ∀ line ∈ lines', Unquoted line) (hwords : words (joinLines lines) = words (joinLines lines')) :
    (fieldType lines).map squeezed = (fieldType lines').map squeezed := by
  have hjoin := squeezed_eq_of_words_eq hwords
  have hbefore (lines : List (List Char)) (h : ∀ line ∈ lines, Unquoted line) :
      squeezed (codeBefore ⟨0, false⟩ (' ' :: joinLines lines)) =
        squeezed (' ' :: declarationCode .forField lines) := by
    rw [codeBefore_cons_of_blank isBlank_space, squeezed_cons_of_blank isBlank_space,
      squeezed_cons_of_blank isBlank_space]
    exact congrArg gap (squeezed_declarationCode h 0).symm
  have hcode : squeezed (' ' :: declarationCode .forField lines) =
      squeezed (' ' :: declarationCode .forField lines') := by
    rw [← hbefore lines h, ← hbefore lines' h', ← squeezed_codeBefore, hjoin, squeezed_codeBefore]
  have hspaced (text : List Char) : afterFieldColon none 0 (' ' :: text) = afterFieldColon none 0 text :=
    afterFieldColon_cons_of_blank isBlank_space 0 text
  have hcolon : (afterFieldColon none 0 (declarationCode .forField lines)).map squeezed =
      (afterFieldColon none 0 (declarationCode .forField lines')).map squeezed := by
    rw [← hspaced (declarationCode .forField lines), ← hspaced (declarationCode .forField lines'),
      ← afterFieldColon_squeezed, hcode, afterFieldColon_squeezed]
  have htype (lines : List (List Char)) : (fieldType lines).map squeezed =
      ((afterFieldColon none 0 (declarationCode .forField lines)).map squeezed).bind fun text =>
        if trimStart text = [] then none else some (trimStart text) := by
    unfold fieldType
    cases afterFieldColon none 0 (declarationCode .forField lines) with
    | none => rfl
    | some text =>
      dsimp only
      rw [Option.map_some, Option.bind_some, ← squeezed_trim]
      by_cases hempty : trim text = []
      · rw [hempty]
        rfl
      · rw [if_neg (by simpa using hempty), if_neg (fun h => hempty ((trim_eq_nil_iff text).2 h)),
          Option.map_some]
  rw [htype, htype, hcolon]

end ModelMend
