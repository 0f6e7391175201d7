import ModelMend.Proofs.Declaration.Layout
import ModelMend.Proofs.Entity.WellFormed
import ModelMend.Proofs.Line.Indentation
import ModelMend.Proofs.Token.Pieces
import ModelMend.Proofs.Token.Quotes

/-!
# Where an attribute ends

What the lexer reads as an attribute, with its brackets nested, a scanner that is fed the lines of it finds
open after each line but the last, and closed at the very end of that (`attribute_ends`). Each piece that
the lexer finds is crossed by the scanner (`Scanner.Cursor.Crosses`), or ends a line, and the brackets behind
it close where those in front of it do (`Lexeme.Reads.closes_scanner`).

The scanner takes the nearest single quote for the end of an escape, so the escape of a single quote itself
leaves one quote over. That one goes unnoticed, unless a character with a single quote behind it follows at
once (`quotesTwice`, `attribute_goes_astray`).
-/

namespace ModelMend

open Text

namespace Scanner.Cursor

/-! ## Pieces on one line -/

/-- The cursor stands in code, with this many brackets open, and has not come upon the end. -/
structure InAttribute (cursor : Cursor) (depth : Nat) : Prop where
  scanner_eq : cursor.scanner = ⟨false, depth, false⟩
  no_skip : cursor.skip = 0
  not_closed : cursor.closedAt = none

theorem InAttribute.not_inString {cursor : Cursor} {depth : Nat} (h : InAttribute cursor depth) :
    cursor.scanner.inString = false := by
  rw [h.scanner_eq]

/-- A cursor in code comes out behind the piece, in front of the rest of the line, with this depth. -/
def Crosses (depth depth' : Nat) (piece rest : List Char) : Prop :=
  ∀ cursor, InAttribute cursor depth → ∃ after, InAttribute after depth' ∧
    after.position = cursor.position + piece.length ∧ cursor.walk (piece ++ rest) = after.walk rest

namespace Crosses

variable {depth depth' : Nat} {rest : List Char}

theorem nil : Crosses depth depth [] rest :=
  fun cursor h => ⟨cursor, h, rfl, rfl⟩

theorem append {depth₁ depth₂ depth₃ : Nat} {front back : List Char}
    (hfront : Crosses depth₁ depth₂ front (back ++ rest)) (hback : Crosses depth₂ depth₃ back rest) :
    Crosses depth₁ depth₃ (front ++ back) rest := by
  intro cursor h
  obtain ⟨middle, hmiddle, hposition, hwalk⟩ := hfront cursor h
  obtain ⟨after, hafter, hposition', hwalk'⟩ := hback middle hmiddle
  refine ⟨after, hafter, ?_, ?_⟩
  · rw [List.length_append, hposition', hposition, Nat.add_assoc]
  · rw [List.append_assoc, hwalk, hwalk']

/-- One character is crossed if it opens no comment and no literal and is not the end. -/
theorem one {c : Char} (hcomment : c = '/' → rest.head? ≠ some '/')
    (hliteral : c = '\'' → literalTail rest = none) (hend : isClosing c = true → depth ≠ 1)
    (hscanner : ∀ afterDash,
      scannerBehind ⟨false, depth, false⟩ afterDash c = ⟨false, depth', false⟩) :
    Crosses depth depth' [c] rest := by
  intro cursor h
  refine ⟨(cursor.readCode c rest).next c, ⟨?_, ?_, ?_⟩, ?_, ?_⟩
  · change (cursor.readCode c rest).scanner = ⟨false, depth', false⟩
    rw [scanner_readCode, h.scanner_eq, hscanner]
  · change (cursor.readCode c rest).skip = 0
    rw [skip_readCode, h.no_skip]
    split
    · next hquote => rw [hliteral hquote, Option.getD_none]
    · rfl
  · change (cursor.readCode c rest).closedAt = none
    rw [closedAt_readCode, h.not_closed, if_neg]
    rintro ⟨hclosing, hdepth, -⟩
    rw [h.scanner_eq] at hdepth
    exact hend hclosing hdepth
  · change (cursor.readCode c rest).position + 1 = cursor.position + 1
    rw [position_readCode]
  · exact walk_code h.no_skip h.not_inString hcomment

theorem plain_one {c : Char} (hc : c ∉ attributeMarks.erase '/')
    (hcomment : c = '/' → rest.head? ≠ some '/') : Crosses depth depth [c] rest := by
  have hother : ∀ d ∈ attributeMarks.erase '/', c ≠ d := by
    rintro d hd rfl
    exact hc hd
  have hclosing : isClosing c = false := by
    simp [isClosing, hother ')' (by decide), hother ']' (by decide), hother '\x7d' (by decide)]
  refine one hcomment ?_ ?_ ?_
  · intro hquote
    exact absurd hquote (hother '\'' (by decide))
  · simp [hclosing]
  · intro afterDash
    simp [scannerBehind, hclosing, hother '"' (by decide), hother '(' (by decide),
      hother '[' (by decide), hother '\x7b' (by decide)]

theorem plain {text : List Char} (h : Plain text) : Crosses depth depth text rest := by
  induction text generalizing rest with
  | nil => exact nil
  | cons c tail ih =>
    obtain ⟨hc, hmore⟩ := List.forall_mem_cons.1 h
    have hslash : c ≠ '/' := by
      rintro rfl
      exact hc (by decide)
    have hfirst : Crosses depth depth [c] (tail ++ rest) :=
      plain_one (fun hmem => hc (List.mem_of_mem_erase hmem)) fun heq => absurd heq hslash
    exact hfirst.append (ih hmore)

theorem opening (delimiter : Delimiter) : Crosses depth (depth + 1) [delimiter.opening] rest := by
  cases delimiter <;> exact one (by simp [Delimiter.opening]) (by simp [Delimiter.opening])
    (by simp [Delimiter.opening, isClosing]) fun _ => rfl

/-- A closing bracket that is not the last one. -/
theorem closing (delimiter : Delimiter) (h : depth ≠ 0) :
    Crosses (depth + 1) depth [delimiter.closing] rest := by
  cases delimiter <;> exact one (by simp [Delimiter.closing]) (by simp [Delimiter.closing])
    (by simp [h]) fun _ => rfl

end Crosses

/-! ## Literals on one line -/

theorem walk_skip (chars rest : List Char) {cursor : Cursor} (h : cursor.skip = chars.length) :
    ∃ after : Cursor, after.scanner = cursor.scanner ∧ after.skip = 0 ∧ after.closedAt = cursor.closedAt ∧
      after.position = cursor.position + chars.length ∧
        cursor.walk (chars ++ rest) = after.walk rest := by
  induction chars generalizing cursor with
  | nil => exact ⟨cursor, rfl, h, rfl, rfl, rfl⟩
  | cons c chars ih =>
    have hskip : cursor.skip = chars.length + 1 := h
    obtain ⟨after, hscanner, hzero, hclosed, hposition, hwalk⟩ :=
      @ih ({ cursor with skip := cursor.skip - 1 }.next c) (by simp [next, hskip])
    refine ⟨after, hscanner, hzero, hclosed, ?_, ?_⟩
    · rw [hposition, List.length_cons]
      change cursor.position + 1 + chars.length = _
      omega
    · rw [List.cons_append, walk, if_pos (by simp [hskip])]
      exact hwalk

/-- A character literal of this length is crossed. -/
theorem Crosses.literal {depth : Nat} {chars rest : List Char}
    (h : literalTail (chars ++ rest) = some chars.length) :
    Crosses depth depth ('\'' :: chars) rest := by
  intro cursor hcursor
  have hread : cursor.readCode '\'' (chars ++ rest) = { cursor with skip := chars.length } := by
    simp [readCode, h]
  obtain ⟨after, hscanner, hskip, hclosed, hposition, hwalk⟩ :=
    @walk_skip chars rest ((cursor.readCode '\'' (chars ++ rest)).next '\'') (by rw [hread]; rfl)
  rw [hread] at hscanner hclosed hposition
  refine ⟨after, ⟨hscanner.trans hcursor.scanner_eq, hskip, hclosed.trans hcursor.not_closed⟩, ?_, ?_⟩
  · rw [hposition, List.length_cons]
    change cursor.position + 1 + chars.length = _
    omega
  · rw [← hwalk]
    exact walk_code hcursor.no_skip hcursor.not_inString (by simp)

theorem literalTail_escape {escape : List Char} (h : '\'' ∉ escape) (rest : List Char) :
    literalTail ('\\' :: (escape ++ '\'' :: rest)) = some (escape.length + 2) := by
  have hindex : (escape ++ '\'' :: rest).findIdx? (· == '\'') = some escape.length := by
    rw [List.findIdx?_append, List.findIdx?_eq_none_iff.2]
    · simp [List.findIdx?_cons]
    · intro c hc
      exact beq_false_of_ne fun heq => h (heq ▸ hc)
  rw [literalTail, hindex]
  rfl

/-- Where a text starts with no character literal, neither does the rest of its line. -/
theorem literalTail_of_start {line text : List Char} (h : line <+: text)
    (hnone : literalTail text = none) : literalTail line = none := by
  obtain ⟨more, rfl⟩ := h
  unfold literalTail
  split
  · rfl
  · next rest =>
    simp only [List.cons_append, literalTail, Option.map_eq_none_iff, List.findIdx?_append] at hnone ⊢
    simp_all
  · next hbackslash =>
    simp [literalTail] at hnone
  · rfl

end Scanner.Cursor

/-! ## Line after line -/

namespace Scanner.Cursor

/-- The brackets are open after each of the lines but the last, and they close at the end of that. -/
def ClosesLast (cursor : Cursor) : List Line → Prop
  | [] => False
  | [last] => (cursor.walk last).scanner.isBalanced = true ∧
      (cursor.walk last).closedAt = some (cursor.position + last.length)
  | line :: next :: lines => (cursor.walk line).scanner.isBalanced = false ∧
      ClosesLast (start (cursor.walk line).scanner) (next :: lines)

/-- In front of the text, with this many brackets open, the brackets close at the end of it. -/
def Closes (depth : Nat) (text : List Char) : Prop :=
  ∀ cursor, InAttribute cursor depth → ClosesLast cursor (splitLines text)

theorem closesLast_cons (cursor : Cursor) (line : Line) {lines : List Line} (h : lines ≠ []) :
    ClosesLast cursor (line :: lines) ↔ (cursor.walk line).scanner.isBalanced = false ∧
      ClosesLast (start (cursor.walk line).scanner) lines := by
  cases lines with
  | nil => exact absurd rfl h
  | cons next lines => exact Iff.rfl

/-- The first line of a text is a start of it. -/
theorem splitLines_prefix (text : List Char) :
    ∃ line lines, splitLines text = line :: lines ∧ line <+: text := by
  obtain ⟨line, lines, hsplit⟩ := List.exists_cons_of_ne_nil (splitLines_ne_nil text)
  refine ⟨line, lines, hsplit, ?_⟩
  have htext := joinLines_splitLines text
  rw [hsplit] at htext
  cases lines with
  | nil => exact ⟨[], by rw [List.append_nil]; exact htext⟩
  | cons next lines => exact ⟨_, htext⟩

/-- What closes behind a piece of a line closes in front of it. -/
theorem closesLast_piece {cursor : Cursor} {piece text : List Char} (hnewline : '\n' ∉ piece)
    (h : ∀ line, line <+: text → ∃ after : Cursor, after.position = cursor.position + piece.length ∧
      cursor.walk (piece ++ line) = after.walk line ∧ ClosesLast after (splitLines text)) :
    ClosesLast cursor (splitLines (piece ++ text)) := by
  obtain ⟨line, lines, hsplit, hprefix⟩ := splitLines_prefix text
  obtain ⟨after, hposition, hwalk, hclosed⟩ := h line hprefix
  rw [hsplit] at hclosed
  rw [splitLines_append_of_notMem hnewline hsplit]
  cases lines with
  | nil =>
    obtain ⟨hbalanced, hplace⟩ := hclosed
    refine ⟨hwalk ▸ hbalanced, ?_⟩
    rw [hwalk, hplace, hposition, List.length_append, Nat.add_assoc]
  | cons next lines =>
    obtain ⟨hopen, hmore⟩ := hclosed
    rw [closesLast_cons _ _ (List.cons_ne_nil next lines), hwalk]
    exact ⟨hopen, hmore⟩

variable {depth depth' : Nat} {text : List Char}

/-- A piece without line ends that is crossed in front of every start of what follows. -/
theorem Closes.cross {piece : List Char} (hnewline : '\n' ∉ piece)
    (hcross : ∀ line, line <+: text → Crosses depth depth' piece line) (h : Closes depth' text) :
    Closes depth (piece ++ text) := by
  intro cursor hcursor
  refine closesLast_piece hnewline fun line hprefix => ?_
  obtain ⟨after, hafter, hposition, hwalk⟩ := hcross line hprefix cursor hcursor
  exact ⟨after, hposition, hwalk, h after hafter⟩

theorem InAttribute.not_isBalanced {cursor : Cursor} (h : InAttribute cursor (depth + 1)) :
    cursor.scanner.isBalanced = false := by
  rw [h.scanner_eq]
  rfl

theorem InAttribute.start {cursor : Cursor} (h : InAttribute cursor depth) :
    InAttribute (start cursor.scanner) depth :=
  ⟨h.scanner_eq, rfl, rfl⟩

theorem Closes.newline (h : Closes (depth + 1) text) : Closes (depth + 1) ('\n' :: text) := by
  intro cursor hcursor
  rw [splitLines, if_pos rfl, closesLast_cons _ _ (splitLines_ne_nil text)]
  exact ⟨hcursor.not_isBalanced, h _ hcursor.start⟩

/-- A scanner stops at a line comment. -/
theorem Closes.comment {comment : List Char} (hnewline : '\n' ∉ comment)
    (hends : Lexeme.EndsLine text) (h : Closes (depth + 1) text) :
    Closes (depth + 1) ('/' :: '/' :: (comment ++ text)) := by
  intro cursor hcursor
  have hstops (line : Line) : cursor.walk ('/' :: '/' :: line) = cursor := by
    rw [walk, hcursor.no_skip, hcursor.scanner_eq]
    simp
  have hopen := h cursor hcursor
  have hend : ∃ ending more, text = ending ++ '\n' :: more ∧ Plain ending := by
    rcases hends with rfl | ⟨more, rfl⟩ | ⟨more, rfl⟩
    · -- behind the comment the brackets are still open, so it does not end the text
      have hclosed : cursor.closedAt = some cursor.position := hopen.2
      rw [hcursor.not_closed] at hclosed
      cases hclosed
    · exact ⟨[], more, rfl, by simp [Plain]⟩
    · refine ⟨['\r'], more, rfl, ?_⟩
      decide
  obtain ⟨ending, more, rfl, hplain⟩ := hend
  have hfree : '\n' ∉ ending := fun hmem => hplain '\n' hmem (by decide)
  have hline : '\n' ∉ '/' :: '/' :: (comment ++ ending) := by
    simp [hnewline, hfree]
  have hsplit : splitLines ('/' :: '/' :: (comment ++ (ending ++ '\n' :: more))) =
      ('/' :: '/' :: (comment ++ ending)) :: splitLines more := by
    rw [← splitLines_append_newline hline more]
    simp
  obtain ⟨after, hafter, -, hwalk⟩ := (@Crosses.plain (depth + 1) [] ending hplain) cursor hcursor
  rw [List.append_nil] at hwalk
  have hscanner : (cursor.walk ending).scanner = cursor.scanner := by
    rw [hwalk, hcursor.scanner_eq]
    exact hafter.scanner_eq
  rw [splitLines_append_newline hfree, closesLast_cons _ _ (splitLines_ne_nil more), hscanner] at hopen
  rw [hsplit, closesLast_cons _ _ (splitLines_ne_nil more), hstops]
  exact hopen

/-- The last bracket. -/
theorem closes_last : Closes 1 [']'] := by
  intro cursor hcursor
  have hwalk : cursor.walk [']'] = (cursor.readCode ']' []).next ']' :=
    walk_code hcursor.no_skip hcursor.not_inString (by simp)
  rw [splitLines_of_notMem (by decide), ClosesLast, hwalk]
  constructor
  · change (cursor.readCode ']' []).scanner.isBalanced = true
    rw [scanner_readCode, hcursor.scanner_eq]
    rfl
  · change (cursor.readCode ']' []).closedAt = some (cursor.position + 1)
    rw [closedAt_readCode, hcursor.scanner_eq, hcursor.not_closed]
    rfl

/-! ## Strings -/

/-- The cursor stands inside a string, with so many characters ahead that are escaped. -/
structure InQuotes (cursor : Cursor) (depth skip : Nat) : Prop where
  scanner_eq : cursor.scanner = ⟨false, depth, true⟩
  skip_eq : cursor.skip = skip
  not_closed : cursor.closedAt = none

/-- The number of characters ahead that the backslash before them escapes. -/
def escaped : Literal.QuoteState → Nat
  | .escape => 1
  | _ => 0

theorem escaped_of_ne {state : Literal.QuoteState} (h : state ≠ .escape) : escaped state = 0 := by
  unfold escaped
  split
  · exact absurd rfl h
  · rfl

/-- One character of a string that does not end it. -/
theorem InQuotes.walk_cons {cursor : Cursor} {state next : Literal.QuoteState} {c : Char}
    (h : InQuotes cursor depth (escaped state)) (hstep : Literal.step .text state c = .more next)
    (line : Line) : ∃ after : Cursor, InQuotes after depth (escaped next) ∧
      after.position = cursor.position + 1 ∧ cursor.walk (c :: line) = after.walk line := by
  rcases Literal.step_more hstep with ⟨rfl, hnext⟩ | ⟨hstate, hquote, hbackslash⟩
  · have hskip : cursor.skip = 1 := h.skip_eq
    refine ⟨{ cursor with skip := cursor.skip - 1 }.next c, ⟨h.scanner_eq, ?_, h.not_closed⟩, rfl, ?_⟩
    · rw [escaped_of_ne hnext]
      change cursor.skip - 1 = 0
      rw [hskip]
    · rw [walk, if_pos (by simp [hskip])]
  · have hskip : cursor.skip = 0 := by rw [h.skip_eq, escaped_of_ne hstate]
    have hwalk : cursor.walk (c :: line) = ((cursor.readQuoted c).next c).walk line := by
      rw [walk, hskip, h.scanner_eq]
      rfl
    refine ⟨(cursor.readQuoted c).next c, ?_, ?_, hwalk⟩
    · by_cases hc : c = '\\'
      · subst hc
        rw [hbackslash.1 rfl]
        exact ⟨h.scanner_eq, rfl, h.not_closed⟩
      · have hread : cursor.readQuoted c = cursor := by
          simp [readQuoted, hc, hquote]
        rw [hread, escaped_of_ne fun heq => hc (hbackslash.2 heq)]
        exact ⟨h.scanner_eq, hskip, h.not_closed⟩
    · change (cursor.readQuoted c).position + 1 = cursor.position + 1
      unfold readQuoted
      split
      · rfl
      · split <;> rfl

/-- A string that the lexer reads to its end. -/
theorem Closes.quoted {body : List Char} {state : Literal.QuoteState}
    (hbody : Literal.quotedTail .text state body = some text) (h : Closes depth text)
    (cursor : Cursor) (hcursor : InQuotes cursor depth (escaped state)) :
    ClosesLast cursor (splitLines body) := by
  induction body generalizing state cursor with
  | nil => cases hbody
  | cons c body ih =>
    unfold Literal.quotedTail at hbody
    split at hbody
    · next next hstep =>
      by_cases hnewline : c = '\n'
      · subst hnewline
        have hnext : next ≠ .escape := by
          rcases Literal.step_more hstep with ⟨-, hnext⟩ | ⟨-, -, hbackslash⟩
          · exact hnext
          · exact fun heq => absurd (hbackslash.2 heq) (by decide)
        have hscanner : (cursor.walk []).scanner = ⟨false, depth, true⟩ := hcursor.scanner_eq
        rw [splitLines, if_pos rfl, closesLast_cons _ _ (splitLines_ne_nil body), hscanner]
        refine ⟨by simp [isBalanced], ih hbody _ ⟨rfl, ?_, rfl⟩⟩
        rw [escaped_of_ne hnext]
        rfl
      · have hpiece : '\n' ∉ [c] := by simpa using Ne.symm hnewline
        refine closesLast_piece hpiece fun line _ => ?_
        obtain ⟨after, hafter, hposition, hwalk⟩ := hcursor.walk_cons hstep line
        exact ⟨after, hposition, hwalk, ih hbody after hafter⟩
    · next hstep =>
      cases hbody
      obtain ⟨hstate, rfl⟩ := Literal.step_closed hstep
      have hskip : cursor.skip = 0 := by rw [hcursor.skip_eq, escaped_of_ne hstate]
      have hread : (cursor.readQuoted '"').scanner = ⟨false, depth, false⟩ := by
        change { cursor.scanner with inString := false } = (⟨false, depth, false⟩ : Scanner)
        rw [hcursor.scanner_eq]
      have hpiece : '\n' ∉ ['"'] := by decide
      refine closesLast_piece hpiece fun line _ =>
        ⟨(cursor.readQuoted '"').next '"', rfl, ?_, h _ ⟨hread, hskip, hcursor.not_closed⟩⟩
      rw [List.singleton_append, walk, hskip, hcursor.scanner_eq]
      rfl
    · cases hbody

theorem Closes.string {body : List Char}
    (hbody : Literal.quotedTail .text .plain body = some text) (h : Closes depth text) :
    Closes depth ('"' :: body) := by
  intro cursor hcursor
  have hpiece : '\n' ∉ ['"'] := by decide
  refine closesLast_piece hpiece fun line _ =>
    ⟨(cursor.readCode '"' line).next '"', rfl, ?_, h.quoted hbody _ ⟨?_, hcursor.no_skip,
      hcursor.not_closed⟩⟩
  · exact walk_code hcursor.no_skip hcursor.not_inString (by simp)
  · change { cursor.scanner with inString := true } = (⟨false, depth, true⟩ : Scanner)
    rw [hcursor.scanner_eq]

/-! ## Leaves -/

/-- A single quote that opens no character literal. -/
theorem Crosses.quote {rest : List Char} (h : literalTail rest = none) :
    Crosses depth depth ['\''] rest :=
  one (by simp) (fun _ => h) (by simp [isClosing]) fun _ => rfl

theorem newline_notMem_of_plain {piece : List Char} (h : Plain piece) : '\n' ∉ piece :=
  fun hmem => h '\n' hmem (by decide)

/-- A character literal on one line. Behind the escape of a single quote none may open. -/
theorem Closes.char {piece : List Char} (hpiece : Literal.charTail .text (piece ++ text) = some text)
    (hnewline : '\n' ∉ piece)
    (hquote : piece = ['\\', '\'', '\''] → literalTail text = none) (h : Closes depth text) :
    Closes depth ('\'' :: (piece ++ text)) := by
  have hopening : '\n' ∉ '\'' :: piece := by simp [hnewline]
  refine Closes.cross hopening (fun line hprefix => ?_) h
  rcases Literal.charTail_append hpiece with ⟨c, hc, rfl⟩ | ⟨escape, hescape, rfl⟩ | rfl
  · refine Crosses.literal ?_
    simp [literalTail]
  · refine Crosses.literal ?_
    have htail := literalTail_escape hescape line
    simpa using htail
  · have hescaped : Crosses depth depth ['\'', '\\', '\''] (['\''] ++ line) :=
      Crosses.literal (@literalTail_escape [] (by simp) _)
    exact hescaped.append (Crosses.quote (literalTail_of_start hprefix (hquote rfl)))

theorem Closes.leaf {after : List Char} (hshape : Lexeme.LeafShape text after)
    (hafter : after.head? ≠ some '\\')
    (hquote : ∀ tail, text = '\'' :: '\\' :: '\'' :: '\'' :: tail → tail.head? ≠ some '\\' →
      literalTail tail = none) (h : Closes depth after) : Closes depth text := by
  have hplain {piece : List Char} (hpiece : Plain piece) : Closes depth (piece ++ after) :=
    h.cross (newline_notMem_of_plain hpiece) fun line _ => Crosses.plain hpiece
  cases hshape with
  | plain written some plain =>
    rw [written]
    exact hplain plain
  | @sign c written plain apart =>
    rw [written]
    have hnewline : '\n' ∉ [c] := by
      intro hmem
      exact plain (List.mem_singleton.1 hmem ▸ by decide)
    refine Closes.cross hnewline (fun line hprefix => Crosses.plain_one plain ?_) h
    intro hslash hhead
    obtain ⟨more, rfl⟩ := hprefix
    obtain ⟨rest, rfl⟩ := List.head?_eq_some_iff.1 hhead
    exact apart hslash rfl
  | lifetime written plain opens =>
    rw [written]
    have hnewline : '\n' ∉ ['\''] := by decide
    refine Closes.cross hnewline (fun line hprefix => ?_) (hplain plain)
    exact Crosses.quote (literalTail_of_start hprefix opens)
  | string written closed plain =>
    rw [written]
    exact (hplain plain).string closed
  | @char piece suffix written closed oneLine plain =>
    rw [written]
    refine (hplain plain).char closed oneLine ?_
    rintro rfl
    refine hquote _ written ?_
    cases suffix with
    | nil => exact hafter
    | cons c suffix =>
      intro heq
      exact plain c List.mem_cons_self (Option.some.inj heq ▸ by decide)

end Scanner.Cursor

/-! ## Attributes -/

/-- The escape of a single quote as a character, with one character and a single quote behind it. -/
def quotesTwice : List Char → Bool
  | '\'' :: '\\' :: '\'' :: '\'' :: _ :: '\'' :: _ => true
  | _ => false

theorem literalTail_of_not_quotesTwice {tail : List Char} (hbackslash : tail.head? ≠ some '\\')
    (h : quotesTwice ('\'' :: '\\' :: '\'' :: '\'' :: tail) = false) :
    Scanner.literalTail tail = none := by
  unfold Scanner.literalTail
  split
  · rfl
  · exact absurd rfl hbackslash
  · cases h
  · rfl

open Scanner.Cursor in
/-- **What the lexer reads up to a last bracket, with all brackets nested, a scanner closes there.** -/
theorem Lexeme.Reads.closes_scanner {text : List Char} {lexemes : List Lexeme}
    (h : Reads [']'] text lexemes) {stack : List (Delimiter × List Token)}
    {current content : List Token} (hnest : nest stack current lexemes = some content)
    (hquotes : ∀ place, Visits text place → quotesTwice place = false) :
    Closes (stack.length + 1) text := by
  induction h generalizing stack current with
  | done =>
    cases stack with
    | nil => exact closes_last
    | cons => cases hnest
  | @space c text lexemes blank more ih =>
    have hmore := ih hnest fun place hplace =>
      hquotes place (.behind (advance_of_afterSpace? (afterSpace?_of_isSpace blank text)) hplace)
    by_cases hnewline : c = '\n'
    · rw [hnewline]
      exact hmore.newline
    · have hmarks : ('/' :: attributeMarks).all (fun d => d == '\n' || !isSpace d) = true := by decide
      have hother : c ∉ '/' :: attributeMarks := by
        intro hmem
        have hc := List.all_eq_true.1 hmarks c hmem
        simp [hnewline, blank] at hc
      have hpiece : '\n' ∉ [c] := by simpa using Ne.symm hnewline
      refine Closes.cross hpiece (fun line _ => Crosses.plain ?_) hmore
      exact List.forall_mem_singleton.2 fun hmem => hother (List.mem_cons_of_mem '/' hmem)
  | comment behind more ih =>
    have hmore := ih hnest fun place hplace =>
      hquotes place (.behind (advance_of_afterSpace? behind) hplace)
    obtain ⟨comment, hcomment, hnewline, hends⟩ := commentFirst_of_afterSpace? behind
    rw [hcomment]
    exact hmore.comment hnewline hends
  | document noSpace reads more ih =>
    obtain ⟨⟨inner, documented, rfl⟩, comment, hcomment, hnewline, hends⟩ :=
      commentFirst_of_next? noSpace reads
    obtain ⟨tokens, htokens⟩ := nest_documents inner documented stack current
    rw [htokens] at hnest
    have hmore := ih hnest fun place hplace =>
      hquotes place (.behind (advance_of_next? noSpace reads) hplace)
    rw [hcomment]
    exact hmore.comment hnewline hends
  | leaf noSpace reads ordinary more ih =>
    have hadvance := advance_of_next? noSpace reads
    have hmore := ih hnest fun place hplace => hquotes place (.behind hadvance hplace)
    have hshape := leafShape_of_leaf? (leaf?_of_next? reads) ordinary
    refine hmore.leaf hshape (more.head?_ne (by simp)) ?_
    rintro tail rfl hbackslash
    exact literalTail_of_not_quotesTwice hbackslash (hquotes _ (.here _))
  | opens delimiter more ih =>
    obtain ⟨hspace, hnext⟩ := next?_opening delimiter _
    have hmore := ih hnest fun place hplace =>
      hquotes place (.behind (advance_of_next? hspace hnext) hplace)
    have hpiece : '\n' ∉ [delimiter.opening] := by cases delimiter <;> decide
    exact Closes.cross hpiece (fun line _ => Crosses.opening delimiter) hmore
  | closes delimiter more ih =>
    obtain ⟨hspace, hnext⟩ := next?_closing delimiter _
    have hpiece : '\n' ∉ [delimiter.closing] := by cases delimiter <;> decide
    cases stack with
    | nil => cases hnest
    | cons opened stack =>
      rw [nest] at hnest
      split at hnest
      · have hmore := ih hnest fun place hplace =>
          hquotes place (.behind (advance_of_next? hspace hnext) hplace)
        exact Closes.cross hpiece (fun line _ => Crosses.closing delimiter (Nat.succ_ne_zero _)) hmore
      · cases hnest

/-- What a scanner finds line after line, said of the lines together. -/
theorem Scanner.Cursor.ClosesLast.exists_last {scanner : Scanner} {lines : List Line}
    (h : ClosesLast (start scanner) lines) : ∃ opening last, lines = opening ++ [last] ∧
      StaysOpen scanner opening ∧ (scanner.after (opening ++ [last])).isBalanced = true ∧
        ((scanner.after opening).feed last).1.closedAt = some last.length := by
  induction lines generalizing scanner with
  | nil => exact h.elim
  | cons line lines ih =>
    cases lines with
    | nil =>
      obtain ⟨hbalanced, hclosed⟩ := h
      refine ⟨[], line, rfl, staysOpen_nil scanner, hbalanced, ?_⟩
      rw [← Nat.zero_add line.length]
      exact hclosed
    | cons next lines =>
      obtain ⟨hopen, hmore⟩ := h
      obtain ⟨opening, last, hlines, hstays, hbalanced, hclosed⟩ := ih hmore
      refine ⟨line :: opening, last, congrArg (line :: ·) hlines, ?_, hbalanced, hclosed⟩
      rw [staysOpen_cons]
      exact ⟨hopen, hstays⟩

/-- The text of an attribute with this content: the opening, pieces with their brackets nested among
them, and the closing bracket. -/
def IsAttribute (text : List Char) (content : List Token) : Prop :=
  ∃ onward lexemes, text = '#' :: '[' :: onward ∧ Lexeme.Reads [']'] onward lexemes ∧
    Lexeme.nest [] [] lexemes = some content

theorem kind_of_attribute (onward : List Char) : LineKind.of ('#' :: '[' :: onward) = .attributeStart := by
  have hbracket : isBlank '[' = false := by decide
  have hsign : isBlank '#' = false := by decide
  obtain ⟨more, hmore⟩ := @trimEnd_append ['#'] onward '[' hbracket
  have htrim : trim ('#' :: '[' :: onward) = '#' :: '[' :: more := by
    rw [trim, trimStart_cons_of_not_blank hsign]
    exact hmore
  rw [LineKind.of, htrim]
  rfl

open Lexeme in
/-- **An attribute ends at its own closing bracket.** What the lexer reads as an attribute, from `#` to the
bracket at the end, a scanner that is fed the lines finds open after each line but the last, closed
after that, and closed at the very end of it. The one thing that leads a scanner astray is the escape of
a single quote as a character, and that only in front of a character with a single quote behind it. -/
theorem attribute_ends {text : List Char} {content : List Token} (h : IsAttribute text content)
    (hquotes : ∀ place, Visits text place → quotesTwice place = false) :
    Token.ofText? text = some [.punct '#' false, .group .square content] ∧
      ∃ opening last, splitLines text = opening ++ [last] ∧ ClosedBlock opening last ∧
        closingPlace opening last = some last.length := by
  obtain ⟨onward, lexemes, rfl, hreads, hnest⟩ := h
  have hspace : afterSpace? ('#' :: '[' :: onward) = none := rfl
  have hsign : next? ('#' :: '[' :: onward) = some ([token (.punct '#' false)], '[' :: onward) := rfl
  obtain ⟨hspace', hopening⟩ := next?_opening .square onward
  have hbrackets : Lexeme.nest [(.square, [.punct '#' false])] [] (lexemes ++ [closes .square]) =
      some [.punct '#' false, .group .square content] := by
    have hinside := @nest_append [] [(Delimiter.square, [Token.punct '#' false])] _ _ _ hnest
      [closes .square]
    rw [List.nil_append] at hinside
    rw [hinside]
    simp [Lexeme.nest]
  refine ⟨?_, ?_⟩
  · have hlast (fuel : Nat) (hfuel : [']'].length ≤ fuel) : Lexeme.cut fuel [']'] = some [closes .square] := by
      obtain ⟨less, rfl⟩ : ∃ less, fuel = less + 1 := ⟨fuel - 1, by simp at hfuel; omega⟩
      cases less <;> rfl
    have hcut := (Reads.leaf hspace hsign rfl (.opens .square hreads)).cut hlast (Nat.le_refl _)
    have hmark : ['\ufeff'].isPrefixOf ('#' :: '[' :: onward) = false := rfl
    rw [Token.ofText?, hmark]
    simp only [Bool.false_eq_true, ↓reduceIte, hcut, Option.bind_some]
    exact hbrackets
  · have hinside : Scanner.Cursor.Closes 1 onward := by
      refine hreads.closes_scanner hnest fun place hplace => hquotes place ?_
      exact .behind (advance_of_next? hspace hsign) (.behind (advance_of_next? hspace' hopening) hplace)
    have hpiece : '\n' ∉ ['#', '['] := by decide
    have hcloses : Scanner.Cursor.Closes 0 (['#', '['] ++ onward) := by
      refine Scanner.Cursor.Closes.cross hpiece (fun line _ => ?_) hinside
      have hplain : Plain ['#'] := by
        decide
      exact (Scanner.Cursor.Crosses.plain hplain).append (Scanner.Cursor.Crosses.opening .square)
    have hclosed := hcloses (Scanner.Cursor.start .forAttribute) ⟨rfl, rfl, rfl⟩
    obtain ⟨opening, last, hlines, hstays, hbalanced, hplace⟩ := hclosed.exists_last
    refine ⟨opening, last, hlines, ⟨?_, hstays, hbalanced⟩, hplace⟩
    intro line hline
    obtain ⟨first, lines, hsplit, -⟩ := Scanner.Cursor.splitLines_prefix onward
    have hfirst : splitLines (['#', '['] ++ onward) = (['#', '['] ++ first) :: lines :=
      splitLines_append_of_notMem hpiece hsplit
    rw [← hlines, hfirst] at hline
    rw [← Option.some.inj hline]
    exact kind_of_attribute first

/-- Brackets in a string and in a comment, and a single quote that is escaped. -/
def quotedLabel : List Char :=
  "#[label(\"]\", '\\'') // ]\n]".toList

open Lexeme in
/-- Both agree that only the last bracket of it closes. -/
theorem attribute_ends_quotedLabel : ∃ content, IsAttribute quotedLabel content ∧
    (∀ place, Visits quotedLabel place → quotesTwice place = false) ∧
    Token.ofText? quotedLabel = some [.punct '#' false, .group .square content] ∧
      ClosedBlock ["#[label(\"]\", '\\'') // ]".toList] [']'] ∧
        closingPlace ["#[label(\"]\", '\\'') // ]".toList] [']'] = some 1 := by
  have hattribute : IsAttribute quotedLabel [.word "label".toList,
      .group .round [.literal .string "\"]\"".toList, .punct ',' false,
        .literal .other "'\\''".toList]] := by
    have hbehind : Reads [']'] " // ]\n]".toList [] :=
      .space (by decide) (.comment rfl (.space (by decide) .done))
    have hchar : Reads [']'] "'\\'') // ]\n]".toList
        [token (.literal .other "'\\''".toList), closes .round] :=
      .leaf rfl rfl rfl (.closes .round hbehind)
    have hcomma : Reads [']'] ", '\\'') // ]\n]".toList [token (.punct ',' false),
        token (.literal .other "'\\''".toList), closes .round] :=
      .leaf rfl rfl rfl (.space (by decide) hchar)
    have hstring : Reads [']'] "\"]\", '\\'') // ]\n]".toList
        [token (.literal .string "\"]\"".toList), token (.punct ',' false),
          token (.literal .other "'\\''".toList), closes .round] :=
      .leaf rfl rfl rfl hcomma
    have hword : Reads [']'] "label(\"]\", '\\'') // ]\n]".toList [token (.word "label".toList),
        opens .round, token (.literal .string "\"]\"".toList), token (.punct ',' false),
          token (.literal .other "'\\''".toList), closes .round] :=
      .leaf rfl rfl rfl (.opens .round hstring)
    exact ⟨_, _, rfl, hword, rfl⟩
  have hquotes (place : List Char) (hplace : Visits quotedLabel place) : quotesTwice place = false := by
    have hall : ∀ count ≤ quotedLabel.length, quotesTwice (quotedLabel.drop count) = false := by
      decide
    rw [List.suffix_iff_eq_drop.1 hplace.suffix]
    exact hall _ (Nat.sub_le _ _)
  obtain ⟨htokens, opening, last, hlines, hclosed, hplace⟩ := attribute_ends hattribute hquotes
  have hsplit : splitLines quotedLabel = ["#[label(\"]\", '\\'') // ]".toList] ++ [[']']] := by
    decide
  obtain ⟨rfl, hlast⟩ := List.append_inj' (hlines.symm.trans hsplit) rfl
  obtain rfl : last = [']'] := List.cons.inj hlast |>.1
  exact ⟨_, hattribute, hquotes, htokens, hclosed, hplace⟩

/-- The escape of a single quote in front of a comma and another character. -/
def separators : List Char :=
  "#[seps('\\'','\"')]".toList

open Lexeme in
/-- A scanner takes the quote that closes the first character for one that opens a second, and so comes
upon the double quote as the start of a string. -/
theorem attribute_goes_astray :
    (∃ content, IsAttribute separators content) ∧ splitLines separators = [separators] ∧
      (Scanner.after .forAttribute [separators]).isBalanced = false ∧
        closingPlace [] separators = none := by
  refine ⟨?_, by decide, by decide, by decide⟩
  have hdouble : Reads [']'] "'\"')]".toList [token (.literal .other "'\"'".toList), closes .round] :=
    .leaf rfl rfl rfl (.closes .round .done)
  have hcomma : Reads [']'] ",'\"')]".toList [token (.punct ',' true),
      token (.literal .other "'\"'".toList), closes .round] :=
    .leaf rfl rfl rfl hdouble
  have hsingle : Reads [']'] "'\\'','\"')]".toList [token (.literal .other "'\\''".toList),
      token (.punct ',' true), token (.literal .other "'\"'".toList), closes .round] :=
    .leaf rfl rfl rfl hcomma
  have hword : Reads [']'] "seps('\\'','\"')]".toList [token (.word "seps".toList), opens .round,
      token (.literal .other "'\\''".toList), token (.punct ',' true),
        token (.literal .other "'\"'".toList), closes .round] :=
    .leaf rfl rfl rfl (.opens .round hsingle)
  exact ⟨_, _, _, rfl, hword, rfl⟩

end ModelMend
