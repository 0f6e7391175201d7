import ModelMend.Line.DeclaredType
import ModelMend.Proofs.Line.Idle

/-!
# The place on a line does not matter

What a scanner makes of a text depends on its state, not on the place where it comes upon the text: a
relation between two cursors that each character keeps is kept along a text (`Cursor.walk_related`).
White space in front of a line therefore moves what is reported of it and changes nothing else
(`Scanner.feed_blanks`), lines that differ in their indentation are of one kind
(`LineKind.of_eq_of_trimStart_eq`), and they start fields of one type (`fieldType_of_trimStart_eq`).

The first bracket that brings the depth back to zero leaves a scanner as it began
(`Cursor.exists_closed`), so what stands behind that place is read as if a line began there.
-/

namespace ModelMend

open Text

namespace Scanner.Cursor

/-! ## What a character of code does -/

/-- The character closes a bracket of any kind but an angle. -/
def isClosing (c : Char) : Bool :=
  c == ')' || c == ']' || c == '\x7d'

theorem isClosing_iff {c : Char} : isClosing c = true ↔ c = ')' ∨ c = ']' ∨ c = '\x7d' := by
  simp [isClosing, or_assoc]

/-- What a character of code does to a scanner. -/
def scannerBehind (scanner : Scanner) (afterDash : Bool) (c : Char) : Scanner :=
  if c == '"' then { scanner with inString := true }
  else if c == '(' || c == '[' || c == '\x7b' || c == '<' && scanner.countsAngles then
    { scanner with depth := scanner.depth + 1 }
  else if isClosing c || c == '>' && scanner.countsAngles && !afterDash then
    { scanner with depth := scanner.depth - 1 }
  else scanner

section

variable (cursor : Cursor) (c : Char) (rest : List Char)

theorem scanner_readCode : (cursor.readCode c rest).scanner =
    scannerBehind cursor.scanner (cursor.previous == some '-') c := by
  unfold readCode scannerBehind noteClosed enter leave isClosing
  grind

theorem skip_readCode : (cursor.readCode c rest).skip =
    if c = '\'' then (literalTail rest).getD 0 else cursor.skip := by
  unfold readCode noteClosed enter leave
  grind

theorem position_readCode : (cursor.readCode c rest).position = cursor.position := by
  unfold readCode noteClosed enter leave
  grind

theorem previous_readCode : (cursor.readCode c rest).previous = cursor.previous := by
  unfold readCode noteClosed enter leave
  grind

theorem comma_readCode : (cursor.readCode c rest).topComma =
    if c = ',' ∧ cursor.scanner.depth = 0 ∧ cursor.topComma.isNone then some cursor.position
    else cursor.topComma := by
  unfold readCode noteClosed enter leave
  grind

theorem closedAt_readCode : (cursor.readCode c rest).closedAt =
    if isClosing c ∧ cursor.scanner.depth = 1 ∧ cursor.closedAt.isNone then
      some (cursor.position + 1)
    else cursor.closedAt := by
  unfold readCode noteClosed enter leave isClosing
  grind

end

/-! ## Walking on from two places -/

/-- Two cursors go on alike, perhaps at different places. -/
structure Agrees (cursor other : Cursor) : Prop where
  scanner_eq : cursor.scanner = other.scanner
  skip_eq : cursor.skip = other.skip
  dash_eq : (cursor.previous == some '-') = (other.previous == some '-')

/-- A relation that each character keeps is kept along a text. -/
theorem walk_related {R : Cursor → Cursor → Prop} (hagrees : ∀ {a b}, R a b → a.Agrees b)
    (hskip : ∀ {a b} c, R a b →
      R ({ a with skip := a.skip - 1 }.next c) ({ b with skip := b.skip - 1 }.next c))
    (hquoted : ∀ {a b} c, R a b → R ((a.readQuoted c).next c) ((b.readQuoted c).next c))
    (hcode : ∀ {a b} c rest, R a b → R ((a.readCode c rest).next c) ((b.readCode c rest).next c))
    {cursor other : Cursor} (h : R cursor other) (text : List Char) :
    R (cursor.walk text) (other.walk text) := by
  induction text generalizing cursor other with
  | nil => exact h
  | cons c rest ih =>
    have hskips : (cursor.skip != 0) = (other.skip != 0) := by rw [(hagrees h).skip_eq]
    have hstrings : cursor.scanner.inString = other.scanner.inString := by rw [(hagrees h).scanner_eq]
    rw [walk, walk, hskips, hstrings]
    split
    · exact ih (hskip c h)
    · split
      · exact ih (hquoted c h)
      · split
        · exact h
        · exact ih (hcode c rest h)

variable {cursor other : Cursor} {n : Nat}

theorem Agrees.readQuoted (h : cursor.Agrees other) (c : Char) :
    ((cursor.readQuoted c).next c).Agrees ((other.readQuoted c).next c) := by
  unfold Cursor.readQuoted
  split
  · exact ⟨h.scanner_eq, rfl, rfl⟩
  · split
    · exact ⟨congrArg (fun scanner : Scanner => { scanner with inString := false }) h.scanner_eq,
        h.skip_eq, rfl⟩
    · exact ⟨h.scanner_eq, h.skip_eq, rfl⟩

theorem Agrees.readCode (h : cursor.Agrees other) (c : Char) (rest : List Char) :
    ((cursor.readCode c rest).next c).Agrees ((other.readCode c rest).next c) := by
  refine ⟨?_, ?_, rfl⟩
  · change (cursor.readCode c rest).scanner = (other.readCode c rest).scanner
    rw [scanner_readCode, scanner_readCode, h.scanner_eq, h.dash_eq]
  · change (cursor.readCode c rest).skip = (other.readCode c rest).skip
    rw [skip_readCode, skip_readCode, h.skip_eq]

theorem Agrees.walk (h : cursor.Agrees other) (text : List Char) :
    (cursor.walk text).Agrees (other.walk text) :=
  walk_related id (fun _ h => ⟨h.scanner_eq, congrArg (· - 1) h.skip_eq, rfl⟩)
    (fun c h => h.readQuoted c) (fun c rest h => h.readCode c rest) h text

/-- Two cursors go on alike, and what one of them reports the other reports so many characters
later. -/
structure Shifted (n : Nat) (cursor other : Cursor) : Prop extends Agrees cursor other where
  position_eq : other.position = cursor.position + n
  topComma_eq : other.topComma = cursor.topComma.map (· + n)
  closedAt_eq : other.closedAt = cursor.closedAt.map (· + n)

theorem Shifted.readCode (h : cursor.Shifted n other) (c : Char) (rest : List Char) :
    ((cursor.readCode c rest).next c).Shifted n ((other.readCode c rest).next c) := by
  have hscanner := h.scanner_eq
  refine ⟨h.toAgrees.readCode c rest, ?_, ?_, ?_⟩
  · change (other.readCode c rest).position + 1 = (cursor.readCode c rest).position + 1 + n
    rw [position_readCode, position_readCode, h.position_eq]
    omega
  · change (other.readCode c rest).topComma = (cursor.readCode c rest).topComma.map (· + n)
    rw [comma_readCode, comma_readCode, ← hscanner, h.topComma_eq, h.position_eq, Option.isNone_map]
    split <;> rfl
  · change (other.readCode c rest).closedAt = (cursor.readCode c rest).closedAt.map (· + n)
    rw [closedAt_readCode, closedAt_readCode, ← hscanner, h.closedAt_eq, h.position_eq,
      Option.isNone_map]
    split
    · rw [Option.map_some, Nat.add_right_comm]
    · rfl

theorem Shifted.walk (h : cursor.Shifted n other) (text : List Char) :
    (cursor.walk text).Shifted n (other.walk text) := by
  refine walk_related Shifted.toAgrees ?_ ?_ (fun c rest h => h.readCode c rest) h text
  · intro a b c h
    exact ⟨⟨h.scanner_eq, congrArg (· - 1) h.skip_eq, rfl⟩,
      by simp only [next, h.position_eq]; omega, h.topComma_eq, h.closedAt_eq⟩
  · intro a b c h
    obtain ⟨hposition, htop, hclosed, -⟩ := report_readQuoted a c
    obtain ⟨hposition', htop', hclosed', -⟩ := report_readQuoted b c
    refine ⟨h.toAgrees.readQuoted c, ?_, ?_, ?_⟩
    · simp only [next, hposition, hposition', h.position_eq]
      omega
    · simp only [next, htop, htop', h.topComma_eq]
    · simp only [next, hclosed, hclosed', h.closedAt_eq]

/-! ## The closing bracket -/

/-- The place that the brackets close at is found once. -/
theorem closedAt_walk {place : Nat} (h : cursor.closedAt = some place) (text : List Char) :
    (cursor.walk text).closedAt = some place := by
  refine walk_keeps (P := fun cursor => cursor.closedAt = some place) (fun _ hfound => hfound) ?_ ?_
    h text
  · intro a c hfound
    exact (report_readQuoted a c).2.2.1.trans hfound
  · intro a c rest hfound
    change (a.readCode c rest).closedAt = some place
    rw [closedAt_readCode, hfound, if_neg (by simp)]

theorem scannerBehind_isClosing {c : Char} (hc : isClosing c = true) {scanner : Scanner}
    (hdepth : scanner.depth = 1) (hstring : scanner.inString = false) (afterDash : Bool) :
    scannerBehind scanner afterDash c = ⟨scanner.countsAngles, 0, false⟩ := by
  rcases isClosing_iff.1 hc with rfl | rfl | rfl <;> simp [scannerBehind, isClosing, hdepth, hstring]

/-- **Where the brackets close**, behind a closing bracket, a scanner is as it was before it began: no
bracket, no string and no character literal is open. -/
theorem exists_closed (hnone : cursor.closedAt = none) {text : List Char} {place : Nat}
    (h : (cursor.walk text).closedAt = some place) :
    ∃ (front back : List Char) (after : Cursor), text = front ++ back ∧
      cursor.walk text = after.walk back ∧ cursor.position + front.length = place ∧
      front.getLast?.any isClosing = true ∧
      after.scanner = ⟨cursor.scanner.countsAngles, 0, false⟩ ∧ after.skip = 0 ∧
      after.previous ≠ some '-' := by
  induction text generalizing cursor with
  | nil =>
    rw [walk, hnone] at h
    cases h
  | cons c rest ih =>
    have step {next : Cursor} (hwalk : cursor.walk (c :: rest) = next.walk rest)
        (hclosed : next.closedAt = none) (hposition : next.position = cursor.position + 1)
        (hangles : next.scanner.countsAngles = cursor.scanner.countsAngles) :
        ∃ (front back : List Char) (after : Cursor), c :: rest = front ++ back ∧
          cursor.walk (c :: rest) = after.walk back ∧ cursor.position + front.length = place ∧
          front.getLast?.any isClosing = true ∧
          after.scanner = ⟨cursor.scanner.countsAngles, 0, false⟩ ∧ after.skip = 0 ∧
          after.previous ≠ some '-' := by
      rw [hwalk] at h
      obtain ⟨front, back, after, rfl, hafter, hplace, hlast, hscanner, hrest⟩ := ih hclosed h
      rw [hposition] at hplace
      rw [hangles] at hscanner
      refine ⟨c :: front, back, after, rfl, hwalk.trans hafter, ?_, ?_, hscanner, hrest⟩
      · rw [List.length_cons]
        omega
      · obtain ⟨d, hd, hclosing⟩ := (Option.any_eq_true _ _).1 hlast
        simp [List.getLast?_cons, hd, hclosing]
    by_cases hskip : (cursor.skip != 0) = true
    · have hwalk : cursor.walk (c :: rest) =
          ({ cursor with skip := cursor.skip - 1 }.next c).walk rest := by
        rw [walk, if_pos hskip]
      exact step hwalk hnone rfl rfl
    by_cases hstring : cursor.scanner.inString = true
    · have hwalk : cursor.walk (c :: rest) = ((cursor.readQuoted c).next c).walk rest := by
        rw [walk, if_neg hskip, if_pos hstring]
      unfold readQuoted at hwalk
      split at hwalk
      · exact step hwalk hnone rfl rfl
      · split at hwalk <;> exact step hwalk hnone rfl rfl
    by_cases hcomment : (c == '/' && rest.head? == some '/') = true
    · rw [walk, if_neg hskip, if_neg hstring, if_pos hcomment, hnone] at h
      cases h
    have hwalk : cursor.walk (c :: rest) = ((cursor.readCode c rest).next c).walk rest := by
      rw [walk, if_neg hskip, if_neg hstring, if_neg hcomment]
    have hposition : ((cursor.readCode c rest).next c).position = cursor.position + 1 :=
      congrArg (· + 1) (position_readCode cursor c rest)
    have hclosed : ((cursor.readCode c rest).next c).closedAt = _ := closedAt_readCode cursor c rest
    split at hclosed
    · next hcloses =>
      -- the bracket that is looked for
      obtain ⟨hclosing, hdepth, -⟩ := hcloses
      rw [hwalk, closedAt_walk hclosed, Option.some.injEq] at h
      have hplain : c ≠ '\'' ∧ c ≠ '-' := by
        constructor <;> rintro rfl <;> exact absurd hclosing (by decide)
      have hzero : cursor.skip = 0 := by simpa using hskip
      refine ⟨[c], rest, (cursor.readCode c rest).next c, rfl, hwalk, h, hclosing, ?_, ?_, ?_⟩
      · change (cursor.readCode c rest).scanner = _
        rw [scanner_readCode, scannerBehind_isClosing hclosing hdepth (by simpa using hstring)]
      · change (cursor.readCode c rest).skip = 0
        rw [skip_readCode, if_neg hplain.1, hzero]
      · simp [next, hplain.2]
    · exact step hwalk (hclosed.trans hnone) hposition (countsAngles_readCode cursor c rest)

/-! ## White space -/

theorem walk_blanks {blanks : List Char} (hblanks : ∀ c ∈ blanks, isBlank c = true)
    (hskip : cursor.skip = 0) (hstring : cursor.scanner.inString = false)
    (hdash : cursor.previous ≠ some '-') (text : List Char) :
    ∃ (previous : Option Char) (after : Cursor), previous ≠ some '-' ∧
      cursor.walk (blanks ++ text) = after.walk text ∧
      after = ⟨cursor.scanner, cursor.position + blanks.length, 0, previous, cursor.topComma,
        cursor.closedAt⟩ := by
  induction blanks generalizing cursor with
  | nil =>
    refine ⟨cursor.previous, cursor, hdash, rfl, ?_⟩
    rw [← hskip]
    rfl
  | cons c blanks ih =>
    have hmarks := notMem_marks_of_isBlank (hblanks c List.mem_cons_self)
    simp only [marks, List.mem_cons, List.not_mem_nil, or_false, not_or] at hmarks
    have hstep : cursor.walk (c :: (blanks ++ text)) = (cursor.next c).walk (blanks ++ text) := by
      simp [walk, readCode, hskip, hstring, hmarks]
    obtain ⟨previous, after, hprevious, hwalk, rfl⟩ := @ih (cursor.next c)
      (fun d hd => hblanks d (List.mem_cons_of_mem c hd)) hskip hstring (by simp [next, hmarks])
    have hposition : (cursor.next c).position + blanks.length =
        cursor.position + (c :: blanks).length := by
      rw [List.length_cons, next, Nat.add_assoc, Nat.add_comm 1]
    refine ⟨previous, _, hprevious, hstep.trans hwalk, ?_⟩
    rw [hposition]
    rfl

end Scanner.Cursor

open Scanner.Cursor

/-- The report about a line that has so many more characters in front. -/
def LineScan.shift (n : Nat) (scan : LineScan) : LineScan :=
  ⟨scan.topComma.map (· + n), scan.codeEnd + n, scan.closedAt.map (· + n)⟩

/-- **White space in front of a line** only moves what is reported of it. -/
theorem Scanner.feed_blanks {scanner : Scanner} (hstring : scanner.inString = false)
    {blanks : List Char} (hblanks : ∀ c ∈ blanks, isBlank c = true) (line : List Char) :
    scanner.feed (blanks ++ line) =
      ((scanner.feed line).1.shift blanks.length, (scanner.feed line).2) := by
  obtain ⟨previous, after, hprevious, hwalk, hafter⟩ :=
    @walk_blanks (start scanner) blanks hblanks rfl hstring (by simp [start]) line
  have hshifted : Shifted blanks.length (start scanner) after := by
    rw [hafter]
    exact ⟨⟨rfl, rfl, by simp [start, hprevious]⟩, rfl, rfl, rfl⟩
  have hlast := hshifted.walk line
  unfold feed
  rw [hwalk]
  simp only [LineScan.shift, hlast.topComma_eq, hlast.position_eq, hlast.closedAt_eq,
    hlast.scanner_eq]

/-- What stands behind the place that the brackets close at is scanned as if a line began there. -/
theorem Scanner.feed_behind_closed {scanner : Scanner} {cut rest : List Char}
    (h : (scanner.feed (cut ++ rest)).1.closedAt = some cut.length) :
    cut.getLast?.any isClosing = true ∧
      (scanner.feed (cut ++ rest)).2 = (Scanner.feed ⟨scanner.countsAngles, 0, false⟩ rest).2 := by
  obtain ⟨front, back, after, happend, hwalk, hplace, hlast, hscanner, hskip, hdash⟩ :=
    @exists_closed (start scanner) rfl _ _ h
  have hlength : front.length = cut.length := by
    rw [← hplace]
    exact (Nat.zero_add _).symm
  obtain ⟨rfl, rfl⟩ := List.append_inj happend.symm hlength
  have hagrees : after.Agrees (start ⟨scanner.countsAngles, 0, false⟩) :=
    ⟨hscanner, hskip, by simp [start, hdash]⟩
  refine ⟨hlast, ?_⟩
  change ((start scanner).walk (front ++ back)).scanner = _
  rw [hwalk]
  exact (hagrees.walk back).scanner_eq

theorem Scanner.countsAngles_after (scanner : Scanner) (lines : List (List Char)) :
    (scanner.after lines).countsAngles = scanner.countsAngles := by
  induction lines generalizing scanner with
  | nil => rfl
  | cons line lines ih => rw [after_cons, ih, countsAngles_feed]

/-! ## Lines that differ in their indentation -/

section

variable {line other : List Char} (h : trimStart line = trimStart other)

include h

theorem LineKind.of_eq_of_trimStart_eq : LineKind.of line = LineKind.of other := by
  rw [LineKind.of, LineKind.of, trim, trim, h]

theorem Scanner.feed_of_trimStart_eq {scanner : Scanner} (hstring : scanner.inString = false) :
    (scanner.feed line).1.topComma.isSome = (scanner.feed other).1.topComma.isSome ∧
      (scanner.feed line).2 = (scanner.feed other).2 := by
  have hblanks (line : List Char) : ∀ c ∈ indent line, isBlank c = true :=
    fun _ => isBlank_of_mem_indent
  have hline := scanner.feed_blanks hstring (hblanks line) (trimStart line)
  have hother := scanner.feed_blanks hstring (hblanks other) (trimStart other)
  rw [indent_append_trimStart] at hline hother
  rw [hline, hother, h]
  simp [LineScan.shift]

end

theorem declarationCode_blanks {scanner : Scanner} (hstring : scanner.inString = false)
    {blanks : List Char} (hblanks : ∀ c ∈ blanks, isBlank c = true) (line : List Char)
    (lines : List (List Char)) :
    declarationCode scanner ((blanks ++ line) :: lines) =
      blanks ++ declarationCode scanner (line :: lines) := by
  have htake (n : Nat) : (blanks ++ line).take (n + blanks.length) = blanks ++ line.take n := by
    rw [Nat.add_comm, List.take_length_add_append]
  rw [declarationCode, declarationCode, scanner.feed_blanks hstring hblanks]
  simp only [LineScan.shift]
  cases (scanner.feed line).1.topComma with
  | none => simp only [Option.map_none, htake, List.append_assoc]
  | some comma => simp only [Option.map_some, htake, List.append_assoc]

/-- The colon of a field is looked for behind white space as if it were not there. -/
theorem afterFieldColon_blanks {blanks : List Char} (hblanks : ∀ c ∈ blanks, isBlank c = true)
    {previous : Option Char} (hprevious : previous ≠ some ':') (depth : Nat) (text : List Char) :
    afterFieldColon previous depth (blanks ++ text) = afterFieldColon none depth text := by
  induction blanks generalizing previous with
  | nil =>
    cases text with
    | nil => rfl
    | cons c rest => simp [afterFieldColon, hprevious]
  | cons c blanks ih =>
    have hc := notMem_marks_of_isBlank (hblanks c List.mem_cons_self)
    simp only [marks, List.mem_cons, List.not_mem_nil, or_false, not_or] at hc
    have hstep : afterFieldColon previous depth (c :: (blanks ++ text)) =
        afterFieldColon (some c) depth (blanks ++ text) := by
      simp [afterFieldColon, hc]
    rw [List.cons_append, hstep]
    exact ih (fun d hd => hblanks d (List.mem_cons_of_mem c hd)) (by simp [hc])

/-- The indentation of a field does not matter to its type. -/
theorem fieldType_of_trimStart_eq {line other : List Char} (h : trimStart line = trimStart other)
    (lines : List (List Char)) : fieldType (line :: lines) = fieldType (other :: lines) := by
  have hcolon (line : List Char) :
      afterFieldColon none 0 (declarationCode .forField (line :: lines)) =
        afterFieldColon none 0 (declarationCode .forField (trimStart line :: lines)) := by
    have hblanks : ∀ c ∈ indent line, isBlank c = true := fun _ => isBlank_of_mem_indent
    have hcode := @declarationCode_blanks .forField rfl (indent line) hblanks (trimStart line) lines
    rw [indent_append_trimStart] at hcode
    rw [hcode, afterFieldColon_blanks hblanks (by simp)]
  rw [fieldType, fieldType, hcolon line, hcolon other, h]

end ModelMend
