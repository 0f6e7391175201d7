import ModelMend.Line.Scan

/-!
# Walking over code

A scanner passes over a piece of code when it comes out behind it in the same state, at most with
another bracket depth. Pieces are put together with `Passes.append`. The first comma that is found at
depth zero stays the one that is reported (`topComma_walk`): what each character keeps is kept along a
text (`walk_keeps`).
-/

namespace ModelMend.Scanner.Cursor

/-- The cursor stands in code, after this many characters, with this many brackets open and no comma
found. -/
structure InCode (cursor : Cursor) (depth position : Nat) : Prop where
  countsAngles : cursor.scanner.countsAngles = true
  depth_eq : cursor.scanner.depth = depth
  not_inString : cursor.scanner.inString = false
  no_skip : cursor.skip = 0
  no_dash : cursor.previous ≠ some '-'
  no_comma : cursor.topComma = none
  position_eq : cursor.position = position

/-- A cursor in code comes out behind the piece, in front of the rest, with this depth. -/
def Passes (depth depth' : Nat) (piece rest : List Char) : Prop :=
  ∀ cursor position, InCode cursor depth position → ∃ after,
    InCode after depth' (position + piece.length) ∧ cursor.walk (piece ++ rest) = after.walk rest

/-- The characters that a scanner of code does not pass over as they are, and the dash. -/
def marks : List Char :=
  ['"', '\'', '(', ')', '[', ']', '\x7b', '\x7d', '<', '>', ',', '/', '-']

/-- One character of code that starts no comment. -/
theorem walk_code {cursor : Cursor} {c : Char} {rest : List Char} (hskip : cursor.skip = 0)
    (hstring : cursor.scanner.inString = false) (hcomment : c = '/' → rest.head? ≠ some '/') :
    cursor.walk (c :: rest) = ((cursor.readCode c rest).next c).walk rest := by
  have hcode : ¬(c == '/' && rest.head? == some '/') = true := by
    simpa using hcomment
  rw [walk, hskip, hstring]
  simp only [bne_self_eq_false, Bool.false_eq_true, ↓reduceIte, if_neg hcode]

theorem walk_cons_of_inCode {cursor : Cursor} {depth position : Nat} {c : Char} {rest : List Char}
    (h : InCode cursor depth position) (hc : c ≠ '/') :
    cursor.walk (c :: rest) = ((cursor.readCode c rest).next c).walk rest :=
  walk_code h.no_skip h.not_inString fun heq => absurd heq hc

namespace Passes

variable {depth : Nat} {rest : List Char}

theorem nil : Passes depth depth [] rest :=
  fun cursor _ h => ⟨cursor, h, rfl⟩

theorem append {depth₁ depth₂ depth₃ : Nat} {front back : List Char}
    (hfront : Passes depth₁ depth₂ front (back ++ rest)) (hback : Passes depth₂ depth₃ back rest) :
    Passes depth₁ depth₃ (front ++ back) rest := by
  intro cursor position h
  obtain ⟨middle, hmiddle, hwalk⟩ := hfront cursor position h
  obtain ⟨after, hafter, hwalk'⟩ := hback middle _ hmiddle
  refine ⟨after, ?_, ?_⟩
  · rwa [List.length_append, ← Nat.add_assoc]
  · rw [List.append_assoc, hwalk, hwalk']

/-- One character is passed if reading it keeps to code. -/
theorem one {depth' : Nat} {c : Char} (hc : c ≠ '/' ∧ c ≠ '-')
    (hread : ∀ cursor position, InCode cursor depth position →
      InCode ((cursor.readCode c rest).next c) depth' (position + 1)) :
    Passes depth depth' [c] rest :=
  fun cursor position h =>
    ⟨_, hread cursor position h, walk_cons_of_inCode h hc.1⟩

theorem plain {c : Char} (hc : c ∉ marks) : Passes depth depth [c] rest := by
  simp only [marks, List.mem_cons, List.not_mem_nil, or_false, not_or] at hc
  obtain ⟨hstring, hquote, hround, hround', hsquare, hsquare', hcurly, hcurly', hopen, hclose, hcomma,
    hslash, hdash⟩ := hc
  refine one ⟨hslash, hdash⟩ fun cursor position h => ?_
  have hread : cursor.readCode c rest = cursor := by
    simp [readCode, hstring, hquote, hround, hround', hsquare, hsquare', hcurly, hcurly', hopen, hclose,
      hcomma]
  rw [hread]
  exact ⟨h.countsAngles, h.depth_eq, h.not_inString, h.no_skip, by simpa [next] using hdash, h.no_comma,
    congrArg (· + 1) h.position_eq⟩

theorem all_plain {text : List Char} (htext : ∀ c ∈ text, c ∉ marks) :
    Passes depth depth text rest := by
  induction text generalizing rest with
  | nil => exact nil
  | cons c tail ih =>
    have hfirst : Passes depth depth [c] (tail ++ rest) := plain (htext c List.mem_cons_self)
    exact hfirst.append (ih fun d hd => htext d (List.mem_cons_of_mem c hd))

theorem opening : Passes depth (depth + 1) ['<'] rest := by
  refine one (by decide) fun cursor position h => ?_
  have hread : cursor.readCode '<' rest = cursor.enter := by
    simp [readCode, h.countsAngles]
  rw [hread]
  exact ⟨h.countsAngles, congrArg (· + 1) h.depth_eq, h.not_inString, h.no_skip, by simp [next], h.no_comma,
    congrArg (· + 1) h.position_eq⟩

theorem closing : Passes (depth + 1) depth ['>'] rest := by
  refine one (by decide) fun cursor position h => ?_
  have hread : cursor.readCode '>' rest = cursor.leave := by
    simp [readCode, h.countsAngles, h.no_dash]
  rw [hread]
  refine ⟨h.countsAngles, ?_, h.not_inString, h.no_skip, by simp [next], h.no_comma,
    congrArg (· + 1) h.position_eq⟩
  change cursor.scanner.depth - 1 = depth
  rw [h.depth_eq]
  rfl

theorem comma_inside : Passes (depth + 1) (depth + 1) [','] rest := by
  refine one (by decide) fun cursor position h => ?_
  have hread : cursor.readCode ',' rest = cursor := by
    simp [readCode, h.depth_eq]
  rw [hread]
  exact ⟨h.countsAngles, h.depth_eq, h.not_inString, h.no_skip, by simp [next], h.no_comma,
    congrArg (· + 1) h.position_eq⟩

/-- A single quote that opens no character literal. -/
theorem quote (hrest : literalTail rest = none) : Passes depth depth ['\''] rest := by
  refine one (by decide) fun cursor position h => ?_
  have hread : cursor.readCode '\'' rest = { cursor with skip := 0 } := by
    simp [readCode, hrest]
  rw [hread]
  exact ⟨h.countsAngles, h.depth_eq, h.not_inString, rfl, by simp [next], h.no_comma,
    congrArg (· + 1) h.position_eq⟩

end Passes

/-! ## What is kept along a text -/

/-- A character of a string changes nothing that is reported. -/
theorem report_readQuoted (cursor : Cursor) (c : Char) :
    (cursor.readQuoted c).position = cursor.position ∧
    (cursor.readQuoted c).topComma = cursor.topComma ∧
    (cursor.readQuoted c).closedAt = cursor.closedAt ∧
    (cursor.readQuoted c).scanner.countsAngles = cursor.scanner.countsAngles := by
  unfold readQuoted
  split
  · exact ⟨rfl, rfl, rfl, rfl⟩
  · split <;> exact ⟨rfl, rfl, rfl, rfl⟩

/-- What each character keeps is kept along a text, by induction on the text. -/
theorem walk_keeps {P : Cursor → Prop}
    (hskip : ∀ {a} c, P a → P ({ a with skip := a.skip - 1 }.next c))
    (hquoted : ∀ {a} c, P a → P ((a.readQuoted c).next c))
    (hcode : ∀ {a} c rest, P a → P ((a.readCode c rest).next c)) {cursor : Cursor} (h : P cursor)
    (text : List Char) : P (cursor.walk text) := by
  induction text generalizing cursor with
  | nil => exact h
  | cons c rest ih =>
    rw [walk]
    split
    · exact ih (hskip c h)
    · split
      · exact ih (hquoted c h)
      · split
        · exact h
        · exact ih (hcode c rest h)

/-! ## The first comma -/

theorem topComma_readCode {cursor : Cursor} {k : Nat} (h : cursor.topComma = some k) (c : Char)
    (rest : List Char) : (cursor.readCode c rest).topComma = some k := by
  have hclosed : cursor.noteClosed.leave.topComma = some k := by
    unfold noteClosed
    split <;> exact h
  unfold readCode
  split
  · exact h
  · split
    · exact h
    · split
      · exact h
      · split
        · exact hclosed
        · split
          · exact h
          · split
            · exact h
            · split
              · next hnone => simp [h] at hnone
              · exact h

theorem topComma_walk {cursor : Cursor} {k : Nat} (h : cursor.topComma = some k) (text : List Char) :
    (cursor.walk text).topComma = some k := by
  refine walk_keeps (P := fun cursor => cursor.topComma = some k) (fun _ hfound => hfound) ?_ ?_ h text
  · intro a c hfound
    exact (report_readQuoted a c).2.1.trans hfound
  · intro a c rest hfound
    exact topComma_readCode hfound c rest

/-- **A comma behind code at depth zero is the first one**, whatever follows. -/
theorem topComma_feed {code rest : List Char} (h : Passes 0 0 code (',' :: rest)) :
    (forField.feed (code ++ ',' :: rest)).1.topComma = some code.length := by
  have hstart : InCode (start forField) 0 0 :=
    ⟨rfl, rfl, rfl, rfl, by decide, rfl, rfl⟩
  obtain ⟨after, hafter, hwalk⟩ := h _ _ hstart
  have hread : after.readCode ',' rest = { after with topComma := some after.position } := by
    simp [readCode, hafter.depth_eq, hafter.no_comma]
  change ((start forField).walk (code ++ ',' :: rest)).topComma = some code.length
  rw [hwalk, walk_cons_of_inCode hafter (by decide), hread]
  refine topComma_walk ?_ rest
  change some after.position = some code.length
  rw [hafter.position_eq, Nat.zero_add]

end ModelMend.Scanner.Cursor
