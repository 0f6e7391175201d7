import ModelMend.Proofs.Line.ByteScan

/-!
# Places that a line can be cut at

Every place that is reported of a line is a boundary of it, and the byte that it was reported for stands
there (`LineScan.SafeIn`). A walk notes a comma and a closing bracket where it reads them and ends at a
line comment or at the end of the line (`Cursor.Notes`).
-/

namespace ModelMend

open Text

/-- The places of a report, counted in bytes, lie within the line and are boundaries. The code ends at a
line comment unless it fills the line. The comma, and the closing bracket that stands in front of its
place, belong to the code. -/
structure LineScan.SafeIn (scan : LineScan) (line : List Char) : Prop where
  codeEnd_le : scan.codeEnd ≤ (encode line).length
  codeEnd_boundary : IsBoundary line scan.codeEnd
  comment : scan.codeEnd < (encode line).length →
    ['/'.toUInt8, '/'.toUInt8] <+: (encode line).drop scan.codeEnd
  topComma : ∀ place, scan.topComma = some place →
    place < scan.codeEnd ∧ IsBoundary line place ∧ (encode line)[place]? = some ','.toUInt8
  closedAt : ∀ place, scan.closedAt = some place →
    place ≤ scan.codeEnd ∧ IsBoundary line place ∧ 0 < place ∧
      ∃ bracket, Scanner.Cursor.isClosing bracket = true ∧
        (encode line)[place - 1]? = some bracket.toUInt8

namespace Scanner

namespace Cursor

/-- The cursor stands between the two parts of a line, and what it has noted is in the first. -/
structure Notes (text front rest : List Char) (cursor : Cursor) : Prop where
  text_eq : text = front ++ rest
  position_eq : cursor.position = front.length
  topComma : ∀ place, cursor.topComma = some place → place < front.length ∧ text[place]? = some ','
  closedAt : ∀ place, cursor.closedAt = some place →
    place ≤ front.length ∧ ∃ before bracket, place = before + 1 ∧ isClosing bracket = true ∧
      text[before]? = some bracket

namespace Notes

variable {text front rest : List Char} {c : Char} {cursor read : Cursor}

/-- A character is passed. What is noted of it is a comma or a closing bracket there. -/
theorem next (h : Notes text front (c :: rest) cursor) (hposition : read.position = cursor.position)
    (hcomma : read.topComma = cursor.topComma ∨ c = ',' ∧ read.topComma = some cursor.position)
    (hclosed : read.closedAt = cursor.closedAt ∨
      isClosing c = true ∧ read.closedAt = some (cursor.position + 1)) :
    Notes text (front ++ [c]) rest (read.next c) := by
  have hlength : (front ++ [c]).length = front.length + 1 := by
    rw [List.length_append, List.length_singleton]
  have hhere : text[front.length]? = some c := by
    rw [h.text_eq, List.getElem?_append_right (Nat.le_refl _), Nat.sub_self, List.getElem?_cons_zero]
  refine ⟨?_, ?_, ?_, ?_⟩
  · rw [h.text_eq, List.append_assoc, List.singleton_append]
  · rw [Cursor.next, hposition, h.position_eq, hlength]
  · rw [hlength]
    intro place hplace
    rcases hcomma with hsame | ⟨rfl, hnew⟩
    · obtain ⟨hless, hget⟩ := h.topComma place (hsame.symm.trans hplace)
      exact ⟨Nat.lt_succ_of_lt hless, hget⟩
    · obtain rfl : cursor.position = place := Option.some.inj (hnew.symm.trans hplace)
      rw [h.position_eq]
      exact ⟨Nat.lt_succ_self _, hhere⟩
  · rw [hlength]
    intro place hplace
    rcases hclosed with hsame | ⟨hclosing, hnew⟩
    · obtain ⟨hle, hbracket⟩ := h.closedAt place (hsame.symm.trans hplace)
      exact ⟨Nat.le_succ_of_le hle, hbracket⟩
    · obtain rfl : cursor.position + 1 = place := Option.some.inj (hnew.symm.trans hplace)
      rw [h.position_eq]
      exact ⟨Nat.le_refl _, _, c, rfl, hclosing, hhere⟩

theorem readCode (h : Notes text front (c :: rest) cursor) :
    Notes text (front ++ [c]) rest ((cursor.readCode c rest).next c) := by
  refine h.next (position_readCode cursor c rest) ?_ ?_
  · rw [comma_readCode]
    split
    · next hcomma => exact Or.inr ⟨hcomma.1, rfl⟩
    · exact Or.inl rfl
  · rw [closedAt_readCode]
    split
    · next hclosing => exact Or.inr ⟨hclosing.1, rfl⟩
    · exact Or.inl rfl

/-- **A walk ends** at a line comment or at the end of the line, and what it notes is in front. -/
theorem walk (h : Notes text front rest cursor) :
    ∃ code comment, Notes text code comment (cursor.walk rest) ∧
      (comment = [] ∨ ['/', '/'] <+: comment) := by
  induction rest generalizing front cursor with
  | nil => exact ⟨front, [], h, Or.inl rfl⟩
  | cons c rest ih =>
    rw [Cursor.walk]
    split
    · refine ih (h.next ?_ (Or.inl ?_) (Or.inl ?_)) <;> rfl
    · split
      · obtain ⟨hposition, hcomma, hclosed, -⟩ := report_readQuoted cursor c
        exact ih (h.next hposition (Or.inl hcomma) (Or.inl hclosed))
      · split
        · next hcomment =>
          rw [Bool.and_eq_true, beq_iff_eq, beq_iff_eq] at hcomment
          obtain ⟨rfl, hslash⟩ := hcomment
          obtain ⟨more, rfl⟩ := List.head?_eq_some_iff.1 hslash
          exact ⟨front, '/' :: '/' :: more, h, Or.inr ⟨more, rfl⟩⟩
        · exact ih h.readCode

/-- What is noted of a line can be cut at. -/
theorem safeIn {code comment : List Char} (h : Notes text code comment cursor)
    (hcomment : comment = [] ∨ ['/', '/'] <+: comment) :
    (LineScan.inBytes text ⟨cursor.topComma, cursor.position, cursor.closedAt⟩).SafeIn text := by
  have hend : byteOffset text cursor.position = byteLength code := by
    rw [h.position_eq, h.text_eq, byteOffset_append]
  refine ⟨?_, isBoundary_byteOffset text _, ?_, ?_, ?_⟩
  · rw [length_encode]
    exact byteOffset_le text _
  · dsimp only [LineScan.inBytes]
    rw [hend, h.text_eq, encode_append, ← length_encode, List.drop_left]
    intro hshort
    rcases hcomment with rfl | ⟨more, rfl⟩
    · simp at hshort
    · exact ⟨encode more, rfl⟩
  · intro _ hnoted
    obtain ⟨place, hplace, rfl⟩ := Option.map_eq_some_iff.1 hnoted
    obtain ⟨hless, hget⟩ := h.topComma place hplace
    have hcomma : ','.val.toNat ≤ 127 := by decide
    have hbefore : byteOffset text (place + 1) ≤ byteOffset text cursor.position :=
      byteOffset_mono (h.position_eq ▸ hless)
    rw [byteOffset_succ hget hcomma] at hbefore
    exact ⟨hbefore, isBoundary_byteOffset text _, getElem?_byteOffset hget hcomma⟩
  · intro _ hnoted
    obtain ⟨place, hplace, rfl⟩ := Option.map_eq_some_iff.1 hnoted
    obtain ⟨hle, before, bracket, rfl, hclosing, hget⟩ := h.closedAt place hplace
    have hascii : bracket.val.toNat ≤ 127 := by
      rcases isClosing_iff.1 hclosing with rfl | rfl | rfl <;> decide
    have hplace : byteOffset text (before + 1) = byteOffset text before + 1 :=
      byteOffset_succ hget hascii
    refine ⟨byteOffset_mono (h.position_eq ▸ hle), isBoundary_byteOffset text _, ?_, bracket, hclosing, ?_⟩
    · rw [hplace]
      exact Nat.succ_pos _
    · rw [hplace, Nat.add_sub_cancel]
      exact getElem?_byteOffset hget hascii

end Notes

end Cursor

/-- **Every place that is reported can be cut at.** -/
theorem feed_safeIn (scanner : Scanner) (line : List Char) :
    ((scanner.feed line).1.inBytes line).SafeIn line := by
  have hstart : Cursor.Notes line [] line (Cursor.start scanner) :=
    ⟨rfl, rfl, by rintro _ ⟨⟩, by rintro _ ⟨⟩⟩
  obtain ⟨code, comment, hnotes, hcomment⟩ := hstart.walk
  exact hnotes.safeIn hcomment

theorem feedAllBytes?_safeIn (scanner : Scanner) (lines : List (List Char)) :
    ∃ reports, scanner.feedAllBytes? lines = some reports ∧
      reports = List.zipWith (fun line report => (report.1.inBytes line, report.2)) lines
        (scanner.feedAll lines) ∧
      ∀ line report, (line, report) ∈ lines.zip reports → report.1.SafeIn line := by
  refine ⟨_, scanner.feedAllBytes?_eq lines, rfl, ?_⟩
  induction lines generalizing scanner with
  | nil => rintro line report ⟨⟩
  | cons first lines ih =>
    intro line report h
    rcases List.mem_cons.1 h with hfirst | hmore
    · cases hfirst
      exact scanner.feed_safeIn first
    · exact ih _ line report hmore

end Scanner

end ModelMend
