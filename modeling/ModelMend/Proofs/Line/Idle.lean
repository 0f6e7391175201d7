import ModelMend.Line.Kind
import ModelMend.Proofs.Line.Scan
import ModelMend.Proofs.Text.Trim

/-!
# Scanning line after line

What a scanner knows after some lines (`Scanner.after`), and the lines that do not move it: between
two brackets it passes over a blank line or a comment and comes out as it was, with no comma to report
(`Scanner.feed_idle`).
-/

namespace ModelMend

open Text Scanner.Cursor

theorem notMem_marks_of_isBlank {c : Char} (h : isBlank c = true) : c ∉ ':' :: marks := by
  have hnone : (':' :: marks).any isBlank = false := by decide
  exact notMem_of_any hnone h

namespace Scanner

/-- The scanner after some lines. -/
def after (scanner : Scanner) (lines : List (List Char)) : Scanner :=
  lines.foldl (fun scanner line => (scanner.feed line).2) scanner

@[simp] theorem after_nil (scanner : Scanner) : scanner.after [] = scanner := rfl

@[simp] theorem after_cons (scanner : Scanner) (line : List Char) (lines : List (List Char)) :
    scanner.after (line :: lines) = (scanner.feed line).2.after lines := rfl

@[simp] theorem after_append (scanner : Scanner) (front back : List (List Char)) :
    scanner.after (front ++ back) = (scanner.after front).after back :=
  List.foldl_append

/-! ## The mode of a scanner -/

theorem countsAngles_readCode (cursor : Cursor) (c : Char) (rest : List Char) :
    (cursor.readCode c rest).scanner.countsAngles = cursor.scanner.countsAngles := by
  have hclosed : cursor.noteClosed.leave.scanner.countsAngles = cursor.scanner.countsAngles := by
    unfold noteClosed
    split <;> rfl
  unfold readCode
  split
  · rfl
  · split
    · rfl
    · split
      · rfl
      · split
        · exact hclosed
        · split
          · rfl
          · split
            · rfl
            · split <;> rfl

theorem countsAngles_walk (cursor : Cursor) (text : List Char) :
    (cursor.walk text).scanner.countsAngles = cursor.scanner.countsAngles := by
  refine walk_keeps (P := fun other => other.scanner.countsAngles = cursor.scanner.countsAngles)
    (fun _ hsame => hsame) ?_ ?_ rfl text
  · intro a c hsame
    exact (report_readQuoted a c).2.2.2.trans hsame
  · intro a c rest hsame
    exact (countsAngles_readCode a c rest).trans hsame

/-- A scanner keeps its mode. -/
theorem countsAngles_feed (scanner : Scanner) (line : List Char) :
    (scanner.feed line).2.countsAngles = scanner.countsAngles :=
  countsAngles_walk (start scanner) line

end Scanner

/-! ## Lines that do not move it -/

theorem isBlank_of_mem_of_blank {line : List Char} (h : LineKind.of line = .blank) :
    ∀ c ∈ line, isBlank c = true := by
  have htrim : trim line = [] := LineKind.shows_of_eq h
  have hstart : trimStart line = [] := by
    cases htext : trimStart line with
    | nil => rfl
    | cons c rest =>
      have hfirst : isBlank c = false := by
        have hhead := List.head?_dropWhile_not isBlank line
        rw [← trimStart, htext] at hhead
        simpa using hhead
      obtain ⟨more, hmore⟩ := @trimEnd_append [] rest c hfirst
      rw [List.nil_append, List.singleton_append, ← htext, ← trim, htrim] at hmore
      cases hmore
  intro c hc
  rw [← indent_append_trimStart line, hstart, List.append_nil] at hc
  exact isBlank_of_mem_indent hc

theorem trimStart_of_comment {line : List Char} (h : LineKind.of line = .comment) :
    ∃ rest, trimStart line = '/' :: '/' :: rest := by
  have hmark : "//".toList <+: trim line := LineKind.shows_of_eq h
  obtain ⟨rest, hrest⟩ := hmark.trans (trimEnd_isPrefixOf (trimStart line))
  exact ⟨rest, hrest.symm⟩

/-- A line that holds no code does not move a scanner between brackets. -/
theorem Scanner.feed_idle {scanner : Scanner} {line : List Char}
    (hkind : LineKind.of line = .blank ∨ LineKind.of line = .comment)
    (hangles : scanner.countsAngles = true) (hbalanced : scanner.isBalanced = true) :
    (scanner.feed line).1.topComma = none ∧ (scanner.feed line).2 = scanner := by
  obtain ⟨hdepth, hstring⟩ : scanner.depth = 0 ∧ scanner.inString = false := by
    simpa [isBalanced] using hbalanced
  have hstart : InCode (start scanner) 0 0 :=
    ⟨hangles, hdepth, hstring, rfl, by simp [start], rfl, rfl⟩
  have hpass {text rest : List Char} (htext : ∀ c ∈ text, isBlank c = true) :
      Passes 0 0 text rest :=
    .all_plain fun c hc hmem => notMem_marks_of_isBlank (htext c hc) (List.mem_cons_of_mem ':' hmem)
  have hsame {other : Scanner} (hangles : other.countsAngles = true) (hdepth : other.depth = 0)
      (hstring : other.inString = false) : other = forField := by
    cases other
    simp_all [forField]
  have hdone {cursor : Cursor} {position : Nat} (hcode : InCode cursor 0 position)
      (hwalk : (start scanner).walk line = cursor) :
      (scanner.feed line).1.topComma = none ∧ (scanner.feed line).2 = scanner := by
    refine ⟨(congrArg Cursor.topComma hwalk).trans hcode.no_comma, ?_⟩
    calc (scanner.feed line).2 = cursor.scanner := congrArg Cursor.scanner hwalk
      _ = forField := hsame hcode.countsAngles hcode.depth_eq hcode.not_inString
      _ = scanner := (hsame hangles hdepth hstring).symm
  rcases hkind with hblank | hcomment
  · obtain ⟨cursor, hcode, hwalk⟩ :=
      @hpass line [] (isBlank_of_mem_of_blank hblank) _ _ hstart
    rw [List.append_nil] at hwalk
    exact hdone hcode hwalk
  · obtain ⟨rest, hrest⟩ := trimStart_of_comment hcomment
    obtain ⟨cursor, hcode, hwalk⟩ :=
      @hpass (indent line) ('/' :: '/' :: rest) (fun c => isBlank_of_mem_indent) _ _ hstart
    rw [← hrest, indent_append_trimStart, hrest] at hwalk
    refine hdone hcode (hwalk.trans ?_)
    rw [walk]
    simp [hcode.no_skip, hcode.not_inString]

end ModelMend
