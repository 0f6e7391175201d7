import ModelMend.Text.Lines

/-!
# Joining lines

Joining is a law on runs of lines, and splitting is its inverse wherever no line holds a line feed
(`splitLines_joinLines`), so texts and runs of lines stand for each other. A text put behind another goes
on with the last line of that (`eq_lastLine`).
-/

namespace ModelMend.Text

theorem joinLines_append {front back : List (List Char)} (hfront : front ≠ []) (hback : back ≠ []) :
    joinLines (front ++ back) = joinLines front ++ '\n' :: joinLines back := by
  induction front with
  | nil => exact absurd rfl hfront
  | cons line front ih =>
    by_cases hmore : front = []
    · subst hmore
      exact joinLines_cons line hback
    · rw [List.cons_append, joinLines_cons line (by simp [hmore]), ih hmore,
        joinLines_cons line hmore, List.append_assoc, List.cons_append]

/-- A text in front of a line feed is the first line of the whole. -/
theorem splitLines_append_newline {line : List Char} (h : '\n' ∉ line) (text : List Char) :
    splitLines (line ++ '\n' :: text) = line :: splitLines text := by
  induction line with
  | nil => simp [splitLines]
  | cons c line ih =>
    have hc : c ≠ '\n' := fun e => h (e ▸ List.mem_cons_self)
    have hline : '\n' ∉ line := fun hmem => h (List.mem_cons_of_mem _ hmem)
    rw [List.cons_append, splitLines, if_neg hc, ih hline]

theorem splitLines_of_notMem {line : List Char} (h : '\n' ∉ line) : splitLines line = [line] := by
  induction line with
  | nil => rfl
  | cons c line ih =>
    have hc : c ≠ '\n' := fun e => h (e ▸ List.mem_cons_self)
    have hline : '\n' ∉ line := fun hmem => h (List.mem_cons_of_mem _ hmem)
    rw [splitLines, if_neg hc, ih hline]

/-- Lines without line feeds are read back from their text. -/
theorem splitLines_joinLines {lines : List (List Char)} (hne : lines ≠ [])
    (h : ∀ line ∈ lines, '\n' ∉ line) : splitLines (joinLines lines) = lines := by
  induction lines with
  | nil => exact absurd rfl hne
  | cons line lines ih =>
    have hline := h line List.mem_cons_self
    by_cases hmore : lines = []
    · subst hmore
      exact splitLines_of_notMem hline
    · rw [joinLines_cons line hmore, splitLines_append_newline hline,
        ih hmore fun next hmem => h next (List.mem_cons_of_mem _ hmem)]

/-- A line feed ends the lines in front of it. -/
theorem splitLines_newline (front back : List Char) :
    splitLines (front ++ '\n' :: back) = splitLines front ++ splitLines back := by
  have hfront := splitLines_ne_nil front
  have hback := splitLines_ne_nil back
  have hnewline : ∀ line ∈ splitLines front ++ splitLines back, '\n' ∉ line :=
    List.forall_mem_append.2 ⟨fun line => newline_notMem_of_mem_splitLines,
      fun line => newline_notMem_of_mem_splitLines⟩
  have htext := joinLines_append hfront hback
  rw [joinLines_splitLines, joinLines_splitLines] at htext
  rw [← htext, splitLines_joinLines (List.append_ne_nil_of_left_ne_nil hfront _) hnewline]

/-! ## The last line -/

/-- The text behind the last line feed. -/
def lastLine (text : List Char) : List Char :=
  (splitLines text).getLast (splitLines_ne_nil text)

theorem newline_notMem_lastLine (text : List Char) : '\n' ∉ lastLine text :=
  newline_notMem_of_mem_splitLines (List.getLast_mem _)

/-- A text is its last line, perhaps behind a line feed. -/
theorem eq_lastLine (text : List Char) :
    text = lastLine text ∨ ∃ front, text = front ++ '\n' :: lastLine text := by
  have htext := congrArg joinLines (List.dropLast_concat_getLast (splitLines_ne_nil text))
  rw [joinLines_splitLines] at htext
  by_cases hnil : (splitLines text).dropLast = []
  · rw [hnil] at htext
    exact Or.inl htext.symm
  · rw [joinLines_append hnil (by simp)] at htext
    exact Or.inr ⟨_, htext.symm⟩

theorem lastLine_newline (front back : List Char) :
    lastLine (front ++ '\n' :: back) = lastLine back := by
  simp only [lastLine, splitLines_newline, List.getLast_append_of_ne_nil _ (splitLines_ne_nil back)]

/-- A text that does not end in a line feed ends as its last line does. -/
theorem mem_lastLine {text : List Char} {c : Char} (h : text.getLast? = some c) (hc : c ≠ '\n') :
    c ∈ lastLine text := by
  have heq := eq_lastLine text
  generalize lastLine text = last at heq ⊢
  rcases heq with rfl | ⟨front, rfl⟩
  · exact List.mem_of_getLast? h
  · rw [List.getLast?_append, List.getLast?_cons, Option.some_or, Option.some.injEq] at h
    cases hlast : last.getLast? with
    | none =>
      rw [hlast] at h
      exact absurd h.symm hc
    | some d =>
      rw [hlast] at h
      exact List.mem_of_getLast? (hlast.trans (congrArg some h))

end ModelMend.Text
