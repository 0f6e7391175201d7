import ModelMend.Text.Blank

/-!
# What trimming takes away

Trimming takes white space off the ends of a text and nothing else.
-/

namespace ModelMend.Text

theorem trimStart_suffix (text : List Char) : trimStart text <:+ text :=
  List.dropWhile_suffix _

theorem trimEnd_sublist (text : List Char) : (trimEnd text).Sublist text := by
  have h : (text.reverse.dropWhile isBlank).Sublist text.reverse := List.dropWhile_sublist _
  have hreverse := h.reverse
  rwa [List.reverse_reverse] at hreverse

theorem trimEnd_isPrefixOf (text : List Char) : trimEnd text <+: text := by
  have h : text.reverse.dropWhile isBlank <:+ text.reverse := List.dropWhile_suffix _
  rwa [← List.reverse_prefix, List.reverse_reverse] at h

theorem trim_sublist (text : List Char) : (trim text).Sublist text :=
  (trimEnd_sublist _).trans (trimStart_suffix text).sublist

section

variable {lead text rest : List Char} {c : Char}

theorem trimStart_append_of_blank (hlead : ∀ c ∈ lead, isBlank c = true) :
    trimStart (lead ++ text) = trimStart text :=
  List.dropWhile_append_of_pos hlead

/-- A text that ends in a character that is not blank is kept by trimming what follows it. -/
theorem trimEnd_append (hc : isBlank c = false) :
    ∃ more, trimEnd (text ++ [c] ++ rest) = text ++ [c] ++ more := by
  have hkeep : (text ++ [c]).reverse.dropWhile isBlank = (text ++ [c]).reverse := by
    simp [hc]
  refine ⟨trimEnd rest, ?_⟩
  unfold trimEnd
  rw [List.reverse_append, List.dropWhile_append]
  split
  · next hblank =>
    rw [hkeep, List.isEmpty_iff.1 hblank]
    simp
  · simp

theorem trimEnd_append_of_blank (hc : isBlank c = false) (hrest : ∀ d ∈ rest, isBlank d = true) :
    trimEnd (text ++ [c] ++ rest) = text ++ [c] := by
  have hreverse : ∀ d ∈ rest.reverse, isBlank d = true := fun d hd => hrest d (List.mem_reverse.1 hd)
  unfold trimEnd
  rw [List.reverse_append, List.dropWhile_append_of_pos hreverse]
  simp [hc]

/-- Blanks on either side of a text do not matter to what trimming leaves. -/
theorem trim_append_blanks (hlead : ∀ c ∈ lead, isBlank c = true)
    (hrest : ∀ c ∈ rest, isBlank c = true) : trim (lead ++ (text ++ rest)) = trim text := by
  have hreverse : ∀ c ∈ rest.reverse, isBlank c = true := fun c hc => hrest c (List.mem_reverse.1 hc)
  have hblank : trimStart (rest ++ []) = [] := trimStart_append_of_blank hrest
  have hend (text : List Char) : trimEnd (text ++ rest) = trimEnd text := by
    unfold trimEnd
    rw [List.reverse_append, List.dropWhile_append_of_pos hreverse]
  unfold trim
  rw [trimStart_append_of_blank hlead, trimStart, List.dropWhile_append]
  split
  · next hnone =>
    rw [List.append_nil, trimStart] at hblank
    rw [hblank, trimStart, List.isEmpty_iff.1 hnone]
  · exact hend _

/-- A text that starts and ends with no blank is what trimming leaves of it. -/
theorem trim_append_of_blank {d : Char} (hlead : ∀ c ∈ lead, isBlank c = true)
    (hrest : ∀ c ∈ rest, isBlank c = true) (hc : isBlank c = false) (hd : isBlank d = false)
    {front tail : List Char} (hfront : text = c :: tail) (hback : text = front ++ [d]) :
    trim (lead ++ (text ++ rest)) = text := by
  unfold trim
  rw [trimStart_append_of_blank hlead, hfront, List.cons_append, trimStart_cons_of_not_blank hc,
    ← List.cons_append, ← hfront, hback, trimEnd_append_of_blank hd hrest]

end

end ModelMend.Text
