import ModelMend.Proofs.Text.Lines
import ModelMend.Proofs.Text.Wording
import ModelMend.Source.Model

/-!
# The parts of a source text

The parts that a source text is taken apart into make it up (`withBody_of_find?`), and the same parts
are found again around another body, unless that body closes the model early (`find?_withBody`).
-/

namespace ModelMend

open Text

theorem splitAtClosing_append {lines body tail : List Line}
    (h : splitAtClosing lines = some (body, tail)) : body ++ tail = lines ∧ tail ≠ [] := by
  induction lines generalizing body with
  | nil => cases h
  | cons line lines ih =>
    unfold splitAtClosing at h
    split at h
    · cases h
      exact ⟨rfl, by simp⟩
    · obtain ⟨⟨body', tail'⟩, hsplit, heq⟩ := Option.map_eq_some_iff.1 h
      cases heq
      obtain ⟨happend, hne⟩ := ih hsplit
      exact ⟨by rw [List.cons_append, happend], hne⟩

namespace ModelParts

/-- The parts of a text make it up. -/
theorem withBody_of_find? {text : List Char} {parts : ModelParts} (h : find? text = some parts) :
    parts.withBody parts.body = text := by
  unfold find? at h
  split at h
  · cases h
  · next found hfound =>
    split at h
    · cases h
    · next opening lines hlines =>
      split at h
      · cases h
      · obtain ⟨⟨body, tail⟩, hsplit, rfl⟩ := Option.map_eq_some_iff.1 h
        obtain ⟨rfl, htail⟩ := splitAtClosing_append hsplit
        obtain ⟨head, hhead⟩ := Wording.find?_after_suffix hfound
        have hafter := joinLines_splitLines found.after
        rw [hlines, ← List.cons_append, joinLines_append (by simp) htail] at hafter
        have htake : text.take (text.length - found.after.length) = head := by
          simp [← hhead]
        dsimp only [withBody]
        rw [htake, List.append_assoc, hafter, hhead]

end ModelParts

/-- Lines that close nothing in front of one that does. -/
theorem splitAtClosing_of_not_closing {body tail : List Line}
    (hbody : ∀ line ∈ body, isClosing line = false) (htail : tail.head?.any isClosing = true) :
    splitAtClosing (body ++ tail) = some (body, tail) := by
  induction body with
  | nil =>
    cases tail with
    | nil => cases htail
    | cons first more =>
      have hfirst : isClosing first = true := htail
      simp [splitAtClosing, hfirst]
  | cons line body ih =>
    have hline := hbody line List.mem_cons_self
    have hmore := ih fun other hmem => hbody other (List.mem_cons_of_mem line hmem)
    simp [splitAtClosing, hline, hmore]

theorem splitAtClosing_tail {lines body tail : List Line}
    (h : splitAtClosing lines = some (body, tail)) : tail.head?.any isClosing = true := by
  induction lines generalizing body with
  | nil => cases h
  | cons line lines ih =>
    unfold splitAtClosing at h
    split at h
    · next hclosing =>
      cases h
      exact hclosing
    · obtain ⟨⟨body', tail'⟩, hsplit, heq⟩ := Option.map_eq_some_iff.1 h
      cases heq
      exact ih hsplit

theorem modelHead_endsAt : modelHead.EndsAt '\x7b' where
  not_blank := by decide
  eq_concat :=
    ⟨[.chars "pub".toList, .gap, .chars "struct".toList, .gap, .chars "Model".toList, .blanks], rfl,
      by simp⟩

namespace ModelParts

/-- **The parts of a text are found again around another body.** -/
theorem find?_withBody {text : List Char} {parts : ModelParts} (h : find? text = some parts)
    {opening : Line} {lines : List Line} (hnewline : ∀ line ∈ opening :: lines, '\n' ∉ line)
    (hopening : '\x7d' ∉ opening) (hlines : ∀ line ∈ lines, isClosing line = false) :
    find? (parts.withBody (opening :: lines)) = some { parts with body := opening :: lines } := by
  unfold find? at h
  split at h
  · cases h
  · next found hfound =>
    split at h
    · cases h
    · next first others hsplit =>
      split at h
      · cases h
      · obtain ⟨⟨body, tail⟩, hclosing, rfl⟩ := Option.map_eq_some_iff.1 h
        obtain ⟨head, -, htext, hagain⟩ := modelHead_endsAt.findFrom?_eq hfound
        obtain ⟨rfl, htail⟩ := splitAtClosing_append hclosing
        have htake : text.take (text.length - found.after.length) = head := by
          simp [htext]
        have hmem : ∀ line ∈ tail, '\n' ∉ line := by
          intro line hline
          have hafter : line ∈ splitLines found.after := by
            rw [hsplit]
            exact List.mem_cons_of_mem first (List.mem_append_right body hline)
          exact newline_notMem_of_mem_splitLines hafter
        have hall : ∀ line ∈ (opening :: lines) ++ tail, '\n' ∉ line := by
          intro line hline
          rcases List.mem_append.1 hline with hline | hline
          · exact hnewline line hline
          · exact hmem line hline
        have hrest : splitLines (joinLines (opening :: lines) ++ '\n' :: joinLines tail) =
            opening :: (lines ++ tail) := by
          rw [← joinLines_append (List.cons_ne_nil opening lines) htail,
            splitLines_joinLines (List.append_ne_nil_of_left_ne_nil (List.cons_ne_nil _ _) tail) hall]
          rfl
        obtain ⟨other, hother, hafter⟩ :=
          hagain (joinLines (opening :: lines) ++ '\n' :: joinLines tail)
        have hbrace : opening.contains '\x7d' = false := by
          rw [Bool.eq_false_iff]
          exact fun h => hopening (List.contains_iff_mem.1 h)
        dsimp only [withBody]
        rw [htake, List.append_assoc]
        unfold find? Wording.find?
        rw [hother]
        dsimp only
        rw [hafter, hrest]
        dsimp only
        rw [hbrace, splitAtClosing_of_not_closing hlines (splitAtClosing_tail hclosing)]
        simp

end ModelParts

end ModelMend
