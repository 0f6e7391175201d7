import ModelMend.Token.Literal

/-!
# Quotes and backslashes inside literals

The reader of quoted literals is an automaton, a scanner of lines only looks for backslashes and for the
closing quote. They go the same way: outside of an escape a double quote ends a string and a backslash
starts an escape (`step_more`, `step_closed`), and inside of one a single quote stands only where it is
the escaped character (`charTail_append`).
-/

namespace ModelMend.Literal

/-- Inside an escape a single quote means something only behind the backslash. -/
theorem step_inside {state next : QuoteState} {c : Char} (hplain : state ≠ .plain)
    (hbreak : ∀ afterReturn, state ≠ .lineBreak afterReturn)
    (h : step .text state c = .more next) :
    next ≠ .escape ∧ (c = '\'' → state = .escape ∧ next = .plain) := by
  have hdigit : hexDigit? '\'' = none := by decide
  cases state with
  | plain => exact absurd rfl hplain
  | lineBreak afterReturn => exact absurd rfl (hbreak afterReturn)
  | afterReturn =>
    simp only [step] at h
    grind
  | escape =>
    simp only [step, escapeStep] at h
    grind
  | hexFirst =>
    simp only [step] at h
    grind
  | hexSecond first =>
    simp only [step] at h
    grind
  | codeOpen =>
    simp only [step] at h
    grind
  | code value digits =>
    simp only [step, codeStep] at h
    grind

/-- An escape goes on to the first single quote, unless it is one. -/
theorem escapeTail_append {state : QuoteState} {text rest : List Char} (hplain : state ≠ .plain)
    (hbreak : ∀ afterReturn, state ≠ .lineBreak afterReturn)
    (h : escapeTail .text state text = some rest) :
    ∃ escape, text = escape ++ rest ∧ ('\'' ∉ escape ∨ state = .escape ∧ escape = ['\'']) := by
  induction text generalizing state with
  | nil => cases h
  | cons c tail ih =>
    unfold escapeTail at h
    split at h
    · next hstep =>
      cases h
      refine ⟨[c], rfl, ?_⟩
      by_cases hc : c = '\''
      · exact Or.inr ⟨((step_inside hplain hbreak hstep).2 hc).1, by rw [hc]⟩
      · exact Or.inl (by simpa using Ne.symm hc)
    · cases h
    · next next hnext hbreaks hstep =>
      obtain ⟨hescape, hquote⟩ := step_inside hplain hbreak hstep
      obtain ⟨escape, rfl, hfree⟩ := ih (fun heq => hnext (heq ▸ rfl))
        (fun afterReturn heq => hbreaks afterReturn (heq ▸ rfl)) h
      have hc : c ≠ '\'' := by
        intro heq
        exact hnext ((hquote heq).2 ▸ rfl)
      refine ⟨c :: escape, rfl, Or.inl ?_⟩
      rcases hfree with hfree | ⟨heq, -⟩
      · simp [Ne.symm hc, hfree]
      · exact absurd heq hescape
    · cases h
    · cases h

/-- A character literal: one character, an escape without a single quote, or the escape of one. -/
theorem charTail_append {piece rest : List Char}
    (h : charTail .text (piece ++ rest) = some rest) :
    (∃ c, c ≠ '\\' ∧ piece = [c, '\'']) ∨
      (∃ escape, '\'' ∉ escape ∧ piece = '\\' :: (escape ++ ['\''])) ∨
        piece = ['\\', '\'', '\''] := by
  have hafter {text : List Char} (h : afterSingleQuote text = some rest) : text = '\'' :: rest := by
    unfold afterSingleQuote at h
    split at h
    · cases h
      rfl
    · cases h
  unfold charTail at h
  split at h
  · cases h
  · next text heq =>
    obtain ⟨tail, htail, hclosed⟩ := Option.bind_eq_some_iff.1 h
    obtain ⟨escape, rfl, hfree⟩ := escapeTail_append (by simp) (by simp) htail
    rw [hafter hclosed, List.append_cons, ← List.cons_append] at heq
    have hpiece := List.append_cancel_right heq
    rcases hfree with hfree | ⟨-, rfl⟩
    · exact Or.inr (Or.inl ⟨escape, hfree, hpiece⟩)
    · exact Or.inr (Or.inr hpiece)
  · next c text hbackslash heq =>
    simp only [QuoteKind.admits, ↓reduceIte] at h
    have hpiece : piece ++ rest = [c, '\''] ++ rest := by rw [heq, hafter h]; rfl
    exact Or.inl ⟨c, hbackslash, List.append_cancel_right hpiece⟩

/-- A backslash outside of an escape starts one, and a double quote outside of one ends the literal. -/
theorem step_more {state next : QuoteState} {c : Char} (h : step .text state c = .more next) :
    state = .escape ∧ next ≠ .escape ∨
      state ≠ .escape ∧ c ≠ '"' ∧ (c = '\\' ↔ next = .escape) := by
  have hbackslash : hexDigit? '\\' = none := by decide
  have hquote : hexDigit? '"' = none := by decide
  cases state with
  | escape =>
    simp only [step, escapeStep] at h
    grind
  | plain =>
    simp only [step, plainStep, QuoteKind.admits] at h
    grind
  | lineBreak afterReturn =>
    cases afterReturn <;> simp only [step, plainStep, QuoteKind.admits] at h <;> grind
  | afterReturn =>
    simp only [step] at h
    grind
  | hexFirst =>
    simp only [step] at h
    grind
  | hexSecond first =>
    simp only [step] at h
    grind
  | codeOpen =>
    simp only [step] at h
    grind
  | code value digits =>
    simp only [step, codeStep] at h
    grind

theorem step_closed {state : QuoteState} {c : Char} (h : step .text state c = .closed) :
    state ≠ .escape ∧ c = '"' := by
  cases state with
  | escape =>
    simp only [step, escapeStep] at h
    grind
  | plain =>
    simp only [step, plainStep] at h
    grind
  | lineBreak afterReturn =>
    cases afterReturn <;> simp only [step, plainStep] at h <;> grind
  | afterReturn =>
    simp only [step] at h
    grind
  | hexFirst =>
    simp only [step] at h
    grind
  | hexSecond first =>
    simp only [step] at h
    grind
  | codeOpen =>
    simp only [step] at h
    grind
  | code value digits =>
    simp only [step, codeStep] at h
    grind

end ModelMend.Literal

