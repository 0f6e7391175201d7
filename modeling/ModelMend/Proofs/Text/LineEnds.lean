import ModelMend.Proofs.Text.Lines

/-!
# Line ends with carriage returns

A text ends its lines in returns when every line feed in it follows a carriage return
(`EndsInReturns`). Said of the end of a text, this depends on the character before it
(`ReturnsAfter`), and in that form it is a law on pieces: of two texts one behind the other
(`returnsAfter_append`), and of lines that a line feed ends (`returnsAfter_joinLines`).
-/

namespace ModelMend.Text

/-- Every line feed has a carriage return in front of it. -/
def EndsInReturns (text : List Char) : Prop :=
  ∀ front back, text = front ++ '\n' :: back → front.getLast? = some '\r'

/-- Every line feed has a carriage return in front of it, where this character stands in front of the
text. -/
def ReturnsAfter (previous : Option Char) : List Char → Prop
  | [] => True
  | c :: rest => (c = '\n' → previous = some '\r') ∧ ReturnsAfter (some c) rest

instance decidableReturnsAfter : (previous : Option Char) → (text : List Char) →
    Decidable (ReturnsAfter previous text)
  | _, [] => .isTrue trivial
  | _, c :: rest => @instDecidableAnd _ _ inferInstance (decidableReturnsAfter (some c) rest)

theorem returnsAfter_iff (previous : Option Char) (text : List Char) :
    ReturnsAfter previous text ↔
      ∀ front back, text = front ++ '\n' :: back → front.getLast?.or previous = some '\r' := by
  induction text generalizing previous with
  | nil => simp [ReturnsAfter]
  | cons c rest ih =>
    rw [ReturnsAfter, ih]
    constructor
    · rintro ⟨hfirst, hrest⟩ front back heq
      rcases List.cons_eq_append_iff.1 heq with ⟨rfl, hcons⟩ | ⟨front, rfl, hmore⟩
      · exact hfirst (List.cons.inj hcons).1.symm
      · have hlast := hrest front back hmore
        rwa [List.getLast?_cons, Option.some_or, ← Option.or_some]
    · intro h
      constructor
      · rintro rfl
        exact h [] rest rfl
      · intro front back heq
        have hlast := h (c :: front) back (by rw [heq, List.cons_append])
        rwa [List.getLast?_cons, Option.some_or, ← Option.or_some] at hlast

theorem endsInReturns_iff (text : List Char) : EndsInReturns text ↔ ReturnsAfter none text := by
  simp only [EndsInReturns, returnsAfter_iff, Option.or_none]

instance (text : List Char) : Decidable (EndsInReturns text) :=
  decidable_of_iff' _ (endsInReturns_iff text)

theorem returnsAfter_append (previous : Option Char) (front back : List Char) :
    ReturnsAfter previous (front ++ back) ↔
      ReturnsAfter previous front ∧ ReturnsAfter (front.getLast?.or previous) back := by
  induction front generalizing previous with
  | nil => simp [ReturnsAfter]
  | cons c front ih =>
    rw [List.cons_append, ReturnsAfter, ReturnsAfter, ih, and_assoc, List.getLast?_cons,
      Option.some_or, ← Option.or_some]

theorem returnsAfter_of_notMem {text : List Char} (h : '\n' ∉ text) (previous : Option Char) :
    ReturnsAfter previous text := by
  rw [returnsAfter_iff]
  rintro front back rfl
  exact absurd (List.mem_append_right front List.mem_cons_self) h

/-- Where no carriage return stands in front of a text, it makes no difference what does. -/
theorem returnsAfter_congr {previous other : Option Char} (h : previous ≠ some '\r')
    (hother : other ≠ some '\r') (text : List Char) :
    ReturnsAfter previous text ↔ ReturnsAfter other text := by
  cases text with
  | nil => exact Iff.rfl
  | cons c rest => simp [ReturnsAfter, h, hother]

/-- A text that starts with no line feed does not look at what stands in front of it. -/
theorem returnsAfter_of_head?_ne {text : List Char} (h : text.head? ≠ some '\n')
    (previous other : Option Char) : ReturnsAfter previous text ↔ ReturnsAfter other text := by
  cases text with
  | nil => exact Iff.rfl
  | cons c rest =>
    have hc : c ≠ '\n' := fun heq => h (congrArg some heq)
    simp [ReturnsAfter, hc]

/-- Of a line and what follows its line feed. -/
theorem returnsAfter_line {line : List Char} (h : '\n' ∉ line) (previous : Option Char)
    (text : List Char) :
    ReturnsAfter previous (line ++ '\n' :: text) ↔
      line.getLast?.or previous = some '\r' ∧ ReturnsAfter (some '\n') text := by
  rw [returnsAfter_append, ReturnsAfter]
  simp [returnsAfter_of_notMem h previous]

/-- Lines with a line feed behind each end in returns exactly if each of them does. -/
theorem returnsAfter_joinLines {lines : List (List Char)} {previous : Option Char}
    (hlines : ∀ line ∈ lines, '\n' ∉ line) (hprevious : previous ≠ some '\r') (text : List Char) :
    ReturnsAfter previous (joinLines lines ++ '\n' :: text) ↔
      lines ≠ [] ∧ (∀ line ∈ lines, line.getLast? = some '\r') ∧ ReturnsAfter (some '\n') text := by
  induction lines generalizing previous with
  | nil => simp [joinLines, ReturnsAfter, hprevious]
  | cons line lines ih =>
    obtain ⟨hline, hmore⟩ := List.forall_mem_cons.1 hlines
    have hor : line.getLast?.or previous = some '\r' ↔ line.getLast? = some '\r' := by
      cases line.getLast? <;> simp [hprevious]
    by_cases hnil : lines = []
    · subst hnil
      rw [joinLines, returnsAfter_line hline, hor]
      simp
    · rw [joinLines_cons line hnil, List.append_assoc, List.cons_append, returnsAfter_line hline,
        hor, ih hmore (by decide), List.forall_mem_cons]
      simp [hnil, and_assoc]

end ModelMend.Text
