import ModelMend.Proofs.Token.Progress

/-!
# The letter `s` in tokens

Every name that an edit of a model acts on holds the letter `s`, so the letters of a text bound the
edits that it admits. The words among the tokens of a text hold no more of them than the text does
(`Token.essCountAll_le_of_ofText?`): a lexeme is cut from the front of the text, and nesting lexemes
into trees keeps their words.
-/

namespace ModelMend

/-- The number of times the letter `s` occurs. -/
def essCount (text : List Char) : Nat :=
  text.count 's'

@[simp] theorem essCount_nil : essCount [] = 0 := rfl

@[simp] theorem essCount_append (front back : List Char) :
    essCount (front ++ back) = essCount front + essCount back :=
  List.count_append

theorem essCount_cons_of_ne {c : Char} (h : c ≠ 's') (text : List Char) :
    essCount (c :: text) = essCount text :=
  List.count_cons_of_ne h

theorem essCount_le_of_sublist {part text : List Char} (h : part.Sublist text) :
    essCount part ≤ essCount text :=
  h.count_le 's'

theorem essCount_le_of_suffix {part text : List Char} (h : part <:+ text) :
    essCount part ≤ essCount text :=
  essCount_le_of_sublist h.sublist

namespace Token

mutual

/-- The number of times the letter `s` occurs in the words of a tree. -/
def essCount : Token → Nat
  | word name => ModelMend.essCount name
  | lifetime _ => 0
  | punct _ _ => 0
  | literal _ _ => 0
  | group _ content => essCountAll content

/-- The number of times the letter `s` occurs in the words of some trees. -/
def essCountAll : List Token → Nat
  | [] => 0
  | token :: tokens => essCount token + essCountAll tokens

end

theorem essCountAll_append (front back : List Token) :
    essCountAll (front ++ back) = essCountAll front + essCountAll back := by
  induction front with
  | nil => simp [essCountAll]
  | cons token front ih => simp only [List.cons_append, essCountAll, ih, Nat.add_assoc]

theorem essCountAll_reverse (tokens : List Token) :
    essCountAll tokens.reverse = essCountAll tokens := by
  induction tokens with
  | nil => rfl
  | cons token tokens ih =>
    rw [List.reverse_cons, essCountAll_append, ih]
    simp only [essCountAll]
    omega

theorem essCountAll_le_of_suffix {part tokens : List Token} (h : part <:+ tokens) :
    essCountAll part ≤ essCountAll tokens := by
  obtain ⟨front, rfl⟩ := h
  rw [essCountAll_append]
  exact Nat.le_add_left _ _

end Token

namespace Lexeme

/-- The number of times the letter `s` occurs in the word of a lexeme. -/
def essCount : Lexeme → Nat
  | token leaf => leaf.essCount
  | opens _ => 0
  | closes _ => 0

/-- The number of times the letter `s` occurs in the words of some lexemes. -/
def essCountAll : List Lexeme → Nat
  | [] => 0
  | lexeme :: lexemes => essCount lexeme + essCountAll lexemes

theorem essCountAll_append (front back : List Lexeme) :
    essCountAll (front ++ back) = essCountAll front + essCountAll back := by
  induction front with
  | nil => simp [essCountAll]
  | cons lexeme front ih => simp only [List.cons_append, essCountAll, ih, Nat.add_assoc]

theorem leaf?_essCount {text rest : List Char} {leaf : Token}
    (h : leaf? text = some (leaf, rest)) :
    leaf.essCount + ModelMend.essCount rest ≤ ModelMend.essCount text := by
  have wordless (hleaf : leaf.essCount = 0) :
      leaf.essCount + ModelMend.essCount rest ≤ ModelMend.essCount text := by
    rw [hleaf, Nat.zero_add]
    exact essCount_le_of_suffix (leaf?_suffix h)
  have hcases := h
  unfold leaf? at hcases
  split at hcases
  · cases hcases
    exact wordless rfl
  · split at hcases
    · refine wordless ?_
      unfold lifetime? at hcases
      split at hcases
      · cases hcases
      · split at hcases
        · cases hcases
        · split at hcases <;> cases hcases <;> rfl
    · split at hcases
      · cases hcases
        exact wordless rfl
      · obtain ⟨⟨name, tail⟩, hword, heq⟩ := Option.map_eq_some_iff.1 hcases
        cases heq
        rw [← word?_append hword, essCount_append]
        exact Nat.le_refl _

theorem essCountAll_documents (inner : Bool) (comment : List Char) :
    essCountAll (documents inner comment) = 0 := by
  cases inner <;> rfl

/-- The words of a lexeme are cut off the front of the text. -/
theorem next?_essCount {text rest : List Char} {found : List Lexeme}
    (h : next? text = some (found, rest)) :
    essCountAll found + ModelMend.essCount rest ≤ ModelMend.essCount text := by
  have wordless (hfound : essCountAll found = 0) :
      essCountAll found + ModelMend.essCount rest ≤ ModelMend.essCount text := by
    rw [hfound, Nat.zero_add]
    exact essCount_le_of_suffix (next?_suffix h)
  have hcases := h
  unfold next? at hcases
  split at hcases
  · split at hcases <;> cases hcases
    exact wordless (essCountAll_documents _ _)
  · split at hcases <;> try (cases hcases; exact wordless rfl)
    obtain ⟨⟨leaf, tail⟩, hleaf, heq⟩ := Option.map_eq_some_iff.1 hcases
    cases heq
    simpa [essCountAll, essCount] using leaf?_essCount hleaf

theorem cut_essCount {fuel : Nat} {text : List Char} {lexemes : List Lexeme}
    (h : cut fuel text = some lexemes) : essCountAll lexemes ≤ ModelMend.essCount text := by
  induction fuel generalizing text lexemes with
  | zero =>
    cases text with
    | nil => cases h; exact Nat.zero_le _
    | cons c text => cases h
  | succ fuel ih =>
    cases text with
    | nil => cases h; exact Nat.zero_le _
    | cons c text =>
      unfold cut at h
      split at h
      · next rest hspace =>
        exact Nat.le_trans (ih h) (essCount_le_of_suffix (afterSpace?_suffix hspace))
      · split at h
        · next found rest hnext =>
          obtain ⟨more, hmore, rfl⟩ := Option.map_eq_some_iff.1 h
          have hfront := next?_essCount hnext
          have hback := ih hmore
          rw [essCountAll_append]
          omega
        · cases h

/-- Nesting keeps the words of the lexemes, those of the open brackets and those read so far. -/
theorem nest_essCount {stack : List (Delimiter × List Token)} {current tokens : List Token}
    {lexemes : List Lexeme} (h : nest stack current lexemes = some tokens) :
    Token.essCountAll tokens =
      Token.essCountAll (stack.flatMap Prod.snd) + Token.essCountAll current +
        essCountAll lexemes := by
  induction lexemes generalizing stack current with
  | nil =>
    unfold nest at h
    split at h
    · next hempty =>
      cases h
      rw [List.isEmpty_iff.1 hempty, Token.essCountAll_reverse]
      simp [Token.essCountAll, essCountAll]
    · cases h
  | cons lexeme lexemes ih =>
    cases lexeme with
    | token leaf =>
      rw [ih h]
      simp only [Token.essCountAll, essCountAll, essCount]
      omega
    | opens delimiter =>
      rw [ih h]
      simp only [List.flatMap_cons, Token.essCountAll_append, Token.essCountAll, essCountAll,
        essCount]
      omega
    | closes delimiter =>
      unfold nest at h
      split at h
      · cases h
      · split at h
        · rw [ih h]
          simp only [List.flatMap_cons, Token.essCountAll_append, Token.essCountAll, Token.essCount,
            Token.essCountAll_reverse, essCountAll, essCount]
          omega
        · cases h

end Lexeme

/-- **The words among the tokens of a text hold no more letters `s` than the text.** -/
theorem Token.essCountAll_le_of_ofText? {text : List Char} {tokens : List Token}
    (h : Token.ofText? text = some tokens) : Token.essCountAll tokens ≤ ModelMend.essCount text := by
  unfold Token.ofText? at h
  dsimp only at h
  obtain ⟨lexemes, hcut, hnest⟩ := Option.bind_eq_some_iff.1 h
  have hwords := Lexeme.nest_essCount hnest
  have hletters := Lexeme.cut_essCount hcut
  simp only [List.flatMap_nil, Token.essCountAll, Nat.zero_add] at hwords
  rw [hwords]
  refine Nat.le_trans hletters ?_
  split
  · exact essCount_le_of_suffix (List.drop_suffix 1 text)
  · exact Nat.le_refl _

end ModelMend
