import ModelMend.Proofs.Text.Trim

/-!
# Texts that differ in their white space

Two texts that are made of the same words differ in nothing but their white space. A text is squeezed by
putting one blank in place of every run of white space, and none at the end; so texts made of the same
words are the same when they are squeezed, a blank in front of both (`squeezed_eq_of_words_eq`).
-/

namespace ModelMend.Text

/-- The runs of characters between white space. -/
def words (text : List Char) : List (List Char) :=
  (text.splitOnP isBlank).filter (· ≠ [])

/-- No character of the text is white space. -/
def Solid (text : List Char) : Prop :=
  ∀ c ∈ text, isBlank c = false

/-- A squeezed text behind white space. -/
def gap : List Char → List Char
  | [] => []
  | c :: rest => if c = ' ' then c :: rest else ' ' :: c :: rest

/-- The text with one blank for every run of white space, and none at the end. -/
def squeezed : List Char → List Char
  | [] => []
  | c :: rest => if isBlank c then gap (squeezed rest) else c :: squeezed rest

variable {text other front back : List Char} {c d : Char}

theorem solid_of_mem {texts : List (List Char)} (h : texts.flatten.any isBlank = false) :
    ∀ text ∈ texts, Solid text := by
  intro text htext c hc
  rw [List.any_eq_false] at h
  exact Bool.eq_false_iff.2 (h c (List.mem_flatten_of_mem htext hc))

theorem solid_of_any (h : text.any isBlank = false) : Solid text := by
  rw [List.any_eq_false] at h
  exact fun c hc => Bool.eq_false_iff.2 (h c hc)

/-! ## Words -/

@[simp] theorem words_nil : words [] = [] := rfl

theorem words_of_solid (h : Solid text) (hne : text ≠ []) : words text = [text] := by
  rw [words, List.splitOnP_eq_singleton h]
  simp [hne]

theorem words_append_cons (hc : isBlank c = true) :
    words (front ++ c :: back) = words front ++ words back := by
  rw [words, List.splitOnP_append_cons front back hc, List.filter_append]
  rfl

theorem words_cons_of_blank (hc : isBlank c = true) : words (c :: text) = words text :=
  @words_append_cons [] text c hc

/-! ## Gaps -/

theorem isBlank_space : isBlank ' ' = true := by
  decide

theorem gap_cons (h : isBlank c = false) (rest : List Char) : gap (c :: rest) = ' ' :: c :: rest := by
  have hne : c ≠ ' ' := by
    rintro rfl
    rw [isBlank_space] at h
    cases h
  rw [gap, if_neg hne]

@[simp] theorem gap_gap (text : List Char) : gap (gap text) = gap text := by
  unfold gap
  split <;> grind

/-- What is behind a gap begins with a blank, if there is anything. -/
theorem gap_eq_nil_or_cons (text : List Char) :
    gap text = [] ∧ text = [] ∨ ∃ rest, gap text = ' ' :: rest ∧ (text = rest ∨ text = ' ' :: rest) := by
  cases text with
  | nil => exact Or.inl ⟨rfl, rfl⟩
  | cons c rest =>
    right
    by_cases hc : c = ' '
    · exact ⟨rest, by rw [gap, if_pos hc, hc], Or.inr (by rw [hc])⟩
    · exact ⟨c :: rest, by rw [gap, if_neg hc], Or.inl rfl⟩

/-! ## Squeezing -/

@[simp] theorem squeezed_nil : squeezed [] = [] := rfl

@[simp] theorem squeezed_cons_of_blank (h : isBlank c = true) (rest : List Char) :
    squeezed (c :: rest) = gap (squeezed rest) := by
  rw [squeezed, if_pos h]

@[simp] theorem squeezed_cons_of_not_blank (h : isBlank c = false) (rest : List Char) :
    squeezed (c :: rest) = c :: squeezed rest := by
  rw [squeezed, if_neg (by simp [h])]

theorem squeezed_gap (text : List Char) : squeezed (gap text) = gap (squeezed text) := by
  rcases gap_eq_nil_or_cons text with ⟨hgap, rfl⟩ | ⟨rest, hgap, rfl | rfl⟩
  · rfl
  · rw [hgap, squeezed_cons_of_blank isBlank_space]
  · rw [hgap, squeezed_cons_of_blank isBlank_space, gap_gap]

/-- A text that is squeezed stays as it is. -/
@[simp] theorem squeezed_squeezed (text : List Char) : squeezed (squeezed text) = squeezed text := by
  induction text with
  | nil => rfl
  | cons c rest ih =>
    cases hc : isBlank c with
    | true => rw [squeezed_cons_of_blank hc, squeezed_gap, ih]
    | false => rw [squeezed_cons_of_not_blank hc, squeezed_cons_of_not_blank hc, ih]

theorem squeezed_append_congr (h : squeezed back = squeezed other) (front : List Char) :
    squeezed (front ++ back) = squeezed (front ++ other) := by
  induction front with
  | nil => exact h
  | cons c front ih =>
    cases hc : isBlank c with
    | true => rw [List.cons_append, List.cons_append, squeezed_cons_of_blank hc,
        squeezed_cons_of_blank hc, ih]
    | false => rw [List.cons_append, List.cons_append, squeezed_cons_of_not_blank hc,
        squeezed_cons_of_not_blank hc, ih]

theorem Solid.squeezed_append (h : Solid front) (back : List Char) :
    squeezed (front ++ back) = front ++ squeezed back := by
  induction front with
  | nil => rfl
  | cons c front ih =>
    obtain ⟨hc, hfront⟩ := List.forall_mem_cons.1 h
    rw [List.cons_append, squeezed_cons_of_not_blank hc, ih hfront, List.cons_append]

theorem squeezed_eq_nil (h : ∀ c ∈ text, isBlank c = true) : squeezed text = [] := by
  induction text with
  | nil => rfl
  | cons c rest ih =>
    obtain ⟨hc, hrest⟩ := List.forall_mem_cons.1 h
    rw [squeezed_cons_of_blank hc, ih hrest, gap]

theorem squeezed_append_of_blank (h : ∀ c ∈ back, isBlank c = true) :
    squeezed (text ++ back) = squeezed text := by
  have hback : squeezed back = squeezed [] := squeezed_eq_nil h
  rw [squeezed_append_congr hback, List.append_nil]

/-- A text and the same text without white space at its end are squeezed alike. -/
theorem squeezed_trimEnd (text : List Char) : squeezed (trimEnd text) = squeezed text := by
  have hsplit : trimEnd text ++ (text.reverse.takeWhile isBlank).reverse = text := by
    unfold trimEnd
    rw [← List.reverse_append, List.takeWhile_append_dropWhile, List.reverse_reverse]
  have hblank : ∀ c ∈ (text.reverse.takeWhile isBlank).reverse, isBlank c = true := by
    intro c hc
    have hall := List.all_takeWhile (l := text.reverse) (p := isBlank)
    exact List.all_eq_true.1 hall c (List.mem_reverse.1 hc)
  rw [← squeezed_append_of_blank hblank, hsplit]

theorem trimStart_gap (text : List Char) : trimStart (gap text) = trimStart text := by
  rcases gap_eq_nil_or_cons text with ⟨hgap, rfl⟩ | ⟨rest, hgap, rfl | rfl⟩
  · rfl
  · rw [hgap, trimStart_cons_of_blank isBlank_space]
  · rw [hgap]

theorem squeezed_trimStart (text : List Char) : squeezed (trimStart text) = trimStart (squeezed text) := by
  induction text with
  | nil => rfl
  | cons c rest ih =>
    cases hc : isBlank c with
    | true => rw [trimStart_cons_of_blank hc, squeezed_cons_of_blank hc, trimStart_gap, ih]
    | false => rw [trimStart_cons_of_not_blank hc, squeezed_cons_of_not_blank hc,
        trimStart_cons_of_not_blank hc]

theorem squeezed_trim (text : List Char) : squeezed (trim text) = trimStart (squeezed text) := by
  rw [trim, squeezed_trimEnd, squeezed_trimStart]

/-- What a text begins with is what it begins with when it is squeezed, white space apart. -/
theorem head?_squeezed (hd : isBlank d = false) :
    (squeezed text).head? = some d ↔ text.head? = some d := by
  cases text with
  | nil => rfl
  | cons c rest =>
    cases hc : isBlank c with
    | false => rw [squeezed_cons_of_not_blank hc, List.head?_cons, List.head?_cons]
    | true =>
      have hne : c ≠ d := by
        rintro rfl
        rw [hd] at hc
        cases hc
      have hspace : ' ' ≠ d := by
        rintro rfl
        rw [isBlank_space] at hd
        cases hd
      rw [squeezed_cons_of_blank hc]
      rcases gap_eq_nil_or_cons (squeezed rest) with ⟨hgap, -⟩ | ⟨more, hgap, -⟩
      · simp [hgap, hne]
      · simp [hgap, hne, hspace]

/-- The words of a text are those of the text when it is squeezed, also behind the same front. -/
theorem words_append_squeezed (hfront : Solid front) :
    words (front ++ squeezed text) = words (front ++ text) := by
  induction text generalizing front with
  | nil => rfl
  | cons c rest ih =>
    cases hc : isBlank c with
    | false =>
      have hmore : Solid (front ++ [c]) :=
        List.forall_mem_append.2 ⟨hfront, List.forall_mem_singleton.2 hc⟩
      have hrest := ih hmore
      rw [List.append_assoc, List.append_assoc] at hrest
      rw [squeezed_cons_of_not_blank hc]
      exact hrest
    | true =>
      have hrest : words (squeezed rest) = words rest := ih (List.forall_mem_nil _)
      rw [squeezed_cons_of_blank hc, words_append_cons hc, ← hrest]
      rcases gap_eq_nil_or_cons (squeezed rest) with ⟨hgap, hnil⟩ | ⟨more, hgap, hmore | hmore⟩
      · rw [hgap, hnil, words_nil, List.append_nil, List.append_nil]
      · rw [hgap, words_append_cons isBlank_space, hmore]
      · rw [hgap, words_append_cons isBlank_space, hmore, words_cons_of_blank isBlank_space]

@[simp] theorem words_squeezed (text : List Char) : words (squeezed text) = words text :=
  @words_append_squeezed text [] (List.forall_mem_nil _)

theorem words_eq_of_squeezed_eq (h : squeezed text = squeezed other) : words text = words other := by
  rw [← words_squeezed text, h, words_squeezed]

/-- A squeezed text has its words in a row, with a blank between neighbours: in front of the first one
there is what comes before the text, or a gap. By induction on the text, for both at once. -/
theorem squeezed_words (text : List Char) :
    (∀ front, Solid front → front ≠ [] →
      front ++ squeezed text = [' '].intercalate (words (front ++ text))) ∧
    gap (squeezed text) =
      if words text = [] then [] else ' ' :: [' '].intercalate (words text) := by
  induction text with
  | nil =>
    refine ⟨?_, rfl⟩
    intro front hfront hne
    rw [squeezed_nil, List.append_nil, words_of_solid hfront hne, List.intercalate_singleton]
  | cons c rest ih =>
    obtain ⟨hbehind, hgap⟩ := ih
    cases hc : isBlank c with
    | false =>
      have hone : c :: squeezed rest = [' '].intercalate (words (c :: rest)) :=
        hbehind [c] (List.forall_mem_singleton.2 hc) (List.cons_ne_nil c [])
      rw [squeezed_cons_of_not_blank hc]
      constructor
      · intro front hfront hne
        have hmore := hbehind (front ++ [c])
          (List.forall_mem_append.2 ⟨hfront, List.forall_mem_singleton.2 hc⟩) (by simp)
        rw [List.append_assoc, List.append_assoc] at hmore
        exact hmore
      · have hne : words (c :: rest) ≠ [] := by
          intro hnone
          rw [hnone] at hone
          cases hone
        rw [gap_cons hc, if_neg hne, hone]
    | true =>
      rw [squeezed_cons_of_blank hc, gap_gap, words_cons_of_blank hc]
      refine ⟨?_, hgap⟩
      intro front hfront hne
      rw [hgap, words_append_cons hc, words_of_solid hfront hne]
      by_cases hnone : words rest = []
      · rw [if_pos hnone, hnone, List.append_nil, List.append_nil, List.intercalate_singleton]
      · rw [if_neg hnone, List.singleton_append, List.intercalate_cons_of_ne_nil hnone,
          List.append_assoc, List.singleton_append]

/-- **Texts made of the same words** are squeezed alike, a blank in front of both. -/
theorem squeezed_eq_of_words_eq (h : words text = words other) :
    squeezed (' ' :: text) = squeezed (' ' :: other) := by
  rw [squeezed_cons_of_blank isBlank_space, squeezed_cons_of_blank isBlank_space, (squeezed_words text).2,
    (squeezed_words other).2, h]

end ModelMend.Text
