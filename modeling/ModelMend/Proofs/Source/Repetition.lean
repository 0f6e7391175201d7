import ModelMend.Proofs.Source.Settled
import ModelMend.Proofs.Text.Bytes

/-!
# Mending again and again

Mending a text once need not settle it, but mending it over and over does (`mending_settles`). The
measure is the number of letters `s`: what is taken away holds one, what is inserted holds none. A
step that inserts a declaration and takes nothing away leaves the measure alone, but only the first
step can be one: from then on a declaration is there or none is needed (`mend_related`). So from the
second step on every change lowers the measure, and a text without change stays for good.
-/

namespace ModelMend

open Text

/-! ## The letter among the bytes -/

/-- The number of bytes `s` in the encoding of a text. -/
def essBytes (text : List Char) : Nat :=
  (encode text).count 's'.toUInt8

/-- A byte `s` is a letter `s`: it is part of no other character. -/
theorem essBytes_eq_essCount (text : List Char) : essBytes text = essCount text :=
  count_encode (by decide) text

/-! ## One step after another -/

/-- The step takes nothing away and inserts a declaration. -/
def Mending.insertsOnly (mending : Mending) : Prop :=
  mending.stats.edits = 0 ∧ mending.stats.relationInserted = true

theorem essCount_mend_le (source : List Char) : essCount (mend source).text ≤ essCount source := by
  have := mend_essCount source
  omega

/-- A text that comes from mending has its declaration, or needs none. -/
theorem not_insertsOnly_mend_mend (source : List Char) :
    ¬(mend (mend source).text).insertsOnly := by
  rintro ⟨hedits, hinserted⟩
  have hnone := (ensureRelation_not_inserted_iff _).2 (mend_related source)
  rw [mend_relationInserted, modeled_of_edits_eq_zero hedits, hnone] at hinserted
  cases hinserted

/-- A change of a text that comes from mending takes a letter away. -/
theorem essCount_lt_of_changed_again {source : List Char}
    (h : (mend (mend source).text).text ≠ (mend source).text) :
    essCount (mend (mend source).text).text < essCount (mend source).text := by
  have hletters := mend_essCount (mend source).text
  have hedits : (mend (mend source).text).stats.edits ≠ 0 := by
    intro hzero
    refine h ((mend_text_eq_iff_stats _).2 ((MendStats.eq_empty_iff _).2 ⟨hzero, ?_⟩))
    rw [← Bool.not_eq_true]
    intro hinserted
    exact not_insertsOnly_mend_mend source ⟨hzero, hinserted⟩
  omega

/-! ## The texts of a run -/

/-- The text after mending a source this many times. -/
def mendedText (source : List Char) : Nat → List Char
  | 0 => source
  | times + 1 => (mend (mendedText source times)).text

theorem mendedText_mend (source : List Char) (times : Nat) :
    mendedText (mend source).text times = mendedText source (times + 1) := by
  induction times with
  | zero => rfl
  | succ times ih => rw [mendedText, ih, ← mendedText]

/-- Mending repeatedly mends the texts of the run one after the other. -/
theorem mendRepeatedly_eq (times : Nat) (source : List Char) :
    mendRepeatedly times source =
      (List.range times).map fun step => mend (mendedText source step) := by
  induction times generalizing source with
  | zero => rfl
  | succ times ih =>
    rw [mendRepeatedly, ih, List.range_succ_eq_map, List.map_cons, List.map_map]
    simp only [mendedText_mend]
    rfl

variable {source : List Char} {first later : Nat}

/-- A text that mending does not change stays for good. -/
theorem mendedText_of_unchanged (h : mendedText source (first + 1) = mendedText source first)
    (hle : first ≤ later) : mendedText source later = mendedText source first := by
  induction later with
  | zero =>
    cases Nat.le_zero.1 hle
    rfl
  | succ later ih =>
    rcases Nat.lt_or_eq_of_le hle with hlt | rfl
    · rw [mendedText, ih (Nat.le_of_lt_succ hlt), ← mendedText]
      exact h
    · rfl

/-- **From the second text on** a text either stays or has lost a letter. -/
theorem mendedText_eq_or_lt (hlt : first < later) :
    mendedText source later = mendedText source (first + 1) ∨
      essCount (mendedText source later) < essCount (mendedText source (first + 1)) := by
  induction later with
  | zero => exact absurd hlt (Nat.not_lt_zero first)
  | succ later ih =>
    rcases Nat.lt_or_eq_of_le (Nat.le_of_lt_succ hlt) with hless | rfl
    · have hpos : 0 < later := Nat.lt_of_le_of_lt (Nat.zero_le first) hless
      obtain ⟨before, rfl⟩ := Nat.exists_eq_add_one.2 hpos
      by_cases hsame : mendedText source (before + 1 + 1) = mendedText source (before + 1)
      · rw [hsame]
        exact ih hless
      · have hstep : essCount (mendedText source (before + 1 + 1)) <
            essCount (mendedText source (before + 1)) := essCount_lt_of_changed_again hsame
        rcases ih hless with heq | hfewer
        · exact Or.inr (heq ▸ hstep)
        · exact Or.inr (Nat.lt_trans hstep hfewer)
    · exact Or.inl rfl

/-- A text once left is never returned to. -/
theorem mendedText_ne_of_changed (h : mendedText source (first + 1) ≠ mendedText source first)
    (hlt : first < later) : mendedText source later ≠ mendedText source first := by
  intro hback
  have hstep : essCount (mendedText source (first + 1)) ≤ essCount (mendedText source first) :=
    essCount_mend_le _
  rcases mendedText_eq_or_lt hlt with heq | hfewer
  · exact h (heq ▸ hback)
  · rw [hback] at hfewer
    omega

/-- After this many steps the text stays, or each step behind the first has taken a letter. -/
theorem mendedText_settled_or (source : List Char) (steps : Nat) :
    mendedText source (steps + 1) = mendedText source steps ∨
      essCount (mendedText source (steps + 1)) + steps ≤ essCount source := by
  induction steps with
  | zero => exact Or.inr (essCount_mend_le source)
  | succ steps ih =>
    by_cases hsame : mendedText source (steps + 1 + 1) = mendedText source (steps + 1)
    · exact Or.inl hsame
    · have hstep : essCount (mendedText source (steps + 1 + 1)) <
          essCount (mendedText source (steps + 1)) := essCount_lt_of_changed_again hsame
      rcases ih with heq | hletters
      · exact absurd (congrArg (fun text => (mend text).text) heq) hsame
      · right
        omega

/-- One step more than there are letters settles the text. -/
theorem mendedText_settled (h : essCount source < first) (hle : first ≤ later) :
    mendedText source later = mendedText source first := by
  rcases mendedText_settled_or source first with heq | hletters
  · exact mendedText_of_unchanged heq hle
  · omega

/-- A run changes the text at most once more than there are letters in it. -/
theorem countP_changed_le (times : Nat) (source : List Char) :
    (mendRepeatedly times source).countP Mending.changed ≤ min times (essCount source + 1) := by
  rw [mendRepeatedly_eq]
  induction times with
  | zero => exact Nat.zero_le _
  | succ times ih =>
    rw [List.range_succ, List.map_append, List.countP_append]
    by_cases hlate : essCount source < times
    · have hsame : (mend (mendedText source times)).text = mendedText source times :=
        mendedText_settled hlate (Nat.le_succ times)
      have hunchanged : (mend (mendedText source times)).changed = false :=
        decide_eq_false (not_not_intro hsame)
      simp only [List.map_cons, List.map_nil, List.countP_cons, List.countP_nil, hunchanged]
      simp only [Bool.false_eq_true, ↓reduceIte, Nat.add_zero]
      omega
    · have hone : ([times].map fun step => mend (mendedText source step)).countP
          Mending.changed ≤ 1 := List.countP_le_length
      omega

/-- **Mending over and over settles and never cycles.** A text with this many bytes `s` changes in at
most twice as many steps and one more, a text once left never comes back, and from then on all texts
are equal. Behind this stands that an edit which takes something away lowers the number of these bytes
and an insertion leaves it alone, while only the first step can insert a declaration and do nothing
else. -/
theorem mending_settles (source : List Char) :
    (∀ times, (mendRepeatedly times source).countP Mending.changed ≤ 2 * essBytes source + 1) ∧
      (∀ first later, first < later → mendedText source (first + 1) ≠ mendedText source first →
        mendedText source later ≠ mendedText source first) ∧
      (∀ later, 2 * essBytes source + 1 ≤ later →
        mendedText source later = mendedText source (2 * essBytes source + 1)) ∧
      (∀ step, essBytes (mendedText source (step + 1)) +
          (mend (mendedText source step)).stats.edits ≤ essBytes (mendedText source step)) ∧
      (∀ text, essBytes (ensureRelation text).1 = essBytes text) ∧
      ∀ step, (mend (mendedText source step)).insertsOnly → step = 0 := by
  simp only [essBytes_eq_essCount]
  refine ⟨?_, ?_, ?_, ?_, ?_, ?_⟩
  · intro times
    have := countP_changed_le times source
    omega
  · intro first later hlt hchanged
    exact mendedText_ne_of_changed hchanged hlt
  · intro later hle
    exact mendedText_settled (by omega) hle
  · intro step
    exact mend_essCount _
  · exact ensureRelation_essCount
  · intro step hinserts
    cases step with
    | zero => rfl
    | succ step => exact absurd hinserts (not_insertsOnly_mend_mend _)

end ModelMend
