import ModelMend.Proofs.Source.Settled

/-!
# Where a relation declaration goes

A declaration is inserted in front of the first place that implements the behaviour, where no relation
is declared, behind a blank line and in the line ends of the text (`ensureRelation_exact`). The text on
either side stays as it is, and with the declaration in it nothing is inserted again.
-/

namespace ModelMend

open Text

/-! ## Line ends -/

theorem usesReturns_eq_true_iff (text : List Char) :
    usesReturns text = true ↔ "\r\n".toList <:+: text := by
  induction text with
  | nil => decide
  | cons c rest ih =>
    rw [usesReturns, Bool.or_eq_true, Bool.and_eq_true, beq_iff_eq, beq_iff_eq, ih,
      List.infix_cons_iff]
    refine or_congr_left ?_
    constructor
    · rintro ⟨rfl, hhead⟩
      obtain ⟨more, rfl⟩ := List.head?_eq_some_iff.1 hhead
      exact ⟨more, rfl⟩
    · rintro ⟨more, hmore⟩
      obtain ⟨rfl, rfl⟩ := List.cons.inj hmore
      exact ⟨rfl, rfl⟩

/-- What ends the lines that are inserted into a text: a carriage return goes in front of the line feed
if it does so anywhere in the text. -/
def lineEnding (text : List Char) : List Char :=
  if usesReturns text then "\r\n".toList else "\n".toList

/-- The declaration of a relation enum without variants, with these line ends. -/
def relationLines (ending : List Char) : List Char :=
  "#[derive(Copy, Clone, Debug, EnumIter, DeriveRelation)]".toList ++ ending ++
    "pub enum Relation \x7b\x7d".toList ++ ending ++ ending

/-- The last line is blank: it holds nothing but the carriage return of its end. -/
def EndsInBlankLine (text : List Char) : Prop :=
  ∃ front, text = front ++ "\n\n".toList ∨ text = front ++ "\n\r\n".toList

/-! ## The gap -/

/-- The gap is made of line ends, and with it the text in front is empty or ends in a blank line. -/
theorem gapAfter_spec (before : List Char) : ∃ count ≤ 2,
    gapAfter before = (List.replicate count "\n".toList).flatten ∧
      withReturns (gapAfter before) = (List.replicate count "\r\n".toList).flatten ∧
      ∀ ending ∈ ["\n".toList, "\r\n".toList],
        before ++ (List.replicate count ending).flatten = [] ∨
          EndsInBlankLine (before ++ (List.replicate count ending).flatten) := by
  unfold gapAfter
  split
  · next hdone =>
    refine ⟨0, by decide, rfl, rfl, fun ending _ => ?_⟩
    simp only [List.replicate_zero, List.flatten_nil, List.append_nil]
    simp only [Bool.or_eq_true, List.isEmpty_iff, List.isSuffixOf_iff_suffix, or_assoc] at hdone
    rcases hdone with hempty | ⟨front, rfl⟩ | ⟨front, rfl⟩
    · exact Or.inl hempty
    · exact Or.inr ⟨front, Or.inl rfl⟩
    · exact Or.inr ⟨front ++ ['\r'], Or.inr (by simp)⟩
  · split
    · next hfeed =>
      obtain ⟨front, rfl⟩ := List.isSuffixOf_iff_suffix.1 hfeed
      refine ⟨1, by decide, rfl, rfl, fun ending hending => Or.inr ⟨front, ?_⟩⟩
      simp only [List.mem_cons, List.not_mem_nil, or_false] at hending
      rcases hending with rfl | rfl
      · exact Or.inl (List.append_assoc _ _ _)
      · exact Or.inr (List.append_assoc _ _ _)
    · refine ⟨2, by decide, rfl, rfl, fun ending hending => Or.inr ?_⟩
      simp only [List.mem_cons, List.not_mem_nil, or_false] at hending
      rcases hending with rfl | rfl
      · exact ⟨before, Or.inl rfl⟩
      · exact ⟨before ++ ['\r'], Or.inr (by simp)⟩

/-! ## The insertion -/

theorem ensureRelation_of_found {text : List Char} (hnone : relationHead.occursIn text = false)
    {found : Found} (hfound : behaviorHead.find? text = some found) : ∃ count ≤ 2,
      ensureRelation text =
        (found.before ++ (List.replicate count (lineEnding text)).flatten ++
          relationLines (lineEnding text) ++ found.onward, true) ∧
      (found.before ++ (List.replicate count (lineEnding text)).flatten = [] ∨
        EndsInBlankLine (found.before ++ (List.replicate count (lineEnding text)).flatten)) := by
  obtain ⟨count, hcount, hplain, hreturns, hblank⟩ := gapAfter_spec found.before
  refine ⟨count, hcount, ?_, hblank _ ?_⟩
  · have hflat : withReturns (gapAfter found.before ++ emptyRelation) =
        withReturns (gapAfter found.before) ++ withReturns emptyRelation :=
      List.flatMap_append
    have hempty : emptyRelation = relationLines "\n".toList := by decide
    have hemptyReturns : withReturns emptyRelation = relationLines "\r\n".toList := by decide
    unfold ensureRelation
    rw [hnone, hfound]
    simp only [Bool.false_eq_true, ↓reduceIte, Prod.mk.injEq, and_true, lineEnding]
    split
    · rw [hflat, hreturns, hemptyReturns, ← List.append_assoc found.before]
    · rw [hplain, hempty, ← List.append_assoc found.before]
  · unfold lineEnding
    split <;> simp

/-- **A relation declaration goes in front of the first behaviour, and only once.** A text that declares
a relation, or implements no behaviour, stays as it is. In any other the declaration comes right in front
of the first behaviour, with the line ends of the text, where the text before it and at most two line
ends are nothing or end in a blank line. With the declaration in it, the text stays as it is. -/
theorem ensureRelation_exact (text : List Char) :
    (((∃ front back, front ++ back = text ∧ relationHead.FitsAt front back) ∨
        ¬∃ front back, front ++ back = text ∧ behaviorHead.FitsAt front back) →
      ensureRelation text = (text, false)) ∧
    ((¬∃ front back, front ++ back = text ∧ relationHead.FitsAt front back) →
      (∃ front back, front ++ back = text ∧ behaviorHead.FitsAt front back) →
      ∃ before onward ending gap, before ++ onward = text ∧ behaviorHead.FitsFirst before onward ∧
        ("\r\n".toList <:+: text → ending = "\r\n".toList) ∧
        (¬"\r\n".toList <:+: text → ending = "\n".toList) ∧
        gap ∈ [[], ending, ending ++ ending] ∧
        ensureRelation text = (before ++ gap ++ relationLines ending ++ onward, true) ∧
        (before ++ gap = [] ∨ EndsInBlankLine (before ++ gap))) ∧
    ensureRelation (ensureRelation text).1 = ((ensureRelation text).1, false) := by
  simp only [← Wording.occursIn_iff, ← usesReturns_eq_true_iff, Bool.not_eq_true]
  refine ⟨fun h => ?_, fun hnone hbehavior => ?_, ?_⟩
  · have hinserted := (ensureRelation_not_inserted_iff text).2 h
    exact Prod.ext (ensureRelation_of_not_inserted hinserted) hinserted
  · obtain ⟨found, hfound⟩ := Option.isSome_iff_exists.1 hbehavior
    obtain ⟨count, hcount, hresult, hblank⟩ := ensureRelation_of_found hnone hfound
    refine ⟨found.before, found.onward, lineEnding text, _, Wording.find?_append hfound,
      Wording.find?_fitsFirst hfound, fun h => if_pos h, fun h => if_neg (by simp [h]), ?_, hresult,
      hblank⟩
    obtain rfl | rfl | rfl : count = 0 ∨ count = 1 ∨ count = 2 := by omega
    · simp
    · simp
    · simp [List.replicate_succ]
  · have hinserted := ensureRelation_inserts_once text
    exact Prod.ext (ensureRelation_of_not_inserted hinserted) hinserted

/-- A behaviour right below a line that ends in a carriage return, on one that does not. -/
def mixedCake : List Char :=
  "mod cake;\r\nimpl ActiveModelBehavior for ActiveModel \x7b\x7d\n".toList

/-- One blank line and the declaration are inserted, with carriage returns, and nothing afterwards. -/
theorem ensureRelation_exact_mixedCake :
    (¬∃ front back, front ++ back = mixedCake ∧ relationHead.FitsAt front back) ∧
      (∃ front back, front ++ back = mixedCake ∧ behaviorHead.FitsAt front back) ∧
      (∃ before onward ending gap, before ++ onward = mixedCake ∧
        ensureRelation mixedCake = (before ++ gap ++ relationLines ending ++ onward, true) ∧
        (before ++ gap = [] ∨ EndsInBlankLine (before ++ gap))) ∧
      (ensureRelation mixedCake).1 =
        ("mod cake;\r\n\r\n#[derive(Copy, Clone, Debug, EnumIter, DeriveRelation)]\r\n" ++
          "pub enum Relation \x7b\x7d\r\n\r\nimpl ActiveModelBehavior for ActiveModel \x7b\x7d\n").toList ∧
      (ensureRelation (ensureRelation mixedCake).1).2 = false := by
  have hnone : ¬∃ front back, front ++ back = mixedCake ∧ relationHead.FitsAt front back := by
    rw [← Wording.occursIn_iff]
    decide +kernel
  have hbehavior : ∃ front back, front ++ back = mixedCake ∧ behaviorHead.FitsAt front back :=
    Wording.occursIn_iff.1 (by decide +kernel)
  obtain ⟨-, hinserts, honce⟩ := ensureRelation_exact mixedCake
  obtain ⟨before, onward, ending, gap, happend, -, -, -, -, hresult, hblank⟩ :=
    hinserts hnone hbehavior
  exact ⟨hnone, hbehavior, ⟨before, onward, ending, gap, happend, hresult, hblank⟩,
    by decide +kernel, congrArg Prod.snd honce⟩

end ModelMend
