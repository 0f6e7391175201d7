import ModelMend.Proofs.Source.Change

/-!
# Texts with nothing left to mend

A text is settled when it holds no marker line, every segment of the body of its model stays, and it
needs no relation declaration. Mending leaves exactly the settled texts as they are
(`mend_text_eq_iff_settled`).

What mending gives need not be settled. A declaration is inserted only once
(`ensureRelation_inserts_once`), but a line that goes may leave an attribute block above a field that
it did not stand above before, and a declaration may set a marker apart from what followed it. So
mending a second time changes nothing exactly where the first result shows no marker line and no
segment that goes (`mend_idempotent_iff`).
-/

namespace ModelMend

open Text

/-- No line is a marker. A carriage return is part of the line end, except on the last line. -/
def MarkerFree (text : List Char) : Prop :=
  ∀ front line back, splitLines text = front ++ line :: back →
    isMarker (if back.isEmpty then line else withoutReturn line) = false

/-- Every segment of the body of the model stays. -/
def BodySettled (text : List Char) : Prop :=
  ∀ parts, ModelParts.find? text = some parts →
    ∀ segment ∈ Body.segments parts.body, segment.stays

/-- Nothing in the text is left to mend. -/
structure Settled (text : List Char) : Prop where
  markerFree : MarkerFree text
  bodySettled : BodySettled text
  /-- A relation is declared, or nothing needs one. -/
  related : relationHead.occursIn text = true ∨ behaviorHead.occursIn text = false

/-! ## Markers -/

theorem dropMarkers_count_eq_zero_iff (lines : List Line) :
    (dropMarkers lines).2 = 0 ↔ ∀ front line back, lines = front ++ line :: back →
      isMarker (if back.isEmpty then line else withoutReturn line) = false := by
  induction lines with
  | nil => simp [dropMarkers]
  | cons line lines ih =>
    have hsplit : (∀ front other back, line :: lines = front ++ other :: back →
        isMarker (if back.isEmpty then other else withoutReturn other) = false) ↔
        isMarker (if lines.isEmpty then line else withoutReturn line) = false ∧
          ∀ front other back, lines = front ++ other :: back →
            isMarker (if back.isEmpty then other else withoutReturn other) = false := by
      constructor
      · intro h
        exact ⟨h [] line lines rfl, fun front other back heq => h (line :: front) other back
          (by rw [heq, List.cons_append])⟩
      · rintro ⟨hline, hlines⟩ front other back heq
        rcases List.cons_eq_append_iff.1 heq with ⟨rfl, hcons⟩ | ⟨front', rfl, hlater⟩
        · cases hcons
          exact hline
        · exact hlines front' other back hlater
    rw [hsplit]
    cases lines with
    | nil =>
      unfold dropMarkers
      cases hmarker : isMarker line <;> simp [hmarker]
    | cons next lines =>
      unfold dropMarkers
      dsimp only
      rw [← ih]
      cases hmarker : isMarker (withoutReturn line) <;> simp [hmarker]

/-- Taking out the markers finds none exactly where no line is one. -/
theorem removeMarkers_count_eq_zero_iff (text : List Char) :
    (removeMarkers text).2 = 0 ↔ MarkerFree text :=
  dropMarkers_count_eq_zero_iff (splitLines text)

/-! ## The relation declaration -/

theorem ensureRelation_not_inserted_iff (text : List Char) :
    (ensureRelation text).2 = false ↔
      relationHead.occursIn text = true ∨ behaviorHead.occursIn text = false := by
  unfold ensureRelation
  split
  · next hrelation => simp [hrelation]
  · next hrelation =>
    split
    · next hnone => simp [Wording.occursIn, hnone]
    · next found hfound =>
      have hbehavior : behaviorHead.occursIn text = true := by
        rw [Wording.occursIn, hfound]
        rfl
      simp [hbehavior, hrelation]

theorem ensureRelation_inserted_iff (text : List Char) :
    (ensureRelation text).2 = true ↔
      relationHead.occursIn text = false ∧ behaviorHead.occursIn text = true := by
  rw [← Bool.not_eq_false, ensureRelation_not_inserted_iff]
  simp

/-- A text with an empty relation enum in it declares a relation, in either style of line ends. -/
theorem relationHead_occursIn_declaration (before onward : List Char) :
    relationHead.occursIn (before ++ emptyRelation ++ onward) = true ∧
      relationHead.occursIn (before ++ withReturns emptyRelation ++ onward) = true := by
  have hattribute : emptyRelation =
      "#[derive(Copy, Clone, Debug, EnumIter, DeriveRelation)]\n".toList ++
        "pub enum Relation \x7b\x7d\n\n".toList := by decide
  have hreturns : withReturns emptyRelation =
      "#[derive(Copy, Clone, Debug, EnumIter, DeriveRelation)]\r\n".toList ++
        "pub enum Relation \x7b\x7d\r\n\r\n".toList := by decide
  constructor
  · rw [hattribute, ← List.append_assoc, List.append_assoc]
    refine Wording.occursIn_append ?_
    rw [List.getLast?_append]
    rfl
  · rw [hreturns, ← List.append_assoc, List.append_assoc]
    refine Wording.occursIn_append ?_
    rw [List.getLast?_append]
    rfl

/-- **A declaration is inserted only once.** -/
theorem ensureRelation_inserts_once (text : List Char) :
    (ensureRelation (ensureRelation text).1).2 = false := by
  cases hinserted : (ensureRelation text).2 with
  | false => rw [ensureRelation_of_not_inserted hinserted, hinserted]
  | true =>
    refine (ensureRelation_not_inserted_iff _).2 (Or.inl ?_)
    unfold ensureRelation at hinserted ⊢
    split
    · simp_all
    · split
      · simp_all
      · next found hfound =>
        dsimp only
        split
        · have hflat : withReturns (gapAfter found.before ++ emptyRelation) =
              withReturns (gapAfter found.before) ++ withReturns emptyRelation :=
            List.flatMap_append
          rw [hflat, ← List.append_assoc]
          exact (relationHead_occursIn_declaration _ _).2
        · rw [← List.append_assoc]
          exact (relationHead_occursIn_declaration _ _).1

/-! ## Settled texts -/

/-- Nothing is counted exactly in a settled text. -/
theorem mend_stats_eq_empty_iff_settled (text : List Char) :
    (mend text).stats = {} ↔ Settled text := by
  rw [MendStats.eq_empty_iff, mend_edits_eq_zero_iff, removeMarkers_count_eq_zero_iff]
  constructor
  · rintro ⟨⟨hmarker, hbody⟩, hinserted⟩
    have hedits : (mend text).stats.edits = 0 :=
      (mend_edits_eq_zero_iff text).2 ⟨(removeMarkers_count_eq_zero_iff text).2 hmarker, hbody⟩
    rw [mend_relationInserted, modeled_of_edits_eq_zero hedits] at hinserted
    exact ⟨hmarker, hbody, (ensureRelation_not_inserted_iff text).1 hinserted⟩
  · rintro ⟨hmarker, hbody, hrelated⟩
    have hedits : (mend text).stats.edits = 0 :=
      (mend_edits_eq_zero_iff text).2 ⟨(removeMarkers_count_eq_zero_iff text).2 hmarker, hbody⟩
    refine ⟨⟨hmarker, hbody⟩, ?_⟩
    rw [mend_relationInserted, modeled_of_edits_eq_zero hedits]
    exact (ensureRelation_not_inserted_iff text).2 hrelated

/-- **Mending leaves exactly the settled texts as they are.** -/
theorem mend_text_eq_iff_settled (text : List Char) : (mend text).text = text ↔ Settled text :=
  (mend_text_eq_iff_stats text).trans (mend_stats_eq_empty_iff_settled text)

/-- What mending gives declares a relation, or nothing in it needs one. -/
theorem mend_related (source : List Char) :
    relationHead.occursIn (mend source).text = true ∨
      behaviorHead.occursIn (mend source).text = false :=
  (ensureRelation_not_inserted_iff _).1 (ensureRelation_inserts_once (modeled source).1)

/-! ## Mending twice -/

/-- **Mending a second time changes nothing** exactly where the first result holds no marker line
and every segment of the body in it stays. -/
theorem mend_idempotent_iff (source : List Char) :
    ((mend (mend source).text).text = (mend source).text ∧
        (mend (mend source).text).changed = false) ↔
      MarkerFree (mend source).text ∧ BodySettled (mend source).text := by
  have hchanged : (mend (mend source).text).changed =
      decide ((mend (mend source).text).text ≠ (mend source).text) := rfl
  rw [hchanged, decide_eq_false_iff_not, Decidable.not_not, and_self, mend_text_eq_iff_settled]
  constructor
  · intro h
    exact ⟨h.markerFree, h.bodySettled⟩
  · rintro ⟨hmarker, hbody⟩
    exact ⟨hmarker, hbody, mend_related source⟩

/-- A relationship block above a container that is cut off, and a field below. -/
def cutOffContainer : List Char :=
  "pub struct Model \x7b\n    #[sea_orm(has_many)]\n    HasMany<\n    pub id: i32,\n\x7d\n".toList

/-- The first time the container goes and its block stays; the second time the block takes the
field below along. -/
theorem mend_not_idempotent :
    (mend (mend cutOffContainer).text).text ≠ (mend cutOffContainer).text ∧
      (mend (mend cutOffContainer).text).changed = true ∧
      (mend (mend cutOffContainer).text).stats = { fieldsDropped := 1 } := by
  decide +kernel

end ModelMend
