import ModelMend.Proofs.Source.Edits
import ModelMend.Proofs.Source.Parts
import ModelMend.Source.Mend

/-!
# What changed is what was counted

The statistics tell the truth about change: a source text is changed exactly when something has been
counted (`mend_changed_iff`). Each of the three steps keeps the text where it counts nothing. Where
they count, no combination of them gives the source text back: every removal and every reduction
takes a letter `s` away (`mend_essCount`), and the declaration that may be inserted holds none.
-/

namespace ModelMend

open Text

/-! ## Markers -/

/-- A marker holds the letter. -/
theorem essCount_pos_of_isMarker {line : Line} (h : isMarker line = true) : 0 < essCount line := by
  unfold isMarker at h
  simp only [Bool.and_eq_true] at h
  have hmarker : 0 < essCount markerText := by decide
  have hprefix := essCount_le_of_sublist (List.isPrefixOf_iff_prefix.1 h.1).sublist
  have hline := essCount_le_of_suffix (List.dropWhile_suffix isSpaceOrTab (l := line))
  omega

theorem withoutReturn_sublist (line : Line) : (withoutReturn line).Sublist line := by
  unfold withoutReturn
  split
  · exact List.dropLast_sublist line
  · exact List.Sublist.refl line

/-- Every marker taken out takes a letter away. -/
theorem dropMarkers_essCount (lines : List Line) :
    essCount (dropMarkers lines).1 + (dropMarkers lines).2 ≤ lineEssCount lines := by
  induction lines with
  | nil => exact Nat.le_refl _
  | cons line lines ih =>
    cases lines with
    | nil =>
      unfold dropMarkers
      split
      · next hmarker =>
        have := essCount_pos_of_isMarker hmarker
        simp only [essCount_nil, lineEssCount_cons]
        omega
      · simp
    | cons next lines =>
      unfold dropMarkers
      dsimp only
      rw [lineEssCount_cons line]
      split
      · next hmarker =>
        have hpos := essCount_pos_of_isMarker hmarker
        have hless := essCount_le_of_sublist (withoutReturn_sublist line)
        dsimp only
        omega
      · rw [essCount_append, essCount_cons_of_ne (by decide)]
        dsimp only
        omega

/-- Without a marker the text stays. -/
theorem dropMarkers_of_count_eq_zero {lines : List Line} (h : (dropMarkers lines).2 = 0) :
    (dropMarkers lines).1 = joinLines lines := by
  induction lines with
  | nil => rfl
  | cons line lines ih =>
    cases lines with
    | nil =>
      unfold dropMarkers at h ⊢
      split
      · next hmarker => simp [hmarker] at h
      · rfl
    | cons next lines =>
      unfold dropMarkers at h ⊢
      dsimp only at h ⊢
      split
      · next hmarker => simp [hmarker] at h
      · next hmarker =>
        simp only [hmarker, Bool.false_eq_true, ↓reduceIte] at h
        rw [joinLines_cons line (by simp), ih h]

theorem removeMarkers_essCount (text : List Char) :
    essCount (removeMarkers text).1 + (removeMarkers text).2 ≤ essCount text := by
  have h := dropMarkers_essCount (splitLines text)
  rw [← essCount_joinLines, joinLines_splitLines] at h
  exact h

theorem removeMarkers_of_count_eq_zero {text : List Char} (h : (removeMarkers text).2 = 0) :
    (removeMarkers text).1 = text := by
  have hsame := dropMarkers_of_count_eq_zero h
  rwa [joinLines_splitLines] at hsame

/-! ## The model -/

namespace ModelParts

theorem essCount_withBody (parts : ModelParts) (body : List Line) :
    essCount (parts.withBody body) =
      essCount parts.head + lineEssCount body + lineEssCount parts.tail := by
  rw [withBody, essCount_append, essCount_append, essCount_cons_of_ne (by decide),
    essCount_joinLines, essCount_joinLines]

end ModelParts

theorem mendModel_essCount (text : List Char) (stats : MendStats) :
    essCount (mendModel text stats).1 + (mendModel text stats).2.1.edits ≤
      essCount text + stats.edits := by
  unfold mendModel
  split
  · exact Nat.le_refl _
  · next parts hparts =>
    have hbody := mendBody_essCount stats parts.body
    have htext := congrArg essCount (ModelParts.withBody_of_find? hparts)
    dsimp only
    rw [ModelParts.essCount_withBody] at htext ⊢
    omega

theorem mendModel_edits_ge (text : List Char) (stats : MendStats) :
    stats.edits ≤ (mendModel text stats).2.1.edits := by
  unfold mendModel
  split
  · exact Nat.le_refl _
  · exact mendBody_edits_ge _ _

/-- The model is mended without an edit exactly where every segment of its body stays. -/
theorem mendModel_edits_eq_iff (text : List Char) (stats : MendStats) :
    (mendModel text stats).2.1.edits = stats.edits ↔
      ∀ parts, ModelParts.find? text = some parts →
        ∀ segment ∈ Body.segments parts.body, segment.stays := by
  unfold mendModel
  split
  · next hnone => simp [hnone]
  · next parts hparts =>
    dsimp only
    rw [mendBody_edits_eq_iff]
    constructor
    · intro h other hother
      rw [hparts] at hother
      cases hother
      exact h
    · intro h
      exact h parts hparts

/-- Without an edit the text stays. -/
theorem mendModel_of_edits_eq {text : List Char} {stats : MendStats}
    (h : (mendModel text stats).2.1.edits = stats.edits) : (mendModel text stats).1 = text := by
  have hstays := (mendModel_edits_eq_iff text stats).1 h
  unfold mendModel
  split
  · rfl
  · next parts hparts =>
    dsimp only
    rw [mendBody_of_stays (hstays parts hparts)]
    exact ModelParts.withBody_of_find? hparts

/-! ## The relation declaration -/

theorem withReturns_cons (c : Char) (text : List Char) :
    withReturns (c :: text) = (if c = '\n' then ['\r', '\n'] else [c]) ++ withReturns text := by
  rw [withReturns, List.flatMap_cons, withReturns]

theorem essCount_withReturns (text : List Char) : essCount (withReturns text) = essCount text := by
  induction text with
  | nil => rfl
  | cons c text ih =>
    rw [withReturns_cons, essCount_append, ih]
    split
    · next h =>
      subst h
      rw [essCount_cons_of_ne (by decide) text]
      exact Nat.zero_add _
    · rw [← essCount_append, List.singleton_append]

theorem withReturns_ne_nil {text : List Char} (h : text ≠ []) : withReturns text ≠ [] := by
  cases text with
  | nil => exact absurd rfl h
  | cons c text =>
    rw [withReturns_cons]
    split <;> simp

theorem essCount_gapAfter (before : List Char) : essCount (gapAfter before) = 0 := by
  unfold gapAfter
  split
  · rfl
  · split <;> rfl

theorem ensureRelation_of_not_inserted {text : List Char} (h : (ensureRelation text).2 = false) :
    (ensureRelation text).1 = text := by
  unfold ensureRelation at h ⊢
  split
  · rfl
  · split
    · rfl
    · simp_all

/-- The declaration adds to the text. -/
theorem ensureRelation_length_of_inserted {text : List Char} (h : (ensureRelation text).2 = true) :
    text.length < (ensureRelation text).1.length := by
  unfold ensureRelation at h ⊢
  split
  · simp_all
  · split
    · simp_all
    · next found hfound =>
      have hdeclaration : gapAfter found.before ++ emptyRelation ≠ [] :=
        List.append_ne_nil_of_right_ne_nil _ (by decide)
      dsimp only
      conv => lhs; rw [← Wording.find?_append hfound]
      simp only [List.length_append]
      split
      · have := List.length_pos_iff.2 (withReturns_ne_nil hdeclaration)
        omega
      · have := List.length_pos_iff.2 hdeclaration
        simp only [List.length_append] at this ⊢
        omega

/-- The declaration holds no letter `s`. -/
theorem ensureRelation_essCount (text : List Char) :
    essCount (ensureRelation text).1 = essCount text := by
  unfold ensureRelation
  split
  · rfl
  · split
    · rfl
    · next found hfound =>
      have hempty : essCount emptyRelation = 0 := by decide
      have hsplit := congrArg essCount (Wording.find?_append hfound)
      rw [essCount_append] at hsplit
      dsimp only
      split
      · rw [essCount_append, essCount_append, essCount_withReturns, essCount_append,
          essCount_gapAfter, hempty]
        omega
      · rw [essCount_append, essCount_append, essCount_append, essCount_gapAfter, hempty]
        omega

/-! ## The three steps together -/

/-- A source without its markers and with its model mended. -/
def modeled (source : List Char) : List Char × MendStats × List MendNote :=
  mendModel (removeMarkers source).1 { markersRemoved := (removeMarkers source).2 }

theorem mend_text (source : List Char) :
    (mend source).text = (ensureRelation (modeled source).1).1 := rfl

theorem mend_edits (source : List Char) :
    (mend source).stats.edits = (modeled source).2.1.edits := rfl

theorem mend_relationInserted (source : List Char) :
    (mend source).stats.relationInserted = (ensureRelation (modeled source).1).2 := rfl

/-- The edits of a source text and the letters `s` left in it are no more than the letters that
were there. -/
theorem mend_essCount (source : List Char) :
    essCount (mend source).text + (mend source).stats.edits ≤ essCount source := by
  have hmarkers := removeMarkers_essCount source
  have hmodel := mendModel_essCount (removeMarkers source).1
    { markersRemoved := (removeMarkers source).2 }
  rw [MendStats.edits_markersRemoved] at hmodel
  rw [mend_text, mend_edits, ensureRelation_essCount, modeled]
  omega

/-- Nothing was taken away exactly where there is no marker and every segment of the body stays. -/
theorem mend_edits_eq_zero_iff (source : List Char) :
    (mend source).stats.edits = 0 ↔ (removeMarkers source).2 = 0 ∧
      ∀ parts, ModelParts.find? source = some parts →
        ∀ segment ∈ Body.segments parts.body, segment.stays := by
  have hstays := mendModel_edits_eq_iff (removeMarkers source).1
    { markersRemoved := (removeMarkers source).2 }
  rw [MendStats.edits_markersRemoved] at hstays
  rw [mend_edits, modeled]
  constructor
  · intro h
    have hge := mendModel_edits_ge (removeMarkers source).1
      { markersRemoved := (removeMarkers source).2 }
    rw [MendStats.edits_markersRemoved] at hge
    have hzero : (removeMarkers source).2 = 0 := by omega
    have hbody := hstays.1 (h.trans hzero.symm)
    rw [removeMarkers_of_count_eq_zero hzero] at hbody
    exact ⟨hzero, hbody⟩
  · rintro ⟨hzero, hbody⟩
    rw [← removeMarkers_of_count_eq_zero hzero] at hbody
    rw [hstays.2 hbody, hzero]

/-- Where nothing was taken away, the relation declaration was looked for in the source itself. -/
theorem modeled_of_edits_eq_zero {source : List Char} (h : (mend source).stats.edits = 0) :
    (modeled source).1 = source := by
  obtain ⟨hzero, hbody⟩ := (mend_edits_eq_zero_iff source).1 h
  rw [modeled, removeMarkers_of_count_eq_zero hzero]
  exact mendModel_of_edits_eq ((mendModel_edits_eq_iff source _).2 hbody)

/-- A text stays the same exactly when nothing is counted. -/
theorem mend_text_eq_iff_stats (source : List Char) :
    (mend source).text = source ↔ (mend source).stats = {} := by
  rw [MendStats.eq_empty_iff]
  constructor
  · intro hsame
    have hletters := mend_essCount source
    rw [hsame] at hletters
    have hedits : (mend source).stats.edits = 0 := by omega
    have hmodeled := modeled_of_edits_eq_zero hedits
    refine ⟨hedits, ?_⟩
    rw [mend_text, hmodeled] at hsame
    rw [mend_relationInserted, hmodeled]
    cases hrelation : (ensureRelation source).2 with
    | false => rfl
    | true =>
      have hlonger := ensureRelation_length_of_inserted hrelation
      rw [hsame] at hlonger
      exact absurd hlonger (Nat.lt_irrefl _)
  · rintro ⟨hedits, hnone⟩
    have hmodeled := modeled_of_edits_eq_zero hedits
    rw [mend_relationInserted, hmodeled] at hnone
    rw [mend_text, hmodeled]
    exact ensureRelation_of_not_inserted hnone

/-- **The statistics tell the truth about change.** A text is reported as changed exactly when
something was counted; and the text that comes out is the source, character for character, exactly
when nothing was: no removals and insertion together ever give the source back. -/
theorem mend_changed_iff (source : List Char) :
    ((mend source).changed = true ↔ (mend source).stats ≠ {}) ∧
      ((mend source).text = source ↔ (mend source).stats = {}) := by
  have htext := mend_text_eq_iff_stats source
  have hchanged : (mend source).changed = decide ((mend source).text ≠ source) := rfl
  refine ⟨?_, htext⟩
  rw [hchanged, decide_eq_true_iff, Ne, htext]

end ModelMend
