import ModelMend.Proofs.Entity.Letter
import ModelMend.Proofs.Entity.Restoration
import ModelMend.Source.Model

/-!
# Edits of a body

A segment stays when nothing happens to it: a unit that is kept, or lines that pass through. Writing
a segment that stays writes its lines and counts nothing; writing any other counts an edit and loses
a letter `s` for each edit. Over a whole body the edits and the letters that are left are no more than
the letters that were there (`mendBody_essCount`). Nothing is edited exactly if every segment stays
(`mendBody_edits_eq_iff`), and then the lines are the same.
-/

namespace ModelMend

open Text

/-- The number of edits that take something away. -/
def MendStats.edits (stats : MendStats) : Nat :=
  stats.markersRemoved + stats.fieldsDropped + stats.blocksReduced + stats.orphansDropped

@[simp] theorem MendStats.edits_markersRemoved (count : Nat) :
    ({ markersRemoved := count } : MendStats).edits = count := by
  simp [edits]

theorem MendStats.eq_empty_iff (stats : MendStats) :
    stats = {} ↔ stats.edits = 0 ∧ stats.relationInserted = false := by
  constructor
  · rintro rfl
    exact ⟨rfl, rfl⟩
  · obtain ⟨markers, fields, blocks, orphans, inserted⟩ := stats
    rintro ⟨hedits, hinserted⟩
    simp only [edits] at hedits
    simp only [MendStats.mk.injEq]
    refine ⟨?_, ?_, ?_, ?_, hinserted⟩ <;> omega

/-- Nothing happens to the segment when a body is mended. -/
def Segment.stays : Segment → Bool
  | .field unit => unit.action = .keep
  | .orphan _ => false
  | .verbatim _ => true

/-! ## Counting what a unit loses -/

namespace FieldUnit

namespace Rendering

/-- The number of blocks reduced is that of the blocks with `belongs_to`. -/
theorem foldl_write_strip_reduced (items : List Leading) (out : Rendering) :
    (items.foldl (write .stripBelongsTo) out).reduced =
      out.reduced + (items.filterMap Leading.directives?).countP Directives.belongsTo := by
  induction items generalizing out with
  | nil => rfl
  | cons item items ih =>
    rw [List.foldl_cons, ih]
    cases item with
    | line text =>
      have hnone : (Leading.line text).directives? = none := rfl
      simp [write, hnone]
    | block lines =>
      cases hdirectives : (Leading.block lines).directives? with
      | none => simp [write, hdirectives]
      | some directives =>
        cases hbelongs : directives.belongsTo <;>
          simp [write, hdirectives, hbelongs, Option.filter]
        omega

end Rendering

theorem renderInto_keep_reduced (unit : FieldUnit) (out : List Line) :
    (unit.renderInto .keep out).2 = 0 := by
  unfold renderInto
  simp only [reduceCtorEq, ↓reduceIte]
  split <;> simp [Rendering.foldl_write_keep_reduced]

theorem renderInto_strip_reduced (unit : FieldUnit) (out : List Line) :
    (unit.renderInto .stripBelongsTo out).2 = unit.directives.countP Directives.belongsTo := by
  unfold renderInto
  simp only [reduceCtorEq, ↓reduceIte]
  split <;> simp [Rendering.foldl_write_strip_reduced, directives]

theorem countP_belongsTo_pos {unit : FieldUnit} (h : unit.action = .stripBelongsTo) :
    0 < unit.directives.countP Directives.belongsTo := by
  unfold action at h
  split at h
  · cases h
  · split at h
    · next hany => exact List.countP_pos_iff.2 (List.any_eq_true.1 hany)
    · cases h

/-- A unit that is kept keeps its letters. -/
theorem renderInto_keep_essCount (unit : FieldUnit) (out : List Line) :
    lineEssCount (unit.renderInto .keep out).1 = lineEssCount out + lineEssCount unit.allLines := by
  obtain ⟨leading, field, sharesLine⟩ := unit
  simp only [renderInto, reduceCtorEq, ↓reduceIte, allLines, lineEssCount_append]
  have hlines := Rendering.foldl_write_keep_lines leading { lines := out }
  split
  · split
    · simp only [lineEssCount_append, Rendering.appendToLast_essCount, lineEssCount_cons, hlines]
      omega
    · simp only [lineEssCount_append, lineEssCount_cons, lineEssCount_nil, essCount_append,
        essCount_indentation, essCount_trimStart, hlines]
      omega
  · simp only [lineEssCount_append, hlines, Nat.add_assoc]

end FieldUnit

/-! ## One segment -/

namespace Body

theorem readUnit_segment_ne_orphan (lines : List Line) (read : LeadingRun) (line : Line) :
    (readUnit lines read).segment ≠ .orphan line := by
  unfold readUnit
  split
  · simp
  · split <;> simp
  · split <;> simp
  · dsimp only
    split <;> simp

/-- A line that goes as an orphan is a bare container. -/
theorem orphanRelation_of_readSegment {line orphan : Line} {lines : List Line}
    (h : (readSegment line lines).segment = .orphan orphan) :
    LineKind.of orphan = .orphanRelation := by
  unfold readSegment at h
  dsimp only at h
  split at h
  · exact absurd h (readUnit_segment_ne_orphan _ _ _)
  · split at h
    · next hkind =>
      cases h
      exact hkind
    · cases h

end Body

namespace BodyMend

/-- A segment that stays is written as it was read. -/
theorem write_of_stays {segment : Segment} (h : segment.stays = true) (out : BodyMend) :
    out.write segment = { out with lines := segment.restoreOnto out.lines } := by
  cases segment with
  | field unit =>
    have hkeep : unit.action = .keep := of_decide_eq_true h
    simp [write, hkeep, FieldUnit.renderInto_keep_reduced, Segment.restoreOnto]
  | orphan line => cases h
  | verbatim lines => rfl

/-- Any other segment counts as an edit. -/
theorem edits_lt_write {segment : Segment} (h : segment.stays = false) (out : BodyMend) :
    out.stats.edits < (out.write segment).stats.edits := by
  cases segment with
  | field unit =>
    have hkeep : unit.action ≠ .keep := of_decide_eq_false h
    cases haction : unit.action with
    | keep => exact absurd haction hkeep
    | drop =>
      simp only [write, haction, ↓reduceIte, FieldUnit.renderInto_drop, MendStats.edits]
      omega
    | stripBelongsTo =>
      have hpos := FieldUnit.countP_belongsTo_pos haction
      simp only [write, haction, reduceCtorEq, ↓reduceIte, FieldUnit.renderInto_strip_reduced,
        MendStats.edits]
      omega
  | orphan line =>
    simp only [write, MendStats.edits]
    omega
  | verbatim lines => cases h

/-- **Every edit takes a letter `s` away**, and nothing adds one. -/
theorem write_essCount (line : Line) (lines : List Line) (out : BodyMend) :
    lineEssCount (out.write (Body.readSegment line lines).segment).lines +
        (out.write (Body.readSegment line lines).segment).stats.edits ≤
      lineEssCount out.lines + out.stats.edits +
        lineEssCount ((Body.readSegment line lines).segment.restoreOnto []) := by
  cases hsegment : (Body.readSegment line lines).segment with
  | verbatim passed =>
    simp only [write, Segment.restoreOnto, lineEssCount_append, List.nil_append]
    omega
  | orphan orphan =>
    have hpos := essCount_pos_of_orphanRelation (Body.orphanRelation_of_readSegment hsegment)
    simp only [write, Segment.restoreOnto, MendStats.edits, List.nil_append, lineEssCount_cons]
    omega
  | field unit =>
    simp only [Segment.restoreOnto, FieldUnit.renderInto_keep_essCount, lineEssCount_nil,
      Nat.zero_add]
    by_cases hdrop : unit.action = .drop
    · have hpos := FieldUnit.essCount_pos_of_drop hdrop
      simp only [write, hdrop, ↓reduceIte, FieldUnit.renderInto_drop, MendStats.edits]
      omega
    · have hrender := unit.renderInto_essCount hdrop out.lines
      simp only [write, hdrop, ↓reduceIte, MendStats.edits]
      omega

end BodyMend

/-! ## A whole body -/

namespace Body

theorem foldl_write_essCount (lines : List Line) (out : BodyMend) :
    lineEssCount ((segments lines).foldl BodyMend.write out).lines +
        ((segments lines).foldl BodyMend.write out).stats.edits ≤
      lineEssCount out.lines + out.stats.edits + lineEssCount lines := by
  induction lines using segments.induct generalizing out with
  | case1 => simp
  | case2 line lines ih =>
    rw [segments_cons, List.foldl_cons]
    have hstep := BodyMend.write_essCount line lines out
    have hrest := ih (out.write (readSegment line lines).segment)
    have hall := congrArg lineEssCount (readSegment_restore line lines [])
    rw [lineEssCount_append, List.nil_append] at hall
    omega

theorem edits_le_foldl_write (segments : List Segment) (out : BodyMend) :
    out.stats.edits ≤ (segments.foldl BodyMend.write out).stats.edits := by
  induction segments generalizing out with
  | nil => exact Nat.le_refl _
  | cons segment segments ih =>
    refine Nat.le_trans ?_ (ih (out.write segment))
    cases hstays : segment.stays with
    | true =>
      have hwrite : (out.write segment).stats.edits = out.stats.edits := by
        rw [BodyMend.write_of_stays hstays]
      exact Nat.le_of_eq hwrite.symm
    | false => exact Nat.le_of_lt (BodyMend.edits_lt_write hstays out)

/-- Segments that stay are written as they were read. -/
theorem foldl_write_of_stays {segments : List Segment} (h : ∀ segment ∈ segments, segment.stays)
    (out : BodyMend) :
    segments.foldl BodyMend.write out =
      { out with lines := segments.foldl Segment.restoreOnto out.lines } := by
  induction segments generalizing out with
  | nil => rfl
  | cons segment segments ih =>
    rw [List.foldl_cons, BodyMend.write_of_stays (h segment List.mem_cons_self),
      ih fun later hmem => h later (List.mem_cons_of_mem _ hmem)]
    rfl

/-- No edit is counted exactly where every segment stays. -/
theorem foldl_write_edits_eq_iff (segments : List Segment) (out : BodyMend) :
    (segments.foldl BodyMend.write out).stats.edits = out.stats.edits ↔
      ∀ segment ∈ segments, segment.stays := by
  constructor
  · intro h
    induction segments generalizing out with
    | nil => intro segment hmem; cases hmem
    | cons segment segments ih =>
      rw [List.foldl_cons] at h
      have hlater := edits_le_foldl_write segments (out.write segment)
      cases hstays : segment.stays with
      | false =>
        have := BodyMend.edits_lt_write hstays out
        omega
      | true =>
        have hsame : (out.write segment).stats = out.stats := by
          rw [BodyMend.write_of_stays hstays]
        rw [← hsame] at h
        intro later hmem
        rcases List.mem_cons.1 hmem with rfl | hmem
        · exact hstays
        · exact ih _ h later hmem
  · intro h
    rw [foldl_write_of_stays h]

end Body

/-- The edits of a body and the letters `s` left in it are no more than the letters that were
there. -/
theorem mendBody_essCount (stats : MendStats) (body : List Line) :
    lineEssCount (mendBody stats body).lines + (mendBody stats body).stats.edits ≤
      lineEssCount body + stats.edits := by
  have h := Body.foldl_write_essCount body ⟨[], stats, []⟩
  simp only [lineEssCount_nil] at h
  unfold mendBody
  omega

theorem mendBody_edits_ge (stats : MendStats) (body : List Line) :
    stats.edits ≤ (mendBody stats body).stats.edits :=
  Body.edits_le_foldl_write _ ⟨[], stats, []⟩

/-- **A body is mended without an edit exactly where all of its segments stay.** -/
theorem mendBody_edits_eq_iff (stats : MendStats) (body : List Line) :
    (mendBody stats body).stats.edits = stats.edits ↔
      ∀ segment ∈ Body.segments body, segment.stays :=
  Body.foldl_write_edits_eq_iff _ _

/-- Where all segments stay, mending changes nothing. -/
theorem mendBody_of_stays {body : List Line} (h : ∀ segment ∈ Body.segments body, segment.stays)
    (stats : MendStats) : mendBody stats body = ⟨body, stats, []⟩ := by
  unfold mendBody
  rw [Body.foldl_write_of_stays h, Body.segments_foldl_restoreOnto, List.nil_append]

end ModelMend
