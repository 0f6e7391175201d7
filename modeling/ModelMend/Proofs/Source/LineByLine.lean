import Mathlib.Data.List.DropRight
import Mathlib.Data.List.Forall2
import ModelMend.Proofs.Entity.Appending
import ModelMend.Proofs.Entity.LineLaw
import ModelMend.Proofs.Source.LineEnds

/-!
# A body is mended line by line

Mending goes through the lines of a body in order. It keeps a line, takes it away, or puts one in its
place that is new: a block reduced to its key flags, with or without a field behind it, or a field that
had its block in front of it (`mendBody_lineByLine`). So what is written behind the first line is new,
or it was behind the first line before (`LineByLine.forall_mem_tail`).
-/

namespace ModelMend

open Text

/-- A line that may be written in the place of another. -/
inductive StandsFor : Line → Line → Prop
  | same (line : Line) : StandsFor line line
  /-- A block that was reduced to its key flags. -/
  | reduced {line : Line} (keyFlags : "#[sea_orm(".toList <:+: line) (old : Line) : StandsFor line old
  /-- A field that was moved to a line of its own. -/
  | moved {line : Line} (field : LineKind.of line = .field) (old : Line) : StandsFor line old

/-- These lines stand for some of those, in the same order. -/
abbrev LineByLine (lines old : List Line) : Prop :=
  List.SublistForall₂ StandsFor lines old

namespace LineByLine

instance : Std.Refl StandsFor := ⟨.same⟩

theorem refl (lines : List Line) : LineByLine lines lines :=
  (List.Sublist.refl lines).sublistForall₂

theorem append {front oldFront back oldBack : List Line} (hfront : LineByLine front oldFront)
    (hback : LineByLine back oldBack) : LineByLine (front ++ back) (oldFront ++ oldBack) := by
  obtain ⟨keptFront, hstandFront, hsubFront⟩ := List.sublistForall₂_iff.1 hfront
  obtain ⟨keptBack, hstandBack, hsubBack⟩ := List.sublistForall₂_iff.1 hback
  exact List.sublistForall₂_iff.2
    ⟨_, List.rel_append hstandFront hstandBack, hsubFront.append hsubBack⟩

/-- Some line of a run is replaced, the others are taken away. -/
theorem singleton {line old : Line} (h : StandsFor line old) {lines : List Line}
    (hmem : old ∈ lines) : LineByLine [line] lines :=
  List.sublistForall₂_iff.2 ⟨[old], .cons h .nil, List.singleton_sublist.2 hmem⟩

/-- What holds of all new lines, and of all old lines behind the first, holds of all lines behind the
first. -/
theorem forall_mem_tail {Holds : Line → Prop} {lines old : List Line} (h : LineByLine lines old)
    (hreduced : ∀ line, "#[sea_orm(".toList <:+: line → Holds line)
    (hmoved : ∀ line, LineKind.of line = .field → Holds line)
    (hold : ∀ line ∈ old.tail, Holds line) : ∀ line ∈ lines.tail, Holds line := by
  have hall {lines old : List Line} (h : LineByLine lines old) (hold : ∀ line ∈ old, Holds line) :
      ∀ line ∈ lines, Holds line := by
    induction h with
    | nil => exact List.forall_mem_nil _
    | cons hstands _ ih =>
      obtain ⟨hfirst, hmore⟩ := List.forall_mem_cons.1 hold
      refine List.forall_mem_cons.2 ⟨?_, ih hmore⟩
      cases hstands with
      | same => exact hfirst
      | reduced keyFlags => exact hreduced _ keyFlags
      | moved field => exact hmoved _ field
    | cons_right _ ih => exact ih (List.forall_mem_cons.1 hold).2
  cases h with
  | nil => exact List.forall_mem_nil _
  | cons _ hmore => exact hall hmore hold
  | cons_right hmore => exact fun line hline => hall hmore hold line (List.mem_of_mem_tail hline)

end LineByLine

/-! ## Units -/

theorem keyFlags_infix_reducedBlock {block : List Line} {directives : Directives} {line : Line}
    (h : reducedBlock block directives = some line) (back : Line) :
    "#[sea_orm(".toList <:+: line ++ back := by
  have hflags {indentation flags : List Char}
      (h : directives.keyFlagsAttribute indentation = some flags) :
      "#[sea_orm(".toList <:+: flags := by
    unfold Directives.keyFlagsAttribute at h
    obtain ⟨inside, -, rfl⟩ := Option.map_eq_some_iff.1 h
    exact ⟨indentation, inside ++ ")]".toList, by simp⟩
  refine List.IsInfix.trans ?_ (List.prefix_append line back).isInfix
  unfold reducedBlock at h
  split at h
  · cases h
  · dsimp only at h
    split at h
    · obtain ⟨flags, hline, rfl⟩ := Option.map_eq_some_iff.1 h
      exact (hflags hline).trans (List.prefix_append flags _).isInfix
    · exact hflags h

/-- A block that is reduced to a line has lines. -/
theorem exists_mem_of_reducedBlock {block : List Line} {directives : Directives} {line : Line}
    (h : reducedBlock block directives = some line) : ∃ first, first ∈ block := by
  unfold reducedBlock at h
  split at h
  · cases h
  · next first hfirst => exact ⟨first, List.mem_of_head? hfirst⟩

namespace FieldUnit

variable {action : FieldAction}

theorem Rendering.write_lineByLine (item : Leading) :
    LineByLine (write action { lines := [] } item).lines item.lines := by
  cases item with
  | line text => exact .refl [text]
  | block lines =>
    unfold write
    dsimp only
    split
    · next directives hdirectives =>
      cases hreduced : reducedBlock lines directives with
      | none => exact .nil
      | some line =>
        obtain ⟨first, hfirst⟩ := exists_mem_of_reducedBlock hreduced
        have hkeyFlags := keyFlags_infix_reducedBlock hreduced []
        rw [List.append_nil] at hkeyFlags
        exact .singleton (.reduced hkeyFlags first) hfirst
    · exact .refl lines

theorem Rendering.foldl_write_lineByLine (items : List Leading) :
    LineByLine (items.foldl (write action) { lines := [] }).lines
      (items.flatMap Leading.lines) := by
  rw [foldl_write_lines, List.nil_append]
  induction items with
  | nil => exact .nil
  | cons item items ih => exact (write_lineByLine item).append ih

theorem kind_moved {first : Line} (h : LineKind.of first = .field) (above : Line) :
    LineKind.of (indent above ++ trimStart first) = .field := by
  have hblank : ∀ c ∈ indent above, isBlank c = true := fun c => isBlank_of_mem_indent
  have htrim : trimStart (trimStart first) = trimStart first := List.dropWhile_idempotent _ first
  rw [LineKind.of, trim, trimStart_append_of_blank hblank, htrim, ← trim, ← LineKind.of, h]

/-- The last block of a unit and the field behind it. -/
theorem renderInto_shared_lineByLine {front : List Leading} {block : List Line} {last first : Line}
    (more : List Line) (hkind : LineKind.of first = .field) (haction : action ≠ .drop) :
    LineByLine
      (renderInto ⟨front ++ [.block (block ++ [last])], first :: more, true⟩ action []).1
      (front.flatMap Leading.lines ++ block ++ (last ++ first) :: more) := by
  have hbefore : LineByLine (front.foldl (Rendering.write action) { lines := [] }).lines
      (front.flatMap Leading.lines) := Rendering.foldl_write_lineByLine front
  obtain ⟨above, hindent, -⟩ := indentation_eq front block (first :: more) last true
  simp only [renderInto, haction, ↓reduceIte, List.foldl_append, List.foldl_cons, List.foldl_nil,
    hindent]
  generalize front.foldl (Rendering.write action) { lines := [] } = before at hbefore ⊢
  suffices hlines : LineByLine (if (before.write action (.block (block ++ [last]))).glue then
      Rendering.appendToLast (before.write action (.block (block ++ [last]))).lines first
      else (before.write action (.block (block ++ [last]))).lines ++
        [indent above ++ trimStart first])
      (front.flatMap Leading.lines ++ (block ++ [last ++ first])) by
    simpa using hlines.append (.refl more)
  unfold Rendering.write
  dsimp only
  split
  · next directives hdirectives =>
    have hshared : last ++ first ∈ block ++ [last ++ first] := by simp
    cases hreduced : reducedBlock (block ++ [last]) directives with
    | none =>
      have hmoved := StandsFor.moved (kind_moved hkind above) (last ++ first)
      simpa using hbefore.append (.singleton hmoved hshared)
    | some line =>
      have hglued := StandsFor.reduced (keyFlags_infix_reducedBlock hreduced first) (last ++ first)
      simpa using hbefore.append (.singleton hglued hshared)
  · rw [if_pos (by simp), ← List.append_assoc, Rendering.appendToLast_concat, List.append_assoc]
    exact hbefore.append (.refl _)

/-- **A unit is written line by line.** -/
theorem renderInto_lineByLine {unit : FieldUnit} {taken : List Line} (h : unit.StandsOn taken)
    (action : FieldAction) : LineByLine (unit.renderInto action []).1 taken := by
  by_cases haction : action = .drop
  · rw [haction, renderInto_drop]
    exact .nil
  · cases h with
    | apart =>
      simp only [renderInto, haction, ↓reduceIte]
      exact (Rendering.foldl_write_lineByLine _).append (.refl _)
    | @shared _ _ _ _ more starts => exact renderInto_shared_lineByLine more starts haction

end FieldUnit

/-! ## Bodies -/

/-- What a segment writes does not depend on what was written before. -/
theorem BodyMend.write_append (out : BodyMend) (stats : MendStats) (notes : List MendNote)
    (segment : Segment) :
    (out.write segment).lines = out.lines ++ (BodyMend.write ⟨[], stats, notes⟩ segment).lines := by
  cases segment with
  | verbatim lines => rfl
  | orphan line => exact (List.append_nil _).symm
  | field unit =>
    have happend := unit.renderInto_append unit.action out.lines
    simp only [write]
    split <;> exact happend

theorem BodyMend.foldl_write_append (segments : List Segment) (out : BodyMend) (stats : MendStats)
    (notes : List MendNote) :
    (segments.foldl write out).lines =
      out.lines ++ (segments.foldl write ⟨[], stats, notes⟩).lines := by
  induction segments generalizing out stats notes with
  | nil => exact (List.append_nil _).symm
  | cons segment segments ih =>
    rw [List.foldl_cons, List.foldl_cons, ih _ stats notes,
      ih (BodyMend.write ⟨[], stats, notes⟩ segment) stats notes, write_append out stats notes,
      List.append_assoc]

theorem BodyMend.write_lineByLine {segment : Segment} {taken : List Line}
    (h : segment.Covers taken) (stats : MendStats) (notes : List MendNote) :
    LineByLine (BodyMend.write ⟨[], stats, notes⟩ segment).lines taken := by
  cases segment with
  | orphan line => exact .nil
  | verbatim lines =>
    have hlines : taken = lines := h
    rw [hlines]
    exact .refl lines
  | field unit =>
    have hrender := FieldUnit.renderInto_lineByLine h unit.action
    unfold write
    dsimp only
    split <;> exact hrender

/-- **A body is mended line by line.** -/
theorem mendBody_lineByLine (stats : MendStats) (body : List Line) :
    LineByLine (mendBody stats body).lines body := by
  unfold mendBody
  induction body using Body.segments.induct with
  | case1 =>
    rw [Body.segments_nil]
    exact .nil
  | case2 line lines ih =>
    obtain ⟨taken, hcovers, hlines⟩ := Body.readSegment_covers line lines
    rw [Body.segments_cons, List.foldl_cons, BodyMend.foldl_write_append _ _ stats []]
    exact hlines ▸ (BodyMend.write_lineByLine hcovers stats []).append ih

end ModelMend
