import ModelMend.Entity.Body

/-!
# Restoring the lines of a body

Reading a body loses, doubles and reorders nothing: writing every segment back, fields with all
that is attached to them, gives the lines of the body again (`Body.segments_restore`).

The invariant follows the reader. What was read in front of a field makes up the lines it was read
from (`LeadingRun.ReadFrom`), also where a line was split between an attribute block and its field;
a field, a loose field and a unit that is handed back do the same with the lines they take
(`readUnit_restore`). A loose field that is not dropped gives its lines back, but not the leading
items in front of it, so every segment covers a line all the same.
-/

namespace ModelMend

open Text

/-! ## Rendering a unit that is kept -/

namespace FieldUnit

namespace Rendering

/-- A leading item of a unit that is kept is written as it is. -/
theorem write_keep (out : Rendering) (item : Leading) :
    write .keep out item =
      ⟨out.lines ++ item.lines, out.reduced, item.isBlock && !item.lines.isEmpty⟩ := by
  cases item with
  | line text => rfl
  | block lines =>
    have hnone : ((Leading.block lines).directives?.filter fun d =>
        d.belongsTo && FieldAction.keep = .stripBelongsTo) = none := by
      simp
    simp only [write, hnone, Leading.lines, Leading.isBlock, Bool.true_and]

/-- Items are written one after the other, each as if it were alone. -/
theorem foldl_write_lines (action : FieldAction) (items : List Leading) (out : Rendering) :
    (items.foldl (write action) out).lines =
      out.lines ++ items.flatMap fun item => (write action { lines := [] } item).lines := by
  induction items generalizing out with
  | nil => simp
  | cons item items ih =>
    have hwrite : (write action out item).lines =
        out.lines ++ (write action { lines := [] } item).lines := by
      cases item with
      | line text => rfl
      | block lines =>
        simp only [write]
        split <;> rfl
    rw [List.foldl_cons, ih, hwrite, List.flatMap_cons, List.append_assoc]

theorem foldl_write_keep_lines (items : List Leading) (out : Rendering) :
    (items.foldl (write .keep) out).lines = out.lines ++ items.flatMap Leading.lines := by
  simp only [foldl_write_lines, write_keep, List.nil_append]

theorem foldl_write_keep_reduced (items : List Leading) (out : Rendering) :
    (items.foldl (write .keep) out).reduced = out.reduced := by
  induction items generalizing out with
  | nil => rfl
  | cons item items ih => rw [List.foldl_cons, ih, write_keep]

@[simp] theorem appendToLast_concat (lines : List Line) (last tail : Line) :
    appendToLast (lines ++ [last]) tail = lines ++ [last ++ tail] := by
  simp [appendToLast]

end Rendering

/-- A unit whose field starts on a line of its own is written line by line. -/
theorem renderInto_keep_apart (items : List Leading) (field out : List Line) :
    renderInto ⟨items, field, false⟩ .keep out =
      (out ++ items.flatMap Leading.lines ++ field, 0) := by
  simp [renderInto, Rendering.foldl_write_keep_lines, Rendering.foldl_write_keep_reduced]

/-- A field that shares a line with an attribute block is glued to that line again. -/
theorem renderInto_keep_shared (front : List Leading) (block : List Line) (last first : Line)
    (more out : List Line) :
    renderInto ⟨front ++ [.block (block ++ [last])], first :: more, true⟩ .keep out =
      (out ++ (front.flatMap Leading.lines ++ block ++ (last ++ first) :: more), 0) := by
  simp only [renderInto, reduceCtorEq, ↓reduceIte, List.foldl_append, List.foldl_cons,
    List.foldl_nil, Rendering.write_keep, Rendering.foldl_write_keep_lines,
    Rendering.foldl_write_keep_reduced, Leading.lines, Leading.isBlock]
  rw [if_pos (by simp), ← List.append_assoc, Rendering.appendToLast_concat]
  simp

end FieldUnit

/-! ## Segments written back -/

/-- Appends the lines that a segment stands for to an output, whatever is to happen to it. -/
def Segment.restoreOnto (out : List Line) : Segment → List Line
  | .field unit => (unit.renderInto .keep out).1
  | .orphan line => out ++ [line]
  | .verbatim lines => out ++ lines

namespace Body

/-- The leading items, and what was read behind them, make up the lines. A shared line is the last
line of the last block with the start of the field behind it. Nothing is said of a run that the end
of the body cuts short. -/
def LeadingRun.ReadFrom (run : LeadingRun) (lines : List Line) : Prop :=
  match run.ending with
  | .field | .loose => run.items.flatMap Leading.lines ++ run.rest = lines
  | .sharedLine first => ∃ front block last, run.items = front ++ [.block (block ++ [last])] ∧
      front.flatMap Leading.lines ++ block ++ (last ++ first) :: run.rest = lines
  | .missing => True

theorem LeadingRun.ReadFrom.cons {run : LeadingRun} {lines : List Line} (item : Leading)
    (h : run.ReadFrom lines) : (run.cons item).ReadFrom (item.lines ++ lines) := by
  obtain ⟨items, ending, rest⟩ := run
  cases ending with
  | field | loose =>
    simp only [ReadFrom, LeadingRun.cons] at h ⊢
    rw [List.flatMap_cons, List.append_assoc, h]
  | sharedLine first =>
    simp only [ReadFrom, LeadingRun.cons] at h ⊢
    obtain ⟨front, block, last, rfl, rfl⟩ := h
    exact ⟨item :: front, block, last, rfl, by simp⟩
  | missing => trivial

/-- The leading items are read off the front of the lines, after those of a block still open. -/
theorem readLeading_readFrom (current : Option OpenBlock) (lines : List Line) :
    (readLeading current lines).ReadFrom ((current.elim [] OpenBlock.lines) ++ lines) := by
  induction lines generalizing current with
  | nil => trivial
  | cons line lines ih =>
    have hopened : (current.getD ⟨.forAttribute, []⟩).lines = current.elim [] OpenBlock.lines := by
      cases current <;> rfl
    have hnone (h : current.isNone) : current.elim [] OpenBlock.lines = [] := by
      cases current <;> simp_all
    unfold readLeading
    dsimp only
    split
    · next h => simp_all [LeadingRun.ReadFrom]
    · split
      · next h => simp_all [LeadingRun.ReadFrom]
      · split
        · next h =>
          rw [hnone (by simp_all)]
          exact (ih none).cons (.line line)
        · rw [hopened]
          split
          · rw [List.append_cons _ line lines]
            exact ih (some _)
          · split
            · refine ⟨[], _, _, rfl, ?_⟩
              rw [List.take_append_drop]
              simp
            · rw [List.append_cons _ line lines]
              exact (ih none).cons (.block _)

theorem readField_append {scanner : Scanner} {lines : List Line} {run : FieldRun}
    (h : readField scanner lines = some run) : run.field ++ run.rest = lines := by
  induction lines generalizing scanner run with
  | nil => simp [readField] at h
  | cons line lines ih =>
    unfold readField at h
    dsimp only at h
    split at h
    · cases h
      rfl
    · obtain ⟨more, hmore, rfl⟩ := Option.map_eq_some_iff.1 h
      rw [← ih hmore]
      rfl

theorem readSharedField_append {first : Line} {lines : List Line} {run : FieldRun}
    (h : readSharedField first lines = some run) :
    ∃ more, run.field = first :: more ∧ more ++ run.rest = lines := by
  unfold readSharedField at h
  dsimp only at h
  split at h
  · cases h
    exact ⟨[], rfl, rfl⟩
  · obtain ⟨more, hmore, rfl⟩ := Option.map_eq_some_iff.1 h
    exact ⟨more.field, rfl, readField_append hmore⟩

theorem readLoose_append (scanner : Scanner) (field lines : List Line) :
    (readLoose scanner field lines).field ++ (readLoose scanner field lines).rest =
      field ++ lines := by
  induction lines generalizing scanner field with
  | nil => rfl
  | cons line lines ih =>
    unfold readLoose
    dsimp only
    split
    · rfl
    · split
      · simp
      · rw [ih]
        simp

/-- The lines in front of an end of a list, and that end. -/
theorem linesBefore_append {front rest lines : List Line} (h : front ++ rest = lines) :
    linesBefore lines rest ++ rest = lines := by
  subst h
  simp [linesBefore]

/-- The segment of a unit and the lines left after it are the lines of the unit and what follows. -/
theorem readUnit_restore {lines : List Line} {read : LeadingRun} (h : read.ReadFrom lines)
    (out : List Line) :
    (readUnit lines read).segment.restoreOnto out ++ (readUnit lines read).rest = out ++ lines := by
  obtain ⟨items, ending, rest⟩ := read
  cases ending with
  | missing => simp [readUnit, Segment.restoreOnto]
  | field =>
    simp only [LeadingRun.ReadFrom] at h
    simp only [readUnit]
    split
    · next run hrun =>
      rw [← h, ← readField_append hrun]
      simp [Segment.restoreOnto, FieldUnit.renderInto_keep_apart]
    · simp [Segment.restoreOnto]
  | sharedLine first =>
    simp only [LeadingRun.ReadFrom] at h
    obtain ⟨front, block, last, rfl, rfl⟩ := h
    simp only [readUnit]
    split
    · next run hrun =>
      obtain ⟨more, hfield, hrest⟩ := readSharedField_append hrun
      rw [← hrest, hfield]
      simp [Segment.restoreOnto, FieldUnit.renderInto_keep_shared]
    · simp [Segment.restoreOnto]
  | loose =>
    simp only [LeadingRun.ReadFrom] at h
    simp only [readUnit]
    split
    · have hloose := readLoose_append .forField [] rest
      simp only [Segment.restoreOnto, FieldUnit.renderInto_keep_apart, List.append_assoc, hloose]
      rw [List.nil_append, h]
    · simp [Segment.restoreOnto, linesBefore_append h]

/-- **One step of the reader**: the segment and the lines left after it are the lines given. -/
theorem readSegment_restore (line : Line) (lines out : List Line) :
    (readSegment line lines).segment.restoreOnto out ++ (readSegment line lines).rest =
      out ++ line :: lines := by
  unfold readSegment
  dsimp only
  split
  · exact readUnit_restore (readLeading_readFrom none (line :: lines)) out
  · split <;> simp [Segment.restoreOnto]

/-- A segment covers a line: the reader leaves fewer lines than it was given. -/
theorem readSegment_restore_ne_nil (line : Line) (lines : List Line) :
    (readSegment line lines).segment.restoreOnto [] ≠ [] := by
  intro hnil
  have hall := readSegment_restore line lines []
  have hless := readSegment_rest_length line lines
  rw [hnil, List.nil_append, List.nil_append] at hall
  rw [hall] at hless
  exact Nat.lt_irrefl _ hless

/-- What the reader leaves is an end of the lines behind the first. -/
theorem readSegment_rest_suffix (line : Line) (lines : List Line) :
    (readSegment line lines).rest <:+ lines := by
  have hall := readSegment_restore line lines []
  have hless := readSegment_rest_length line lines
  have hsuffix : (readSegment line lines).rest <:+ line :: lines := ⟨_, hall⟩
  rcases List.suffix_cons_iff.1 hsuffix with heq | htail
  · rw [heq] at hless
    exact absurd hless (Nat.lt_irrefl _)
  · exact htail

theorem segments_foldl_restoreOnto (lines out : List Line) :
    (segments lines).foldl Segment.restoreOnto out = out ++ lines := by
  induction lines using segments.induct generalizing out with
  | case1 => simp
  | case2 line lines ih =>
    rw [segments_cons, List.foldl_cons, ih, readSegment_restore]

theorem restoreOnto_ne_nil_of_mem_segments {lines : List Line} {segment : Segment}
    (h : segment ∈ segments lines) : segment.restoreOnto [] ≠ [] := by
  induction lines using segments.induct with
  | case1 => simp at h
  | case2 line lines ih =>
    rw [segments_cons] at h
    rcases List.mem_cons.1 h with rfl | hmem
    · exact readSegment_restore_ne_nil line lines
    · exact ih hmem

/-- **Reading a body loses, doubles and reorders nothing.** Writing its segments back in order gives
its lines; every segment covers at least one of them; and each step of the reader, also one that
gives lines back, leaves an end of the lines behind the first, so that reading comes to an end. -/
theorem segments_restore (lines : List Line) :
    (segments lines).foldl Segment.restoreOnto [] = lines ∧
      (∀ segment ∈ segments lines, segment.restoreOnto [] ≠ []) ∧
      ∀ first others, (readSegment first others).rest <:+ others := by
  refine ⟨?_, ?_, ?_⟩
  · rw [segments_foldl_restoreOnto, List.nil_append]
  · intro segment hmem
    exact restoreOnto_ne_nil_of_mem_segments hmem
  · exact readSegment_rest_suffix

end Body

end ModelMend
