import ModelMend.Proofs.Entity.Restoration

/-!
# Rendering only appends

What a unit writes does not depend on the lines that are there already, and it changes none of them;
what it counts are its blocks with `belongs_to` (`rendering_only_appends`). This holds of every unit
that can be put together, also where a block is given other directives than its lines say, or no lines
at all (`AssembledUnit`).

The invariant compares two runs over the leading items, one behind the lines that are there and one
from nothing (`Rendering.Continues`). A field is glued onto the last line only where a block of its own
unit has just written it, so the second run has a line to glue onto as well.
-/

namespace ModelMend

open Text

/-! ## Units put together by hand -/

/-- A leading item of a unit that was not read from lines. -/
inductive AssembledLeading where
  /-- An attribute block with the directives it is given, whatever its lines say. -/
  | block (lines : List Line) (directives : Option Directives)
  | line (line : Line)

namespace AssembledLeading

def firstLine? : AssembledLeading → Option Line
  | block lines _ => lines.head?
  | line text => some text

/-- A block that is given a `belongs_to`. -/
def belongsTo : AssembledLeading → Bool
  | block _ directives => directives.any Directives.belongsTo
  | line _ => false

end AssembledLeading

/-- A unit of any leading items, any field lines and any claim to share a line. -/
structure AssembledUnit where
  leading : List AssembledLeading
  field : List Line
  sharesLine : Bool

namespace FieldUnit.Rendering

def writeAssembled (action : FieldAction) (out : Rendering) : AssembledLeading → Rendering
  | .line line => { out with lines := out.lines ++ [line], glue := false }
  | .block lines given =>
    match given.filter fun d => d.belongsTo && action = .stripBelongsTo with
    | some directives =>
      let replacement := (reducedBlock lines directives).toList
      ⟨out.lines ++ replacement, out.reduced + 1, !replacement.isEmpty⟩
    | none => ⟨out.lines ++ lines, out.reduced, !lines.isEmpty⟩

end FieldUnit.Rendering

namespace AssembledUnit

def indentation (unit : AssembledUnit) : List Char :=
  match unit.leading.findSome? AssembledLeading.firstLine? with
  | some first => indent first
  | none => []

/-- Appends what survives of the unit to the lines of an output, with the number of blocks that were
reduced or taken away. -/
def renderInto (unit : AssembledUnit) (action : FieldAction) (out : List Line) : List Line × Nat :=
  if action = .drop then (out, 0)
  else
    let rendering := unit.leading.foldl (FieldUnit.Rendering.writeAssembled action) { lines := out }
    match unit.sharesLine, unit.field with
    | true, first :: more =>
      let lines :=
        if rendering.glue then FieldUnit.Rendering.appendToLast rendering.lines first
        else rendering.lines ++ [unit.indentation ++ trimStart first]
      (lines ++ more, rendering.reduced)
    | _, field => (rendering.lines ++ field, rendering.reduced)

end AssembledUnit

/-! ## Units that are read -/

/-- A leading item with the directives that its lines say. -/
def Leading.assembled : Leading → AssembledLeading
  | block lines => .block lines (block lines).directives?
  | line text => .line text

def FieldUnit.assembled (unit : FieldUnit) : AssembledUnit :=
  ⟨unit.leading.map Leading.assembled, unit.field, unit.sharesLine⟩

namespace FieldUnit

theorem foldl_writeAssembled (action : FieldAction) (items : List Leading) (out : Rendering) :
    (items.map Leading.assembled).foldl (Rendering.writeAssembled action) out =
      items.foldl (Rendering.write action) out := by
  induction items generalizing out with
  | nil => rfl
  | cons item items ih =>
    rw [List.map_cons, List.foldl_cons, List.foldl_cons, ih]
    cases item <;> rfl

theorem indentation_assembled (unit : FieldUnit) : unit.assembled.indentation = unit.indentation := by
  have hfirst : AssembledLeading.firstLine? ∘ Leading.assembled = Leading.firstLine? := by
    funext item
    cases item <;> rfl
  rw [AssembledUnit.indentation, assembled, List.findSome?_map, hfirst]
  rfl

/-- A unit that is read is written as if it were put together. -/
theorem renderInto_assembled (unit : FieldUnit) (action : FieldAction) (out : List Line) :
    unit.assembled.renderInto action out = unit.renderInto action out := by
  have hindent := indentation_assembled unit
  obtain ⟨leading, field, sharesLine⟩ := unit
  -- each of the two matches on its own, so the values that they match on have to be known
  cases sharesLine <;> cases field <;>
    simp only [AssembledUnit.renderInto, renderInto, hindent] <;>
    simp only [assembled, foldl_writeAssembled]

theorem countP_belongsTo_assembled (unit : FieldUnit) :
    unit.assembled.leading.countP AssembledLeading.belongsTo =
      unit.directives.countP Directives.belongsTo := by
  rw [assembled, directives]
  induction unit.leading with
  | nil => rfl
  | cons item items ih =>
    rw [List.map_cons, List.countP_cons, ih, List.filterMap_cons]
    cases item with
    | line text => rfl
    | block lines =>
      have hbelongs : (Leading.block lines).assembled.belongsTo =
          (Leading.block lines).directives?.any Directives.belongsTo := rfl
      rw [hbelongs]
      cases (Leading.block lines).directives? with
      | none => simp
      | some directives => simp [List.countP_cons]

namespace Rendering

/-! ## Two runs over the leading items -/

/-- One rendering goes on from the lines in front as the other does from nothing, and where a field may
be glued on, the other has written a line too. -/
structure Continues (front : List Line) (rendering alone : Rendering) : Prop where
  lines_eq : rendering.lines = front ++ alone.lines
  glue_eq : rendering.glue = alone.glue
  lines_ne_nil : alone.glue = true → alone.lines ≠ []

variable {front : List Line} {rendering alone : Rendering} (action : FieldAction)

/-- Lines of a block, after which a field may be glued on if there are any. -/
theorem Continues.block (h : Continues front rendering alone) (lines : List Line) (n m : Nat) :
    Continues front ⟨rendering.lines ++ lines, n, !lines.isEmpty⟩
      ⟨alone.lines ++ lines, m, !lines.isEmpty⟩ := by
  refine ⟨?_, rfl, ?_⟩
  · rw [h.lines_eq, List.append_assoc]
  · intro hglue hnil
    rw [(List.append_eq_nil_iff.1 hnil).2] at hglue
    cases hglue

theorem Continues.writeAssembled (h : Continues front rendering alone) (item : AssembledLeading) :
    Continues front (writeAssembled action rendering item) (writeAssembled action alone item) := by
  cases item with
  | line text =>
    refine ⟨?_, rfl, fun hglue => by cases hglue⟩
    rw [Rendering.writeAssembled, h.lines_eq, List.append_assoc]
    rfl
  | block lines given =>
    simp only [Rendering.writeAssembled]
    split
    · exact h.block _ _ _
    · exact h.block _ _ _

theorem Continues.foldl_writeAssembled (h : Continues front rendering alone)
    (items : List AssembledLeading) :
    Continues front (items.foldl (Rendering.writeAssembled action) rendering)
      (items.foldl (Rendering.writeAssembled action) alone) := by
  induction items generalizing rendering alone with
  | nil => exact h
  | cons item items ih => exact ih (h.writeAssembled action item)

theorem Continues.start (front : List Line) : Continues front { lines := front } { lines := [] } :=
  ⟨(List.append_nil front).symm, rfl, fun hglue => by cases hglue⟩

theorem appendToLast_append {lines : List Line} (h : lines ≠ []) (out : List Line) (tail : Line) :
    appendToLast (out ++ lines) tail = out ++ appendToLast lines tail := by
  obtain ⟨front, last, rfl⟩ := List.eq_nil_or_concat lines |>.resolve_left h
  rw [List.concat_eq_append, ← List.append_assoc, appendToLast_concat, appendToLast_concat,
    List.append_assoc]

/-! ## Counting -/

/-- Each block with `belongs_to` is counted once, and only where such blocks are reduced. -/
theorem reduced_writeAssembled (out : Rendering) (item : AssembledLeading) :
    (writeAssembled action out item).reduced =
      out.reduced + if action = .stripBelongsTo ∧ item.belongsTo = true then 1 else 0 := by
  cases item with
  | line text => simp [writeAssembled, AssembledLeading.belongsTo]
  | block lines given =>
    have hcounted : (given.filter fun d => d.belongsTo && action = .stripBelongsTo).isSome = true ↔
        action = .stripBelongsTo ∧ (AssembledLeading.block lines given).belongsTo = true := by
      cases given <;> simp [AssembledLeading.belongsTo, and_comm]
    simp only [writeAssembled]
    split
    · next directives hsome => rw [if_pos (hcounted.1 (by rw [hsome]; rfl))]
    · next hnone => rw [if_neg (by rw [← hcounted, hnone]; decide), Nat.add_zero]

theorem reduced_foldl_writeAssembled (items : List AssembledLeading) (out : Rendering) :
    (items.foldl (writeAssembled action) out).reduced =
      out.reduced +
        if action = .stripBelongsTo then items.countP AssembledLeading.belongsTo else 0 := by
  induction items generalizing out with
  | nil => simp
  | cons item items ih =>
    rw [List.foldl_cons, ih, reduced_writeAssembled, List.countP_cons]
    by_cases hstrip : action = .stripBelongsTo
    · simp only [hstrip, true_and, ↓reduceIte]
      omega
    · simp [hstrip]

end Rendering

end FieldUnit

/-! ## Whole units -/

namespace AssembledUnit

open FieldUnit (Rendering)

theorem lines_renderInto (unit : AssembledUnit) (action : FieldAction) (out : List Line) :
    (unit.renderInto action out).1 = out ++ (unit.renderInto action []).1 := by
  by_cases hdrop : action = .drop
  · simp [renderInto, hdrop]
  have hleading := (Rendering.Continues.start out).foldl_writeAssembled action unit.leading
  simp only [renderInto, hdrop, ↓reduceIte, hleading.lines_eq, hleading.glue_eq]
  split
  · split
    · next hglue =>
      rw [Rendering.appendToLast_append (hleading.lines_ne_nil hglue), List.append_assoc]
    · simp only [List.append_assoc]
  · exact List.append_assoc _ _ _

theorem reduced_renderInto (unit : AssembledUnit) (action : FieldAction) (out : List Line) :
    (unit.renderInto action out).2 =
      if action = .stripBelongsTo then unit.leading.countP AssembledLeading.belongsTo else 0 := by
  by_cases hdrop : action = .drop
  · simp [renderInto, hdrop]
  have hcount := Rendering.reduced_foldl_writeAssembled action unit.leading { lines := out }
  rw [Nat.zero_add] at hcount
  simp only [renderInto, hdrop, ↓reduceIte]
  split <;> exact hcount

end AssembledUnit

/-- What a unit writes stands behind the lines that are there already. -/
theorem FieldUnit.renderInto_append (unit : FieldUnit) (action : FieldAction) (out : List Line) :
    (unit.renderInto action out).1 = out ++ (unit.renderInto action []).1 := by
  rw [← renderInto_assembled, ← renderInto_assembled, AssembledUnit.lines_renderInto]

/-- **Rendering only appends.** Whatever is to happen to a unit, and whatever it is made of, the lines
that are there already stay in front as they are, and what comes behind them is what the unit writes
from nothing. The number is that of the blocks with `belongs_to` where these are reduced, and zero
otherwise. A unit that is read from lines is one of these units, with the directives that its blocks
say. -/
theorem rendering_only_appends (action : FieldAction) (out : List Line) :
    (∀ unit : AssembledUnit, unit.renderInto action out =
      (out ++ (unit.renderInto action []).1,
        if action = .stripBelongsTo then unit.leading.countP AssembledLeading.belongsTo else 0)) ∧
    ∀ unit : FieldUnit, unit.assembled.renderInto action out = unit.renderInto action out ∧
      unit.renderInto action out =
        (out ++ (unit.renderInto action []).1,
          if action = .stripBelongsTo then unit.directives.countP Directives.belongsTo else 0) := by
  have hassembled (unit : AssembledUnit) : unit.renderInto action out =
      (out ++ (unit.renderInto action []).1,
        if action = .stripBelongsTo then unit.leading.countP AssembledLeading.belongsTo else 0) :=
    Prod.ext (unit.lines_renderInto action out) (unit.reduced_renderInto action out)
  refine ⟨hassembled, fun unit => ⟨unit.renderInto_assembled action out, ?_⟩⟩
  rw [← unit.renderInto_assembled action out, ← unit.renderInto_assembled action [], hassembled,
    unit.countP_belongsTo_assembled]

end ModelMend
