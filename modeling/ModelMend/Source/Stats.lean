import ModelMend.Text.Lines

/-!
# What mending does to a file

The counts of what was taken away, reduced or inserted, and the notes taken along the way.
-/

namespace ModelMend

structure MendStats where
  markersRemoved : Nat := 0
  fieldsDropped : Nat := 0
  blocksReduced : Nat := 0
  orphansDropped : Nat := 0
  relationInserted : Bool := false
deriving DecidableEq, Repr

/-- A note taken while a source text is mended. -/
inductive MendNote where
  /-- There is no complete model to mend. -/
  | noModelBody
  /-- A relationship field goes; its first line. -/
  | droppedField (first : Line)
  /-- A bare container goes; its line. -/
  | droppedOrphan (line : Line)
deriving DecidableEq, Repr

end ModelMend
