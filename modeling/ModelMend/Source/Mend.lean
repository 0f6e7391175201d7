import ModelMend.Source.Marker
import ModelMend.Source.Model
import ModelMend.Source.Relation

/-!
# Mending a source text

The three steps in order: marker lines go, the body of the model loses its relationship fields and
relationship directives, and a relation enum is inserted where one is missing.
-/

namespace ModelMend

structure Mending where
  text : List Char
  /-- The text differs from the source. -/
  changed : Bool
  stats : MendStats
  notes : List MendNote
deriving DecidableEq, Repr

def mend (source : List Char) : Mending :=
  let (unmarked, markers) := removeMarkers source
  let (modeled, stats, notes) := mendModel unmarked { markersRemoved := markers }
  let (text, inserted) := ensureRelation modeled
  ⟨text, text ≠ source, { stats with relationInserted := inserted }, notes⟩

/-- The results of mending a text several times, each applied to the text of the one before. -/
def mendRepeatedly : Nat → List Char → List Mending
  | 0, _ => []
  | times + 1, source => mend source :: mendRepeatedly times (mend source).text

end ModelMend
