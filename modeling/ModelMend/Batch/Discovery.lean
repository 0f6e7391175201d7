import ModelMend.Batch.Failure

/-!
# Finding the entities of a directory

The entities of a directory are the files in it, not below it, with the extension `rs` and a name
that is not among the exclusions. A name that is no text cannot be excluded. They are taken in the
order of the bytes of their names, whatever the order of the store.
-/

namespace ModelMend

open Text

def entityExtension : Bytes :=
  encode "rs".toList

def isExcluded (excluded : List (List Char)) (name : Bytes) : Bool :=
  (decode? name).any excluded.contains

/-- The order of names by their bytes. -/
def nameLe (a b : Bytes) : Bool :=
  a ≤ b

namespace Store

/-- The names of the files that may hold entities in a directory, which is at a place. What the path
through the directory does not reach is no file. -/
def entityNames (store : Store) (directory : Path) (place : Place) : List Bytes :=
  (store.names place).filter fun name =>
    store.isFile (directory.child name) && hasExtension entityExtension name

/-- The names of the entities in a directory, in order. -/
def entitiesIn (store : Store) (directory : Path) (place : Place) (excluded : List (List Char)) :
    List Bytes :=
  ((store.entityNames directory place).filter fun name => !isExcluded excluded name).mergeSort nameLe

/-- The names of the excluded files in a directory. -/
def skippedIn (store : Store) (directory : Path) (place : Place) (excluded : List (List Char)) :
    List Bytes :=
  (store.entityNames directory place).filter (isExcluded excluded)

end Store

/-- What is found in a directory: the paths of the entities, and of the excluded files. -/
structure Discovery where
  entities : List Path
  skipped : List Path
deriving DecidableEq, Repr

def discover (store : Store) (directory : Path) (excluded : List (List Char)) :
    Except Failure Discovery :=
  match store.find directory with
  | .ok (place, .directory) =>
    .ok ⟨(store.entitiesIn directory place excluded).map directory.child,
      (store.skippedIn directory place excluded).map directory.child⟩
  | _ => .error (.missingDirectory directory)

end ModelMend
