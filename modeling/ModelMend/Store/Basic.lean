import ModelMend.Store.Fault
import ModelMend.Store.Path

/-!
# Stores of files

A store holds files and directories, each at a place: the names of the directories above it and its
own name. The root is always there, and so are the directories above it. Paths lead from the root to
a place, name by name; every name is looked up in a directory that exists. Nothing is listed twice
and everything that is listed has a name, so what is at a place is what is listed there
(`Store.node?_eq_some_iff`).
-/

namespace ModelMend

open Text

/-- The names that lead from the root to a file or directory. -/
abbrev Place := List Bytes

namespace Place

def top : Place := [[slash]]

/-- The root of the store, or a directory above it. -/
def isOutermost (place : Place) : Bool :=
  place.all (· = parentName) || place = top

/-- Something can be put at the place: it has a name of its own. -/
def isProper (place : Place) : Bool :=
  place.getLast?.any isName

theorem isOutermost_of_isProper {place : Place} (h : isProper place = true) :
    isOutermost place = false := by
  obtain ⟨name, hlast, hname⟩ := (Option.any_eq_true _ _).1 h
  obtain ⟨directory, rfl⟩ := List.getLast?_eq_some_iff.1 hlast
  simp only [isName, Bool.and_eq_true, decide_eq_true_eq, Bool.not_eq_true',
    List.contains_eq_mem, decide_eq_false_iff_not] at hname
  obtain ⟨⟨⟨hempty, hslash⟩, hself⟩, hparent⟩ := hname
  rw [isOutermost, Bool.or_eq_false_iff]
  constructor
  · simp [hparent]
  · rw [decide_eq_false_iff_not]
    intro htop
    have hlast : name = [slash] := by
      simpa [top] using congrArg List.getLast? htop
    exact hslash (hlast ▸ List.mem_singleton.2 rfl)

/-- Nothing is put at the root or above it. -/
theorem ne_of_isOutermost {place other : Place} (h : isOutermost other = true)
    (hproper : isProper place = true) : other ≠ place := by
  rintro rfl
  rw [isOutermost_of_isProper hproper] at h
  cases h

/-- The place that a name leads to. The way up from the root of the store leads out of it. -/
def step (place : Place) (name : Bytes) : Place :=
  if name ≠ parentName then place ++ [name]
  else if place = top then top
  else if isOutermost place then place ++ [parentName]
  else place.dropLast

end Place

namespace Path

/-- The place at which the way of a path starts. -/
def start (path : Path) : Place :=
  if path.isAbsolute then Place.top else []

/-- The place that a path leads to if there is a directory at every step. -/
def place (path : Path) : Place :=
  path.names.foldl Place.step path.start

end Path

inductive Node where
  | file (contents : Bytes) (mode : Nat)
  | directory
deriving DecidableEq, Repr

namespace Node

def isFile : Node → Bool
  | file .. => true
  | directory => false

def withContents (contents : Bytes) : Node → Node
  | file _ mode => file contents mode
  | directory => directory

def withMode (mode : Nat) : Node → Node
  | file contents _ => file contents mode
  | directory => directory

end Node

/-- Files and directories at their places, in the order in which they are listed. -/
structure Store where
  nodes : List (Place × Node) := []
  /-- Nothing is listed twice. -/
  distinct : (nodes.map Prod.fst).Nodup := by exact List.nodup_nil
  /-- Everything has a name of its own. -/
  proper : ∀ entry ∈ nodes, Place.isProper entry.1 = true := by exact List.forall_mem_nil _
deriving DecidableEq, Repr

namespace Store

/-- The store with nothing in it but the root. -/
def empty : Store := {}

def longestName : Nat := 255

def longestPath : Nat := 4095

/-- The places of a store, the root left out. -/
def places (store : Store) : List Place :=
  store.nodes.map Prod.fst

def node? (store : Store) (place : Place) : Option Node :=
  if Place.isOutermost place then some .directory else store.nodes.lookup place

/-- One step on the way: from a place that has to be a directory to a name in it. -/
def enter (store : Store) (place : Place) (name : Bytes) : Except Fault Place :=
  match store.node? place with
  | none => .error .missing
  | some (.file ..) => .error .notDirectory
  | some .directory =>
    if longestName < name.length then .error .tooLong else .ok (Place.step place name)

/-- The place that a path leads to, and what is there. -/
def find (store : Store) (path : Path) : Except Fault (Place × Node) :=
  if path.bytes.contains 0 then .error .zeroByte
  else if path.bytes.isEmpty then .error .missing
  else if longestPath < path.bytes.length then .error .tooLong
  else
    match path.names.foldlM store.enter path.start with
    | .error fault => .error fault
    | .ok place =>
      match store.node? place with
      | none => .error .missing
      | some node =>
        if node.isFile && path.namesDirectory then .error .notDirectory else .ok (place, node)

def isFile (store : Store) (path : Path) : Bool :=
  match store.find path with
  | .ok (_, .file ..) => true
  | _ => false

/-- The contents of the file at a path, and its place. -/
def read (store : Store) (path : Path) : Except Fault (Place × Bytes) :=
  match store.find path with
  | .ok (place, .file contents _) => .ok (place, contents)
  | .ok (_, .directory) => .error .isDirectory
  | .error fault => .error fault

/-- The text of the file at a path, and its place. -/
def readText (store : Store) (path : Path) : Except Fault (Place × List Char) :=
  match store.read path with
  | .error fault => .error fault
  | .ok (place, contents) =>
    match decode? contents with
    | some text => .ok (place, text)
    | none => .error .notText

/-- The names in the directory at a place. -/
def names (store : Store) (place : Place) : List Bytes :=
  store.places.filterMap fun other =>
    if other.dropLast = place then other.getLast? else none

theorem node?_of_isOutermost (store : Store) {place : Place} (h : Place.isOutermost place) :
    store.node? place = some .directory := by
  simp [node?, h]

@[simp] theorem node?_nil (store : Store) : store.node? [] = some .directory :=
  node?_of_isOutermost store rfl

/-- What is at a place with a name is what is listed there. -/
theorem node?_eq_some_iff (store : Store) {place : Place} (h : Place.isOutermost place = false)
    {node : Node} : store.node? place = some node ↔ (place, node) ∈ store.nodes := by
  rw [node?, h, if_neg Bool.false_ne_true, List.lookup_eq_some_iff]
  constructor
  · rintro ⟨front, back, hnodes, -⟩
    rw [hnodes]
    exact List.mem_append_right front List.mem_cons_self
  · intro hmem
    obtain ⟨front, back, hnodes⟩ := List.append_of_mem hmem
    refine ⟨front, back, hnodes, ?_⟩
    intro entry hentry
    have hdistinct := store.distinct
    rw [hnodes, List.map_append, List.nodup_append] at hdistinct
    have hne := hdistinct.2.2 entry.1 (List.mem_map_of_mem hentry) place (by simp)
    simpa using Ne.symm hne

/-- What is at a place is known once it is known what is listed there. -/
theorem node?_eq_of_mem_iff (store : Store) {place : Place} {expected : Option Node}
    (houter : Place.isOutermost place = true → expected = some .directory)
    (hmem : Place.isOutermost place = false →
      ∀ node, (place, node) ∈ store.nodes ↔ expected = some node) :
    store.node? place = expected := by
  cases h : Place.isOutermost place with
  | true => rw [node?_of_isOutermost store h, houter h]
  | false =>
    apply Option.ext
    intro node
    rw [node?_eq_some_iff store h, hmem h]

/-- Nothing is at a place with a name exactly if nothing is listed there. -/
theorem node?_eq_none_iff (store : Store) {place : Place} (h : Place.isOutermost place = false) :
    store.node? place = none ↔ place ∉ store.places := by
  rw [Option.eq_none_iff_forall_ne_some]
  simp only [ne_eq, node?_eq_some_iff store h, places, List.mem_map, Prod.exists, exists_and_right,
    exists_eq_right, not_exists]

end Store

end ModelMend
