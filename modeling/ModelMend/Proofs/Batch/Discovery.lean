import Mathlib.Data.List.Nodup
import ModelMend.Batch.Discovery
import ModelMend.Proofs.Store.Finding
import ModelMend.Store.Change

/-!
# What a directory holds, and what is found in it

The files of a directory are found in the order of the bytes of their names, whatever the order in which
the store lists them (`discover_exact`). A file is looked up through the path of the directory, and a path
has a greatest length: a file behind that is there and is passed over in silence
(`discover_passes_over_file`).
-/

namespace ModelMend

open Text

/-! ## Names in the order of their bytes -/

theorem nameLe_trans (a b c : Bytes) (hab : nameLe a b = true) (hbc : nameLe b c = true) :
    nameLe a c = true := by
  simp only [nameLe, decide_eq_true_eq] at hab hbc ⊢
  exact List.le_trans hab hbc

theorem nameLe_total (a b : Bytes) : (nameLe a b || nameLe b a) = true := by
  simp only [nameLe, Bool.or_eq_true, decide_eq_true_eq]
  exact List.le_total a b

theorem pairwise_le_mergeSort (names : List Bytes) :
    (names.mergeSort nameLe).Pairwise (· ≤ ·) := by
  apply (List.pairwise_mergeSort nameLe_trans nameLe_total names).imp
  intro a b hab
  exact of_decide_eq_true hab

/-- Different names are sorted strictly. -/
theorem pairwise_lt_mergeSort {names : List Bytes} (h : names.Nodup) :
    (names.mergeSort nameLe).Pairwise (· < ·) := by
  have hdistinct : (names.mergeSort nameLe).Nodup := (List.mergeSort_perm _ _).nodup_iff.2 h
  apply ((pairwise_le_mergeSort names).and hdistinct).imp
  rintro a b ⟨hle, hne⟩
  exact Std.lt_of_le_of_ne hle hne

/-- The same names are sorted into the same order. -/
theorem mergeSort_eq_of_perm {names other : List Bytes} (h : names.Perm other) :
    names.mergeSort nameLe = other.mergeSort nameLe := by
  have hsame : (names.mergeSort nameLe).Perm (other.mergeSort nameLe) :=
    ((List.mergeSort_perm _ _).trans h).trans (List.mergeSort_perm _ _).symm
  apply hsame.eq_of_pairwise ?_ (pairwise_le_mergeSort names) (pairwise_le_mergeSort other)
  intro a b _ _ hab hba
  exact List.le_antisymm hab hba

/-! ## Names of entities -/

theorem hasExtension_iff (extension name : Bytes) :
    hasExtension extension name = true ↔ ∃ stem, stem ≠ [] ∧ name = stem ++ 0x2e :: extension := by
  simp only [hasExtension, Bool.and_eq_true, decide_eq_true_eq, List.isSuffixOf_iff_suffix]
  constructor
  · rintro ⟨⟨stem, rfl⟩, hlength⟩
    refine ⟨stem, ?_, rfl⟩
    rintro rfl
    simp at hlength
  · rintro ⟨stem, hstem, rfl⟩
    have hpositive := List.length_pos_iff.2 hstem
    refine ⟨List.suffix_append _ _, ?_⟩
    rw [List.length_append, List.length_cons]
    omega

theorem isExcluded_iff (excluded : List (List Char)) (name : Bytes) :
    isExcluded excluded name = true ↔ ∃ text ∈ excluded, name = encode text := by
  simp only [isExcluded, Option.any_eq_true, decode?_eq_some_iff, List.contains_iff_mem]
  constructor
  · rintro ⟨text, hname, hmem⟩
    exact ⟨text, hmem, hname⟩
  · rintro ⟨text, hmem, hname⟩
    exact ⟨text, hname, hmem⟩

/-! ## Files in a directory -/

/-- Neither the name nor the path of it in the directory is more than a file system can look up. -/
structure WithinLimits (directory : Path) (name : Bytes) : Prop where
  noZero : 0 ∉ name
  name_le : name.length ≤ Store.longestName
  path_le : (directory.child name).bytes.length ≤ Store.longestPath

namespace Path

theorem child_bytes_ne_nil {name : Bytes} (hname : isName name = true) (directory : Path) :
    (directory.child name).bytes ≠ [] := by
  have hempty := (isName_iff.1 hname).1
  unfold child
  split <;> simp [hempty]

theorem zero_notMem_child {directory : Path} (h : 0 ∉ directory.bytes) (name : Bytes) :
    0 ∉ (directory.child name).bytes ↔ 0 ∉ name := by
  have hslash : (0 : UInt8) ≠ slash := by decide
  unfold child
  split <;> simp [h, hslash]

theorem length_le_child (directory : Path) (name : Bytes) :
    directory.bytes.length + name.length ≤ (directory.child name).bytes.length := by
  unfold child
  split
  · exact Nat.le_of_eq List.length_append.symm
  · rw [List.length_append, List.length_cons]
    omega

/-- The path of a name in a directory does not end like the path of a directory. -/
theorem not_namesDirectory_child {name : Bytes} (hname : isName name = true) (directory : Path) :
    (directory.child name).namesDirectory = false := by
  obtain ⟨hempty, hslash, hself, -⟩ := isName_iff.1 hname
  have hlast (front : List Bytes) :
      (front ++ split slash name).getLast?.any (fun name => name.isEmpty || name = selfName) =
        false := by
    simp [split_of_notMem hslash, hempty, hself]
  unfold namesDirectory pieces child
  split
  · next h =>
    simp only [Bool.or_eq_true, List.isEmpty_iff, decide_eq_true_eq] at h
    rcases h with h | h
    · rw [h, List.nil_append]
      exact hlast []
    · obtain ⟨front, hfront⟩ := List.getLast?_eq_some_iff.1 h
      rw [hfront, List.append_assoc, List.singleton_append, split_append_cons]
      exact hlast _
  · rw [split_append_cons]
    exact hlast _

/-- A path that goes on to the directory itself, so many times. -/
def staying (directory : Path) : Nat → Path
  | 0 => directory
  | n + 1 => ⟨(directory.staying n).bytes ++ slash :: selfName⟩

theorem length_staying (directory : Path) (n : Nat) :
    (directory.staying n).bytes.length = directory.bytes.length + 2 * n := by
  induction n with
  | zero => rfl
  | succ n ih =>
    change ((directory.staying n).bytes ++ slash :: selfName).length = _
    rw [List.length_append, ih]
    change _ + 2 = _
    omega

theorem names_self (bytes : Bytes) :
    Path.names ⟨bytes ++ slash :: selfName⟩ = Path.names ⟨bytes⟩ := by
  have hself : (split slash selfName).filter (fun name => !name.isEmpty && name ≠ selfName) = [] := by
    decide
  simp only [names, pieces, split_append_cons, List.filter_append, hself, List.append_nil]

theorem start_self {bytes : Bytes} (h : bytes ≠ []) :
    Path.start ⟨bytes ++ slash :: selfName⟩ = Path.start ⟨bytes⟩ := by
  unfold start isAbsolute
  rw [List.head?_append_of_ne_nil bytes h]

end Path

namespace Store

variable {store : Store} {directory : Path} {place : Place} {name : Bytes}

/-- The path of a name in a directory leads to a file exactly if there is one, within the limits. -/
theorem isFile_child_iff (hdirectory : store.find directory = .ok (place, .directory))
    (hname : isName name = true) :
    store.isFile (directory.child name) = true ↔
      (∃ contents mode, store.node? (place ++ [name]) = some (.file contents mode)) ∧
        WithinLimits directory name := by
  obtain ⟨⟨hzero, hempty, -⟩, hway, hplace, -⟩ := find_eq_ok_iff.1 hdirectory
  have hfind (contents : Bytes) (mode : Nat) :
      store.find (directory.child name) = .ok (place ++ [name], .file contents mode) ↔
        store.node? (place ++ [name]) = some (.file contents mode) ∧ WithinLimits directory name := by
    have hstep : (directory.child name).names.foldlM store.enter (directory.child name).start =
        if longestName < name.length then .error .tooLong else .ok (place ++ [name]) := by
      rw [Path.names_child hname, Path.start_child hempty, List.foldlM_append, hway]
      change store.enter place name >>= pure = _
      rw [bind_pure, enter, hplace]
      dsimp only
      rw [Place.step, if_pos (isName_iff.1 hname).2.2.2]
    rw [find_eq_ok_iff, hstep, Path.zero_notMem_child hzero, Path.not_namesDirectory_child hname]
    constructor
    · rintro ⟨⟨hnoZero, -, hpath⟩, hshort, hnode, -⟩
      split at hshort
      · cases hshort
      · next hlength => exact ⟨hnode, hnoZero, Nat.le_of_not_lt hlength, hpath⟩
    · rintro ⟨hnode, hnoZero, hshort, hpath⟩
      rw [if_neg (Nat.not_lt.2 hshort)]
      exact ⟨⟨hnoZero, Path.child_bytes_ne_nil hname directory, hpath⟩, rfl, hnode, Bool.and_false _⟩
  unfold isFile
  constructor
  · intro h
    split at h
    · next there contents mode hfound =>
      obtain ⟨rfl, -⟩ := place_of_find_child hdirectory hname hfound
      obtain ⟨hnode, hlimits⟩ := (hfind contents mode).1 hfound
      exact ⟨⟨contents, mode, hnode⟩, hlimits⟩
    · cases h
  · rintro ⟨⟨contents, mode, hnode⟩, hlimits⟩
    rw [(hfind contents mode).2 ⟨hnode, hlimits⟩]

/-- What is a file at a place has a name, and the directory lists it. -/
theorem mem_names_of_file {contents : Bytes} {mode : Nat}
    (h : store.node? (place ++ [name]) = some (.file contents mode)) : name ∈ store.names place := by
  have houter : Place.isOutermost (place ++ [name]) = false := by
    rw [Bool.eq_false_iff]
    intro houter
    rw [node?_of_isOutermost store houter] at h
    cases h
  rw [mem_names]
  exact List.mem_map_of_mem ((node?_eq_some_iff store houter).1 h)

/-! ## Ways that stay where they are -/

/-- A way that stays in a directory leads to it, unless it is too long. -/
theorem find_staying (hdirectory : store.find directory = .ok (place, .directory)) (n : Nat)
    (hlength : directory.bytes.length + 2 * n ≤ longestPath) :
    store.find (directory.staying n) = .ok (place, .directory) := by
  induction n with
  | zero => exact hdirectory
  | succ n ih =>
    obtain ⟨⟨hzero, hempty, -⟩, hway, hplace, -⟩ := find_eq_ok_iff.1 (ih (by omega))
    rw [find_eq_ok_iff, Path.length_staying]
    refine ⟨⟨?_, ?_, hlength⟩, ?_, hplace, rfl⟩
    · intro hmem
      rcases List.mem_append.1 hmem with hold | hnew
      · exact hzero hold
      · revert hnew
        decide
    · exact List.append_ne_nil_of_left_ne_nil hempty _
    · rw [Path.staying, Path.names_self, Path.start_self hempty]
      exact hway

/-! ## Stores that list the same in another order -/

/-- The same files and directories, listed in some other order. -/
def SameListing (store other : Store) : Prop :=
  store.nodes.Perm other.nodes

theorem SameListing.node?_eq {other : Store} (h : SameListing store other) :
    store.node? = other.node? := by
  funext place
  apply node?_eq_of_mem_iff
  · intro houter
    rw [node?_of_isOutermost other houter]
  · intro houter node
    rw [node?_eq_some_iff other houter]
    exact h.mem_iff

theorem SameListing.find_eq {other : Store} (h : SameListing store other) :
    store.find = other.find := by
  funext path
  unfold find enter
  rw [h.node?_eq]

theorem SameListing.entitiesIn_eq {other : Store} (h : SameListing store other)
    (directory : Path) (place : Place) (excluded : List (List Char)) :
    store.entitiesIn directory place excluded = other.entitiesIn directory place excluded := by
  apply mergeSort_eq_of_perm
  have hfile : store.isFile = other.isFile := by
    funext path
    rw [isFile, isFile, h.find_eq]
  have hnames : (store.names place).Perm (other.names place) := (h.map Prod.fst).filterMap _
  unfold entityNames
  rw [hfile]
  exact (hnames.filter _).filter _

end Store

/-! ## What is found -/

/-- The name of a file that discovery is about: it stands in the directory, it has an extension `rs` and
something in front of that, and it is none of the excluded names. -/
structure IsEntityName (store : Store) (place : Place) (excluded : List (List Char)) (name : Bytes) :
    Prop where
  file : ∃ contents mode, store.node? (place ++ [name]) = some (.file contents mode)
  extension : ∃ stem, stem ≠ [] ∧ name = stem ++ encode ".rs".toList
  included : ∀ text ∈ excluded, name ≠ encode text

theorem mem_entitiesIn_iff {store : Store} {directory : Path} {place : Place}
    (hdirectory : store.find directory = .ok (place, .directory)) (excluded : List (List Char))
    (name : Bytes) :
    name ∈ store.entitiesIn directory place excluded ↔
      IsEntityName store place excluded name ∧ WithinLimits directory name := by
  have hpoint : (0x2e : UInt8) :: entityExtension = encode ".rs".toList := by decide
  have hincluded : (!isExcluded excluded name) = true ↔ ∀ text ∈ excluded, name ≠ encode text := by
    rw [Bool.not_eq_true', ← Bool.not_eq_true, isExcluded_iff]
    simp
  unfold Store.entitiesIn
  rw [(List.mergeSort_perm _ _).mem_iff]
  simp only [Store.entityNames, List.mem_filter, Bool.and_eq_true, hasExtension_iff, hpoint, hincluded]
  constructor
  · rintro ⟨⟨hmem, hfile, hextension⟩, hincluded⟩
    obtain ⟨hnode, hlimits⟩ :=
      (Store.isFile_child_iff hdirectory (Store.isName_of_mem_names hmem)).1 hfile
    exact ⟨⟨hnode, hextension, hincluded⟩, hlimits⟩
  · rintro ⟨⟨hnode, hextension, hincluded⟩, hlimits⟩
    obtain ⟨contents, mode, hhere⟩ := hnode
    have hmem := Store.mem_names_of_file hhere
    have hfile := (Store.isFile_child_iff hdirectory (Store.isName_of_mem_names hmem)).2
      ⟨⟨contents, mode, hhere⟩, hlimits⟩
    exact ⟨⟨hmem, hfile, hextension⟩, hincluded⟩

/-- **Discovery.** The paths that are found in a directory are those of different names in the strict order
of their bytes: the names of the entities in it, as far as they can be looked up. So every entity is
found exactly if each can be looked up; and another order of listing changes nothing. -/
theorem discover_exact {store : Store} {directory : Path} {place : Place}
    (hdirectory : store.find directory = .ok (place, .directory)) (excluded : List (List Char)) :
    ∃ (names : List Bytes) (found : Discovery), discover store directory excluded = .ok found ∧
      found.entities = names.map directory.child ∧ names.Pairwise (· < ·) ∧
      (∀ name ∈ names, IsEntityName store place excluded name) ∧
      ((∀ name, IsEntityName store place excluded name → name ∈ names) ↔
        ∀ name, IsEntityName store place excluded name → WithinLimits directory name) ∧
      ∀ other : Store, store.SameListing other →
        (discover other directory excluded).map Discovery.entities = .ok found.entities := by
  have hmem := mem_entitiesIn_iff hdirectory excluded
  refine ⟨store.entitiesIn directory place excluded,
    ⟨(store.entitiesIn directory place excluded).map directory.child,
      (store.skippedIn directory place excluded).map directory.child⟩, ?_, rfl, ?_, ?_, ?_, ?_⟩
  · rw [discover, hdirectory]
  · apply pairwise_lt_mergeSort
    exact ((Store.nodup_names store place).filter _).filter _
  · intro name hname
    exact ((hmem name).1 hname).1
  · constructor
    · intro hall name hname
      exact ((hmem name).1 (hall name hname)).2
    · intro hall name hname
      exact (hmem name).2 ⟨hname, hall name hname⟩
  · intro other hother
    rw [discover, ← hother.find_eq, hdirectory, hother.entitiesIn_eq]
    rfl

/-- A directory with an entity, one that has no name but its extension, an excluded one, one whose name is
no text, and a directory that is called like an entity and holds one. -/
def bakery : Store :=
  [[[0xff, 0x2e, 0x72, 0x73]], [encode "lib.rs".toList], [encode ".rs".toList],
    [encode "b.rs".toList, encode "c.rs".toList], [encode "a.rs".toList]].foldl
    (fun store names => store.putFile (encode "e".toList :: names) [] 0o644) .empty

theorem entitiesIn_bakery :
    bakery.entitiesIn (.ofText "e".toList) [encode "e".toList] ["lib.rs".toList] =
      [encode "a.rs".toList, [0xff, 0x2e, 0x72, 0x73]] := by
  have hnames : (bakery.entityNames (.ofText "e".toList) [encode "e".toList]).filter
      (fun name => !isExcluded ["lib.rs".toList] name) =
      [[0xff, 0x2e, 0x72, 0x73], encode "a.rs".toList] := by
    decide +kernel
  have hswap : ([[0xff, 0x2e, 0x72, 0x73], encode "a.rs".toList] : List Bytes).Perm
      [encode "a.rs".toList, [0xff, 0x2e, 0x72, 0x73]] := List.Perm.swap _ _ _
  unfold Store.entitiesIn
  rw [hnames, mergeSort_eq_of_perm hswap, List.mergeSort_of_pairwise (by decide +kernel)]

theorem discover_exact_bakery :
    bakery.find (.ofText "e".toList) = .ok ([encode "e".toList], .directory) ∧
      ∃ found, discover bakery (.ofText "e".toList) ["lib.rs".toList] = .ok found ∧
        found.entities = [.ofText "e/a.rs".toList, ⟨[0x65, 0x2f, 0xff, 0x2e, 0x72, 0x73]⟩] ∧
        ∀ other : Store, bakery.SameListing other →
          (discover other (.ofText "e".toList) ["lib.rs".toList]).map Discovery.entities =
            .ok found.entities := by
  have hfind : bakery.find (.ofText "e".toList) = .ok ([encode "e".toList], .directory) := by
    decide +kernel
  obtain ⟨names, found, hfound, -, -, -, -, hsame⟩ := discover_exact hfind ["lib.rs".toList]
  refine ⟨hfind, found, hfound, ?_, hsame⟩
  rw [discover, hfind] at hfound
  dsimp only at hfound
  rw [entitiesIn_bakery, Except.ok.injEq] at hfound
  rw [← hfound]
  decide +kernel

/-- A directory with nothing in it but an entity. -/
def loneCake : Store :=
  Store.empty.putFile [encode "e".toList, encode "a.rs".toList] [] 0o644

theorem discover_passes_over_file :
    loneCake.find ((Path.ofText "e".toList).staying 2046) = .ok ([encode "e".toList], .directory) ∧
      IsEntityName loneCake [encode "e".toList] [] (encode "a.rs".toList) ∧
      ∃ found, discover loneCake ((Path.ofText "e".toList).staying 2046) [] = .ok found ∧
        found.entities = [] := by
  have hfind : loneCake.find ((Path.ofText "e".toList).staying 2046) =
      .ok ([encode "e".toList], .directory) := by
    apply Store.find_staying
    · decide +kernel
    · decide
  have hentity : IsEntityName loneCake [encode "e".toList] [] (encode "a.rs".toList) := by
    refine ⟨⟨[], 0o644, by decide +kernel⟩, ⟨encode "a".toList, by decide, by decide⟩, ?_⟩
    intro text hmem
    cases hmem
  refine ⟨hfind, hentity, _, by rw [discover, hfind], ?_⟩
  rw [List.map_eq_nil_iff, List.eq_nil_iff_forall_not_mem]
  intro name hname
  obtain ⟨⟨-, ⟨stem, -, rfl⟩, -⟩, hlimits⟩ := (mem_entitiesIn_iff hfind [] name).1 hname
  have hpath := hlimits.path_le
  have hdirectory := Path.length_staying (.ofText "e".toList) 2046
  have hlong := Path.length_le_child ((Path.ofText "e".toList).staying 2046) (stem ++ encode ".rs".toList)
  rw [List.length_append] at hlong
  have hone : (Path.ofText "e".toList).bytes.length = 1 := by decide
  have hthree : (encode ".rs".toList).length = 3 := by decide
  have hlimit : Store.longestPath = 4095 := rfl
  omega

end ModelMend
