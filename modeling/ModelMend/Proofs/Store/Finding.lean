import Mathlib.Data.List.Nodup
import ModelMend.Store.Basic

/-!
# Finding and listing

The path of a name in a directory leads to that name at the place of the directory
(`Store.place_of_find_child`). Where paths lead depends on what is a file and what a directory, not
on what the files hold (`Store.SameKinds.find_eq_ok`).
-/

namespace ModelMend

open Text

theorem isName_iff {name : Bytes} :
    isName name = true ↔ name ≠ [] ∧ slash ∉ name ∧ name ≠ selfName ∧ name ≠ parentName := by
  simp [isName, and_assoc]

/-! ## The path of a name in a directory -/

namespace Path

variable {directory : Path} {name : Bytes}

theorem names_child (hname : isName name = true) :
    (directory.child name).names = directory.names ++ [name] := by
  obtain ⟨hempty, hslash, hself, -⟩ := isName_iff.1 hname
  have hlast : (split slash name).filter (fun name => !name.isEmpty && name ≠ selfName) = [name] := by
    rw [split_of_notMem hslash]
    simp [hempty, hself]
  unfold child
  split
  · next h =>
    simp only [Bool.or_eq_true, List.isEmpty_iff, decide_eq_true_eq] at h
    rcases h with h | h
    · simp only [names, pieces, h, List.nil_append, hlast]
      rfl
    · obtain ⟨front, hfront⟩ := List.getLast?_eq_some_iff.1 h
      simp only [names, pieces, hfront, List.append_assoc, List.singleton_append,
        split_append_cons, List.filter_append, hlast]
      simp [split]
  · simp only [names, pieces, split_append_cons, List.filter_append, hlast]

theorem start_child (h : directory.bytes ≠ []) : (directory.child name).start = directory.start := by
  unfold child start isAbsolute
  split <;> simp [List.head?_append_of_ne_nil _ h]

theorem name_child (hname : isName name = true) : (directory.child name).name = name := by
  simp [Path.name, names_child hname]

end Path

namespace Store

variable {store : Store}

/-! ## Where a path leads -/

/-- What it takes for a path to lead somewhere. -/
theorem find_eq_ok_iff {path : Path} {place : Place} {node : Node} :
    store.find path = .ok (place, node) ↔
      (0 ∉ path.bytes ∧ path.bytes ≠ [] ∧ path.bytes.length ≤ longestPath) ∧
        path.names.foldlM store.enter path.start = .ok place ∧ store.node? place = some node ∧
          (node.isFile && path.namesDirectory) = false := by
  unfold find
  by_cases hzero : 0 ∈ path.bytes
  · simp [hzero]
  by_cases hempty : path.bytes = []
  · simp [hempty]
  by_cases hlong : longestPath < path.bytes.length
  · simp [hzero, hempty, hlong, Nat.not_le.2 hlong]
  simp only [List.contains_eq_mem, hzero, decide_false, Bool.false_eq_true, ↓reduceIte,
    List.isEmpty_iff, hempty, hlong, not_false_eq_true, ne_eq, Nat.le_of_not_lt hlong, and_self,
    true_and]
  cases hway : path.names.foldlM store.enter path.start with
  | error fault => simp
  | ok there =>
    dsimp only
    cases hthere : store.node? there with
    | none =>
      simp only [reduceCtorEq, Except.ok.injEq, false_iff, not_and]
      rintro rfl
      simp [hthere]
    | some found =>
      dsimp only
      split
      · next hrefused =>
        simp only [reduceCtorEq, Except.ok.injEq, false_iff, not_and]
        rintro rfl hnode
        rw [hthere, Option.some.injEq] at hnode
        simp [← hnode, hrefused]
      · next hallowed =>
        simp only [Except.ok.injEq, Prod.mk.injEq]
        constructor
        · rintro ⟨rfl, rfl⟩
          exact ⟨rfl, hthere, by simpa using hallowed⟩
        · rintro ⟨rfl, hnode, -⟩
          rw [hthere, Option.some.injEq] at hnode
          exact ⟨rfl, hnode⟩

theorem enter_name {place : Place} {name : Bytes} (hname : isName name = true) {there : Place}
    (h : store.enter place name = .ok there) : there = place ++ [name] := by
  unfold enter at h
  split at h
  · cases h
  · cases h
  · split at h
    · cases h
    · cases h
      exact if_pos (isName_iff.1 hname).2.2.2

/-- The path of a name in a directory leads to the name at the place of the directory. -/
theorem place_of_find_child {directory : Path} {place : Place}
    (hdirectory : store.find directory = .ok (place, .directory)) {name : Bytes}
    (hname : isName name = true) {there : Place} {node : Node}
    (h : store.find (directory.child name) = .ok (there, node)) :
    there = place ++ [name] ∧ store.node? (place ++ [name]) = some node := by
  obtain ⟨⟨-, hempty, -⟩, hway, -, -⟩ := find_eq_ok_iff.1 hdirectory
  obtain ⟨-, hwayChild, hnode, -⟩ := find_eq_ok_iff.1 h
  rw [Path.names_child hname, Path.start_child hempty, List.foldlM_append, hway] at hwayChild
  simp only [List.foldlM_cons, List.foldlM_nil, bind_pure] at hwayChild
  have hstep : store.enter place name = .ok there := hwayChild
  have hthere := enter_name hname hstep
  exact ⟨hthere, hthere ▸ hnode⟩

/-! ## Stores with the same files and directories -/

/-- What is a file and what is a directory is the same in both stores. -/
def SameKinds (store other : Store) : Prop :=
  ∀ place, (store.node? place).map Node.isFile = (other.node? place).map Node.isFile

theorem SameKinds.enter_eq {other : Store} (h : SameKinds store other) : store.enter = other.enter := by
  funext place name
  have hkind := h place
  unfold enter
  cases hleft : store.node? place with
  | none =>
    rw [hleft] at hkind
    rw [Option.map_eq_none_iff.1 hkind.symm]
  | some node =>
    rw [hleft] at hkind
    obtain ⟨node', hright, hfile⟩ := Option.map_eq_some_iff.1 hkind.symm
    rw [hright]
    cases node <;> cases node' <;> first | rfl | cases hfile

/-- A path leads to the same place in stores with the same files and directories. -/
theorem SameKinds.find_eq_ok {other : Store} (h : SameKinds store other) {path : Path}
    {place : Place} {node node' : Node} (hfind : store.find path = .ok (place, node))
    (hnode : other.node? place = some node') : other.find path = .ok (place, node') := by
  obtain ⟨hpath, hway, hhere, hkind⟩ := find_eq_ok_iff.1 hfind
  have hsame := h place
  rw [hhere, hnode, Option.map_some, Option.map_some, Option.some.injEq] at hsame
  exact find_eq_ok_iff.2 ⟨hpath, h.enter_eq ▸ hway, hnode, hsame ▸ hkind⟩

/-! ## The names in a directory -/

theorem mem_names {place : Place} {name : Bytes} :
    name ∈ store.names place ↔ place ++ [name] ∈ store.places := by
  simp only [names, List.mem_filterMap]
  constructor
  · rintro ⟨other, hmem, hname⟩
    split at hname
    · next hplace =>
      obtain ⟨front, rfl⟩ := List.getLast?_eq_some_iff.1 hname
      rw [List.dropLast_concat] at hplace
      exact hplace ▸ hmem
    · cases hname
  · intro hmem
    exact ⟨place ++ [name], hmem, by simp⟩

theorem isName_of_mem_names {place : Place} {name : Bytes} (h : name ∈ store.names place) :
    isName name = true := by
  obtain ⟨entry, hentry, heq⟩ := List.mem_map.1 (mem_names.1 h)
  have hproper := store.proper entry hentry
  rw [heq] at hproper
  simpa [Place.isProper] using hproper

/-- No name is in a directory twice. -/
theorem nodup_names (store : Store) (place : Place) : (store.names place).Nodup := by
  refine List.Nodup.filterMap ?_ store.distinct
  intro other other' name hother hother'
  have hplace {there : Place} (h : name ∈ if there.dropLast = place then there.getLast? else none) :
      there = place ++ [name] := by
    split at h
    · next hdirectory =>
      obtain ⟨front, rfl⟩ := List.getLast?_eq_some_iff.1 (Option.mem_def.1 h)
      rw [← hdirectory, List.dropLast_concat]
    · cases h
  rw [hplace hother, hplace hother']

end Store

end ModelMend
