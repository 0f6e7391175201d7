import ModelMend.Store.Basic

/-!
# Changes to a store

Putting files and directories into a store, taking them out, and listing its files. Putting
something at a place brings along the directories above it. Where nothing can be, nothing is put.
-/

namespace ModelMend

open Text

namespace Store

/-- The store with something new at a place, if nothing is there yet. -/
def add (store : Store) (place : Place) (node : Node) : Store :=
  if h : Place.isProper place = true ∧ store.node? place = none then
    { nodes := store.nodes ++ [(place, node)]
      distinct := by
        have hfree := (node?_eq_none_iff store (Place.isOutermost_of_isProper h.1)).1 h.2
        rw [List.map_append, List.nodup_append]
        refine ⟨store.distinct, List.nodup_cons.2 ⟨List.not_mem_nil, List.nodup_nil⟩, ?_⟩
        intro other hother here hhere heq
        rw [heq, List.mem_singleton.1 hhere] at hother
        exact hfree hother
      proper := by
        intro entry hentry
        rcases List.mem_append.1 hentry with hold | hnew
        · exact store.proper entry hold
        · exact List.mem_singleton.1 hnew ▸ h.1 }
  else store

/-- The nodes with one of them put at a place. -/
def assign (place : Place) (node : Node) : List (Place × Node) → List (Place × Node)
  | [] => [(place, node)]
  | entry :: rest =>
    if entry.1 = place then (place, node) :: rest else entry :: assign place node rest

theorem mem_assign {place : Place} {node : Node} {nodes : List (Place × Node)}
    {entry : Place × Node} (h : entry ∈ assign place node nodes) :
    entry = (place, node) ∨ entry ∈ nodes := by
  induction nodes with
  | nil => exact Or.inl (List.mem_singleton.1 h)
  | cons first rest ih =>
    unfold assign at h
    split at h
    · rcases List.mem_cons.1 h with hhere | hrest
      · exact Or.inl hhere
      · exact Or.inr (List.mem_cons_of_mem _ hrest)
    · rcases List.mem_cons.1 h with hfirst | hrest
      · exact Or.inr (hfirst ▸ List.mem_cons_self)
      · exact (ih hrest).imp_right (List.mem_cons_of_mem _)

theorem nodup_assign {place : Place} {node : Node} {nodes : List (Place × Node)}
    (h : (nodes.map Prod.fst).Nodup) : ((assign place node nodes).map Prod.fst).Nodup := by
  induction nodes with
  | nil => simp [assign]
  | cons first rest ih =>
    obtain ⟨hfirst, hrest⟩ := List.nodup_cons.1 h
    unfold assign
    split
    · next heq => exact List.nodup_cons.2 ⟨heq ▸ hfirst, hrest⟩
    · next hne =>
      refine List.nodup_cons.2 ⟨?_, ih hrest⟩
      intro hmem
      obtain ⟨entry, hentry, heq⟩ := List.mem_map.1 hmem
      rcases mem_assign hentry with rfl | hold
      · exact hne heq.symm
      · exact hfirst (heq ▸ List.mem_map_of_mem hold)

/-- The places above a place, the root left out, from the outside in. -/
def above (place : Place) : List Place :=
  (List.range (place.length - 1)).map fun n => place.take (n + 1)

/-- The store with directories at places, as far as nothing is there yet. -/
def addDirectories (store : Store) (places : List Place) : Store :=
  places.foldl (fun store place => store.add place .directory) store

def putFile (store : Store) (place : Place) (contents : Bytes) (mode : Nat) : Store :=
  let store := store.addDirectories (above place)
  if h : Place.isProper place = true then
    { nodes := assign place (.file contents mode) store.nodes
      distinct := nodup_assign store.distinct
      proper := by
        intro entry hentry
        rcases mem_assign hentry with rfl | hold
        · exact h
        · exact store.proper entry hold }
  else store

def putDirectory (store : Store) (place : Place) : Store :=
  store.addDirectories (above place ++ [place])

/-- The store without what is at a place or below it. -/
def remove (store : Store) (place : Place) : Store where
  nodes := store.nodes.filter fun entry => !place.isPrefixOf entry.1
  distinct := (List.filter_sublist.map Prod.fst).nodup store.distinct
  proper entry hentry := store.proper entry (List.mem_filter.1 hentry).1

def mode? (store : Store) (path : Path) : Option Nat :=
  match store.find path with
  | .ok (_, .file _ mode) => some mode
  | _ => none

/-- The files of a store with their paths from the root. -/
def files (store : Store) : List (Path × Bytes) :=
  store.nodes.filterMap fun entry =>
    match entry.2 with
    | .file contents _ => some (⟨List.intercalate [slash] entry.1⟩, contents)
    | .directory => none

/-- What is added is found at its place, and everything else as before. -/
theorem node?_add (store : Store) {place : Place} (hproper : Place.isProper place = true)
    (hfree : store.node? place = none) (node : Node) (other : Place) :
    (store.add place node).node? other =
      if other = place then some node else store.node? other := by
  apply node?_eq_of_mem_iff
  · intro houter
    rw [if_neg (Place.ne_of_isOutermost houter hproper), node?_of_isOutermost store houter]
  · intro houter found
    simp only [add, hproper, hfree, and_self, ↓reduceDIte, List.mem_append, List.mem_singleton,
      Prod.mk.injEq]
    rw [← node?_eq_some_iff store houter]
    by_cases heq : other = place
    · subst heq
      simp [hfree, eq_comm]
    · simp [heq]

end Store

end ModelMend
