import ModelMend.Decimal.Digits
import ModelMend.Store.Change

/-!
# Replacing a file as a whole

A file is never written over. A file of another name beside it takes the new contents and the mode of
the old file, and then its name, so that at every moment the old contents or the new are found there
and nothing in between. Which name the other file had for a while makes no difference
(`Store.node?_replaceThrough`).
-/

namespace ModelMend

open Text

namespace Store

/-- The store with a change to what is at a place. -/
def change (store : Store) (place : Place) (act : Node → Node) : Store where
  nodes := store.nodes.map fun entry => if entry.1 = place then (entry.1, act entry.2) else entry
  distinct := by
    have hplaces : (store.nodes.map fun entry =>
        if entry.1 = place then (entry.1, act entry.2) else entry).map Prod.fst =
        store.nodes.map Prod.fst := by
      rw [List.map_map]
      refine List.map_congr_left fun entry _ => ?_
      simp only [Function.comp]
      split <;> rfl
    rw [hplaces]
    exact store.distinct
  proper := by
    intro entry hentry
    obtain ⟨old, hold, rfl⟩ := List.mem_map.1 hentry
    have hproper := store.proper old hold
    split <;> exact hproper

def setContents (store : Store) (place : Place) (contents : Bytes) : Store :=
  store.change place (Node.withContents contents)

def setMode (store : Store) (place : Place) (mode : Nat) : Store :=
  store.change place (Node.withMode mode)

/-- The store with what is at one place put at another, where it takes the place of what was there. -/
def rename (store : Store) (source target : Place) : Store :=
  if h : Place.isProper target = true ∧ (store.node? source).isSome = true then
    { nodes := (store.nodes.filter fun entry => entry.1 = source || entry.1 ≠ target).map fun entry =>
        if entry.1 = source then (target, entry.2) else entry
      distinct := by
        have hdistinct := store.distinct
        unfold List.Nodup at hdistinct ⊢
        rw [List.pairwise_map] at hdistinct
        rw [List.pairwise_map, List.pairwise_map]
        refine (hdistinct.sublist List.filter_sublist).imp_of_mem ?_
        intro left right hleft hright hne
        have hkept := (List.mem_filter.1 hleft).2
        have hkept' := (List.mem_filter.1 hright).2
        simp only [Bool.or_eq_true, decide_eq_true_eq] at hkept hkept'
        by_cases hl : left.1 = source <;> by_cases hr : right.1 = source
        · exact absurd (hl.trans hr.symm) hne
        · simpa [hl, hr] using Ne.symm (hkept'.resolve_left hr)
        · simpa [hl, hr] using hkept.resolve_left hl
        · simpa [hl, hr] using hne
      proper := by
        intro entry hentry
        obtain ⟨old, hold, rfl⟩ := List.mem_map.1 hentry
        split
        · exact h.1
        · exact store.proper old (List.mem_filter.1 hold).1 }
  else store

/-- The mode of a file that was made to hold something for a while. -/
def privateMode : Nat := 0o600

/-- Other contents for the file at a place, by way of a file with this name beside it. -/
def replaceThrough (store : Store) (name : Bytes) (place : Place) (contents : Bytes) : Store :=
  match store.node? place with
  | some (.file _ mode) =>
    let temporary := place.dropLast ++ [name]
    let written := (store.add temporary (.file [] privateMode)).setContents temporary contents
    (written.setMode temporary mode).rename temporary place
  | _ => store

/-- The names that are tried for a file that is there for a while. -/
def temporaryName (attempt : Nat) : Bytes :=
  encode (".tmp".toList ++ decimalDigits attempt)

/-- The first of these names that nothing in a directory has. -/
def freeName (store : Store) (directory : Place) : Bytes :=
  (((List.range (store.nodes.length + 1)).map temporaryName).find? fun name =>
    (store.node? (directory ++ [name])).isNone).getD []

/-- The file at a place with other contents. -/
def replaceFile (store : Store) (place : Place) (contents : Bytes) : Store :=
  store.replaceThrough (store.freeName place.dropLast) place contents

/-- A change is found at its place, and everything else as before. -/
theorem node?_change (store : Store) (place : Place) {act : Node → Node}
    (hact : act .directory = .directory) (other : Place) :
    (store.change place act).node? other =
      if other = place then (store.node? other).map act else store.node? other := by
  apply node?_eq_of_mem_iff
  · intro houter
    rw [node?_of_isOutermost store houter, Option.map_some, hact, ite_self]
  · intro houter found
    simp only [change, List.mem_map, Prod.exists]
    constructor
    · rintro ⟨here, node, hmem, heq⟩
      by_cases hhere : here = place
      · rw [if_pos hhere] at heq
        obtain ⟨rfl, rfl⟩ := Prod.mk.inj heq
        rw [if_pos hhere, (node?_eq_some_iff store houter).2 hmem]
        rfl
      · rw [if_neg hhere] at heq
        obtain ⟨rfl, rfl⟩ := Prod.mk.inj heq
        rw [if_neg hhere, (node?_eq_some_iff store houter).2 hmem]
    · intro hfound
      by_cases hother : other = place
      · rw [if_pos hother] at hfound
        obtain ⟨node, hnode, rfl⟩ := Option.map_eq_some_iff.1 hfound
        exact ⟨other, node, (node?_eq_some_iff store houter).1 hnode, if_pos hother⟩
      · rw [if_neg hother] at hfound
        exact ⟨other, found, (node?_eq_some_iff store houter).1 hfound, if_neg hother⟩

/-- What was at the one place is found at the other; nothing is left behind, and everything else is
as before. -/
theorem node?_rename (store : Store) {source target : Place} {node : Node}
    (hsource : Place.isProper source = true) (htarget : Place.isProper target = true)
    (hnode : store.node? source = some node) (other : Place) :
    (store.rename source target).node? other =
      if other = target then some node
      else if other = source then none
      else store.node? other := by
  have hsource' := Place.isOutermost_of_isProper hsource
  apply node?_eq_of_mem_iff
  · intro houter
    rw [if_neg (Place.ne_of_isOutermost houter htarget),
      if_neg (Place.ne_of_isOutermost houter hsource), node?_of_isOutermost store houter]
  · intro houter found
    simp only [rename, htarget, hnode, Option.isSome_some, and_self, ↓reduceDIte, List.mem_map,
      List.mem_filter, Bool.or_eq_true, decide_eq_true_eq, Prod.exists]
    constructor
    · rintro ⟨here, old, ⟨hmem, hkept⟩, heq⟩
      by_cases hhere : here = source
      · rw [if_pos hhere] at heq
        obtain ⟨rfl, rfl⟩ := Prod.mk.inj heq
        rw [hhere, ← node?_eq_some_iff store hsource', hnode] at hmem
        rw [if_pos rfl, hmem]
      · rw [if_neg hhere] at heq
        obtain ⟨rfl, rfl⟩ := Prod.mk.inj heq
        rw [if_neg (hkept.resolve_left hhere), if_neg hhere, (node?_eq_some_iff store houter).2 hmem]
    · intro hfound
      by_cases hother : other = target
      · rw [if_pos hother] at hfound
        cases hfound
        exact ⟨source, node, ⟨(node?_eq_some_iff store hsource').1 hnode, Or.inl rfl⟩,
          by rw [if_pos rfl, hother]⟩
      · rw [if_neg hother] at hfound
        by_cases hleft : other = source
        · rw [if_pos hleft] at hfound
          cases hfound
        · rw [if_neg hleft] at hfound
          exact ⟨other, found, ⟨(node?_eq_some_iff store houter).1 hfound, Or.inr hother⟩,
            if_neg hleft⟩

end Store

end ModelMend
