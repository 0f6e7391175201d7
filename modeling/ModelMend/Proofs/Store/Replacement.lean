import Mathlib.Data.List.Perm.Subperm
import Mathlib.Data.List.Nodup
import ModelMend.Proofs.Text.Bytes
import ModelMend.Store.Replacement

/-!
# What a replacement leaves behind

The name of the file that is there for a while is new to its directory: more names are tried than
there are things in the store, and no two of them are the same. So nothing is lost when it comes and
nothing is left when it goes, and the replaced file is all that differs (`Store.node?_replaceFile`).
-/

namespace ModelMend

open Text

/-! ## Names that are tried -/

theorem decimalDigits_injective : Function.Injective decimalDigits := by
  intro n m h
  have hback (k : Nat) : Nat.ofDigitChars 10 (decimalDigits k) 0 = k :=
    Nat.ofDigitChars_toDigits (by decide) (by decide)
  rw [← hback n, h, hback m]

namespace Store

theorem temporaryName_injective : Function.Injective temporaryName := by
  intro n m h
  have htext : ".tmp".toList ++ decimalDigits n = ".tmp".toList ++ decimalDigits m := by
    have := congrArg decode? h
    simpa only [temporaryName, decode?_encode, Option.some.injEq] using this
  exact decimalDigits_injective (List.append_cancel_left htext)

theorem isName_temporaryName (attempt : Nat) : isName (temporaryName attempt) = true := by
  have hfront : temporaryName attempt = encode ".tmp".toList ++ encode (decimalDigits attempt) :=
    List.flatMap_append
  have hslash : slash ∉ temporaryName attempt := by
    have hletter : '/' ∉ ".tmp".toList ++ decimalDigits attempt := by
      intro hmem
      rcases List.mem_append.1 hmem with h | h
      · revert h
        decide
      · have hdigit := Nat.isDigit_of_mem_toDigits (by decide) (by decide) h
        revert hdigit
        decide
    exact fun hmem => hletter ((mem_encode_iff (by decide)).1 hmem)
  have hlong : 4 ≤ (temporaryName attempt).length := by
    rw [hfront, List.length_append]
    exact Nat.le_add_right 4 _
  have hne {name : Bytes} (hshort : name.length < 4) : temporaryName attempt ≠ name := by
    rintro rfl
    omega
  simp only [isName, Bool.and_eq_true, decide_eq_true_eq, Bool.not_eq_true',
    List.contains_eq_mem, decide_eq_false_iff_not, List.isEmpty_eq_false_iff]
  exact ⟨⟨⟨hne (by decide), hslash⟩, hne (by decide)⟩, hne (by decide)⟩

/-! ## The name that is taken -/

section

variable (store : Store) (directory : Place)

/-- Some of the names that are tried is new to the directory. -/
theorem exists_temporaryName_free : ∃ attempt < store.nodes.length + 1,
    store.node? (directory ++ [temporaryName attempt]) = none := by
  by_contra hnone
  push Not at hnone
  -- a place of its own in the store for every name that is tried is one too many
  let tried := (List.range (store.nodes.length + 1)).map fun attempt =>
    directory ++ [temporaryName attempt]
  have hdistinct : tried.Nodup := by
    refine List.Nodup.map ?_ List.nodup_range
    intro n m h
    have hlast := List.append_cancel_left h
    exact temporaryName_injective (List.singleton_inj.1 hlast)
  have htaken : tried ⊆ store.places := by
    intro place hmem
    obtain ⟨attempt, hattempt, rfl⟩ := List.mem_map.1 hmem
    have hproper : Place.isProper (directory ++ [temporaryName attempt]) = true := by
      simp [Place.isProper, isName_temporaryName]
    by_contra hfree
    exact hnone attempt (List.mem_range.1 hattempt)
      ((node?_eq_none_iff store (Place.isOutermost_of_isProper hproper)).2 hfree)
  have hlength := (hdistinct.subperm htaken).length_le
  simp only [tried, places, List.length_map, List.length_range] at hlength
  omega

theorem freeName_spec : isName (store.freeName directory) = true ∧
    store.node? (directory ++ [store.freeName directory]) = none := by
  unfold freeName
  cases hfound : ((List.range (store.nodes.length + 1)).map temporaryName).find? fun name =>
      (store.node? (directory ++ [name])).isNone with
  | none =>
    obtain ⟨attempt, hattempt, hfree⟩ := exists_temporaryName_free store directory
    have htried := List.mem_map_of_mem (f := temporaryName) (List.mem_range.2 hattempt)
    have := List.find?_eq_none.1 hfound _ htried
    simp [hfree] at this
  | some name =>
    have hfree := List.find?_some hfound
    obtain ⟨attempt, -, rfl⟩ := List.mem_map.1 (List.mem_of_find?_eq_some hfound)
    exact ⟨isName_temporaryName attempt, Option.isNone_iff_eq_none.1 hfree⟩

end

/-! ## The replacement -/

section

variable {store : Store} {place : Place} {old : Bytes} {mode : Nat}
  (hfile : store.node? place = some (.file old mode))

include hfile

theorem isProper_of_file : Place.isProper place = true := by
  cases houter : Place.isOutermost place with
  | true =>
    rw [node?_of_isOutermost store houter] at hfile
    cases hfile
  | false => exact store.proper _ ((node?_eq_some_iff store houter).1 hfile)

/-- A file that is replaced by way of a new name has the new contents and its old mode, and everything
else is as before. -/
theorem node?_replaceThrough {name : Bytes} (hname : isName name = true)
    (hfree : store.node? (place.dropLast ++ [name]) = none) (contents : Bytes) (other : Place) :
    (store.replaceThrough name place contents).node? other =
      if other = place then some (.file contents mode) else store.node? other := by
  have hproper : Place.isProper (place.dropLast ++ [name]) = true := by
    simp [Place.isProper, hname]
  have hne : place ≠ place.dropLast ++ [name] := by
    intro heq
    rw [← heq, hfile] at hfree
    cases hfree
  unfold replaceThrough
  rw [hfile]
  dsimp only
  generalize place.dropLast ++ [name] = temporary at *
  let written := ((store.add temporary (.file [] privateMode)).setContents temporary contents).setMode
    temporary mode
  have hwritten (other : Place) : written.node? other =
      if other = temporary then some (.file contents mode) else store.node? other := by
    simp only [written, setMode, setContents]
    rw [node?_change _ _ rfl, node?_change _ _ rfl, node?_add store hproper hfree]
    by_cases h : other = temporary
    · simp only [h, ↓reduceIte]
      rfl
    · simp only [h, ↓reduceIte]
  have hmoved := node?_rename written hproper (isProper_of_file hfile)
    (by rw [hwritten, if_pos rfl]) other
  rw [hwritten] at hmoved
  by_cases hplace : other = place
  · simpa only [hplace, ↓reduceIte] using hmoved
  · by_cases htemporary : other = temporary
    · simpa only [htemporary, Ne.symm hne, hfree, ↓reduceIte] using hmoved
    · simpa only [hplace, htemporary, ↓reduceIte] using hmoved

/-- **A file that is replaced has the new contents and its old mode, and everything else is as
before.** -/
theorem node?_replaceFile (contents : Bytes) (other : Place) :
    (store.replaceFile place contents).node? other =
      if other = place then some (.file contents mode) else store.node? other :=
  node?_replaceThrough hfile (freeName_spec store place.dropLast).1
    (freeName_spec store place.dropLast).2 contents other

end

end Store

end ModelMend
