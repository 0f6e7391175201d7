/-!
# Splitting at a mark

`split mark` cuts a list at every occurrence of a mark, so there is one piece more than there are
marks, and no piece holds one (`notMem_of_mem_split`).
-/

namespace ModelMend.Text

variable {α : Type} [DecidableEq α]

/-- The pieces of a list between the occurrences of a mark. -/
def split (mark : α) : List α → List (List α)
  | [] => [[]]
  | a :: rest =>
    if a = mark then [] :: split mark rest
    else
      match split mark rest with
      | [] => [[a]]
      | piece :: pieces => (a :: piece) :: pieces

theorem split_ne_nil (mark : α) (text : List α) : split mark text ≠ [] := by
  cases text with
  | nil => simp [split]
  | cons a rest =>
    unfold split
    split
    · simp
    · split <;> simp

/-- A list without the mark is one piece. -/
theorem split_of_notMem {mark : α} {text : List α} (h : mark ∉ text) :
    split mark text = [text] := by
  induction text with
  | nil => rfl
  | cons a rest ih =>
    have hne : a ≠ mark := fun e => h (e ▸ List.mem_cons_self)
    simp [split, hne, ih fun hmem => h (List.mem_cons_of_mem _ hmem)]

/-- The pieces on the two sides of a mark. -/
theorem split_append_cons (mark : α) (front back : List α) :
    split mark (front ++ mark :: back) = split mark front ++ split mark back := by
  induction front with
  | nil => simp [split]
  | cons a front ih =>
    rw [List.cons_append, split, split, ih]
    by_cases h : a = mark
    · simp [h]
    · cases hs : split mark front with
      | nil => exact absurd hs (split_ne_nil mark front)
      | cons piece pieces => simp [h]

theorem notMem_of_mem_split {mark : α} {text piece : List α} (h : piece ∈ split mark text) :
    mark ∉ piece := by
  induction text generalizing piece with
  | nil => simp_all [split]
  | cons a rest ih =>
    unfold split at h
    split at h
    · rcases List.mem_cons.1 h with rfl | hmem
      · simp
      · exact ih hmem
    · next hne =>
      cases hs : split mark rest with
      | nil => exact absurd hs (split_ne_nil mark rest)
      | cons first pieces =>
        simp only [hs] at h ih
        rcases List.mem_cons.1 h with rfl | hmem
        · simp [ih List.mem_cons_self, Ne.symm hne]
        · exact ih (List.mem_cons_of_mem _ hmem)

end ModelMend.Text
