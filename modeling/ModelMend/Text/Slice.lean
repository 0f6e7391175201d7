import ModelMend.Text.Lines
import ModelMend.Text.Utf8

/-!
# Slices at byte offsets

A text is stored as its bytes, and a slice of it is asked for by a byte offset. There is none where the
offset lies inside a character or behind the end of the text (`isSome_splitAtByte?_iff`).
-/

namespace ModelMend.Text

/-- The offset lies between two characters of the text, or at one of its ends. -/
def IsBoundary (text : List Char) (offset : Nat) : Prop :=
  ∃ front back, text = front ++ back ∧ byteLength front = offset

/-- The text in front of a byte offset and the text behind it. -/
def splitAtByte? : List Char → Nat → Option (List Char × List Char)
  | text, 0 => some ([], text)
  | [], _ + 1 => none
  | c :: rest, offset + 1 =>
    if c.utf8Size ≤ offset + 1 then
      (splitAtByte? rest (offset + 1 - c.utf8Size)).map fun (front, back) => (c :: front, back)
    else none

def sliceTo? (text : List Char) (offset : Nat) : Option (List Char) :=
  (splitAtByte? text offset).map Prod.fst

def sliceFrom? (text : List Char) (offset : Nat) : Option (List Char) :=
  (splitAtByte? text offset).map Prod.snd

theorem splitAtByte?_append (front back : List Char) :
    splitAtByte? (front ++ back) (byteLength front) = some (front, back) := by
  induction front with
  | nil =>
    rw [List.nil_append, byteLength_nil]
    cases back <;> rfl
  | cons c front ih =>
    have hsize := c.utf8Size_pos
    obtain ⟨n, hn⟩ : ∃ n, byteLength (c :: front) = n + 1 :=
      Nat.exists_eq_succ_of_ne_zero (by rw [byteLength_cons]; omega)
    have hrest : n + 1 - c.utf8Size = byteLength front := by
      rw [← hn, byteLength_cons, Nat.add_sub_cancel_left]
    rw [hn, List.cons_append, splitAtByte?, if_pos (by rw [← hn, byteLength_cons]; omega), hrest, ih]
    rfl

@[simp] theorem sliceTo?_append (front back : List Char) :
    sliceTo? (front ++ back) (byteLength front) = some front := by
  rw [sliceTo?, splitAtByte?_append, Option.map_some]

@[simp] theorem sliceFrom?_append (front back : List Char) :
    sliceFrom? (front ++ back) (byteLength front) = some back := by
  rw [sliceFrom?, splitAtByte?_append, Option.map_some]

/-- The two sides of an offset make up the text, and the first has so many bytes. -/
theorem eq_of_splitAtByte? {text front back : List Char} {offset : Nat}
    (h : splitAtByte? text offset = some (front, back)) :
    text = front ++ back ∧ byteLength front = offset := by
  induction text generalizing offset front with
  | nil =>
    cases offset with
    | zero =>
      cases h
      exact ⟨rfl, rfl⟩
    | succ n => cases h
  | cons c rest ih =>
    cases offset with
    | zero =>
      cases h
      exact ⟨rfl, rfl⟩
    | succ n =>
      rw [splitAtByte?] at h
      split at h
      · next hsize =>
        obtain ⟨⟨front', back'⟩, hsplit, hpair⟩ := Option.map_eq_some_iff.1 h
        obtain ⟨rfl, rfl⟩ := Prod.mk.inj hpair
        obtain ⟨rfl, hlength⟩ := ih hsplit
        refine ⟨rfl, ?_⟩
        rw [byteLength_cons, hlength]
        omega
      · cases h

/-- **A slice is there exactly at the boundaries of a text.** -/
theorem isSome_splitAtByte?_iff {text : List Char} {offset : Nat} :
    (splitAtByte? text offset).isSome = true ↔ IsBoundary text offset := by
  constructor
  · intro h
    obtain ⟨⟨front, back⟩, hsplit⟩ := Option.isSome_iff_exists.1 h
    exact ⟨front, back, eq_of_splitAtByte? hsplit⟩
  · rintro ⟨front, back, rfl, rfl⟩
    rw [splitAtByte?_append]
    rfl

end ModelMend.Text
