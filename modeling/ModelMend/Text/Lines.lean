/-!
# Lines and byte offsets

A text is a list of characters and a line is a piece of it between two line feeds; a carriage
return belongs to its line. Splitting and joining are inverse to each other on texts
(`joinLines_splitLines`). Positions inside the library count characters; `byteOffset` turns one
into an offset into the encoded text.
-/

namespace ModelMend

/-- A line of text, without the line feed that ends it. -/
abbrev Line := List Char

end ModelMend

namespace ModelMend.Text

/-- The pieces of a text between its line feeds: one more than there are line feeds. -/
def splitLines : List Char → List (List Char)
  | [] => [[]]
  | c :: rest =>
    if c = '\n' then [] :: splitLines rest
    else
      match splitLines rest with
      | [] => [[c]]
      | line :: lines => (c :: line) :: lines

/-- The lines with a line feed between neighbours. -/
def joinLines : List (List Char) → List Char
  | [] => []
  | [line] => line
  | line :: next :: lines => line ++ '\n' :: joinLines (next :: lines)

def byteLength : List Char → Nat
  | [] => 0
  | c :: rest => c.utf8Size + byteLength rest

/-- The offset in bytes at which the first `n` characters of a line end. -/
def byteOffset (line : List Char) (n : Nat) : Nat :=
  byteLength (line.take n)

theorem splitLines_ne_nil (text : List Char) : splitLines text ≠ [] := by
  cases text with
  | nil => simp [splitLines]
  | cons c rest =>
    unfold splitLines
    split
    · simp
    · split <;> simp

theorem joinLines_cons (line : List Char) {lines : List (List Char)} (h : lines ≠ []) :
    joinLines (line :: lines) = line ++ '\n' :: joinLines lines := by
  cases lines with
  | nil => contradiction
  | cons next lines => rfl

/-- Joining the lines of a text gives the text back. -/
@[simp] theorem joinLines_splitLines (text : List Char) : joinLines (splitLines text) = text := by
  induction text with
  | nil => rfl
  | cons c rest ih =>
    have hne := splitLines_ne_nil rest
    unfold splitLines
    split
    · next h => rw [joinLines_cons _ hne, ih, h]; rfl
    · cases hs : splitLines rest with
      | nil => exact absurd hs hne
      | cons line lines =>
        rw [hs] at ih
        cases lines with
        | nil => simpa [joinLines] using ih
        | cons next lines => simpa [joinLines] using ih

/-- No line holds a line feed. -/
theorem newline_notMem_of_mem_splitLines {text line : List Char} (h : line ∈ splitLines text) :
    '\n' ∉ line := by
  induction text generalizing line with
  | nil => simp_all [splitLines]
  | cons c rest ih =>
    unfold splitLines at h
    split at h
    · rcases List.mem_cons.1 h with rfl | hmem
      · simp
      · exact ih hmem
    · next hc =>
      cases hs : splitLines rest with
      | nil => exact absurd hs (splitLines_ne_nil rest)
      | cons first lines =>
        simp only [hs] at h ih
        rcases List.mem_cons.1 h with rfl | hmem
        · have := ih List.mem_cons_self
          simp [this, Ne.symm hc]
        · exact ih (List.mem_cons_of_mem _ hmem)

@[simp] theorem byteLength_nil : byteLength [] = 0 := rfl

@[simp] theorem byteLength_cons (c : Char) (rest : List Char) :
    byteLength (c :: rest) = c.utf8Size + byteLength rest := rfl

@[simp] theorem byteLength_append (front back : List Char) :
    byteLength (front ++ back) = byteLength front + byteLength back := by
  induction front with
  | nil => simp
  | cons c rest ih => simp [ih, Nat.add_assoc]

end ModelMend.Text
