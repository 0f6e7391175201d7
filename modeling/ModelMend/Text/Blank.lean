import ModelMend.Text.CharTable

/-!
# White space

Blank characters are those of the Unicode property `White_Space`: more than the ASCII blanks, and
fewer than all invisible characters (a zero width space or a byte order mark is not blank). A line
is trimmed on either side, and its indentation is what the left trim takes away.
-/

namespace ModelMend.Text

def whiteSpace : CharTable :=
  [(0x09, 0x0d), (0x20, 0x20), (0x85, 0x85), (0xa0, 0xa0), (0x1680, 0x1680), (0x2000, 0x200a),
   (0x2028, 0x2029), (0x202f, 0x202f), (0x205f, 0x205f), (0x3000, 0x3000)]

/-- The character is white space in the sense of Unicode. -/
def isBlank (c : Char) : Bool :=
  whiteSpace.has c

def trimStart (text : List Char) : List Char :=
  text.dropWhile isBlank

def trimEnd (text : List Char) : List Char :=
  (text.reverse.dropWhile isBlank).reverse

def trim (text : List Char) : List Char :=
  trimEnd (trimStart text)

/-- The leading white space of a line. -/
def indent (line : List Char) : List Char :=
  line.takeWhile isBlank

@[simp] theorem indent_append_trimStart (line : List Char) : indent line ++ trimStart line = line :=
  List.takeWhile_append_dropWhile

@[simp] theorem trimStart_nil : trimStart [] = [] := rfl

@[simp] theorem trimEnd_nil : trimEnd [] = [] := rfl

theorem trimStart_cons_of_blank {c : Char} (h : isBlank c = true) (rest : List Char) :
    trimStart (c :: rest) = trimStart rest := by
  simp [trimStart, h]

theorem trimStart_cons_of_not_blank {c : Char} (h : isBlank c = false) (rest : List Char) :
    trimStart (c :: rest) = c :: rest := by
  simp [trimStart, h]

/-- Everything in the indentation of a line is white space. -/
theorem isBlank_of_mem_indent {c : Char} {line : List Char} (h : c ∈ indent line) :
    isBlank c = true := by
  induction line with
  | nil => simp [indent] at h
  | cons d rest ih =>
    cases hd : isBlank d with
    | false => simp [indent, hd] at h
    | true =>
      have step : indent (d :: rest) = d :: indent rest := by simp [indent, hd]
      rw [step] at h
      rcases List.mem_cons.1 h with rfl | hmem
      · exact hd
      · exact ih hmem

end ModelMend.Text
