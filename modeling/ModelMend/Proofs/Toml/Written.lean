import ModelMend.Proofs.Text.Bytes
import ModelMend.Settings.Load

/-!
# Documents that are written for a directory

Every text can be written as a string of a document: a quote and a backslash behind a backslash, and a
control character as a code point. The string reads back as the text (`lineString?_quoted`), and so does
a document that names it as the directory (`parse?_documentOf`).
-/

namespace ModelMend.Toml

open Text

/-! ## Strings -/

/-- A character inside the quotes of a string. -/
def escaped (c : Char) : List Char :=
  if c = '"' ∨ c = '\\' then ['\\', c]
  else if isPlainChar c then [c]
  else ['\\', 'u', '0', '0', Nat.digitChar (c.toNat / 16), Nat.digitChar (c.toNat % 16)]

/-- A text as a string on one line, after its opening quote. -/
def closing (text : List Char) : List Char :=
  text.flatMap escaped ++ ['"']

theorem toNat_of_not_isPlainChar {c : Char} (h : isPlainChar c = false) :
    c.toNat < 0x20 ∨ c.toNat = 0x7f := by
  simp only [isPlainChar, Bool.or_eq_false_iff, Bool.and_eq_false_iff, decide_eq_false_iff_not] at h
  omega

theorem hexValue?_digitChar : ∀ digit < 16, hexValue? (Nat.digitChar digit) = some digit := by
  decide

namespace StringKind

variable {kind : StringKind} {state : StringState}

theorem readFrom_cons {c : Char} {out : List Char × StringState} (hgoes : kind.goesOn state c = true)
    (hstep : kind.step state c = some out) (rest : List Char) :
    kind.readFrom state (c :: rest) =
      (kind.readFrom out.2 rest).map fun read => (out.1 ++ read.1, read.2) := by
  rw [readFrom, if_pos hgoes, hstep, Option.bind_some]

/-- A character that writes nothing only leads to another state. -/
theorem readFrom_cons_silent {c : Char} {next : StringState} (hgoes : kind.goesOn state c = true)
    (hstep : kind.step state c = some ([], next)) (rest : List Char) :
    kind.readFrom state (c :: rest) = kind.readFrom next rest := by
  rw [readFrom_cons hgoes hstep]
  cases kind.readFrom next rest <;> rfl

theorem step_code {left value digit : Nat} (hleft : 1 < left) (hdigit : digit < 16) :
    kind.step (.code left value) (Nat.digitChar digit) =
      some ([], .code (left - 1) (16 * value + digit)) := by
  rw [step, stepCode, hexValue?_digitChar digit hdigit, Option.bind_some]
  exact if_pos hleft

theorem step_lastCode {value digit : Nat} (hdigit : digit < 16)
    (hvalid : (16 * value + digit).isValidChar) :
    kind.step (.code 1 value) (Nat.digitChar digit) =
      some ([Char.ofNat (16 * value + digit)], .plain) := by
  rw [step, stepCode, hexValue?_digitChar digit hdigit, Option.bind_some, if_neg (Nat.lt_irrefl 1),
    if_pos hvalid]

/-- A character that is written as a code point reads back as itself. -/
theorem readFrom_code {c : Char} (hc : c.toNat < 0x100) (rest : List Char) :
    basicString.readFrom .plain
        (['\\', 'u', '0', '0', Nat.digitChar (c.toNat / 16), Nat.digitChar (c.toNat % 16)] ++ rest) =
      (basicString.readFrom .plain rest).map fun read => (c :: read.1, read.2) := by
  have hhigh : c.toNat / 16 < 16 := by omega
  have hlow : c.toNat % 16 < 16 := by omega
  have hsum : 16 * (16 * (16 * (16 * 0 + 0) + 0) + c.toNat / 16) + c.toNat % 16 = c.toNat := by omega
  have hlast : basicString.step (.code 1 (16 * (16 * (16 * 0 + 0) + 0) + c.toNat / 16))
      (Nat.digitChar (c.toNat % 16)) = some ([c], .plain) := by
    rw [step_lastCode hlow (hsum.symm ▸ c.valid), hsum, Char.ofNat_toNat]
  change basicString.readFrom .plain ('\\' :: 'u' :: Nat.digitChar 0 :: Nat.digitChar 0 ::
    Nat.digitChar (c.toNat / 16) :: Nat.digitChar (c.toNat % 16) :: rest) = _
  rw [readFrom_cons_silent rfl rfl, readFrom_cons_silent rfl rfl,
    readFrom_cons_silent rfl (step_code (by decide) (by decide)),
    readFrom_cons_silent rfl (step_code (by decide) (by decide)),
    readFrom_cons_silent rfl (step_code (by decide) hhigh), readFrom_cons rfl hlast]
  rfl

theorem readFrom_escaped (c : Char) (rest : List Char) :
    basicString.readFrom .plain (escaped c ++ rest) =
      (basicString.readFrom .plain rest).map fun read => (c :: read.1, read.2) := by
  unfold escaped
  split
  · next hquote =>
    have hstep : basicString.step .escape c = some ([c], .plain) := by
      rcases hquote with rfl | rfl <;> rfl
    change basicString.readFrom .plain ('\\' :: c :: rest) = _
    rw [readFrom_cons_silent rfl rfl, readFrom_cons rfl hstep]
    rfl
  · next hquote =>
    obtain ⟨hquote, hslash⟩ := not_or.1 hquote
    split
    · next hplain =>
      have hstep : basicString.step .plain c = some ([c], .plain) := by
        change basicString.stepPlain c = _
        have hquote' : c ≠ basicString.quote := hquote
        simp [stepPlain, hquote', hslash, hplain]
      rw [List.singleton_append, readFrom_cons rfl hstep]
      rfl
    · next hplain =>
      have hrange := toNat_of_not_isPlainChar (Bool.eq_false_iff.2 hplain)
      exact readFrom_code (by omega) rest

/-- What is written as a string reads back. -/
theorem readFrom_closing (text rest : List Char) :
    basicString.readFrom .plain (closing text ++ rest) = some (text, rest) := by
  unfold closing
  induction text with
  | nil =>
    have hend : basicString.readFrom .closed rest = some ([], rest) := by
      cases rest <;> rfl
    change basicString.readFrom .plain ('"' :: rest) = _
    have hquote : basicString.step .plain '"' = some ([], .closed) := rfl
    rw [readFrom_cons_silent rfl hquote, hend]
  | cons c text ih =>
    rw [List.flatMap_cons, List.append_assoc, List.append_assoc, readFrom_escaped,
      ← List.append_assoc, ih]
    rfl

end StringKind

/-- No text begins like the quotes of a string that runs over several lines. -/
theorem string?_quoted {text : List Char} (h : text ≠ []) (rest : List Char) :
    string? ('"' :: (closing text ++ rest)) = some (text, rest) := by
  have hline := StringKind.readFrom_closing text rest
  cases text with
  | nil => exact absurd rfl h
  | cons c text =>
    have hhead : ∃ first more, escaped c = first :: more ∧ first ≠ '"' := by
      unfold escaped
      split
      · exact ⟨_, _, rfl, by decide⟩
      · next hquote =>
        split
        · exact ⟨_, _, rfl, (not_or.1 hquote).1⟩
        · exact ⟨_, _, rfl, by decide⟩
    obtain ⟨first, more, hescaped, hfirst⟩ := hhead
    unfold closing at hline ⊢
    rw [List.flatMap_cons, hescaped, List.cons_append, List.cons_append, List.cons_append] at hline ⊢
    unfold string?
    split
    · next heq =>
      rw [List.cons.injEq, List.cons.injEq] at heq
      exact absurd heq.2.1 hfirst
    · next heq =>
      rw [List.cons.injEq] at heq
      exact absurd heq.1 (by decide)
    · exact hline

/-! ## The document -/

/-- The document that names a directory. -/
def documentOf (directory : List Char) : List Char :=
  "[entities]\ndir = \"".toList ++ closing directory ++ ['\n']

/-- The entries of a document that names a directory, and nothing else. -/
def directoryEntries (directory : List Char) : Entries :=
  [("entities".toList, .table .header [("dir".toList, .string directory)])]

theorem unifiedLines?_of_notMem {text : List Char} (h : '\r' ∉ text) : unifiedLines? text = some text := by
  induction text with
  | nil => rfl
  | cons c text ih =>
    rw [List.mem_cons, not_or] at h
    unfold unifiedLines?
    split
    · next heq => cases heq
    · next heq =>
      rw [List.cons.injEq] at heq
      exact absurd heq.1.symm h.1
    · next heq =>
      rw [List.cons.injEq] at heq
      obtain ⟨rfl, rfl⟩ := heq
      rw [if_neg (Ne.symm h.1), ih h.2]
      rfl

theorem return_notMem_escaped (c : Char) : '\r' ∉ escaped c := by
  have hdigit : ∀ digit < 16, '\r' ≠ Nat.digitChar digit := by decide
  unfold escaped
  split
  · next hquote => rcases hquote with rfl | rfl <;> decide
  · split
    · next hplain =>
      rw [List.mem_singleton]
      rintro rfl
      revert hplain
      decide
    · next hplain =>
      have hrange := toNat_of_not_isPlainChar (Bool.eq_false_iff.2 hplain)
      have hhigh := hdigit (c.toNat / 16) (by omega)
      have hlow := hdigit (c.toNat % 16) (by omega)
      simp [hhigh, hlow]

theorem return_notMem_documentOf (directory : List Char) : '\r' ∉ documentOf directory := by
  have hescaped : '\r' ∉ directory.flatMap escaped := by
    rw [List.mem_flatMap]
    rintro ⟨c, -, hc⟩
    exact return_notMem_escaped c hc
  have hfront : '\r' ∉ "[entities]\ndir = \"".toList := by decide
  unfold documentOf closing
  simp only [List.mem_append, not_or]
  exact ⟨⟨hfront, hescaped, by decide⟩, by decide⟩

theorem readEntry?_directory {directory : List Char} (h : directory ≠ []) :
    Progress.readEntry? ⟨[("entities".toList, .table .header [])], ["entities".toList]⟩
        ("dir = \"".toList ++ (closing directory ++ ['\n'])) =
      some (⟨directoryEntries directory, ["entities".toList]⟩, []) := by
  have hvalue : value? (depthLimit - 1) ('"' :: (closing directory ++ ['\n'])) =
      some (.string directory, ['\n']) := by
    rw [depthLimit, value?, string?_quoted h]
    rfl
  have hkey : keyValue? (value? (depthLimit - 1)) ("dir = \"".toList ++ (closing directory ++ ['\n'])) =
      some (([], "dir".toList, .string directory), ['\n']) := by
    have hfront : key? ("dir = \"".toList ++ (closing directory ++ ['\n'])) =
        some (([], "dir".toList), '=' :: ' ' :: '"' :: (closing directory ++ ['\n'])) := rfl
    have hblank : skipBlanks (' ' :: '"' :: (closing directory ++ ['\n'])) =
        '"' :: (closing directory ++ ['\n']) := rfl
    rw [keyValue?, hfront, Option.bind_some]
    change (value? (depthLimit - 1) (skipBlanks (' ' :: '"' :: (closing directory ++ ['\n'])))).map _ = _
    rw [hblank, hvalue]
    rfl
  rw [Progress.readEntry?, hkey]
  rfl

theorem header?_section (rest : List Char) :
    header? ("entities]\n".toList ++ rest) = some ((false, [], "entities".toList), '\n' :: rest) := by
  have hbracket : (("entities]\n".toList ++ rest).head? == some '[') = false := rfl
  have hkey : key? ("entities]\n".toList ++ rest) =
      some (([], "entities".toList), "]\n".toList ++ rest) := rfl
  rw [header?, hbracket, if_neg Bool.false_ne_true, hkey]
  rfl

/-- The document that is written for a directory names this directory. -/
theorem parse?_documentOf {directory : List Char} (h : directory ≠ []) :
    parse? (documentOf directory) = some (directoryEntries directory) := by
  have hmark : withoutMark (documentOf directory) = documentOf directory := rfl
  have hsplit : documentOf directory =
      '[' :: ("entities]\n".toList ++ ("dir = \"".toList ++ (closing directory ++ ['\n']))) := by
    have hfront : "[entities]\ndir = \"".toList =
        '[' :: ("entities]\n".toList ++ "dir = \"".toList) := by decide
    unfold documentOf
    simp only [hfront, List.cons_append, List.append_assoc]
  have hheader : Progress.readHeader? ⟨[], []⟩
      ("entities]\n".toList ++ ("dir = \"".toList ++ (closing directory ++ ['\n']))) =
      some (⟨[("entities".toList, .table .header [])], ["entities".toList]⟩,
        "dir = \"".toList ++ (closing directory ++ ['\n'])) := by
    rw [Progress.readHeader?, header?_section]
    rfl
  have hlines (fuel : Nat) : Progress.readLines? (fuel + 3) ⟨[], []⟩ (documentOf directory) =
      some (directoryEntries directory) := by
    have hopened (text : List Char) : Progress.readLines? (fuel + 3) ⟨[], []⟩ ('[' :: text) =
        (Progress.readHeader? ⟨[], []⟩ text).bind fun read =>
          Progress.readLines? (fuel + 2) read.1 read.2 := rfl
    have hentry (progress : Progress) (text : List Char) :
        Progress.readLines? (fuel + 2) progress ("dir = \"".toList ++ text) =
          (progress.readEntry? ("dir = \"".toList ++ text)).bind fun read =>
            Progress.readLines? (fuel + 1) read.1 read.2 := rfl
    rw [hsplit, hopened, hheader, Option.bind_some, hentry, readEntry?_directory h]
    rfl
  have hlength : ∃ fuel, (documentOf directory).length + 1 = fuel + 3 := by
    refine ⟨(documentOf directory).length - 2, ?_⟩
    have hfront : "[entities]\ndir = \"".toList.length = 18 := rfl
    unfold documentOf
    rw [List.length_append, List.length_append, hfront]
    omega
  obtain ⟨fuel, hfuel⟩ := hlength
  rw [parse?, hmark, unifiedLines?_of_notMem (return_notMem_documentOf directory), Option.bind_some,
    hfuel, hlines]

end ModelMend.Toml
