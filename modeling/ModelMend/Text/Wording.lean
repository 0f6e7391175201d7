import ModelMend.Text.Blank
import ModelMend.Text.Word

/-!
# Wordings

A wording is a sequence of fixed texts with white space and word boundaries between them, such as
the head of a declaration. It is looked for anywhere in a text; the first place where it fits
counts. A fixed text never starts with white space, so there is only one way for a wording to fit
at a place.
-/

namespace ModelMend.Text

inductive Piece where
  /-- These characters. -/
  | chars (text : List Char)
  /-- At least one white space character. -/
  | gap
  /-- Any number of white space characters. -/
  | blanks
  /-- A word boundary. -/
  | boundary
deriving DecidableEq, Repr

/-- A sequence of parts. -/
abbrev Wording := List Piece

structure Found where
  /-- The text before the place. -/
  before : List Char
  /-- The text from the place on. -/
  onward : List Char
  /-- The text after what the wording covers. -/
  after : List Char
deriving DecidableEq, Repr

namespace Wording

/-- The text after the wording, if the wording fits at the start of the text. The character before
the text is known. -/
def after? (previous : Option Char) : Wording → List Char → Option (List Char)
  | [], text => some text
  | .chars chars :: wording, text =>
    if chars.isPrefixOf text then
      after? (chars.getLast?.or previous) wording (text.drop chars.length)
    else none
  | .gap :: wording, text =>
    if (indent text).isEmpty then none
    else after? (indent text).getLast? wording (trimStart text)
  | .blanks :: wording, text =>
    after? ((indent text).getLast?.or previous) wording (trimStart text)
  | .boundary :: wording, text =>
    if isBoundary previous text.head? then after? previous wording text else none

/-- The first place from here on where the wording fits. The character before the text is known. -/
def findFrom? (wording : Wording) (previous : Option Char) : List Char → Option Found
  | [] => (wording.after? previous []).map fun after => ⟨[], [], after⟩
  | c :: rest =>
    match wording.after? previous (c :: rest) with
    | some after => some ⟨[], c :: rest, after⟩
    | none => (wording.findFrom? (some c) rest).map fun found =>
      { found with before := c :: found.before }

/-- The first place in a text where the wording fits. -/
def find? (wording : Wording) (text : List Char) : Option Found :=
  wording.findFrom? none text

def occursIn (wording : Wording) (text : List Char) : Bool :=
  (wording.find? text).isSome

theorem findFrom?_append {wording : Wording} {previous : Option Char} {text : List Char}
    {found : Found} (h : wording.findFrom? previous text = some found) :
    found.before ++ found.onward = text := by
  induction text generalizing previous found with
  | nil =>
    obtain ⟨after, -, rfl⟩ := Option.map_eq_some_iff.1 h
    rfl
  | cons c rest ih =>
    unfold findFrom? at h
    split at h
    · cases h; rfl
    · obtain ⟨later, hlater, rfl⟩ := Option.map_eq_some_iff.1 h
      simpa using ih hlater

/-- The text before the place and the text from it on make up the whole. -/
theorem find?_append {wording : Wording} {text : List Char} {found : Found}
    (h : wording.find? text = some found) : found.before ++ found.onward = text :=
  findFrom?_append h

end Wording

end ModelMend.Text
