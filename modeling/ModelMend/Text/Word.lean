import ModelMend.Text.Identifier

/-!
# Words

A word character is alphabetic, a mark, a decimal digit, a connector such as the underscore, or a
joiner. These are the identifier characters up to two short lists of exceptions. A word boundary
lies between two neighbours of which exactly one is a word character; the ends of a text count as
no word character.
-/

namespace ModelMend.Text

/-- Word characters that may not stand in an identifier. -/
def wordOnlyTable : CharTable :=
  [(0x37a, 0x37a), (0x488, 0x489), (0x1abe, 0x1abe), (0x20dd, 0x20e0), (0x20e2, 0x20e4),
   (0x24b6, 0x24e9), (0x2e2f, 0x2e2f), (0xa670, 0xa672), (0xfc5e, 0xfc63), (0xfdfa, 0xfdfb),
   (0xfe70, 0xfe70), (0xfe72, 0xfe72), (0xfe74, 0xfe74), (0xfe76, 0xfe76), (0xfe78, 0xfe78),
   (0xfe7a, 0xfe7a), (0xfe7c, 0xfe7c), (0xfe7e, 0xfe7e), (0x1f130, 0x1f149), (0x1f150, 0x1f169),
   (0x1f170, 0x1f189)]

/-- Identifier characters that are not word characters. -/
def notWordTable : CharTable :=
  [(0xb7, 0xb7), (0x387, 0x387), (0x1369, 0x1371), (0x19da, 0x19da), (0x2118, 0x2118),
   (0x212e, 0x212e), (0x30fb, 0x30fb), (0xff65, 0xff65)]

def isWord (c : Char) : Bool :=
  (isIdentContinue c && !notWordTable.has c) || wordOnlyTable.has c

/-- A word boundary lies between a character before and one after; `none` stands for an end of the
text. -/
def isBoundary (before after : Option Char) : Bool :=
  before.any isWord != after.any isWord

@[simp] theorem isBoundary_none_left (after : Option Char) :
    isBoundary none after = after.any isWord := by
  simp [isBoundary]

end ModelMend.Text
