import ModelMend.Line.DeclaredType
import ModelMend.Text.Slice

/-!
# Scanning the bytes of a line

A line is stored as its bytes, and a scanner can walk over these. It then goes from byte to byte, looks
at the bytes beside its place, and jumps over escapes and character literals by an amount that it
computes, so it may come to a place inside a character or behind the end of the line. For the rest of a
line it takes slices. Whatever asks for a byte that is not there, or for a slice at a place that is no
boundary, has no result.

Places in a report count bytes.
-/

namespace ModelMend

open Text

/-- Whether this byte stands in front of a place. -/
def comesBehind? (bytes : Bytes) (byte : UInt8) (place : Nat) : Option Bool :=
  if place = 0 then some false else bytes[place - 1]?.map (· == byte)

namespace Scanner

/-- A place between two bytes of a line together with what has been seen before it. -/
structure ByteCursor where
  scanner : Scanner
  /-- The number of bytes before this place. -/
  place : Nat
  topComma : Option Nat
  closedAt : Option Nat

/-- The number of bytes after an opening single quote that belong to a character literal. -/
def literalBytes? (rest : List Char) : Option (Option Nat) :=
  match rest.head? with
  | none => some none
  | some first =>
    if first = '\\' then
      (sliceFrom? rest 1).map fun tail =>
        (tail.findIdx? (· == '\'')).map fun n => byteOffset tail n + 2
    else
      (sliceFrom? rest first.utf8Size).map fun tail =>
        if tail.head? = some '\'' then some (first.utf8Size + 1) else none

namespace ByteCursor

def start (scanner : Scanner) : ByteCursor :=
  ⟨scanner, 0, none, none⟩

def advance (cursor : ByteCursor) : ByteCursor :=
  { cursor with place := cursor.place + 1 }

def enter (cursor : ByteCursor) : ByteCursor :=
  { cursor with scanner := { cursor.scanner with depth := cursor.scanner.depth + 1 } }

def leave (cursor : ByteCursor) : ByteCursor :=
  { cursor with scanner := { cursor.scanner with depth := cursor.scanner.depth - 1 } }

def noteClosed (cursor : ByteCursor) : ByteCursor :=
  if cursor.scanner.depth == 1 && cursor.closedAt.isNone then
    { cursor with closedAt := some (cursor.place + 1) }
  else cursor

/-- Reads a byte of a string literal. -/
def readQuoted (cursor : ByteCursor) (byte : UInt8) : ByteCursor :=
  if byte == '\\'.toUInt8 then { cursor with place := cursor.place + 1 }
  else if byte == '"'.toUInt8 then
    { cursor with scanner := { cursor.scanner with inString := false } }
  else cursor

/-- Reads a byte of code. -/
def readCode? (line : List Char) (cursor : ByteCursor) (byte : UInt8) : Option ByteCursor :=
  if byte == '"'.toUInt8 then
    some { cursor with scanner := { cursor.scanner with inString := true } }
  else if byte == '\''.toUInt8 then
    ((sliceFrom? line (cursor.place + 1)).bind literalBytes?).map fun length =>
      { cursor with place := cursor.place + length.getD 0 }
  else if byte == '('.toUInt8 || byte == '['.toUInt8 || byte == '\x7b'.toUInt8 then some cursor.enter
  else if byte == ')'.toUInt8 || byte == ']'.toUInt8 || byte == '\x7d'.toUInt8 then
    some cursor.noteClosed.leave
  else if byte == '<'.toUInt8 && cursor.scanner.countsAngles then some cursor.enter
  else if byte == '>'.toUInt8 && cursor.scanner.countsAngles then
    (comesBehind? (encode line) '-'.toUInt8 cursor.place).map fun arrow =>
      if arrow then cursor else cursor.leave
  else if byte == ','.toUInt8 && cursor.scanner.depth == 0 && cursor.topComma.isNone then
    some { cursor with topComma := some cursor.place }
  else some cursor

@[simp] theorem place_advance (cursor : ByteCursor) : cursor.advance.place = cursor.place + 1 := rfl

theorem place_le_readQuoted (cursor : ByteCursor) (byte : UInt8) :
    cursor.place ≤ (cursor.readQuoted byte).place := by
  unfold readQuoted
  grind

theorem place_le_of_readCode? {line : List Char} {cursor read : ByteCursor} {byte : UInt8}
    (h : cursor.readCode? line byte = some read) : cursor.place ≤ read.place := by
  unfold readCode? noteClosed enter leave at h
  grind [Option.map_eq_some_iff]

/-- Walks on over the bytes of a line, up to a line comment or the end. -/
def walk? (line : List Char) (cursor : ByteCursor) : Option (LineScan × Scanner) :=
  match _hbyte : (encode line)[cursor.place]? with
  | none => some (⟨cursor.topComma, (encode line).length, cursor.closedAt⟩, cursor.scanner)
  | some byte =>
    if cursor.scanner.inString then walk? line (cursor.readQuoted byte).advance
    else if byte == '/'.toUInt8 && (encode line)[cursor.place + 1]? == some '/'.toUInt8 then
      some (⟨cursor.topComma, cursor.place, cursor.closedAt⟩, cursor.scanner)
    else
      match _hread : cursor.readCode? line byte with
      | none => none
      | some read => walk? line read.advance
termination_by (encode line).length - cursor.place
decreasing_by
  · have hplace := (List.getElem?_eq_some_iff.1 _hbyte).1
    have hless := cursor.place_le_readQuoted byte
    rw [place_advance]
    omega
  · have hplace := (List.getElem?_eq_some_iff.1 _hbyte).1
    have hless := place_le_of_readCode? _hread
    rw [place_advance]
    omega

end ByteCursor

/-- Feeds the bytes of one line to the scanner. -/
def feedBytes? (scanner : Scanner) (line : List Char) : Option (LineScan × Scanner) :=
  (ByteCursor.start scanner).walk? line

def feedAllBytes? (scanner : Scanner) : List (List Char) → Option (List (LineScan × Scanner))
  | [] => some []
  | line :: lines => do
    let report ← scanner.feedBytes? line
    let reports ← feedAllBytes? report.2 lines
    return report :: reports

end Scanner

/-! ## The declared type of a field -/

/-- The code of a declaration up to the comma that ends it, cut off at the places that are reported. -/
def declarationSlices? (scanner : Scanner) : List (List Char) → Option (List Char)
  | [] => some []
  | line :: lines => do
    let (scan, scanner) ← scanner.feedBytes? line
    let code ← sliceTo? line (scan.topComma.getD scan.codeEnd)
    if scan.topComma.isSome then return code ++ [' ']
    else return code ++ ' ' :: (← declarationSlices? scanner lines)

/-- The place of the first single colon outside round brackets, looked for from a place on. -/
def colonFrom? (bytes : Bytes) (depth place : Nat) : Bytes → Option (Option Nat)
  | [] => some none
  | byte :: rest =>
    if byte == '('.toUInt8 then colonFrom? bytes (depth + 1) (place + 1) rest
    else if byte == ')'.toUInt8 then colonFrom? bytes (depth - 1) (place + 1) rest
    else if byte == ':'.toUInt8 && depth == 0 && bytes[place + 1]? != some ':'.toUInt8 then do
      if ← comesBehind? bytes ':'.toUInt8 place then colonFrom? bytes depth (place + 1) rest
      else return some place
    else colonFrom? bytes depth (place + 1) rest

def colonPlace? (code : List Char) : Option (Option Nat) :=
  colonFrom? (encode code) 0 0 (encode code)

/-- The declared type, cut out of the code at the place of the colon. -/
def fieldTypeSlice? (lines : List (List Char)) : Option (Option (List Char)) := do
  let code ← declarationSlices? .forField lines
  match ← colonPlace? code with
  | none => return none
  | some place =>
    let type := trim (← sliceFrom? code (place + 1))
    return if type.isEmpty then none else some type

end ModelMend
