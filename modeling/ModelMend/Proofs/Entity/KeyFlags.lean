import ModelMend.Proofs.Entity.Alone
import ModelMend.Proofs.Entity.Attributes

/-!
# The attribute of the key flags

What replaces a `belongs_to` block is an attribute with its key flags. Read back it has exactly these
flags (`Directives.parse_keyFlagsAttribute`), and the reader of a body finds its brackets closed at its
end, whatever stands behind it on its line (`walk_keyFlagsAttribute`). So it is a block by itself
(`wellFormed_reducedBlock`), or the block that a field shares a line with
(`closedBlock_keyFlagsAttribute`).
-/

namespace ModelMend

open Text Scanner Scanner.Cursor

/-! ## Reading the flags back -/

namespace Directives

/-- The key flags alone. -/
def keyFlags (directives : Directives) : Directives :=
  { primaryKey := directives.primaryKey
    autoIncrementDisabled := directives.autoIncrementDisabled }

def hasKeyFlags (directives : Directives) : Bool :=
  directives.primaryKey || directives.autoIncrementDisabled

theorem keyFlagTokens_read {directives : Directives} (h : directives.hasKeyFlags = true) :
    Grammar.areAttributes directives.keyFlagTokens = true ∧
      ofTokens? directives.keyFlagTokens = some directives.keyFlags := by
  obtain ⟨primaryKey, autoIncrementDisabled, _, _, _, _⟩ := directives
  cases primaryKey <;> cases autoIncrementDisabled
  · cases h
  all_goals exact ⟨rfl, rfl⟩

theorem isSome_keyFlagsAttribute (directives : Directives) (blanks : List Char) :
    (directives.keyFlagsAttribute blanks).isSome = directives.hasKeyFlags := by
  obtain ⟨primaryKey, autoIncrementDisabled, _, _, _, _⟩ := directives
  cases primaryKey <;> cases autoIncrementDisabled <;> rfl

/-- **Exactly the key flags are read back**, with a carriage return behind them or without. -/
theorem parse_keyFlagsAttribute {directives : Directives} {blanks written tail : List Char}
    (hblanks : ∀ c ∈ blanks, isBlank c = true) (htail : tail = [] ∨ tail = ['\r'])
    (h : directives.keyFlagsAttribute blanks = some written) :
    parse (written ++ tail) = some directives.keyFlags := by
  have htokens := ofText?_keyFlagsAttribute hblanks htail directives
  have hflags : directives.hasKeyFlags = true := by
    rw [← isSome_keyFlagsAttribute directives blanks, h]
    rfl
  obtain ⟨hattributes, hread⟩ := keyFlagTokens_read hflags
  rw [h] at htokens
  change Token.ofText? (written ++ tail) = some directives.keyFlagTokens at htokens
  rw [parse, htokens]
  simp only [hattributes, ↓reduceIte, hread]

end Directives

/-! ## Scanning the attribute -/

/-- The text between the round brackets leaves them open. -/
theorem walk_flags {directives : Directives} {blanks written : List Char}
    (h : directives.keyFlagsAttribute blanks = some written) :
    ∃ flags : List Char, written = blanks ++ ("#[sea_orm(".toList ++ (flags ++ ")]".toList)) ∧
      ∀ (n : Nat) (previous : Option Char) (text : List Char), ∃ previous',
        Cursor.walk ⟨⟨false, 2, false⟩, n, 0, previous, none, none⟩ (flags ++ text) =
          Cursor.walk ⟨⟨false, 2, false⟩, n + flags.length, 0, previous', none, none⟩ text := by
  obtain ⟨primaryKey, autoIncrementDisabled, _, _, _, _⟩ := directives
  cases primaryKey <;> cases autoIncrementDisabled
  · cases h
  · cases h
    exact ⟨"auto_increment = false".toList, by simp, fun n previous text => ⟨some 'e', rfl⟩⟩
  · cases h
    exact ⟨"primary_key".toList, by simp, fun n previous text => ⟨some 'y', rfl⟩⟩
  · cases h
    exact ⟨"primary_key, auto_increment = false".toList, by simp,
      fun n previous text => ⟨some 'e', rfl⟩⟩

/-- **The brackets close at the end of the attribute**, whatever stands behind it. -/
theorem walk_keyFlagsAttribute {directives : Directives} {blanks written : List Char}
    (hblanks : ∀ c ∈ blanks, isBlank c = true)
    (h : directives.keyFlagsAttribute blanks = some written) (text : List Char) :
    ∃ after : Cursor, (start forAttribute).walk (written ++ text) = after.walk text ∧
      after.scanner = forAttribute ∧ after.skip = 0 ∧ after.previous ≠ some '-' ∧
      after.closedAt = some written.length := by
  obtain ⟨flags, rfl, hflags⟩ := walk_flags h
  have hopening (n : Nat) (previous : Option Char) (text : List Char) :
      Cursor.walk ⟨forAttribute, n, 0, previous, none, none⟩ ("#[sea_orm(".toList ++ text) =
        Cursor.walk ⟨⟨false, 2, false⟩, n + 10, 0, some '(', none, none⟩ text := rfl
  have hclosing (n : Nat) (previous : Option Char) (text : List Char) :
      Cursor.walk ⟨⟨false, 2, false⟩, n, 0, previous, none, none⟩ (")]".toList ++ text) =
        Cursor.walk ⟨forAttribute, n + 2, 0, some ']', none, some (n + 2)⟩ text := rfl
  obtain ⟨first, after, -, hindent, rfl⟩ := @walk_blanks (start forAttribute) blanks hblanks rfl rfl
    (by simp [start]) ("#[sea_orm(".toList ++ (flags ++ (")]".toList ++ text)))
  obtain ⟨last, hinside⟩ := hflags (0 + blanks.length + 10) (some '(') (")]".toList ++ text)
  have hwalk : (start forAttribute).walk
      (blanks ++ ("#[sea_orm(".toList ++ (flags ++ (")]".toList ++ text)))) =
        Cursor.walk ⟨forAttribute, 0 + blanks.length + 10 + flags.length + 2, 0, some ']', none,
          some (0 + blanks.length + 10 + flags.length + 2)⟩ text :=
    calc _ = _ := hindent
      _ = _ := hopening _ _ _
      _ = _ := hinside
      _ = _ := hclosing _ _ _
  refine ⟨⟨forAttribute, 0 + blanks.length + 10 + flags.length + 2, 0, some ']', none,
    some (0 + blanks.length + 10 + flags.length + 2)⟩, ?_, rfl, rfl, by simp, ?_⟩
  · simpa only [List.append_assoc] using hwalk
  · have hlength : ("#[sea_orm(".toList).length = 10 ∧ (")]".toList).length = 2 := ⟨rfl, rfl⟩
    simp only [List.length_append, hlength]
    exact congrArg some (by omega)

/-! ## The attribute as a block -/

section

variable {directives : Directives} {blanks written : List Char}
  (hblanks : ∀ c ∈ blanks, isBlank c = true)
  (h : directives.keyFlagsAttribute blanks = some written)

include hblanks h

/-- What is scanned behind the attribute is scanned as if a line began there. -/
theorem feed_keyFlagsAttribute (text : List Char) :
    (forAttribute.feed (written ++ text)).1.closedAt = some written.length ∧
      (forAttribute.feed (written ++ text)).2 = (forAttribute.feed text).2 := by
  obtain ⟨after, hwalk, hscanner, hskip, hdash, hclosed⟩ := walk_keyFlagsAttribute hblanks h text
  have hagrees : after.Agrees (start forAttribute) :=
    ⟨hscanner, hskip, by simp [start, hdash]⟩
  constructor
  · change ((start forAttribute).walk (written ++ text)).closedAt = _
    rw [hwalk, closedAt_walk hclosed]
  · change ((start forAttribute).walk (written ++ text)).scanner = _
    rw [hwalk]
    exact (hagrees.walk text).scanner_eq

theorem kind_keyFlagsAttribute (text : List Char) :
    LineKind.of (written ++ text) = .attributeStart := by
  obtain ⟨flags, rfl, -⟩ := walk_flags h
  have htext : blanks ++ ("#[sea_orm(".toList ++ (flags ++ ")]".toList)) ++ text =
      blanks ++ (['#'] ++ ['['] ++ ("sea_orm(".toList ++ (flags ++ ")]".toList) ++ text)) := by
    simp
  obtain ⟨more, hmore⟩ := @trimEnd_append ['#'] ("sea_orm(".toList ++ (flags ++ ")]".toList) ++ text)
    '[' (by decide)
  have htrim : trim (blanks ++ ("#[sea_orm(".toList ++ (flags ++ ")]".toList)) ++ text) =
      '#' :: '[' :: more := by
    rw [htext, trim, trimStart_append_of_blank hblanks]
    exact hmore
  rw [LineKind.of, htrim]
  rfl

/-- The attribute and a text that the scanner comes out of as it went in. -/
theorem closedBlock_keyFlagsAttribute {text : List Char}
    (htext : (forAttribute.feed text).2.isBalanced = true) :
    ClosedBlock [] (written ++ text) ∧
      closingPlace [] (written ++ text) = some written.length := by
  obtain ⟨hplace, hscanner⟩ := feed_keyFlagsAttribute hblanks h text
  refine ⟨⟨?_, staysOpen_nil _, ?_⟩, hplace⟩
  · rintro line ⟨⟩
    exact kind_keyFlagsAttribute hblanks h text
  · change (forAttribute.feed (written ++ text)).2.isBalanced = true
    rw [hscanner, htext]

end

/-- What replaces a block: the attribute at its indentation, with a carriage return if it ended with
one. -/
theorem exists_of_reducedBlock {lines : List Line} {directives : Directives} {line : Line}
    (h : reducedBlock lines directives = some line) :
    ∃ first written tail, lines.head? = some first ∧
      directives.keyFlagsAttribute (indent first) = some written ∧ line = written ++ tail ∧
      (tail = [] ∨ tail = ['\r']) ∧
      (lines.getLast?.any (·.getLast? == some '\r') = false → tail = []) := by
  unfold reducedBlock at h
  split at h
  · cases h
  · next first hfirst =>
    dsimp only at h
    split at h
    · next hreturn =>
      obtain ⟨written, hwritten, rfl⟩ := Option.map_eq_some_iff.1 h
      exact ⟨first, written, ['\r'], hfirst, hwritten, rfl, Or.inr rfl, by simp [hreturn]⟩
    · exact ⟨first, line, [], hfirst, h, (List.append_nil line).symm, Or.inl rfl, fun _ => rfl⟩

variable {lines : List Line} {directives : Directives} {line : Line}

/-- What replaces a block is a block. -/
theorem wellFormed_reducedBlock (h : reducedBlock lines directives = some line) :
    (Leading.block [line]).WellFormed := by
  obtain ⟨first, written, tail, -, hwritten, rfl, htail, -⟩ := exists_of_reducedBlock h
  have hscan : (forAttribute.feed tail).2.isBalanced = true ∧ LineKind.of tail ≠ .field := by
    rcases htail with rfl | rfl <;> decide
  obtain ⟨hclosed, hplace⟩ :=
    closedBlock_keyFlagsAttribute (fun _ => isBlank_of_mem_indent) hwritten hscan.1
  refine @Leading.WellFormed.block [] _ hclosed ?_
  rw [hplace, Option.getD_some, List.drop_left]
  exact hscan.2

/-- What replaces a block has its key flags and no other directive. -/
theorem directives?_reducedBlock (h : reducedBlock lines directives = some line) :
    (Leading.block [line]).directives? = some directives.keyFlags := by
  obtain ⟨first, written, tail, -, hwritten, rfl, htail, -⟩ := exists_of_reducedBlock h
  exact Directives.parse_keyFlagsAttribute (fun _ => isBlank_of_mem_indent) htail hwritten

theorem hasKeyFlags_of_reducedBlock_eq_none (hlines : lines ≠ [])
    (h : reducedBlock lines directives = none) : directives.hasKeyFlags = false := by
  obtain ⟨first, more, rfl⟩ := List.exists_cons_of_ne_nil hlines
  rw [← Directives.isSome_keyFlagsAttribute directives (indent first)]
  simp only [reducedBlock, List.head?_cons] at h
  split at h <;> simp_all

end ModelMend
