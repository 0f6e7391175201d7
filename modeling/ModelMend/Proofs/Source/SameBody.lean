import ModelMend.Proofs.Entity.WellFormed
import ModelMend.Proofs.Source.LineByLine

/-!
# Mending a model leaves its body where it was

Nothing that mending writes looks like the end of a model: a line that stays was none, and a line that
is new holds a mark of an attribute or the start of a field (`lineLaw_notClosing`). So where the opening
line of a model is blank, it stays in front of the mended body, and the body is found again at the same
place, around the same text (`mendModel_finds_same_body`).
-/

namespace ModelMend

open Text

/-! ## Lines that close no model -/

/-- A closing line holds nothing but its brace and blanks. -/
theorem not_isClosing_of_mem {line : Line} {c : Char} (hmem : c ∈ line) (hblank : isBlank c = false)
    (hbrace : c ≠ '\x7d') : isClosing line = false := by
  rw [isClosing, beq_eq_false_iff_ne]
  intro hclosing
  obtain ⟨front, back, rfl⟩ := List.append_of_mem hmem
  obtain ⟨more, hmore⟩ := @trimEnd_append front back c hblank
  rw [List.append_assoc, List.singleton_append, hclosing] at hmore
  have hfound : c ∈ ['\x7d'] := by
    rw [hmore]
    simp
  exact hbrace (List.mem_singleton.1 hfound)

theorem mark_mem_reducedBlock {block : List Line} {directives : Directives} {line : Line}
    (h : reducedBlock block directives = some line) : '#' ∈ line := by
  have hkeyFlags := keyFlags_infix_reducedBlock h []
  rw [List.append_nil] at hkeyFlags
  exact hkeyFlags.subset (by decide)

theorem letter_mem_of_field {line : Line} (h : LineKind.of line = .field) : 'p' ∈ trimStart line := by
  have hmark : "pub ".toList <+: trim line ∨ "pub(".toList <+: trim line := LineKind.shows_of_eq h
  have hprefix := trimEnd_isPrefixOf (trimStart line)
  rcases hmark with hmark | hmark
  · exact (hmark.trans hprefix).subset (by decide)
  · exact (hmark.trans hprefix).subset (by decide)

/-- Rendering writes no line that closes a model. -/
theorem lineLaw_notClosing : LineLaw fun line => isClosing line = false where
  reduced _ hreduced := not_isClosing_of_mem (mark_mem_reducedBlock hreduced) (by decide) (by decide)
  glued := by
    intro block last first directives line _ _ _ hreduced
    have hmark := List.mem_append_left first (mark_mem_reducedBlock hreduced)
    exact not_isClosing_of_mem hmark (by decide) (by decide)
  moved := by
    intro last first above _ hkind _
    have hletter := List.mem_append_right (indent above) (letter_mem_of_field hkind)
    exact not_isClosing_of_mem hletter (by decide) (by decide)

/-! ## The lines of a body -/

theorem not_isClosing_of_splitAtClosing {lines body tail : List Line}
    (h : splitAtClosing lines = some (body, tail)) : ∀ line ∈ body, isClosing line = false := by
  induction lines generalizing body with
  | nil => cases h
  | cons line lines ih =>
    unfold splitAtClosing at h
    split at h
    · cases h
      exact List.forall_mem_nil _
    · next hopen =>
      obtain ⟨⟨body', tail'⟩, hsplit, heq⟩ := Option.map_eq_some_iff.1 h
      cases heq
      exact List.forall_mem_cons.2 ⟨Bool.not_eq_true _ ▸ hopen, ih hsplit⟩

/-- The opening line of a body holds no closing brace, and no later line closes the model. -/
theorem ModelParts.find?_body {text : List Char} {parts : ModelParts}
    (h : ModelParts.find? text = some parts) : ∃ opening lines, parts.body = opening :: lines ∧
      '\x7d' ∉ opening ∧ ∀ line ∈ lines, isClosing line = false := by
  unfold ModelParts.find? at h
  split at h
  · cases h
  · split at h
    · cases h
    · next opening lines _ =>
      split at h
      · cases h
      · next hbrace =>
        obtain ⟨⟨body, tail⟩, hsplit, rfl⟩ := Option.map_eq_some_iff.1 h
        exact ⟨opening, body, rfl, by simpa using hbrace, not_isClosing_of_splitAtClosing hsplit⟩

/-! ## A blank line in front of a body -/

/-- A blank line in front of a body stays there. -/
theorem mendBody_blank_cons {opening : Line} (h : LineKind.of opening = .blank) (lines : List Line)
    (stats : MendStats) :
    (mendBody stats (opening :: lines)).lines = opening :: (mendBody stats lines).lines := by
  have hgap : Body.segments (opening :: lines) = .verbatim [opening] :: Body.segments lines := by
    rw [Body.segments_gap (by simp [h])]
    simp [BodyPart.segment, h]
  unfold mendBody
  rw [hgap, List.foldl_cons]
  exact BodyMend.foldl_write_append _ _ stats []

/-! ## The place of a body -/

/-- Where the body of the model starts and where it ends in a text, in bytes. -/
def bodySpan? (text : List Char) : Option (Nat × Nat) :=
  (ModelParts.find? text).map fun parts =>
    (byteLength parts.head, byteLength parts.head + byteLength (joinLines parts.body))

/-- **Mending a model touches only its body and leaves the body where it was.** Where the opening line
of the body is blank, the text around the body stays, and around the mended body it is found again as
the text around the body: no line of it closes the model early, its opening line holds no brace, and no
earlier place opens a model. -/
theorem mendModel_finds_same_body {text : List Char} {parts : ModelParts}
    (h : ModelParts.find? text = some parts)
    (hopening : parts.body.head?.any (LineKind.of · = .blank) = true) (stats : MendStats) :
    ∃ body : List Line,
      text = parts.head ++ joinLines parts.body ++ '\n' :: joinLines parts.tail ∧
      (mendModel text stats).1 = parts.head ++ joinLines body ++ '\n' :: joinLines parts.tail ∧
      ModelParts.find? (mendModel text stats).1 = some { parts with body := body } ∧
      bodySpan? (mendModel text stats).1 =
        some (byteLength parts.head, byteLength parts.head + byteLength (joinLines body)) := by
  obtain ⟨opening, lines, hbody, hbrace, hclosing⟩ := ModelParts.find?_body h
  obtain ⟨-, hnewline, htext⟩ := ModelParts.find?_parts h
  rw [hbody] at hopening hnewline
  obtain ⟨hfirst, hmore⟩ := List.forall_mem_cons.1 hnewline
  have hkind : LineKind.of opening = .blank := of_decide_eq_true hopening
  have hmended : (mendModel text stats).1 =
      parts.withBody (opening :: (mendBody stats lines).lines) := by
    unfold mendModel
    rw [h]
    dsimp only
    rw [hbody, mendBody_blank_cons hkind]
  have hfree := mendBody_forall (lineLaw_free (by decide)) hmore stats
  have hagain := ModelParts.find?_withBody h (List.forall_mem_cons.2 ⟨hfirst, hfree⟩) hbrace
    (mendBody_forall lineLaw_notClosing hclosing stats)
  rw [← hmended] at hagain
  refine ⟨_, htext.symm, hmended, hagain, ?_⟩
  rw [bodySpan?, hagain]
  rfl

/-- A field behind a block that goes, one behind a block that is reduced, and a container. -/
def ownedModel : ModelParts where
  head := "pub struct Model \x7b".toList
  body := ["", "    #[sea_orm(belongs_to)] pub a: i32,",
    "    #[sea_orm(belongs_to, primary_key)] pub b: i32,", "    HasMany<C>,"].map String.toList
  tail := ["\x7d", ""].map String.toList

theorem mendModel_finds_same_body_ownedModel :
    ModelParts.find? (ownedModel.withBody ownedModel.body) = some ownedModel ∧
      ownedModel.body.head?.any (LineKind.of · = .blank) = true ∧
      bodySpan? (ownedModel.withBody ownedModel.body) = some (18, 125) ∧
      ∃ body, (mendModel (ownedModel.withBody ownedModel.body) {}).1 =
          ownedModel.head ++ joinLines body ++ '\n' :: joinLines ownedModel.tail ∧
        ModelParts.find? (mendModel (ownedModel.withBody ownedModel.body) {}).1 =
          some { ownedModel with body := body } ∧
        body = ["", "    pub a: i32,", "    #[sea_orm(primary_key)] pub b: i32,"].map String.toList ∧
        bodySpan? (mendModel (ownedModel.withBody ownedModel.body) {}).1 = some (18, 74) := by
  have hfind : ModelParts.find? (ownedModel.withBody ownedModel.body) = some ownedModel := by
    decide +kernel
  have hopening : ownedModel.body.head?.any (LineKind.of · = .blank) = true := by decide +kernel
  have hbody : ModelParts.find? (mendModel (ownedModel.withBody ownedModel.body) {}).1 =
      some { ownedModel with
        body := ["", "    pub a: i32,", "    #[sea_orm(primary_key)] pub b: i32,"].map String.toList } := by
    decide +kernel
  obtain ⟨body, -, htext, hagain, hspan⟩ := mendModel_finds_same_body hfind hopening {}
  have hsame := hagain.symm.trans hbody
  simp only [Option.some.injEq, ModelParts.mk.injEq, true_and, and_true] at hsame
  have hlengths : byteLength ownedModel.head = 18 ∧ byteLength (joinLines body) = 56 := by
    rw [hsame]
    decide
  rw [hlengths.1, hlengths.2] at hspan
  exact ⟨hfind, hopening, by decide +kernel, body, htext, hagain, hsame, hspan⟩

end ModelMend
