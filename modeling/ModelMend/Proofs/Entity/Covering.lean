import ModelMend.Proofs.Entity.Restoration

/-!
# The lines that a segment stands on

Every segment that is read stands on a run of lines of the body, and a unit on the lines of its
leading items and of its field, where the first line of the field may be the rest of the last line of
a block (`Body.exists_covers_of_mem_segments`). So a law that holds of every line of a body holds of
every line of every segment, the shared line put together.
-/

namespace ModelMend

open Text

/-- The unit is written on these lines, its field on a line of its own or behind its last block. -/
inductive FieldUnit.StandsOn : FieldUnit → List Line → Prop
  | apart {items : List Leading} {field : List Line} (some : field ≠ []) :
    StandsOn ⟨items, field, false⟩ (items.flatMap Leading.lines ++ field)
  | shared {front : List Leading} {block : List Line} {last first : Line} {more : List Line}
    (starts : LineKind.of first = .field) :
    StandsOn ⟨front ++ [.block (block ++ [last])], first :: more, true⟩
      (front.flatMap Leading.lines ++ block ++ (last ++ first) :: more)

/-- The segment stands on these lines. -/
def Segment.Covers (lines : List Line) : Segment → Prop
  | .field unit => unit.StandsOn lines
  | .orphan line => lines = [line]
  | .verbatim passed => lines = passed

namespace Body

/-! ## One line of leading items -/

/-- The block that a line belongs to: the one that is open, or a new one that the line starts. -/
def Continues (current : Option OpenBlock) (line : Line) (opened : OpenBlock) : Prop :=
  current = some opened ∨
    current = none ∧ LineKind.of line = .attributeStart ∧ opened = ⟨.forAttribute, []⟩

/-- What reading leading items can do with a line. -/
inductive LeadingStep (current : Option OpenBlock) (line : Line) (lines : List Line) :
    LeadingRun → Prop
  | field (kind : LineKind.of line = .field) : LeadingStep current line lines ⟨[], .field, line :: lines⟩
  | loose (kind : (LineKind.of line).startsUnit = false) :
    LeadingStep current line lines ⟨[], .loose, line :: lines⟩
  | item (kind : LineKind.of line ∈ [.docComment, .comment, .blank]) :
    LeadingStep current line lines ((readLeading none lines).cons (.line line))
  | goesOn {opened : OpenBlock} (continues : Continues current line opened)
    (isOpen : (opened.scanner.feed line).2.isBalanced = false) :
    LeadingStep current line lines
      (readLeading (some ⟨(opened.scanner.feed line).2, opened.lines ++ [line]⟩) lines)
  | shared (items : List Leading) (first : Line) (kind : LineKind.of first = .field) :
    LeadingStep current line lines ⟨items, .sharedLine first, lines⟩
  | closed {opened : OpenBlock} (continues : Continues current line opened)
    (closes : (opened.scanner.feed line).2.isBalanced = true)
    (behind : LineKind.of (line.drop ((opened.scanner.feed line).1.closedAt.getD line.length)) ≠
      .field) :
    LeadingStep current line lines ((readLeading none lines).cons (.block (opened.lines ++ [line])))

theorem readLeading_step (current : Option OpenBlock) (line : Line) (lines : List Line) :
    LeadingStep current line lines (readLeading current (line :: lines)) := by
  unfold readLeading
  dsimp only
  split
  · next hfield => exact .field (of_decide_eq_true (Bool.and_eq_true_iff.1 hfield).2)
  · next hfield =>
    split
    · next hloose =>
      refine .loose ?_
      cases hkind : LineKind.of line <;> simp_all [LineKind.startsUnit]
    · next hloose =>
      split
      · next hitem =>
        refine .item ?_
        cases hkind : LineKind.of line <;> simp_all
      · next hitem =>
        have hcontinues : Continues current line (current.getD ⟨.forAttribute, []⟩) := by
          cases current with
          | none => exact Or.inr ⟨rfl, by simpa using hitem, rfl⟩
          | some opened => exact Or.inl rfl
        split
        · next hopen => exact .goesOn hcontinues (by simpa using hopen)
        · next hopen =>
          split
          · next hkind => exact .shared _ _ hkind
          · next hbehind => exact .closed hcontinues (by simpa using hopen) hbehind

/-- What the ending of leading items says about the lines behind them. -/
inductive LeadingEnd.Precedes : LeadingEnd → List Line → Prop
  | missing : Precedes .missing []
  | field {first : Line} {more : List Line} (kind : LineKind.of first = .field) :
    Precedes .field (first :: more)
  | loose {first : Line} {more : List Line} (kind : (LineKind.of first).startsUnit = false) :
    Precedes .loose (first :: more)
  | sharedLine {first : Line} {lines : List Line} (kind : LineKind.of first = .field) :
    Precedes (.sharedLine first) lines

/-- Leading items end as the lines behind them say, by induction on the lines. -/
theorem readLeading_precedes (current : Option OpenBlock) (lines : List Line) :
    (readLeading current lines).ending.Precedes (readLeading current lines).rest := by
  induction lines generalizing current with
  | nil => exact .missing
  | cons line lines ih =>
    have hstep := readLeading_step current line lines
    generalize readLeading current (line :: lines) = run at hstep ⊢
    cases hstep with
    | field kind => exact .field kind
    | loose kind => exact .loose kind
    | item kind => exact ih none
    | goesOn continues isOpen => exact ih _
    | shared items first kind => exact .sharedLine kind
    | closed continues closes behind => exact ih none

/-! ## Fields -/

theorem readField_ne_nil {scanner : Scanner} {lines : List Line} {run : FieldRun}
    (h : readField scanner lines = some run) : run.field ≠ [] := by
  intro hnil
  have happend := readField_append h
  have hless := readField_rest_length h
  rw [hnil, List.nil_append] at happend
  rw [happend] at hless
  exact Nat.lt_irrefl _ hless

theorem readLoose_extends (scanner : Scanner) (field lines : List Line) :
    field <+: (readLoose scanner field lines).field := by
  induction lines generalizing scanner field with
  | nil => exact List.prefix_refl field
  | cons line lines ih =>
    rw [readLoose]
    dsimp only
    split
    · exact List.prefix_refl field
    · split
      · exact List.prefix_append field [line]
      · exact (List.prefix_append field [line]).trans (ih _ _)

/-- The loose field takes the line: it is the first, or brackets are open. -/
theorem readLoose_takes {scanner : Scanner} {field : List Line}
    (h : field = [] ∨ scanner.isBalanced = false) (line : Line) (lines : List Line) :
    readLoose scanner field (line :: lines) =
      if looseComplete (scanner.feed line) (field ++ [line]) then
        ⟨field ++ [line], (scanner.feed line).2, lines⟩
      else readLoose (scanner.feed line).2 (field ++ [line]) lines := by
  rw [readLoose]
  rcases h with rfl | hopen
  · simp
  · simp [hopen]

theorem readLoose_ne_nil (line : Line) (lines : List Line) :
    (readLoose .forField [] (line :: lines)).field ≠ [] := by
  rw [readLoose_takes (Or.inl rfl), List.nil_append]
  split
  · simp
  · obtain ⟨tail, htail⟩ := readLoose_extends (Scanner.forField.feed line).2 [line] lines
    rw [← htail]
    simp

/-! ## Segments -/

theorem readUnit_covers {lines : List Line} {read : LeadingRun} (hfrom : read.ReadFrom lines)
    (hends : read.ending.Precedes read.rest) :
    ∃ taken, (readUnit lines read).segment.Covers taken ∧
      taken ++ (readUnit lines read).rest = lines := by
  obtain ⟨items, ending, rest⟩ := read
  have hback : (readUnit lines ⟨items, ending, rest⟩) = ⟨.verbatim lines, []⟩ →
      ∃ taken, (readUnit lines ⟨items, ending, rest⟩).segment.Covers taken ∧
        taken ++ (readUnit lines ⟨items, ending, rest⟩).rest = lines := by
    intro heq
    rw [heq]
    exact ⟨lines, rfl, List.append_nil lines⟩
  cases hends with
  | missing => exact hback rfl
  | @field first more kind =>
    cases hrun : readField .forField (first :: more) with
    | none => exact hback (by simp [readUnit, hrun])
    | some run =>
      simp only [LeadingRun.ReadFrom] at hfrom
      simp only [readUnit, hrun]
      refine ⟨_, .apart (readField_ne_nil hrun), ?_⟩
      rw [List.append_assoc, readField_append hrun, hfrom]
  | @sharedLine first _ kind =>
    cases hrun : readSharedField first rest with
    | none => exact hback (by simp [readUnit, hrun])
    | some run =>
      simp only [LeadingRun.ReadFrom] at hfrom
      obtain ⟨front, block, last, rfl, rfl⟩ := hfrom
      obtain ⟨more, hfield, rfl⟩ := readSharedField_append hrun
      simp only [readUnit, hrun, hfield]
      exact ⟨_, .shared kind, by simp⟩
  | @loose first more kind =>
    simp only [LeadingRun.ReadFrom] at hfrom
    simp only [readUnit]
    split
    · refine ⟨_, .apart (readLoose_ne_nil first more), ?_⟩
      rw [List.append_assoc, readLoose_append, List.nil_append, hfrom]
    · exact ⟨_, rfl, linesBefore_append hfrom⟩

/-- **Every segment stands on the next lines.** -/
theorem readSegment_covers (line : Line) (lines : List Line) :
    ∃ taken, (readSegment line lines).segment.Covers taken ∧
      taken ++ (readSegment line lines).rest = line :: lines := by
  unfold readSegment
  dsimp only
  split
  · exact readUnit_covers (readLeading_readFrom none (line :: lines)) (readLeading_precedes none _)
  · split
    · exact ⟨[line], rfl, rfl⟩
    · exact ⟨[line], rfl, rfl⟩

/-- The segments of a body stand on lines of it. -/
theorem exists_covers_of_mem_segments {lines : List Line} {segment : Segment}
    (h : segment ∈ segments lines) : ∃ taken, segment.Covers taken ∧ taken ⊆ lines := by
  induction lines using segments.induct with
  | case1 => simp at h
  | case2 line lines ih =>
    obtain ⟨taken, hcovers, hlines⟩ := readSegment_covers line lines
    rw [segments_cons] at h
    rcases List.mem_cons.1 h with rfl | hmem
    · exact ⟨taken, hcovers, hlines ▸ List.subset_append_left taken _⟩
    · obtain ⟨later, hlater, hsubset⟩ := ih hmem
      refine ⟨later, hlater, fun other hother => ?_⟩
      rw [← hlines]
      exact List.mem_append_right taken (hsubset hother)

end Body

end ModelMend
