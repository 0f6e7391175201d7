import ModelMend.Proofs.Line.Indentation
import ModelMend.Proofs.Source.Stranded

/-!
# A unit by itself

A unit that is read from a body consists of well-formed leading items and a field that the reader takes
also where nothing follows it, or it is dropped with a loose field
(`Body.readsAlone_or_loose_of_mem_segments`). From the lines of a unit of the first kind alone the unit
is read back, behind the blank lines and comments that no longer stand below anything that starts a unit
(`Body.segments_sourceLines`).

The one thing that could go wrong is a field that ends without a comma: the reader looks ahead for it.
What follows the field has no say in where it ends, since blank lines and comments do not move the
scanner (`readField_alone`).
-/

namespace ModelMend

open Text

/-- Well-formed leading items and a field that the reader takes where nothing follows it. -/
inductive FieldUnit.ReadsAlone : FieldUnit → Prop
  | apart {items : List Leading} {first : Line} {more : List Line}
    (leading : ∀ item ∈ items, item.WellFormed) (starts : LineKind.of first = .field)
    (field : Body.readField .forField (first :: more) = some ⟨first :: more, []⟩) :
    ReadsAlone ⟨items, first :: more, false⟩
  | shared {items : List Leading} {opening : List Line} {cut first : Line} {more : List Line}
    (leading : ∀ item ∈ items, item.WellFormed) (closed : ClosedBlock opening (cut ++ first))
    (place : closingPlace opening (cut ++ first) = some cut.length)
    (starts : LineKind.of first = .field)
    (field : Body.readField .forField (first :: more) = some ⟨first :: more, []⟩) :
    ReadsAlone ⟨items ++ [.block (opening ++ [cut])], first :: more, true⟩

/-! ## Fields -/

theorem nextSignificant_idle {idle : List Line}
    (h : ∀ line ∈ idle, LineKind.of line = .blank ∨ LineKind.of line = .comment) (rest : List Line) :
    nextSignificant (idle ++ rest) = nextSignificant rest := by
  have hnone : (idle.map LineKind.of).find? (fun kind => kind ≠ .blank && kind ≠ .comment) = none := by
    rw [List.find?_eq_none]
    intro kind hkind
    obtain ⟨line, hline, rfl⟩ := List.mem_map.1 hkind
    rcases h line hline with hkind | hkind <;> simp [hkind]
  rw [nextSignificant, List.map_append, List.find?_append, hnone]
  rfl

namespace Body

theorem unitStartsNext_eq (lines : List Line) :
    unitStartsNext lines = (nextSignificant lines).all LineKind.startsUnit := by
  unfold unitStartsNext nextSignificant
  split <;> next heq => rw [heq]; rfl

theorem fieldComplete_nil {report : LineScan × Scanner} {lines : List Line}
    (h : fieldComplete report lines = true) : fieldComplete report [] = true := by
  unfold fieldComplete at h ⊢
  rw [Bool.or_eq_true, Bool.and_eq_true] at h
  rw [Bool.or_eq_true, Bool.and_eq_true]
  exact h.imp_right fun hbalanced => ⟨hbalanced.1, rfl⟩

/-- A field is complete behind its last line. -/
theorem fieldComplete_of_readField {scanner : Scanner} {lines : List Line} {run : FieldRun}
    (h : readField scanner lines = some run) :
    ∃ front last, run.field = front ++ [last] ∧
      fieldComplete ((scanner.after front).feed last) run.rest = true := by
  induction lines generalizing scanner run with
  | nil => cases h
  | cons line lines ih =>
    unfold readField at h
    dsimp only at h
    split at h
    · next hcomplete =>
      cases h
      exact ⟨[], line, rfl, hcomplete⟩
    · obtain ⟨more, hmore, rfl⟩ := Option.map_eq_some_iff.1 h
      obtain ⟨front, last, hfield, hcomplete⟩ := ih hmore
      exact ⟨line :: front, last, by rw [FieldRun.cons, hfield]; rfl, hcomplete⟩

/-- A field that goes on in front of what follows it goes on without that. -/
theorem not_fieldComplete_alone {report : LineScan × Scanner} {lines : List Line} {run : FieldRun}
    (hangles : report.2.countsAngles = true) (hrun : readField report.2 lines = some run)
    (h : fieldComplete report lines = false) : fieldComplete report run.field = false := by
  have happend := readField_append hrun
  have hcomma : report.1.topComma.isSome = false := by
    rw [fieldComplete, Bool.or_eq_false_iff] at h
    exact h.1
  cases hbalanced : report.2.isBalanced with
  | false => simp [fieldComplete, hcomma, hbalanced]
  | true =>
    have hstarts : unitStartsNext lines = false := by
      simpa [fieldComplete, hcomma, hbalanced] using h
    have hfield : unitStartsNext run.field = false := by
      rw [unitStartsNext_eq] at hstarts ⊢
      cases hnext : nextSignificant run.field with
      | some kind =>
        rwa [← happend, nextSignificant_append hnext] at hstarts
      | none =>
        exfalso
        -- blank lines and comments end no field that has not ended in front of them
        have hidle := idle_of_nextSignificant_eq_none hnext
        obtain ⟨front, last, hlines, hcomplete⟩ := fieldComplete_of_readField hrun
        have hfront : report.2.after front = report.2 :=
          after_idle (fun line hline => hidle line (hlines ▸ List.mem_append_left _ hline)) hangles
            hbalanced
        have hlast := (Scanner.feed_idle (hidle last (by simp [hlines])) hangles hbalanced).1
        rw [hfront, fieldComplete, hlast, Option.isSome_none, Bool.false_or, Bool.and_eq_true,
          unitStartsNext_eq] at hcomplete
        rw [← happend, nextSignificant_idle hidle, hcomplete.2] at hstarts
        cases hstarts
    simp [fieldComplete, hcomma, hfield]

/-- **What follows a field has no say in it.** -/
theorem readField_alone {scanner : Scanner} {lines : List Line} {run : FieldRun}
    (hangles : scanner.countsAngles = true) (h : readField scanner lines = some run) :
    readField scanner run.field = some ⟨run.field, []⟩ := by
  induction lines generalizing scanner run with
  | nil => cases h
  | cons line lines ih =>
    unfold readField at h
    dsimp only at h
    split at h
    · next hcomplete =>
      cases h
      rw [readField]
      simp [fieldComplete_nil hcomplete]
    · next hopen =>
      obtain ⟨more, hmore, rfl⟩ := Option.map_eq_some_iff.1 h
      have hangles' : (scanner.feed line).2.countsAngles = true := by
        rw [Scanner.countsAngles_feed, hangles]
      have hopen' := not_fieldComplete_alone hangles' hmore (Bool.eq_false_iff.2 hopen)
      rw [FieldRun.cons, readField]
      simp [hopen', ih hangles' hmore, FieldRun.cons]

/-! ## Leading items -/

/-- A field behind a place in a line stands behind a place that there is. -/
theorem exists_place_of_field_behind {place : Option Nat} {line : Line}
    (h : LineKind.of (line.drop (place.getD line.length)) = .field) :
    ∃ n, place = some n ∧ n ≤ line.length := by
  have hlt : place.getD line.length < line.length := by
    rw [← Nat.not_le, ← List.drop_eq_nil_iff]
    intro hnil
    rw [hnil] at h
    cases h
  cases place with
  | none => exact absurd hlt (Nat.lt_irrefl _)
  | some n => exact ⟨n, rfl, Nat.le_of_lt hlt⟩

/-- Leading items in front of a field on the last line of a block are well-formed, and the field starts
where the brackets of the block close. -/
theorem readLeading_sharedLine {current : Option OpenBlock} {lines : List Line} {first : Line}
    (hcurrent : ∀ opened, current = some opened → ∀ line, opened.Takes line)
    (h : (readLeading current lines).ending = .sharedLine first) :
    ∃ items opening cut, (readLeading current lines).items = items ++ [.block (opening ++ [cut])] ∧
      (∀ item ∈ items, item.WellFormed) ∧ ClosedBlock opening (cut ++ first) ∧
      closingPlace opening (cut ++ first) = some cut.length := by
  induction lines generalizing current with
  | nil => cases h
  | cons line lines ih =>
    have hcons {item : Leading} (hitem : item.WellFormed)
        (h : (readLeading none lines).ending = .sharedLine first) :
        ∃ items opening cut,
          ((readLeading none lines).cons item).items = items ++ [.block (opening ++ [cut])] ∧
          (∀ item ∈ items, item.WellFormed) ∧ ClosedBlock opening (cut ++ first) ∧
          closingPlace opening (cut ++ first) = some cut.length := by
      obtain ⟨items, opening, cut, hitems, hwellFormed, hclosed⟩ := ih (by simp) h
      refine ⟨item :: items, opening, cut, ?_, List.forall_mem_cons.2 ⟨hitem, hwellFormed⟩, hclosed⟩
      rw [LeadingRun.cons, hitems]
      rfl
    rw [readLeading] at h ⊢
    dsimp only at h ⊢
    split at h
    · cases h
    next hfield =>
    rw [if_neg hfield]
    split at h
    · cases h
    next hloose =>
    rw [if_neg hloose]
    split at h
    · next hitem =>
      rw [if_pos hitem]
      refine hcons (.line ?_) h
      cases hkind : LineKind.of line <;> simp_all
    next hitem =>
    rw [if_neg hitem]
    have hcontinues : Continues current line (current.getD ⟨.forAttribute, []⟩) := by
      cases current with
      | none => exact Or.inr ⟨rfl, by simpa using hitem, rfl⟩
      | some opened => exact Or.inl rfl
    have htakes := OpenBlock.Takes.of_continues hcurrent hcontinues
    generalize current.getD ⟨.forAttribute, []⟩ = opened at h htakes ⊢
    split at h
    · next hopen =>
      rw [if_pos hopen]
      refine ih ?_ h
      rintro _ ⟨⟩ other
      exact htakes.next (by simpa using hopen) other
    next hopen =>
    have hcloses : (opened.scanner.feed line).2.isBalanced = true := by simpa using hopen
    rw [if_neg hopen]
    split at h
    · next hbehind =>
      -- the block ends on this line, and the field begins on it
      rw [if_pos hbehind]
      cases h
      obtain ⟨place, hplace, hle⟩ := exists_place_of_field_behind hbehind
      rw [hplace, Option.getD_some]
      refine ⟨[], opened.lines, line.take place, rfl, List.forall_mem_nil _, ?_, ?_⟩
      · rw [List.take_append_drop]
        exact htakes.closedBlock hcloses
      · rw [List.take_append_drop, closingPlace, ← htakes.scanner_eq, hplace, List.length_take,
          Nat.min_eq_left hle]
    · next hbehind =>
      rw [if_neg hbehind]
      refine hcons (.block (htakes.closedBlock hcloses) ?_) h
      rw [closingPlace, ← htakes.scanner_eq]
      exact hbehind

/-- **A unit that is read reads alone**, or it is dropped together with a loose field. -/
theorem readsAlone_or_loose_of_mem_segments {lines : List Line} {unit : FieldUnit}
    (h : .field unit ∈ segments lines) :
    unit.ReadsAlone ∨ ∃ items field, unit = ⟨items, field, false⟩ ∧ field ≠ [] ∧
      (∀ item ∈ items, item.WellFormed) ∧ unit.action = .drop := by
  obtain ⟨front, back, hsegments⟩ := List.append_of_mem h
  obtain ⟨line, more, -, hsegment, -⟩ := reaches_of_segments hsegments
  unfold readSegment at hsegment
  dsimp only at hsegment
  split at hsegment
  · have hwellFormed := @readLeading_wellFormed none (line :: more) (by simp)
    have hends := readLeading_precedes none (line :: more)
    have hshared := fun first => @readLeading_sharedLine none (line :: more) first (by simp)
    generalize readLeading none (line :: more) = read at hsegment hwellFormed hends hshared
    obtain ⟨items, ending, rest⟩ := read
    cases hends with
    | missing => cases hsegment
    | @field first others kind =>
      simp only [readUnit] at hsegment
      split at hsegment
      · next run hrun =>
        cases hsegment
        obtain ⟨line, field, hfield⟩ := List.exists_cons_of_ne_nil (readField_ne_nil hrun)
        have happend := readField_append hrun
        rw [hfield, List.cons_append] at happend
        obtain rfl := (List.cons.inj happend).1
        have halone := readField_alone rfl hrun
        rw [hfield] at halone ⊢
        exact Or.inl (.apart (hwellFormed (by simp)) kind halone)
      · cases hsegment
    | @sharedLine first _ kind =>
      simp only [readUnit] at hsegment
      split at hsegment
      · next run hrun =>
        cases hsegment
        obtain ⟨front, opening, cut, hitems, hfront, hclosed, hplace⟩ := hshared first rfl
        obtain ⟨field, hfield, -⟩ := readSharedField_append hrun
        rw [readSharedField_eq] at hrun
        have halone := readField_alone rfl hrun
        simp only at hitems
        rw [hfield] at halone ⊢
        rw [hitems]
        exact Or.inl (.shared hfront hclosed hplace kind halone)
      · cases hsegment
    | @loose first others kind =>
      simp only [readUnit] at hsegment
      split at hsegment
      · next hdrop =>
        cases hsegment
        rw [Bool.and_eq_true, decide_eq_true_eq] at hdrop
        exact Or.inr ⟨items, _, rfl, readLoose_ne_nil first others, hwellFormed (by simp), hdrop.2⟩
      · cases hsegment
  · split at hsegment <;> cases hsegment

theorem readsAlone_of_mem_segments {lines : List Line} {unit : FieldUnit}
    (h : .field unit ∈ segments lines) (haction : unit.action ≠ .drop) : unit.ReadsAlone := by
  rcases readsAlone_or_loose_of_mem_segments h with halone | ⟨_, _, -, -, -, hdrop⟩
  · exact halone
  · exact absurd hdrop haction

end Body

/-! ## Reading a unit back -/

namespace FieldUnit

/-- The lines in front of the first item that starts a unit. -/
def strayLines (unit : FieldUnit) : List Line :=
  (unit.leading.takeWhile fun item => !item.startsUnit).flatMap Leading.lines

/-- The unit from the first item on that starts one. -/
def withoutStray (unit : FieldUnit) : FieldUnit :=
  { unit with leading := unit.leading.dropWhile fun item => !item.startsUnit }

end FieldUnit

/-- A block starts a unit, whatever stands in front of it. -/
theorem Leading.whileStray_concat_block (items : List Leading) (lines : List Line) :
    (items ++ [block lines]).takeWhile (fun item => !item.startsUnit) =
        items.takeWhile (fun item => !item.startsUnit) ∧
      (items ++ [block lines]).dropWhile (fun item => !item.startsUnit) =
        items.dropWhile (fun item => !item.startsUnit) ++ [block lines] := by
  induction items with
  | nil => exact ⟨rfl, rfl⟩
  | cons item items ih =>
    cases hstarts : item.startsUnit with
    | true => simp [hstarts]
    | false => simpa [hstarts] using ih

theorem Leading.WellFormed.stray {item : Leading} (h : item.WellFormed)
    (hstarts : item.startsUnit = false) :
    ∃ line, item = .line line ∧ (LineKind.of line = .blank ∨ LineKind.of line = .comment) := by
  cases h with
  | block closed behind => cases hstarts
  | @line text kind =>
    refine ⟨text, rfl, ?_⟩
    simp only [List.mem_cons, List.not_mem_nil, or_false] at kind
    rcases kind with hdoc | hcomment | hblank
    · rw [startsUnit, hdoc] at hstarts
      cases hstarts
    · exact Or.inr hcomment
    · exact Or.inl hblank

theorem leadingItems_dropWhile {items : List Leading} (h : ∀ item ∈ items, item.WellFormed) :
    LeadingItems (items.dropWhile fun item => !item.startsUnit) := by
  constructor
  · intro item hitem
    exact h item ((List.dropWhile_sublist _).subset hitem)
  · intro item hitem
    have hhead := List.head?_dropWhile_not (fun item : Leading => !item.startsUnit) items
    rw [hitem] at hhead
    simpa using hhead

namespace Body

/-- Blank lines and comments in front of what starts a unit pass through one by one. -/
theorem segments_stray {items : List Leading} (h : ∀ item ∈ items, item.WellFormed)
    (rest : List Line) :
    segments (items.flatMap Leading.lines ++ rest) =
      ((items.takeWhile fun item => !item.startsUnit).flatMap Leading.lines).map
          (fun line => .verbatim [line]) ++
        segments ((items.dropWhile fun item => !item.startsUnit).flatMap Leading.lines ++ rest) := by
  induction items with
  | nil => rfl
  | cons item items ih =>
    obtain ⟨hitem, hitems⟩ := List.forall_mem_cons.1 h
    cases hstarts : item.startsUnit with
    | true => simp [hstarts]
    | false =>
      obtain ⟨line, rfl, hkind⟩ := hitem.stray hstarts
      have hgap : LineKind.of line ∈ [.blank, .comment, .other, .orphanRelation] := by
        rcases hkind with hkind | hkind <;> simp [hkind]
      have hpasses : (BodyPart.gap line).segment = .verbatim [line] := by
        rcases hkind with hkind | hkind <;> simp [BodyPart.segment, hkind]
      have hread := segments_gap hgap (items.flatMap Leading.lines ++ rest)
      rw [hpasses, ih hitems] at hread
      simpa [hstarts, Leading.lines] using hread

/-- **A unit that reads alone is read back from its lines.** -/
theorem segments_sourceLines {unit : FieldUnit} (h : unit.ReadsAlone) :
    segments unit.sourceLines =
      unit.strayLines.map (fun line => .verbatim [line]) ++ [.field unit.withoutStray] := by
  cases h with
  | @apart items first more leading starts field =>
    have hitems := leadingItems_dropWhile leading
    have hopens := @opensUnit_items _ hitems (first :: more)
      fun _ => ⟨first, rfl, by rw [starts]; rfl⟩
    change segments (items.flatMap Leading.lines ++ first :: more) = _
    rw [segments_stray leading, segments_of_opensUnit hopens, readLeading_items hitems.wellFormed,
      readLeading_field starts]
    simp [readUnit, field, FieldUnit.strayLines, FieldUnit.withoutStray]
  | @shared items opening cut first more leading closed place starts field =>
    obtain ⟨htake, hdrop⟩ := Leading.whileStray_concat_block items (opening ++ [cut])
    have hitems := leadingItems_dropWhile leading
    have hopens := opensUnit_items hitems fun _ => opensUnit_block closed more
    rw [FieldUnit.sourceLines_shared, segments_stray leading, segments_of_opensUnit hopens,
      readLeading_items hitems.wellFormed, readLeading_shared closed place starts]
    simp [readUnit, readSharedField_eq, field, FieldUnit.strayLines, FieldUnit.withoutStray, htake,
      hdrop]

end Body

end ModelMend
