import ModelMend.Proofs.Entity.Covering
import ModelMend.Proofs.Entity.WellFormed
import ModelMend.Proofs.Source.Edits

/-!
# Attribute blocks and the line below

An attribute block above a bare container is handed back, and the container goes, where the brackets of
the container are not closed when its reading ends: the block is left stranded above whatever comes
next. This happens at a place the reader comes to exactly if well-formed leading items with a block
stand there, a container below them, and its brackets are not closed by the first line with a comma at
depth zero (`Body.not_strands_iff`). Nothing else that goes can stand right below a block that is handed
back (`Body.stays_or_orphan`).
-/

namespace ModelMend

open Text

/-- Lines are handed back, and an attribute starts on one of them. -/
def Segment.handsBackBlock : Segment → Bool
  | .verbatim lines => lines.any fun line => LineKind.of line = .attributeStart
  | .field _ | .orphan _ => false

/-- Right behind lines with an attribute block, which stay, a container goes. -/
def Strands (segments : List Segment) : Prop :=
  ∃ front kept line back, segments = front ++ kept :: .orphan line :: back ∧
    kept.handsBackBlock = true

/-- The brackets are closed after some line, and no line before it holds a comma at depth zero. -/
def ClosesFirst (scanner : Scanner) (lines : List Line) : Prop :=
  ∃ front line back, lines = front ++ line :: back ∧
    (scanner.after (front ++ [line])).isBalanced = true ∧
    ∀ before other behind, front = before ++ other :: behind →
      ((scanner.after before).feed other).1.topComma = none

theorem closesFirst_cons {scanner : Scanner} {line : Line} {lines : List Line} :
    ClosesFirst scanner (line :: lines) ↔ (scanner.feed line).2.isBalanced = true ∨
      (scanner.feed line).1.topComma = none ∧ ClosesFirst (scanner.feed line).2 lines := by
  constructor
  · rintro ⟨front, last, back, hlines, hclosed, hfirst⟩
    cases front with
    | nil =>
      obtain ⟨rfl, rfl⟩ := List.cons.inj hlines
      exact Or.inl hclosed
    | cons first front =>
      obtain ⟨rfl, htail⟩ := List.cons.inj hlines
      refine Or.inr ⟨hfirst [] line front rfl, front, last, back, htail, hclosed, ?_⟩
      intro before other behind hfront
      exact hfirst (line :: before) other behind (by rw [hfront, List.cons_append])
  · rintro (hclosed | ⟨hcomma, front, last, back, rfl, hclosed, hfirst⟩)
    · exact ⟨[], line, lines, rfl, hclosed, by simp⟩
    · refine ⟨line :: front, last, back, rfl, hclosed, ?_⟩
      intro before other behind hfront
      rcases List.cons_eq_append_iff.1 hfront with ⟨rfl, hcons⟩ | ⟨before, rfl, htail⟩
      · obtain ⟨rfl, -⟩ := List.cons.inj hcons
        exact hcomma
      · exact hfirst before other behind htail

namespace Body

/-! ## A container below leading items -/

/-- A bare container is read up to the first line with a comma at depth zero or with its brackets
closed. -/
theorem looseComplete_container {report : LineScan × Scanner} {container : Line} {field : List Line}
    (h : LineKind.of container = .orphanRelation) :
    looseComplete report (container :: field) =
      (report.1.topComma.isSome || report.2.isBalanced) := by
  simp [looseComplete, h]

/-- What is read of a container comes out with its brackets closed exactly if they close first. -/
theorem readLoose_isBalanced_iff {scanner : Scanner} {container : Line} {field lines : List Line}
    (hcontainer : LineKind.of container = .orphanRelation) (hopen : scanner.isBalanced = false) :
    (readLoose scanner (container :: field) lines).scanner.isBalanced = true ↔
      ClosesFirst scanner lines := by
  induction lines generalizing scanner field with
  | nil =>
    have hnone : ¬ClosesFirst scanner [] := by
      rintro ⟨front, line, back, hlines, -⟩
      exact absurd hlines (by simp)
    simp [readLoose, hopen, hnone]
  | cons line lines ih =>
    rw [readLoose_takes (Or.inr hopen), List.cons_append, looseComplete_container hcontainer,
      closesFirst_cons]
    cases hbalanced : (scanner.feed line).2.isBalanced with
    | true => simp [hbalanced]
    | false =>
      cases hcomma : (scanner.feed line).1.topComma with
      | some place => simp [hbalanced]
      | none => simp [ih hbalanced]

section

variable {container : Line} {more : List Line} (h : LineKind.of container = .orphanRelation)

include h

theorem readLoose_container_iff :
    (readLoose .forField [] (container :: more)).scanner.isBalanced = true ↔
      ClosesFirst .forField (container :: more) := by
  rw [readLoose_takes (Or.inl rfl), List.nil_append, looseComplete_container h, closesFirst_cons]
  cases hbalanced : (Scanner.forField.feed container).2.isBalanced with
  | true => simp [hbalanced]
  | false =>
    cases hcomma : (Scanner.forField.feed container).1.topComma with
    | some place => simp [hbalanced]
    | none => simp [readLoose_isBalanced_iff h hbalanced]

/-- A unit whose field is a bare container is dropped. -/
theorem action_container (items : List Leading) :
    FieldUnit.action ⟨items, (readLoose .forField [] (container :: more)).field, false⟩ =
      .drop := by
  have hfirst : (readLoose .forField [] (container :: more)).field.head? = some container := by
    rw [readLoose_takes (Or.inl rfl), List.nil_append]
    split
    · rfl
    · obtain ⟨tail, htail⟩ := readLoose_extends (Scanner.forField.feed container).2 [container] more
      rw [← htail]
      rfl
  simp [FieldUnit.action, FieldUnit.isRelationField, hfirst, h]

/-- A container whose brackets close first joins the leading items above it. -/
theorem readUnit_of_closesFirst (lines : List Line) (items : List Leading)
    (hcloses : ClosesFirst .forField (container :: more)) :
    readUnit lines ⟨items, .loose, container :: more⟩ =
      ⟨.field ⟨items, (readLoose .forField [] (container :: more)).field, false⟩,
        (readLoose .forField [] (container :: more)).rest⟩ := by
  simp [readUnit, (readLoose_container_iff h).2 hcloses, action_container h]

/-- Leading items above any other container are handed back, and the container is left. -/
theorem readUnit_of_not_closesFirst (items : List Leading)
    (hopen : ¬ClosesFirst .forField (container :: more)) :
    readUnit (items.flatMap Leading.lines ++ container :: more) ⟨items, .loose, container :: more⟩ =
      ⟨.verbatim (items.flatMap Leading.lines), container :: more⟩ := by
  have hbalanced : (readLoose .forField [] (container :: more)).scanner.isBalanced = false := by
    rw [← Bool.not_eq_true, readLoose_container_iff h]
    exact hopen
  simp [readUnit, hbalanced, linesBefore]

end

/-! ## What the reader has read -/

/-- The line belongs to the block, whose first line starts an attribute and which brackets have been
open in since. The line may be the first. -/
structure OpenBlock.Takes (opened : OpenBlock) (line : Line) : Prop where
  scanner_eq : opened.scanner = Scanner.after .forAttribute opened.lines
  staysOpen : StaysOpen .forAttribute opened.lines
  starts : ∀ first, (opened.lines ++ [line]).head? = some first →
    LineKind.of first = .attributeStart

theorem staysOpen_concat {scanner : Scanner} {lines : List Line} {line : Line}
    (h : StaysOpen scanner lines) (hline : (scanner.after (lines ++ [line])).isBalanced = false) :
    StaysOpen scanner (lines ++ [line]) := by
  intro front back hfront happend
  rcases List.eq_nil_or_concat back with rfl | ⟨back, last, rfl⟩
  · rw [List.append_nil] at happend
    rw [happend]
    exact hline
  · rw [List.concat_eq_append, ← List.append_assoc] at happend
    exact h front back hfront (List.append_inj_left' happend rfl)

namespace OpenBlock.Takes

variable {opened : OpenBlock} {line : Line} (h : opened.Takes line)

include h

theorem after_eq : Scanner.after .forAttribute (opened.lines ++ [line]) =
    (opened.scanner.feed line).2 := by
  rw [h.scanner_eq, Scanner.after_append]
  rfl

theorem closedBlock (hclosed : (opened.scanner.feed line).2.isBalanced = true) :
    ClosedBlock opened.lines line :=
  ⟨h.starts, h.staysOpen, h.after_eq ▸ hclosed⟩

/-- A block that the line leaves open takes the next line too. -/
theorem next (hopen : (opened.scanner.feed line).2.isBalanced = false) (other : Line) :
    OpenBlock.Takes ⟨(opened.scanner.feed line).2, opened.lines ++ [line]⟩ other := by
  refine ⟨h.after_eq.symm, staysOpen_concat h.staysOpen (h.after_eq ▸ hopen), ?_⟩
  intro first hfirst
  refine h.starts first ?_
  rw [List.head?_append] at hfirst
  cases hlines : opened.lines with
  | nil => simpa [hlines] using hfirst
  | cons start more => simpa [hlines] using hfirst

end OpenBlock.Takes

/-- Whatever is open is a block so far, whichever line comes next. -/
theorem OpenBlock.Takes.of_continues {current : Option OpenBlock} {opened : OpenBlock} {line : Line}
    (hcurrent : ∀ opened, current = some opened → ∀ line, opened.Takes line)
    (h : Continues current line opened) : opened.Takes line := by
  rcases h with rfl | ⟨-, hkind, rfl⟩
  · exact hcurrent opened rfl line
  · refine ⟨rfl, staysOpen_nil _, ?_⟩
    rintro _ ⟨⟩
    exact hkind

/-- The leading items in front of a line that is none, or of a field on a line of its own, are
well-formed. -/
theorem readLeading_wellFormed {current : Option OpenBlock} {lines : List Line}
    (hcurrent : ∀ opened, current = some opened → ∀ line, opened.Takes line)
    (hending : ∀ first, (readLeading current lines).ending ≠ .sharedLine first) :
    ∀ item ∈ (readLeading current lines).items, item.WellFormed := by
  induction lines generalizing current with
  | nil => simp [readLeading]
  | cons line lines ih =>
    have htakes {opened : OpenBlock} (h : Continues current line opened) : opened.Takes line :=
      .of_continues hcurrent h
    have hstep := readLeading_step current line lines
    generalize readLeading current (line :: lines) = run at hstep hending ⊢
    cases hstep with
    | field kind => simp
    | loose kind => simp
    | item kind => exact List.forall_mem_cons.2 ⟨.line kind, ih (by simp) hending⟩
    | goesOn continues isOpen =>
      refine ih ?_ hending
      rintro _ ⟨⟩ other
      exact (htakes continues).next isOpen other
    | shared items first kind => exact absurd rfl (hending first)
    | @closed opened continues closes behind =>
      have hblock : (Leading.block (opened.lines ++ [line])).WellFormed := by
        refine .block ((htakes continues).closedBlock closes) ?_
        rw [closingPlace, ← (htakes continues).scanner_eq]
        exact behind
      exact List.forall_mem_cons.2 ⟨hblock, ih (by simp) hending⟩

/-! ## One segment -/

/-- A run that starts a unit starts with an item that does. -/
theorem leadingItems_of_wellFormed {items : List Leading} {line : Line} {lines rest : List Line}
    (h : ∀ item ∈ items, item.WellFormed)
    (hlines : items.flatMap Leading.lines ++ rest = line :: lines)
    (hstarts : (LineKind.of line).startsUnit = true) : LeadingItems items := by
  refine ⟨h, fun item hitem => ?_⟩
  obtain ⟨others, rfl⟩ := List.head?_eq_some_iff.1 hitem
  cases h item List.mem_cons_self with
  | block closed behind => rfl
  | line kind =>
    obtain ⟨rfl, -⟩ := List.cons.inj hlines
    simp only [List.mem_cons, List.not_mem_nil, or_false] at kind
    rcases kind with hkind | hkind | hkind <;>
      simp_all [LineKind.startsUnit, Leading.startsUnit]

/-- An attribute starts among well-formed items exactly if one of them is a block. -/
theorem any_attributeStart_iff {items : List Leading} (h : ∀ item ∈ items, item.WellFormed) :
    ((items.flatMap Leading.lines).any fun line => LineKind.of line = .attributeStart) = true ↔
      items.any Leading.isBlock = true := by
  simp only [List.any_eq_true, List.mem_flatMap, decide_eq_true_eq]
  constructor
  · rintro ⟨line, ⟨item, hitem, hline⟩, hkind⟩
    refine ⟨item, hitem, ?_⟩
    cases h item hitem with
    | block closed behind => rfl
    | line kind =>
      cases List.mem_singleton.1 hline
      rw [hkind] at kind
      exact absurd kind (by decide)
  · rintro ⟨item, hitem, hblock⟩
    cases h item hitem with
    | line kind => cases hblock
    | @block opening last closed behind =>
      obtain ⟨first, hfirst⟩ : ∃ first, (opening ++ [last]).head? = some first := by
        cases opening with
        | nil => exact ⟨last, rfl⟩
        | cons first more => exact ⟨first, rfl⟩
      exact ⟨first, ⟨_, hitem, List.mem_of_head? hfirst⟩, closed.starts first hfirst⟩

/-- Well-formed leading items with a block, and below them a container whose brackets do not close
first. -/
def OpenContainerBelow (lines : List Line) : Prop :=
  ∃ items container more, lines = items.flatMap Leading.lines ++ container :: more ∧
    LeadingItems items ∧ items.any Leading.isBlock = true ∧
    LineKind.of container = .orphanRelation ∧ ¬ClosesFirst .forField (container :: more)

theorem readLeading_container {items : List Leading} (h : LeadingItems items) {container : Line}
    (hcontainer : LineKind.of container = .orphanRelation) (more : List Line) :
    readLeading none (items.flatMap Leading.lines ++ container :: more) =
      ⟨items, .loose, container :: more⟩ := by
  have hloose : readLeading none (container :: more) = ⟨[], .loose, container :: more⟩ := by
    rw [readLeading]
    simp [hcontainer]
  rw [readLeading_items h.wellFormed, hloose, List.append_nil]

/-- A block that is handed back stands above a line that starts no unit, or at the end of the body. -/
theorem readSegment_of_handsBackBlock {line : Line} {lines : List Line}
    (h : (readSegment line lines).segment.handsBackBlock = true) :
    (readSegment line lines).rest = [] ∨ ∃ items first more,
      line :: lines = items.flatMap Leading.lines ++ first :: more ∧ LeadingItems items ∧
        items.any Leading.isBlock = true ∧ (LineKind.of first).startsUnit = false ∧
        readSegment line lines = readUnit (line :: lines) ⟨items, .loose, first :: more⟩ ∧
        readSegment line lines = ⟨.verbatim (items.flatMap Leading.lines), first :: more⟩ := by
  cases hstarts : (LineKind.of line).startsUnit with
  | false =>
    exfalso
    have hkind : LineKind.of line ≠ .attributeStart := by
      intro hkind
      rw [hkind] at hstarts
      cases hstarts
    simp only [readSegment, hstarts, Bool.false_eq_true, ↓reduceIte] at h
    split at h
    · cases h
    · simp [Segment.handsBackBlock, hkind] at h
  | true =>
    have hsegment : readSegment line lines =
        readUnit (line :: lines) (readLeading none (line :: lines)) := by
      simp only [readSegment, hstarts, ↓reduceIte]
    have hfrom := readLeading_readFrom none (line :: lines)
    have hends := readLeading_precedes none (line :: lines)
    have hitems := @readLeading_wellFormed none (line :: lines) (by simp)
    rw [hsegment] at h ⊢
    generalize readLeading none (line :: lines) = read at h hfrom hends hitems ⊢
    obtain ⟨items, ending, rest⟩ := read
    cases hends with
    | missing => exact Or.inl rfl
    | field kind =>
      simp only [readUnit] at h ⊢
      split at h
      · cases h
      · exact Or.inl rfl
    | sharedLine kind =>
      simp only [readUnit] at h ⊢
      split at h
      · cases h
      · exact Or.inl rfl
    | @loose first more hkind =>
      have hlines : items.flatMap Leading.lines ++ first :: more = line :: lines := hfrom
      have hwellFormed : ∀ item ∈ items, item.WellFormed := hitems (by simp)
      have hback : readUnit (line :: lines) ⟨items, .loose, first :: more⟩ =
          ⟨.verbatim (items.flatMap Leading.lines), first :: more⟩ := by
        simp only [readUnit] at h ⊢
        split at h
        · cases h
        · next hkept =>
          rw [if_neg hkept, ← hlines]
          simp [linesBefore]
      rw [hback] at h
      have hblock := (any_attributeStart_iff hwellFormed).1 h
      exact Or.inr ⟨items, first, more, hlines.symm,
        leadingItems_of_wellFormed hwellFormed hlines hstarts, hblock, hkind, rfl, hback⟩

/-- **A block is handed back above a container** exactly if the brackets of the container do not close
first. -/
theorem handsBackBlock_above_container_iff {line : Line} {lines : List Line} :
    ((readSegment line lines).segment.handsBackBlock = true ∧
      ∃ container more, (readSegment line lines).rest = container :: more ∧
        LineKind.of container = .orphanRelation) ↔ OpenContainerBelow (line :: lines) := by
  constructor
  · rintro ⟨hback, container, more, hrest, hcontainer⟩
    rcases readSegment_of_handsBackBlock hback with hnil |
      ⟨items, first, others, hlines, hitems, hblock, -, hunit, hsegment⟩
    · rw [hnil] at hrest
      cases hrest
    · rw [hsegment] at hrest
      obtain ⟨rfl, rfl⟩ := List.cons.inj hrest
      refine ⟨items, first, others, hlines, hitems, hblock, hcontainer, fun hcloses => ?_⟩
      rw [hunit, readUnit_of_closesFirst hcontainer _ _ hcloses] at hsegment
      cases hsegment
  · rintro ⟨items, container, more, hlines, hitems, hblock, hcontainer, hopen⟩
    have hopens : OpensUnit (line :: lines) := by
      rw [hlines]
      refine opensUnit_items hitems fun hnil => ?_
      rw [hnil] at hblock
      cases hblock
    obtain ⟨first, hfirst, hstarts⟩ := hopens
    cases hfirst
    have hsegment : readSegment line lines =
        ⟨.verbatim (items.flatMap Leading.lines), container :: more⟩ := by
      simp only [readSegment, hstarts, ↓reduceIte]
      rw [hlines, readLeading_container hitems hcontainer,
        readUnit_of_not_closesFirst hcontainer items hopen]
    rw [hsegment]
    exact ⟨(any_attributeStart_iff hitems.wellFormed).2 hblock, container, more, rfl, hcontainer⟩

/-! ## A whole body -/

/-- Reading the lines comes to this place between two segments: these are the lines that are left. -/
inductive Reaches : List Line → List Line → Prop
  | start (lines : List Line) : Reaches lines lines
  | later {line : Line} {lines place : List Line}
    (rest : Reaches (readSegment line lines).rest place) : Reaches (line :: lines) place

/-- Each segment is read at a place that reading comes to. -/
theorem reaches_of_segments {lines : List Line} {front back : List Segment} {segment : Segment}
    (h : segments lines = front ++ segment :: back) :
    ∃ line more, Reaches lines (line :: more) ∧ (readSegment line more).segment = segment ∧
      segments (readSegment line more).rest = back := by
  induction front generalizing lines with
  | nil =>
    cases lines with
    | nil => simp at h
    | cons line more =>
      rw [segments_cons] at h
      obtain ⟨hsegment, hback⟩ := List.cons.inj h
      exact ⟨line, more, .start _, hsegment, hback⟩
  | cons first front ih =>
    cases lines with
    | nil => simp at h
    | cons line lines =>
      rw [segments_cons] at h
      obtain ⟨-, htail⟩ := List.cons.inj h
      obtain ⟨other, more, hreaches, hsegment, hback⟩ := ih htail
      exact ⟨other, more, .later hreaches, hsegment, hback⟩

theorem Reaches.segments_suffix {lines place : List Line} (h : Reaches lines place) :
    segments place <:+ segments lines := by
  induction h with
  | start lines => exact List.suffix_refl _
  | @later line lines place rest ih =>
    rw [segments_cons]
    exact ih.trans (List.suffix_cons _ _)

/-- A container goes exactly where a segment starts at one. -/
theorem segments_eq_orphan_cons_iff {lines : List Line} {container : Line} :
    (∃ back, segments lines = .orphan container :: back) ↔
      ∃ more, lines = container :: more ∧ LineKind.of container = .orphanRelation := by
  constructor
  · rintro ⟨back, hback⟩
    cases lines with
    | nil => simp at hback
    | cons line more =>
      rw [segments_cons] at hback
      have hsegment := (List.cons.inj hback).1
      have hkind := orphanRelation_of_readSegment hsegment
      unfold readSegment at hsegment
      dsimp only at hsegment
      split at hsegment
      · exact absurd hsegment (readUnit_segment_ne_orphan _ _ _)
      · split at hsegment
        · cases hsegment
          exact ⟨more, rfl, hkind⟩
        · cases hsegment
  · rintro ⟨more, rfl, hkind⟩
    exact ⟨segments more, by simp [segments_cons, readSegment, hkind, LineKind.startsUnit]⟩

theorem strands_iff (lines : List Line) :
    Strands (segments lines) ↔ ∃ place, Reaches lines place ∧ OpenContainerBelow place := by
  constructor
  · rintro ⟨front, kept, container, back, hsegments, hback⟩
    obtain ⟨line, more, hreaches, rfl, hrest⟩ := reaches_of_segments hsegments
    obtain ⟨others, hothers, hcontainer⟩ := segments_eq_orphan_cons_iff.1 ⟨back, hrest⟩
    exact ⟨line :: more, hreaches, handsBackBlock_above_container_iff.1
      ⟨hback, container, others, hothers, hcontainer⟩⟩
  · rintro ⟨place, hreaches, hopen⟩
    obtain ⟨front, hfront⟩ := hreaches.segments_suffix
    cases place with
    | nil =>
      obtain ⟨items, container, more, hlines, -⟩ := hopen
      exact absurd hlines (by simp)
    | cons line more =>
      obtain ⟨hback, container, others, hothers, hcontainer⟩ :=
        handsBackBlock_above_container_iff.2 hopen
      obtain ⟨back, hrest⟩ := segments_eq_orphan_cons_iff.2 ⟨others, hothers, hcontainer⟩
      rw [segments_cons, hrest] at hfront
      exact ⟨front, _, container, back, hfront.symm, hback⟩

/-- Whatever stands right behind a block that is handed back either stays or is a container. -/
theorem stays_or_orphan {lines : List Line} {front back : List Segment} {kept next : Segment}
    (h : segments lines = front ++ kept :: next :: back) (hback : kept.handsBackBlock = true) :
    next.stays = true ∨ ∃ container, next = .orphan container := by
  obtain ⟨line, more, -, rfl, hrest⟩ := reaches_of_segments h
  rcases readSegment_of_handsBackBlock hback with hnil |
    ⟨items, first, others, -, -, -, hstarts, -, hsegment⟩
  · rw [hnil, segments_nil] at hrest
    cases hrest
  · rw [hsegment, segments_cons] at hrest
    obtain ⟨rfl, -⟩ := List.cons.inj hrest
    simp only [readSegment, hstarts, Bool.false_eq_true, ↓reduceIte]
    split
    · exact Or.inr ⟨first, rfl⟩
    · exact Or.inl rfl

/-- **Attribute blocks and the line below go or stay together** exactly where each bare container
right below the leading items of a unit, a block among them, has its brackets closed by the first line
with a comma at depth zero. -/
theorem not_strands_iff (lines : List Line) :
    (¬Strands (segments lines) ↔ ∀ place, Reaches lines place →
      ∀ items container more, place = items.flatMap Leading.lines ++ container :: more →
        LeadingItems items → items.any Leading.isBlock = true →
        LineKind.of container = .orphanRelation → ClosesFirst .forField (container :: more)) ∧
    (¬Strands (segments lines) ↔ ∀ front kept next back,
      segments lines = front ++ kept :: next :: back → kept.handsBackBlock = true →
        next.stays = true) := by
  constructor
  · rw [strands_iff]
    constructor
    · intro h place hreaches items container more hlines hitems hblock hcontainer
      refine Classical.byContradiction fun hopen => ?_
      exact h ⟨place, hreaches, items, container, more, hlines, hitems, hblock, hcontainer, hopen⟩
    · rintro h ⟨place, hreaches, items, container, more, hlines, hitems, hblock, hcontainer, hopen⟩
      exact hopen (h place hreaches items container more hlines hitems hblock hcontainer)
  · constructor
    · intro h front kept next back hsegments hback
      rcases stays_or_orphan hsegments hback with hstays | ⟨container, rfl⟩
      · exact hstays
      · exact absurd ⟨front, kept, container, back, hsegments, hback⟩ h
    · rintro h ⟨front, kept, container, back, hsegments, hback⟩
      exact absurd (h front kept _ back hsegments hback) (by simp [Segment.stays])

/-- The bracket of `HasMany<` is never closed: the line goes from under its annotation, and mending
again takes the unrelated field `id` with the annotation. -/
theorem has_many_stranded_above_id :
    let lines := ["    #[sea_orm(has_many)]".toList, "    HasMany<".toList,
      "    pub id: i32,".toList]
    Strands (segments lines) ∧
      segments lines = [.verbatim ["    #[sea_orm(has_many)]".toList], .orphan "    HasMany<".toList,
        .field ⟨[], ["    pub id: i32,".toList], false⟩] ∧
      (mendBody {} lines).lines = ["    #[sea_orm(has_many)]".toList, "    pub id: i32,".toList] ∧
      (mendBody {} (mendBody {} lines).lines).lines = [] := by
  refine ⟨⟨[], .verbatim ["    #[sea_orm(has_many)]".toList], "    HasMany<".toList,
    [.field ⟨[], ["    pub id: i32,".toList], false⟩], ?_, ?_⟩, ?_, ?_, ?_⟩ <;> decide +kernel

end Body

end ModelMend
