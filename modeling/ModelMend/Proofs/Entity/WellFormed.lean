import ModelMend.Proofs.Entity.Restoration
import ModelMend.Proofs.Line.Idle

/-!
# Well-formed units

The grammar of a body, said without the reader. A well-formed unit is a run of leading items and the
lines of a field (`FieldUnit.WellFormed`), where a fresh scanner finds an attribute block closed after
its last line only and a field ended by the comma on its last line only. The reader takes exactly
that: from well-formed units with other lines between them it reads back the units, one segment
each, and no unit has a say in how its neighbours are cut (`Body.segments_wellFormed`).

A block that is open is carried along with its scanner (`readLeading_open`), so the induction on its
lines is about the scanner after the lines so far. A field may look ahead, but never out of itself:
where its brackets are closed, blank lines and comments do not bring the comma that ends it, so
another line of the field is still to come (`idle_of_nextSignificant_eq_none`).
-/

namespace ModelMend

open Text

/-! ## Blocks and fields -/

/-- Some bracket is open after each of the lines. -/
def StaysOpen (scanner : Scanner) (lines : List Line) : Prop :=
  ∀ front back, front ≠ [] → front ++ back = lines → (scanner.after front).isBalanced = false

/-- The lines of an attribute block and its last line: the brackets close there and not before. -/
structure ClosedBlock (opening : List Line) (last : Line) : Prop where
  starts : ∀ line, (opening ++ [last]).head? = some line → LineKind.of line = .attributeStart
  staysOpen : StaysOpen .forAttribute opening
  closes : (Scanner.after .forAttribute (opening ++ [last])).isBalanced = true

/-- The place on the last line of a block that its brackets close at. -/
def closingPlace (opening : List Line) (last : Line) : Option Nat :=
  ((Scanner.after .forAttribute opening).feed last).1.closedAt

namespace Leading

/-- A comment, a blank line, or a closed attribute block with no field behind it. -/
inductive WellFormed : Leading → Prop
  | line {text : Line} (kind : LineKind.of text ∈ [.docComment, .comment, .blank]) :
    WellFormed (.line text)
  | block {opening : List Line} {last : Line} (closed : ClosedBlock opening last)
    (behind : LineKind.of (last.drop ((closingPlace opening last).getD last.length)) ≠ .field) :
    WellFormed (.block (opening ++ [last]))

/-- A unit may start with this item: a documentation comment or an attribute block. -/
def startsUnit : Leading → Bool
  | block _ => true
  | line text => LineKind.of text = .docComment

end Leading

/-- A run of well-formed leading items, a documentation comment or a block first. -/
structure LeadingItems (items : List Leading) : Prop where
  wellFormed : ∀ item ∈ items, item.WellFormed
  starts : ∀ item, items.head? = some item → item.startsUnit = true

theorem LeadingItems.nil : LeadingItems [] :=
  ⟨by simp, by simp⟩

/-- The kind of the next line that is neither blank nor a comment. -/
def nextSignificant (lines : List Line) : Option LineKind :=
  (lines.map LineKind.of).find? fun kind => kind ≠ .blank && kind ≠ .comment

/-- None of the lines ends a field: none holds a comma at depth zero, and where the brackets are
closed the next significant line starts no unit. -/
def GoesOn (scanner : Scanner) (lines rest : List Line) : Prop :=
  ∀ front line back, front ++ line :: back = lines →
    ((scanner.after front).feed line).1.topComma = none ∧
      ((scanner.after (front ++ [line])).isBalanced = true →
        ∀ kind, nextSignificant (back ++ rest) = some kind → kind.startsUnit = false)

/-- The lines of a field: it starts with a visibility and ends at the comma on its last line. -/
structure CompleteField (front : List Line) (last : Line) : Prop where
  starts : ∀ line, (front ++ [last]).head? = some line → LineKind.of line = .field
  goesOn : GoesOn .forField front [last]
  ends : (((Scanner.after .forField front).feed last).1.topComma).isSome = true

namespace FieldUnit

/-- The lines that the unit is written on. -/
def sourceLines (unit : FieldUnit) : List Line :=
  match unit.sharesLine, unit.field with
  | true, first :: more =>
    Rendering.appendToLast (unit.leading.flatMap Leading.lines) first ++ more
  | _, field => unit.leading.flatMap Leading.lines ++ field

/-- A field that shares a line begins behind the last line of the last block. -/
theorem sourceLines_shared (items : List Leading) (opening : List Line) (cut first : Line)
    (more : List Line) :
    sourceLines ⟨items ++ [.block (opening ++ [cut])], first :: more, true⟩ =
      items.flatMap Leading.lines ++ (opening ++ (cut ++ first) :: more) := by
  have hleading : (items ++ [Leading.block (opening ++ [cut])]).flatMap Leading.lines =
      items.flatMap Leading.lines ++ opening ++ [cut] := by
    simp [Leading.lines]
  rw [sourceLines]
  dsimp only
  rw [hleading, Rendering.appendToLast_concat]
  simp

/-- Leading items and a complete field. Where they share a line, the field starts at the place that
the last block is closed at. -/
inductive WellFormed : FieldUnit → Prop
  | apart {items : List Leading} {front : List Line} {last : Line} (leading : LeadingItems items)
    (field : CompleteField front last) : WellFormed ⟨items, front ++ [last], false⟩
  | shared {items : List Leading} {opening front : List Line} {cut first last : Line}
    (leading : LeadingItems items) (closed : ClosedBlock opening (cut ++ first))
    (place : closingPlace opening (cut ++ first) = some cut.length)
    (behind : (front ++ [last]).head? = some first) (field : CompleteField front last) :
    WellFormed ⟨items ++ [.block (opening ++ [cut])], front ++ [last], true⟩

end FieldUnit

/-- A unit that the end of the body cuts short: in front of its field, in a block that is still open,
or in a field with brackets open. -/
inductive Unfinished : List Line → Prop
  | leading {items : List Leading} (leading : LeadingItems items) (some : items ≠ []) :
    Unfinished (items.flatMap Leading.lines)
  | block {items : List Leading} {first : Line} {more : List Line} (leading : LeadingItems items)
    (starts : LineKind.of first = .attributeStart)
    (staysOpen : StaysOpen .forAttribute (first :: more)) :
    Unfinished (items.flatMap Leading.lines ++ first :: more)
  | field {items : List Leading} {first : Line} {more : List Line} (leading : LeadingItems items)
    (starts : LineKind.of first = .field) (goesOn : GoesOn .forField (first :: more) [])
    (isOpen : (Scanner.after .forField (first :: more)).isBalanced = false) :
    Unfinished (items.flatMap Leading.lines ++ first :: more)
  | shared {items : List Leading} {opening more : List Line} {cut first : Line}
    (leading : LeadingItems items) (closed : ClosedBlock opening (cut ++ first))
    (place : closingPlace opening (cut ++ first) = some cut.length)
    (starts : LineKind.of first = .field) (goesOn : GoesOn .forField (first :: more) [])
    (isOpen : (Scanner.after .forField (first :: more)).isBalanced = false) :
    Unfinished (items.flatMap Leading.lines ++ opening ++ (cut ++ first) :: more)

/-! ## Lines one after the other -/

theorem staysOpen_nil (scanner : Scanner) : StaysOpen scanner [] := by
  intro front back hfront happend
  exact absurd (List.append_eq_nil_iff.1 happend).1 hfront

theorem staysOpen_cons {scanner : Scanner} {line : Line} {lines : List Line} :
    StaysOpen scanner (line :: lines) ↔
      (scanner.feed line).2.isBalanced = false ∧ StaysOpen (scanner.feed line).2 lines := by
  constructor
  · intro h
    refine ⟨h [line] lines (by simp) rfl, ?_⟩
    intro front back _ happend
    exact h (line :: front) back (by simp) (by rw [List.cons_append, happend])
  · rintro ⟨hline, hlines⟩ front back hfront happend
    obtain ⟨first, front, rfl⟩ := List.exists_cons_of_ne_nil hfront
    obtain ⟨rfl, htail⟩ := List.cons.inj happend
    by_cases hmore : front = []
    · rw [hmore]
      exact hline
    · exact hlines front back hmore htail

theorem goesOn_nil (scanner : Scanner) (rest : List Line) : GoesOn scanner [] rest := by
  intro front line back happend
  exact absurd happend (by simp)

theorem goesOn_cons {scanner : Scanner} {line : Line} {lines rest : List Line} :
    GoesOn scanner (line :: lines) rest ↔
      ((scanner.feed line).1.topComma = none ∧
        ((scanner.feed line).2.isBalanced = true →
          ∀ kind, nextSignificant (lines ++ rest) = some kind → kind.startsUnit = false)) ∧
      GoesOn (scanner.feed line).2 lines rest := by
  constructor
  · intro h
    refine ⟨h [] line lines rfl, ?_⟩
    intro front other back happend
    exact h (line :: front) other back (by rw [List.cons_append, happend])
  · rintro ⟨hline, hlines⟩ front other back happend
    rcases List.append_eq_cons_iff.1 happend with ⟨rfl, hcons⟩ | ⟨front, rfl, hmore⟩
    · obtain ⟨rfl, rfl⟩ := List.cons.inj hcons
      exact hline
    · exact hlines front other back hmore.symm

theorem nextSignificant_append {front back : List Line} {kind : LineKind}
    (h : nextSignificant front = some kind) : nextSignificant (front ++ back) = some kind := by
  unfold nextSignificant at h ⊢
  rw [List.map_append, List.find?_append, h]
  rfl

theorem idle_of_nextSignificant_eq_none {lines : List Line} (h : nextSignificant lines = none) :
    ∀ line ∈ lines, LineKind.of line = .blank ∨ LineKind.of line = .comment := by
  intro line hline
  have hskip := List.find?_eq_none.1 h _ (List.mem_map_of_mem hline)
  simp only [Bool.and_eq_true, decide_eq_true_eq, not_and, Decidable.not_not] at hskip
  by_cases hblank : LineKind.of line = .blank
  · exact Or.inl hblank
  · exact Or.inr (hskip hblank)

/-- Lines without code leave a scanner between brackets where it is, with no comma. -/
theorem after_idle {scanner : Scanner} {lines : List Line}
    (hidle : ∀ line ∈ lines, LineKind.of line = .blank ∨ LineKind.of line = .comment)
    (hangles : scanner.countsAngles = true) (hbalanced : scanner.isBalanced = true) :
    scanner.after lines = scanner := by
  induction lines with
  | nil => rfl
  | cons line lines ih =>
    obtain ⟨hline, hlines⟩ := List.forall_mem_cons.1 hidle
    rw [Scanner.after_cons, (Scanner.feed_idle hline hangles hbalanced).2]
    exact ih hlines

namespace Body

/-! ## Reading leading items -/

theorem readLeading_line {line : Line} (h : LineKind.of line ∈ [.docComment, .comment, .blank])
    (rest : List Line) :
    readLeading none (line :: rest) = (readLeading none rest).cons (.line line) := by
  simp only [List.mem_cons, List.not_mem_nil, or_false] at h
  rw [readLeading]
  rcases h with hkind | hkind | hkind <;> simp [hkind]

theorem readLeading_attributeStart {line : Line} (h : LineKind.of line = .attributeStart)
    (rest : List Line) :
    readLeading none (line :: rest) = readLeading (some ⟨.forAttribute, []⟩) (line :: rest) := by
  rw [readLeading, readLeading]
  simp [h]

theorem readLeading_open {opened : OpenBlock} {lines : List Line}
    (h : StaysOpen opened.scanner lines) (rest : List Line) :
    readLeading (some opened) (lines ++ rest) =
      readLeading (some ⟨opened.scanner.after lines, opened.lines ++ lines⟩) rest := by
  induction lines generalizing opened with
  | nil => simp
  | cons line lines ih =>
    obtain ⟨hline, hlines⟩ := staysOpen_cons.1 h
    rw [List.cons_append, readLeading]
    simp only [Option.isNone_some, Bool.false_and, Bool.false_eq_true, ↓reduceIte,
      Option.getD_some, hline, Bool.not_false]
    rw [ih hlines]
    simp

theorem readLeading_close {opened : OpenBlock} {last : Line}
    (hclosed : (opened.scanner.feed last).2.isBalanced = true)
    (hbehind : LineKind.of (last.drop ((opened.scanner.feed last).1.closedAt.getD last.length)) ≠
      .field) (rest : List Line) :
    readLeading (some opened) (last :: rest) =
      (readLeading none rest).cons (.block (opened.lines ++ [last])) := by
  rw [readLeading]
  simp [hclosed, hbehind]

/-- Behind the place where a block is closed its line may go on with a field. -/
theorem readLeading_close_shared {opened : OpenBlock} {cut first : Line}
    (hclosed : (opened.scanner.feed (cut ++ first)).2.isBalanced = true)
    (hplace : (opened.scanner.feed (cut ++ first)).1.closedAt = some cut.length)
    (hfirst : LineKind.of first = .field) (rest : List Line) :
    readLeading (some opened) ((cut ++ first) :: rest) =
      ⟨[.block (opened.lines ++ [cut])], .sharedLine first, rest⟩ := by
  rw [readLeading]
  simp [hclosed, hplace, hfirst]

theorem readLeading_opening {opening : List Line} {last : Line} (h : ClosedBlock opening last)
    (rest : List Line) :
    readLeading none (opening ++ last :: rest) =
      readLeading (some ⟨Scanner.after .forAttribute opening, opening⟩) (last :: rest) := by
  have hstart : readLeading none (opening ++ last :: rest) =
      readLeading (some ⟨.forAttribute, []⟩) (opening ++ last :: rest) := by
    cases opening with
    | nil => exact readLeading_attributeStart (h.starts last rfl) rest
    | cons first more => exact readLeading_attributeStart (h.starts first rfl) _
  rw [hstart, readLeading_open h.staysOpen]
  rfl

theorem readLeading_item {item : Leading} (h : item.WellFormed) (rest : List Line) :
    readLeading none (item.lines ++ rest) = (readLeading none rest).cons item := by
  cases h with
  | line kind =>
    rw [Leading.lines, List.singleton_append]
    exact readLeading_line kind rest
  | @block opening last closed behind =>
    have hclosed : ((Scanner.after .forAttribute opening).feed last).2.isBalanced = true := by
      simpa using closed.closes
    rw [Leading.lines, List.append_assoc, List.singleton_append, readLeading_opening closed]
    exact @readLeading_close ⟨_, opening⟩ last hclosed behind rest

theorem LeadingRun.foldr_cons (items : List Leading) (run : LeadingRun) :
    items.foldr LeadingRun.cons run = { run with items := items ++ run.items } := by
  induction items with
  | nil => rfl
  | cons item items ih => rw [List.foldr_cons, ih, LeadingRun.cons, List.cons_append]

theorem readLeading_items {items : List Leading} (h : ∀ item ∈ items, item.WellFormed)
    (rest : List Line) :
    readLeading none (items.flatMap Leading.lines ++ rest) =
      { readLeading none rest with items := items ++ (readLeading none rest).items } := by
  rw [← LeadingRun.foldr_cons]
  induction items with
  | nil => rfl
  | cons item items ih =>
    obtain ⟨hitem, hitems⟩ := List.forall_mem_cons.1 h
    rw [List.flatMap_cons, List.append_assoc, readLeading_item hitem, ih hitems, List.foldr_cons]

theorem readLeading_field {line : Line} (h : LineKind.of line = .field) (rest : List Line) :
    readLeading none (line :: rest) = ⟨[], .field, line :: rest⟩ := by
  rw [readLeading]
  simp [h]

theorem readLeading_shared {opening : List Line} {cut first : Line}
    (hclosed : ClosedBlock opening (cut ++ first))
    (hplace : closingPlace opening (cut ++ first) = some cut.length)
    (hfirst : LineKind.of first = .field) (rest : List Line) :
    readLeading none (opening ++ (cut ++ first) :: rest) =
      ⟨[.block (opening ++ [cut])], .sharedLine first, rest⟩ := by
  have hcloses : ((Scanner.after .forAttribute opening).feed (cut ++ first)).2.isBalanced = true := by
    simpa using hclosed.closes
  rw [readLeading_opening hclosed]
  exact @readLeading_close_shared ⟨_, opening⟩ cut first hcloses hplace hfirst rest

/-! ## Reading a field -/

theorem readSharedField_eq (first : Line) (lines : List Line) :
    readSharedField first lines = readField .forField (first :: lines) := rfl

/-- A field is not complete where one of its own lines is still to come. -/
theorem not_fieldComplete {report : LineScan × Scanner} {lines : List Line}
    (hcomma : report.1.topComma = none)
    (hnext : report.2.isBalanced = true →
      ∃ kind, nextSignificant lines = some kind ∧ kind.startsUnit = false) (rest : List Line) :
    fieldComplete report (lines ++ rest) = false := by
  rw [fieldComplete, hcomma]
  cases hbalanced : report.2.isBalanced with
  | false => rfl
  | true =>
    obtain ⟨kind, hkind, hstarts⟩ := hnext hbalanced
    have happend := @nextSignificant_append lines rest kind hkind
    rw [nextSignificant] at happend
    rw [unitStartsNext, happend]
    exact hstarts

/-- A complete field is read up to the comma that ends it. -/
theorem readField_complete {scanner : Scanner} {front : List Line} {last : Line}
    (hangles : scanner.countsAngles = true) (hgoesOn : GoesOn scanner front [last])
    (hends : ((scanner.after front).feed last).1.topComma.isSome = true) (rest : List Line) :
    readField scanner (front ++ last :: rest) = some ⟨front ++ [last], rest⟩ := by
  induction front generalizing scanner with
  | nil =>
    rw [List.nil_append, readField]
    simp only [Scanner.after_nil] at hends
    simp [fieldComplete, hends]
  | cons line front ih =>
    obtain ⟨⟨hcomma, hnext⟩, hmore⟩ := goesOn_cons.1 hgoesOn
    have hangles' : (scanner.feed line).2.countsAngles = true := by
      rw [Scanner.countsAngles_feed, hangles]
    have hopen : fieldComplete (scanner.feed line) ((front ++ [last]) ++ rest) = false := by
      refine not_fieldComplete hcomma (fun hbalanced => ?_) rest
      cases hkind : nextSignificant (front ++ [last]) with
      | some kind => exact ⟨kind, rfl, hnext hbalanced kind hkind⟩
      | none =>
        -- blank lines and comments cannot bring the comma
        have hidle := idle_of_nextSignificant_eq_none hkind
        have hfront := after_idle (fun other hmem => hidle other (List.mem_append_left _ hmem))
          hangles' hbalanced
        have hlast := Scanner.feed_idle (hidle last (by simp)) hangles' hbalanced
        rw [Scanner.after_cons, hfront, hlast.1] at hends
        cases hends
    rw [List.append_assoc, List.singleton_append] at hopen
    rw [List.cons_append, readField]
    simp only [hopen, Bool.false_eq_true, ↓reduceIte]
    rw [ih hangles' hmore hends]
    rfl

theorem readField_open {scanner : Scanner} {lines : List Line}
    (hangles : scanner.countsAngles = true) (hgoesOn : GoesOn scanner lines [])
    (hopen : (scanner.after lines).isBalanced = false) : readField scanner lines = none := by
  induction lines generalizing scanner with
  | nil => rfl
  | cons line lines ih =>
    obtain ⟨⟨hcomma, hnext⟩, hmore⟩ := goesOn_cons.1 hgoesOn
    have hangles' : (scanner.feed line).2.countsAngles = true := by
      rw [Scanner.countsAngles_feed, hangles]
    have hcomplete : fieldComplete (scanner.feed line) (lines ++ []) = false := by
      refine not_fieldComplete hcomma (fun hbalanced => ?_) []
      rw [List.append_nil] at hnext
      cases hkind : nextSignificant lines with
      | some kind => exact ⟨kind, rfl, hnext hbalanced kind hkind⟩
      | none =>
        have hidle := after_idle (idle_of_nextSignificant_eq_none hkind) hangles' hbalanced
        rw [Scanner.after_cons, hidle, hbalanced] at hopen
        cases hopen
    rw [List.append_nil] at hcomplete
    rw [readField]
    simp only [hcomplete, Bool.false_eq_true, ↓reduceIte]
    rw [ih hangles' hmore hopen]
    rfl

/-! ## Reading a unit -/

def OpensUnit (lines : List Line) : Prop :=
  ∃ line, lines.head? = some line ∧ (LineKind.of line).startsUnit = true

theorem segments_of_opensUnit {lines : List Line} (h : OpensUnit lines) :
    segments lines = (readUnit lines (readLeading none lines)).segment ::
      segments (readUnit lines (readLeading none lines)).rest := by
  obtain ⟨line, hhead, hstarts⟩ := h
  obtain ⟨more, rfl⟩ := List.head?_eq_some_iff.1 hhead
  rw [segments_cons]
  simp only [readSegment, hstarts, ↓reduceIte]

theorem opensUnit_block {opening : List Line} {last : Line} (h : ClosedBlock opening last)
    (rest : List Line) : OpensUnit (opening ++ last :: rest) := by
  cases opening with
  | nil => exact ⟨last, rfl, by rw [h.starts last rfl]; rfl⟩
  | cons first more => exact ⟨first, rfl, by rw [h.starts first rfl]; rfl⟩

/-- Leading items open a unit; where there are none, what follows has to. -/
theorem opensUnit_items {items : List Leading} (h : LeadingItems items) {rest : List Line}
    (hrest : items = [] → OpensUnit rest) : OpensUnit (items.flatMap Leading.lines ++ rest) := by
  cases items with
  | nil => exact hrest rfl
  | cons item items =>
    have hstarts := h.starts item rfl
    have hitem := h.wellFormed item List.mem_cons_self
    rw [List.flatMap_cons, List.append_assoc]
    cases hitem with
    | @line text kind =>
      have hkind : LineKind.of text = .docComment := of_decide_eq_true hstarts
      exact ⟨text, rfl, by rw [hkind]; rfl⟩
    | @block opening last closed behind =>
      rw [Leading.lines, List.append_assoc]
      exact opensUnit_block closed _

theorem CompleteField.cons {front : List Line} {last : Line} (h : CompleteField front last) :
    ∃ first more, front ++ [last] = first :: more ∧ LineKind.of first = .field := by
  cases front with
  | nil => exact ⟨last, [], rfl, h.starts last rfl⟩
  | cons first more => exact ⟨first, more ++ [last], rfl, h.starts first rfl⟩

theorem CompleteField.readField_eq {front : List Line} {last : Line} (h : CompleteField front last)
    (rest : List Line) :
    readField .forField (front ++ [last] ++ rest) = some ⟨front ++ [last], rest⟩ := by
  rw [List.append_assoc, List.singleton_append]
  exact readField_complete rfl h.goesOn h.ends rest

/-- **A well-formed unit is read as it was written**, whatever follows. -/
theorem segments_unit {unit : FieldUnit} (h : unit.WellFormed) (rest : List Line) :
    segments (unit.sourceLines ++ rest) = .field unit :: segments rest := by
  cases h with
  | @apart items front last leading field =>
    obtain ⟨first, more, hfield, hkind⟩ := CompleteField.cons field
    have hread := CompleteField.readField_eq field rest
    have hlines : FieldUnit.sourceLines ⟨items, front ++ [last], false⟩ ++ rest =
        items.flatMap Leading.lines ++ (first :: (more ++ rest)) := by
      rw [FieldUnit.sourceLines, List.append_assoc, hfield]
      rfl
    have hopens : OpensUnit (items.flatMap Leading.lines ++ (first :: (more ++ rest))) :=
      opensUnit_items leading fun _ => ⟨first, rfl, by rw [hkind]; rfl⟩
    rw [hfield, List.cons_append] at hread
    rw [hlines, segments_of_opensUnit hopens, readLeading_items leading.wellFormed,
      readLeading_field hkind]
    simp [readUnit, hread, hfield]
  | @shared items opening front cut first last leading closed place behind field =>
    obtain ⟨first', more, hfield, hkind⟩ := CompleteField.cons field
    have hread := CompleteField.readField_eq field rest
    rw [hfield] at behind
    cases behind
    have hlines : FieldUnit.sourceLines ⟨items ++ [.block (opening ++ [cut])], front ++ [last],
        true⟩ ++ rest = items.flatMap Leading.lines ++ (opening ++ (cut ++ first) ::
          (more ++ rest)) := by
      rw [hfield, FieldUnit.sourceLines_shared]
      simp
    have hopens : OpensUnit (items.flatMap Leading.lines ++ (opening ++ (cut ++ first) ::
        (more ++ rest))) :=
      opensUnit_items leading fun _ => opensUnit_block closed (more ++ rest)
    rw [hfield, List.cons_append] at hread
    rw [hlines, segments_of_opensUnit hopens, readLeading_items leading.wellFormed,
      readLeading_shared closed place hkind]
    simp [readUnit, readSharedField_eq, hread, hfield]

/-- **A unit that is cut short is handed back** line by line. -/
theorem segments_unfinished {lines : List Line} (h : Unfinished lines) :
    segments lines = [.verbatim lines] := by
  have handed (hopens : OpensUnit lines)
      (hread : readUnit lines (readLeading none lines) = ⟨.verbatim lines, []⟩) :
      segments lines = [.verbatim lines] := by
    rw [segments_of_opensUnit hopens, hread, segments_nil]
  cases h with
  | @leading items leading some =>
    have hread := @readLeading_items items leading.wellFormed []
    have hopens := @opensUnit_items items leading [] fun hnil => absurd hnil some
    rw [List.append_nil] at hread hopens
    refine handed hopens ?_
    rw [hread]
    rfl
  | @block items first more leading starts staysOpen =>
    refine handed (opensUnit_items leading fun _ => ⟨first, rfl, by rw [starts]; rfl⟩) ?_
    have hopen := @readLeading_open ⟨.forAttribute, []⟩ (first :: more) staysOpen []
    rw [List.append_nil] at hopen
    rw [readLeading_items leading.wellFormed, readLeading_attributeStart starts, hopen]
    rfl
  | @field items first more leading starts goesOn isOpen =>
    refine handed (opensUnit_items leading fun _ => ⟨first, rfl, by rw [starts]; rfl⟩) ?_
    have hnone := @readField_open .forField (first :: more) rfl goesOn isOpen
    rw [readLeading_items leading.wellFormed, readLeading_field starts]
    simp [readUnit, hnone]
  | @shared items opening more cut first leading closed place starts goesOn isOpen =>
    have hnone := @readField_open .forField (first :: more) rfl goesOn isOpen
    rw [List.append_assoc] at handed ⊢
    refine handed (opensUnit_items leading fun _ => opensUnit_block closed more) ?_
    rw [readLeading_items leading.wellFormed, readLeading_shared closed place starts]
    simp [readUnit, readSharedField_eq, hnone]

end Body

/-! ## A whole body -/

/-- A part of a body: a unit, or a line between units. -/
inductive BodyPart where
  | unit (field : FieldUnit)
  | gap (line : Line)

namespace BodyPart

def lines : BodyPart → List Line
  | .unit field => field.sourceLines
  | .gap line => [line]

/-- A unit is a field, a bare container an orphan, and any other line passes through. -/
def segment : BodyPart → Segment
  | .unit field => .field field
  | .gap line => if LineKind.of line = .orphanRelation then .orphan line else .verbatim [line]

/-- A well-formed unit, or a line that starts none. -/
def WellFormed : BodyPart → Prop
  | .unit field => field.WellFormed
  | .gap line => LineKind.of line ∈ [.blank, .comment, .other, .orphanRelation]

end BodyPart

namespace Body

theorem segments_gap {line : Line}
    (h : LineKind.of line ∈ [.blank, .comment, .other, .orphanRelation]) (rest : List Line) :
    segments (line :: rest) = (BodyPart.gap line).segment :: segments rest := by
  simp only [List.mem_cons, List.not_mem_nil, or_false] at h
  rw [segments_cons]
  rcases h with hkind | hkind | hkind | hkind <;>
    simp [readSegment, BodyPart.segment, hkind, LineKind.startsUnit]

theorem segments_parts {parts : List BodyPart} (h : ∀ part ∈ parts, part.WellFormed)
    (rest : List Line) :
    segments (parts.flatMap BodyPart.lines ++ rest) =
      parts.map BodyPart.segment ++ segments rest := by
  induction parts with
  | nil => rfl
  | cons part parts ih =>
    obtain ⟨hpart, hparts⟩ := List.forall_mem_cons.1 h
    rw [List.flatMap_cons, List.append_assoc, List.map_cons, List.cons_append, ← ih hparts]
    cases part with
    | unit field => exact segments_unit hpart _
    | gap line => exact segments_gap hpart _

/-- **The reader recovers exactly the grammar.** From well-formed units with any other lines between
them it reads back one segment for each, in order, a unit with its leading items, its field lines and
its place on the last line of a block; and a unit that the end of the body cuts short is handed back
as a whole. -/
theorem segments_wellFormed {parts : List BodyPart} (h : ∀ part ∈ parts, part.WellFormed) :
    segments (parts.flatMap BodyPart.lines) = parts.map BodyPart.segment ∧
      ∀ tail, Unfinished tail → segments (parts.flatMap BodyPart.lines ++ tail) =
        parts.map BodyPart.segment ++ [.verbatim tail] := by
  constructor
  · have hparts := segments_parts h []
    rwa [List.append_nil, segments_nil, List.append_nil] at hparts
  · intro tail htail
    rw [segments_parts h, segments_unfinished htail]

/-- A documented foreign key over several lines, a container without a name, and a key that shares its
line with its field. -/
def ownedCake : List BodyPart :=
  [.unit ⟨[.line "    /// Owner".toList,
      .block ["    #[sea_orm(".toList, "        belongs_to".toList, "    )]".toList], .line []],
    ["    pub owner:".toList, "        Option<i32>,".toList], false⟩,
   .gap "    HasMany<Cake>,".toList,
   .unit ⟨[.block ["    #[sea_orm(primary_key)]".toList]], [" pub id: i32,".toList], true⟩]

theorem ownedCake_wellFormed : ∀ part ∈ ownedCake, part.WellFormed := by
  have howner : ClosedBlock ["    #[sea_orm(".toList, "        belongs_to".toList] "    )]".toList := by
    refine ⟨?_, staysOpen_cons.2 ⟨by decide +kernel, staysOpen_cons.2 ⟨by decide +kernel, ?_⟩⟩, ?_⟩
    · rintro _ ⟨⟩
      decide +kernel
    · exact staysOpen_nil _
    · decide +kernel
  have hkey : ClosedBlock [] ("    #[sea_orm(primary_key)]".toList ++ " pub id: i32,".toList) := by
    refine ⟨?_, staysOpen_nil _, by decide +kernel⟩
    rintro _ ⟨⟩
    decide +kernel
  have hownerField : CompleteField ["    pub owner:".toList] "        Option<i32>,".toList := by
    refine ⟨?_, goesOn_cons.2 ⟨by decide +kernel, goesOn_nil _ _⟩, by decide +kernel⟩
    rintro _ ⟨⟩
    decide +kernel
  have hkeyField : CompleteField [] " pub id: i32,".toList := by
    refine ⟨?_, goesOn_nil _ _, by decide +kernel⟩
    rintro _ ⟨⟩
    decide +kernel
  have hleading : LeadingItems [.line "    /// Owner".toList,
      .block ["    #[sea_orm(".toList, "        belongs_to".toList, "    )]".toList], .line []] := by
    constructor
    · simp only [List.forall_mem_cons]
      exact ⟨.line (by decide +kernel), .block howner (by decide +kernel), .line (by decide +kernel),
        by simp⟩
    · rintro _ ⟨⟩
      decide +kernel
  have hgap : LineKind.of "    HasMany<Cake>,".toList ∈
      [.blank, .comment, .other, .orphanRelation] := by decide +kernel
  have hshared := FieldUnit.WellFormed.shared .nil hkey (by decide +kernel) rfl hkeyField
  unfold ownedCake
  simp only [List.forall_mem_cons]
  exact ⟨.apart hleading hownerField, hgap, hshared, by simp⟩

/-- A field whose bracket is open at the end of the body. -/
theorem unfinished_openField : Unfinished ["    pub tags: Vec<".toList] := by
  have hgoesOn : GoesOn .forField ["    pub tags: Vec<".toList] [] :=
    goesOn_cons.2 ⟨by decide +kernel, goesOn_nil _ _⟩
  exact .field .nil (by decide +kernel) hgoesOn (by decide +kernel)

theorem segments_ownedCake : (∀ part ∈ ownedCake, part.WellFormed) ∧
    Unfinished ["    pub tags: Vec<".toList] ∧
    segments (ownedCake.flatMap BodyPart.lines ++ ["    pub tags: Vec<".toList]) =
      ownedCake.map BodyPart.segment ++ [.verbatim ["    pub tags: Vec<".toList]] :=
  ⟨ownedCake_wellFormed, unfinished_openField,
    (segments_wellFormed ownedCake_wellFormed).2 _ unfinished_openField⟩

end Body

end ModelMend
