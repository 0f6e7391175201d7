import Mathlib.Data.List.DropRight
import ModelMend.Proofs.Entity.Appending
import ModelMend.Proofs.Entity.KeyFlags

/-!
# Reducing a unit

What is left of a unit with its `belongs_to` blocks reduced is read back as one unit with the same field,
which is kept and has the same key flags (`Body.reduction_exact`).

Each leading item is left alone, reduced to a line, or taken away (`Leading.stripped?`). Where the field
shares a line with a block, it stands behind what is left of the block, or on a line of its own if
nothing is left (`FieldUnit.exists_stripped`); either way the unit that is written is one that reads
alone, and the reader gives it back.
-/

namespace ModelMend

open Text

/-! ## What is left of leading items -/

namespace Leading

/-- What is left of an item where `belongs_to` blocks are reduced. -/
def stripped? (item : Leading) : Option Leading :=
  match item with
  | .line text => some (.line text)
  | .block lines =>
    match item.directives?.filter Directives.belongsTo with
    | some directives => (reducedBlock lines directives).map fun line => .block [line]
    | none => some (.block lines)

/-- A block with `belongs_to` is reduced, and any other item is left alone. -/
inductive Strips (item : Leading) : Option Leading → Prop
  | reduced {lines : List Line} {directives : Directives} (block : item = .block lines)
    (directives_eq : item.directives? = some directives) (belongsTo : directives.belongsTo = true) :
    Strips item ((reducedBlock lines directives).map fun line => .block [line])
  | kept (plain : ∀ directives, item.directives? = some directives → directives.belongsTo = false) :
    Strips item (some item)

theorem strips (item : Leading) : item.Strips item.stripped? := by
  cases item with
  | line text =>
    refine .kept ?_
    intro directives hdirectives
    cases hdirectives
  | block lines =>
    unfold stripped?
    simp only
    cases hfilter : (block lines).directives?.filter Directives.belongsTo with
    | some directives =>
      obtain ⟨hdirectives, hbelongs⟩ := Option.filter_eq_some_iff.1 hfilter
      exact .reduced rfl hdirectives hbelongs
    | none =>
      refine .kept ?_
      intro directives hdirectives
      have hnone := Option.filter_eq_none_iff.1 hfilter directives hdirectives
      simpa using hnone

theorem WellFormed.lines_ne_nil {item : Leading} (h : item.WellFormed) : item.lines ≠ [] := by
  cases h with
  | line kind => simp [lines]
  | block closed behind => simp [lines]

theorem WellFormed.stripped? {item left : Leading} (h : item.WellFormed)
    (hleft : item.stripped? = some left) : left.WellFormed := by
  have hstrips := item.strips
  rw [hleft] at hstrips
  generalize hresult : some left = result at hstrips
  cases hstrips with
  | reduced block directives_eq belongsTo =>
    obtain ⟨line, hline, rfl⟩ := Option.map_eq_some_iff.1 hresult.symm
    exact wellFormed_reducedBlock hline
  | kept plain =>
    cases hresult
    exact h

end Leading

/-! ## The key flags -/

/-- The key flags that directives have, in order, without those that have none. -/
def keyFlagPairs (directives : List Directives) : List (Bool × Bool) :=
  (directives.map fun directives =>
    (directives.primaryKey, directives.autoIncrementDisabled)).filter (· ≠ (false, false))

theorem keyFlagPairs_append (front back : List Directives) :
    keyFlagPairs (front ++ back) = keyFlagPairs front ++ keyFlagPairs back := by
  rw [keyFlagPairs, List.map_append, List.filter_append]
  rfl

theorem keyFlagPairs_singleton_of_not {directives : Directives}
    (h : directives.hasKeyFlags = false) : keyFlagPairs [directives] = [] := by
  obtain ⟨primaryKey, autoIncrementDisabled, _, _, _, _⟩ := directives
  cases primaryKey <;> cases autoIncrementDisabled <;> first | rfl | cases h

theorem Leading.keyFlagPairs_stripped? {item : Leading} (h : item.lines ≠ []) :
    keyFlagPairs (item.stripped?.bind Leading.directives?).toList =
      keyFlagPairs item.directives?.toList := by
  have hstrips := item.strips
  generalize item.stripped? = left at hstrips
  cases hstrips with
  | kept plain => rfl
  | @reduced lines directives block directives_eq belongsTo =>
    subst block
    rw [directives_eq]
    cases hline : reducedBlock lines directives with
    | some line =>
      change keyFlagPairs (Leading.block [line]).directives?.toList = _
      rw [directives?_reducedBlock hline]
      rfl
    | none =>
      exact (keyFlagPairs_singleton_of_not (hasKeyFlags_of_reducedBlock_eq_none h hline)).symm

/-- **Reducing blocks changes no key flags.** -/
theorem keyFlagPairs_filterMap_stripped? {items : List Leading} (h : ∀ item ∈ items, item.lines ≠ []) :
    keyFlagPairs ((items.filterMap Leading.stripped?).filterMap Leading.directives?) =
      keyFlagPairs (items.filterMap Leading.directives?) := by
  have hcons (f : Leading → Option Directives) (item : Leading) (items : List Leading) :
      (item :: items).filterMap f = (f item).toList ++ items.filterMap f := by
    rw [List.filterMap_cons]
    cases f item <;> rfl
  rw [List.filterMap_filterMap]
  induction items with
  | nil => rfl
  | cons item items ih =>
    obtain ⟨hitem, hitems⟩ := List.forall_mem_cons.1 h
    rw [hcons, hcons, keyFlagPairs_append, keyFlagPairs_append, item.keyFlagPairs_stripped? hitem,
      ih hitems]

/-- No `belongs_to` is left, and no relation has come. -/
theorem directives_filterMap_stripped? {items : List Leading} {directives : Directives}
    (h : directives ∈ (items.filterMap Leading.stripped?).filterMap Leading.directives?) :
    directives.belongsTo = false ∧
      (directives ∈ items.filterMap Leading.directives? ∨ directives.declaresRelation = false) := by
  obtain ⟨left, hleft, hdirectives⟩ := List.mem_filterMap.1 h
  obtain ⟨item, hitem, hstripped⟩ := List.mem_filterMap.1 hleft
  have hstrips := item.strips
  rw [hstripped] at hstrips
  generalize hresult : some left = result at hstrips
  cases hstrips with
  | kept plain =>
    cases hresult
    exact ⟨plain directives hdirectives, Or.inl (List.mem_filterMap.2 ⟨left, hitem, hdirectives⟩)⟩
  | reduced block directives_eq belongsTo =>
    obtain ⟨line, hline, rfl⟩ := Option.map_eq_some_iff.1 hresult.symm
    rw [directives?_reducedBlock hline, Option.some.injEq] at hdirectives
    subst hdirectives
    exact ⟨rfl, Or.inr rfl⟩

/-! ## What is written -/

namespace FieldUnit

/-- The field is the same. Where it shares a line with a block its first line may have other white space
in front. -/
def SameField (unit other : FieldUnit) : Prop :=
  if unit.sharesLine then
    ∃ first first' more, unit.field = first :: more ∧ other.field = first' :: more ∧
      trimStart first' = trimStart first
  else other.field = unit.field

namespace Rendering

/-- What a leading item writes: the lines of what is left of it, and a field may follow on the last of
them if they are those of a block. -/
theorem write_strip {item : Leading} (h : item.lines ≠ []) (out : Rendering) :
    (write .stripBelongsTo out item).lines =
        out.lines ++ item.stripped?.toList.flatMap Leading.lines ∧
      (write .stripBelongsTo out item).glue = item.stripped?.any Leading.isBlock := by
  cases item with
  | line text => exact ⟨rfl, rfl⟩
  | block lines =>
    have hfilter : ((Leading.block lines).directives?.filter fun directives =>
        directives.belongsTo && decide True) =
          (Leading.block lines).directives?.filter Directives.belongsTo := by
      simp
    unfold write Leading.stripped?
    simp only
    rw [hfilter]
    cases (Leading.block lines).directives?.filter Directives.belongsTo with
    | some directives =>
      cases hline : reducedBlock lines directives <;> simp [hline, Leading.lines, Leading.isBlock]
    | none =>
      have hlines : lines ≠ [] := h
      simp [Leading.lines, Leading.isBlock, hlines]

theorem foldl_write_strip_lines {items : List Leading} (h : ∀ item ∈ items, item.lines ≠ []) :
    (items.foldl (write .stripBelongsTo) { lines := [] }).lines =
      (items.filterMap Leading.stripped?).flatMap Leading.lines := by
  rw [foldl_write_lines, List.nil_append]
  induction items with
  | nil => rfl
  | cons item items ih =>
    obtain ⟨hitem, hitems⟩ := List.forall_mem_cons.1 h
    rw [List.flatMap_cons, ih hitems, (write_strip hitem _).1, List.nil_append, List.filterMap_cons]
    cases item.stripped? <;> simp

end Rendering

theorem renderInto_strip_apart {items : List Leading} (h : ∀ item ∈ items, item.lines ≠ [])
    (field : List Line) :
    (renderInto ⟨items, field, false⟩ .stripBelongsTo []).1 =
      (items.filterMap Leading.stripped?).flatMap Leading.lines ++ field := by
  simp [renderInto, Rendering.foldl_write_strip_lines h]

/-- A field that shares a line stays behind what is left of the block, or begins a line of its own. -/
theorem renderInto_strip_shared {items : List Leading} {last : Leading}
    (h : ∀ item ∈ items ++ [last], item.lines ≠ []) (first : Line) (more : List Line) :
    (renderInto ⟨items ++ [last], first :: more, true⟩ .stripBelongsTo []).1 =
      (if last.stripped?.any Leading.isBlock then
        Rendering.appendToLast
          (((items ++ [last]).filterMap Leading.stripped?).flatMap Leading.lines) first
      else
        ((items ++ [last]).filterMap Leading.stripped?).flatMap Leading.lines ++
          [indentation ⟨items ++ [last], first :: more, true⟩ ++ trimStart first]) ++ more := by
  have hglue : ((items ++ [last]).foldl (Rendering.write .stripBelongsTo) { lines := [] }).glue =
      last.stripped?.any Leading.isBlock := by
    rw [List.foldl_append, List.foldl_cons, List.foldl_nil,
      (Rendering.write_strip (h last (by simp)) _).2]
  rw [renderInto, if_neg (by decide)]
  dsimp only
  rw [hglue, Rendering.foldl_write_strip_lines h]

end FieldUnit

/-- What is left of a block that a field shares a line with is such a block. -/
theorem ClosedBlock.stripped? {opening : List Line} {cut first : Line} {left : Leading}
    (hclosed : ClosedBlock opening (cut ++ first))
    (hplace : closingPlace opening (cut ++ first) = some cut.length)
    (hleft : (Leading.block (opening ++ [cut])).stripped? = some left) :
    ∃ opening' cut', left = .block (opening' ++ [cut']) ∧ ClosedBlock opening' (cut' ++ first) ∧
      closingPlace opening' (cut' ++ first) = some cut'.length := by
  have hstrips := (Leading.block (opening ++ [cut])).strips
  rw [hleft] at hstrips
  generalize hresult : some left = result at hstrips
  cases hstrips with
  | kept plain =>
    cases hresult
    exact ⟨opening, cut, rfl, hclosed, hplace⟩
  | reduced block directives_eq belongsTo =>
    cases block
    obtain ⟨line, hline, rfl⟩ := Option.map_eq_some_iff.1 hresult.symm
    obtain ⟨head, written, tail, -, hwritten, rfl, -, htail⟩ := exists_of_reducedBlock hline
    obtain ⟨hlast, hbehind⟩ := Scanner.feed_behind_closed hplace
    -- the block ends in a bracket, so nothing stands behind its attribute
    have hreturn : cut.getLast? ≠ some '\r' := by
      intro hreturn
      rw [hreturn] at hlast
      cases hlast
    obtain rfl := htail (by simpa using hreturn)
    have hbalanced : (Scanner.forAttribute.feed first).2.isBalanced = true := by
      have hcloses := hclosed.closes
      rw [Scanner.after_append, Scanner.after_cons, Scanner.after_nil, hbehind,
        Scanner.countsAngles_after] at hcloses
      exact hcloses
    obtain ⟨hwrittenClosed, hwrittenPlace⟩ :=
      closedBlock_keyFlagsAttribute (fun _ => isBlank_of_mem_indent) hwritten hbalanced
    refine ⟨[], written, by simp, hwrittenClosed, hwrittenPlace⟩

/-- The indentation of the first line of a field does not matter to where it ends. -/
theorem Body.readField_of_trimStart_eq {first other : Line} {more : List Line}
    (htrim : trimStart other = trimStart first)
    (h : readField .forField (first :: more) = some ⟨first :: more, []⟩) :
    readField .forField (other :: more) = some ⟨other :: more, []⟩ := by
  obtain ⟨hcomma, hscanner⟩ := @Scanner.feed_of_trimStart_eq _ _ htrim .forField rfl
  have hcomplete : fieldComplete (Scanner.forField.feed other) more =
      fieldComplete (Scanner.forField.feed first) more := by
    rw [fieldComplete, fieldComplete, hcomma, hscanner]
  rw [readField] at h ⊢
  rw [hcomplete, hscanner]
  split
  · next hends =>
    rw [if_pos hends] at h
    simp only [Option.some.injEq, FieldRun.mk.injEq, List.cons.injEq] at h
    rw [h.2]
  · next hends =>
    rw [if_neg hends] at h
    obtain ⟨run, hrun, heq⟩ := Option.map_eq_some_iff.1 h
    simp only [FieldRun.cons, FieldRun.mk.injEq, List.cons.injEq, true_and] at heq
    rw [hrun, Option.map_some, FieldRun.cons, heq.1, heq.2]

namespace FieldUnit

theorem ReadsAlone.lines_ne_nil {unit : FieldUnit} (h : unit.ReadsAlone) :
    ∀ item ∈ unit.leading, item.lines ≠ [] := by
  cases h with
  | apart leading starts field => exact fun item hitem => (leading item hitem).lines_ne_nil
  | shared leading closed place starts field =>
    intro item hitem
    rcases List.mem_append.1 hitem with hitem | hitem
    · exact (leading item hitem).lines_ne_nil
    · rw [List.mem_singleton.1 hitem]
      simp [Leading.lines]

/-- **What is left of a unit that reads alone reads alone**: its leading items are what is left of
those of the unit, and its field is the same. -/
theorem exists_stripped {unit : FieldUnit} (h : unit.ReadsAlone) :
    ∃ stripped : FieldUnit, stripped.ReadsAlone ∧
      stripped.sourceLines = (unit.renderInto .stripBelongsTo []).1 ∧
      stripped.leading = unit.leading.filterMap Leading.stripped? ∧ unit.SameField stripped := by
  have hitems {items : List Leading} (hleading : ∀ item ∈ items, item.WellFormed) :
      ∀ left ∈ items.filterMap Leading.stripped?, left.WellFormed := by
    intro left hleft
    obtain ⟨item, hitem, hstripped⟩ := List.mem_filterMap.1 hleft
    exact (hleading item hitem).stripped? hstripped
  have hlines := h.lines_ne_nil
  cases h with
  | @apart items first more leading starts field =>
    rw [renderInto_strip_apart hlines]
    exact ⟨⟨items.filterMap Leading.stripped?, first :: more, false⟩,
      .apart (hitems leading) starts field, rfl, rfl, rfl⟩
  | @shared items opening cut first more leading closed place starts field =>
    have hfilter : (items ++ [Leading.block (opening ++ [cut])]).filterMap Leading.stripped? =
        items.filterMap Leading.stripped? ++
          (Leading.block (opening ++ [cut])).stripped?.toList := by
      rw [List.filterMap_append]
      cases hlast : (Leading.block (opening ++ [cut])).stripped? <;> simp [hlast]
    rw [renderInto_strip_shared hlines, hfilter]
    cases hlast : (Leading.block (opening ++ [cut])).stripped? with
    | some left =>
      obtain ⟨opening', cut', rfl, hclosed, hplace⟩ := closed.stripped? place hlast
      refine ⟨⟨items.filterMap Leading.stripped? ++ [.block (opening' ++ [cut'])], first :: more, true⟩,
        .shared (hitems leading) hclosed hplace starts field, rfl, rfl,
        first, first, more, rfl, rfl, rfl⟩
    | none =>
      -- nothing is left of the block, and the field begins a line of its own
      generalize hindentation : indentation _ = blanks
      have hblanks : ∀ c ∈ blanks, isBlank c = true := by
        rw [← hindentation]
        unfold indentation
        split
        · exact fun c => isBlank_of_mem_indent
        · exact List.forall_mem_nil _
      have htrim : trimStart (blanks ++ trimStart first) = trimStart first := by
        rw [trimStart_append_of_blank hblanks]
        exact List.dropWhile_idempotent isBlank first
      refine ⟨⟨items.filterMap Leading.stripped?, (blanks ++ trimStart first) :: more, false⟩,
        .apart (hitems leading) ?_ (Body.readField_of_trimStart_eq htrim field), ?_, ?_,
        first, blanks ++ trimStart first, more, rfl, rfl, htrim⟩
      · rw [LineKind.of_eq_of_trimStart_eq htrim, starts]
      · simp [sourceLines]
      · simp

/-! ## Reading it back -/

/-- Blank lines and comments have no directives. -/
theorem directives_withoutStray (unit : FieldUnit) : unit.withoutStray.directives = unit.directives := by
  obtain ⟨items, field, sharesLine⟩ := unit
  change (items.dropWhile _).filterMap Leading.directives? = items.filterMap Leading.directives?
  induction items with
  | nil => rfl
  | cons item items ih =>
    cases item with
    | block lines => rfl
    | line text =>
      rw [List.dropWhile_cons]
      split
      · exact ih
      · rfl

theorem ReadsAlone.kind_of_mem_strayLines {unit : FieldUnit} (h : unit.ReadsAlone) :
    ∀ line ∈ unit.strayLines, LineKind.of line = .blank ∨ LineKind.of line = .comment := by
  have hstray {items : List Leading} (hitems : ∀ item ∈ items, item.WellFormed) :
      ∀ line ∈ (items.takeWhile fun item => !item.startsUnit).flatMap Leading.lines,
        LineKind.of line = .blank ∨ LineKind.of line = .comment := by
    intro line hline
    obtain ⟨item, hitem, hline⟩ := List.mem_flatMap.1 hline
    have hstarts : item.startsUnit = false := by simpa using List.mem_takeWhile_imp hitem
    have hmem : item ∈ items := (List.takeWhile_sublist _).subset hitem
    obtain ⟨text, rfl, hkind⟩ := (hitems item hmem).stray hstarts
    rwa [List.mem_singleton.1 hline]
  cases h with
  | apart leading starts field => exact hstray leading
  | @shared items opening cut first more leading closed place starts field =>
    rw [FieldUnit.strayLines, (Leading.whileStray_concat_block items (opening ++ [cut])).1]
    exact hstray leading

theorem SameField.isRelationField_eq {unit other : FieldUnit} (h : unit.SameField other) :
    other.isRelationField = unit.isRelationField := by
  unfold SameField at h
  split at h
  · obtain ⟨first, first', more, hfield, hother, htrim⟩ := h
    simp only [isRelationField, declaredType, hfield, hother, List.head?_cons, Option.any_some,
      LineKind.of_eq_of_trimStart_eq htrim, fieldType_of_trimStart_eq htrim]
  · rw [isRelationField, isRelationField, declaredType, declaredType, h]

/-- What is written of the unit with its `belongs_to` blocks reduced is read as blank lines and comments,
each by itself, and one unit, which has the same field, is kept, and has the same key flags. -/
structure ReducesTo (unit : FieldUnit) (stray : List Line) (reduced : FieldUnit) : Prop where
  segments_eq : Body.segments (unit.renderInto .stripBelongsTo []).1 =
    stray.map (fun line => .verbatim [line]) ++ [.field reduced]
  stray_kind : ∀ line ∈ stray, LineKind.of line = .blank ∨ LineKind.of line = .comment
  sameField : unit.SameField reduced
  action_eq : reduced.action = .keep
  belongsTo_eq : ∀ directives ∈ reduced.directives, directives.belongsTo = false
  keyFlagPairs_eq : keyFlagPairs reduced.directives = keyFlagPairs unit.directives

/-- What is read decides what the unit is reduced to. -/
theorem ReducesTo.eq_of_segments_eq {unit reduced reduced' : FieldUnit} {stray stray' : List Line}
    (h : unit.ReducesTo stray reduced)
    (hread : Body.segments (unit.renderInto .stripBelongsTo []).1 =
      stray'.map (fun line => .verbatim [line]) ++ [.field reduced']) :
    stray = stray' ∧ reduced = reduced' := by
  obtain ⟨hstray, hfield⟩ := List.append_inj' (h.segments_eq.symm.trans hread) rfl
  refine ⟨List.map_injective_iff.2 ?_ hstray, by simpa using hfield⟩
  intro line line' hline
  simpa using hline

theorem not_isRelation_of_strip {unit : FieldUnit} (h : unit.action = .stripBelongsTo) :
    unit.isRelationField = false ∧
      ∀ directives ∈ unit.directives, directives.declaresRelation = false := by
  unfold action at h
  split at h
  · cases h
  · next hkept =>
    rw [Bool.not_eq_true, Bool.or_eq_false_iff] at hkept
    refine ⟨hkept.1, fun directives hmem => ?_⟩
    exact Bool.eq_false_iff.2 (List.any_eq_false.1 hkept.2 directives hmem)

theorem action_eq_keep {unit : FieldUnit} (hrelation : unit.isRelationField = false)
    (hdeclares : ∀ directives ∈ unit.directives, directives.declaresRelation = false)
    (hbelongs : ∀ directives ∈ unit.directives, directives.belongsTo = false) :
    unit.action = .keep := by
  have hnone {flag : Directives → Bool} (h : ∀ directives ∈ unit.directives, flag directives = false) :
      unit.directives.any flag = false :=
    List.any_eq_false.2 fun directives hmem => Bool.eq_false_iff.1 (h directives hmem)
  rw [action, hrelation, hnone hdeclares, hnone hbelongs]
  rfl

/-- **A unit that reads alone is reduced to one that is kept.** -/
theorem ReadsAlone.exists_reducesTo {unit : FieldUnit} (h : unit.ReadsAlone)
    (haction : unit.action = .stripBelongsTo) :
    ∃ stray reduced, unit.ReducesTo stray reduced := by
  obtain ⟨stripped, hstripped, hlines, hleading, hfield⟩ := exists_stripped h
  obtain ⟨hrelation, hdeclares⟩ := not_isRelation_of_strip haction
  have hdirectives : stripped.withoutStray.directives =
      (unit.leading.filterMap Leading.stripped?).filterMap Leading.directives? := by
    rw [directives_withoutStray, directives, hleading]
  have hsame : unit.SameField stripped.withoutStray := hfield
  have hbelongs : ∀ directives ∈ stripped.withoutStray.directives, directives.belongsTo = false := by
    intro directives hmem
    rw [hdirectives] at hmem
    exact (directives_filterMap_stripped? hmem).1
  have hplain : ∀ directives ∈ stripped.withoutStray.directives,
      directives.declaresRelation = false := by
    intro directives hmem
    rw [hdirectives] at hmem
    rcases (directives_filterMap_stripped? hmem).2 with hold | hnone
    · exact hdeclares directives hold
    · exact hnone
  have hkept : stripped.withoutStray.action = .keep :=
    action_eq_keep (hsame.isRelationField_eq.trans hrelation) hplain hbelongs
  refine ⟨stripped.strayLines, stripped.withoutStray, ?_, hstripped.kind_of_mem_strayLines, hsame,
    hkept, hbelongs, ?_⟩
  · rw [← hlines]
    exact Body.segments_sourceLines hstripped
  · rw [hdirectives]
    exact keyFlagPairs_filterMap_stripped? h.lines_ne_nil

end FieldUnit

namespace Body

/-- **Reducing is exact.** For every unit of a body whose `belongs_to` blocks are reduced, what is written
is read back as that unit without `belongs_to`. What replaces a block carries its key flags and nothing
else, at any indentation. -/
theorem reduction_exact :
    (∀ (lines : List Line) (unit : FieldUnit), .field unit ∈ segments lines →
      unit.action = .stripBelongsTo → ∃ stray reduced, unit.ReducesTo stray reduced) ∧
    ∀ (directives : Directives) (line : Line),
      (directives.keyFlagsAttribute (indent line)).map Directives.parse =
        if directives.hasKeyFlags then some (some directives.keyFlags) else none := by
  constructor
  · intro lines unit hmem haction
    exact (readsAlone_of_mem_segments hmem (by rw [haction]; decide)).exists_reducesTo haction
  · intro directives line
    have hsome := directives.isSome_keyFlagsAttribute (indent line)
    cases hwritten : directives.keyFlagsAttribute (indent line) with
    | none =>
      rw [hwritten] at hsome
      rw [← hsome]
      rfl
    | some written =>
      rw [hwritten] at hsome
      have hread := Directives.parse_keyFlagsAttribute (fun _ => isBlank_of_mem_indent)
        (Or.inl rfl) hwritten
      rw [List.append_nil] at hread
      rw [← hsome, Option.map_some, hread]
      rfl

/-- A block that goes, a comment below it, and a block that is reduced. -/
def cakeOwner : FieldUnit :=
  ⟨[.block ["    #[sea_orm(belongs_to)]".toList], .line "    // the cake".toList,
    .block ["    #[sea_orm(belongs_to, primary_key)]".toList]], ["    pub cake_id: i32,".toList], false⟩

/-- A field behind a block that goes. -/
def shopOwner : FieldUnit :=
  ⟨[.block ["    #[sea_orm(belongs_to)]".toList]], [" pub shop_id: i32,".toList], true⟩

theorem reduction_exact_twoOwners :
    segments (cakeOwner.sourceLines ++ shopOwner.sourceLines) = [.field cakeOwner, .field shopOwner] ∧
      cakeOwner.ReducesTo ["    // the cake".toList]
        ⟨[.block ["    #[sea_orm(primary_key)]".toList]], ["    pub cake_id: i32,".toList], false⟩ ∧
      shopOwner.ReducesTo [] ⟨[], ["    pub shop_id: i32,".toList], false⟩ := by
  have hsegments : segments (cakeOwner.sourceLines ++ shopOwner.sourceLines) =
      [.field cakeOwner, .field shopOwner] := by
    decide +kernel
  have hmem : .field cakeOwner ∈ segments (cakeOwner.sourceLines ++ shopOwner.sourceLines) ∧
      .field shopOwner ∈ segments (cakeOwner.sourceLines ++ shopOwner.sourceLines) := by
    simp [hsegments]
  have hcake : segments (cakeOwner.renderInto .stripBelongsTo []).1 =
      ["    // the cake".toList].map (fun line => .verbatim [line]) ++
        [.field ⟨[.block ["    #[sea_orm(primary_key)]".toList]], ["    pub cake_id: i32,".toList],
          false⟩] := by
    decide +kernel
  have hshop : segments (shopOwner.renderInto .stripBelongsTo []).1 =
      [].map (fun line => .verbatim [line]) ++
        [.field ⟨[], ["    pub shop_id: i32,".toList], false⟩] := by
    decide +kernel
  obtain ⟨stray, reduced, hreduced⟩ := reduction_exact.1 _ cakeOwner hmem.1 (by decide +kernel)
  obtain ⟨stray', reduced', hreduced'⟩ := reduction_exact.1 _ shopOwner hmem.2 (by decide +kernel)
  obtain ⟨rfl, rfl⟩ := hreduced.eq_of_segments_eq hcake
  obtain ⟨rfl, rfl⟩ := hreduced'.eq_of_segments_eq hshop
  exact ⟨hsegments, hreduced, hreduced'⟩

end Body

end ModelMend
