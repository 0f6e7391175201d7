import ModelMend.Proofs.Entity.LineLaw
import ModelMend.Proofs.Source.Change
import ModelMend.Proofs.Text.LineEnds

/-!
# Line ends of a mended text

A text without carriage returns gets none (`return_notMem_mend`). A text whose line feeds all follow
carriage returns keeps them with two exceptions (`mend_lineEnds_iff`). A body of which every segment
vanishes takes the return of the opening line along, and the line feed in front of the closing brace
is left bare. And a declaration goes by the text that the first two steps leave: where the only line
ends were those of markers, it has nothing to go by.
-/

namespace ModelMend

open Text

/-- The segment goes, with all its lines. -/
def Segment.vanishes : Segment → Bool
  | .field unit => unit.action = .drop
  | .orphan _ => true
  | .verbatim _ => false

/-! ## The body of a model -/

section

variable {Holds : Line → Prop} (hlaw : LineLaw Holds)

include hlaw

theorem BodyMend.write_forall {segment : Segment} {taken : List Line} {out : BodyMend}
    (h : segment.Covers taken) (htaken : ∀ line ∈ taken, Holds line)
    (hout : ∀ line ∈ out.lines, Holds line) : ∀ line ∈ (out.write segment).lines, Holds line := by
  cases segment with
  | orphan line => exact hout
  | verbatim lines => exact List.forall_mem_append.2 ⟨hout, h ▸ htaken⟩
  | field unit =>
    have hrender : ∀ line ∈ (unit.renderInto unit.action out.lines).1, Holds line :=
      FieldUnit.renderInto_forall hlaw h htaken hout
    unfold write
    dsimp only
    split <;> exact hrender

/-- **Mending a body keeps a law on lines.** -/
theorem mendBody_forall {body : List Line} (h : ∀ line ∈ body, Holds line) (stats : MendStats) :
    ∀ line ∈ (mendBody stats body).lines, Holds line := by
  have hsegments : ∀ segment ∈ Body.segments body,
      ∃ taken, segment.Covers taken ∧ ∀ line ∈ taken, Holds line := by
    intro segment hmem
    obtain ⟨taken, hcovers, hsubset⟩ := Body.exists_covers_of_mem_segments hmem
    exact ⟨taken, hcovers, fun line hline => h line (hsubset hline)⟩
  have hfold (segments : List Segment) (out : BodyMend) (hout : ∀ line ∈ out.lines, Holds line)
      (hall : ∀ segment ∈ segments, ∃ taken, segment.Covers taken ∧ ∀ line ∈ taken, Holds line) :
      ∀ line ∈ (segments.foldl BodyMend.write out).lines, Holds line := by
    induction segments generalizing out with
    | nil => exact hout
    | cons segment segments ih =>
      obtain ⟨⟨taken, hcovers, htaken⟩, hmore⟩ := List.forall_mem_cons.1 hall
      exact ih _ (BodyMend.write_forall hlaw hcovers htaken hout) hmore
  exact hfold _ ⟨[], stats, []⟩ (by simp) hsegments

end

/-- A segment leaves lines exactly if it does not vanish. -/
theorem BodyMend.write_lines_eq_nil_iff {segment : Segment} {taken : List Line}
    (h : segment.Covers taken) (hne : segment.restoreOnto [] ≠ []) (out : BodyMend) :
    (out.write segment).lines = [] ↔ out.lines = [] ∧ segment.vanishes = true := by
  cases segment with
  | orphan line => simp [write, Segment.vanishes]
  | verbatim lines =>
    have hlines : lines ≠ [] := by simpa [Segment.restoreOnto] using hne
    simp [write, Segment.vanishes, hlines]
  | field unit =>
    by_cases hdrop : unit.action = .drop
    · simp [write, Segment.vanishes, hdrop]
    · have hsome := FieldUnit.renderInto_ne_nil h hdrop out.lines
      simp [write, Segment.vanishes, hdrop, hsome]

/-- **A body comes out empty exactly if all of its segments vanish.** -/
theorem mendBody_lines_eq_nil_iff (stats : MendStats) (body : List Line) :
    (mendBody stats body).lines = [] ↔
      ∀ segment ∈ Body.segments body, segment.vanishes = true := by
  have hfold (segments : List Segment) (out : BodyMend)
      (hall : ∀ segment ∈ segments,
        (∃ taken, segment.Covers taken) ∧ segment.restoreOnto [] ≠ []) :
      (segments.foldl BodyMend.write out).lines = [] ↔
        out.lines = [] ∧ ∀ segment ∈ segments, segment.vanishes = true := by
    induction segments generalizing out with
    | nil => simp
    | cons segment segments ih =>
      obtain ⟨⟨⟨taken, hcovers⟩, hne⟩, hmore⟩ := List.forall_mem_cons.1 hall
      rw [List.foldl_cons, ih _ hmore, BodyMend.write_lines_eq_nil_iff hcovers hne,
        List.forall_mem_cons, and_assoc]
  have hall := hfold (Body.segments body) ⟨[], stats, []⟩ (by
    intro segment hmem
    obtain ⟨taken, hcovers, -⟩ := Body.exists_covers_of_mem_segments hmem
    exact ⟨⟨taken, hcovers⟩, Body.restoreOnto_ne_nil_of_mem_segments hmem⟩)
  simpa [mendBody] using hall

/-! ## Markers -/

theorem dropMarkers_returnsAfter {lines : List Line} {previous : Option Char}
    (hlines : ∀ line ∈ lines, '\n' ∉ line) (hprevious : previous ≠ some '\r')
    (h : ReturnsAfter previous (joinLines lines)) :
    ReturnsAfter previous (dropMarkers lines).1 := by
  induction lines generalizing previous with
  | nil => exact h
  | cons line lines ih =>
    obtain ⟨hline, hmore⟩ := List.forall_mem_cons.1 hlines
    cases lines with
    | nil =>
      unfold dropMarkers
      split
      · trivial
      · exact h
    | cons next lines =>
      rw [joinLines_cons line (by simp), returnsAfter_line hline] at h
      have hrest := ih hmore (by decide) h.2
      unfold dropMarkers
      dsimp only
      split
      · exact (returnsAfter_congr (by decide) hprevious _).1 hrest
      · exact (returnsAfter_line hline previous _).2 ⟨h.1, hrest⟩

/-- Taking the markers out keeps the line ends. -/
theorem removeMarkers_endsInReturns {text : List Char} (h : EndsInReturns text) :
    EndsInReturns (removeMarkers text).1 := by
  rw [endsInReturns_iff] at h ⊢
  refine dropMarkers_returnsAfter (fun line => newline_notMem_of_mem_splitLines) (by decide) ?_
  rwa [joinLines_splitLines]

/-! ## The model -/

namespace ModelParts

/-- The head ends in the opening brace, the body is made of lines, and the text of all the parts. -/
theorem find?_parts {text : List Char} {parts : ModelParts} (h : find? text = some parts) :
    parts.head.getLast? = some '\x7b' ∧ (∀ line ∈ parts.body, '\n' ∉ line) ∧
      parts.withBody parts.body = text := by
  refine ⟨?_, ?_, withBody_of_find? h⟩
  · unfold find? at h
    split at h
    · cases h
    · next found hfound =>
      split at h
      · cases h
      · split at h
        · cases h
        · obtain ⟨⟨body, tail⟩, -, rfl⟩ := Option.map_eq_some_iff.1 h
          obtain ⟨front, htext⟩ := modelHead_endsAt.find?_eq hfound
          have htake : text.take (text.length - found.after.length) = front ++ ['\x7b'] := by
            rw [htext, List.append_cons, List.length_append, Nat.add_sub_cancel, List.take_left]
          dsimp only
          rw [htake, List.getLast?_concat]
  · unfold find? at h
    split at h
    · cases h
    · next found hfound =>
      split at h
      · cases h
      · next opening lines hlines =>
        split at h
        · cases h
        · obtain ⟨⟨body, tail⟩, hsplit, rfl⟩ := Option.map_eq_some_iff.1 h
          obtain ⟨rfl, -⟩ := splitAtClosing_append hsplit
          intro line hline
          have hmem : line ∈ splitLines found.after := by
            rw [hlines]
            rcases List.mem_cons.1 hline with rfl | hline
            · exact List.mem_cons_self
            · exact List.mem_cons_of_mem _ (List.mem_append_left tail hline)
          exact newline_notMem_of_mem_splitLines hmem

/-- A text around a body ends its lines in returns exactly if the body has lines, these do, and so
does what stands around them. -/
theorem endsInReturns_withBody {parts : ModelParts} (hhead : parts.head.getLast? = some '\x7b')
    {body : List Line} (hbody : ∀ line ∈ body, '\n' ∉ line) :
    EndsInReturns (parts.withBody body) ↔
      ReturnsAfter none parts.head ∧ body ≠ [] ∧ (∀ line ∈ body, line.getLast? = some '\r') ∧
        ReturnsAfter (some '\n') (joinLines parts.tail) := by
  rw [endsInReturns_iff, withBody, List.append_assoc, returnsAfter_append, hhead, Option.some_or,
    returnsAfter_joinLines hbody (by decide)]

end ModelParts

/-- **Mending a model keeps the line ends exactly if some segment of its body does not vanish.** -/
theorem mendModel_endsInReturns_iff {text : List Char} (h : EndsInReturns text)
    (stats : MendStats) :
    EndsInReturns (mendModel text stats).1 ↔ ∀ parts, ModelParts.find? text = some parts →
      ∃ segment ∈ Body.segments parts.body, segment.vanishes = false := by
  unfold mendModel
  split
  · next hnone => simp [h, hnone]
  · next parts hparts =>
    obtain ⟨hhead, hlines, htext⟩ := ModelParts.find?_parts hparts
    have hmended := mendBody_forall (lineLaw_free (by decide)) hlines stats
    rw [← htext, ModelParts.endsInReturns_withBody hhead hlines] at h
    obtain ⟨haround, hbody, hreturns, hbehind⟩ := h
    have hends := mendBody_forall lineLaw_endsInReturn
      (fun line hline => ⟨hlines line hline, hreturns line hline⟩) stats
    have hsome : (mendBody stats parts.body).lines ≠ [] ↔
        ∃ segment ∈ Body.segments parts.body, segment.vanishes = false := by
      rw [Ne, mendBody_lines_eq_nil_iff]
      simp
    dsimp only
    rw [ModelParts.endsInReturns_withBody hhead hmended, hsome]
    constructor
    · rintro ⟨-, hsegment, -⟩ other hother
      rw [hparts] at hother
      cases hother
      exact hsegment
    · intro hsegment
      exact ⟨haround, hsegment parts hparts, fun line hline => (hends line hline).2, hbehind⟩

/-- Mending a model leaves a line feed if there was one. -/
theorem newline_mem_mendModel_iff (text : List Char) (stats : MendStats) :
    '\n' ∈ (mendModel text stats).1 ↔ '\n' ∈ text := by
  unfold mendModel
  split
  · exact Iff.rfl
  · next parts hparts =>
    have htext := ModelParts.withBody_of_find? hparts
    have hmem (body : List Line) : '\n' ∈ parts.withBody body :=
      List.mem_append_right _ List.mem_cons_self
    exact iff_of_true (hmem _) (htext ▸ hmem _)

/-! ## The relation declaration -/

theorem usesReturns_iff {text : List Char} (h : EndsInReturns text) :
    usesReturns text = true ↔ '\n' ∈ text := by
  have hbehind (previous : Option Char) (text : List Char) (h : ReturnsAfter previous text)
      (hhead : text.head? ≠ some '\n') : usesReturns text = true ↔ '\n' ∈ text := by
    induction text generalizing previous with
    | nil => simp [usesReturns]
    | cons c rest ih =>
      have hc : c ≠ '\n' := fun heq => hhead (congrArg some heq)
      rw [usesReturns, Bool.or_eq_true, Bool.and_eq_true, beq_iff_eq, beq_iff_eq, List.mem_cons]
      by_cases hnext : rest.head? = some '\n'
      · obtain ⟨more, rfl⟩ := List.head?_eq_some_iff.1 hnext
        have hreturn : c = '\r' := Option.some.inj (h.2.1 rfl)
        simp [hreturn]
      · rw [ih (some c) h.2 hnext]
        simp [hnext, Ne.symm hc]
  refine hbehind none text ((endsInReturns_iff text).1 h) ?_
  intro hhead
  obtain ⟨rest, rfl⟩ := List.head?_eq_some_iff.1 hhead
  exact absurd (h [] rest rfl) (by simp)

theorem returnsAfter_withReturns (previous : Option Char) (text : List Char) :
    ReturnsAfter previous (withReturns text) := by
  induction text generalizing previous with
  | nil => trivial
  | cons c text ih =>
    rw [withReturns_cons, returnsAfter_append]
    refine ⟨?_, ih _⟩
    by_cases hc : c = '\n'
    · rw [if_pos hc]
      exact ⟨fun heq => absurd heq (by decide), fun _ => rfl, trivial⟩
    · rw [if_neg hc]
      exact ⟨fun heq => absurd heq hc, trivial⟩

/-- Without returns the declaration has line feeds with none in front. -/
theorem not_returnsAfter_declaration (previous : Option Char) (gap : List Char) :
    ¬ReturnsAfter previous (gap ++ emptyRelation) := by
  have hhead : emptyRelation.head? ≠ some '\n' := by decide
  rw [returnsAfter_append, returnsAfter_of_head?_ne hhead _ none]
  rintro ⟨-, hdeclaration⟩
  revert hdeclaration
  decide

/-- **Inserting a declaration keeps the line ends exactly if there are any to go by.** -/
theorem ensureRelation_endsInReturns_iff (text : List Char) :
    EndsInReturns (ensureRelation text).1 ↔
      EndsInReturns text ∧ ((ensureRelation text).2 = true → '\n' ∈ text) := by
  unfold ensureRelation
  split
  · simp
  · split
    · simp
    · next found hfound =>
      have htext := Wording.find?_append hfound
      have honward : found.onward.head? ≠ some '\n' := by
        obtain ⟨rest, hrest⟩ := Wording.find?_chars_prefix hfound
        rw [← hrest]
        simp
      have hparts : EndsInReturns text ↔
          ReturnsAfter none found.before ∧ ReturnsAfter none found.onward := by
        rw [endsInReturns_iff, ← htext, returnsAfter_append,
          returnsAfter_of_head?_ne honward _ none]
      have hwhole (declaration : List Char) :
          EndsInReturns (found.before ++ declaration ++ found.onward) ↔
            EndsInReturns text ∧ ReturnsAfter found.before.getLast? declaration := by
        rw [hparts, endsInReturns_iff, returnsAfter_append, returnsAfter_append, Option.or_none,
          returnsAfter_of_head?_ne honward _ none, and_right_comm]
      dsimp only
      rw [hwhole]
      refine and_congr_right fun h => ?_
      by_cases hreturns : usesReturns text = true
      · rw [if_pos hreturns]
        exact iff_of_true (returnsAfter_withReturns _ _) fun _ => (usesReturns_iff h).1 hreturns
      · rw [if_neg hreturns]
        refine iff_of_false (not_returnsAfter_declaration _ _) fun hmem => ?_
        exact hreturns ((usesReturns_iff h).2 (hmem rfl))

/-! ## The three steps together -/

/-- Mending keeps the line ends exactly if some segment of the body does not vanish, where there is a
model, and some line end is left where a declaration is inserted. -/
theorem mend_endsInReturns_iff {source : List Char} (h : EndsInReturns source) :
    EndsInReturns (mend source).text ↔
      (∀ parts, ModelParts.find? (removeMarkers source).1 = some parts →
        ∃ segment ∈ Body.segments parts.body, segment.vanishes = false) ∧
      ((mend source).stats.relationInserted = true → '\n' ∈ (removeMarkers source).1) := by
  rw [mend_text, mend_relationInserted, ensureRelation_endsInReturns_iff, modeled,
    mendModel_endsInReturns_iff (removeMarkers_endsInReturns h), newline_mem_mendModel_iff]

theorem dropMarkers_sublist (lines : List Line) : (dropMarkers lines).1.Sublist (joinLines lines) := by
  induction lines with
  | nil => exact List.Sublist.refl _
  | cons line lines ih =>
    cases lines with
    | nil =>
      unfold dropMarkers
      split
      · exact List.nil_sublist _
      · exact List.Sublist.refl _
    | cons next lines =>
      rw [joinLines_cons line (by simp)]
      unfold dropMarkers
      dsimp only
      split
      · exact (ih.cons '\n').trans (List.sublist_append_right line _)
      · exact (ih.cons_cons '\n').append_left line

theorem mem_joinLines {c : Char} (hc : c ≠ '\n') (lines : List Line) :
    c ∈ joinLines lines ↔ ∃ line ∈ lines, c ∈ line := by
  induction lines with
  | nil => simp [joinLines]
  | cons line lines ih =>
    by_cases hnil : lines = []
    · simp [hnil, joinLines]
    · rw [joinLines_cons line hnil, List.mem_append, List.mem_cons, ih]
      simp [hc]

/-- Mending a model brings in no character but those of the key flags. -/
theorem notMem_mendModel {c : Char} (hkey : c ∉ keyFlagsText) {text : List Char} (h : c ∉ text)
    (stats : MendStats) : c ∉ (mendModel text stats).1 := by
  unfold mendModel
  split
  · exact h
  · next parts hparts =>
    rw [← ModelParts.withBody_of_find? hparts] at h
    simp only [ModelParts.withBody, List.mem_append, List.mem_cons, not_or] at h ⊢
    obtain ⟨⟨hhead, hbody⟩, hfeed, htail⟩ := h
    refine ⟨⟨hhead, ?_⟩, hfeed, htail⟩
    rw [mem_joinLines hfeed] at hbody ⊢
    rintro ⟨line, hline, hmem⟩
    exact mendBody_forall (lineLaw_free hkey)
      (fun other hother hc => hbody ⟨other, hother, hc⟩) stats line hline hmem

theorem return_mem_of_usesReturns {text : List Char} (h : usesReturns text = true) :
    '\r' ∈ text := by
  induction text with
  | nil => cases h
  | cons c rest ih =>
    rw [usesReturns, Bool.or_eq_true, Bool.and_eq_true, beq_iff_eq] at h
    rcases h with ⟨rfl, -⟩ | hrest
    · exact List.mem_cons_self
    · exact List.mem_cons_of_mem c (ih hrest)

theorem return_notMem_ensureRelation {text : List Char} (h : '\r' ∉ text) :
    '\r' ∉ (ensureRelation text).1 := by
  unfold ensureRelation
  split
  · exact h
  · split
    · exact h
    · next found hfound =>
      have hreturns : usesReturns text = false := by
        rw [← Bool.not_eq_true]
        exact fun huses => h (return_mem_of_usesReturns huses)
      have hgap : '\r' ∉ gapAfter found.before := by
        unfold gapAfter
        split
        · simp
        · split <;> decide
      have hdeclaration : '\r' ∉ emptyRelation := by decide
      rw [← Wording.find?_append hfound, List.mem_append, not_or] at h
      dsimp only
      rw [if_neg (by rw [hreturns]; decide)]
      simp only [List.mem_append, not_or]
      exact ⟨⟨h.1, hgap, hdeclaration⟩, h.2⟩

/-- A text without carriage returns comes out without any. -/
theorem return_notMem_mend {source : List Char} (h : '\r' ∉ source) : '\r' ∉ (mend source).text := by
  have hmarkers : '\r' ∉ (removeMarkers source).1 := by
    have hsublist := dropMarkers_sublist (splitLines source)
    rw [joinLines_splitLines] at hsublist
    exact fun hmem => h (hsublist.subset hmem)
  exact return_notMem_ensureRelation (notMem_mendModel (by decide) hmarkers _)

/-- **When mending keeps the line ends of a text.** Where every line feed follows a carriage return,
this stays so exactly if some segment of the model's body does not vanish and some line end is left
for a declaration to go by. Where there are no carriage returns, there are none afterwards. -/
theorem mend_lineEnds_iff (source : List Char) :
    (EndsInReturns source →
      (EndsInReturns (mend source).text ↔
        (∀ parts, ModelParts.find? (removeMarkers source).1 = some parts →
          ∃ segment ∈ Body.segments parts.body, segment.vanishes = false) ∧
        ((mend source).stats.relationInserted = true → '\n' ∈ (removeMarkers source).1))) ∧
      ('\r' ∉ source → '\r' ∉ (mend source).text) :=
  ⟨mend_endsInReturns_iff, return_notMem_mend⟩

/-- A marker, a block that is reduced in front of a field on its line, and no relation, all with
carriage returns. -/
def returnedCake : List Char :=
  ("#[sea_orm::model]\r\npub struct Model \x7b\r\n    #[sea_orm(belongs_to, primary_key)] " ++
    "pub id: i32,\r\n\x7d\r\nimpl ActiveModelBehavior for ActiveModel \x7b\x7d\r\n").toList

/-- All three steps change the text, and its line ends stay as they are, with the returns and without
them. -/
theorem mend_lineEnds_returnedCake :
    (mend returnedCake).stats =
        { markersRemoved := 1, blocksReduced := 1, relationInserted := true } ∧
      EndsInReturns returnedCake ∧ EndsInReturns (mend returnedCake).text ∧
      '\r' ∉ returnedCake.filter (· ≠ '\r') ∧ '\r' ∉ (mend (returnedCake.filter (· ≠ '\r'))).text := by
  obtain ⟨hstats, hsource, hfree, hfeed, hmodel⟩ :
      (mend returnedCake).stats =
          { markersRemoved := 1, blocksReduced := 1, relationInserted := true } ∧
        EndsInReturns returnedCake ∧ '\r' ∉ returnedCake.filter (· ≠ '\r') ∧
        '\n' ∈ (removeMarkers returnedCake).1 ∧
        (ModelParts.find? (removeMarkers returnedCake).1).all (fun parts =>
          (Body.segments parts.body).any fun segment => !segment.vanishes) = true := by
    decide +kernel
  refine ⟨hstats, hsource, ?_, hfree, (mend_lineEnds_iff _).2 hfree⟩
  refine ((mend_lineEnds_iff returnedCake).1 hsource).2 ⟨?_, fun _ => hfeed⟩
  intro parts hparts
  rw [hparts] at hmodel
  simpa using hmodel

/-- The only line of a body, on the opening line of its model. -/
def openingCake : List Char :=
  "pub struct Model \x7b pub cakes: HasMany<Cake>,\r\n\x7d\r\n".toList

/-- The body comes out empty, and the carriage return on the opening line goes with it. -/
theorem mend_loses_return :
    EndsInReturns openingCake ∧ (mend openingCake).text = "pub struct Model \x7b\n\x7d\r\n".toList ∧
      ¬EndsInReturns (mend openingCake).text := by
  have htext : (mend openingCake).text = "pub struct Model \x7b\n\x7d\r\n".toList := by
    decide +kernel
  refine ⟨by decide +kernel, htext, ?_⟩
  rw [htext]
  decide +kernel

end ModelMend
