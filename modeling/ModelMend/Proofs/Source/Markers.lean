import ModelMend.Proofs.Source.Insertion
import ModelMend.Proofs.Source.SameBody

/-!
# Marker lines and what becomes of them

The removal counts the marker lines of a source text and leaves none (`removeMarkers_count`,
`markerFree_removeMarkers`). Mending the model brings none back: every line it writes behind the
opening line is old, or holds characters that no marker holds (`markerFree_mendModel`). The relation
declaration does so in one case, when what stood in front of the implementation on its line was a marker
but for the implementation (`mend_markers`).
-/

namespace ModelMend

open Text

/-! ## Marker lines -/

/-- A marker, with spaces and tabs around it. -/
theorem isMarker_iff (line : Line) :
    isMarker line = true ↔ ∃ lead trail, (∀ c ∈ lead, c = ' ' ∨ c = '\t') ∧
      (∀ c ∈ trail, c = ' ' ∨ c = '\t') ∧ line = lead ++ markerText ++ trail := by
  have hblank (c : Char) : isSpaceOrTab c = true ↔ c = ' ' ∨ c = '\t' := by
    simp [isSpaceOrTab]
  simp only [← hblank, isMarker, Bool.and_eq_true, List.isPrefixOf_iff_prefix, List.all_eq_true]
  constructor
  · rintro ⟨⟨trail, htrail⟩, hall⟩
    refine ⟨line.takeWhile isSpaceOrTab, trail, fun c => List.mem_takeWhile_imp, ?_, ?_⟩
    · rwa [← htrail, List.drop_left] at hall
    · rw [List.append_assoc, htrail, List.takeWhile_append_dropWhile]
  · rintro ⟨lead, trail, hlead, htrail, rfl⟩
    have hdrop : (lead ++ markerText ++ trail).dropWhile isSpaceOrTab = markerText ++ trail := by
      rw [List.append_assoc, List.dropWhile_append_of_pos hlead]
      rfl
    rw [hdrop, List.drop_left]
    exact ⟨List.prefix_append markerText trail, htrail⟩

/-- A line with any other character is no marker. -/
theorem not_isMarker_of_mem {line : Line} {c : Char} (hmem : c ∈ line)
    (hc : c ∉ ' ' :: '\t' :: markerText) : isMarker line = false := by
  rw [Bool.eq_false_iff]
  intro hmarker
  obtain ⟨lead, trail, hlead, htrail, rfl⟩ := (isMarker_iff _).1 hmarker
  simp only [List.mem_cons, not_or] at hc
  obtain ⟨hspace, htab, htext⟩ := hc
  rcases List.mem_append.1 hmem with hmem | hmem
  · rcases List.mem_append.1 hmem with hmem | hmem
    · exact (hlead c hmem).elim hspace htab
    · exact htext hmem
  · exact (htrail c hmem).elim hspace htab

theorem mem_withoutReturn {line : Line} {c : Char} (hmem : c ∈ line) (hc : c ≠ '\r') :
    c ∈ withoutReturn line := by
  unfold withoutReturn
  split
  · next hlast =>
    obtain ⟨front, rfl⟩ := List.getLast?_eq_some_iff.1 hlast
    rw [List.dropLast_concat]
    exact (List.mem_append.1 hmem).resolve_right fun heq => hc (List.mem_singleton.1 heq)
  · exact hmem

/-- Lines as the markers are looked for in them: a carriage return is part of the line end, except on
the last line. -/
def lineContents : List Line → List Line
  | [] => []
  | [last] => [last]
  | line :: next :: lines => withoutReturn line :: lineContents (next :: lines)

/-- The number of marker lines in a text. -/
def markerCount (text : List Char) : Nat :=
  (lineContents (splitLines text)).countP isMarker

theorem lineContents_cons (line : Line) {lines : List Line} (h : lines ≠ []) :
    lineContents (line :: lines) = withoutReturn line :: lineContents lines := by
  cases lines with
  | nil => exact absurd rfl h
  | cons next lines => rfl

theorem lineContents_append (front : List Line) {back : List Line} (h : back ≠ []) :
    lineContents (front ++ back) = front.map withoutReturn ++ lineContents back := by
  induction front with
  | nil => rfl
  | cons line front ih =>
    rw [List.cons_append, lineContents_cons line (by simp [h]), ih, List.map_cons,
      List.cons_append]

/-- **The removal counts the marker lines.** -/
theorem removeMarkers_count (text : List Char) : (removeMarkers text).2 = markerCount text := by
  have hlines (lines : List Line) :
      (dropMarkers lines).2 = (lineContents lines).countP isMarker := by
    induction lines with
    | nil => rfl
    | cons line lines ih =>
      cases lines with
      | nil =>
        unfold dropMarkers
        cases hmarker : isMarker line <;> simp [lineContents, hmarker]
      | cons next lines =>
        unfold dropMarkers
        rw [lineContents_cons line (by simp), List.countP_cons, ← ih]
        dsimp only
        split <;> rfl
  exact hlines (splitLines text)

theorem markerFree_iff (text : List Char) :
    MarkerFree text ↔ ∀ content ∈ lineContents (splitLines text), isMarker content = false := by
  rw [← removeMarkers_count_eq_zero_iff, removeMarkers_count, markerCount, List.countP_eq_zero]
  simp

/-! ## Texts put together -/

/-- The lines hold no marker, where a line feed follows each of them. -/
def Unmarked (lines : List Line) : Prop :=
  ∀ line ∈ lines, isMarker (withoutReturn line) = false

/-- Of what stands on either side of a line feed. -/
theorem markerFree_newline (front back : List Char) :
    MarkerFree (front ++ '\n' :: back) ↔ Unmarked (splitLines front) ∧ MarkerFree back := by
  rw [markerFree_iff, splitLines_newline, lineContents_append _ (splitLines_ne_nil back),
    List.forall_mem_append, List.forall_mem_map, markerFree_iff]
  exact Iff.rfl

theorem markerFree_line {line : Line} (h : '\n' ∉ line) (back : List Char) :
    MarkerFree (line ++ '\n' :: back) ↔
      isMarker (withoutReturn line) = false ∧ MarkerFree back := by
  rw [markerFree_newline, splitLines_of_notMem h, Unmarked, List.forall_mem_singleton]

theorem markerFree_of_notMem {line : Line} (h : '\n' ∉ line) :
    MarkerFree line ↔ isMarker line = false := by
  rw [markerFree_iff, splitLines_of_notMem h]
  simp [lineContents]

/-- Of two texts one behind the other, where the second goes on with the last line of the first. -/
theorem markerFree_append (front back : List Char) :
    MarkerFree (front ++ back) ↔
      Unmarked (splitLines front).dropLast ∧ MarkerFree (lastLine front ++ back) := by
  have hline := newline_notMem_lastLine front
  have heq := eq_lastLine front
  generalize lastLine front = last at hline heq ⊢
  rcases heq with rfl | ⟨opening, rfl⟩
  · simp [splitLines_of_notMem hline, Unmarked]
  · rw [List.append_assoc, List.cons_append, markerFree_newline, splitLines_newline,
      splitLines_of_notMem hline, List.dropLast_concat]

/-! ## Removal -/

/-- **The removal leaves no marker.** -/
theorem markerFree_removeMarkers (text : List Char) : MarkerFree (removeMarkers text).1 := by
  have hempty : MarkerFree [] := (markerFree_of_notMem (by simp)).2 rfl
  have hlines (lines : List Line) (h : ∀ line ∈ lines, '\n' ∉ line) :
      MarkerFree (dropMarkers lines).1 := by
    induction lines with
    | nil => exact hempty
    | cons line lines ih =>
      obtain ⟨hline, hmore⟩ := List.forall_mem_cons.1 h
      cases lines with
      | nil =>
        unfold dropMarkers
        split
        · exact hempty
        · next hmarker => exact (markerFree_of_notMem hline).2 (by simpa using hmarker)
      | cons next lines =>
        unfold dropMarkers
        dsimp only
        split
        · exact ih hmore
        · next hmarker => exact (markerFree_line hline _).2 ⟨by simpa using hmarker, ih hmore⟩
  exact hlines (splitLines text) fun line => newline_notMem_of_mem_splitLines

/-! ## The model -/

/-- Mending a body brings no marker into a line behind the first. -/
theorem unmarked_tail_mendBody {body : List Line} (h : Unmarked body.tail) (stats : MendStats) :
    Unmarked (mendBody stats body).lines.tail := by
  intro line hline
  refine (mendBody_lineByLine stats body).forall_mem_tail ?_ ?_ h line hline
  · intro line hkeyFlags
    have hmem : '(' ∈ line := hkeyFlags.subset (by decide)
    exact not_isMarker_of_mem (mem_withoutReturn hmem (by decide)) (by decide)
  · intro line hkind
    have hmem : 'p' ∈ line := (trimStart_suffix line).subset (letter_mem_of_field hkind)
    exact not_isMarker_of_mem (mem_withoutReturn hmem (by decide)) (by decide)

/-- Behind a head that ends in a brace, the first line of a body makes no difference. -/
theorem ModelParts.markerFree_withBody {parts : ModelParts} (hhead : parts.head.getLast? = some '\x7b')
    {body : List Line} (hbody : ∀ line ∈ body, '\n' ∉ line) :
    MarkerFree (parts.withBody body) ↔ Unmarked (splitLines parts.head).dropLast ∧
      Unmarked body.tail ∧ MarkerFree (joinLines parts.tail) := by
  have hbrace := mem_lastLine hhead (by decide)
  have hline := newline_notMem_lastLine parts.head
  rw [withBody, List.append_assoc, markerFree_append]
  generalize lastLine parts.head = last at hbrace hline
  refine and_congr_right fun _ => ?_
  have hopening (first : Line) : isMarker (withoutReturn (last ++ first)) = false :=
    not_isMarker_of_mem (mem_withoutReturn (List.mem_append_left first hbrace) (by decide))
      (by decide)
  cases body with
  | nil =>
    have hlast := hopening []
    rw [List.append_nil] at hlast
    rw [joinLines, List.nil_append, markerFree_line hline]
    simp [Unmarked, hlast]
  | cons first more =>
    obtain ⟨hfirst, hmore⟩ := List.forall_mem_cons.1 hbody
    have hshared : '\n' ∉ last ++ first := by simp [hline, hfirst]
    have hjoin : last ++ joinLines (first :: more) = joinLines ((last ++ first) :: more) := by
      cases more with
      | nil => rfl
      | cons next lines => simp [joinLines]
    rw [← List.append_assoc, hjoin, markerFree_newline,
      splitLines_joinLines (List.cons_ne_nil _ _) (List.forall_mem_cons.2 ⟨hshared, hmore⟩), Unmarked,
      List.forall_mem_cons]
    simp [Unmarked, hopening]

/-- **Mending a model brings no marker into being.** -/
theorem markerFree_mendModel {text : List Char} (h : MarkerFree text) (stats : MendStats) :
    MarkerFree (mendModel text stats).1 := by
  unfold mendModel
  split
  · exact h
  · next parts hparts =>
    obtain ⟨hhead, hlines, htext⟩ := ModelParts.find?_parts hparts
    have hmended := mendBody_forall (lineLaw_free (by decide)) hlines stats
    rw [← htext, ModelParts.markerFree_withBody hhead hlines] at h
    obtain ⟨haround, hbody, hbehind⟩ := h
    exact (ModelParts.markerFree_withBody hhead hmended).2
      ⟨haround, unmarked_tail_mendBody hbody stats, hbehind⟩

/-! ## The relation declaration -/

/-- What a line end that is inserted behind a text leaves on its last line, without the carriage return
of that line end. -/
def cutOff (ending before : List Char) : Line :=
  withoutReturn (lastLine before ++ ending.dropLast)

theorem lineEnding_cases (text : List Char) :
    lineEnding text = "\n".toList ∨ lineEnding text = "\r\n".toList := by
  unfold lineEnding
  split
  · exact Or.inr rfl
  · exact Or.inl rfl

/-- A declaration holds no marker. -/
theorem markerFree_relationLines {ending : List Char}
    (hending : ending = "\n".toList ∨ ending = "\r\n".toList) (onward : List Char) :
    MarkerFree (relationLines ending ++ onward) ↔ MarkerFree onward := by
  rcases hending with rfl | rfl
  · have hlines : relationLines "\n".toList ++ onward =
        "#[derive(Copy, Clone, Debug, EnumIter, DeriveRelation)]".toList ++
          '\n' :: ("pub enum Relation \x7b\x7d".toList ++ '\n' :: ([] ++ '\n' :: onward)) := by
      rfl
    rw [hlines, markerFree_line (by decide), markerFree_line (by decide),
      markerFree_line (by decide)]
    simp +decide
  · have hlines : relationLines "\r\n".toList ++ onward =
        "#[derive(Copy, Clone, Debug, EnumIter, DeriveRelation)]\r".toList ++
          '\n' :: ("pub enum Relation \x7b\x7d\r".toList ++ '\n' :: (['\r'] ++ '\n' :: onward)) := by
      rfl
    rw [hlines, markerFree_line (by decide), markerFree_line (by decide),
      markerFree_line (by decide)]
    simp +decide

/-- A line end that is inserted in front of a text without markers leaves one in front of it only if the
rest of the line there is one. -/
theorem markerFree_gap {ending last text : List Char} {count : Nat} (hcount : count ≤ 2)
    (hending : ending = "\n".toList ∨ ending = "\r\n".toList) (hlast : '\n' ∉ last)
    (hnone : count = 0 → last = []) (htext : MarkerFree text) :
    MarkerFree (last ++ ((List.replicate count ending).flatten ++ text)) ↔
      isMarker (withoutReturn (last ++ ending.dropLast)) = false := by
  obtain ⟨returns, hnewline, rfl, hblank⟩ : ∃ returns : Line, '\n' ∉ returns ∧
      ending = returns ++ ['\n'] ∧ isMarker (withoutReturn returns) = false := by
    rcases hending with rfl | rfl
    · exact ⟨[], by decide, rfl, rfl⟩
    · exact ⟨['\r'], by decide, rfl, rfl⟩
  have hline : '\n' ∉ last ++ returns := by simp [hlast, hnewline]
  have hfirst (back : List Char) : last ++ (returns ++ ['\n'] ++ back) =
      (last ++ returns) ++ '\n' :: back := by simp
  rw [List.dropLast_concat]
  match count, hcount with
  | 0, _ =>
    rw [hnone rfl]
    simp [htext, hblank]
  | 1, _ =>
    simp only [List.replicate_one, List.flatten_singleton]
    rw [hfirst, markerFree_line hline, and_iff_left htext]
  | 2, _ =>
    have hsecond : MarkerFree (returns ++ '\n' :: text) :=
      (markerFree_line hnewline text).2 ⟨hblank, htext⟩
    have htwo : (List.replicate 2 (returns ++ ['\n'])).flatten ++ text =
        returns ++ ['\n'] ++ (returns ++ '\n' :: text) := by
      simp [List.replicate_succ]
    rw [htwo, hfirst, markerFree_line hline, and_iff_left hsecond]

/-- What an implementation of the behaviour starts with is no marker, and neither is what stands behind
its line. -/
theorem markerFree_onward {last onward : List Char} (hlast : '\n' ∉ last)
    (himpl : "impl".toList <+: onward) (h : MarkerFree (last ++ onward)) : MarkerFree onward := by
  obtain ⟨more, rfl⟩ := himpl
  have hmem (rest : List Char) : 'i' ∈ "impl".toList ++ rest :=
    List.mem_append_left rest (by decide)
  by_cases hnewline : '\n' ∈ more
  · obtain ⟨rest, text, rfl, hrest⟩ := List.eq_append_cons_of_mem hnewline
    have hfirst : '\n' ∉ "impl".toList ++ rest := by
      intro h
      exact hrest ((List.mem_append.1 h).resolve_left (by decide))
    have hshared : '\n' ∉ last ++ ("impl".toList ++ rest) := by
      intro h
      exact hfirst ((List.mem_append.1 h).resolve_left hlast)
    have hsplit : last ++ ("impl".toList ++ (rest ++ '\n' :: text)) =
        last ++ ("impl".toList ++ rest) ++ '\n' :: text := by
      simp only [List.append_assoc]
    rw [hsplit, markerFree_line hshared] at h
    rw [← List.append_assoc, markerFree_line hfirst]
    exact ⟨not_isMarker_of_mem (mem_withoutReturn (hmem rest) (by decide)) (by decide), h.2⟩
  · have hfirst : '\n' ∉ "impl".toList ++ more := by
      intro h
      exact hnewline ((List.mem_append.1 h).resolve_left (by decide))
    rw [markerFree_of_notMem hfirst]
    exact not_isMarker_of_mem (hmem more) (by decide)

/-- The last line of a text that is empty or ends in a blank line holds nothing. -/
theorem lastLine_eq_nil {before : List Char} (h : before = [] ∨ EndsInBlankLine before) :
    lastLine before = [] := by
  rcases h with rfl | ⟨front, rfl | rfl⟩
  · rfl
  · have hsplit : front ++ "\n\n".toList = front ++ ['\n'] ++ '\n' :: [] := by simp
    rw [hsplit, lastLine_newline]
    rfl
  · have hsplit : front ++ "\n\r\n".toList = front ++ ['\n', '\r'] ++ '\n' :: [] := by simp
    rw [hsplit, lastLine_newline]
    rfl

/-- **A relation declaration brings a marker into being exactly if the text in front of the
implementation ends in one.** -/
theorem markerFree_ensureRelation {text : List Char} (h : MarkerFree text) :
    MarkerFree (ensureRelation text).1 ↔
      ((ensureRelation text).2 = true → ∀ before onward, before ++ onward = text →
        behaviorHead.FitsFirst before onward →
          isMarker (cutOff (lineEnding text) before) = false) := by
  cases hinserted : (ensureRelation text).2 with
  | false =>
    rw [ensureRelation_of_not_inserted hinserted]
    simp [h]
  | true =>
    obtain ⟨hnone, hbehavior⟩ := (ensureRelation_inserted_iff text).1 hinserted
    obtain ⟨found, hfound⟩ := Option.isSome_iff_exists.1 hbehavior
    obtain ⟨count, hcount, hresult, hblank⟩ := ensureRelation_of_found hnone hfound
    have himpl : "impl".toList <+: found.onward := Wording.find?_chars_prefix hfound
    have htext := Wording.find?_append hfound
    rw [← htext, markerFree_append] at h
    have honward := markerFree_onward (newline_notMem_lastLine found.before) himpl h.2
    have hlines := (markerFree_relationLines (lineEnding_cases text) found.onward).2 honward
    have hgap : count = 0 → lastLine found.before = [] := by
      rintro rfl
      exact lastLine_eq_nil (by simpa using hblank)
    have hplace : MarkerFree (ensureRelation text).1 ↔
        isMarker (cutOff (lineEnding text) found.before) = false := by
      rw [hresult]
      dsimp only
      rw [List.append_assoc, List.append_assoc, markerFree_append, and_iff_right h.1]
      exact markerFree_gap hcount (lineEnding_cases text) (newline_notMem_lastLine _) hgap hlines
    rw [hplace]
    constructor
    · intro hfree _ before onward happend hfits
      obtain ⟨rfl, rfl⟩ := hfits.unique (Wording.find?_fitsFirst hfound) (happend.trans htext.symm)
      exact hfree
    · intro hall
      exact hall rfl found.before found.onward htext (Wording.find?_fitsFirst hfound)

/-! ## The three steps together -/

theorem mendBody_markersRemoved (stats : MendStats) (body : List Line) :
    (mendBody stats body).stats.markersRemoved = stats.markersRemoved := by
  have hfold (segments : List Segment) (out : BodyMend) :
      (segments.foldl BodyMend.write out).stats.markersRemoved = out.stats.markersRemoved := by
    induction segments generalizing out with
    | nil => rfl
    | cons segment segments ih =>
      rw [List.foldl_cons, ih]
      cases segment with
      | verbatim lines => rfl
      | orphan line => rfl
      | field unit =>
        unfold BodyMend.write
        dsimp only
        split <;> rfl
  exact hfold _ _

theorem mend_markersRemoved (source : List Char) :
    (mend source).stats.markersRemoved = (removeMarkers source).2 := by
  have hsame : (mend source).stats.markersRemoved = (modeled source).2.1.markersRemoved := rfl
  rw [hsame, modeled, mendModel]
  split
  · rfl
  · exact mendBody_markersRemoved _ _

/-- **Marker lines and what becomes of them.** As many are counted as there are, and the first two steps
leave none. One is left at the end exactly where a declaration is inserted and the text in front of the
implementation ends in a marker: the line that they shared was none. -/
theorem mend_markers (source : List Char) :
    (mend source).stats.markersRemoved = markerCount source ∧ MarkerFree (modeled source).1 ∧
      (MarkerFree (mend source).text ↔
        ((mend source).stats.relationInserted = true → ∀ before onward,
          before ++ onward = (modeled source).1 → behaviorHead.FitsFirst before onward →
            isMarker (cutOff (lineEnding (modeled source).1) before) = false)) := by
  have hmodeled : MarkerFree (modeled source).1 :=
    markerFree_mendModel (markerFree_removeMarkers source) _
  refine ⟨?_, hmodeled, ?_⟩
  · rw [mend_markersRemoved, removeMarkers_count]
  · rw [mend_text, mend_relationInserted]
    exact markerFree_ensureRelation hmodeled

/-- A marker on the line of an implementation of the behaviour. -/
def markedBehavior : List Char :=
  "#[sea_orm::model] impl ActiveModelBehavior for ActiveModel \x7b\x7d\n".toList

/-- The marker gets a line of its own from the insertion, behind the step that takes marker lines out. -/
theorem mend_leaves_marker :
    ¬MarkerFree (mend markedBehavior).text ∧ markerCount markedBehavior = 0 ∧
      markerCount (mend markedBehavior).text = 1 := by
  rw [← removeMarkers_count_eq_zero_iff]
  decide +kernel

end ModelMend
