import ModelMend.Proofs.Entity.Alone
import ModelMend.Proofs.Entity.AttributeText

/-!
# The shape of what is read

Every unit that is read from a body, however broken the body is, has a field, and its blocks are
closed where they end and not before (`FieldUnit.WellShaped`, `Body.units_wellShaped`).

What has to be shown is that a block stays closed where a field is split off its last line. The scanner
has read past that place, and a character literal is found by looking ahead. But no literal that begins in
front of the closing bracket reaches over it, since the bracket is read as code
(`Cursor.lt_of_closedAt_walk`), so the scanner takes the same steps on what is left of the line
(`Cursor.scanner_walk_cut`).
-/

namespace ModelMend

open Text

namespace Scanner.Cursor

/-! ## A line cut off behind the closing bracket -/

theorem two_le_of_literalTail {text : List Char} {n : Nat} (h : literalTail text = some n) : 2 ≤ n := by
  unfold literalTail at h
  split at h
  · cases h
  · obtain ⟨k, -, rfl⟩ := Option.map_eq_some_iff.1 h
    exact Nat.le_add_left 2 k
  · cases h
    exact Nat.le_refl 2
  · cases h

/-- A character literal that ends within the front of a text is found in the front alone. -/
theorem literalTail_front {front back : List Char} {n : Nat}
    (h : literalTail (front ++ back) = some n) (hn : n ≤ front.length) : literalTail front = some n := by
  have htwo := two_le_of_literalTail h
  match front, h, hn with
  | [], _, hn | [_], _, hn => exact absurd (Nat.le_trans htwo hn) (by simp)
  | c :: d :: more, h, hn =>
    by_cases hc : c = '\\'
    · subst hc
      simp only [List.cons_append, literalTail] at h ⊢
      obtain ⟨k, hk, rfl⟩ := Option.map_eq_some_iff.1 h
      rw [← List.cons_append, List.findIdx?_append] at hk
      cases hfront : (d :: more).findIdx? (· == '\'') with
      | some place =>
        rw [hfront, Option.some_or] at hk
        rw [hk]
        rfl
      | none =>
        rw [hfront, Option.none_or] at hk
        obtain ⟨place, -, rfl⟩ := Option.map_eq_some_iff.1 hk
        simp only [List.length_cons] at hn
        omega
    · by_cases hd : d = '\''
      · subst hd
        simpa [literalTail, hc] using h
      · simp [literalTail, hd] at h

variable {cursor : Cursor}

theorem readCode_front {c : Char} {front back : List Char}
    (h : c = '\'' → literalTail (front ++ back) = literalTail front) :
    cursor.readCode c (front ++ back) = cursor.readCode c front := by
  unfold readCode
  by_cases hquote : c = '\''
  · rw [h hquote]
  · simp [hquote]

/-- The closing bracket stands behind all that is skipped. -/
theorem lt_of_closedAt_walk (hnone : cursor.closedAt = none) {text : List Char} {place : Nat}
    (h : (cursor.walk text).closedAt = some place) : cursor.position + cursor.skip < place := by
  induction text generalizing cursor with
  | nil =>
    rw [walk, hnone] at h
    cases h
  | cons c rest ih =>
    by_cases hskip : cursor.skip = 0
    · obtain ⟨front, -, -, -, -, hplace, hlast, -⟩ := exists_closed hnone h
      cases front with
      | nil => cases hlast
      | cons d front =>
        rw [List.length_cons] at hplace
        omega
    · rw [walk, if_pos (by simpa using hskip)] at h
      have hless := @ih ({ cursor with skip := cursor.skip - 1 }.next c) hnone h
      simp only [next] at hless
      omega

/-- **Cut off behind the bracket** that brings the depth back to zero, a text leaves nothing open. -/
theorem scanner_walk_cut (hnone : cursor.closedAt = none) {front back : List Char}
    (h : (cursor.walk (front ++ back)).closedAt = some (cursor.position + front.length)) :
    (cursor.walk front).scanner = ⟨cursor.scanner.countsAngles, 0, false⟩ := by
  induction front generalizing cursor with
  | nil => exact absurd (lt_of_closedAt_walk hnone h) (by simp)
  | cons c front ih =>
    have hlength : cursor.position + (c :: front).length = cursor.position + 1 + front.length := by
      rw [List.length_cons]
      omega
    rw [hlength, List.cons_append] at h
    by_cases hskip : (cursor.skip != 0) = true
    · rw [walk, if_pos hskip] at h ⊢
      refine ih ?_ h
      exact hnone
    by_cases hstring : cursor.scanner.inString = true
    · rw [walk, if_neg hskip, if_pos hstring] at h ⊢
      obtain ⟨hposition, -, hclosed, hangles⟩ := report_readQuoted cursor c
      rw [← hposition] at h
      rw [← hangles]
      refine ih ?_ h
      exact hclosed.trans hnone
    by_cases hcomment : (c == '/' && (front ++ back).head? == some '/') = true
    · rw [walk, if_neg hskip, if_neg hstring, if_pos hcomment, hnone] at h
      cases h
    have hzero : cursor.skip = 0 := by simpa using hskip
    have hcode : cursor.scanner.inString = false := by simpa using hstring
    have hapart : c = '/' → front.head? ≠ some '/' := by
      rintro rfl hslash
      exact hcomment (by simp [List.head?_append, hslash])
    rw [walk, if_neg hskip, if_neg hstring, if_neg hcomment] at h
    rw [walk_code hzero hcode hapart]
    have hclosed : ((cursor.readCode c (front ++ back)).next c).closedAt = _ :=
      closedAt_readCode cursor c (front ++ back)
    split at hclosed
    · next hcloses =>
      -- the bracket that is looked for, so nothing of the front stands behind it
      rw [closedAt_walk hclosed, Option.some.injEq] at h
      obtain rfl : front = [] := List.eq_nil_of_length_eq_zero (by omega)
      change (cursor.readCode c []).scanner = _
      rw [scanner_readCode, scannerBehind_isClosing hcloses.1 hcloses.2.1 hcode]
    · have hopen := hclosed.trans hnone
      have hless : (cursor.readCode c (front ++ back)).position + 1 +
          (cursor.readCode c (front ++ back)).skip < _ := lt_of_closedAt_walk hopen h
      rw [position_readCode, skip_readCode] at hless
      have hread : cursor.readCode c (front ++ back) = cursor.readCode c front := by
        refine readCode_front fun hquote => ?_
        rw [if_pos hquote] at hless
        cases hliteral : literalTail (front ++ back) with
        | none => rw [literalTail_of_start (List.prefix_append front back) hliteral]
        | some n =>
          rw [hliteral, Option.getD_some] at hless
          rw [literalTail_front hliteral (by omega)]
      have hposition : ((cursor.readCode c front).next c).position = cursor.position + 1 :=
        congrArg (· + 1) (position_readCode cursor c front)
      have hangles : ((cursor.readCode c front).next c).scanner.countsAngles =
          cursor.scanner.countsAngles := countsAngles_readCode cursor c front
      rw [hread] at h hopen
      rw [← hposition] at h
      rw [ih hopen h, hangles]

end Scanner.Cursor

open Scanner.Cursor

/-- A line cut off behind the bracket that closes it leaves nothing open. -/
theorem Scanner.feed_cut {scanner : Scanner} {cut rest : List Char}
    (h : (scanner.feed (cut ++ rest)).1.closedAt = some cut.length) :
    (scanner.feed cut).2 = ⟨scanner.countsAngles, 0, false⟩ := by
  have hplace : ((start scanner).walk (cut ++ rest)).closedAt =
      some ((start scanner).position + cut.length) := by
    rw [start, Nat.zero_add]
    exact h
  exact scanner_walk_cut rfl hplace

theorem LineKind.of_eq_attributeStart_iff {line : Line} :
    LineKind.of line = .attributeStart ↔ ['#', '['] <+: trimStart line := by
  constructor
  · intro h
    have htrim : ['#', '['] <+: trim line := LineKind.shows_of_eq h
    exact htrim.trans (trimEnd_isPrefixOf _)
  · rintro ⟨onward, hline⟩
    have hsign : isBlank '#' = false := by decide
    rw [← kind_of_attribute onward]
    refine LineKind.of_eq_of_trimStart_eq ?_
    rw [trimStart_cons_of_not_blank hsign, ← hline]
    rfl

/-- A line that starts an attribute starts one also where it is cut off behind a closing bracket. -/
theorem LineKind.of_cut {cut rest : Line} (h : LineKind.of (cut ++ rest) = .attributeStart)
    (hlast : cut.getLast?.any Scanner.Cursor.isClosing = true) :
    LineKind.of cut = .attributeStart := by
  rw [LineKind.of_eq_attributeStart_iff] at h ⊢
  obtain ⟨last, hlast, hclosing⟩ := (Option.any_eq_true _ _).1 hlast
  obtain ⟨front, rfl⟩ := List.getLast?_eq_some_iff.1 hlast
  have hother : isBlank last = false ∧ last ≠ '#' ∧ last ≠ '[' := by
    rcases Scanner.Cursor.isClosing_iff.1 hclosing with rfl | rfl | rfl <;> decide
  have htrim (rest : List Char) :
      trimStart (front ++ [last] ++ rest) = trimStart front ++ [last] ++ rest := by
    rw [List.append_assoc, trimStart, List.dropWhile_append]
    split
    · next hblank => simp [trimStart, List.isEmpty_iff.1 hblank, hother.1]
    · rw [trimStart, List.append_assoc, List.singleton_append]
  have hcut := htrim []
  rw [List.append_nil, List.append_nil] at hcut
  rw [htrim rest] at h
  rw [hcut]
  -- the closing bracket is neither of the two characters that an attribute starts with
  generalize trimStart front = text at h ⊢
  rcases text with _ | ⟨c, _ | ⟨d, more⟩⟩
  · simp [List.cons_prefix_cons, hother.2.1.symm] at h
  · simp [List.cons_prefix_cons, hother.2.2.symm] at h
  · simpa [List.cons_prefix_cons] using h

/-- **A block that a field shares a line with** is closed where the field begins. -/
theorem ClosedBlock.cut {opening : List Line} {cut rest : Line}
    (h : ClosedBlock opening (cut ++ rest))
    (hplace : closingPlace opening (cut ++ rest) = some cut.length) : ClosedBlock opening cut := by
  have hlast := (Scanner.feed_behind_closed hplace).1
  refine ⟨?_, h.staysOpen, ?_⟩
  · cases opening with
    | nil =>
      rintro _ ⟨⟩
      exact LineKind.of_cut (h.starts _ rfl) hlast
    | cons first more => exact h.starts
  · rw [Scanner.after_append, Scanner.after_cons, Scanner.after_nil, Scanner.feed_cut hplace]
    rfl

/-! ## The shape of a unit -/

/-- A unit that is read from these lines has this shape. -/
structure FieldUnit.WellShaped (unit : FieldUnit) (lines : List Line) : Prop where
  field_ne_nil : unit.field ≠ []
  /-- A field starts with a visibility, or it goes. -/
  starts : ∀ first, unit.field.head? = some first →
    LineKind.of first = .field ∨ unit.action = .drop
  /-- What is noted of a unit that goes is its first line. -/
  noted : unit.action = .drop → ∃ first, unit.field.head? = some first ∧ ∀ out : BodyMend,
    (out.write (.field unit)).notes = out.notes ++ [.droppedField first]
  /-- A field that shares a line stands behind the last line of a block. Together they are one of the
  lines, and a unit that is kept is written with that line in one piece. -/
  shared : unit.sharesLine = true → ∃ items block last first more,
    unit = ⟨items ++ [.block (block ++ [last])], first :: more, true⟩ ∧ last ++ first ∈ lines ∧
      ∀ out, unit.renderInto .keep out =
        (out ++ (items.flatMap Leading.lines ++ block ++ (last ++ first) :: more), 0)
  /-- The first line of a block starts an attribute, and its brackets close on its last line and not
  before. -/
  blocks : ∀ block, .block block ∈ unit.leading →
    ∃ opening last, block = opening ++ [last] ∧ ClosedBlock opening last

theorem Leading.WellFormed.closedBlock {block : List Line} (h : (Leading.block block).WellFormed) :
    ∃ opening last, block = opening ++ [last] ∧ ClosedBlock opening last := by
  generalize hitem : Leading.block block = item at h
  cases h with
  | line kind => cases hitem
  | block closed behind =>
    cases hitem
    exact ⟨_, _, rfl, closed⟩

namespace Body

/-- The line that a unit shares between a block and its field is a line of the body. -/
theorem shared_mem {lines : List Line} {items : List Leading} {block more : List Line}
    {last first : Line}
    (h : .field ⟨items ++ [.block (block ++ [last])], first :: more, true⟩ ∈ segments lines) :
    last ++ first ∈ lines := by
  obtain ⟨taken, hcovers, hsubset⟩ := exists_covers_of_mem_segments h
  have hstands : FieldUnit.StandsOn ⟨items ++ [.block (block ++ [last])], first :: more, true⟩ taken :=
    hcovers
  generalize hunit : FieldUnit.mk (items ++ [.block (block ++ [last])]) (first :: more) true = unit
    at hstands
  cases hstands with
  | apart some => cases hunit
  | shared starts =>
    simp only [FieldUnit.mk.injEq, and_true] at hunit
    obtain ⟨hleading, hfield⟩ := hunit
    obtain ⟨rfl, hblock⟩ := List.append_inj' hleading rfl
    obtain ⟨rfl, hlast⟩ : _ ∧ _ := List.append_inj' (Leading.block.inj (List.cons.inj hblock).1) rfl
    obtain ⟨rfl, rfl⟩ := List.cons.inj hfield
    cases hlast
    exact hsubset (by simp)

theorem noted_of_ne_nil {unit : FieldUnit} (h : unit.field ≠ []) (hdrop : unit.action = .drop) :
    ∃ first, unit.field.head? = some first ∧ ∀ out : BodyMend,
      (out.write (.field unit)).notes = out.notes ++ [.droppedField first] := by
  obtain ⟨first, more, hfield⟩ := List.exists_cons_of_ne_nil h
  have hfirst : unit.field.head? = some first := by rw [hfield, List.head?_cons]
  refine ⟨first, hfirst, fun out => ?_⟩
  simp [BodyMend.write, hdrop, hfirst]

/-- **Every unit that is read is well shaped**, however broken the lines are. -/
theorem units_wellShaped {lines : List Line} {unit : FieldUnit} (h : .field unit ∈ segments lines) :
    unit.WellShaped lines := by
  rcases readsAlone_or_loose_of_mem_segments h with halone |
    ⟨items, field, rfl, hfield, hitems, hdrop⟩
  · cases halone with
    | apart leading starts field =>
      refine ⟨by simp, ?_, noted_of_ne_nil (by simp), by simp,
        fun block hblock => (leading _ hblock).closedBlock⟩
      rintro _ ⟨⟩
      exact Or.inl starts
    | shared leading closed place starts field =>
      refine ⟨by simp, ?_, noted_of_ne_nil (by simp), fun _ => ⟨_, _, _, _, _, rfl, shared_mem h, ?_⟩, ?_⟩
      · rintro _ ⟨⟩
        exact Or.inl starts
      · intro out
        exact FieldUnit.renderInto_keep_shared _ _ _ _ _ out
      · intro block hblock
        rcases List.mem_append.1 hblock with hfront | hlast
        · exact (leading _ hfront).closedBlock
        · cases List.mem_singleton.1 hlast
          exact ⟨_, _, rfl, closed.cut place⟩
  · exact ⟨hfield, fun _ _ => Or.inr hdrop, noted_of_ne_nil hfield, by simp,
      fun block hblock => (hitems _ hblock).closedBlock⟩

/-- A field that has lost its visibility, a key that shares its line with its field behind a block over
two lines, and a block that is never closed. -/
def brokenAlbum : List Line :=
  ["    #[sea_orm(has_many)]".toList, "    tracks:".toList, "        HasMany<Track>,".toList,
    "    #[serde(skip)] #[sea_orm(".toList, "    primary_key)] pub id: i32,".toList,
    "    #[sea_orm(".toList]

theorem units_wellShaped_brokenAlbum :
    let tracks : FieldUnit := ⟨[.block ["    #[sea_orm(has_many)]".toList]],
      ["    tracks:".toList, "        HasMany<Track>,".toList], false⟩
    let id : FieldUnit := ⟨[.block ["    #[serde(skip)] #[sea_orm(".toList, "    primary_key)]".toList]],
      [" pub id: i32,".toList], true⟩
    segments brokenAlbum = [.field tracks, .field id, .verbatim ["    #[sea_orm(".toList]] ∧
      tracks.action = .drop ∧ tracks.WellShaped brokenAlbum ∧ id.WellShaped brokenAlbum := by
  intro tracks id
  have hsegments : segments brokenAlbum =
      [.field tracks, .field id, .verbatim ["    #[sea_orm(".toList]] := by
    decide +kernel
  refine ⟨hsegments, by decide +kernel, ?_, ?_⟩
  · exact units_wellShaped (by simp [hsegments])
  · exact units_wellShaped (by simp [hsegments])

end Body

end ModelMend
