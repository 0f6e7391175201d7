import ModelMend.Proofs.Entity.Covering
import ModelMend.Proofs.Text.Trim

/-!
# Laws that rendering keeps

A unit that is kept writes the lines it stands on, except that a reduced block writes a line of its
own, and a field behind a block that is gone starts a line of its own. A law on lines that these two
kinds of new lines obey (`LineLaw`) is kept by rendering (`FieldUnit.renderInto_forall`). Two such laws
are about line ends: that a line ends in a carriage return (`lineLaw_endsInReturn`), and that it holds
none at all (`lineLaw_free`).
-/

namespace ModelMend

open Text

/-- What holds of all lines of a unit holds of the lines that take their place. -/
structure LineLaw (Holds : Line → Prop) : Prop where
  /-- Of the line that a block is reduced to. -/
  reduced : ∀ {block : List Line} {directives : Directives} {line : Line},
    (∀ other ∈ block, Holds other) → reducedBlock block directives = some line → Holds line
  /-- Of the line of a block that was reduced in front of the field on its last line. -/
  glued : ∀ {block : List Line} {last first : Line} {directives : Directives} {line : Line},
    (∀ other ∈ block, Holds other) → Holds (last ++ first) → LineKind.of first = .field →
      reducedBlock (block ++ [last]) directives = some line → Holds (line ++ first)
  /-- Of a field that was on the last line of a block that is gone. -/
  moved : ∀ {last first above : Line}, Holds (last ++ first) → LineKind.of first = .field →
    Holds above ∨ above = last → Holds (indent above ++ trimStart first)

namespace FieldUnit

variable {Holds : Line → Prop} (hlaw : LineLaw Holds) {action : FieldAction}

include hlaw

namespace Rendering

theorem write_forall {out : Rendering} {item : Leading} (hitem : ∀ line ∈ item.lines, Holds line)
    (hout : ∀ line ∈ out.lines, Holds line) : ∀ line ∈ (out.write action item).lines, Holds line := by
  cases item with
  | line text =>
    intro line hline
    rcases List.mem_append.1 hline with hline | hline
    · exact hout line hline
    · exact hitem line hline
  | block lines =>
    unfold write
    dsimp only
    split
    · intro line hline
      rcases List.mem_append.1 hline with hline | hline
      · exact hout line hline
      · exact hlaw.reduced hitem (Option.mem_toList.1 hline)
    · intro line hline
      rcases List.mem_append.1 hline with hline | hline
      · exact hout line hline
      · exact hitem line hline

theorem foldl_write_forall {items : List Leading} {out : Rendering}
    (hitems : ∀ item ∈ items, ∀ line ∈ item.lines, Holds line)
    (hout : ∀ line ∈ out.lines, Holds line) :
    ∀ line ∈ (items.foldl (write action) out).lines, Holds line := by
  induction items generalizing out with
  | nil => exact hout
  | cons item items ih =>
    obtain ⟨hitem, hmore⟩ := List.forall_mem_cons.1 hitems
    exact ih hmore (write_forall hlaw hitem hout)

end Rendering

omit hlaw in
/-- The indentation of a unit is that of one of its lines. -/
theorem indentation_eq (front : List Leading) (block field : List Line) (last : Line)
    (sharesLine : Bool) : ∃ above,
      (FieldUnit.mk (front ++ [.block (block ++ [last])]) field sharesLine).indentation =
          indent above ∧
        (above ∈ front.flatMap Leading.lines ++ block ∨ above = last) := by
  unfold indentation
  dsimp only
  split
  · next above habove =>
    refine ⟨above, rfl, ?_⟩
    obtain ⟨item, hitem, hfirst⟩ := List.exists_of_findSome?_eq_some habove
    have hline : above ∈ item.lines := List.mem_of_head? hfirst
    rcases List.mem_append.1 hitem with hfront | hblock
    · exact Or.inl (List.mem_append_left block (List.mem_flatMap.2 ⟨item, hfront, hline⟩))
    · rw [List.mem_singleton.1 hblock, Leading.lines] at hline
      rcases List.mem_append.1 hline with hopening | hlast
      · exact Or.inl (List.mem_append_right _ hopening)
      · exact Or.inr (List.mem_singleton.1 hlast)
  · next hnone =>
    have hlast := List.findSome?_eq_none_iff.1 hnone (.block (block ++ [last])) (by simp)
    simp [Leading.firstLine?, Leading.lines] at hlast

/-- The last block of a unit and the field behind it. -/
theorem renderInto_shared_forall {front : List Leading} {block : List Line} {last first : Line}
    {more out : List Line} (hfront : ∀ line ∈ front.flatMap Leading.lines ++ block, Holds line)
    (hshared : Holds (last ++ first)) (hmore : ∀ line ∈ more, Holds line)
    (hkind : LineKind.of first = .field) (haction : action ≠ .drop)
    (hout : ∀ line ∈ out, Holds line) :
    ∀ line ∈ (renderInto ⟨front ++ [.block (block ++ [last])], first :: more, true⟩ action out).1,
      Holds line := by
  obtain ⟨hitems, hblock⟩ := List.forall_mem_append.1 hfront
  have hbefore : ∀ line ∈ (front.foldl (Rendering.write action) { lines := out }).lines,
      Holds line := by
    refine Rendering.foldl_write_forall hlaw ?_ hout
    intro item hitem line hline
    exact hitems line (List.mem_flatMap.2 ⟨item, hitem, hline⟩)
  obtain ⟨above, hindent, habove⟩ := indentation_eq front block (first :: more) last true
  simp only [renderInto, haction, ↓reduceIte, List.foldl_append, List.foldl_cons, List.foldl_nil,
    hindent]
  generalize front.foldl (Rendering.write action) { lines := out } = before at hbefore ⊢
  -- the block is kept, reduced to a line, or gone; only then the field has a line of its own
  suffices hlines : ∀ line ∈ (if (before.write action (.block (block ++ [last]))).glue then
      Rendering.appendToLast (before.write action (.block (block ++ [last]))).lines first
      else (before.write action (.block (block ++ [last]))).lines ++
        [indent above ++ trimStart first]), Holds line by
    exact List.forall_mem_append.2 ⟨hlines, hmore⟩
  unfold Rendering.write
  dsimp only
  split
  · next directives hdirectives =>
    cases hreduced : reducedBlock (block ++ [last]) directives with
    | none =>
      have hmoved := hlaw.moved hshared hkind (habove.imp_left (hfront above))
      simpa [or_imp, forall_and] using ⟨hbefore, hmoved⟩
    | some line =>
      have hglued := hlaw.glued hblock hshared hkind hreduced
      simpa [or_imp, forall_and] using ⟨hbefore, hglued⟩
  · rw [if_pos (by simp), ← List.append_assoc, Rendering.appendToLast_concat]
    refine List.forall_mem_append.2 ⟨List.forall_mem_append.2 ⟨hbefore, hblock⟩, ?_⟩
    exact List.forall_mem_singleton.2 hshared

/-- **Rendering keeps a law on lines.** -/
theorem renderInto_forall {unit : FieldUnit} {taken out : List Line} (h : unit.StandsOn taken)
    (htaken : ∀ line ∈ taken, Holds line) (hout : ∀ line ∈ out, Holds line) :
    ∀ line ∈ (unit.renderInto action out).1, Holds line := by
  by_cases haction : action = .drop
  · rw [haction, renderInto_drop]
    exact hout
  · cases h with
    | @apart items field some =>
      obtain ⟨hitems, hfield⟩ := List.forall_mem_append.1 htaken
      have hbefore : ∀ line ∈ (items.foldl (Rendering.write action) { lines := out }).lines,
          Holds line := by
        refine Rendering.foldl_write_forall hlaw ?_ hout
        intro item hitem line hline
        exact hitems line (List.mem_flatMap.2 ⟨item, hitem, hline⟩)
      simp only [renderInto, haction, ↓reduceIte]
      exact List.forall_mem_append.2 ⟨hbefore, hfield⟩
    | shared starts =>
      obtain ⟨hfront, hfield⟩ := List.forall_mem_append.1 htaken
      obtain ⟨hshared, hmore⟩ := List.forall_mem_cons.1 hfield
      exact renderInto_shared_forall hlaw hfront hshared hmore starts haction hout

end FieldUnit

/-- A unit that is not dropped writes its field. -/
theorem FieldUnit.renderInto_ne_nil {unit : FieldUnit} {taken : List Line} (h : unit.StandsOn taken)
    {action : FieldAction} (haction : action ≠ .drop) (out : List Line) :
    (unit.renderInto action out).1 ≠ [] := by
  cases h with
  | apart some => simp [renderInto, haction, some]
  | @shared front block last first more starts =>
    simp only [renderInto, haction, ↓reduceIte]
    split
    · refine List.append_ne_nil_of_left_ne_nil ?_ more
      unfold Rendering.appendToLast
      split <;> simp
    · simp

/-! ## Line ends -/

/-- The characters of the key flags. -/
def keyFlagsText : List Char :=
  "#[sea_orm(primary_key, auto_increment = false)]".toList

theorem mem_keyFlagsAttribute {directives : Directives} {indentation line : List Char}
    (h : directives.keyFlagsAttribute indentation = some line) {c : Char} (hc : c ∈ line) :
    c ∈ indentation ∨ c ∈ keyFlagsText := by
  unfold Directives.keyFlagsAttribute at h
  obtain ⟨flags, hflags, rfl⟩ := Option.map_eq_some_iff.1 h
  simp only [List.mem_append, or_assoc] at hc
  refine hc.imp_right fun hc => ?_
  have hsubset : "#[sea_orm(".toList ++ flags ++ ")]".toList ⊆ keyFlagsText := by
    revert hflags
    cases directives.primaryKey <;> cases directives.autoIncrementDisabled <;>
      rintro ⟨⟩ <;> decide
  exact hsubset (by simpa only [List.mem_append, or_assoc] using hc)

/-- A reduced block is made of characters of the block and of the key flags. -/
theorem mem_reducedBlock {block : List Line} {directives : Directives} {line : Line}
    (h : reducedBlock block directives = some line) {c : Char} (hc : c ∈ line) :
    (∃ other ∈ block, c ∈ other) ∨ c ∈ keyFlagsText := by
  unfold reducedBlock at h
  split at h
  · cases h
  · next first hfirst =>
    have hindent : c ∈ indent first → ∃ other ∈ block, c ∈ other := fun hmem =>
      ⟨first, List.mem_of_head? hfirst, (List.takeWhile_sublist _).subset hmem⟩
    dsimp only at h
    split at h
    · next hreturn =>
      obtain ⟨flags, hflags, rfl⟩ := Option.map_eq_some_iff.1 h
      rcases List.mem_append.1 hc with hc | hc
      · exact (mem_keyFlagsAttribute hflags hc).imp_left hindent
      · obtain ⟨last, hlast, hend⟩ := (Option.any_eq_true _ _).1 hreturn
        rw [List.mem_singleton.1 hc]
        exact Or.inl ⟨last, List.mem_of_getLast? hlast, List.mem_of_getLast? (eq_of_beq hend)⟩
    · exact (mem_keyFlagsAttribute h hc).imp_left hindent

/-- A block whose last line ends in a carriage return is reduced to a line that does. -/
theorem getLast?_reducedBlock {block : List Line} {directives : Directives} {line : Line}
    (h : reducedBlock block directives = some line)
    (hblock : ∀ other ∈ block, other.getLast? = some '\r') : line.getLast? = some '\r' := by
  unfold reducedBlock at h
  split at h
  · cases h
  · next first hfirst =>
    have hreturn : block.getLast?.any (·.getLast? == some '\r') = true := by
      cases hlast : block.getLast? with
      | none => simp [List.getLast?_eq_none_iff.1 hlast] at hfirst
      | some last => simpa using hblock last (List.mem_of_getLast? hlast)
    rw [if_pos hreturn] at h
    obtain ⟨flags, -, rfl⟩ := Option.map_eq_some_iff.1 h
    simp

/-- A field is more than blanks. -/
theorem trimStart_ne_nil_of_field {first : Line} (h : LineKind.of first = .field) :
    trimStart first ≠ [] := by
  intro hnil
  rw [LineKind.of, trim, hnil] at h
  cases h

/-- What ends in a field ends as the field does without its indentation. -/
theorem getLast?_append_field {first : Line} (h : LineKind.of first = .field) (front : Line) :
    (front ++ trimStart first).getLast? = (trimStart first).getLast? ∧
      (front ++ first).getLast? = (trimStart first).getLast? := by
  have hsome : (trimStart first).getLast?.isSome = true := by
    simp [trimStart_ne_nil_of_field h]
  have htrimmed (front : Line) :
      (front ++ trimStart first).getLast? = (trimStart first).getLast? := by
    rw [List.getLast?_append, Option.or_of_isSome hsome]
  refine ⟨htrimmed front, ?_⟩
  conv => lhs; rw [← indent_append_trimStart first, ← List.append_assoc]
  exact htrimmed _

/-- A line holds no line feed and ends in a carriage return. -/
def EndsInReturn (line : Line) : Prop :=
  '\n' ∉ line ∧ line.getLast? = some '\r'

/-- A character that is none of the key flags gets into no line that was free of it. -/
theorem lineLaw_free {c : Char} (h : c ∉ keyFlagsText) : LineLaw fun line => c ∉ line where
  reduced := by
    intro block directives line hblock hreduced hc
    rcases mem_reducedBlock hreduced hc with ⟨other, hother, hmem⟩ | hmem
    · exact hblock other hother hmem
    · exact h hmem
  glued := by
    intro block last first directives line hblock hshared _ hreduced hc
    have hnone : ∀ other ∈ block ++ [last], c ∉ other := by
      refine List.forall_mem_append.2 ⟨hblock, List.forall_mem_singleton.2 fun hmem => ?_⟩
      exact hshared (List.mem_append_left first hmem)
    rcases List.mem_append.1 hc with hc | hc
    · rcases mem_reducedBlock hreduced hc with ⟨other, hother, hmem⟩ | hmem
      · exact hnone other hother hmem
      · exact h hmem
    · exact hshared (List.mem_append_right last hc)
  moved := by
    intro last first above hshared _ habove hc
    have habove' : c ∉ above := by
      rcases habove with habove | rfl
      · exact habove
      · exact fun hmem => hshared (List.mem_append_left first hmem)
    rcases List.mem_append.1 hc with hc | hc
    · exact habove' ((List.takeWhile_sublist _).subset hc)
    · exact hshared (List.mem_append_right last ((trimStart_suffix first).subset hc))

theorem lineLaw_endsInReturn : LineLaw EndsInReturn where
  reduced := by
    intro block directives line hblock hreduced
    exact ⟨(lineLaw_free (by decide)).reduced (fun other hother => (hblock other hother).1) hreduced,
      getLast?_reducedBlock hreduced fun other hother => (hblock other hother).2⟩
  glued := by
    intro block last first directives line hblock hshared hkind hreduced
    refine ⟨(lineLaw_free (by decide)).glued (fun other hother => (hblock other hother).1) hshared.1
      hkind hreduced, ?_⟩
    rw [(getLast?_append_field hkind line).2, ← (getLast?_append_field hkind last).2]
    exact hshared.2
  moved := by
    intro last first above hshared hkind habove
    refine ⟨(lineLaw_free (by decide)).moved hshared.1 hkind (habove.imp_left And.left), ?_⟩
    rw [(getLast?_append_field hkind _).1, ← (getLast?_append_field hkind last).2]
    exact hshared.2

end ModelMend
