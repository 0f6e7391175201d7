import ModelMend.Entity.FieldUnit
import ModelMend.Proofs.Grammar.Progress
import ModelMend.Proofs.Text.Trim
import ModelMend.Proofs.Token.Letter

/-!
# The letter `s` in units

A unit is dropped or reduced only for a name that holds the letter `s`: the name of a container, of
the attribute or of a directive. So a unit that is dropped holds the letter
(`FieldUnit.essCount_pos_of_drop`), and every block that is reduced loses one
(`FieldUnit.renderInto_essCount`): what is left of a block with `belongs_to` is the name of the
attribute, and `false` where the block had it too.
-/

namespace ModelMend

open Text Grammar

/-- The number of times the letter `s` occurs in some lines. -/
def lineEssCount (lines : List Line) : Nat :=
  essCount lines.flatten

@[simp] theorem lineEssCount_nil : lineEssCount [] = 0 := rfl

@[simp] theorem lineEssCount_cons (line : Line) (lines : List Line) :
    lineEssCount (line :: lines) = essCount line + lineEssCount lines := by
  simp [lineEssCount]

@[simp] theorem lineEssCount_append (front back : List Line) :
    lineEssCount (front ++ back) = lineEssCount front + lineEssCount back := by
  simp [lineEssCount]

@[simp] theorem essCount_joinLines (lines : List Line) :
    essCount (joinLines lines) = lineEssCount lines := by
  induction lines with
  | nil => rfl
  | cons line lines ih =>
    cases lines with
    | nil => simp [joinLines]
    | cons next lines =>
      rw [joinLines_cons line (by simp), essCount_append, lineEssCount_cons, ← ih]
      rfl

/-! ## White space holds no letter -/

theorem essCount_indent (line : List Char) : essCount (indent line) = 0 := by
  refine List.count_eq_zero.2 fun hmem => ?_
  have hblank := isBlank_of_mem_indent hmem
  exact absurd hblank (by decide)

theorem essCount_trimStart (line : List Char) : essCount (trimStart line) = essCount line := by
  have h := congrArg essCount (indent_append_trimStart line)
  rw [essCount_append, essCount_indent, Nat.zero_add] at h
  exact h

/-! ## Containers -/

theorem essCount_pos_of_mem_relationContainers {name : List Char} (h : name ∈ relationContainers) :
    0 < essCount name := by
  have hall : ∀ name ∈ relationContainers, 0 < essCount name := by decide
  exact hall name h

theorem essCount_pos_of_startsWithContainer {text : List Char}
    (h : startsWithContainer text = true) : 0 < essCount text := by
  obtain ⟨container, hmem, hstarts⟩ := List.any_eq_true.1 h
  simp only [Bool.and_eq_true] at hstarts
  have hprefix := (List.isPrefixOf_iff_prefix.1 hstarts.1).sublist
  exact Nat.lt_of_lt_of_le (essCount_pos_of_mem_relationContainers hmem)
    (essCount_le_of_sublist hprefix)

theorem essCount_pos_of_orphanRelation {line : Line} (h : LineKind.of line = .orphanRelation) :
    0 < essCount line := by
  have hstarts : startsWithContainer (trim line) = true := LineKind.shows_of_eq h
  exact Nat.lt_of_lt_of_le (essCount_pos_of_startsWithContainer hstarts)
    (essCount_le_of_sublist (trim_sublist line))

theorem lastSegment?_essCount {fuel : Nat} {tokens : List Token} {name : List Char}
    (h : lastSegment? fuel tokens = some name) : essCount name ≤ Token.essCountAll tokens := by
  fun_induction lastSegment? fuel tokens with
  | case1 => cases h
  | case2 =>
    cases h
    exact Nat.le_add_right _ _
  | case3 fuel word rest after _ hafter further hfurther ih =>
    have hsuffix := (Rule.takeOp_suffix hfurther).trans (after?_suffix hafter)
    exact Nat.le_trans (Nat.le_trans (ih h) (Token.essCountAll_le_of_suffix hsuffix))
      (Nat.le_add_left _ _)
  | case4 => cases h
  | case5 => cases h

/-- A type that is a relationship container holds the letter. -/
theorem essCount_pos_of_isRelationType {type : List Char} (h : isRelationType type = true) :
    0 < essCount type := by
  unfold isRelationType at h
  dsimp only at h
  split at h
  · next tokens htokens =>
    obtain ⟨hread, -⟩ := Option.filter_eq_some_iff.1 htokens
    simp only [Bool.and_eq_true] at h
    obtain ⟨name, hname, hcontainer⟩ := (Option.any_eq_true _ _).1 h.2
    unfold pathName? at hname
    obtain ⟨path, hpath, hlast⟩ := Option.bind_eq_some_iff.1 hname
    calc 0 < essCount name :=
          essCount_pos_of_mem_relationContainers (List.contains_iff_mem.1 hcontainer)
      _ ≤ Token.essCountAll path := lastSegment?_essCount hlast
      _ ≤ Token.essCountAll tokens := Token.essCountAll_le_of_suffix (after?_suffix hpath)
      _ ≤ essCount type := Token.essCountAll_le_of_ofText? hread
  · rw [← essCount_trimStart]
    exact essCount_pos_of_startsWithContainer h

/-! ## Declared types -/

theorem declarationCode_essCount (scanner : Scanner) (lines : List Line) :
    essCount (declarationCode scanner lines) ≤ lineEssCount lines := by
  induction lines generalizing scanner with
  | nil => exact Nat.le_refl _
  | cons line lines ih =>
    have htake (n : Nat) : essCount (line.take n) ≤ essCount line :=
      essCount_le_of_sublist (List.take_sublist n line)
    unfold declarationCode
    dsimp only
    split
    · next comma _ =>
      rw [essCount_append, lineEssCount_cons]
      exact Nat.le_trans (htake comma) (Nat.le_add_right _ _)
    · rw [essCount_append, lineEssCount_cons]
      exact Nat.add_le_add (htake _) (ih _)

theorem fieldType_essCount {lines : List Line} {type : List Char}
    (h : fieldType lines = some type) : essCount type ≤ lineEssCount lines := by
  unfold fieldType at h
  split at h
  · cases h
  · next text htext =>
    dsimp only at h
    split at h <;> cases h
    calc essCount (trim text) ≤ essCount text := essCount_le_of_sublist (trim_sublist text)
      _ ≤ essCount (declarationCode .forField lines) :=
          essCount_le_of_suffix (afterFieldColon_suffix htext)
      _ ≤ lineEssCount lines := declarationCode_essCount _ lines

/-! ## Directives -/

namespace Directives

/-- The items of a list share out its words among them. -/
theorem items?_essCount {fuel : Nat} {tokens : List Token} {items : List (List Token)}
    (h : items? fuel tokens = some items) :
    Token.essCountAll items.flatten ≤ Token.essCountAll tokens := by
  induction fuel generalizing tokens items with
  | zero =>
    cases tokens with
    | nil => cases h; exact Nat.zero_le _
    | cons token tokens => cases h
  | succ fuel ih =>
    cases tokens with
    | nil => cases h; exact Nat.zero_le _
    | cons token tokens =>
      unfold items? at h
      split at h
      · cases h
      · next rest hrest =>
        obtain ⟨item, hitem⟩ := after?_suffix hrest
        have htake : (token :: tokens).take ((token :: tokens).length - rest.length) = item := by
          simp [← hitem]
        rw [← hitem, Token.essCountAll_append]
        simp only [htake] at h
        split at h
        · cases h
          simp [Token.essCountAll]
        · next joint more =>
          obtain ⟨further, hfurther, rfl⟩ := Option.map_eq_some_iff.1 h
          have := ih hfurther
          simp only [List.flatten_cons, Token.essCountAll_append, Token.essCountAll, Token.essCount]
          omega
        · cases h

/-- The name of an item is one of its words. -/
theorem itemName?_essCount {item : List Token} {name : List Char} (h : itemName? item = some name) :
    essCount name ≤ Token.essCountAll item := by
  unfold itemName? at h
  split at h <;> cases h <;> exact Nat.le_add_right _ _

/-- An item that says `false` holds that word. -/
theorem itemFlag?_essCount {item : List Token} (h : itemFlag? item = some false) :
    1 ≤ Token.essCountAll item := by
  unfold itemFlag? at h
  split at h
  · split at h
    · cases h
    · split at h
      · next hfalse =>
        simp only [Token.essCountAll, Token.essCount, hfalse]
        have : ModelMend.essCount "false".toList = 1 := by decide
        omega
      · cases h
  · cases h

/-- The number of directives of a block that hold the letter and that count for a reduction. -/
def reductionWeight (directives : Directives) : Nat :=
  directives.belongsTo.toNat + directives.autoIncrementDisabled.toNat

theorem note_reductionWeight (directives : Directives) (item : List Token) :
    (directives.note item).reductionWeight ≤
      directives.reductionWeight + Token.essCountAll item := by
  unfold note
  split
  · exact Nat.le_add_right _ _
  · next name hname =>
    have hword := itemName?_essCount hname
    split
    · exact Nat.le_add_right _ _
    · split
      · split
        · next enabled hflag =>
          cases enabled with
          | true => simp only [reductionWeight, Bool.not_true, Bool.toNat_false]; omega
          | false =>
            have := itemFlag?_essCount hflag
            have := Bool.toNat_le directives.autoIncrementDisabled
            simp only [reductionWeight, Bool.not_false, Bool.toNat_true]
            omega
        · exact Nat.le_add_right _ _
      · split
        · exact Nat.le_add_right _ _
        · split
          · exact Nat.le_add_right _ _
          · split
            · exact Nat.le_add_right _ _
            · split
              · next hbelongs =>
                have : essCount "belongs_to".toList = 1 := by decide
                rw [hbelongs, this] at hword
                simp only [reductionWeight, Bool.toNat_true]
                omega
              · exact Nat.le_add_right _ _

theorem ofItems_reductionWeight (items : List (List Token)) :
    (ofItems items).reductionWeight ≤ Token.essCountAll items.flatten := by
  have hfold (items : List (List Token)) (start : Directives) :
      (items.foldl note start).reductionWeight ≤
        start.reductionWeight + Token.essCountAll items.flatten := by
    induction items generalizing start with
    | nil => exact Nat.le_refl _
    | cons item items ih =>
      have hstep := note_reductionWeight start item
      have hrest := ih (start.note item)
      rw [List.foldl_cons, List.flatten_cons, Token.essCountAll_append]
      omega
  have h := hfold items {}
  simpa [ofItems, reductionWeight] using h

/-- **The text of an attribute with directives holds a letter for its name**, one for each
`belongs_to` or `false` that counts, and perhaps more. -/
theorem parse_essCount {text : List Char} {directives : Directives}
    (h : parse text = some directives) : 1 + directives.reductionWeight ≤ essCount text := by
  unfold parse at h
  split at h
  · cases h
  · next tokens htokens =>
    split at h
    · refine Nat.le_trans ?_ (Token.essCountAll_le_of_ofText? htokens)
      unfold ofTokens? at h
      split at h
      · next name _ arguments others =>
        split at h
        · next hname =>
          obtain ⟨items, hitems, rfl⟩ := Option.map_eq_some_iff.1 h
          have hweight := ofItems_reductionWeight items
          have hwords := items?_essCount hitems
          have hletter : ModelMend.essCount "sea_orm".toList = 1 := by decide
          simp only [Token.essCountAll, Token.essCount, hname, hletter]
          omega
        · cases h
      · cases h
    · cases h

/-- What is left of the key flags holds a letter for the name of the attribute and one for
`false`. -/
theorem keyFlagsAttribute_essCount {directives : Directives} {indent line : List Char}
    (h : directives.keyFlagsAttribute indent = some line) :
    essCount line = essCount indent + (1 + directives.autoIncrementDisabled.toNat) := by
  obtain ⟨flags, hflags, rfl⟩ := Option.map_eq_some_iff.1 h
  simp only [essCount_append]
  revert hflags
  cases directives.primaryKey <;> cases directives.autoIncrementDisabled <;>
    intro hflags <;> cases hflags <;> rfl

end Directives

theorem reducedBlock_essCount (lines : List Line) (directives : Directives) :
    lineEssCount (reducedBlock lines directives).toList ≤
      1 + directives.autoIncrementDisabled.toNat := by
  have bound (indentation : List Char) (hindent : essCount indentation = 0) :
      lineEssCount (directives.keyFlagsAttribute indentation).toList ≤
        1 + directives.autoIncrementDisabled.toNat := by
    cases hkey : directives.keyFlagsAttribute indentation with
    | none => simp
    | some line => simp [Directives.keyFlagsAttribute_essCount hkey, hindent]
  unfold reducedBlock
  split
  · simp
  · next first _ =>
    have hfirst := bound (indent first) (essCount_indent first)
    dsimp only
    split
    · cases hkey : directives.keyFlagsAttribute (indent first) with
      | none => simp
      | some line =>
        have hreturn : essCount ['\r'] = 0 := by decide
        rw [hkey] at hfirst
        simpa [hreturn] using hfirst
    · exact hfirst

/-! ## Units -/

namespace FieldUnit

/-- The lines of a unit, those of its leading items first. -/
def allLines (unit : FieldUnit) : List Line :=
  unit.leading.flatMap Leading.lines ++ unit.field

namespace Rendering

/-- Writing a leading item loses a letter for each block that is reduced. -/
theorem write_essCount (action : FieldAction) (out : Rendering) (item : Leading) :
    lineEssCount (out.write action item).lines + (out.write action item).reduced ≤
      lineEssCount out.lines + out.reduced + lineEssCount item.lines := by
  cases item with
  | line text =>
    simp only [write, Leading.lines, lineEssCount_append]
    omega
  | block lines =>
    unfold write
    dsimp only
    split
    · next directives hdirectives =>
      obtain ⟨hparse, hbelongs⟩ := Option.filter_eq_some_iff.1 hdirectives
      simp only [Bool.and_eq_true] at hbelongs
      have hletters : 1 + directives.reductionWeight ≤ essCount (joinLines lines) :=
        Directives.parse_essCount hparse
      have hreduced := reducedBlock_essCount lines directives
      simp only [Directives.reductionWeight, hbelongs.1, Bool.toNat_true] at hletters
      rw [essCount_joinLines] at hletters
      simp only [Leading.lines, lineEssCount_append]
      omega
    · simp only [Leading.lines, lineEssCount_append]
      omega

theorem foldl_write_essCount (action : FieldAction) (items : List Leading) (out : Rendering) :
    lineEssCount (items.foldl (write action) out).lines + (items.foldl (write action) out).reduced ≤
      lineEssCount out.lines + out.reduced + lineEssCount (items.flatMap Leading.lines) := by
  induction items generalizing out with
  | nil => simp
  | cons item items ih =>
    have hitem := write_essCount action out item
    have hitems := ih (out.write action item)
    rw [List.foldl_cons, List.flatMap_cons, lineEssCount_append]
    omega

theorem appendToLast_essCount (lines : List Line) (tail : Line) :
    lineEssCount (appendToLast lines tail) = lineEssCount lines + essCount tail := by
  unfold appendToLast
  split
  · next last hlast =>
    obtain ⟨front, rfl⟩ := List.getLast?_eq_some_iff.1 hlast
    simp [Nat.add_assoc]
  · next hnone =>
    rw [List.getLast?_eq_none_iff.1 hnone]
    simp

end Rendering

theorem essCount_indentation (unit : FieldUnit) : essCount unit.indentation = 0 := by
  unfold indentation
  split
  · exact essCount_indent _
  · rfl

/-- **A unit that is kept loses a letter for each block that is reduced.** -/
theorem renderInto_essCount (unit : FieldUnit) {action : FieldAction} (h : action ≠ .drop)
    (out : List Line) :
    lineEssCount (unit.renderInto action out).1 + (unit.renderInto action out).2 ≤
      lineEssCount out + lineEssCount unit.allLines := by
  have hleading := Rendering.foldl_write_essCount action unit.leading { lines := out }
  obtain ⟨leading, field, sharesLine⟩ := unit
  simp only [renderInto, h, ↓reduceIte, allLines, lineEssCount_append]
  simp only at hleading
  split
  · split
    · simp only [lineEssCount_append, Rendering.appendToLast_essCount, lineEssCount_cons]
      omega
    · simp only [lineEssCount_append, lineEssCount_cons, lineEssCount_nil, essCount_append,
        essCount_indentation, essCount_trimStart]
      omega
  · simp only [lineEssCount_append]
    omega

/-- **A unit that is dropped holds the letter.** -/
theorem essCount_pos_of_drop {unit : FieldUnit} (h : unit.action = .drop) :
    0 < lineEssCount unit.allLines := by
  unfold action at h
  split at h
  · next hdrop =>
    rw [allLines, lineEssCount_append]
    rcases Bool.or_eq_true _ _ ▸ hdrop with hfield | hdirectives
    · refine Nat.lt_of_lt_of_le ?_ (Nat.le_add_left _ _)
      unfold isRelationField declaredType at hfield
      rcases Bool.or_eq_true _ _ ▸ hfield with horphan | htype
      · obtain ⟨line, hline, hkind⟩ := (Option.any_eq_true _ _).1 horphan
        obtain ⟨more, hmore⟩ := List.head?_eq_some_iff.1 hline
        rw [hmore, lineEssCount_cons]
        exact Nat.lt_of_lt_of_le (essCount_pos_of_orphanRelation (of_decide_eq_true hkind))
          (Nat.le_add_right _ _)
      · obtain ⟨type, hread, hrelation⟩ := (Option.any_eq_true _ _).1 htype
        exact Nat.lt_of_lt_of_le (essCount_pos_of_isRelationType hrelation) (fieldType_essCount hread)
    · refine Nat.lt_of_lt_of_le ?_ (Nat.le_add_right _ _)
      obtain ⟨directives, hmem, -⟩ := List.any_eq_true.1 hdirectives
      obtain ⟨item, hitem, hparse⟩ := List.mem_filterMap.1 hmem
      cases item with
      | line text => cases hparse
      | block lines =>
        have hletters : 1 + directives.reductionWeight ≤ essCount (joinLines lines) :=
          Directives.parse_essCount hparse
        rw [essCount_joinLines] at hletters
        obtain ⟨front, back, hleading⟩ := List.append_of_mem hitem
        rw [hleading, List.flatMap_append, List.flatMap_cons, lineEssCount_append,
          lineEssCount_append]
        simp only [Leading.lines]
        omega
  · split at h <;> cases h

end FieldUnit

end ModelMend
