import ModelMend.Proofs.Entity.Attributes

/-!
# Attributes that share a block

The same attributes may be written one block each, or several to a block. A field below them is read
as one unit either way (`Body.segments_below`), but only the first attribute of a block has a say in
what becomes of the unit, and where that is a `belongs_to` the whole block makes way for its key flags.
So the two layouts have the same outcome exactly if going by the first attributes is right
(`FirstsDecide`, `Body.regrouping_iff`).

What is left above the field is compared token by token. A `belongs_to` behind another attribute would
be left as it is, and no such attribute is left where each has a block of its own; after that, what
a `belongs_to` in front takes along shows in the length (`AttributeBlock.flatMap_keptApart_eq_iff`).
-/

namespace ModelMend

open Text

namespace FieldUnit

/-- A field below attribute blocks. -/
def below (blocks : List AttributeBlock) (field : List Line) : FieldUnit :=
  ⟨blocks.map AttributeBlock.item, field, false⟩

/-- What is left of a leading item: the lines of a unit of it alone. -/
def written (action : FieldAction) (item : Leading) : List Line :=
  (renderInto ⟨[item], [], false⟩ action []).1

/-- The attributes that are left above the field, block by block. -/
def survivingAttributes (unit : FieldUnit) : Option (List Token) :=
  (unit.blocks.mapM fun block => Token.ofText? (joinLines (written unit.action block))).map
    List.flatten

/-- The same becomes of both units: the action, and the attributes that are left. -/
def SameOutcome (unit other : FieldUnit) : Prop :=
  unit.action = other.action ∧ unit.survivingAttributes = other.survivingAttributes

end FieldUnit

/-- Going by the first attribute of each block is right: one of them declares a relationship, or no
attribute does and all blocks are uniform. -/
def FirstsDecide (blocks : List AttributeBlock) : Prop :=
  (∃ block ∈ blocks, block.first.declaresRelation = true) ∨
    ∀ block ∈ blocks, block.Uniform ∧ ∀ attr ∈ block.attributes, attr.declaresRelation = false

instance (blocks : List AttributeBlock) : Decidable (FirstsDecide blocks) :=
  inferInstanceAs (Decidable ((∃ block ∈ blocks, _) ∨ ∀ block ∈ blocks, _ ∧ _))

namespace FieldUnit

/-! ## What a unit below blocks becomes -/

theorem written_eq {action : FieldAction} (h : action ≠ .drop) :
    written action = fun item => (Rendering.write action { lines := [] } item).lines := by
  funext item
  simp [written, renderInto, h]

theorem renderInto_apart (items : List Leading) (field : List Line) {action : FieldAction}
    (h : action ≠ .drop) (out : List Line) :
    (renderInto ⟨items, field, false⟩ action out).1 =
      out ++ items.flatMap (written action) ++ field := by
  simp [renderInto, h, Rendering.foldl_write_lines, written_eq h]

section

variable (blocks : List AttributeBlock) (field : List Line)

theorem blocks_below : (below blocks field).blocks = blocks.map AttributeBlock.item := by
  refine List.filter_eq_self.2 fun item hitem => ?_
  obtain ⟨block, -, rfl⟩ := List.mem_map.1 hitem
  rfl

theorem directives_below :
    (below blocks field).directives = blocks.filterMap fun block => block.first.directives? := by
  have hitems : Leading.directives? ∘ AttributeBlock.item = fun block => block.first.directives? :=
    funext AttributeBlock.directives?_item
  rw [directives, below, List.filterMap_map, hitems]

theorem any_directives_below (p : Directives → Bool) :
    (below blocks field).directives.any p = blocks.any fun block => block.first.directives?.any p := by
  rw [directives_below]
  induction blocks with
  | nil => rfl
  | cons block blocks ih =>
    cases hdirectives : block.first.directives? <;> simp [hdirectives, ih]

theorem action_below : (below blocks field).action =
    if isRelationField ⟨[], field, false⟩ || blocks.any fun block => block.first.declaresRelation
    then .drop
    else if blocks.any fun block => block.first.belongsTo then .stripBelongsTo else .keep := by
  rw [action, any_directives_below, any_directives_below]
  rfl

theorem action_below_eq_drop_iff : (below blocks field).action = .drop ↔
    isRelationField ⟨[], field, false⟩ = true ∨
      ∃ block ∈ blocks, block.first.declaresRelation = true := by
  rw [action_below, ← List.any_eq_true, ← Bool.or_eq_true]
  split
  · next h => exact iff_of_true rfl h
  · next h => exact iff_of_false (by split <;> simp) h

theorem action_below_of_ne_drop (haction : (below blocks field).action ≠ .drop) :
    (below blocks field).action =
      if blocks.any fun block => block.first.belongsTo then .stripBelongsTo else .keep := by
  rw [action_below] at haction ⊢
  split at haction
  · exact absurd rfl haction
  · next h => rw [if_neg h]

theorem action_below_of_belongsTo {block : AttributeBlock} (hblock : block ∈ blocks)
    (hbelongs : block.first.belongsTo = true) (haction : (below blocks field).action ≠ .drop) :
    (below blocks field).action = .stripBelongsTo := by
  have hany : (blocks.any fun block => block.first.belongsTo) = true :=
    List.any_eq_true.2 ⟨block, hblock, hbelongs⟩
  rw [action_below_of_ne_drop blocks field haction, if_pos hany]

/-- Where a field stays, a block is written as it is unless its first attribute is a `belongs_to`. -/
theorem written_plain {block : AttributeBlock} (h : block.first.belongsTo = false)
    {action : FieldAction} (haction : action ≠ .drop) : written action block.item = block.lines := by
  have hfilter : (block.item.directives?.filter fun d =>
      d.belongsTo && action = .stripBelongsTo) = none := by
    rw [block.directives?_item, Option.filter_eq_none_iff]
    intro directives hdirectives
    rw [Attribute.belongsTo, hdirectives, Option.any_some] at h
    simp [h]
  rw [written_eq haction]
  rw [AttributeBlock.item] at hfilter ⊢
  simp [Rendering.write, hfilter]

theorem written_reduced {block : AttributeBlock} {directives : Directives}
    (h : block.first.directives? = some directives) (hbelongs : directives.belongsTo = true) :
    written .stripBelongsTo block.item = (reducedBlock block.lines directives).toList := by
  have hfilter : (block.item.directives?.filter fun d => d.belongsTo) = some directives := by
    rw [block.directives?_item, h, Option.filter, if_pos hbelongs]
  rw [written_eq (by decide)]
  rw [AttributeBlock.item] at hfilter ⊢
  simp [Rendering.write, hfilter]

/-- The text that is left of a block has the tokens that are left of it. -/
theorem ofText?_written {block : AttributeBlock} (hblock : block ∈ blocks)
    (haction : (below blocks field).action ≠ .drop) :
    Token.ofText? (joinLines (written (below blocks field).action block.item)) =
      some block.kept := by
  cases hbelongs : block.first.belongsTo with
  | false =>
    rw [written_plain hbelongs haction, block.written, AttributeBlock.kept, hbelongs]
    rfl
  | true =>
    obtain ⟨directives, hdirectives, howner, hkept⟩ := Attribute.kept_of_belongsTo hbelongs
    rw [action_below_of_belongsTo blocks field hblock hbelongs haction,
      written_reduced hdirectives howner, directives.ofText?_reducedBlock block.lines_ne_nil,
      AttributeBlock.kept, hbelongs, if_pos rfl, hkept]

theorem survivingAttributes_eq {left : AttributeBlock → List Token}
    (h : ∀ block ∈ blocks, Token.ofText? (joinLines (written (below blocks field).action
      block.item)) = some (left block)) :
    (below blocks field).survivingAttributes = some (blocks.flatMap left) := by
  rw [survivingAttributes, blocks_below]
  generalize (below blocks field).action = action at h
  have hmap : (blocks.map AttributeBlock.item).mapM (fun item =>
      Token.ofText? (joinLines (written action item))) = some (blocks.map left) := by
    induction blocks with
    | nil => rfl
    | cons block blocks ih =>
      obtain ⟨hblock, hblocks⟩ := List.forall_mem_cons.1 h
      rw [List.map_cons, List.mapM_cons, hblock, ih hblocks]
      rfl
  rw [hmap, Option.map_some, List.flatMap_def]

theorem survivingAttributes_of_ne_drop (haction : (below blocks field).action ≠ .drop) :
    (below blocks field).survivingAttributes = some (blocks.flatMap AttributeBlock.kept) :=
  survivingAttributes_eq blocks field fun _ hblock => ofText?_written blocks field hblock haction

theorem survivingAttributes_of_drop (haction : (below blocks field).action = .drop) :
    (below blocks field).survivingAttributes = some [] := by
  have hnone : ∀ block ∈ blocks, Token.ofText? (joinLines (written (below blocks field).action
      block.item)) = some [] := by
    intro block _
    rw [haction, written, renderInto_drop]
    rfl
  rw [survivingAttributes_eq blocks field hnone]
  simp

end

end FieldUnit

/-! ## Two layouts of the same attributes -/

section

variable {α β : Type} {f g : α → List β} {parts : List α}

theorem length_flatMap_le (h : ∀ part ∈ parts, (g part).length ≤ (f part).length) :
    (parts.flatMap g).length ≤ (parts.flatMap f).length := by
  induction parts with
  | nil => exact Nat.le_refl _
  | cons part parts ih =>
    obtain ⟨hpart, hparts⟩ := List.forall_mem_cons.1 h
    simp only [List.flatMap_cons, List.length_append]
    exact Nat.add_le_add hpart (ih hparts)

/-- Where no part is longer under `g` and the whole is no shorter, no part is shorter. -/
theorem length_eq_of_length_flatMap_eq (h : ∀ part ∈ parts, (g part).length ≤ (f part).length)
    (hwhole : (parts.flatMap f).length = (parts.flatMap g).length) :
    ∀ part ∈ parts, (f part).length = (g part).length := by
  induction parts with
  | nil => simp
  | cons part parts ih =>
    obtain ⟨hpart, hparts⟩ := List.forall_mem_cons.1 h
    have hrest := length_flatMap_le hparts
    simp only [List.flatMap_cons, List.length_append] at hwhole
    refine List.forall_mem_cons.2 ⟨?_, ih hparts ?_⟩ <;> omega

end

namespace AttributeBlock

/-- What would be left of the attributes of the block if each had a block of its own. -/
def keptApart (block : AttributeBlock) : List Token :=
  block.attributes.flatMap Attribute.kept

variable {block : AttributeBlock}

theorem keptApart_of_uniform (h : block.Uniform) : block.keptApart = block.kept := by
  rw [keptApart, kept, attributes, List.flatMap_cons]
  cases hfirst : block.first.belongsTo with
  | false =>
    have hothers : block.others.flatMap Attribute.kept = block.others.flatMap Attribute.tokens := by
      rw [List.flatMap_def, List.flatMap_def]
      congr 1
      refine List.map_congr_left fun other hother => ?_
      exact Attribute.kept_of_not_belongsTo ((h other hother).1.trans hfirst)
    rw [hothers, Attribute.kept_of_not_belongsTo hfirst]
    rfl
  | true =>
    have hothers : block.others.flatMap Attribute.kept = [] := by
      refine List.flatMap_eq_nil_iff.2 fun other hother => ?_
      have hbelongs := (h other hother).1.trans hfirst
      exact other.kept_eq_nil_iff.2 ⟨hbelongs, (h other hother).2 hbelongs⟩
    rw [hothers, List.append_nil]
    rfl

theorem keptApart_of_first_belongsTo (h : block.first.belongsTo = true) :
    block.keptApart = block.kept ++ block.others.flatMap Attribute.kept := by
  rw [keptApart, kept, if_pos h, attributes, List.flatMap_cons]

/-- Two layouts leave the same where all blocks are uniform, and only there: a `belongs_to` behind
another attribute would stay as it is, and what a `belongs_to` in front takes along would be missing. -/
theorem flatMap_keptApart_eq_iff (blocks : List AttributeBlock) :
    blocks.flatMap keptApart = blocks.flatMap kept ↔ ∀ block ∈ blocks, block.Uniform := by
  constructor
  · intro h
    -- a `belongs_to` behind another attribute would be left, but none is
    have hplain : ∀ block ∈ blocks, block.first.belongsTo = false →
        ∀ other ∈ block.others, other.belongsTo = false := by
      intro block hblock hfirst other hother
      refine Bool.eq_false_iff.2 fun hbelongs => ?_
      have hmem : Token.group .square other.content ∈ blocks.flatMap kept := by
        refine List.mem_flatMap.2 ⟨block, hblock, ?_⟩
        rw [kept, hfirst, if_neg Bool.false_ne_true]
        exact List.mem_flatMap.2 ⟨other, List.mem_cons_of_mem _ hother, by simp [Attribute.tokens]⟩
      rw [← h] at hmem
      obtain ⟨source, -, hsource⟩ := List.mem_flatMap.1 hmem
      obtain ⟨attr, -, hattr⟩ := List.mem_flatMap.1 hsource
      exact Attribute.not_isOwner_of_mem_kept hattr ⟨other, hbelongs, rfl⟩
    have huniform : ∀ block ∈ blocks, block.first.belongsTo = false → block.Uniform := by
      intro block hblock hfirst other hother
      have hbelongs := hplain block hblock hfirst other hother
      exact ⟨hbelongs.trans hfirst.symm, fun htrue => absurd htrue (by simp [hbelongs])⟩
    -- so no block leaves more than its attributes by themselves, and none can leave less
    have hle : ∀ block ∈ blocks, block.kept.length ≤ block.keptApart.length := by
      intro block hblock
      cases hfirst : block.first.belongsTo with
      | false =>
        have heq := keptApart_of_uniform (huniform block hblock hfirst)
        exact Nat.le_of_eq (congrArg List.length heq.symm)
      | true =>
        rw [keptApart_of_first_belongsTo hfirst, List.length_append]
        exact Nat.le_add_right _ _
    have hlength := length_eq_of_length_flatMap_eq hle (congrArg List.length h)
    intro block hblock
    cases hfirst : block.first.belongsTo with
    | false => exact huniform block hblock hfirst
    | true =>
      have hothers : (block.others.flatMap Attribute.kept).length = 0 := by
        have hblockLength := hlength block hblock
        rw [keptApart_of_first_belongsTo hfirst, List.length_append] at hblockLength
        omega
      intro other hother
      have hnil := List.flatMap_eq_nil_iff.1 (List.length_eq_zero_iff.1 hothers) other hother
      obtain ⟨hbelongs, hflags⟩ := other.kept_eq_nil_iff.1 hnil
      exact ⟨hbelongs.trans hfirst.symm, fun _ => hflags⟩
  · intro h
    rw [List.flatMap_def, List.flatMap_def]
    congr 1
    exact List.map_congr_left fun block hblock => keptApart_of_uniform (h block hblock)

/-- Where each attribute has a block of its own, the first attributes are all there are. -/
theorem any_first_of_alone {blocks : List AttributeBlock} (h : ∀ block ∈ blocks, block.others = [])
    (p : Attribute → Bool) :
    (blocks.any fun block => p block.first) = (blocks.flatMap attributes).any p := by
  induction blocks with
  | nil => rfl
  | cons block blocks ih =>
    obtain ⟨hblock, hblocks⟩ := List.forall_mem_cons.1 h
    simp [attributes, hblock, ← ih hblocks]

theorem flatMap_kept_of_alone {blocks : List AttributeBlock}
    (h : ∀ block ∈ blocks, block.others = []) :
    blocks.flatMap kept = (blocks.flatMap attributes).flatMap Attribute.kept := by
  have huniform : ∀ block ∈ blocks, block.Uniform := by
    intro block hblock other hother
    rw [h block hblock] at hother
    cases hother
  rw [← (flatMap_keptApart_eq_iff blocks).2 huniform, List.flatMap_assoc]
  rfl

theorem any_belongsTo_of_uniform {blocks : List AttributeBlock}
    (h : ∀ block ∈ blocks, block.Uniform) :
    (blocks.flatMap attributes).any Attribute.belongsTo =
      blocks.any fun block => block.first.belongsTo := by
  induction blocks with
  | nil => rfl
  | cons block blocks ih =>
    obtain ⟨hblock, hblocks⟩ := List.forall_mem_cons.1 h
    have hany : block.attributes.any Attribute.belongsTo = block.first.belongsTo := by
      cases hfirst : block.first.belongsTo with
      | true => simp [attributes, hfirst]
      | false =>
        have hothers : ∀ other ∈ block.others, other.belongsTo = false :=
          fun other hother => (hblock other hother).1.trans hfirst
        simpa [attributes, hfirst] using hothers
    rw [List.flatMap_cons, List.any_append, hany, ih hblocks, List.any_cons]

end AttributeBlock

namespace FieldUnit

variable {own shared : List AttributeBlock}

theorem sameOutcome_of_drop {field : List Line} (hown : (below own field).action = .drop)
    (hshared : (below shared field).action = .drop) :
    SameOutcome (below own field) (below shared field) := by
  refine ⟨hown.trans hshared.symm, ?_⟩
  rw [survivingAttributes_of_drop own field hown, survivingAttributes_of_drop shared field hshared]

theorem sameOutcome_iff_uniform (halone : ∀ block ∈ own, block.others = [])
    (hsame : own.flatMap AttributeBlock.attributes = shared.flatMap AttributeBlock.attributes)
    {field : List Line} (hown : (below own field).action ≠ .drop)
    (hshared : (below shared field).action ≠ .drop) :
    SameOutcome (below own field) (below shared field) ↔ ∀ block ∈ shared, block.Uniform := by
  have hleft : (below own field).survivingAttributes = (below shared field).survivingAttributes ↔
      ∀ block ∈ shared, block.Uniform := by
    rw [survivingAttributes_of_ne_drop own field hown,
      survivingAttributes_of_ne_drop shared field hshared, Option.some.injEq,
      AttributeBlock.flatMap_kept_of_alone halone, hsame, List.flatMap_assoc]
    exact AttributeBlock.flatMap_keptApart_eq_iff shared
  constructor
  · intro h
    exact hleft.1 h.2
  · intro h
    refine ⟨?_, hleft.2 h⟩
    rw [action_below_of_ne_drop own field hown, action_below_of_ne_drop shared field hshared,
      AttributeBlock.any_first_of_alone halone Attribute.belongsTo, hsame,
      AttributeBlock.any_belongsTo_of_uniform h]

theorem sameOutcome_iff (halone : ∀ block ∈ own, block.others = [])
    (hsame : own.flatMap AttributeBlock.attributes = shared.flatMap AttributeBlock.attributes)
    (field : List Line) :
    SameOutcome (below own field) (below shared field) ↔
      isRelationField ⟨[], field, false⟩ = true ∨ FirstsDecide shared := by
  have hown : (below own field).action = .drop ↔ isRelationField ⟨[], field, false⟩ = true ∨
      ∃ block ∈ shared, ∃ attr ∈ block.attributes, attr.declaresRelation = true := by
    rw [action_below_eq_drop_iff, ← List.any_eq_true,
      AttributeBlock.any_first_of_alone halone Attribute.declaresRelation, hsame]
    simp
  have hshared := action_below_eq_drop_iff shared field
  by_cases hrelation : isRelationField ⟨[], field, false⟩ = true
  · exact iff_of_true (sameOutcome_of_drop (hown.2 (Or.inl hrelation)) (hshared.2 (Or.inl hrelation)))
      (Or.inl hrelation)
  rw [or_iff_right hrelation] at hown hshared ⊢
  by_cases hany : ∃ block ∈ shared, ∃ attr ∈ block.attributes, attr.declaresRelation = true
  · constructor
    · intro h
      exact Or.inl (hshared.1 (h.1.symm.trans (hown.2 hany)))
    · rintro (hfirst | hnone)
      · exact sameOutcome_of_drop (hown.2 hany) (hshared.2 hfirst)
      · obtain ⟨block, hblock, attr, hattr, hdeclares⟩ := hany
        exact absurd hdeclares (by simp [(hnone block hblock).2 attr hattr])
  · -- the field stays in both layouts
    have hfirst : ¬∃ block ∈ shared, block.first.declaresRelation = true := by
      rintro ⟨block, hblock, hdeclares⟩
      exact hany ⟨block, hblock, block.first, List.mem_cons_self, hdeclares⟩
    rw [sameOutcome_iff_uniform halone hsame (mt hown.1 hany) (mt hshared.1 hfirst)]
    rw [FirstsDecide, or_iff_right hfirst]
    constructor
    · intro h block hblock
      refine ⟨h block hblock, fun attr hattr => Bool.eq_false_iff.2 fun hdeclares => ?_⟩
      exact hany ⟨block, hblock, attr, hattr, hdeclares⟩
    · intro h block hblock
      exact (h block hblock).1

end FieldUnit

namespace Body

theorem segments_below (blocks : List AttributeBlock) {first : Line} {more : List Line}
    {run : FieldRun} (hfield : LineKind.of first = .field)
    (hrun : readField .forField (first :: more) = some run) :
    segments (blocks.flatMap AttributeBlock.lines ++ first :: more) =
      .field (.below blocks run.field) :: segments run.rest := by
  have hitems : LeadingItems (blocks.map AttributeBlock.item) := by
    constructor
    · intro item hitem
      obtain ⟨block, -, rfl⟩ := List.mem_map.1 hitem
      exact block.closed
    · intro item hitem
      obtain ⟨block, -, rfl⟩ := List.mem_map.1 (List.mem_of_head? hitem)
      rfl
  have hlines : blocks.flatMap AttributeBlock.lines =
      (blocks.map AttributeBlock.item).flatMap Leading.lines := by
    rw [List.flatMap_map]
    rfl
  have hopens : OpensUnit ((blocks.map AttributeBlock.item).flatMap Leading.lines ++
      first :: more) := opensUnit_items hitems fun _ => ⟨first, rfl, by rw [hfield]; rfl⟩
  rw [hlines, segments_of_opensUnit hopens, readLeading_items hitems.wellFormed,
    readLeading_field hfield]
  simp [readUnit, hrun, FieldUnit.below]

/-- **Regrouping attributes** changes neither what becomes of a field nor the attributes that are left
above it, exactly if the field is a relationship or the first attributes of the blocks decide. Where
the field stays, a block that does not start with a `belongs_to` is written as it is. -/
theorem regrouping_iff {own shared : List AttributeBlock}
    (halone : ∀ block ∈ own, block.others = [])
    (hsame : own.flatMap AttributeBlock.attributes = shared.flatMap AttributeBlock.attributes)
    {first : Line} {more : List Line} {run : FieldRun} (hfield : LineKind.of first = .field)
    (hrun : readField .forField (first :: more) = some run) :
    (∀ blocks ∈ [own, shared], segments (blocks.flatMap AttributeBlock.lines ++ first :: more) =
      .field (.below blocks run.field) :: segments run.rest) ∧
    (FieldUnit.SameOutcome (.below own run.field) (.below shared run.field) ↔
      FieldUnit.isRelationField ⟨[], run.field, false⟩ = true ∨ FirstsDecide shared) ∧
    (∀ blocks ∈ [own, shared], ∀ action, action ≠ .drop →
      (FieldUnit.renderInto (.below blocks run.field) action []).1 =
        blocks.flatMap (fun block => FieldUnit.written action block.item) ++ run.field ∧
      ∀ block ∈ blocks, block.first.belongsTo = false →
        FieldUnit.written action block.item = block.lines) := by
  refine ⟨fun blocks _ => segments_below blocks hfield hrun,
    FieldUnit.sameOutcome_iff halone hsame run.field, fun blocks _ action haction => ⟨?_, ?_⟩⟩
  · rw [FieldUnit.below, FieldUnit.renderInto_apart _ _ haction, List.flatMap_map, List.nil_append]
  · intro block _ hplain
    exact FieldUnit.written_plain hplain haction

/-- An end of a relationship, and two attributes that nothing is read from. -/
def ownedByCake : Attribute :=
  .call "sea_orm".toList [.word "belongs_to".toList, .punct '=' false,
    .literal .string "\"cake\"".toList] (by decide)

def serdeSkip : Attribute :=
  .call "serde".toList [.word "skip".toList] (by decide)

def cfgTest : Attribute :=
  .call "cfg".toList [.word "test".toList] (by decide)

def ownedByCakeLine : AttributeBlock :=
  .onLine "#[sea_orm(belongs_to = \"cake\")]".toList ownedByCake []
    (by decide +kernel) (by decide +kernel) (by decide +kernel) rfl

def serdeSkipLine : AttributeBlock :=
  .onLine "#[serde(skip)]".toList serdeSkip []
    (by decide +kernel) (by decide +kernel) (by decide +kernel) rfl

def cfgTestLine : AttributeBlock :=
  .onLine "#[cfg(test)]".toList cfgTest []
    (by decide +kernel) (by decide +kernel) (by decide +kernel) rfl

def serdeCfgLine : AttributeBlock :=
  .onLine "#[serde(skip)] #[cfg(test)]".toList serdeSkip [cfgTest]
    (by decide +kernel) (by decide +kernel) (by decide +kernel) rfl

/-- Below an end of a relationship two attributes may share a line. -/
theorem regrouping_serdeCfgLine :
    segments ([ownedByCakeLine, serdeSkipLine, cfgTestLine].flatMap AttributeBlock.lines ++
        ["pub id: i32,".toList]) =
      [.field (.below [ownedByCakeLine, serdeSkipLine, cfgTestLine] ["pub id: i32,".toList])] ∧
    FieldUnit.SameOutcome
      (.below [ownedByCakeLine, serdeSkipLine, cfgTestLine] ["pub id: i32,".toList])
      (.below [ownedByCakeLine, serdeCfgLine] ["pub id: i32,".toList]) := by
  have h := @regrouping_iff [ownedByCakeLine, serdeSkipLine, cfgTestLine]
    [ownedByCakeLine, serdeCfgLine]
    (by simp [ownedByCakeLine, serdeSkipLine, cfgTestLine, AttributeBlock.onLine]) rfl
    "pub id: i32,".toList [] ⟨["pub id: i32,".toList], []⟩ (by decide +kernel) (by decide +kernel)
  obtain ⟨hread, houtcome, -⟩ := h
  have hown := hread _ List.mem_cons_self
  rw [segments_nil] at hown
  exact ⟨hown, houtcome.2 (Or.inr (by decide +kernel))⟩

/-- On two lines `has_many` drops the field; on one line, behind another attribute, it is not seen. -/
theorem regrouping_has_many_behind_serde :
    segments ["#[serde(skip)]".toList, "#[sea_orm(has_many)]".toList, "pub a: i32,".toList] =
      [.field ⟨[.block ["#[serde(skip)]".toList], .block ["#[sea_orm(has_many)]".toList]],
        ["pub a: i32,".toList], false⟩] ∧
    segments ["#[serde(skip)] #[sea_orm(has_many)]".toList, "pub a: i32,".toList] =
      [.field ⟨[.block ["#[serde(skip)] #[sea_orm(has_many)]".toList]],
        ["pub a: i32,".toList], false⟩] ∧
    FieldUnit.action ⟨[.block ["#[serde(skip)]".toList], .block ["#[sea_orm(has_many)]".toList]],
      ["pub a: i32,".toList], false⟩ = .drop ∧
    FieldUnit.action ⟨[.block ["#[serde(skip)] #[sea_orm(has_many)]".toList]],
      ["pub a: i32,".toList], false⟩ = .keep := by
  refine ⟨?_, ?_, ?_, ?_⟩ <;> decide +kernel

end Body

end ModelMend
