import ModelMend.Proofs.Declaration.Phrases
import ModelMend.Proofs.Entity.WellFormed

/-!
# Attributes and the blocks they are written in

An attribute block holds one attribute or several. All of them have to be valid, and the block has the
directives of the first (`AttributeBlock.directives?_item`). Attributes that are valid each by itself
are valid together, since the fuel for a block is enough for each of its attributes and for the way
from one to the next (`Attribute.fuelFor_content_le`).

What is left of an attribute by itself, where its field stays, is the attribute or, for a `belongs_to`,
its key flags: never another `belongs_to` (`Attribute.not_isOwner_of_mem_kept`).
-/

namespace ModelMend

open Text Lexeme Grammar Rule
open Phrase (phrase sign key wordPath pathWord)

/-! ## Attributes and their directives -/

/-- The key flags as an attribute of their own, or nothing. -/
def Directives.keyFlagTokens (directives : Directives) : List Token :=
  let counting := [.word "auto_increment".toList, .punct '=' false, .word "false".toList]
  let withFlags (flags : List Token) :=
    [.punct '#' false, .group .square [.word "sea_orm".toList, .group .round flags]]
  match directives.primaryKey, directives.autoIncrementDisabled with
  | true, true => withFlags (.word "primary_key".toList :: .punct ',' false :: counting)
  | true, false => withFlags [.word "primary_key".toList]
  | false, true => withFlags counting
  | false, false => []

/-- An outer attribute: what stands between its brackets is one item. -/
structure Attribute where
  content : List Token
  valid : Takes table (fuelFor content) (phrase .metaItem) content (some [])

namespace Attribute

def tokens (attr : Attribute) : List Token :=
  [.punct '#' false, .group .square attr.content]

/-- The directives of the attribute by itself. -/
def directives? (attr : Attribute) : Option Directives :=
  Directives.ofTokens? attr.tokens

def declaresRelation (attr : Attribute) : Bool :=
  attr.directives?.any Directives.declaresRelation

def belongsTo (attr : Attribute) : Bool :=
  attr.directives?.any Directives.belongsTo

def hasKeyFlags (attr : Attribute) : Bool :=
  attr.directives?.any fun directives =>
    directives.primaryKey || directives.autoIncrementDisabled

/-- What is left of the attribute by itself where the field stays. -/
def kept (attr : Attribute) : List Token :=
  match attr.directives?.filter Directives.belongsTo with
  | some directives => directives.keyFlagTokens
  | none => attr.tokens

end Attribute

/-- Lines that the reader takes as one attribute block, and the attributes written on them. -/
structure AttributeBlock where
  lines : List Line
  first : Attribute
  others : List Attribute
  closed : (Leading.block lines).WellFormed
  written : Token.ofText? (joinLines lines) = some ((first :: others).flatMap Attribute.tokens)

namespace AttributeBlock

def attributes (block : AttributeBlock) : List Attribute :=
  block.first :: block.others

def item (block : AttributeBlock) : Leading :=
  .block block.lines

/-- The attributes behind the first are of its kind and leave no key flags. -/
def Uniform (block : AttributeBlock) : Prop :=
  ∀ other ∈ block.others, other.belongsTo = block.first.belongsTo ∧
    (other.belongsTo = true → other.hasKeyFlags = false)

instance (block : AttributeBlock) : Decidable block.Uniform :=
  inferInstanceAs (Decidable (∀ other ∈ block.others, _ ∧ _))

/-- What is left of the block where the field stays: its first attribute decides. -/
def kept (block : AttributeBlock) : List Token :=
  if block.first.belongsTo then block.first.kept else block.attributes.flatMap Attribute.tokens

end AttributeBlock

/-! ## The text of key flags -/

namespace Lexeme

theorem afterSpace?_of_isBlank {c : Char} (h : isBlank c = true) (rest : List Char) :
    afterSpace? (c :: rest) = some rest := by
  have hslash : c ≠ '/' := by
    rintro rfl
    exact absurd h (by decide)
  simp [afterSpace?, List.isPrefixOf, beq_false_of_ne hslash.symm, isSpace, h]

theorem cut_blanks {blanks : List Char} (h : ∀ c ∈ blanks, isBlank c = true) (fuel : Nat)
    (text : List Char) : cut (blanks.length + fuel) (blanks ++ text) = cut fuel text := by
  induction blanks with
  | nil => rw [List.length_nil, Nat.zero_add, List.nil_append]
  | cons c blanks ih =>
    obtain ⟨hc, hmore⟩ := List.forall_mem_cons.1 h
    simp only [List.length_cons, Nat.succ_add, List.cons_append, cut, afterSpace?_of_isBlank hc]
    exact ih hmore

end Lexeme

/-- White space in front of a text changes none of its tokens. -/
theorem Token.ofText?_blanks {blanks : List Char} (h : ∀ c ∈ blanks, isBlank c = true)
    {text : List Char} (hmark : text.head? ≠ some '\ufeff') :
    Token.ofText? (blanks ++ text) = Token.ofText? text := by
  have nomark {text : List Char} (hmark : text.head? ≠ some '\ufeff') :
      ['\ufeff'].isPrefixOf text = false := by
    cases text with
    | nil => rfl
    | cons c rest =>
      have hc : '\ufeff' ≠ c := by
        rintro rfl
        exact hmark rfl
      simp [List.isPrefixOf, hc]
  have hblanks : (blanks ++ text).head? ≠ some '\ufeff' := by
    cases blanks with
    | nil => exact hmark
    | cons c blanks =>
      have hc := h c List.mem_cons_self
      rintro ⟨⟩
      exact absurd hc (by decide)
  simp only [ofText?, nomark hmark, nomark hblanks, Bool.false_eq_true, ↓reduceIte,
    List.length_append, cut_blanks h]

theorem Directives.ofText?_keyFlagsAttribute {blanks tail : List Char}
    (hblanks : ∀ c ∈ blanks, isBlank c = true) (htail : tail = [] ∨ tail = ['\r'])
    (directives : Directives) :
    Token.ofText? (joinLines ((directives.keyFlagsAttribute blanks).map (· ++ tail)).toList) =
      some directives.keyFlagTokens := by
  obtain ⟨primaryKey, autoIncrementDisabled, hasMany, hasOne, selfRef, belongsTo⟩ := directives
  have hline {flags : List Char} {tokens : List Token}
      (hplain : Token.ofText? ("#[sea_orm(".toList ++ flags ++ ")]".toList) = some tokens)
      (hreturn : Token.ofText? ("#[sea_orm(".toList ++ flags ++ ")]".toList ++ ['\r']) = some tokens) :
      Token.ofText? (blanks ++ "#[sea_orm(".toList ++ flags ++ ")]".toList ++ tail) =
        some tokens := by
    rw [List.append_assoc, List.append_assoc, List.append_assoc,
      Token.ofText?_blanks hblanks (by simp), ← List.append_assoc, ← List.append_assoc]
    rcases htail with rfl | rfl
    · rw [List.append_nil]
      exact hplain
    · exact hreturn
  cases primaryKey <;> cases autoIncrementDisabled
  · rfl
  · exact hline rfl rfl
  · exact hline rfl rfl
  · exact hline rfl rfl

theorem Directives.ofText?_reducedBlock {lines : List Line} (h : lines ≠ [])
    (directives : Directives) :
    Token.ofText? (joinLines (reducedBlock lines directives).toList) =
      some directives.keyFlagTokens := by
  obtain ⟨first, more, rfl⟩ := List.exists_cons_of_ne_nil h
  have hblanks : ∀ c ∈ indent first, isBlank c = true := fun _ => isBlank_of_mem_indent
  simp only [reducedBlock, List.head?_cons]
  split
  · exact ofText?_keyFlagsAttribute hblanks (Or.inr rfl) directives
  · have hplain := ofText?_keyFlagsAttribute hblanks (Or.inl rfl) directives
    simpa using hplain

/-! ## Reading attributes -/

namespace Attribute

theorem weightAll_tokens_cons (first : Attribute) (attributes : List Attribute) :
    Token.weightAll ((first :: attributes).flatMap tokens) =
      Token.weightAll first.content + 2 + Token.weightAll (attributes.flatMap tokens) := by
  simp only [List.flatMap_cons, tokens, List.cons_append, List.nil_append, Token.weightAll,
    Token.weight]
  omega

theorem length_le_weightAll_tokens (attributes : List Attribute) :
    2 * attributes.length ≤ Token.weightAll (attributes.flatMap tokens) := by
  induction attributes with
  | nil => exact Nat.zero_le _
  | cons first attributes ih =>
    rw [weightAll_tokens_cons, List.length_cons]
    omega

/-- The fuel for some attributes suffices for each of them and for going from one to the next. -/
theorem fuelFor_content_le {attributes : List Attribute} {attr : Attribute}
    (h : attr ∈ attributes) :
    fuelFor attr.content + attributes.length + 5 ≤ fuelFor (attributes.flatMap tokens) := by
  have hweight : Token.weightAll attr.content + 2 * attributes.length ≤
      Token.weightAll (attributes.flatMap tokens) := by
    induction attributes with
    | nil => cases h
    | cons first attributes ih =>
      rw [weightAll_tokens_cons, List.length_cons]
      rcases List.mem_cons.1 h with rfl | hmem
      · have := length_le_weightAll_tokens attributes
        omega
      · have := ih hmem
        omega
  have hlength := List.length_pos_of_mem h
  simp only [fuelFor]
  omega

/-- Attributes one after the other are taken with the fuel that each needs, and a little more. -/
theorem takes_attributes {attributes : List Attribute} {n : Nat}
    (h : ∀ attr ∈ attributes, fuelFor attr.content + 2 ≤ n) :
    Takes table (n + attributes.length + 2) attributesRule (attributes.flatMap tokens)
      (some []) := by
  induction attributes with
  | nil => exact .loop_stop (.ahead rfl rfl (Nat.le_add_left _ _))
  | cons first attributes ih =>
    obtain ⟨hfirst, hmore⟩ := List.forall_mem_cons.1 h
    have hsign (m : Nat) : Takes table (m + 1) (sign "#") ((first :: attributes).flatMap tokens)
        (some (.group .square first.content :: attributes.flatMap tokens)) :=
      .ahead rfl rfl (Nat.le_add_left _ _)
    have hbody : Takes table n (sign "#" ++ within .square (phrase .metaItem))
        ((first :: attributes).flatMap tokens) (some (attributes.flatMap tokens)) :=
      ((hsign _).seq (Takes.within first.valid)).mono hfirst
    exact .loop_more (hsign _) (hbody.mono (by omega)) (ih hmore)

/-- Attributes that are valid each by itself are valid together. -/
theorem areAttributes_tokens (attributes : List Attribute) :
    areAttributes (attributes.flatMap tokens) = true := by
  have hlength := length_le_weightAll_tokens attributes
  have hfuel : attributes.length + 3 ≤ fuelFor (attributes.flatMap tokens) := by
    rw [fuelFor]
    omega
  have hitems : ∀ attr ∈ attributes, fuelFor attr.content + 2 ≤
      fuelFor (attributes.flatMap tokens) - (attributes.length + 3) := by
    intro attr hattr
    have := fuelFor_content_le hattr
    omega
  have htakes : Takes table (fuelFor (attributes.flatMap tokens)) (phrase .attributes)
      (attributes.flatMap tokens) (some []) :=
    Takes.mono (Takes.named (takes_attributes hitems)) (by omega)
  rw [areAttributes, fits, accepts, rest?, htakes _ (Nat.le_refl _)]
  rfl

end Attribute

theorem takes_metaItem_call {name : List Char} (hname : Token.isPlainName name = true)
    (arguments : List Token) :
    Takes table 16 (phrase .metaItem) [.word name, .group .round arguments] (some []) := by
  have hunsafe : (key "unsafe").front? [.word name, .group .round arguments] = none :=
    front?_key_none _ (beq_eq_false_of_isPlainName hname (by decide))
  have hword : (opt (sign "::") (sign "::") ++ choose pathWord any never).front?
      [.word name, .group .round arguments] = some [.group .round arguments] := by
    rw [front?_append]
    change (choose pathWord any never).front? _ = _
    rw [front?, PathWord.front?_pathWord (Or.inl hname)]
    rfl
  have hpath : Takes table 13 (wordPath pathWord) [.word name, .group .round arguments]
      (some [.group .round arguments]) :=
    .seq (.ahead hword rfl (by decide)) (.loop_stop (.ahead rfl rfl (by decide)))
  exact .named (.seq (.choose_no (.ahead hunsafe rfl (by decide)) hpath)
    (.choose_yes (.ahead rfl rfl (by decide)) (.ahead rfl rfl (by decide))))

/-- The first of some attributes counts. -/
theorem Directives.ofTokens?_append (attr : Attribute) (more : List Token) :
    ofTokens? (attr.tokens ++ more) = ofTokens? attr.tokens := by
  obtain ⟨content, _⟩ := attr
  simp only [Attribute.tokens, List.cons_append, List.nil_append]
  unfold ofTokens?
  split
  · next heq =>
    cases heq
    rfl
  · next hother =>
    split
    · next heq =>
      cases heq
      exact absurd rfl (hother _ _ _ _ _)
    · rfl

def Attribute.call (name : List Char) (arguments : List Token)
    (hname : Token.isPlainName name = true) : Attribute where
  content := [.word name, .group .round arguments]
  valid := (takes_metaItem_call hname arguments).mono (by simp only [fuelFor]; omega)

namespace AttributeBlock

/-- A block on one line. -/
def onLine (line : Line) (first : Attribute) (others : List Attribute)
    (hkind : LineKind.of line = .attributeStart)
    (hcloses : (Scanner.forAttribute.feed line).2.isBalanced = true)
    (hbehind : LineKind.of (line.drop ((closingPlace [] line).getD line.length)) ≠ .field)
    (hwritten : Token.ofText? line = some ((first :: others).flatMap Attribute.tokens)) :
    AttributeBlock where
  lines := [line]
  first := first
  others := others
  closed := by
    refine @Leading.WellFormed.block [] line ⟨?_, staysOpen_nil _, hcloses⟩ hbehind
    rintro _ ⟨⟩
    exact hkind
  written := hwritten

variable (block : AttributeBlock)

/-- A block has the directives of its first attribute. -/
theorem directives?_item : block.item.directives? = block.first.directives? := by
  have hattributes := Attribute.areAttributes_tokens (block.first :: block.others)
  simp only [item, Leading.directives?, Directives.parse, block.written, hattributes, ↓reduceIte]
  exact Directives.ofTokens?_append block.first _

theorem lines_ne_nil : block.lines ≠ [] := by
  have hclosed := block.closed
  generalize block.lines = lines at hclosed
  cases hclosed
  simp

end AttributeBlock

/-! ## What is left of an attribute -/

namespace Attribute

theorem kept_of_belongsTo {attr : Attribute} (h : attr.belongsTo = true) :
    ∃ directives, attr.directives? = some directives ∧ directives.belongsTo = true ∧
      attr.kept = directives.keyFlagTokens := by
  obtain ⟨directives, hdirectives, hbelongs⟩ := (Option.any_eq_true _ _).1 h
  refine ⟨directives, hdirectives, hbelongs, ?_⟩
  rw [kept, hdirectives, Option.filter, if_pos hbelongs]

theorem kept_of_not_belongsTo {attr : Attribute} (h : attr.belongsTo = false) :
    attr.kept = attr.tokens := by
  have hfilter : attr.directives?.filter Directives.belongsTo = none := by
    rw [Option.filter_eq_none_iff]
    intro directives hdirectives
    rw [belongsTo, hdirectives, Option.any_some] at h
    simp [h]
  rw [kept, hfilter]

theorem kept_eq_nil_iff (attr : Attribute) :
    attr.kept = [] ↔ attr.belongsTo = true ∧ attr.hasKeyFlags = false := by
  cases hbelongs : attr.belongsTo with
  | false => simp [kept_of_not_belongsTo hbelongs, tokens]
  | true =>
    obtain ⟨directives, hdirectives, -, hkept⟩ := kept_of_belongsTo hbelongs
    obtain ⟨primaryKey, autoIncrementDisabled, _⟩ := directives
    rw [hkept, hasKeyFlags, hdirectives]
    cases primaryKey <;> cases autoIncrementDisabled <;> simp [Directives.keyFlagTokens]

/-- The token is the group of a `belongs_to` attribute. -/
def IsOwner (token : Token) : Prop :=
  ∃ attr : Attribute, attr.belongsTo = true ∧ token = .group .square attr.content

/-- No `belongs_to` is among what is left of an attribute by itself. -/
theorem not_isOwner_of_mem_kept {attr : Attribute} {token : Token} (h : token ∈ attr.kept) :
    ¬IsOwner token := by
  rintro ⟨owner, howner, rfl⟩
  cases hbelongs : attr.belongsTo with
  | false =>
    rw [kept_of_not_belongsTo hbelongs] at h
    -- the directives are read from the content alone
    have hcontent : owner.content = attr.content := by simpa [tokens] using h
    rw [belongsTo, directives?, tokens, hcontent] at howner
    rw [belongsTo, directives?, tokens, howner] at hbelongs
    cases hbelongs
  | true =>
    obtain ⟨directives, -, -, hkept⟩ := kept_of_belongsTo hbelongs
    have hflags : (Directives.ofTokens? owner.tokens).any Directives.belongsTo = false := by
      obtain ⟨primaryKey, autoIncrementDisabled, _⟩ := directives
      rw [hkept] at h
      cases primaryKey <;> cases autoIncrementDisabled <;>
        simp only [Directives.keyFlagTokens, List.mem_cons, List.not_mem_nil, reduceCtorEq,
          Token.group.injEq, true_and, or_false, false_or] at h <;>
        rw [tokens, h] <;> decide +kernel
    exact absurd howner (by rw [belongsTo, directives?, hflags]; decide)

end Attribute

end ModelMend
