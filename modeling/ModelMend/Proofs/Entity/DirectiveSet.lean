import ModelMend.Proofs.Entity.Items
import ModelMend.Proofs.Token.Apart

/-!
# Directives as a set

The directives of an attribute list are those that its items name, whatever the order of the items is and
however the list is laid out (`directives_of_items`). So two lists of directives in two attributes
say together what one list of all of them says.
-/

namespace ModelMend

open Grammar

/-! ## What an item says -/

namespace Item

/-- The path of the item is this single word. -/
def isNamed (item : Item) (name : String) : Bool :=
  item.path.name? = some name.toList

/-- The value of the item is `false`. -/
def isDenied (item : Item) : Bool :=
  match item.argument with
  | .value (.word value) _ => value = "false".toList
  | _ => false

/-- The item is `auto_increment = false`. -/
def stopsCounting (item : Item) : Bool :=
  item.isNamed "auto_increment" && item.isDenied

/-- The directives of the item by itself. -/
def directives (item : Item) : Directives where
  primaryKey := item.isNamed "primary_key"
  autoIncrementDisabled := item.stopsCounting
  hasMany := item.isNamed "has_many"
  hasOne := item.isNamed "has_one"
  selfRef := item.isNamed "self_ref"
  belongsTo := item.isNamed "belongs_to"

variable {item : Item} {tokens : List Token}

theorem Written.itemName? (h : item.Written tokens) : Directives.itemName? tokens = item.path.name? := by
  obtain @⟨path, argument, tail, hwritten⟩ := h
  cases path with
  | keyword => cases hwritten <;> rfl
  | words absolute first more valid =>
    cases absolute with
    | true => cases more <;> rfl
    | false =>
      cases more with
      | nil => cases hwritten <;> rfl
      | cons word more => rfl

/-- What the item sets the flag to that was not set. -/
theorem Written.itemFlag? (h : item.Written tokens) {name : List Char} (hname : item.path.name? = some name) :
    ((Directives.itemFlag? tokens).map (!·)).getD false = item.isDenied := by
  obtain @⟨path, argument, tail, hwritten⟩ := h
  obtain ⟨word, hpath⟩ : ∃ word, path.tokens = [.word word] := by
    cases path with
    | keyword => exact ⟨_, rfl⟩
    | words absolute first more valid =>
      cases absolute <;> cases more <;> first | exact ⟨first, rfl⟩ | cases hname
  rw [hpath]
  cases hwritten with
  | nothing => rfl
  | group => rfl
  | @value literal valid joint =>
    cases literal with
    | word value =>
      have hvalue : value = "true".toList ∨ value = "false".toList := by
        simpa [TokenClass.has] using valid
      rcases hvalue with rfl | rfl <;> rfl
    | lifetime name => cases valid
    | punct c joint => cases valid
    | literal kind text => rfl
    | group delimiter content => cases valid

end Item

namespace Directives

/-- What one or the other says. -/
def or (first second : Directives) : Directives where
  primaryKey := first.primaryKey || second.primaryKey
  autoIncrementDisabled := first.autoIncrementDisabled || second.autoIncrementDisabled
  hasMany := first.hasMany || second.hasMany
  hasOne := first.hasOne || second.hasOne
  selfRef := first.selfRef || second.selfRef
  belongsTo := first.belongsTo || second.belongsTo

/-- The directives that the items name. -/
def named (items : List Item) : Directives where
  primaryKey := items.any (·.isNamed "primary_key")
  autoIncrementDisabled := items.any (·.stopsCounting)
  hasMany := items.any (·.isNamed "has_many")
  hasOne := items.any (·.isNamed "has_one")
  selfRef := items.any (·.isNamed "self_ref")
  belongsTo := items.any (·.isNamed "belongs_to")

theorem note_of_written {item : Item} {tokens : List Token} (h : item.Written tokens) {directives : Directives}
    (hcount : item.isNamed "auto_increment" = true → directives.autoIncrementDisabled = false) :
    directives.note tokens = directives.or item.directives := by
  obtain ⟨key, counting, many, one, self, owner⟩ := directives
  unfold note
  rw [h.itemName?]
  cases hname : item.path.name? with
  | none => simp [or, Item.directives, Item.stopsCounting, Item.isNamed, hname]
  | some name =>
    dsimp only
    by_cases hcounting : name = "auto_increment".toList
    · -- the flag becomes the negation of the value, and it was not set before
      have hclear : counting = false := hcount (by rw [Item.isNamed, hname, hcounting, decide_eq_true rfl])
      have hflag := h.itemFlag? hname
      subst hcounting
      cases hread : itemFlag? tokens with
      | none =>
        rw [hread] at hflag
        change false = item.isDenied at hflag
        simp [or, Item.directives, Item.stopsCounting, Item.isNamed, hname, ← hflag]
      | some enabled =>
        rw [hread] at hflag
        change (!enabled) = item.isDenied at hflag
        simp [or, Item.directives, Item.stopsCounting, Item.isNamed, hname, ← hflag, hclear]
    · -- the name is that of one flag at most
      rw [if_neg hcounting]
      split_ifs <;> simp_all [or, Item.directives, Item.stopsCounting, Item.isNamed]

/-! ## Lists of items -/

@[simp] theorem named_nil : named [] = {} := rfl

theorem named_cons (item : Item) (items : List Item) :
    named (item :: items) = item.directives.or (named items) := rfl

theorem or_assoc (first second third : Directives) :
    (first.or second).or third = first.or (second.or third) := by
  simp only [or, Bool.or_assoc]

@[simp] theorem or_empty (directives : Directives) : directives.or {} = directives := by
  simp only [or, Bool.or_false]

@[simp] theorem empty_or (directives : Directives) : Directives.or {} directives = directives := by
  simp only [or, Bool.false_or]

theorem named_append (front back : List Item) : named (front ++ back) = (named front).or (named back) := by
  induction front with
  | nil => rw [List.nil_append, named_nil, empty_or]
  | cons item front ih => rw [List.cons_append, named_cons, named_cons, ih, or_assoc]

/-- The order of the items does not matter. -/
theorem named_perm {items other : List Item} (h : items.Perm other) : named items = named other := by
  simp only [named, h.any_eq]

/-- Items are noted one after the other, and each adds its directives, as long as the value of the counter
is given once. -/
theorem foldl_note {items : List Item} {parts : List (List Token)} (h : List.Forall₂ Item.Written items parts)
    (honce : items.countP (·.isNamed "auto_increment") ≤ 1) (directives : Directives)
    (hclear : directives.autoIncrementDisabled = true → ∀ item ∈ items, item.isNamed "auto_increment" = false) :
    parts.foldl note directives = directives.or (named items) := by
  induction h generalizing directives with
  | nil => rw [List.foldl_nil, named_nil, or_empty]
  | @cons item tokens items parts written others ih =>
    have hitem : directives.note tokens = directives.or item.directives := by
      apply note_of_written written
      intro hcounts
      rw [Bool.eq_false_iff]
      intro hset
      rw [hclear hset item List.mem_cons_self] at hcounts
      cases hcounts
    rw [List.countP_cons] at honce
    rw [List.foldl_cons, hitem, named_cons, ← or_assoc]
    apply ih (by omega)
    intro hset other hother
    rcases Bool.or_eq_true_iff.1 hset with hset | hstops
    · exact hclear hset other (List.mem_cons_of_mem item hother)
    · have hcounts : item.isNamed "auto_increment" = true := (Bool.and_eq_true_iff.1 hstops).1
      rw [if_pos hcounts] at honce
      have hnone : items.countP (·.isNamed "auto_increment") = 0 := by omega
      exact Bool.eq_false_iff.2 (List.countP_eq_zero.1 hnone other hother)

theorem ofItems_of_written {items : List Item} {parts : List (List Token)}
    (h : List.Forall₂ Item.Written items parts)
    (honce : items.countP (·.isNamed "auto_increment") ≤ 1) : ofItems parts = named items := by
  have hnote := foldl_note h honce {} nofun
  rw [empty_or] at hnote
  exact hnote

end Directives

/-! ## Attributes with items -/

/-- The text is an attribute with these items, laid out in any way. -/
def ListsItems (items : List Item) (text : List Char) : Prop :=
  ∃ arguments, ItemsWritten items arguments ∧
    Lexeme.Written (Token.lexemesAll (Attribute.call "sea_orm".toList arguments rfl).tokens) text

theorem Directives.parse_of_listsItems {items : List Item} {text : List Char} (h : ListsItems items text)
    (honce : items.countP (·.isNamed "auto_increment") ≤ 1) :
    Directives.parse text = some (named items) := by
  obtain ⟨arguments, hitems, htext⟩ := h
  obtain ⟨parts, hread, hparts⟩ := items?_of_written hitems (Nat.le_refl _)
  have hvalid := Attribute.areAttributes_tokens [Attribute.call "sea_orm".toList arguments rfl]
  rw [List.flatMap_singleton] at hvalid
  have hfirst : ofTokens? (Attribute.call "sea_orm".toList arguments rfl).tokens =
      (items? arguments.length arguments).map ofItems := rfl
  rw [parse, Token.ofText?_of_written htext]
  dsimp only
  rw [hvalid, if_pos rfl, hfirst, hread, Option.map_some, ofItems_of_written hparts honce]

/-- **Directives are read as a set.** An attribute with items, laid out in any way, is read, and it has
the directives that its items name. So it does not matter in which order the items stand and how they
are laid out; and two attributes that share the items out among them say together what one says. -/
theorem directives_of_items {items : List Item} {text : List Char} (h : ListsItems items text)
    (honce : items.countP (·.isNamed "auto_increment") ≤ 1) :
    Directives.parse text = some (Directives.named items) ∧
      (∀ other layout, other.Perm items → ListsItems other layout →
        Directives.parse layout = Directives.parse text) ∧
      ∀ front back first second, (front ++ back).Perm items → ListsItems front first →
        ListsItems back second → ∃ one two, Directives.parse first = some one ∧
          Directives.parse second = some two ∧ Directives.parse text = some (one.or two) := by
  have hperm {other : List Item} (hother : other.Perm items) :
      other.countP (·.isNamed "auto_increment") ≤ 1 := by
    rw [hother.countP_eq]
    exact honce
  have htext := Directives.parse_of_listsItems h honce
  refine ⟨htext, ?_, ?_⟩
  · intro other layout hother hlayout
    rw [htext, Directives.parse_of_listsItems hlayout (hperm hother), Directives.named_perm hother]
  · intro front back first second hsplit hfirst hsecond
    have hboth := hperm hsplit
    rw [List.countP_append] at hboth
    refine ⟨Directives.named front, Directives.named back,
      Directives.parse_of_listsItems hfirst (by omega), Directives.parse_of_listsItems hsecond (by omega), ?_⟩
    rw [htext, ← Directives.named_append, Directives.named_perm hsplit]

theorem directives_of_items_hasOne :
    let plain (first : List Char) (more : List (List Char))
        (h : (first :: more).all Token.isPlainName = true) : ItemPath :=
      .words false first more fun word hword => Or.inl (List.all_eq_true.1 h word hword)
    let items : List Item :=
      [⟨plain "a".toList ["has_one".toList] rfl, .group .round [.word "b".toList]⟩,
       ⟨plain "auto_increment".toList [] rfl, .value (.word "false".toList) rfl⟩]
    let text := "#[sea_orm(a::has_one(b), // c\n auto_increment = false,)]".toList
    ListsItems items text ∧ items.countP (·.isNamed "auto_increment") ≤ 1 ∧
      Directives.parse text = some (Directives.named items) := by
  intro plain items text
  have hitems : ItemsWritten items _ := .more ⟨.group rfl⟩ false (.lastComma ⟨.value false⟩ false)
  have htext : ListsItems items text := by
    refine ⟨_, hitems, ?_⟩
    have hround : ∀ rest, Apart ('(' :: rest) := .cons rfl (by decide)
    have hcolon : ∀ rest, Apart (':' :: rest) := .cons rfl (by decide)
    have hblank : ∀ rest, Apart (' ' :: rest) := .cons rfl (by decide)
    have hcomma : ∀ rest, Apart (',' :: rest) := .cons rfl (by decide)
    have hclosing : ∀ rest, Apart (')' :: rest) := .cons rfl (by decide)
    have hsign {c : Char} (hc : c ∈ ['#', ':', ',', '=']) {joint : Bool} {text : List Char}
        {lexemes : List Lexeme} (hjoint : Lexeme.startsPunct text = joint)
        (more : Lexeme.Written lexemes text) :
        Lexeme.Written (.token (.punct c joint) :: lexemes) (c :: text) := by
      have hsigns : ['#', ':', ',', '='] ⊆ Lexeme.punctuation := by decide
      refine .sign (hsigns hc) ?_ ?_ hjoint more <;> rintro rfl <;> simp at hc
    refine hsign (by simp) rfl (.opens .square ?_)
    refine @Lexeme.Written.apart "sea_orm".toList _ _ _ rfl nofun (hround _) (.opens .round ?_)
    refine @Lexeme.Written.apart "a".toList _ _ _ rfl nofun (hcolon _) ?_
    refine hsign (by simp) rfl ?_
    refine hsign (by simp) rfl ?_
    refine @Lexeme.Written.apart "has_one".toList _ _ _ rfl nofun (hround _) (.opens .round ?_)
    refine @Lexeme.Written.apart "b".toList _ _ _ rfl nofun (hclosing _) (.closes .round ?_)
    refine hsign (by simp) rfl (.blank rfl ?_)
    refine @Lexeme.Written.comment " c".toList _ _ (by decide) ⟨nofun, nofun⟩ (Or.inr rfl) ?_
    refine .blank rfl (.blank rfl ?_)
    refine @Lexeme.Written.apart "auto_increment".toList _ _ _ rfl nofun (hblank _) (.blank rfl ?_)
    refine hsign (by simp) rfl (.blank rfl ?_)
    refine @Lexeme.Written.apart "false".toList _ _ _ rfl nofun (hcomma _) ?_
    refine hsign (by simp) rfl (.closes .round ?_)
    exact .closes .square .done
  have honce : items.countP (·.isNamed "auto_increment") ≤ 1 := by decide
  exact ⟨htext, honce, (directives_of_items htext honce).1⟩

end ModelMend
