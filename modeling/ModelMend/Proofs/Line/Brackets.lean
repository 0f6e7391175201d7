import ModelMend.Proofs.Declaration.Reading
import ModelMend.Proofs.Line.Indentation

/-!
# Counting brackets

A scanner of fields ends a field at the first comma outside all brackets, and it counts the angles `<`
and `>` as brackets wherever they stand, those of an arrow `->` left out. Its count does not go below
zero. So the brackets that are open behind a text are as many as some end of the text opens and does not
close, at most (`lt_depthBehind_iff`), and a scanner goes through a type to the comma behind it exactly if
no end of the type opens more brackets than it closes, and in front of each comma in it some stretch does
(`BracketsClose`, `Scanner.Cursor.topComma_walk_iff`).

That is so where the angles of the type are brackets (`Paired.bracketsClose`), but an angle may be a
shift or a comparison as well.
-/

namespace ModelMend

open Text Scanner Scanner.Cursor

/-! ## Depth and excess -/

/-- What a character adds to the number of open brackets. -/
def bracketStep (c : Char) : Int :=
  if ['<', '(', '[', '\x7b'].contains c then 1
  else if ['>', ')', ']', '\x7d'].contains c then -1
  else 0

/-- By how many the brackets that open in the text outnumber those that close. -/
def bracketExcess : List Char → Int
  | [] => 0
  | c :: text => bracketStep c + bracketExcess text

/-- The number of open brackets behind a text. -/
def depthBehind (depth : Nat) (text : List Char) : Nat :=
  text.foldl depthAfter depth

@[simp] theorem bracketExcess_nil : bracketExcess [] = 0 := rfl

@[simp] theorem bracketExcess_cons (c : Char) (text : List Char) :
    bracketExcess (c :: text) = bracketStep c + bracketExcess text := rfl

@[simp] theorem depthBehind_nil (depth : Nat) : depthBehind depth [] = depth := rfl

@[simp] theorem depthBehind_cons (depth : Nat) (c : Char) (text : List Char) :
    depthBehind depth (c :: text) = depthBehind (depthAfter depth c) text := rfl

@[simp] theorem depthBehind_append (depth : Nat) (front back : List Char) :
    depthBehind depth (front ++ back) = depthBehind (depthBehind depth front) back :=
  List.foldl_append

/-- A closing bracket without a partner is passed over. -/
theorem depthAfter_eq (depth : Nat) (c : Char) :
    depthAfter depth c = ((depth : Int) + bracketStep c).toNat := by
  unfold depthAfter bracketStep
  split
  · omega
  · split <;> omega

/-- **More than `n` brackets are open behind a text** exactly if the whole of it opens so many on top of
those before, or some end of it opens so many by itself. -/
theorem lt_depthBehind_iff (n depth : Nat) (text : List Char) :
    n < depthBehind depth text ↔ (n : Int) < depth + bracketExcess text ∨
      ∃ back, back <:+ text ∧ (n : Int) < bracketExcess back := by
  induction text generalizing depth with
  | nil =>
    constructor
    · intro h
      exact Or.inl (by simpa using h)
    · rintro (h | ⟨back, hback, h⟩)
      · simpa using h
      · rw [List.suffix_nil.1 hback, bracketExcess_nil] at h
        omega
  | cons c text ih =>
    rw [depthBehind_cons, ih, depthAfter_eq, bracketExcess_cons]
    constructor
    · rintro (h | ⟨back, hback, h⟩)
      · by_cases hclosed : (depth : Int) + bracketStep c < 0
        · -- the count begins anew behind this character
          refine Or.inr ⟨text, List.suffix_cons c text, ?_⟩
          omega
        · exact Or.inl (by omega)
      · exact Or.inr ⟨back, hback.trans (List.suffix_cons c text), h⟩
    · rintro (h | ⟨back, hback, h⟩)
      · exact Or.inl (by omega)
      · rcases List.suffix_cons_iff.1 hback with rfl | hback
        · rw [bracketExcess_cons] at h
          exact Or.inl (by omega)
        · exact Or.inr ⟨back, hback, h⟩

/-- A bracket is open behind a text exactly if some end of it opens more than it closes. -/
theorem depthBehind_pos_iff (text : List Char) :
    0 < depthBehind 0 text ↔ ∃ back, back <:+ text ∧ 0 < bracketExcess back := by
  rw [lt_depthBehind_iff]
  constructor
  · rintro (h | h)
    · exact ⟨text, List.suffix_refl text, by simpa using h⟩
    · exact h
  · exact Or.inr

/-- Some bracket is open at every comma of the text. -/
def CommasInside (depth : Nat) (text : List Char) : Prop :=
  ∀ front back, front ++ ',' :: back = text → 0 < depthBehind depth front

theorem commasInside_nil (depth : Nat) : CommasInside depth [] := by
  intro front back h
  simp at h

theorem commasInside_cons (depth : Nat) (c : Char) (text : List Char) :
    CommasInside depth (c :: text) ↔ (c = ',' → 0 < depth) ∧ CommasInside (depthAfter depth c) text := by
  constructor
  · intro h
    refine ⟨?_, fun front back heq => h (c :: front) back (by rw [List.cons_append, heq])⟩
    rintro rfl
    exact h [] text rfl
  · rintro ⟨hfirst, hmore⟩ front back heq
    rcases List.append_eq_cons_iff.1 heq with ⟨rfl, hcons⟩ | ⟨front, rfl, hrest⟩
    · exact hfirst (List.cons.inj hcons).1.symm
    · exact hmore front back hrest.symm

theorem commasInside_append (depth : Nat) (front back : List Char) :
    CommasInside depth (front ++ back) ↔
      CommasInside depth front ∧ CommasInside (depthBehind depth front) back := by
  induction front generalizing depth with
  | nil => simp [commasInside_nil]
  | cons c front ih => rw [List.cons_append, commasInside_cons, commasInside_cons, ih, and_assoc,
      depthBehind_cons]

instance (depth : Nat) : (text : List Char) → Decidable (CommasInside depth text)
  | [] => .isTrue (commasInside_nil depth)
  | c :: text =>
    have : Decidable (CommasInside (depthAfter depth c) text) := instDecidableCommasInside _ text
    decidable_of_iff _ (commasInside_cons depth c text).symm

/-! ## Types -/

/-- The text without the angles of its arrows. -/
def withoutArrows : List Char → List Char
  | [] => []
  | '-' :: '>' :: rest => '-' :: withoutArrows rest
  | c :: rest => c :: withoutArrows rest

/-- All brackets of the type are closed at its end, and some bracket is open at every comma in it, as far
as counting them can tell. -/
structure BracketsClose (type : List Char) : Prop where
  /-- No end of the type opens more brackets than it closes. -/
  closed : ∀ back, back <:+ withoutArrows type → bracketExcess back ≤ 0
  /-- In front of a comma some stretch opens more brackets than it closes. -/
  inside : ∀ front back, front ++ ',' :: back = withoutArrows type →
    ∃ inner, inner <:+ front ∧ 0 < bracketExcess inner

theorem bracketsClose_iff (type : List Char) :
    BracketsClose type ↔
      depthBehind 0 (withoutArrows type) = 0 ∧ CommasInside 0 (withoutArrows type) := by
  have hclosed : depthBehind 0 (withoutArrows type) = 0 ↔
      ∀ back, back <:+ withoutArrows type → bracketExcess back ≤ 0 := by
    rw [← Nat.le_zero, ← Nat.not_lt, depthBehind_pos_iff]
    simp only [not_exists, not_and, Int.not_lt]
  simp only [CommasInside, depthBehind_pos_iff, hclosed]
  exact ⟨fun h => ⟨h.closed, h.inside⟩, fun h => ⟨h.1, h.2⟩⟩

instance (type : List Char) : Decidable (BracketsClose type) :=
  decidable_of_iff _ (bracketsClose_iff type).symm

/-- Every bracket of the text has a partner behind it, and a comma stands between two of them, unless
commas may stand anywhere. -/
inductive Paired : Bool → List Char → Prop
  | nil {commas : Bool} : Paired commas []
  | plain {commas : Bool} {c : Char} {text : List Char} (noBracket : bracketStep c = 0)
    (comma : c = ',' → commas = true) (more : Paired commas text) : Paired commas (c :: text)
  | pair {commas : Bool} {a b : Char} {inner text : List Char} (opens : bracketStep a = 1)
    (closes : bracketStep b = -1) (inside : Paired true inner) (more : Paired commas text) :
    Paired commas (a :: (inner ++ b :: text))

/-- Paired brackets leave the depth as it was. -/
theorem Paired.depthBehind_eq {commas : Bool} {text : List Char} (h : Paired commas text) (depth : Nat) :
    depthBehind depth text = depth := by
  induction h generalizing depth with
  | nil => rfl
  | plain noBracket comma more ih =>
    rw [depthBehind_cons, ih, depthAfter_eq, noBracket]
    omega
  | pair opens closes inside more ihInside ihMore =>
    rw [depthBehind_cons, depthBehind_append, depthBehind_cons, ihInside, ihMore, depthAfter_eq,
      depthAfter_eq, opens, closes]
    omega

theorem Paired.commasInside {commas : Bool} {text : List Char} (h : Paired commas text) (depth : Nat)
    (hdepth : commas = true → 0 < depth) : CommasInside depth text := by
  induction h generalizing depth with
  | nil => exact commasInside_nil depth
  | @plain commas c text noBracket comma more ih =>
    have hstep : depthAfter depth c = depth := by
      rw [depthAfter_eq, noBracket]
      omega
    rw [commasInside_cons, hstep]
    exact ⟨fun heq => hdepth (comma heq), ih depth hdepth⟩
  | @pair commas a b inner text opens closes inside more ihInside ihMore =>
    have hbracket {c : Char} (h : bracketStep c ≠ 0) : c ≠ ',' := by
      rintro rfl
      exact h rfl
    have hopen : depthAfter depth a = depth + 1 := by
      rw [depthAfter_eq, opens]
      omega
    have hclose : depthAfter (depth + 1) b = depth := by
      rw [depthAfter_eq, closes]
      omega
    rw [commasInside_cons, commasInside_append, commasInside_cons, hopen, inside.depthBehind_eq, hclose]
    refine ⟨fun heq => ?_, ihInside _ fun _ => Nat.succ_pos depth, fun _ => Nat.succ_pos depth,
      ihMore depth hdepth⟩
    exact absurd heq (hbracket (by omega))

/-- **Where the angles of a type are brackets**, or stand in arrows, its brackets close. -/
theorem Paired.bracketsClose {type : List Char} (h : Paired false (withoutArrows type)) :
    BracketsClose type :=
  (bracketsClose_iff type).2 ⟨h.depthBehind_eq 0, h.commasInside 0 fun h => by cases h⟩

/-! ## Scanning a type -/

/-- The text holds no string, no comment and no character literal: a single quote starts a lifetime. -/
structure Unquoted (text : List Char) : Prop where
  noString : '"' ∉ text
  noComment : ∀ front back, front ++ '/' :: back = text → back.head? ≠ some '/'
  noCharacter : ∀ front back, front ++ '\'' :: back = text → literalTail back = none

theorem unquoted_nil : Unquoted [] where
  noString := List.not_mem_nil
  noComment front back heq := by simp at heq
  noCharacter front back heq := by simp at heq

theorem unquoted_cons (c : Char) (text : List Char) :
    Unquoted (c :: text) ↔ (c ≠ '"' ∧ (c = '/' → text.head? ≠ some '/') ∧
      (c = '\'' → literalTail text = none)) ∧ Unquoted text := by
  constructor
  · intro h
    refine ⟨⟨?_, ?_, ?_⟩, ?_, ?_, ?_⟩
    · rintro rfl
      exact h.noString List.mem_cons_self
    · rintro rfl
      exact h.noComment [] text rfl
    · rintro rfl
      exact h.noCharacter [] text rfl
    · exact fun hmem => h.noString (List.mem_cons_of_mem c hmem)
    · exact fun front back heq => h.noComment (c :: front) back (by rw [List.cons_append, heq])
    · exact fun front back heq => h.noCharacter (c :: front) back (by rw [List.cons_append, heq])
  · rintro ⟨⟨hstring, hcomment, hcharacter⟩, htext⟩
    refine ⟨?_, ?_, ?_⟩
    · intro hmem
      rcases List.mem_cons.1 hmem with heq | hmem
      · exact hstring heq.symm
      · exact htext.noString hmem
    · intro front back heq
      rcases List.append_eq_cons_iff.1 heq with ⟨rfl, hcons⟩ | ⟨front, rfl, hrest⟩
      · obtain ⟨rfl, rfl⟩ := List.cons.inj hcons
        exact hcomment rfl
      · exact htext.noComment front back hrest.symm
    · intro front back heq
      rcases List.append_eq_cons_iff.1 heq with ⟨rfl, hcons⟩ | ⟨front, rfl, hrest⟩
      · obtain ⟨rfl, rfl⟩ := List.cons.inj hcons
        exact hcharacter rfl
      · exact htext.noCharacter front back hrest.symm

instance : (text : List Char) → Decidable (Unquoted text)
  | [] => .isTrue unquoted_nil
  | c :: text =>
    have : Decidable (Unquoted text) := instDecidableUnquoted text
    decidable_of_iff _ (unquoted_cons c text).symm

theorem literalTail_cons {c : Char} (hc : c ≠ '\\') (text : List Char) :
    literalTail (c :: text) = if text.head? = some '\'' then some 2 else none := by
  cases text with
  | nil => simp [literalTail]
  | cons d text =>
    by_cases hd : d = '\''
    · simp [literalTail, hd]
    · simp [literalTail, hd]

/-- A comma behind a lifetime makes no character literal of it. -/
theorem literalTail_concat_comma {text : List Char} (h : literalTail text = none) :
    literalTail (text ++ [',']) = none := by
  cases text with
  | nil => rfl
  | cons c tail =>
    by_cases hc : c = '\\'
    · subst hc
      simpa [literalTail, List.findIdx?_append] using h
    · rw [literalTail_cons hc] at h
      rw [List.cons_append, literalTail_cons hc]
      cases tail with
      | nil => rfl
      | cons d tail => exact h

namespace Scanner.Cursor

/-- The cursor stands in code, with this many brackets open. -/
structure AtDepth (cursor : Cursor) (depth : Nat) : Prop where
  scanner_eq : cursor.scanner = ⟨true, depth, false⟩
  no_skip : cursor.skip = 0

theorem AtDepth.not_inString {cursor : Cursor} {depth : Nat} (h : AtDepth cursor depth) :
    cursor.scanner.inString = false := by
  rw [h.scanner_eq]

/-- One character of code that is no quote, no comment and no character literal. An angle behind a dash is
part of an arrow. -/
theorem AtDepth.walk_next {cursor : Cursor} {depth : Nat} (h : AtDepth cursor depth) {c : Char}
    {text : List Char} (hstring : c ≠ '"') (hcomment : c = '/' → text.head? ≠ some '/')
    (hcharacter : c = '\'' → literalTail text = none) :
    ∃ after : Cursor, after.position = cursor.position + 1 ∧ after.previous = some c ∧
      AtDepth after (if c = '>' ∧ cursor.previous = some '-' then depth else depthAfter depth c) ∧
      after.topComma = (if c = ',' ∧ depth = 0 ∧ cursor.topComma.isNone then some cursor.position
        else cursor.topComma) ∧
      cursor.walk (c :: text) = after.walk text := by
  refine ⟨(cursor.readCode c text).next c, ?_, rfl, ⟨?_, ?_⟩, ?_,
    walk_code h.no_skip h.not_inString hcomment⟩
  · change (cursor.readCode c text).position + 1 = _
    rw [position_readCode]
  · change (cursor.readCode c text).scanner = _
    rw [scanner_readCode, h.scanner_eq]
    unfold scannerBehind depthAfter isClosing
    grind
  · change (cursor.readCode c text).skip = 0
    rw [skip_readCode, h.no_skip]
    split
    · next hquote => rw [hcharacter hquote, Option.getD_none]
    · rfl
  · change (cursor.readCode c text).topComma = _
    rw [comma_readCode, h.scanner_eq]

/-- One character of a type in front of a comma. -/
theorem AtDepth.walk_cons {cursor : Cursor} {depth : Nat} (h : AtDepth cursor depth) {c : Char}
    {text : List Char} (htext : Unquoted (c :: text)) :
    ∃ after : Cursor, after.position = cursor.position + 1 ∧ after.previous = some c ∧
      AtDepth after (if c = '>' ∧ cursor.previous = some '-' then depth else depthAfter depth c) ∧
      after.topComma = (if c = ',' ∧ depth = 0 ∧ cursor.topComma.isNone then some cursor.position
        else cursor.topComma) ∧
      cursor.walk (c :: text ++ [',']) = after.walk (text ++ [',']) := by
  obtain ⟨⟨hstring, hcomment, hcharacter⟩, -⟩ := (unquoted_cons c text).1 htext
  apply h.walk_next hstring
  · intro hslash hhead
    cases text with
    | nil => cases hhead
    | cons d text => exact hcomment hslash hhead
  · exact fun hquote => literalTail_concat_comma (hcharacter hquote)

/-- **A scanner in front of a type** and a comma counts the brackets of the type. It reports that comma
exactly if all brackets are closed there and some bracket is open at every comma of the type. -/
theorem AtDepth.walk_type {type : List Char} (htype : Unquoted type) {cursor : Cursor} {depth : Nat}
    (h : AtDepth cursor depth) (hdash : cursor.previous = some '-' → type.head? ≠ some '>') :
    (cursor.walk (type ++ [','])).scanner = ⟨true, depthBehind depth (withoutArrows type), false⟩ ∧
      (cursor.topComma = none →
        ((cursor.walk (type ++ [','])).topComma = some (cursor.position + type.length) ↔
          depthBehind depth (withoutArrows type) = 0 ∧ CommasInside depth (withoutArrows type))) := by
  fun_induction withoutArrows type generalizing cursor depth with
  | case1 =>
    have hwalk : cursor.walk [','] = (cursor.readCode ',' []).next ',' :=
      walk_code h.no_skip h.not_inString (by simp)
    rw [List.nil_append, hwalk]
    constructor
    · change (cursor.readCode ',' []).scanner = _
      rw [scanner_readCode, h.scanner_eq]
      rfl
    · intro hcomma
      change (cursor.readCode ',' []).topComma = _ ↔ _
      rw [comma_readCode, h.scanner_eq, hcomma]
      simp [commasInside_nil]
  | case2 rest ih =>
    obtain ⟨middle, hposition, hprevious, hmiddle, htop, hwalk⟩ := h.walk_cons htype
    have hrest := ((unquoted_cons _ _).1 htype).2
    obtain ⟨after, hposition', hprevious', hafter, htop', hwalk'⟩ := hmiddle.walk_cons hrest
    rw [if_neg (by simp)] at hmiddle htop
    rw [if_pos ⟨rfl, hprevious⟩, if_neg (by simp)] at hafter
    rw [if_neg (by simp), htop] at htop'
    obtain ⟨hscanner, hiff⟩ := ih ((unquoted_cons _ _).1 hrest).2 hafter (by simp [hprevious'])
    have hplace : cursor.position + ('-' :: '>' :: rest).length = after.position + rest.length := by
      rw [hposition', hposition, List.length_cons, List.length_cons]
      omega
    rw [hwalk, hwalk', hplace, depthBehind_cons, commasInside_cons]
    refine ⟨hscanner, fun hcomma => (hiff (htop'.trans hcomma)).trans ?_⟩
    simp [depthAfter]
  | case3 c rest hnoArrow ih =>
    obtain ⟨after, hposition, hprevious, hafter, htop, hwalk⟩ := h.walk_cons htype
    have hangle : ¬(c = '>' ∧ cursor.previous = some '-') := by
      rintro ⟨rfl, hbefore⟩
      exact hdash hbefore rfl
    rw [if_neg hangle] at hafter
    have hdash' : after.previous = some '-' → rest.head? ≠ some '>' := by
      rw [hprevious]
      intro hc hhead
      obtain ⟨more, rfl⟩ := List.head?_eq_some_iff.1 hhead
      exact hnoArrow more (Option.some.inj hc) rfl
    obtain ⟨hscanner, hiff⟩ := ih ((unquoted_cons _ _).1 htype).2 hafter hdash'
    have hplace : cursor.position + (c :: rest).length = after.position + rest.length := by
      rw [hposition, List.length_cons]
      omega
    rw [hwalk, depthBehind_cons, commasInside_cons]
    refine ⟨hscanner, fun hcomma => ?_⟩
    by_cases hoften : c = ',' ∧ depth = 0
    · -- a comma outside all brackets is reported in place of the one behind the type
      obtain ⟨rfl, rfl⟩ := hoften
      rw [hcomma] at htop
      rw [topComma_walk htop]
      simp
    · have hnone : after.topComma = none := by
        rw [htop, if_neg fun hall => hoften ⟨hall.1, hall.2.1⟩, hcomma]
      have hdepth : c = ',' → 0 < depth := fun hc => Nat.pos_of_ne_zero fun hzero => hoften ⟨hc, hzero⟩
      rw [hplace, hiff hnone, and_congr_right_iff]
      exact fun _ => (and_iff_right hdepth).symm

end Scanner.Cursor

end ModelMend
