import ModelMend.Proofs.Token.Bare

/-!
# Steady readers

A reader is steady if it reads a text like the squeezed text and takes no white space off its front
(`Steady`, `FindsSteadily`). The readers of numbers are (`Literal.findsSteadily_number?`).
-/

namespace ModelMend

open Text

/-! ## Steady readers -/

/-- The rest is what is left of the text behind characters that are no white space. -/
def SolidUpTo (rest text : List Char) : Prop :=
  ∃ piece, text = piece ++ rest ∧ Solid piece

theorem SolidUpTo.refl (text : List Char) : SolidUpTo text text :=
  ⟨[], rfl, List.forall_mem_nil _⟩

theorem SolidUpTo.cons {rest text : List Char} {c : Char} (hc : isBlank c = false)
    (h : SolidUpTo rest text) : SolidUpTo rest (c :: text) := by
  obtain ⟨piece, rfl, hpiece⟩ := h
  exact ⟨c :: piece, rfl, List.forall_mem_cons.2 ⟨hc, hpiece⟩⟩

theorem SolidUpTo.trans {rest middle text : List Char} (h : SolidUpTo rest middle)
    (h' : SolidUpTo middle text) : SolidUpTo rest text := by
  obtain ⟨piece, rfl, hpiece⟩ := h
  obtain ⟨front, rfl, hfront⟩ := h'
  exact ⟨front ++ piece, (List.append_assoc front piece rest).symm,
    List.forall_mem_append.2 ⟨hfront, hpiece⟩⟩

theorem SolidUpTo.suffix {rest text : List Char} (h : SolidUpTo rest text) : rest <:+ text := by
  obtain ⟨piece, rfl, -⟩ := h
  exact List.suffix_append piece rest

/-- A text is squeezed behind such a piece. -/
theorem SolidUpTo.take_squeezed {rest text : List Char} (h : SolidUpTo rest text) :
    (squeezed text).take ((squeezed text).length - (squeezed rest).length) =
      text.take (text.length - rest.length) := by
  obtain ⟨piece, rfl, hpiece⟩ := h
  rw [hpiece.squeezed_append, List.length_append, List.length_append, Nat.add_sub_cancel,
    Nat.add_sub_cancel, List.take_left, List.take_left]

/-- The reader reads the text as it reads the squeezed text, and takes no white space. -/
structure Steady (read : List Char → Option (List Char)) (text : List Char) : Prop where
  squeezed_eq : read (squeezed text) = (read text).map squeezed
  solid : ∀ rest, read text = some rest → SolidUpTo rest text

/-- The same for a reader that also finds something. -/
structure FindsSteadily {α : Type} (read : List Char → Option (α × List Char)) (text : List Char) :
    Prop where
  squeezed_eq : read (squeezed text) = (read text).map fun found => (found.1, squeezed found.2)
  solid : ∀ found rest, read text = some (found, rest) → SolidUpTo rest text

/-- Both texts begin with the same character, or with none or white space. -/
def BeginsLike (text other : List Char) : Prop :=
  ∀ c, isBlank c = false → (text.head? = some c ↔ other.head? = some c)

theorem BeginsLike.refl (text : List Char) : BeginsLike text text :=
  fun _ _ => Iff.rfl

theorem beginsLike_squeezed (text : List Char) : BeginsLike (squeezed text) text :=
  fun _ hc => head?_squeezed hc

theorem BeginsLike.any_eq {text other : List Char} (h : BeginsLike text other) {p : Char → Bool}
    (hp : ∀ c, isBlank c = true → p c = false) : text.head?.any p = other.head?.any p := by
  rw [Bool.eq_iff_iff, Option.any_eq_true, Option.any_eq_true]
  constructor
  · rintro ⟨c, hc, hpc⟩
    have hblank : isBlank c = false := by
      rw [Bool.eq_false_iff]
      intro hblank
      rw [hp c hblank] at hpc
      cases hpc
    exact ⟨c, (h c hblank).1 hc, hpc⟩
  · rintro ⟨c, hc, hpc⟩
    have hblank : isBlank c = false := by
      rw [Bool.eq_false_iff]
      intro hblank
      rw [hp c hblank] at hpc
      cases hpc
    exact ⟨c, (h c hblank).2 hc, hpc⟩

namespace Steady

variable {read next : List Char → Option (List Char)} {c : Char} {text : List Char}

/-- A reader that stops at the end of the text stops at white space. -/
theorem of_blank (hc : isBlank c = true) (stops : Bool)
    (hread : ∀ rest, (∀ d, rest.head? = some d → isBlank d = true) →
      read rest = if stops then some rest else none) : Steady read (c :: text) := by
  have htext := hread (c :: text) (by rintro d ⟨⟩; exact hc)
  have hsqueezed : read (squeezed (c :: text)) =
      if stops then some (squeezed (c :: text)) else none := by
    apply hread
    rw [squeezed_cons_of_blank hc]
    intro d hd
    rcases gap_eq_nil_or_cons (squeezed text) with ⟨hgap, -⟩ | ⟨more, hgap, -⟩
    · rw [hgap] at hd
      cases hd
    · rw [hgap] at hd
      cases hd
      exact isBlank_space
  constructor
  · rw [hsqueezed, htext]
    cases stops <;> rfl
  · intro rest hrest
    rw [htext] at hrest
    cases stops with
    | true =>
      cases hrest
      exact SolidUpTo.refl _
    | false => cases hrest

theorem of_nil (stops : Bool) (hread : read [] = if stops then some [] else none) :
    Steady read [] := by
  constructor
  · rw [squeezed_nil, hread]
    cases stops <;> rfl
  · intro rest hrest
    rw [hread] at hrest
    cases stops with
    | true =>
      cases hrest
      exact SolidUpTo.refl _
    | false => cases hrest

variable (hc : isBlank c = false)

include hc

/-- The reader takes a character and goes on as another one. -/
theorem step (hread : ∀ rest, BeginsLike rest text → read (c :: rest) = next rest)
    (h : Steady next text) : Steady read (c :: text) := by
  have htext := hread text (.refl text)
  constructor
  · rw [squeezed_cons_of_not_blank hc, hread _ (beginsLike_squeezed text), htext, h.squeezed_eq]
  · intro rest hrest
    rw [htext] at hrest
    exact (h.solid rest hrest).cons hc

theorem stop (hread : ∀ rest, BeginsLike rest text → read (c :: rest) = some (c :: rest)) :
    Steady read (c :: text) := by
  have htext := hread text (.refl text)
  constructor
  · rw [squeezed_cons_of_not_blank hc, hread _ (beginsLike_squeezed text), htext, Option.map_some,
      squeezed_cons_of_not_blank hc]
  · intro rest hrest
    rw [htext] at hrest
    cases hrest
    exact SolidUpTo.refl _

theorem fail (hread : ∀ rest, BeginsLike rest text → read (c :: rest) = none) :
    Steady read (c :: text) := by
  have htext := hread text (.refl text)
  constructor
  · rw [squeezed_cons_of_not_blank hc, hread _ (beginsLike_squeezed text), htext]
    rfl
  · intro rest hrest
    rw [htext] at hrest
    cases hrest

omit hc

/-- One reader behind the other. -/
theorem bind (h : Steady read text) (hnext : ∀ rest, Steady next rest) :
    Steady (fun text => (read text).bind next) text := by
  constructor
  · rw [h.squeezed_eq]
    cases hread : read text with
    | none => rfl
    | some middle => exact (hnext middle).squeezed_eq
  · intro rest hrest
    obtain ⟨middle, hmiddle, hbehind⟩ := Option.bind_eq_some_iff.1 hrest
    exact ((hnext middle).solid rest hbehind).trans (h.solid middle hmiddle)

end Steady

/-! ## Runs of characters -/

section

variable {p : Char → Bool} (hp : ∀ c, isBlank c = true → p c = false)

include hp

/-- A run of characters ends at white space. -/
theorem run_squeezed (text : List Char) :
    (squeezed text).takeWhile p = text.takeWhile p ∧
      (squeezed text).dropWhile p = squeezed (text.dropWhile p) := by
  induction text with
  | nil => exact ⟨rfl, rfl⟩
  | cons c rest ih =>
    cases hc : isBlank c with
    | true =>
      have hstop : (gap (squeezed rest)).takeWhile p = [] ∧
          (gap (squeezed rest)).dropWhile p = gap (squeezed rest) := by
        rcases gap_eq_nil_or_cons (squeezed rest) with ⟨hgap, -⟩ | ⟨more, hgap, -⟩
        · rw [hgap]
          exact ⟨rfl, rfl⟩
        · rw [hgap]
          simp [hp ' ' isBlank_space]
      rw [squeezed_cons_of_blank hc, hstop.1, hstop.2, List.takeWhile_cons, List.dropWhile_cons, hp c hc,
        if_neg Bool.false_ne_true, if_neg Bool.false_ne_true, squeezed_cons_of_blank hc]
      exact ⟨rfl, rfl⟩
    | false =>
      rw [squeezed_cons_of_not_blank hc, List.takeWhile_cons, List.takeWhile_cons, List.dropWhile_cons,
        List.dropWhile_cons, ih.1, ih.2]
      cases p c with
      | true => exact ⟨rfl, rfl⟩
      | false => exact ⟨rfl, (squeezed_cons_of_not_blank hc rest).symm⟩

theorem solidUpTo_dropWhile (text : List Char) : SolidUpTo (text.dropWhile p) text := by
  refine ⟨text.takeWhile p, List.takeWhile_append_dropWhile.symm, ?_⟩
  intro c hc
  have hpc : p c = true := List.mem_takeWhile_imp hc
  rw [Bool.eq_false_iff]
  intro hblank
  rw [hp c hblank] at hpc
  cases hpc

end

/-- A text without white space is in front of both or of neither. -/
theorem isPrefixOf_squeezed {opening : List Char} (h : Solid opening) (text : List Char) :
    opening.isPrefixOf (squeezed text) = opening.isPrefixOf text := by
  induction opening generalizing text with
  | nil => rfl
  | cons d opening ih =>
    obtain ⟨hd, hopening⟩ := List.forall_mem_cons.1 h
    cases text with
    | nil => rfl
    | cons c rest =>
      cases hc : isBlank c with
      | false =>
        rw [squeezed_cons_of_not_blank hc, List.isPrefixOf_cons_cons, List.isPrefixOf_cons_cons,
          ih hopening]
      | true =>
        have hne : (d == c) = false := by
          rw [beq_eq_false_iff_ne]
          rintro rfl
          rw [hd] at hc
          cases hc
        have hspace : (d == ' ') = false := by
          rw [beq_eq_false_iff_ne]
          rintro rfl
          rw [isBlank_space] at hd
          cases hd
        rw [squeezed_cons_of_blank hc, List.isPrefixOf_cons_cons, hne, Bool.false_and]
        rcases gap_eq_nil_or_cons (squeezed rest) with ⟨hgap, -⟩ | ⟨more, hgap, -⟩
        · rw [hgap]
          rfl
        · rw [hgap, List.isPrefixOf_cons_cons, hspace, Bool.false_and]

theorem drop_squeezed {opening : List Char} (h : Solid opening) {text : List Char}
    (hfront : opening.isPrefixOf text = true) :
    (squeezed text).drop opening.length = squeezed (text.drop opening.length) := by
  obtain ⟨rest, rfl⟩ := List.isPrefixOf_iff_prefix.1 hfront
  rw [h.squeezed_append, List.drop_left, List.drop_left]

/-! ## Numbers -/

/-- The character is no part of a number. -/
structure NoNumber (c : Char) : Prop where
  noSign : c ∉ ['+', '-', '_', '.', 'e', 'E']
  noDigit : c.isDigit = false
  noHexDigit : Literal.hexDigit? c = none

theorem noNumber_of_not_isIdentContinue {c : Char} (hident : isIdentContinue c = false)
    (hsign : c ∉ ['+', '-', '.']) : NoNumber c := by
  refine ⟨?_, not_isDigit_of_not_isIdentContinue hident, ?_⟩
  · have hletter {d : Char} (hd : isIdentContinue d = true) : c ≠ d := by
      rintro rfl
      rw [hd] at hident
      cases hident
    simp only [List.mem_cons, List.not_mem_nil, or_false, not_or] at hsign ⊢
    exact ⟨hsign.1, hsign.2.1, hletter rfl, hsign.2.2, hletter rfl, hletter rfl⟩
  · rw [Option.eq_none_iff_forall_ne_some]
    intro digit hdigit
    rw [Lexeme.isIdentContinue_of_hexDigit? hdigit] at hident
    cases hident

theorem noNumber_of_isBlank {c : Char} (hc : isBlank c = true) : NoNumber c := by
  apply noNumber_of_not_isIdentContinue (not_isIdentContinue_of_isBlank c hc)
  have hnone : ['+', '-', '.'].any isBlank = false := rfl
  exact notMem_of_any hnone hc

namespace Literal

section

variable {rest : List Char} (hrest : ∀ c, rest.head? = some c → NoNumber c)

include hrest

theorem exponentTail_stops (sawSign sawDigit : Bool) :
    exponentTail sawSign sawDigit rest = if sawDigit then some rest else none := by
  cases rest with
  | nil => rfl
  | cons c rest =>
    obtain ⟨hsign, hdigit, -⟩ := hrest c rfl
    simp only [List.mem_cons, List.not_mem_nil, or_false, not_or] at hsign
    simp [exponentTail, hsign, hdigit]

theorem floatTail_stops (sawPoint : Bool) :
    floatTail sawPoint rest = if sawPoint then some rest else none := by
  cases rest with
  | nil => rfl
  | cons c rest =>
    obtain ⟨hsign, hdigit, -⟩ := hrest c rfl
    simp only [List.mem_cons, List.not_mem_nil, or_false, not_or] at hsign
    simp [floatTail, hsign, hdigit]

theorem digitsTail_stops (base : Nat) (sawDigit : Bool) :
    digitsTail base sawDigit rest = if sawDigit then some rest else none := by
  cases rest with
  | nil => rfl
  | cons c rest =>
    obtain ⟨hsign, -, hhex⟩ := hrest c rfl
    simp only [List.mem_cons, List.not_mem_nil, or_false, not_or] at hsign
    simp [digitsTail, hsign, hhex]

end

theorem steady_exponentTail (sawSign sawDigit : Bool) (text : List Char) :
    Steady (exponentTail sawSign sawDigit) text := by
  induction text generalizing sawSign sawDigit with
  | nil => exact .of_nil sawDigit rfl
  | cons c tail ih =>
    cases hc : isBlank c with
    | true =>
      exact .of_blank hc sawDigit fun rest hrest =>
        exponentTail_stops (fun d hd => noNumber_of_isBlank (hrest d hd)) sawSign sawDigit
    | false =>
      by_cases hsign : (c == '+' || c == '-') = true
      · cases sawDigit with
        | true => exact .stop hc fun rest _ => by simp only [exponentTail, hsign, if_true]
        | false =>
          cases sawSign with
          | true => exact .fail hc fun rest _ => by simp [exponentTail, hsign]
          | false => exact .step hc (fun rest _ => by simp [exponentTail, hsign]) (ih true false)
      · by_cases hdigit : c.isDigit = true
        · exact .step hc (fun rest _ => by simp [exponentTail, hsign, hdigit]) (ih sawSign true)
        · by_cases hline : (c == '_') = true
          · exact .step hc (fun rest _ => by simp [exponentTail, hsign, hdigit, hline]) (ih sawSign sawDigit)
          · cases sawDigit with
            | true => exact .stop hc fun rest _ => by simp [exponentTail, hsign, hdigit, hline]
            | false => exact .fail hc fun rest _ => by simp [exponentTail, hsign, hdigit, hline]

theorem steady_floatTail (sawPoint : Bool) (text : List Char) : Steady (floatTail sawPoint) text := by
  induction text generalizing sawPoint with
  | nil => exact .of_nil sawPoint rfl
  | cons c tail ih =>
    cases hc : isBlank c with
    | true =>
      exact .of_blank hc sawPoint fun rest hrest =>
        floatTail_stops (fun d hd => noNumber_of_isBlank (hrest d hd)) sawPoint
    | false =>
      by_cases hdigit : (c.isDigit || c == '_') = true
      · exact .step hc (fun rest _ => by simp only [floatTail, hdigit, if_true]) (ih sawPoint)
      by_cases hpoint : (c == '.' && !sawPoint) = true
      · -- what follows the point is looked at, and white space there is like the end of the text
        have hname (d : Char) (hd : isBlank d = true) : (d == '.' || isIdentStart d) = false := by
          have hnumber := (noNumber_of_isBlank hd).noSign
          simp only [List.mem_cons, List.not_mem_nil, or_false, not_or] at hnumber
          simp [hnumber, not_isIdentStart_of_isBlank d hd]
        by_cases hmore : tail.head?.any (fun d => d == '.' || isIdentStart d) = true
        · refine .fail hc fun rest hrest => ?_
          rw [← hrest.any_eq hname] at hmore
          simp only [floatTail, hdigit, hpoint, hmore, if_true, Bool.false_eq_true, if_false]
        · refine .step hc (fun rest hrest => ?_) (ih true)
          rw [← hrest.any_eq hname] at hmore
          simp only [floatTail, hdigit, hpoint, hmore, if_true, Bool.false_eq_true, if_false]
      by_cases hmark : (c == 'e' || c == 'E') = true
      · have hread (rest : List Char) : floatTail sawPoint (c :: rest) =
            (exponentTail false false rest).elim (if sawPoint then some (c :: rest) else none) some := by
          simp only [floatTail, hdigit, hpoint, hmark, if_true, Bool.false_eq_true, if_false]
          cases exponentTail false false rest <;> rfl
        obtain ⟨hsqueezed, hsolid⟩ := steady_exponentTail false false tail
        cases hexponent : exponentTail false false tail with
        | some behind =>
          rw [hexponent, Option.map_some] at hsqueezed
          constructor
          · rw [squeezed_cons_of_not_blank hc, hread, hread, hsqueezed, hexponent]
            rfl
          · intro rest hrest
            rw [hread, hexponent] at hrest
            cases hrest
            exact (hsolid behind hexponent).cons hc
        | none =>
          rw [hexponent, Option.map_none] at hsqueezed
          constructor
          · rw [squeezed_cons_of_not_blank hc, hread, hread, hsqueezed, hexponent]
            cases sawPoint with
            | true => exact congrArg some (squeezed_cons_of_not_blank hc tail).symm
            | false => rfl
          · intro rest hrest
            rw [hread, hexponent] at hrest
            cases sawPoint with
            | true =>
              cases hrest
              exact SolidUpTo.refl _
            | false => cases hrest
      cases sawPoint with
      | true => exact .stop hc fun rest _ => by simp [floatTail, hdigit, hmark]
      | false => exact .fail hc fun rest _ => by simp_all [floatTail]

theorem steady_digitsTail (base : Nat) (sawDigit : Bool) (text : List Char) :
    Steady (digitsTail base sawDigit) text := by
  induction text generalizing sawDigit with
  | nil => exact .of_nil sawDigit rfl
  | cons c tail ih =>
    cases hc : isBlank c with
    | true =>
      exact .of_blank hc sawDigit fun rest hrest =>
        digitsTail_stops (fun d hd => noNumber_of_isBlank (hrest d hd)) base sawDigit
    | false =>
      cases hhex : hexDigit? c with
      | some digit =>
        by_cases hbase : digit < base
        · exact .step hc (fun rest _ => by simp [digitsTail, hhex, hbase]) (ih true)
        by_cases hdigit : c.isDigit = true
        · exact .fail hc fun rest _ => by simp [digitsTail, hhex, hbase, hdigit]
        cases sawDigit with
        | true => exact .stop hc fun rest _ => by simp [digitsTail, hhex, hbase, hdigit]
        | false => exact .fail hc fun rest _ => by simp [digitsTail, hhex, hbase, hdigit]
      | none =>
        by_cases hline : (c == '_' && (sawDigit || base != 10)) = true
        · exact .step hc (fun rest _ => by simp only [digitsTail, hhex, hline, if_true]) (ih sawDigit)
        by_cases hstop : (c != '_' && sawDigit) = true
        · exact .stop hc fun rest _ => by
            simp only [digitsTail, hhex, hline, hstop, Bool.false_eq_true, if_false, if_true]
        · exact .fail hc fun rest _ => by
            simp only [digitsTail, hhex, hline, hstop, Bool.false_eq_true, if_false]

theorem dropSuffix_squeezed (text : List Char) :
    dropSuffix (squeezed text) = squeezed (dropSuffix text) ∧ SolidUpTo (dropSuffix text) text := by
  cases text with
  | nil => exact ⟨rfl, .refl []⟩
  | cons c rest =>
    have hstop (d : Char) (hd : isBlank d = true) (more : List Char) : dropSuffix (d :: more) = d :: more := by
      rw [dropSuffix, not_isIdentStart_of_isBlank d hd, if_neg Bool.false_ne_true]
    cases hc : isBlank c with
    | true =>
      rw [hstop c hc, squeezed_cons_of_blank hc]
      refine ⟨?_, .refl _⟩
      rcases gap_eq_nil_or_cons (squeezed rest) with ⟨hgap, -⟩ | ⟨more, hgap, -⟩
      · rw [hgap]
        rfl
      · rw [hgap, hstop ' ' isBlank_space]
    | false =>
      rw [squeezed_cons_of_not_blank hc, dropSuffix, dropSuffix]
      split
      · exact ⟨(run_squeezed not_isIdentContinue_of_isBlank rest).2,
          (solidUpTo_dropWhile not_isIdentContinue_of_isBlank rest).cons hc⟩
      · exact ⟨(squeezed_cons_of_not_blank hc rest).symm, .refl _⟩

theorem steady_numberTail (text : List Char) : Steady numberTail text := by
  obtain ⟨hsqueezed, hsolid⟩ := dropSuffix_squeezed text
  have hhead := (beginsLike_squeezed (dropSuffix text)).any_eq not_isIdentContinue_of_isBlank
  unfold numberTail
  constructor
  · dsimp only
    rw [hsqueezed, hhead]
    split <;> rfl
  · intro rest hrest
    dsimp only at hrest
    split at hrest
    · cases hrest
    · cases hrest
      exact hsolid

theorem steady_floatLiteralTail (text : List Char) : Steady floatLiteralTail text := by
  cases text with
  | nil => exact .of_nil false rfl
  | cons c tail =>
    cases hc : isBlank c with
    | true =>
      apply Steady.of_blank hc false
      intro rest hrest
      cases rest with
      | nil => rfl
      | cons d rest => simp [floatLiteralTail, (noNumber_of_isBlank (hrest d rfl)).noDigit]
    | false =>
      by_cases hdigit : c.isDigit = true
      · have hbehind := (steady_floatTail false tail).bind steady_numberTail
        exact .step hc (fun rest _ => by simp [floatLiteralTail, hdigit]) hbehind
      · exact .fail hc fun rest _ => by simp [floatLiteralTail, hdigit]

/-- The letters that mark a base behind a zero. -/
def baseMarks : List (Char × Nat) :=
  [('x', 16), ('o', 8), ('b', 2)]

/-- The base that the beginning of an integer stands for, if it is marked. -/
def markedBase? (text : List Char) : Option Nat :=
  if text.head? = some '0' then text.tail.head?.bind (List.lookup · baseMarks) else none

theorem integerLiteralTail_eq (text : List Char) : integerLiteralTail text =
    (match markedBase? text with
      | some base => digitsTail base false (text.drop 2)
      | none => digitsTail 10 false text).bind numberTail := by
  unfold integerLiteralTail
  split
  · rfl
  · rfl
  · rfl
  · next hx ho hb =>
    have hnone : markedBase? text = none := by
      unfold markedBase?
      split
      · next hzero =>
        obtain ⟨rest, rfl⟩ := List.head?_eq_some_iff.1 hzero
        cases rest with
        | nil => rfl
        | cons c rest =>
          have hx' : c ≠ 'x' := by rintro rfl; exact hx rest rfl
          have ho' : c ≠ 'o' := by rintro rfl; exact ho rest rfl
          have hb' : c ≠ 'b' := by rintro rfl; exact hb rest rfl
          simp [baseMarks, List.lookup_cons, beq_eq_false_iff_ne.2 hx', beq_eq_false_iff_ne.2 ho',
            beq_eq_false_iff_ne.2 hb']
      · rfl
    rw [hnone]

/-- A marked integer begins with a zero and a mark. -/
theorem exists_cons_of_markedBase? {text : List Char} {base : Nat} (h : markedBase? text = some base) :
    ∃ mark rest, text = '0' :: mark :: rest ∧ isBlank mark = false := by
  unfold markedBase? at h
  split at h
  · next hzero =>
    obtain ⟨rest, rfl⟩ := List.head?_eq_some_iff.1 hzero
    obtain ⟨mark, hmark, hbase⟩ := Option.bind_eq_some_iff.1 h
    obtain ⟨more, rfl⟩ := List.head?_eq_some_iff.1 hmark
    refine ⟨mark, more, rfl, ?_⟩
    obtain ⟨front, back, hmarks, -⟩ := List.lookup_eq_some_iff.1 hbase
    have hsolid : ∀ entry ∈ baseMarks, isBlank entry.1 = false := by decide
    apply hsolid (mark, base)
    rw [hmarks]
    exact List.mem_append_right front List.mem_cons_self
  · cases h

theorem markedBase?_squeezed (text : List Char) : markedBase? (squeezed text) = markedBase? text := by
  have hzero : isBlank '0' = false := by decide
  cases hmarked : markedBase? text with
  | some base =>
    obtain ⟨mark, rest, rfl, hmark⟩ := exists_cons_of_markedBase? hmarked
    rw [squeezed_cons_of_not_blank hzero, squeezed_cons_of_not_blank hmark]
    exact hmarked
  | none =>
    rw [Option.eq_none_iff_forall_ne_some]
    intro base hbase
    obtain ⟨mark, rest, hsqueezed, hmark⟩ := exists_cons_of_markedBase? hbase
    obtain ⟨more, rfl⟩ : ∃ more, text = '0' :: more := by
      apply List.head?_eq_some_iff.1
      rw [← head?_squeezed hzero, hsqueezed]
      rfl
    rw [squeezed_cons_of_not_blank hzero] at hsqueezed
    obtain ⟨behind, rfl⟩ : ∃ behind, more = mark :: behind := by
      apply List.head?_eq_some_iff.1
      rw [← head?_squeezed hmark, (List.cons.inj hsqueezed).2]
      rfl
    rw [squeezed_cons_of_not_blank hzero, squeezed_cons_of_not_blank hmark] at hbase
    exact absurd (hmarked.symm.trans hbase) nofun

theorem steady_integerLiteralTail (text : List Char) : Steady integerLiteralTail text := by
  have hsame := markedBase?_squeezed text
  cases hmarked : markedBase? text with
  | none =>
    rw [hmarked] at hsame
    have hplain := (steady_digitsTail 10 false text).bind steady_numberTail
    have hread : integerLiteralTail text = (digitsTail 10 false text).bind numberTail := by
      rw [integerLiteralTail_eq, hmarked]
    constructor
    · rw [integerLiteralTail_eq, hsame, hread]
      exact hplain.squeezed_eq
    · intro rest hrest
      rw [hread] at hrest
      exact hplain.solid rest hrest
  | some base =>
    rw [hmarked] at hsame
    obtain ⟨mark, rest, rfl, hmark⟩ := exists_cons_of_markedBase? hmarked
    have hzero : isBlank '0' = false := by decide
    have hdigits := (steady_digitsTail base false rest).bind steady_numberTail
    have hread : integerLiteralTail ('0' :: mark :: rest) = (digitsTail base false rest).bind numberTail := by
      rw [integerLiteralTail_eq, hmarked]
      rfl
    constructor
    · rw [integerLiteralTail_eq, hsame, hread, squeezed_cons_of_not_blank hzero,
        squeezed_cons_of_not_blank hmark]
      exact hdigits.squeezed_eq
    · intro behind hbehind
      rw [hread] at hbehind
      exact ((hdigits.solid behind hbehind).cons hmark).cons hzero

theorem findsSteadily_number? (text : List Char) : FindsSteadily number? text := by
  obtain ⟨hfloat, hfloatSolid⟩ := steady_floatLiteralTail text
  obtain ⟨hinteger, hintegerSolid⟩ := steady_integerLiteralTail text
  constructor
  · unfold number?
    rw [hfloat, hinteger]
    cases floatLiteralTail text with
    | some rest => rfl
    | none => cases integerLiteralTail text <;> rfl
  · intro kind rest hread
    unfold number? at hread
    split at hread
    · next hfound =>
      cases hread
      exact hfloatSolid rest hfound
    · obtain ⟨after, hfound, heq⟩ := Option.map_eq_some_iff.1 hread
      cases heq
      exact hintegerSolid rest hfound

end Literal

end ModelMend
