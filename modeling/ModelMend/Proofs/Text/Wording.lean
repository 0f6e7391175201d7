import ModelMend.Proofs.Text.Trim
import ModelMend.Text.Wording

/-!
# Where a wording is found

What follows a wording is an end of the text (`find?_after_suffix`). A wording is found in a text
exactly if it fits at some place of it (`occursIn_iff`), and then at the first (`find?_fitsFirst`).
Where a wording is found that ends at a character of its own does not depend on what follows it
(`EndsAt.findFrom?_eq`).
-/

namespace ModelMend.Text.Wording

theorem after?_suffix {wording : Wording} {previous : Option Char} {text rest : List Char}
    (h : wording.after? previous text = some rest) : rest <:+ text := by
  fun_induction after? previous wording text with
  | case1 =>
    cases h
    exact List.suffix_refl _
  | case2 _ _ _ _ _ ih => exact (ih h).trans (List.drop_suffix _ _)
  | case3 => cases h
  | case4 => cases h
  | case5 _ _ _ _ ih => exact (ih h).trans (trimStart_suffix _)
  | case6 _ _ _ ih => exact (ih h).trans (trimStart_suffix _)
  | case7 _ _ _ _ ih => exact ih h
  | case8 => cases h

/-- Where a wording is found it fits, behind some character. -/
theorem findFrom?_fits {wording : Wording} {previous : Option Char} {text : List Char}
    {found : Found} (h : wording.findFrom? previous text = some found) :
    ∃ before, wording.after? before found.onward = some found.after := by
  induction text generalizing previous found with
  | nil =>
    obtain ⟨after, hafter, rfl⟩ := Option.map_eq_some_iff.1 h
    exact ⟨previous, hafter⟩
  | cons c rest ih =>
    unfold findFrom? at h
    split at h
    · next after hafter =>
      cases h
      exact ⟨previous, hafter⟩
    · obtain ⟨later, hlater, rfl⟩ := Option.map_eq_some_iff.1 h
      obtain ⟨before, hafter⟩ := ih hlater
      exact ⟨before, hafter⟩

theorem findFrom?_after_suffix {wording : Wording} {previous : Option Char} {text : List Char}
    {found : Found} (h : wording.findFrom? previous text = some found) :
    found.after <:+ found.onward := by
  obtain ⟨before, hafter⟩ := findFrom?_fits h
  exact after?_suffix hafter

/-- Where a wording that starts with a fixed text is found, the text stands. -/
theorem find?_chars_prefix {chars : List Char} {wording : Wording} {text : List Char} {found : Found}
    (h : find? (.chars chars :: wording) text = some found) : chars <+: found.onward := by
  obtain ⟨before, hafter⟩ := findFrom?_fits h
  unfold after? at hafter
  split at hafter
  · next hprefix => exact List.isPrefixOf_iff_prefix.1 hprefix
  · cases hafter

/-- What follows the place where a wording was found is an end of the text. -/
theorem find?_after_suffix {wording : Wording} {text : List Char} {found : Found}
    (h : wording.find? text = some found) : found.after <:+ text := by
  rw [← find?_append h]
  exact (findFrom?_after_suffix h).trans (List.suffix_append _ _)

theorem findFrom?_isSome {wording : Wording} {previous : Option Char} {front text : List Char}
    (h : (wording.after? (front.getLast?.or previous) text).isSome) :
    (wording.findFrom? previous (front ++ text)).isSome := by
  induction front generalizing previous with
  | nil =>
    obtain ⟨after, hafter⟩ := Option.isSome_iff_exists.1 h
    simp only [List.getLast?_nil, Option.none_or] at hafter
    cases text with
    | nil => simp [findFrom?, hafter]
    | cons c text => simp [findFrom?, hafter]
  | cons c front ih =>
    rw [List.cons_append, findFrom?]
    split
    · rfl
    · rw [Option.isSome_map]
      refine ih ?_
      rw [List.getLast?_cons] at h
      cases hlast : front.getLast? <;> simpa [hlast] using h

/-- A wording that fits behind some front of a text occurs in the text. -/
theorem occursIn_append {wording : Wording} {front text : List Char}
    (h : (wording.after? front.getLast? text).isSome) : wording.occursIn (front ++ text) = true := by
  rw [← Option.or_none (o := front.getLast?)] at h
  exact findFrom?_isSome h

/-! ## The first place where a wording fits -/

/-- The wording fits between these texts. -/
def FitsAt (wording : Wording) (before onward : List Char) : Prop :=
  (wording.after? before.getLast? onward).isSome = true

/-- The wording fits between these texts and at no earlier place of the whole. -/
structure FitsFirst (wording : Wording) (before onward : List Char) : Prop where
  fits : wording.FitsAt before onward
  first : ∀ front back, front ++ back = before ++ onward → wording.FitsAt front back →
    before.length ≤ front.length

/-- There is only one first place. -/
theorem FitsFirst.unique {wording : Wording} {before onward front back : List Char}
    (h : wording.FitsFirst before onward) (hother : wording.FitsFirst front back)
    (hsame : before ++ onward = front ++ back) : before = front ∧ onward = back := by
  have hle := h.first front back hsame.symm hother.fits
  have hge := hother.first before onward hsame h.fits
  exact List.append_inj hsame (Nat.le_antisymm hle hge)

theorem findFrom?_first {wording : Wording} {previous : Option Char} {text : List Char}
    {found : Found} (h : wording.findFrom? previous text = some found) :
    (wording.after? (found.before.getLast?.or previous) found.onward).isSome = true ∧
      ∀ front back, front ++ back = text →
        (wording.after? (front.getLast?.or previous) back).isSome = true →
          found.before.length ≤ front.length := by
  induction text generalizing previous found with
  | nil =>
    obtain ⟨after, hafter, rfl⟩ := Option.map_eq_some_iff.1 h
    exact ⟨by simp [hafter], fun front back _ _ => Nat.zero_le _⟩
  | cons c rest ih =>
    unfold findFrom? at h
    split at h
    · next after hafter =>
      cases h
      exact ⟨by simp [hafter], fun front back _ _ => Nat.zero_le _⟩
    · next hnone =>
      obtain ⟨later, hlater, rfl⟩ := Option.map_eq_some_iff.1 h
      obtain ⟨hfits, hfirst⟩ := ih hlater
      have hlast (front : List Char) :
          (c :: front).getLast?.or previous = front.getLast?.or (some c) := by
        rw [List.getLast?_cons]
        cases front.getLast? <;> rfl
      refine ⟨by rwa [hlast], fun front back happend hback => ?_⟩
      cases front with
      | nil =>
        rw [List.nil_append] at happend
        rw [happend] at hback
        simp [hnone] at hback
      | cons d front =>
        obtain ⟨rfl, htail⟩ := List.cons.inj happend
        rw [hlast] at hback
        exact Nat.succ_le_succ (hfirst front back htail hback)

/-- A wording is found at the first place where it fits. -/
theorem find?_fitsFirst {wording : Wording} {text : List Char} {found : Found}
    (h : wording.find? text = some found) : wording.FitsFirst found.before found.onward := by
  obtain ⟨hfits, hfirst⟩ := findFrom?_first h
  simp only [Option.or_none] at hfits hfirst
  exact ⟨hfits, fun front back happend => hfirst front back (happend.trans (find?_append h))⟩

/-- A wording occurs in a text exactly if it fits at some place of it. -/
theorem occursIn_iff {wording : Wording} {text : List Char} :
    wording.occursIn text = true ↔
      ∃ before onward, before ++ onward = text ∧ wording.FitsAt before onward := by
  constructor
  · intro h
    obtain ⟨found, hfound⟩ := Option.isSome_iff_exists.1 h
    exact ⟨found.before, found.onward, find?_append hfound, (find?_fitsFirst hfound).fits⟩
  · rintro ⟨before, onward, rfl, hfits⟩
    exact occursIn_append hfits

/-! ## Wordings that end at a character -/

/-- The wording ends with a character that is not blank and stands nowhere else in it. -/
structure EndsAt (c : Char) (wording : Wording) : Prop where
  not_blank : isBlank c = false
  eq_concat : ∃ front, wording = front ++ [.chars [c]] ∧ ∀ text, Piece.chars text ∈ front → c ∉ text

section

variable {c : Char} {front : Wording} (hfront : ∀ text, Piece.chars text ∈ front → c ∉ text)
  {text : List Char}

include hfront in
theorem after?_of_notMem (htext : c ∉ text) (previous : Option Char) :
    after? previous (front ++ [.chars [c]]) text = none := by
  induction front generalizing previous text with
  | nil =>
    cases text with
    | nil => rfl
    | cons d text =>
      have hne : (c == d) = false := beq_false_of_ne fun e => htext (e ▸ List.mem_cons_self)
      simp [after?, List.isPrefixOf, hne]
  | cons piece front ih =>
    have hmore : ∀ text, Piece.chars text ∈ front → c ∉ text :=
      fun text hmem => hfront text (List.mem_cons_of_mem piece hmem)
    have htrim : c ∉ trimStart text := fun hmem => htext ((trimStart_suffix text).subset hmem)
    rw [List.cons_append]
    cases piece with
    | chars chars =>
      rw [after?]
      split
      · exact ih hmore (fun hmem => htext (List.mem_of_mem_drop hmem)) _
      · rfl
    | gap =>
      rw [after?]
      split
      · rfl
      · exact ih hmore htrim _
    | blanks => exact ih hmore htrim _
    | boundary =>
      rw [after?]
      split
      · exact ih hmore htext _
      · rfl

theorem indent_append_cons (hc : isBlank c = false) (text rest : List Char) :
    indent (text ++ c :: rest) = indent text ∧
      trimStart (text ++ c :: rest) = trimStart text ++ c :: rest := by
  induction text with
  | nil => simp [indent, trimStart, hc]
  | cons d text ih =>
    cases hd : isBlank d <;> simp_all [indent, trimStart]

theorem isPrefixOf_append_cons {chars : List Char} (hchars : c ∉ chars) (text rest : List Char) :
    chars.isPrefixOf (text ++ c :: rest) = chars.isPrefixOf text := by
  induction chars generalizing text with
  | nil => rfl
  | cons d chars ih =>
    have hmore : c ∉ chars := fun hmem => hchars (List.mem_cons_of_mem d hmem)
    cases text with
    | nil =>
      have hne : (d == c) = false := beq_false_of_ne fun e => hchars (e ▸ List.mem_cons_self)
      simp [List.isPrefixOf, hne]
    | cons e text => simp [List.isPrefixOf, ih hmore text]

include hfront in
/-- Whether the wording fits is decided by the text up to the first such character, and it covers the
text up to there. -/
theorem after?_append_cons (hc : isBlank c = false) (htext : c ∉ text) (previous : Option Char) :
    (∀ rest, after? previous (front ++ [.chars [c]]) (text ++ c :: rest) = some rest) ∨
      ∀ rest, after? previous (front ++ [.chars [c]]) (text ++ c :: rest) = none := by
  induction front generalizing previous text with
  | nil =>
    cases text with
    | nil => exact Or.inl fun rest => by simp [after?, List.isPrefixOf]
    | cons d text =>
      have hne : (c == d) = false := beq_false_of_ne fun e => htext (e ▸ List.mem_cons_self)
      exact Or.inr fun rest => by simp [after?, List.isPrefixOf, hne]
  | cons piece front ih =>
    have hmore : ∀ text, Piece.chars text ∈ front → c ∉ text :=
      fun text hmem => hfront text (List.mem_cons_of_mem piece hmem)
    have htrim : c ∉ trimStart text := fun hmem => htext ((trimStart_suffix text).subset hmem)
    rw [List.cons_append]
    cases piece with
    | chars chars =>
      have hpart (rest : List Char) : chars.isPrefixOf (text ++ c :: rest) = chars.isPrefixOf text :=
        isPrefixOf_append_cons (hfront chars List.mem_cons_self) text rest
      simp only [after?, hpart]
      by_cases hfits : chars.isPrefixOf text = true
      · have hle : chars.length ≤ text.length := (List.isPrefixOf_iff_prefix.1 hfits).length_le
        simp only [if_pos hfits, List.drop_append_of_le_length hle]
        exact ih hmore (fun hmem => htext (List.mem_of_mem_drop hmem)) _
      · exact Or.inr fun rest => by rw [if_neg hfits]
    | gap =>
      simp only [after?, (indent_append_cons hc text _).1, (indent_append_cons hc text _).2]
      by_cases hgap : (indent text).isEmpty = true
      · exact Or.inr fun rest => by rw [if_pos hgap]
      · simp only [if_neg hgap]
        exact ih hmore htrim _
    | blanks =>
      simp only [after?, (indent_append_cons hc text _).1, (indent_append_cons hc text _).2]
      exact ih hmore htrim _
    | boundary =>
      have hhead (rest : List Char) : (text ++ c :: rest).head? = (text ++ [c]).head? := by
        cases text <;> rfl
      simp only [after?, hhead]
      by_cases hboundary : isBoundary previous (text ++ [c]).head? = true
      · simp only [if_pos hboundary]
        exact ih hmore htext _
      · exact Or.inr fun rest => by rw [if_neg hboundary]

end

theorem EndsAt.after?_eq {c : Char} {wording : Wording} (h : wording.EndsAt c) (previous : Option Char)
    {text after : List Char} (hafter : wording.after? previous text = some after) :
    ∃ front, c ∉ front ∧ text = front ++ c :: after ∧
      ∀ rest, wording.after? previous (front ++ c :: rest) = some rest := by
  obtain ⟨front, rfl, hfront⟩ := h.eq_concat
  by_cases hmem : c ∈ text
  · obtain ⟨before, onward, rfl, hbefore⟩ := List.eq_append_cons_of_mem hmem
    rcases after?_append_cons hfront h.not_blank hbefore previous with hsome | hnone
    · rw [hsome] at hafter
      cases hafter
      exact ⟨before, hbefore, rfl, hsome⟩
    · rw [hnone] at hafter
      cases hafter
  · rw [after?_of_notMem hfront hmem] at hafter
    cases hafter

/-- Where such a wording is found, its character stands in front of what follows. -/
theorem EndsAt.find?_eq {c : Char} {wording : Wording} (h : wording.EndsAt c) {text : List Char}
    {found : Found} (hfound : wording.find? text = some found) :
    ∃ front, text = front ++ c :: found.after := by
  obtain ⟨before, hafter⟩ := findFrom?_fits hfound
  obtain ⟨front, -, honward, -⟩ := h.after?_eq before hafter
  refine ⟨found.before ++ front, ?_⟩
  rw [List.append_assoc, ← honward, find?_append hfound]

theorem EndsAt.after?_none {c : Char} {wording : Wording} (h : wording.EndsAt c)
    {previous : Option Char} {text after : List Char} (hc : c ∈ text)
    (hnone : wording.after? previous (text ++ after) = none) (rest : List Char) :
    wording.after? previous (text ++ rest) = none := by
  obtain ⟨front, rfl, hfront⟩ := h.eq_concat
  obtain ⟨before, onward, rfl, hbefore⟩ := List.eq_append_cons_of_mem hc
  rw [List.append_assoc, List.cons_append] at hnone ⊢
  rcases after?_append_cons hfront h.not_blank hbefore previous with hsome | hnone'
  · rw [hsome] at hnone
    cases hnone
  · exact hnone' _

/-- **Where such a wording is found does not depend on what follows it.** -/
theorem EndsAt.findFrom?_eq {c : Char} {wording : Wording} (h : wording.EndsAt c)
    {previous : Option Char} {text : List Char} {found : Found}
    (hfound : wording.findFrom? previous text = some found) :
    ∃ head, c ∈ head ∧ text = head ++ found.after ∧ ∀ rest, ∃ other,
      wording.findFrom? previous (head ++ rest) = some other ∧ other.after = rest := by
  induction text generalizing previous found with
  | nil =>
    obtain ⟨after, hafter, -⟩ := Option.map_eq_some_iff.1 hfound
    obtain ⟨front, -, htext, -⟩ := h.after?_eq previous hafter
    cases front <;> cases htext
  | cons d tail ih =>
    unfold findFrom? at hfound
    split at hfound
    · next after hafter =>
      cases hfound
      obtain ⟨front, -, htext, hfits⟩ := h.after?_eq previous hafter
      refine ⟨front ++ [c], by simp, by simpa using htext, fun rest => ?_⟩
      have hrest := hfits rest
      rw [List.append_assoc, List.singleton_append]
      cases hcons : front ++ c :: rest with
      | nil => simp at hcons
      | cons e more =>
        rw [hcons] at hrest
        exact ⟨⟨[], e :: more, rest⟩, by simp [findFrom?, hrest], rfl⟩
    · next hnone =>
      obtain ⟨later, hlater, rfl⟩ := Option.map_eq_some_iff.1 hfound
      obtain ⟨head, hmem, htext, hfits⟩ := ih hlater
      refine ⟨d :: head, List.mem_cons_of_mem d hmem, by rw [htext]; rfl, fun rest => ?_⟩
      obtain ⟨other, hother, hafter⟩ := hfits rest
      rw [htext] at hnone
      have hstill := h.after?_none (List.mem_cons_of_mem d hmem) hnone rest
      refine ⟨{ other with before := d :: other.before }, ?_, hafter⟩
      rw [List.cons_append] at hstill ⊢
      rw [findFrom?, hstill]
      dsimp only
      rw [hother]
      rfl

end ModelMend.Text.Wording
