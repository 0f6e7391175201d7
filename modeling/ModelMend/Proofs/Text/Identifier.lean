import ModelMend.Text.Blank
import ModelMend.Text.Identifier

/-!
# What an identifier character is not

The characters that mean something to the lexer, to the scanner or to the splitting of lines are no
identifier characters, and neither is white space. That tables of characters have nothing in common is
checked in one pass over both (`CharTable.isApart`).
-/

namespace ModelMend.Text

/-! ## Tables apart from each other -/

namespace CharTable

/-- No range of the table meets one of the others, and none starts below the bound. Both tables are gone
through once: what ends before a range starts is out of the way of all later ranges. -/
def isApart (low : Nat) : CharTable → CharTable → Bool
  | [], _ => true
  | range :: table, others =>
    low.ble range.1 &&
      match others.dropWhile fun other => other.2.blt range.1 with
      | [] => isApart range.1 table []
      | next :: rest => range.2.blt next.1 && isApart range.1 table (next :: rest)

/-- Ranges in order that a table is apart from are all before or behind its ranges. -/
theorem apart_of_isApart {low : Nat} {table others : CharTable}
    (hordered : others.Pairwise fun other next => other.1 ≤ next.1)
    (h : isApart low table others = true) : ∀ range ∈ table,
      low ≤ range.1 ∧ ∀ other ∈ others, range.2 < other.1 ∨ other.2 < range.1 := by
  induction table generalizing low others with
  | nil => exact fun _ hrange => nomatch hrange
  | cons first table ih =>
    have hlater := hordered.sublist (List.dropWhile_sublist fun other => other.2.blt first.1)
    -- What is dropped ends before the first range, and so before the ranges behind it.
    have hsplit : ∀ other ∈ others, other.2 < first.1 ∨
        other ∈ others.dropWhile fun other => other.2.blt first.1 := by
      intro other hother
      rw [← List.takeWhile_append_dropWhile (p := fun other => other.2.blt first.1) (l := others),
        List.mem_append] at hother
      exact hother.imp_left fun hbefore =>
        Nat.blt_eq.mp (List.all_eq_true.1 List.all_takeWhile other hbefore)
    rw [isApart, Bool.and_eq_true, Nat.ble_eq] at h
    obtain ⟨hlow, hapart⟩ := h
    generalize others.dropWhile (fun other => other.2.blt first.1) = later at hlater hsplit hapart
    have hstart : ∀ other ∈ later, first.2 < other.1 := by
      cases later with
      | nil => exact fun _ hother => nomatch hother
      | cons next rest =>
        have hnext := Nat.blt_eq.mp (Bool.and_eq_true_iff.1 hapart).1
        intro other hother
        rcases List.mem_cons.1 hother with rfl | hfar
        · exact hnext
        · exact Nat.lt_of_lt_of_le hnext ((List.pairwise_cons.1 hlater).1 other hfar)
    have hmore : isApart first.1 table later = true := by
      cases later with
      | nil => exact hapart
      | cons next rest => exact (Bool.and_eq_true_iff.1 hapart).2
    intro range hrange
    rcases List.mem_cons.1 hrange with rfl | hbehind
    · exact ⟨hlow, fun other hother => (hsplit other hother).symm.imp_left (hstart other)⟩
    · obtain ⟨hle, hbetween⟩ := ih hlater hmore range hbehind
      refine ⟨Nat.le_trans hlow hle, fun other hother => ?_⟩
      rcases hsplit other hother with hbefore | hmem
      · exact Or.inr (Nat.lt_of_lt_of_le hbefore hle)
      · exact hbetween other hmem

end CharTable

/-! ## Identifier characters -/

theorem isAlpha_iff {c : Char} : c.isAlpha = true ↔
    (0x41 ≤ c.toNat ∧ c.toNat ≤ 0x5a) ∨ (0x61 ≤ c.toNat ∧ c.toNat ≤ 0x7a) := by
  have hletter : c.isAlpha = (decide (c.val ≥ 'A'.val ∧ c.val ≤ 'Z'.val) ||
      (decide (c.val ≥ 'a'.val) && decide (c.val ≤ 'z'.val))) := rfl
  simp only [hletter, Bool.or_eq_true, Bool.and_eq_true, decide_eq_true_eq, ge_iff_le,
    UInt32.le_iff_toNat_le]
  exact Iff.rfl

theorem isDigit_iff {c : Char} : c.isDigit = true ↔ 0x30 ≤ c.toNat ∧ c.toNat ≤ 0x39 := by
  simp only [Char.isDigit, Bool.and_eq_true, decide_eq_true_eq, ge_iff_le,
    UInt32.le_iff_toNat_le]
  exact Iff.rfl

/-- The tables of the identifier characters. -/
def identTables : List CharTable :=
  [[(0x30, 0x39), (0x41, 0x5a), (0x5f, 0x5f), (0x61, 0x7a)], identStartTable, identTailTable]

theorem has_identTables {c : Char} (h : isIdentContinue c = true) :
    ∃ table ∈ identTables, table.has c = true := by
  simp only [isIdentContinue, isIdentStart, Bool.or_eq_true, Bool.and_eq_true, decide_eq_true_eq,
    beq_iff_eq] at h
  rcases h with (((hline | hletter) | hstart) | hdigit) | htail
  · subst hline
    exact ⟨_, List.mem_cons_self, by decide⟩
  · refine ⟨_, List.mem_cons_self, CharTable.has_eq_true_iff.2 ?_⟩
    rcases isAlpha_iff.1 hletter with hrange | hrange
    · exact ⟨(0x41, 0x5a), by simp, hrange⟩
    · exact ⟨(0x61, 0x7a), by simp, hrange⟩
  · exact ⟨_, by simp [identTables], hstart.2⟩
  · exact ⟨_, List.mem_cons_self,
      CharTable.has_eq_true_iff.2 ⟨(0x30, 0x39), by simp, isDigit_iff.1 hdigit⟩⟩
  · exact ⟨_, by simp [identTables], htail.2⟩

/-- White space and the special characters outside ASCII, in order. -/
def apartTable : CharTable :=
  [(0x09, 0x0d), (0x20, 0x20), (0x85, 0x85), (0xa0, 0xa0), (0x1680, 0x1680), (0x2000, 0x200a),
   (0x200e, 0x200f), (0x2028, 0x2029), (0x202f, 0x202f), (0x205f, 0x205f), (0x3000, 0x3000),
   (0xfeff, 0xfeff)]

theorem not_has_apartTable {c : Char} (h : isIdentContinue c = true) : apartTable.has c = false := by
  have hordered : apartTable.Pairwise fun other next => other.1 ≤ next.1 := by decide
  have hapart : identTables.all (CharTable.isApart 0 · apartTable) = true := by decide +kernel
  obtain ⟨table, htable, hc⟩ := has_identTables h
  obtain ⟨range, hrange, hlow, hhigh⟩ := CharTable.has_eq_true_iff.1 hc
  have htables := CharTable.apart_of_isApart hordered (List.all_eq_true.1 hapart table htable)
  rw [Bool.eq_false_iff]
  intro hother
  obtain ⟨other, hmem, hlow', hhigh'⟩ := CharTable.has_eq_true_iff.1 hother
  have := (htables range hrange).2 other hmem
  omega

theorem not_isBlank_of_isIdentContinue {c : Char} (h : isIdentContinue c = true) :
    isBlank c = false := by
  have hpart : whiteSpace ⊆ apartTable := by decide
  rw [Bool.eq_false_iff]
  intro hblank
  obtain ⟨range, hrange, hc⟩ := CharTable.has_eq_true_iff.1 hblank
  have hhas : apartTable.has c = true := CharTable.has_eq_true_iff.2 ⟨range, hpart hrange, hc⟩
  rw [not_has_apartTable h] at hhas
  cases hhas

/-- The characters with a meaning of their own. -/
def specialChars : List Char :=
  "\"'#<>,:-+=!/\\()[]\x7b\x7d;.&* \n\u200e\u200f\ufeff".toList

theorem notMem_specialChars {c : Char} (h : isIdentContinue c = true) : c ∉ specialChars := by
  -- Of the characters outside ASCII only the ranges are looked at, which is faster.
  have hmarks : specialChars.all (fun d => apartTable.has d || !isIdentContinue d) = true := by
    decide +kernel
  intro hmem
  have hmark := List.all_eq_true.1 hmarks c hmem
  rw [h, not_has_apartTable h] at hmark
  cases hmark

theorem ne_of_isIdentContinue {c d : Char} (h : isIdentContinue c = true)
    (hd : d ∈ specialChars) : c ≠ d := by
  rintro rfl
  exact notMem_specialChars h hd

theorem not_isIdentContinue_of_special {c : Char} (h : c ∈ specialChars) : isIdentContinue c = false := by
  rw [Bool.eq_false_iff]
  intro hident
  exact notMem_specialChars hident h

theorem not_isIdentContinue_of_isBlank (c : Char) (hc : isBlank c = true) :
    isIdentContinue c = false := by
  rw [Bool.eq_false_iff]
  intro hident
  rw [not_isBlank_of_isIdentContinue hident] at hc
  cases hc

theorem not_isIdentStart_of_not_isIdentContinue {c : Char} (h : isIdentContinue c = false) :
    isIdentStart c = false := by
  rw [Bool.eq_false_iff]
  intro hstart
  rw [isIdentContinue_of_isIdentStart hstart] at h
  cases h

theorem not_isIdentStart_of_isBlank (c : Char) (hc : isBlank c = true) : isIdentStart c = false :=
  not_isIdentStart_of_not_isIdentContinue (not_isIdentContinue_of_isBlank c hc)

theorem not_isDigit_of_not_isIdentContinue {c : Char} (h : isIdentContinue c = false) :
    c.isDigit = false := by
  rw [Bool.eq_false_iff]
  intro hdigit
  simp [isIdentContinue, hdigit] at h

theorem not_isDigit_of_isIdentStart {c : Char} (h : isIdentStart c = true) :
    c.isDigit = false := by
  rw [Bool.eq_false_iff]
  intro hdigit
  have hrange := isDigit_iff.1 hdigit
  simp only [isIdentStart, Bool.or_eq_true, Bool.and_eq_true, decide_eq_true_eq, beq_iff_eq] at h
  rcases h with (hline | hletter) | ⟨hhigh, -⟩
  · subst hline
    cases hdigit
  · have := isAlpha_iff.1 hletter
    omega
  · omega

end ModelMend.Text
