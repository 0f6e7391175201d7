import Mathlib.Algebra.Group.Nat.Defs
import ModelMend.Toml.Document

/-!
# Dates and times read back

The text of a date or a time is a value of a document and reads back as the same date or time
(`value?_dateTime`), as long as nothing stands behind it that could go on with it.
-/

namespace ModelMend.Toml

/-! ## Digits -/

theorem length_fixedDigits (width n : Nat) : (fixedDigits width n).length = width := by
  induction width generalizing n with
  | zero => rfl
  | succ width ih => rw [fixedDigits, List.length_append, ih, List.length_singleton]

theorem isDigit_of_mem_fixedDigits {width n : Nat} {c : Char} (h : c ∈ fixedDigits width n) :
    c.isDigit = true := by
  have hdigit : ∀ digit < 10, (Nat.digitChar digit).isDigit = true := by decide
  induction width generalizing n with
  | zero => cases h
  | succ width ih =>
    rw [fixedDigits, List.mem_append, List.mem_singleton] at h
    rcases h with hfront | rfl
    · exact ih hfront
    · exact hdigit _ (Nat.mod_lt n (by decide))

/-- Digits denote the number that they are the last digits of. -/
theorem digitsValue_fixedDigits {width n : Nat} (h : n < 10 ^ width) :
    digitsValue (fixedDigits width n) = n := by
  have hdigit : ∀ digit < 10, (Nat.digitChar digit).toNat - '0'.toNat = digit := by decide
  unfold digitsValue
  induction width generalizing n with
  | zero =>
    rw [Nat.pow_zero, Nat.lt_one_iff] at h
    rw [h]
    rfl
  | succ width ih =>
    have hfront : n / 10 < 10 ^ width := by
      rw [Nat.pow_succ] at h
      omega
    rw [fixedDigits, List.foldl_append, ih hfront, List.foldl_cons, List.foldl_nil,
      hdigit _ (Nat.mod_lt n (by decide)), Nat.div_add_mod]

theorem digits?_fixedDigits {width n : Nat} (h : n < 10 ^ width) (rest : List Char) :
    digits? width (fixedDigits width n ++ rest) = some (n, rest) := by
  have hlength := length_fixedDigits width n
  have hall : (fixedDigits width n).all Char.isDigit = true :=
    List.all_eq_true.2 fun c hc => isDigit_of_mem_fixedDigits hc
  unfold digits?
  dsimp only
  rw [List.take_left' hlength, List.drop_left' hlength, digitsValue_fixedDigits h,
    if_pos ⟨hlength, hall⟩]

theorem afterMark?_cons {marks : List Char} {c : Char} (h : c ∈ marks) (text : List Char) :
    afterMark? marks (c :: text) = some text :=
  if_pos h

/-! ## Dates -/

theorem date?_text (value : Date) (rest : List Char) :
    date? (value.text ++ rest) = some (value, rest) := by
  obtain ⟨year, month, day, valid⟩ := value
  obtain ⟨hyear, ⟨-, hmonth⟩, -, hday⟩ := id valid
  have hdays : daysOfMonth year month ≤ 31 := by
    unfold daysOfMonth
    repeat' split
    all_goals decide
  have htext : Date.text ⟨year, month, day, valid⟩ ++ rest = fixedDigits 4 year ++
      '-' :: (fixedDigits 2 month ++ '-' :: (fixedDigits 2 day ++ rest)) := by
    simp only [Date.text, List.append_assoc, List.cons_append]
  have hmark := afterMark?_cons (List.mem_singleton_self '-')
  rw [htext, date?]
  simp only [Option.bind_eq_bind, digits?_fixedDigits (show year < 10 ^ 4 by omega), hmark,
    digits?_fixedDigits (show month < 10 ^ 2 by omega),
    digits?_fixedDigits (show day < 10 ^ 2 by omega), Option.bind_some]
  exact dif_pos valid

/-! ## Times -/

/-- Nothing stands in front that could go on with a second or its digits. -/
def EndsSecond (rest : List Char) : Prop :=
  ∀ c ∈ rest.head?, c ≠ '.' ∧ c.isDigit = false

/-- The digits behind the point are those of the number, but for zeros at the end. -/
theorem exists_zeros (nanosecond : Nat) : ∃ count,
    fixedDigits 9 nanosecond = fractionDigits nanosecond ++ List.replicate count '0' := by
  have hzeros : ∀ c ∈ (fixedDigits 9 nanosecond).reverse.takeWhile (· == '0'), c = '0' :=
    fun c hc => beq_iff_eq.1 (List.all_eq_true.1 List.all_takeWhile c hc)
  refine ⟨((fixedDigits 9 nanosecond).reverse.takeWhile (· == '0')).length, ?_⟩
  rw [fractionDigits, ← List.reverse_replicate, ← List.eq_replicate_of_mem hzeros,
    ← List.reverse_append, List.takeWhile_append_dropWhile, List.reverse_reverse]

theorem billionths_fractionDigits {nanosecond : Nat} (h : nanosecond < 10 ^ 9) :
    billionths (fractionDigits nanosecond) = nanosecond := by
  obtain ⟨count, hdigits⟩ := exists_zeros nanosecond
  have hlength := length_fixedDigits 9 nanosecond
  have hcount : 9 = count + (9 - count) := by
    rw [hdigits, List.length_append, List.length_replicate] at hlength
    omega
  have hfilled : fractionDigits nanosecond ++ List.replicate 9 '0' =
      fixedDigits 9 nanosecond ++ List.replicate (9 - count) '0' := by
    rw [hdigits, List.append_assoc, List.replicate_append_replicate, ← hcount]
  rw [billionths, hfilled, List.take_left' hlength, digitsValue_fixedDigits h]

theorem isDigit_of_mem_fractionDigits {nanosecond : Nat} {c : Char}
    (h : c ∈ fractionDigits nanosecond) : c.isDigit = true := by
  obtain ⟨count, hdigits⟩ := exists_zeros nanosecond
  exact isDigit_of_mem_fixedDigits (hdigits ▸ List.mem_append_left _ h)

theorem readFraction_text {nanosecond : Nat} (h : nanosecond < 10 ^ 9) {rest : List Char}
    (hrest : EndsSecond rest) :
    readFraction (fractionText nanosecond ++ rest) = (nanosecond, rest) := by
  unfold fractionText
  by_cases hzero : nanosecond = 0
  · rw [if_pos hzero, List.nil_append, hzero]
    cases rest with
    | nil => rfl
    | cons c rest =>
      have hpoint : c ≠ '.' := (hrest c rfl).1
      unfold readFraction
      split
      · next heq => exact absurd (List.cons.inj heq).1 hpoint
      · rfl
  · have hrun : (fractionDigits nanosecond ++ rest).takeWhile Char.isDigit =
        fractionDigits nanosecond ∧
        (fractionDigits nanosecond ++ rest).dropWhile Char.isDigit = rest := by
      rw [List.takeWhile_append_of_pos fun c hc => isDigit_of_mem_fractionDigits hc,
        List.dropWhile_append_of_pos fun c hc => isDigit_of_mem_fractionDigits hc]
      cases rest with
      | nil => simp
      | cons c rest => simp [(hrest c rfl).2]
    have hsome : (fractionDigits nanosecond).isEmpty = false := by
      rw [List.isEmpty_eq_false_iff]
      intro hnil
      have hvalue := billionths_fractionDigits h
      rw [hnil] at hvalue
      exact hzero hvalue.symm
    rw [if_neg hzero, List.cons_append, readFraction, hrun.1, hrun.2, hsome,
      billionths_fractionDigits h]
    rfl

theorem time?_text (value : TimeOfDay) {rest : List Char} (hrest : EndsSecond rest) :
    time? (value.text ++ rest) = some (value, rest) := by
  obtain ⟨hour, minute, second, nanosecond, valid⟩ := value
  obtain ⟨hhour, hminute, hsecond, hnanosecond⟩ := id valid
  have htext : TimeOfDay.text ⟨hour, minute, second, nanosecond, valid⟩ ++ rest =
      fixedDigits 2 hour ++ ':' :: (fixedDigits 2 minute ++
        ':' :: (fixedDigits 2 second ++ (fractionText nanosecond ++ rest))) := by
    simp only [TimeOfDay.text, clockText, List.append_assoc, List.cons_append]
  have hmark := afterMark?_cons (List.mem_singleton_self ':')
  rw [htext, time?]
  simp only [Option.bind_eq_bind, digits?_fixedDigits (show hour < 10 ^ 2 by omega), hmark,
    digits?_fixedDigits (show minute < 10 ^ 2 by omega),
    digits?_fixedDigits (show second < 10 ^ 2 by omega), Option.bind_some,
    readFraction_text hnanosecond hrest]
  exact dif_pos valid

/-! ## Offsets -/

/-- Minutes with a sign are written as hours and minutes, and read back. -/
theorem shift?_clockText {count : Int} (valid : count.natAbs < 24 * 60) (isBehind : Bool)
    (hsign : (if isBehind then -(count.natAbs : Int) else count.natAbs) = count)
    (rest : List Char) :
    shift? isBehind (clockText (count.natAbs / 60) (count.natAbs % 60) ++ rest) =
      some (.minutes count valid, rest) := by
  have htext : clockText (count.natAbs / 60) (count.natAbs % 60) ++ rest =
      fixedDigits 2 (count.natAbs / 60) ++ ':' :: (fixedDigits 2 (count.natAbs % 60) ++ rest) := by
    simp only [clockText, List.append_assoc, List.cons_append]
  have hmark := afterMark?_cons (List.mem_singleton_self ':')
  have hsum : 60 * (count.natAbs / 60 : Nat) + (count.natAbs % 60 : Nat) = (count.natAbs : Int) := by
    omega
  rw [htext, shift?]
  simp only [Option.bind_eq_bind, digits?_fixedDigits (show count.natAbs / 60 < 10 ^ 2 by omega),
    hmark, digits?_fixedDigits (show count.natAbs % 60 < 10 ^ 2 by omega), Option.bind_some, hsum,
    hsign]
  rw [dif_pos valid, if_pos (Nat.mod_lt _ (by decide))]

theorem offset?_text (value : Offset) (rest : List Char) :
    offset? (value.text ++ rest) = some (value, rest) := by
  cases value with
  | universal => rfl
  | minutes count valid =>
    rw [Offset.text]
    by_cases hsign : count < 0
    · rw [if_pos hsign]
      exact shift?_clockText valid true (by rw [if_pos rfl]; omega) rest
    · rw [if_neg hsign]
      exact shift?_clockText valid false (by rw [if_neg Bool.false_ne_true]; omega) rest

/-! ## Dates with times -/

/-- Nothing stands in front that could go on with a date or a time. -/
def EndsDateTime (rest : List Char) : Prop :=
  ∀ c ∈ rest.head?, c ∉ ['.', 'T', 't', ' ', 'Z', 'z', '+', '-'] ∧ c.isDigit = false

theorem EndsDateTime.endsSecond {rest : List Char} (h : EndsDateTime rest) : EndsSecond rest :=
  fun c hc => ⟨fun heq => (h c hc).1 (heq ▸ List.mem_cons_self), (h c hc).2⟩

theorem offset?_of_endsDateTime {rest : List Char} (h : EndsDateTime rest) : offset? rest = none := by
  cases rest with
  | nil => rfl
  | cons c rest =>
    have hmark : ∀ mark ∈ ['Z', 'z', '+', '-'], c ≠ mark := by
      rintro mark hmark rfl
      have hmore : ['Z', 'z', '+', '-'] ⊆ ['.', 'T', 't', ' ', 'Z', 'z', '+', '-'] := by decide
      exact (h c rfl).1 (hmore hmark)
    simp only [List.forall_mem_cons] at hmark
    obtain ⟨hZ, hz, hplus, hminus, -⟩ := hmark
    rw [offset?, if_neg (not_or.2 ⟨hZ, hz⟩), if_neg hplus, if_neg hminus]

theorem afterMark?_of_endsDateTime {rest : List Char} (h : EndsDateTime rest) :
    afterMark? ['T', 't', ' '] rest = none := by
  cases rest with
  | nil => rfl
  | cons c rest =>
    have hmore : ['T', 't', ' '] ⊆ ['.', 'T', 't', ' ', 'Z', 'z', '+', '-'] := by decide
    exact if_neg fun hmem => (h c rfl).1 (hmore hmem)

/-- An offset does not go on with a second. -/
theorem endsSecond_offset (offset : Option Offset) {rest : List Char} (hrest : EndsSecond rest) :
    EndsSecond ((offset.map Offset.text).getD [] ++ rest) := by
  cases offset with
  | none => exact hrest
  | some offset =>
    cases offset with
    | universal =>
      rintro c ⟨⟩
      decide
    | minutes count valid =>
      rw [Option.map_some, Option.getD_some, Offset.text, List.cons_append]
      split <;> (rintro c ⟨⟩; decide)

/-- A time of a day alone does not begin like a date. -/
theorem date?_time_text (value : TimeOfDay) (rest : List Char) : date? (value.text ++ rest) = none := by
  have hcolon : ':' ∈ (value.text ++ rest).take 4 := by
    have hlength := length_fixedDigits 2 value.hour
    simp [TimeOfDay.text, clockText, List.take_append, hlength]
  have hnone : digits? 4 (value.text ++ rest) = none := by
    refine if_neg fun h => ?_
    have hdigit := List.all_eq_true.1 h.2 ':' hcolon
    revert hdigit
    decide
  rw [date?, hnone]
  rfl

/-- A date or a time reads back from its text. -/
theorem dateTime?_text (value : DateTime) {rest : List Char} (hrest : EndsDateTime rest) :
    dateTime? (value.text ++ rest) = some (value, rest) := by
  unfold dateTime?
  cases value with
  | date value =>
    rw [DateTime.text, date?_text]
    dsimp only
    rw [afterMark?_of_endsDateTime hrest]
    rfl
  | time value =>
    rw [DateTime.text, date?_time_text, time?_text value hrest.endsSecond]
    rfl
  | moment day clock offset =>
    have hend := endsSecond_offset offset hrest.endsSecond
    rw [DateTime.text, List.append_assoc, List.cons_append, List.append_assoc, date?_text]
    dsimp only
    rw [afterMark?_cons (by decide), Option.bind_some, time?_text clock hend]
    dsimp only
    cases offset with
    | none => rw [Option.map_none, Option.getD_none, List.nil_append, offset?_of_endsDateTime hrest]
    | some offset => rw [Option.map_some, Option.getD_some, offset?_text]

example : (dateTime? "1979-05-27 07:32:00.50Z".toList).map (·.1.text) =
    some "1979-05-27T07:32:00.5Z".toList := by
  decide

theorem exists_digit_fixedDigits (width n : Nat) (rest : List Char) :
    ∃ c text, fixedDigits (width + 1) n ++ rest = c :: text ∧ c.isDigit = true := by
  have hlength := length_fixedDigits (width + 1) n
  cases hdigits : fixedDigits (width + 1) n with
  | nil => simp [hdigits] at hlength
  | cons c text =>
    have hmem : c ∈ fixedDigits (width + 1) n := hdigits ▸ List.mem_cons_self
    exact ⟨c, text ++ rest, rfl, isDigit_of_mem_fixedDigits hmem⟩

theorem exists_digit_text (value : DateTime) (rest : List Char) :
    ∃ c text, value.text ++ rest = c :: text ∧ c.isDigit = true := by
  cases value with
  | date value =>
    rw [DateTime.text, Date.text, List.append_assoc]
    exact exists_digit_fixedDigits 3 _ _
  | time value =>
    rw [DateTime.text, TimeOfDay.text, clockText, List.append_assoc, List.append_assoc]
    exact exists_digit_fixedDigits 1 _ _
  | moment day clock offset =>
    rw [DateTime.text, Date.text, List.append_assoc, List.append_assoc]
    exact exists_digit_fixedDigits 3 _ _

/-- The text of a date or a time is a value of a document. -/
theorem value?_dateTime (depth : Nat) (value : DateTime) {rest : List Char}
    (hrest : EndsDateTime rest) :
    value? depth (value.text ++ rest) = some (.dateTime value, rest) := by
  have hread := dateTime?_text value hrest
  obtain ⟨c, text, htext, hc⟩ := exists_digit_text value rest
  have hopening : ∀ mark ∈ ['"', '\'', '[', '\x7b'], c ≠ mark := by
    have hdigit : ['"', '\'', '[', '\x7b'].all (fun mark => !mark.isDigit) = true := rfl
    rintro mark hmark rfl
    have hnot := List.all_eq_true.1 hdigit c hmark
    rw [hc] at hnot
    cases hnot
  simp only [List.forall_mem_cons] at hopening
  obtain ⟨hquote, hapostrophe, hbracket, hbrace, -⟩ := hopening
  rw [htext] at hread ⊢
  unfold value?
  split
  · next heq => exact absurd (List.cons.inj heq).1 hquote
  · next heq => exact absurd (List.cons.inj heq).1 hapostrophe
  · next heq => exact absurd (List.cons.inj heq).1 hbracket
  · next heq => exact absurd (List.cons.inj heq).1 hbrace
  · rw [hread]

end ModelMend.Toml
