/-!
# Tables of characters

A Unicode property is data: a list of inclusive ranges of code points in increasing order. The
modules that need a property hold its table and ask `CharTable.has`.
-/

namespace ModelMend.Text

/-- Where no mark is of a class, a character of the class is none of the marks. -/
theorem notMem_of_any {p : Char → Bool} {marks : List Char} (hnone : marks.any p = false) {c : Char}
    (hc : p c = true) : c ∉ marks :=
  fun hmem => List.any_eq_false.1 hnone c hmem hc

/-- Inclusive ranges of code points, in increasing order and apart from each other. -/
abbrev CharTable := List (Nat × Nat)

namespace CharTable

/-- Some range of the table holds the character. -/
def has (table : CharTable) (c : Char) : Bool :=
  table.any fun range => range.1 ≤ c.toNat && c.toNat ≤ range.2

theorem has_eq_true_iff {table : CharTable} {c : Char} :
    table.has c = true ↔ ∃ range ∈ table, range.1 ≤ c.toNat ∧ c.toNat ≤ range.2 := by
  simp [has]

@[simp] theorem has_nil (c : Char) : CharTable.has [] c = false := rfl

theorem has_append (front back : CharTable) (c : Char) :
    CharTable.has (front ++ back) c = (front.has c || back.has c) := by
  simp [has]

end CharTable

end ModelMend.Text
