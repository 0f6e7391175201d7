import ModelMend.Grammar.Table

/-!
# Rules only take from the front

What a rule leaves is an end of the tokens it was given, whatever the grammar and the fuel.
-/

namespace ModelMend.Grammar

variable {P : Type}

namespace Rule

theorem takeOp_suffix {chars : List Char} {tokens rest : List Token}
    (h : takeOp chars tokens = some rest) : rest <:+ tokens := by
  fun_induction takeOp chars tokens with
  | case1 =>
    cases h
    exact List.suffix_refl _
  | case2 =>
    cases h
    exact List.suffix_cons _ _
  | case3 => cases h
  | case4 _ _ _ _ ih => exact (ih h).trans (List.suffix_cons _ _)
  | case5 => cases h
  | case6 => cases h

theorem takeOne_suffix {test : Token → Bool} {tokens rest : List Token}
    (h : takeOne test tokens = some rest) : rest <:+ tokens := by
  unfold takeOne at h
  split at h
  · split at h <;> cases h
    exact List.suffix_cons _ _
  · cases h

/-- What a rule leaves is an end of the tokens. -/
theorem run_suffix {grammar : P → Rule P} {fuel : Nat} {rule : Rule P} {tokens rest : List Token}
    (h : run grammar fuel rule tokens = some rest) : rest <:+ tokens := by
  induction fuel generalizing rule tokens rest with
  | zero => simp [run] at h
  | succ fuel ih =>
    cases rule with
    | nothing =>
      cases h
      exact List.suffix_refl _
    | never => cases h
    | atEnd =>
      simp only [run] at h
      split at h <;> cases h
      exact List.suffix_refl _
    | op chars => exact takeOp_suffix h
    | word name => exact takeOne_suffix h
    | one kind => exact takeOne_suffix h
    | any => exact takeOne_suffix h
    | group delimiter => exact takeOne_suffix h
    | within delimiter body =>
      simp only [run] at h
      split at h
      · split at h
        · split at h <;> cases h
          exact List.suffix_cons _ _
        · cases h
      · cases h
    | seq first second =>
      simp only [run] at h
      split at h
      · next middle hfirst => exact (ih h).trans (ih hfirst)
      · cases h
    | choose look yes no =>
      simp only [run] at h
      split at h
      · exact ih h
      · exact ih h
    | loop look body =>
      simp only [run] at h
      split at h
      · split at h
        · next middle hbody => exact (ih h).trans (ih hbody)
        · cases h
      · cases h
        exact List.suffix_refl _
    | named name => exact ih h

theorem rest?_suffix {grammar : P → Rule P} {rule : Rule P} {tokens rest : List Token}
    (h : rest? grammar rule tokens = some rest) : rest <:+ tokens :=
  run_suffix h

end Rule

theorem after?_suffix {rule : Rule Phrase} {tokens rest : List Token}
    (h : after? rule tokens = some rest) : rest <:+ tokens :=
  Rule.rest?_suffix h

end ModelMend.Grammar
