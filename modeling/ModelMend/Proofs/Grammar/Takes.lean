import ModelMend.Grammar.Rule
import ModelMend.Proofs.Grammar.Progress

/-!
# What a rule takes with enough fuel

`Takes` says what a rule does with tokens for any fuel from a bound on, so that the parts of a rule can
be put together without counting. A rule that only looks ahead is evaluated by `front?`, which needs
no fuel. A sign that occurs nowhere in the tokens is not taken, however much of them has gone.
-/

namespace ModelMend.Grammar.Rule

variable {P : Type} {grammar : P → Rule P} {rule first second look yes no body : Rule P}
  {tokens rest : List Token} {result : Option (List Token)} {n : Nat}

/-- From this bound on, more fuel does not change what the rule does with the tokens. -/
def Takes (grammar : P → Rule P) (n : Nat) (rule : Rule P) (tokens : List Token)
    (result : Option (List Token)) : Prop :=
  ∀ fuel, n ≤ fuel → run grammar fuel rule tokens = result

namespace Takes

theorem mono {m : Nat} (h : Takes grammar n rule tokens result) (hle : n ≤ m) :
    Takes grammar m rule tokens result :=
  fun fuel hfuel => h fuel (Nat.le_trans hle hfuel)

theorem nothing : Takes grammar 1 nothing tokens (some tokens)
  | _ + 1, _ => rfl

theorem seq (hfirst : Takes grammar n first tokens (some rest))
    (hsecond : Takes grammar n second rest result) :
    Takes grammar (n + 1) (first ++ second) tokens result
  | fuel + 1, hfuel => by
    have hle := Nat.le_of_succ_le_succ hfuel
    rw [run_append, hfirst fuel hle]
    exact hsecond fuel hle

theorem choose_yes (hlook : Takes grammar n look tokens (some rest))
    (hyes : Takes grammar n yes tokens result) :
    Takes grammar (n + 1) (choose look yes no) tokens result
  | fuel + 1, hfuel => by
    have hle := Nat.le_of_succ_le_succ hfuel
    rw [run, hlook fuel hle]
    exact hyes fuel hle

theorem choose_no (hlook : Takes grammar n look tokens none)
    (hno : Takes grammar n no tokens result) :
    Takes grammar (n + 1) (choose look yes no) tokens result
  | fuel + 1, hfuel => by
    have hle := Nat.le_of_succ_le_succ hfuel
    rw [run, hlook fuel hle]
    exact hno fuel hle

theorem loop_stop (hlook : Takes grammar n look tokens none) :
    Takes grammar (n + 1) (loop look body) tokens (some tokens)
  | fuel + 1, hfuel => by
    rw [run, hlook fuel (Nat.le_of_succ_le_succ hfuel)]

theorem loop_more {ahead : List Token} (hlook : Takes grammar n look tokens (some ahead))
    (hbody : Takes grammar n body tokens (some rest))
    (hloop : Takes grammar n (loop look body) rest result) :
    Takes grammar (n + 1) (loop look body) tokens result
  | fuel + 1, hfuel => by
    have hle := Nat.le_of_succ_le_succ hfuel
    rw [run, hlook fuel hle]
    dsimp only
    rw [hbody fuel hle]
    exact hloop fuel hle

theorem within {delimiter : Delimiter} {content : List Token}
    (h : Takes grammar n body content (some [])) :
    Takes grammar (n + 1) (within delimiter body) (.group delimiter content :: tokens) (some tokens)
  | fuel + 1, hfuel => by
    rw [run, if_pos rfl, h fuel (Nat.le_of_succ_le_succ hfuel)]

theorem named {name : P} (h : Takes grammar n (grammar name) tokens result) :
    Takes grammar (n + 1) (named name) tokens result
  | fuel + 1, hfuel => by
    rw [run]
    exact h fuel (Nat.le_of_succ_le_succ hfuel)

end Takes

/-! ## Looking ahead -/

/-- The rule has no loop and names no phrase. -/
def looksAhead : Rule P → Bool
  | .within _ _ | .loop _ _ | .named _ => false
  | .seq first second => first.looksAhead && second.looksAhead
  | .choose look yes no => look.looksAhead && yes.looksAhead && no.looksAhead
  | _ => true

def depth : Rule P → Nat
  | .seq first second => max first.depth second.depth + 1
  | .choose look yes no => max look.depth (max yes.depth no.depth) + 1
  | _ => 1

/-- What a rule that looks ahead takes, without fuel. -/
def front? : Rule P → List Token → Option (List Token)
  | .nothing, tokens => some tokens
  | .atEnd, tokens => if tokens.isEmpty then some tokens else none
  | .op chars, tokens => takeOp chars tokens
  | .word name, tokens => takeOne (isWord name) tokens
  | .one kind, tokens => takeOne kind.has tokens
  | .any, tokens => takeOne (fun _ => true) tokens
  | .group delimiter, tokens => takeOne (isGroup delimiter) tokens
  | .seq first second, tokens => (front? first tokens).bind (front? second)
  | .choose look yes no, tokens =>
    if (front? look tokens).isSome then front? yes tokens else front? no tokens
  | _, _ => none

theorem front?_append (first second : Rule P) (tokens : List Token) :
    (first ++ second).front? tokens = (first.front? tokens).bind second.front? := rfl

theorem front?_without (h : look.front? tokens = none) :
    (without look).front? tokens = some tokens := by
  rw [without, front?, h]
  rfl

theorem depth_pos (rule : Rule P) : 0 < rule.depth := by
  cases rule <;> simp [depth]

theorem run_of_looksAhead {fuel : Nat} (hrule : rule.looksAhead = true)
    (hfuel : rule.depth ≤ fuel) : run grammar fuel rule tokens = rule.front? tokens := by
  induction fuel generalizing rule tokens with
  | zero =>
    have := rule.depth_pos
    omega
  | succ fuel ih =>
    cases rule with
    | seq first second =>
      simp only [looksAhead, Bool.and_eq_true] at hrule
      simp only [depth] at hfuel
      have hfirst := @ih first tokens hrule.1 (by omega)
      rw [run, hfirst, front?]
      cases front? first tokens with
      | none => rfl
      | some rest => exact ih hrule.2 (by omega)
    | choose look yes no =>
      simp only [looksAhead, Bool.and_eq_true] at hrule
      simp only [depth] at hfuel
      have hlook := @ih look tokens hrule.1.1 (by omega)
      rw [run, hlook, front?]
      cases front? look tokens with
      | none => exact ih hrule.2 (by omega)
      | some rest => exact ih hrule.1.2 (by omega)
    | within delimiter body => cases hrule
    | loop look body => cases hrule
    | named name => cases hrule
    | nothing => rfl
    | never => rfl
    | atEnd => rfl
    | op chars => rfl
    | word name => rfl
    | one kind => rfl
    | any => rfl
    | group delimiter => rfl

/-- A rule that looks ahead does what it does in front. -/
theorem Takes.ahead (hfront : rule.front? tokens = result) (hrule : rule.looksAhead = true)
    (hbound : rule.depth ≤ n) : Takes grammar n rule tokens result := by
  intro fuel hfuel
  rw [run_of_looksAhead hrule (Nat.le_trans hbound hfuel), hfront]

/-! ## Signs that do not occur -/

/-- The tokens hold no such sign. -/
def Lacks (c : Char) (tokens : List Token) : Prop :=
  ∀ joint, Token.punct c joint ∉ tokens

theorem Lacks.of_suffix {c : Char} (h : Lacks c tokens) (hrest : rest <:+ tokens) : Lacks c rest :=
  fun joint hmem => h joint (hrest.subset hmem)

theorem takeOp_of_lacks {c : Char} {chars : List Char} (hc : c ∈ chars) (h : Lacks c tokens) :
    takeOp chars tokens = none := by
  fun_induction takeOp chars tokens with
  | case1 => cases hc
  | case2 d joint tokens =>
    cases List.mem_singleton.1 hc
    exact absurd List.mem_cons_self (h joint)
  | case3 => rfl
  | case4 next chars d tokens ih =>
    rcases List.mem_cons.1 hc with rfl | hmore
    · exact absurd List.mem_cons_self (h true)
    · exact ih hmore (h.of_suffix (List.suffix_cons _ _))
  | case5 => rfl
  | case6 => rfl

/-- A rule that asks for the sign fails. -/
theorem Takes.op_none {c : Char} {chars : List Char} (hc : c ∈ chars) (h : Lacks c tokens) :
    Takes grammar n (op chars) tokens none
  | 0, _ => rfl
  | _ + 1, _ => takeOp_of_lacks hc h

/-- A rule fails if it fails after whatever its first part takes. -/
theorem Takes.seq_none (h : ∀ rest, rest <:+ tokens → Takes grammar 0 second rest none) :
    Takes grammar n (first ++ second) tokens none
  | 0, _ => rfl
  | fuel + 1, _ => by
    rw [run_append, Option.bind_eq_none_iff]
    exact fun rest hrest => h rest (run_suffix hrest) fuel (Nat.zero_le fuel)

/-- A rule fails if its first part does. -/
theorem Takes.seq_none_left (h : Takes grammar n first tokens none) :
    Takes grammar (n + 1) (first ++ second) tokens none
  | fuel + 1, hfuel => by
    rw [run_append, h fuel (Nat.le_of_succ_le_succ hfuel)]
    rfl

end ModelMend.Grammar.Rule
