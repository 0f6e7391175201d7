import Mathlib.Data.List.Forall2
import ModelMend.Proofs.Declaration.Parsing
import ModelMend.Proofs.Entity.Attributes

/-!
# Items of an attribute list

An item is a path alone, with a group of tokens, or with a literal as its value (`Item`). The rule for
items takes every item in front of a comma or at the end of the list (`takes_item`), so a list of items
is read as these items (`Directives.items?_of_written`).
-/

namespace ModelMend

open Grammar Rule
open Phrase (phrase sign key wordPath pathWord literalAhead literal pointAhead)

/-! ## Items and their tokens -/

namespace Token

mutual

/-- The tree without the marks that say what punctuation adjoins. -/
def unspaced : Token → Token
  | punct c _ => punct c false
  | group delimiter content => group delimiter (unspacedAll content)
  | leaf => leaf

def unspacedAll : List Token → List Token
  | [] => []
  | token :: tokens => unspaced token :: unspacedAll tokens

end

end Token

/-- What an item is about. -/
inductive ItemPath where
  /-- Words with double colons between them, and perhaps one in front. -/
  | words (absolute : Bool) (first : List Char) (more : List (List Char))
    (valid : ∀ word ∈ first :: more, PathWord word)
  /-- The keyword that marks what is not safe. -/
  | keyword

namespace ItemPath

/-- The tokens of further words. -/
def furtherTokens (words : List (List Char)) : List Token :=
  words.flatMap fun word => TypeSyntax.colons ++ [.word word]

def tokens : ItemPath → List Token
  | words absolute first more _ =>
    (if absolute then TypeSyntax.colons else []) ++ .word first :: furtherTokens more
  | keyword => [.word "unsafe".toList]

/-- The single word that the path is. -/
def name? : ItemPath → Option (List Char)
  | words false first [] _ => some first
  | words _ _ _ _ => none
  | keyword => some "unsafe".toList

end ItemPath

/-- What stands behind the path of an item. -/
inductive ItemArgument where
  | nothing
  | group (delimiter : Delimiter) (content : List Token)
  | value (literal : Token) (valid : TokenClass.literal.has literal = true)

structure Item where
  path : ItemPath
  argument : ItemArgument

/-- The argument is written with these tokens. A sign may adjoin what follows it or not. -/
inductive ItemArgument.Written : ItemArgument → List Token → Prop
  | nothing : Written nothing []
  | group {delimiter : Delimiter} {content spaced : List Token}
    (same : Token.unspacedAll spaced = Token.unspacedAll content) :
    Written (group delimiter content) [.group delimiter spaced]
  | value {literal : Token} {valid : TokenClass.literal.has literal = true} (joint : Bool) :
    Written (value literal valid) [.punct '=' joint, literal]

/-- The item is written with these tokens. -/
inductive Item.Written : Item → List Token → Prop
  | mk {path : ItemPath} {argument : ItemArgument} {tokens : List Token}
    (written : argument.Written tokens) : Written ⟨path, argument⟩ (path.tokens ++ tokens)

/-- The items are written with commas between them, and perhaps one behind the last. -/
inductive ItemsWritten : List Item → List Token → Prop
  | last {item : Item} {tokens : List Token} (written : item.Written tokens) : ItemsWritten [item] tokens
  | lastComma {item : Item} {tokens : List Token} (written : item.Written tokens) (joint : Bool) :
    ItemsWritten [item] (tokens ++ [.punct ',' joint])
  | more {item : Item} {items : List Item} {tokens rest : List Token} (written : item.Written tokens)
    (joint : Bool) (others : ItemsWritten items rest) :
    ItemsWritten (item :: items) (tokens ++ .punct ',' joint :: rest)

/-! ## The rule for items -/

/-- An item ends in front of the tokens. -/
def EndsItem (tokens : List Token) : Prop :=
  tokens = [] ∨ ∃ joint more, tokens = .punct ',' joint :: more

section

variable {rest : List Token}

theorem EndsItem.front?_none (h : EndsItem rest) {look : Rule Phrase} (hend : look.front? [] = none)
    (hcomma : ∀ joint more, look.front? (.punct ',' joint :: more) = none) : look.front? rest = none := by
  rcases h with rfl | ⟨joint, more, rfl⟩
  · exact hend
  · exact hcomma joint more

/-- No operator of any tier follows. -/
theorem takes_noTail (h : EndsItem rest) : Takes table 64 (phrase (.exprTail true)) rest (some rest) := by
  have hcast : (key "as").front? rest = none := h.front?_none rfl fun _ _ => rfl
  have harithmetic : arithmetic.front? rest = none :=
    h.front?_none rfl fun joint _ => by cases joint <;> rfl
  have hcomparison : comparison.front? rest = none :=
    h.front?_none rfl fun joint _ => by cases joint <;> rfl
  have hlogical : logical.front? rest = none := h.front?_none rfl fun joint _ => by cases joint <;> rfl
  have hassignment : assignment.front? rest = none :=
    h.front?_none rfl fun joint _ => by cases joint <;> rfl
  have hrange : (sign "..").front? rest = none := h.front?_none rfl fun joint _ => by cases joint <;> rfl
  have htight : Takes table 40 (phrase (.tightTail true)) rest (some rest) :=
    .named (n := 39) (.seq (n := 38) (.loop_stop (n := 37) (.ahead hcast rfl (by decide)))
      (.loop_stop (n := 37) (.ahead harithmetic rfl (by decide))))
  have hcompare : Takes table 43 (phrase (.compareTail true)) rest (some rest) :=
    .named (n := 42) (.seq (n := 41) (htight.mono (by omega))
      (.choose_no (n := 40) (.ahead hcomparison rfl (by decide)) (.ahead rfl rfl (by decide))))
  have hlogic : Takes table 46 (phrase (.logicTail true)) rest (some rest) :=
    .named (n := 45) (.seq (n := 44) (hcompare.mono (by omega))
      (.loop_stop (n := 43) (.ahead hlogical rfl (by decide))))
  exact .named (n := 63) (.seq (n := 62) (hlogic.mono (by omega))
    (.choose_no (n := 61) (.ahead hassignment rfl (by decide))
      (.choose_no (n := 60) (.ahead hrange rfl (by decide)) (.ahead rfl rfl (by decide)))))

theorem takes_noTrailers (h : EndsItem rest) : Takes table 32 (phrase .trailers) rest (some rest) := by
  have hlook : (oneOf [.group .round, .group .square, sign "?", pointAhead]).front? rest = none :=
    h.front?_none rfl fun joint _ => by cases joint <;> rfl
  exact .named (n := 31) (.loop_stop (n := 30) (.ahead hlook rfl (by decide)))

/-- No sign is a literal. -/
theorem takeOp_of_literal {token : Token} (h : TokenClass.literal.has token = true) (c : Char)
    (chars : List Char) : takeOp (c :: chars) (token :: rest) = none := by
  cases token with
  | word name => cases chars <;> rfl
  | lifetime name => cases h
  | punct d joint => cases h
  | literal kind text => cases chars <;> rfl
  | group delimiter content => cases h

/-- A literal is an expression by itself. -/
theorem takes_literal {token : Token} (htoken : TokenClass.literal.has token = true) (h : EndsItem rest) :
    Takes table 80 (phrase (.expr true)) (token :: rest) (some rest) := by
  have hone : (Rule.one (P := Phrase) .literal).front? (token :: rest) = some rest := by
    rw [front?, takeOne, if_pos htoken]
  have hahead : literalAhead.front? (token :: rest) = some (token :: rest) := by
    change (Rule.choose (Rule.one .literal) Rule.nothing _).front? _ = _
    rw [front?, hone]
    rfl
  have hliteral : literal.front? (token :: rest) = some rest := by
    change (Rule.choose (Rule.one .literal) any _).front? _ = _
    rw [front?, hone]
    rfl
  have hsign (c : Char) (chars : List Char) :
      (Rule.op (P := Phrase) (c :: chars)).front? (token :: rest) = none := takeOp_of_literal htoken c chars
  have hunaryAhead : (oneOf [sign "*", sign "!", sign "-"]).front? (token :: rest) = none := by
    simp [oneOf, front?, sign, takeOp_of_literal htoken]
  have hatom : Takes table 8 (phrase (.atom true)) (token :: rest) (some rest) :=
    .named (n := 7) (.choose_yes (n := 6) (.ahead hahead rfl (by decide)) (.ahead hliteral rfl (by decide)))
  have hunary : Takes table 40 (phrase (.unary true)) (token :: rest) (some rest) :=
    .named (n := 39) (.choose_no (n := 38) (.ahead (hsign _ _) rfl (by decide))
      (.choose_no (n := 37) (.ahead (hsign _ _) rfl (by decide))
        (.choose_no (n := 36) (.ahead hunaryAhead rfl (by decide))
          (.choose_no (n := 35) (.ahead (hsign _ _) rfl (by decide))
            (.seq (n := 34) (hatom.mono (by omega)) ((takes_noTrailers h).mono (by omega)))))))
  exact .named (n := 79) (.choose_no (n := 78) (.ahead (hsign _ _) rfl (by decide))
    (.seq (n := 77) (hunary.mono (by omega)) ((takes_noTail h).mono (by omega))))

end

/-! ### Paths -/

theorem PathWord.front?_choose {word : List Char} (h : PathWord word) (rest : List Token) :
    (Rule.choose pathWord any never).front? (.word word :: rest) = some rest := by
  rw [front?, h.front?_pathWord]
  rfl

theorem takes_furtherWords {words : List (List Char)} (hwords : ∀ word ∈ words, PathWord word)
    {behind : List Token} (hbehind : (sign "::").front? behind = none) :
    Takes table (words.length + 12) (loop (sign "::") (sign "::" ++ .choose pathWord any never))
      (ItemPath.furtherTokens words ++ behind) (some behind) := by
  induction words with
  | nil => exact .loop_stop (.ahead hbehind rfl (by decide))
  | cons word words ih =>
    obtain ⟨hword, hmore⟩ := List.forall_mem_cons.1 hwords
    have hbody : (sign "::" ++ Rule.choose pathWord any never).front?
        (ItemPath.furtherTokens (word :: words) ++ behind) =
          some (ItemPath.furtherTokens words ++ behind) :=
      hword.front?_choose (ItemPath.furtherTokens words ++ behind)
    have hlook : (sign "::").front? (ItemPath.furtherTokens (word :: words) ++ behind) =
        some (.word word :: (ItemPath.furtherTokens words ++ behind)) := rfl
    have hdepth {n : Nat} (hn : n ≤ 12) : n ≤ words.length + 12 := Nat.le_add_left_of_le hn
    exact .loop_more (.ahead hlook rfl (hdepth (by decide))) (.ahead hbody rfl (hdepth (by decide))) (ih hmore)

theorem PathWord.ne_keyword {word : List Char} (h : PathWord word) :
    ("unsafe".toList == word) = false := by
  rcases h with hplain | ⟨keyword, rfl⟩
  · exact beq_eq_false_of_isPlainName hplain (by decide)
  · cases keyword <;> rfl

theorem ItemPath.length_furtherTokens (words : List (List Char)) :
    (furtherTokens words).length = 3 * words.length := by
  induction words with
  | nil => rfl
  | cons word words ih =>
    change (furtherTokens words).length + 3 = 3 * (words.length + 1)
    omega

theorem ItemPath.takes (path : ItemPath) {behind : List Token}
    (hbehind : (sign "::").front? behind = none) :
    Takes table (path.tokens.length + 16) (.choose (key "unsafe") any (wordPath pathWord))
      (path.tokens ++ behind) (some behind) := by
  cases path with
  | keyword => exact .choose_yes (.ahead rfl rfl (by decide)) (.ahead rfl rfl (by decide))
  | words absolute first more valid =>
    obtain ⟨hfirst, hmore⟩ := List.forall_mem_cons.1 valid
    have hfurther := takes_furtherWords hmore hbehind
    have hlength := length_furtherTokens more
    have hkeyword : (key "unsafe").front? ((words absolute first more valid).tokens ++ behind) = none := by
      cases absolute with
      | true => rfl
      | false => exact front?_key_none _ hfirst.ne_keyword
    have hhead : (opt (sign "::") (sign "::") ++ Rule.choose pathWord any never).front?
        ((words absolute first more valid).tokens ++ behind) = some (furtherTokens more ++ behind) := by
      cases absolute with
      | true => exact hfirst.front?_choose _
      | false => exact hfirst.front?_choose _
    have hpath : Takes table (more.length + 13) (wordPath pathWord)
        ((words absolute first more valid).tokens ++ behind) (some behind) :=
      .seq (.ahead hhead rfl (Nat.le_add_left_of_le (by decide))) hfurther
    refine Takes.mono (.choose_no (.ahead hkeyword rfl (Nat.le_add_left_of_le (by decide))) hpath) ?_
    rw [tokens, List.length_append, List.length_cons]
    omega

/-- **The rule for items takes every item**, up to the comma behind it or the end. -/
theorem takes_item {item : Item} {tokens rest : List Token} (h : item.Written tokens) (hrest : EndsItem rest) :
    Takes table (tokens.length + 96) (phrase .metaItem) (tokens ++ rest) (some rest) := by
  have hcolons : (sign "::").front? rest = none := hrest.front?_none rfl fun joint _ => by cases joint <;> rfl
  obtain @⟨path, argument, tail, hwritten⟩ := h
  have htail : (sign "::").front? (tail ++ rest) = none ∧
      Takes table 90 (.choose (oneOf [.group .round, .group .square, .group .curly]) any
        (opt (sign "=") (sign "=" ++ without (sign "#" ++ .group .square) ++ phrase (.expr true))))
          (tail ++ rest) (some rest) := by
    cases hwritten with
    | nothing =>
      have hgroup : (oneOf [.group .round, .group .square, .group .curly] : Rule Phrase).front? rest = none :=
        hrest.front?_none rfl fun _ _ => rfl
      have hvalue : (sign "=").front? rest = none := hrest.front?_none rfl fun _ _ => rfl
      exact ⟨hcolons, .choose_no (n := 89) (.ahead hgroup rfl (by decide))
        (.choose_no (n := 88) (.ahead hvalue rfl (by decide)) (.ahead rfl rfl (by decide)))⟩
    | @group delimiter content spaced same =>
      have hgroup : (oneOf [.group .round, .group .square, .group .curly] : Rule Phrase).front?
          (.group delimiter spaced :: rest) = some (.group delimiter spaced :: rest) := by
        cases delimiter <;> rfl
      exact ⟨rfl, .choose_yes (n := 89) (.ahead hgroup rfl (by decide)) (.ahead rfl rfl (by decide))⟩
    | @value literal valid joint =>
      have hattribute : (sign "#" ++ Rule.group .square).front? (literal :: rest) = none := by
        rw [front?_append]
        change (takeOp ['#'] (literal :: rest)).bind _ = none
        rw [takeOp_of_literal valid]
        rfl
      have hvalue : (sign "=" ++ without (sign "#" ++ Rule.group .square)).front?
          (.punct '=' joint :: literal :: rest) = some (literal :: rest) := by
        rw [front?_append]
        change (some (literal :: rest)).bind _ = _
        rw [Option.bind_some, front?_without hattribute]
      have htwo : (sign "::").front? (.punct '=' joint :: literal :: rest) = none := by
        cases joint <;> rfl
      exact ⟨htwo, .choose_no (n := 89) (.ahead rfl rfl (by decide))
        (.choose_yes (n := 88) (.ahead rfl rfl (by decide))
          (.seq (n := 87) (.ahead hvalue rfl (by decide))
            ((takes_literal valid hrest).mono (by omega))))⟩
  have hpath := path.takes htail.1
  have hboth := (hpath.mono (m := path.tokens.length + 90) (by omega)).seq (htail.2.mono (by omega))
  rw [List.append_assoc]
  refine Takes.mono (.named hboth) ?_
  rw [List.length_append]
  omega

/-! ## Reading items -/

theorem ItemPath.tokens_ne_nil (path : ItemPath) : path.tokens ≠ [] := by
  cases path with
  | keyword => exact List.cons_ne_nil _ _
  | words absolute first more valid => simp [tokens]

theorem Item.Written.ne_nil {item : Item} {tokens : List Token} (h : item.Written tokens) : tokens ≠ [] := by
  cases h with
  | mk written => exact List.append_ne_nil_of_left_ne_nil (ItemPath.tokens_ne_nil _) _

theorem after?_item {item : Item} {tokens rest : List Token} (h : item.Written tokens)
    (hrest : EndsItem rest) : after? (phrase .metaItem) (tokens ++ rest) = some rest := by
  apply TypeSyntax.rest?_of_takes
  apply (takes_item h hrest).mono
  rw [List.length_append]
  omega

namespace Directives

theorem items?_end {item : Item} {tokens : List Token} (h : item.Written tokens) (fuel : Nat) :
    items? (fuel + 1) tokens = some [tokens] := by
  have hrest := after?_item h (Or.inl rfl)
  rw [List.append_nil] at hrest
  rw [items?, hrest]
  · dsimp only
    rw [List.length_nil, Nat.sub_zero, List.take_length]
  · exact h.ne_nil

theorem items?_comma {item : Item} {tokens : List Token} (h : item.Written tokens) (joint : Bool)
    (rest : List Token) (fuel : Nat) :
    items? (fuel + 1) (tokens ++ .punct ',' joint :: rest) = (items? fuel rest).map (tokens :: ·) := by
  have hrest := after?_item h (Or.inr ⟨joint, rest, rfl⟩)
  rw [items?, hrest]
  · dsimp only
    rw [List.length_append, Nat.add_sub_cancel, List.take_left]
    rfl
  · exact fun heq => h.ne_nil (List.append_eq_nil_iff.1 heq).1

/-- **A list of items is read as these items.** -/
theorem items?_of_written {items : List Item} {tokens : List Token} (h : ItemsWritten items tokens)
    {fuel : Nat} (hfuel : tokens.length ≤ fuel) :
    ∃ parts, items? fuel tokens = some parts ∧ List.Forall₂ Item.Written items parts := by
  have hless {item : Item} {tokens rest : List Token} (hwritten : item.Written tokens) {fuel : Nat}
      (hfuel : (tokens ++ rest).length ≤ fuel) : ∃ less, fuel = less + 1 ∧ rest.length ≤ less := by
    have hlength := List.length_pos_iff.2 hwritten.ne_nil
    rw [List.length_append] at hfuel
    exact ⟨fuel - 1, by omega, by omega⟩
  induction h generalizing fuel with
  | @last item tokens written =>
    rw [← List.append_nil tokens] at hfuel
    obtain ⟨less, rfl, -⟩ := hless written hfuel
    exact ⟨[tokens], items?_end written less, .cons written .nil⟩
  | @lastComma item tokens written joint =>
    obtain ⟨less, rfl, -⟩ := hless written hfuel
    have hnil : items? less [] = some [] := by cases less <;> rfl
    refine ⟨[tokens], ?_, .cons written .nil⟩
    rw [items?_comma written, hnil]
    rfl
  | @more item items tokens rest written joint others ih =>
    obtain ⟨less, rfl, hmore⟩ := hless written hfuel
    obtain ⟨parts, hparts, hall⟩ := ih (Nat.le_of_succ_le hmore)
    refine ⟨tokens :: parts, ?_, .cons written hall⟩
    rw [items?_comma written, hparts]
    rfl

end Directives

end ModelMend
