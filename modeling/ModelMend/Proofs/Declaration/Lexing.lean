import ModelMend.Proofs.Declaration.Syntax
import ModelMend.Proofs.Token.Words

/-!
# The tokens of a printed type

Cutting the text of a type, or of any part of one, gives the tokens of that part (`cuts`), whatever
follows it, as long as no identifier goes on there. Only the last sign of a part depends on what
follows: whether punctuation adjoins it.
-/

namespace ModelMend

open Text Lexeme

/-- Cutting the text in front of the end of a word takes it away and finds the tokens. -/
def Cuts (text : List Char) (tokens : Bool → List Token) : Prop :=
  ∀ rest, EndsWord rest → ∀ fuel, (text ++ rest).length ≤ fuel →
    ∃ left, rest.length ≤ left ∧
      cut fuel (text ++ rest) =
        (cut left rest).map ((tokens (startsPunct rest)).map token ++ ·)

namespace Cuts

theorem nil : Cuts [] fun _ => [] := by
  intro rest _ fuel hfuel
  exact ⟨fuel, hfuel, by simp⟩

theorem leaf {c : Char} {text : List Char} {leaf : Token} (hopens : opensLeaf c = true)
    (hleaf : ∀ rest, EndsWord rest → leaf? (c :: (text ++ rest)) = some (leaf, rest)) :
    Cuts (c :: text) fun _ => [leaf] := by
  intro rest hrest fuel hfuel
  cases fuel with
  | zero => simp at hfuel
  | succ fuel =>
    refine ⟨fuel, ?_, cut_of_leaf hopens (hleaf rest hrest) fuel⟩
    simp only [List.length_append, List.length_cons] at hfuel
    omega

theorem sign {c : Char} {text : List Char} {tokens : Bool → List Token} {j : Bool → Bool}
    (hc : c ∈ pathSigns) (h : Cuts text tokens)
    (hjoint : ∀ rest, startsPunct (text ++ rest) = j (startsPunct rest)) :
    Cuts (c :: text) fun joint => .punct c (j joint) :: tokens joint := by
  have hopens : ∀ d ∈ pathSigns, opensLeaf d = true := List.all_eq_true.1 (by decide)
  intro rest hrest fuel hfuel
  cases fuel with
  | zero => simp at hfuel
  | succ fuel =>
    obtain ⟨left, hleft, hcut⟩ := h rest hrest fuel (Nat.le_of_succ_le_succ hfuel)
    refine ⟨left, hleft, ?_⟩
    rw [List.cons_append, cut_of_leaf (hopens c hc) (leaf?_of_sign hc _), hcut, hjoint,
      Option.map_map]
    rfl

theorem space {text : List Char} {tokens : Bool → List Token} (h : Cuts text tokens) :
    Cuts (' ' :: text) tokens := by
  intro rest hrest fuel hfuel
  cases fuel with
  | zero => simp at hfuel
  | succ fuel =>
    obtain ⟨left, hleft, hcut⟩ := h rest hrest fuel (Nat.le_of_succ_le_succ hfuel)
    refine ⟨left, hleft, ?_⟩
    rw [← hcut]
    rfl

theorem append {front back : List Char} {first second : Bool → List Token} {joint : Bool}
    (hfront : Cuts front first) (hback : Cuts back second)
    (hends : ∀ rest, EndsWord (back ++ rest)) (hjoint : ∀ rest, startsPunct (back ++ rest) = joint) :
    Cuts (front ++ back) fun next => first joint ++ second next := by
  intro rest hrest fuel hfuel
  rw [List.append_assoc] at hfuel
  obtain ⟨middle, hmiddle, hcutFront⟩ := hfront (back ++ rest) (hends rest) fuel hfuel
  obtain ⟨left, hleft, hcutBack⟩ := hback rest hrest middle hmiddle
  refine ⟨left, hleft, ?_⟩
  rw [List.append_assoc, hcutFront, hcutBack, hjoint, Option.map_map]
  simp only [List.map_append, List.append_assoc, Function.comp_def]

end Cuts

/-! ## Names -/

theorem opensLeaf_of_isIdentStart {c : Char} (hc : isIdentStart c = true) : opensLeaf c = true := by
  have hident := isIdentContinue_of_isIdentStart hc
  have hbracket : ['/', '(', ')', '[', ']', '\x7b', '\x7d'].contains c = false := by
    rw [Bool.eq_false_iff]
    intro hmem
    have hspecial : ['/', '(', ')', '[', ']', '\x7b', '\x7d'] ⊆ specialChars := by decide
    exact notMem_specialChars hident (hspecial (List.contains_iff_mem.1 hmem))
  have hmarks : (c == '\u200e') = false ∧ (c == '\u200f') = false :=
    ⟨beq_false_of_ne (ne_of_isIdentStart hc (by decide)),
      beq_false_of_ne (ne_of_isIdentStart hc (by decide))⟩
  rw [opensLeaf, hbracket, isSpace, not_isBlank_of_isIdentContinue hident, hmarks.1, hmarks.2]
  rfl

theorem Identifier.cuts (name : Identifier) : Cuts name.text fun _ => [.word name.text] := by
  unfold Identifier.text Identifier.word
  split
  · next hraw =>
    exact .leaf (c := 'r') (by decide) fun rest hrest =>
      leaf?_of_raw name.starts name.continues hrest (name.rawable hraw)
  · exact .leaf (opensLeaf_of_isIdentStart name.starts) fun rest hrest =>
      leaf?_of_word name.starts name.continues hrest

theorem Identifier.charTail_text (name : Identifier) {rest : List Char} (hrest : EndsWord rest) :
    Literal.charTail .text (name.text ++ rest) = none := by
  unfold Identifier.text Identifier.word
  split
  · refine charTail_of_ne (c := 'r') (by decide) fun d hd => ?_
    cases hd
    decide
  · exact charTail_of_ne (ne_of_isIdentStart name.starts (by decide)) fun d hd =>
      (Quiet.of_continues name.continues hrest d hd).2.1

theorem Identifier.ident?_text (name : Identifier) {rest : List Char} (hrest : EndsWord rest) :
    ident? (name.text ++ rest) = some (name.text, rest) ∧
      word? (name.text ++ rest) = some (name.text, rest) := by
  unfold Identifier.text Identifier.word
  split
  · next hraw =>
    exact ⟨ident?_of_raw name.starts name.continues hrest (name.rawable hraw),
      word?_of_raw name.starts name.continues hrest (name.rawable hraw)⟩
  · exact ⟨ident?_of_word name.starts name.continues hrest,
      word?_of_word name.starts name.continues hrest⟩

theorem Identifier.lifetime_cuts (name : Identifier) :
    Cuts ('\'' :: name.text) fun _ => [.lifetime name.text] :=
  .leaf (by decide) fun rest hrest =>
    leaf?_of_lifetime (name.ident?_text hrest).1 (name.ident?_text hrest).2
      (name.charTail_text hrest) hrest

theorem PathKeyword.cuts (word : PathKeyword) : Cuts word.text fun _ => [.word word.text] := by
  have hleaf (c : Char) (more : List Char) (hc : isIdentStart c = true)
      (hmore : more.all isIdentContinue = true) : Cuts (c :: more) fun _ => [.word (c :: more)] :=
    .leaf (opensLeaf_of_isIdentStart hc) fun rest hrest =>
      leaf?_of_word hc (List.all_eq_true.1 hmore) hrest
  cases word with
  | super => exact hleaf 's' "uper".toList (by decide) (by decide)
  | self => exact hleaf 's' "elf".toList (by decide) (by decide)
  | selfType => exact hleaf 'S' "elf".toList (by decide) (by decide)
  | crate => exact hleaf 'c' "rate".toList (by decide) (by decide)

/-! ## Types -/

namespace TypeSyntax

variable {part : TypePart}

/-- How a part of a type may start. -/
def Opens : TypePart → Char → Prop
  | .path, c | .segment, c => isIdentStart c = true
  | _, c => isIdentStart c = true ∨ c = '\'' ∨ c = ':'

theorem Opens.cases {c : Char} (h : Opens part c) :
    isIdentStart c = true ∨ c = '\'' ∨ c = ':' := by
  cases part with
  | path => exact Or.inl h
  | segment => exact Or.inl h
  | arguments => exact h
  | argument => exact h
  | type => exact h

theorem Opens.ne {c d : Char} (h : Opens part c) (hd : d ∈ specialChars ∧ d ≠ '\'' ∧ d ≠ ':') :
    c ≠ d := by
  rcases h.cases with hstart | rfl | rfl
  · exact ne_of_isIdentStart hstart hd.1
  · exact hd.2.1.symm
  · exact hd.2.2.symm

theorem text_cons (type : TypeSyntax part) : ∃ c tail, type.text = c :: tail ∧ Opens part c := by
  have hname (name : Identifier) : ∃ c tail, name.text = c :: tail ∧ isIdentStart c = true := by
    unfold Identifier.text Identifier.word
    split
    · exact ⟨'r', _, rfl, by decide⟩
    · exact ⟨_, _, rfl, name.starts⟩
  induction type with
  | last segment ih => exact ih
  | nested segment path ih _ =>
    obtain ⟨c, tail, htext, hc⟩ := ih
    exact ⟨c, _, by rw [text, htext]; rfl, hc⟩
  | keyword word =>
    cases word with
    | super => exact ⟨'s', _, rfl, rfl⟩
    | self => exact ⟨'s', _, rfl, rfl⟩
    | selfType => exact ⟨'S', _, rfl, rfl⟩
    | crate => exact ⟨'c', _, rfl, rfl⟩
  | plain name => exact hname name
  | generic name arguments _ =>
    obtain ⟨c, tail, htext, hc⟩ := hname name
    exact ⟨c, _, by rw [text, htext]; rfl, hc⟩
  | one argument ih => exact ih
  | more argument arguments ih _ =>
    obtain ⟨c, tail, htext, hc⟩ := ih
    exact ⟨c, _, by rw [text, htext]; rfl, hc⟩
  | lifetime name => exact ⟨'\'', _, rfl, Or.inr (Or.inl rfl)⟩
  | typed type ih => exact ih
  | relative path ih =>
    obtain ⟨c, tail, htext, hc⟩ := ih
    exact ⟨c, tail, htext, Or.inl hc⟩
  | absolute path _ => exact ⟨':', _, rfl, Or.inr (Or.inr rfl)⟩

theorem startsPunct_text_append (type : TypeSyntax part) (rest : List Char) :
    startsPunct (type.text ++ rest) = startsPunct type.text := by
  obtain ⟨c, tail, htext, hc⟩ := type.text_cons
  have hslash : c ≠ '/' := hc.ne (by decide)
  rw [htext, List.cons_append, startsPunct_cons hslash, startsPunct_cons hslash]

theorem not_startsPunct_path (path : TypeSyntax .path) (rest : List Char) :
    startsPunct (path.text ++ rest) = false := by
  obtain ⟨c, tail, htext, hc⟩ := path.text_cons
  rw [htext, List.cons_append]
  exact not_startsPunct_of_word hc _

/-- A double colon in front of a path. -/
theorem cuts_colons {path : TypeSyntax .path} (h : Cuts path.text path.tokens) :
    Cuts ("::".toList ++ path.text) fun joint => colons ++ path.tokens joint :=
  .sign (j := fun _ => true) (by decide)
    (.sign (j := fun _ => false) (by decide) h path.not_startsPunct_path) fun _ => rfl

/-- **Cutting the text of a part of a type gives its tokens.** -/
theorem cuts (type : TypeSyntax part) : Cuts type.text type.tokens := by
  have hends {c : Char} (hc : c ∈ pathSigns) (back rest : List Char) :
      EndsWord (c :: back ++ rest) := .cons hc _
  induction type with
  | last segment ih => exact ih
  | nested segment path ihSegment ihPath =>
    have h := ihSegment.append (cuts_colons ihPath) (hends (by decide) _) (fun _ => rfl)
    simpa only [text, tokens, List.append_assoc] using h
  | keyword word => exact word.cuts
  | plain name => exact name.cuts
  | generic name arguments ih =>
    have hclosing : Cuts ['>'] fun joint => [.punct '>' joint] :=
      .sign (j := id) (by decide) .nil fun _ => rfl
    have hinside : Cuts ('<' :: (arguments.text ++ ['>'])) fun joint =>
        .punct '<' (startsPunct arguments.text) :: (arguments.tokens true ++ [.punct '>' joint]) :=
      .sign (j := fun _ => startsPunct arguments.text) (by decide)
        (ih.append hclosing (hends (by decide) _) fun _ => rfl) fun rest => by
          rw [List.append_assoc, startsPunct_text_append]
    have h := name.cuts.append hinside (hends (by decide) _) (fun _ => rfl)
    simpa only [text, tokens, List.append_assoc, List.cons_append, List.nil_append] using h
  | one argument ih => exact ih
  | more argument arguments ihArgument ihArguments =>
    have hcomma : Cuts (", ".toList ++ arguments.text) fun joint =>
        .punct ',' false :: arguments.tokens joint :=
      .sign (j := fun _ => false) (by decide) ihArguments.space fun _ => rfl
    have h := ihArgument.append hcomma (hends (by decide) _) (fun _ => rfl)
    simpa only [text, tokens, List.append_assoc, List.cons_append, List.nil_append] using h
  | lifetime name => exact name.lifetime_cuts
  | typed type ih => exact ih
  | relative path ih => exact ih
  | absolute path ih => exact cuts_colons ih

theorem nest_leaves (current tokens : List Token) :
    nest [] current (tokens.map token) = some (current.reverse ++ tokens) := by
  induction tokens generalizing current with
  | nil => simp [nest]
  | cons leaf tokens ih =>
    rw [List.map_cons, nest, ih]
    simp

/-- **The tokens of a printed type.** -/
theorem ofText?_text (type : TypeSyntax part) : Token.ofText? type.text = some (type.tokens false) := by
  obtain ⟨left, -, hcut⟩ := type.cuts [] .nil type.text.length (by simp)
  have hmark : ['\ufeff'].isPrefixOf type.text = false := by
    obtain ⟨c, tail, htext, hc⟩ := type.text_cons
    have hne : ('\ufeff' == c) = false := beq_false_of_ne (hc.ne (by decide)).symm
    simp [htext, List.isPrefixOf, hne]
  have hnil : cut left [] = some [] := by
    cases left <;> rfl
  rw [List.append_nil, hnil] at hcut
  rw [Token.ofText?, hmark]
  simp only [Bool.false_eq_true, ↓reduceIte]
  rw [hcut, Option.map_some, Option.bind_some, List.append_nil, nest_leaves]
  rfl

end TypeSyntax

end ModelMend
