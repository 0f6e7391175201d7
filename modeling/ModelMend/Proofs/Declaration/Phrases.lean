import ModelMend.Entity.RelationType
import ModelMend.Proofs.Declaration.Lexing
import ModelMend.Proofs.Grammar.Takes

/-!
# The grammar on the tokens of paths

What the rules for paths, generic arguments and types do with tokens whose only punctuation is that of
paths and generic arguments. The rules decide by looking ahead, so the lemmas say how a phrase
starts and what may follow it. Macro calls, bounds and values fail in front, since their signs do
not occur.
-/

namespace ModelMend

open Text Lexeme Grammar Rule
open Phrase (phrase sign key anyKey pathWord macroHead literalAhead)

/-! ## The tokens of a part -/

/-- The only punctuation is that of paths and generic arguments. -/
def OnlyPathSigns (tokens : List Token) : Prop :=
  ∀ c joint, Token.punct c joint ∈ tokens → c ∈ pathSigns

namespace OnlyPathSigns

variable {tokens : List Token}

theorem lacks (h : OnlyPathSigns tokens) {c : Char} (hc : c ∉ pathSigns) : Lacks c tokens :=
  fun joint hmem => hc (h c joint hmem)

theorem nil : OnlyPathSigns [] :=
  fun _ _ hmem => by cases hmem

theorem append {front back : List Token} (hfront : OnlyPathSigns front)
    (hback : OnlyPathSigns back) : OnlyPathSigns (front ++ back) := by
  intro c joint hmem
  rcases List.mem_append.1 hmem with hmem | hmem
  · exact hfront c joint hmem
  · exact hback c joint hmem

theorem sign_cons {c : Char} (hc : c ∈ pathSigns) (joint : Bool) (h : OnlyPathSigns tokens) :
    OnlyPathSigns (.punct c joint :: tokens) := by
  intro d joint' hmem
  rcases List.mem_cons.1 hmem with heq | hmem
  · cases heq
    exact hc
  · exact h d joint' hmem

theorem of_suffix {rest : List Token} (h : OnlyPathSigns tokens) (hrest : rest <:+ tokens) :
    OnlyPathSigns rest :=
  fun c joint hmem => h c joint (hrest.subset hmem)

end OnlyPathSigns

/-- A type or an argument ends in front of the tokens. -/
def EndsType : List Token → Prop
  | [] => True
  | .punct c _ :: _ => c = ',' ∨ c = '>'
  | _ => False

/-- A segment ends in front of the tokens. -/
def EndsSegment (tokens : List Token) : Prop :=
  EndsType tokens ∨ ∃ word more, tokens = TypeSyntax.colons ++ .word word :: more

namespace TypeSyntax

variable {part : TypePart}

theorem onlyPathSigns_tokens (type : TypeSyntax part) (joint : Bool) :
    OnlyPathSigns (type.tokens joint) := by
  have hcolons : OnlyPathSigns colons := by
    intro c joint hmem
    simp only [colons, List.mem_cons, Token.punct.injEq, List.not_mem_nil, or_false] at hmem
    rcases hmem with ⟨rfl, -⟩ | ⟨rfl, -⟩ <;> decide
  have hsign {c : Char} (hc : c ∈ pathSigns) (joint : Bool) : OnlyPathSigns [.punct c joint] := by
    intro d joint' hmem
    cases List.mem_singleton.1 hmem
    exact hc
  have hword {token : Token} (htoken : ∀ c joint, Token.punct c joint ≠ token) :
      OnlyPathSigns [token] :=
    fun c joint hmem => absurd (List.mem_singleton.1 hmem) (htoken c joint)
  induction type generalizing joint with
  | last segment ih => exact ih joint
  | nested segment path ihSegment ihPath => exact ((ihSegment true).append hcolons).append (ihPath joint)
  | keyword word => exact hword fun _ _ h => by cases h
  | plain name => exact hword fun _ _ h => by cases h
  | generic name arguments ih =>
    have hname : OnlyPathSigns [.word name.text] := hword fun _ _ h => by cases h
    exact ((hname.append (hsign (by decide) _)).append (ih true)).append (hsign (by decide) _)
  | one argument ih => exact ih joint
  | more argument arguments ihArgument ihArguments =>
    exact ((ihArgument true).append (hsign (by decide) _)).append (ihArguments joint)
  | lifetime name => exact hword fun _ _ h => by cases h
  | typed type ih => exact ih joint
  | relative path ih => exact ih joint
  | absolute path ih => exact hcolons.append (ih joint)

end TypeSyntax

/-! ## Words in front -/

/-- The words that a segment may start with. -/
def PathWord (word : List Char) : Prop :=
  Token.isPlainName word = true ∨ ∃ keyword : PathKeyword, word = keyword.text

theorem Identifier.isPlainName_text (name : Identifier) : Token.isPlainName name.text = true := by
  unfold Identifier.text
  split
  · have hmark : ∀ keyword ∈ Token.keywords, ¬ "r#".toList <+: keyword := by decide
    unfold Token.isPlainName
    rw [Bool.not_eq_true', Bool.eq_false_iff]
    intro hmem
    exact hmark _ (List.contains_iff_mem.1 hmem) (List.prefix_append _ _)
  · next hraw => exact name.plain (Bool.eq_false_iff.2 hraw)

/-- A plain name is none of the keywords. -/
theorem beq_eq_false_of_isPlainName {word keyword : List Char} (h : Token.isPlainName word = true)
    (hkeyword : keyword ∈ Token.keywords) : (keyword == word) = false := by
  rw [beq_eq_false_iff_ne]
  rintro rfl
  unfold Token.isPlainName at h
  rw [List.contains_iff_mem.2 hkeyword] at h
  cases h

theorem front?_key_none {name : String} {word : List Char} (tokens : List Token)
    (h : (name.toList == word) = false) : (key name).front? (.word word :: tokens) = none := by
  simp [key, front?, takeOne, Rule.isWord, h]

theorem front?_anyKey_none {names : List String} {word : List Char} (tokens : List Token)
    (h : ∀ name ∈ names, (name.toList == word) = false) :
    (anyKey names).front? (.word word :: tokens) = none := by
  induction names with
  | nil => rfl
  | cons name names ih =>
    have hlook := front?_key_none tokens (h name List.mem_cons_self)
    have hmore := ih fun other hmem => h other (List.mem_cons_of_mem name hmem)
    change (Rule.choose (key name) Rule.nothing (anyKey names)).front? _ = none
    rw [front?, hlook]
    exact hmore

theorem PathWord.front?_pathWord {word : List Char} (h : PathWord word) (tokens : List Token) :
    pathWord.front? (.word word :: tokens) = some (.word word :: tokens) := by
  rcases h with hplain | ⟨keyword, rfl⟩
  · simp [pathWord, oneOf, Phrase.name, front?, takeOne, TokenClass.has, hplain]
  · cases keyword <;> rfl

/-! ## What does not stand there -/

section

variable {tokens : List Token} {n : Nat}

theorem takes_macroHead (h : OnlyPathSigns tokens) : Takes table n macroHead tokens none :=
  .seq_none fun _ hrest => .op_none (c := '!') (by decide) ((h.of_suffix hrest).lacks (by decide))

theorem takes_furtherBounds (h : OnlyPathSigns tokens) (precise const : Bool) :
    Takes table 4 (furtherBounds precise const) tokens (some tokens) := by
  have hplus {n : Nat} : Takes table n (sign "+") tokens none :=
    .op_none (c := '+') (by decide) (h.lacks (by decide))
  exact .seq (n := 3) (.loop_stop (.seq_none_left (n := 1) hplus))
    ((Takes.choose_no (n := 1) hplus .nothing).mono (by decide))

theorem front?_argumentsAhead_none (h : EndsSegment tokens) :
    (argumentsAhead false).front? tokens = none := by
  rcases h with hends | ⟨word, more, rfl⟩
  · unfold EndsType at hends
    split at hends
    · rfl
    · next c joint more =>
      rcases hends with rfl | rfl <;> cases joint <;> rfl
    · exact hends.elim
  · rfl

/-- No generic arguments follow. -/
theorem takes_noArguments (h : EndsSegment tokens) :
    Takes table 8 (opt (argumentsAhead false) (phrase .arguments)) tokens (some tokens) :=
  .choose_no (n := 7) (.ahead (front?_argumentsAhead_none h) rfl (by decide))
    (Takes.nothing.mono (by decide))

theorem front?_argumentsAhead {joint : Bool} (h : Lacks '=' (.punct '<' joint :: tokens)) :
    (argumentsAhead false).front? (.punct '<' joint :: tokens) =
      some (.punct '<' joint :: tokens) := by
  have hle : (without (sign "<=")).front? (.punct '<' joint :: tokens) = _ :=
    front?_without (takeOp_of_lacks (c := '=') (by decide) h)
  have hshift : (without (sign "<<=")).front? (.punct '<' joint :: tokens) = _ :=
    front?_without (takeOp_of_lacks (c := '=') (by decide) h)
  change (Rule.choose (without (sign "<=") ++ without (sign "<<=") ++ sign "<") Rule.nothing _).front?
    _ = _
  rw [front?, front?_append, front?_append, hle, Option.bind_some, hshift, Option.bind_some]
  rfl

theorem front?_segmentAhead_none (h : EndsType tokens) : segmentAhead.front? tokens = none := by
  unfold EndsType at h
  split at h
  · rfl
  · next c joint more =>
    rcases h with rfl | rfl <;> cases joint <;> rfl
  · exact h.elim

/-- No further segment follows. -/
theorem takes_noSegments (h : EndsType tokens) :
    Takes table 8 (furtherSegments false) tokens (some tokens) :=
  .loop_stop (n := 7) (.ahead (front?_segmentAhead_none h) rfl (by decide))

end

/-! ## Segments -/

theorem takes_keyword (keyword : PathKeyword) {rest : List Token} (h : EndsSegment rest) :
    Takes table 16 (phrase (.segment false)) (.word keyword.text :: rest) (some rest) := by
  refine Takes.named (n := 15) (Takes.mono ?_ (by decide : 11 ≤ 15))
  by_cases hself : keyword = .selfType
  · subst hself
    exact .choose_no (n := 10) (.ahead rfl rfl (by decide))
      (.seq (n := 9) (.ahead rfl rfl (by decide)) ((takes_noArguments h).mono (by decide)))
  · have hlook : (anyKey ["super", "self", "crate", "try"]).front? (.word keyword.text :: rest) =
        some (.word keyword.text :: rest) := by
      cases keyword with
      | super => rfl
      | self => rfl
      | selfType => exact absurd rfl hself
      | crate => rfl
    exact .choose_yes (n := 10) (.ahead hlook rfl (by decide)) (.ahead rfl rfl (by decide))

/-- The name of a segment, and its arguments if there are any. -/
theorem takes_name (name : Identifier) {tokens rest : List Token} {n : Nat}
    (h : Takes table n (opt (argumentsAhead false) (phrase .arguments)) tokens (some rest))
    (hbound : 8 ≤ n) :
    Takes table (n + 3) (phrase (.segment false)) (.word name.text :: tokens) (some rest) := by
  have hplain := name.isPlainName_text
  have hkeyword : (anyKey ["super", "self", "crate", "try"]).front? (.word name.text :: tokens) =
      none := by
    refine front?_anyKey_none tokens fun keyword hmem => beq_eq_false_of_isPlainName hplain ?_
    have hall : ∀ keyword ∈ ["super", "self", "crate", "try"],
        keyword.toList ∈ Token.keywords := by decide
    exact hall keyword hmem
  have hself : (key "Self").front? (.word name.text :: tokens) = none :=
    front?_key_none tokens (beq_eq_false_of_isPlainName hplain (by decide))
  have hhead : (Rule.choose (key "Self") any Phrase.name).front? (.word name.text :: tokens) =
      some tokens := by
    rw [front?, hself]
    simp [Phrase.name, front?, takeOne, TokenClass.has, hplain]
  refine Takes.named (Takes.choose_no (n := n + 1) (.ahead hkeyword rfl ?_)
    (.seq (.ahead hhead rfl ?_) h))
  · exact Nat.le_trans (by decide : _ ≤ 8) (Nat.le_succ_of_le hbound)
  · exact Nat.le_trans (by decide) hbound

/-! ## Paths and types -/

section

variable {tokens start middle rest : List Token} {n : Nat}

theorem takes_path (hstart : Takes table n (opt (sign "::") (sign "::")) tokens (some start))
    (hsegment : Takes table n (phrase (.segment false)) start (some middle))
    (hfurther : Takes table n (furtherSegments false) middle (some rest)) :
    Takes table (n + 3) (phrase (.path false)) tokens (some rest) :=
  .named (.seq (hstart.seq hsegment) (hfurther.mono (Nat.le_succ n)))

/-- A path starts in front of the tokens. -/
def StartsPath (tokens : List Token) : Prop :=
  (∃ word more, PathWord word ∧ tokens = .word word :: more) ∨
    ∃ more, tokens = TypeSyntax.colons ++ more

theorem PathWord.beq_eq_false {word keyword : List Char} (h : PathWord word)
    (hkeyword : keyword ∈ Token.keywords)
    (hother : ∀ other : PathKeyword, keyword ≠ other.text) : (keyword == word) = false := by
  rcases h with hplain | ⟨other, rfl⟩
  · exact beq_eq_false_of_isPlainName hplain hkeyword
  · exact beq_eq_false_iff_ne.2 (hother other)

theorem PathWord.front?_anyKey_none {word : List Char} (h : PathWord word) {names : List String}
    (hnames : ∀ name ∈ names, name.toList ∈ Token.keywords ∧
      ∀ other ∈ [PathKeyword.super, .self, .selfType, .crate], name.toList ≠ other.text)
    (tokens : List Token) : (anyKey names).front? (.word word :: tokens) = none := by
  refine ModelMend.front?_anyKey_none tokens fun name hmem => ?_
  obtain ⟨hkeyword, hother⟩ := hnames name hmem
  exact h.beq_eq_false hkeyword fun other => hother other (by cases other <;> decide)

/-- What a type that starts like a path is told from. -/
theorem StartsPath.front? (h : StartsPath tokens) :
    (key "for").front? tokens = none ∧ (Rule.group (P := Phrase) .round).front? tokens = none ∧
      (anyKey ["fn", "unsafe", "extern"]).front? tokens = none ∧
      (sign "<").front? tokens = none ∧
      (oneOf [pathWord, sign "::"]).front? tokens = some tokens := by
  rcases h with ⟨word, more, hword, rfl⟩ | ⟨more, rfl⟩
  · have hfor : (key "for").front? (.word word :: more) = none :=
      front?_key_none more (hword.beq_eq_false (by decide) fun other => by cases other <;> decide)
    have hfunction : (anyKey ["fn", "unsafe", "extern"]).front? (.word word :: more) = none :=
      hword.front?_anyKey_none (by decide) more
    have hahead : (oneOf [pathWord, sign "::"]).front? (.word word :: more) =
        some (.word word :: more) := by
      change (Rule.choose pathWord Rule.nothing _).front? _ = _
      rw [Rule.front?, hword.front?_pathWord]
      rfl
    exact ⟨hfor, rfl, hfunction, rfl, hahead⟩
  · exact ⟨rfl, rfl, rfl, rfl, rfl⟩

theorem takes_ahead {rule : Rule Phrase} {result : Option (List Token)} {k : Nat}
    (hbound : 8 ≤ n) (hfront : rule.front? tokens = result) (hrule : rule.looksAhead = true)
    (hdepth : rule.depth ≤ 8) : Takes table (n + k) rule tokens result :=
  .ahead hfront hrule (by omega)

/-- A type that starts like a path is read as one. -/
theorem takes_type (hstarts : StartsPath tokens) (hsigns : OnlyPathSigns tokens)
    (hpath : Takes table n (phrase (.path false)) tokens (some rest)) (hbound : 8 ≤ n) :
    Takes table (n + 8) (phrase (.type true)) tokens (some rest) := by
  have hrest : OnlyPathSigns rest := hsigns.of_suffix (run_suffix (hpath n (Nat.le_refl n)))
  have hpathType : Takes table (n + 2) (pathType true) tokens (some rest) :=
    .choose_no (takes_macroHead hsigns)
      (hpath.seq ((takes_furtherBounds hrest _ _).mono (by omega)))
  obtain ⟨hfor, hround, hfunction, hangle, hahead⟩ := hstarts.front?
  exact .named (.choose_no (takes_ahead hbound hfor rfl (by decide))
    (.choose_no (takes_ahead hbound hround rfl (by decide))
    (.choose_no (takes_ahead hbound hfunction rfl (by decide))
    (.choose_no (takes_ahead hbound hangle rfl (by decide))
    (.choose_yes (takes_ahead hbound hahead rfl (by decide)) hpathType)))))

/-- An argument that starts like a path is read as a type. -/
theorem takes_argument_absolute (hsigns : OnlyPathSigns (TypeSyntax.colons ++ tokens))
    (htype : Takes table n (phrase (.type true)) (TypeSyntax.colons ++ tokens) (some rest))
    (hbound : 8 ≤ n) :
    Takes table (n + 5) (phrase .argument) (TypeSyntax.colons ++ tokens) (some rest) :=
  .named (.choose_no (takes_ahead (k := 3) hbound rfl rfl (by decide))
    (.choose_no (takes_ahead (k := 2) hbound rfl rfl (by decide))
    (.choose_no (takes_macroHead hsigns)
    (.choose_no (takes_ahead (k := 0) hbound rfl rfl (by decide)) htype))))

theorem PathWord.front?_constAhead {word : List Char} (h : PathWord word) (tokens : List Token) :
    constAhead.front? (.word word :: tokens) = none := by
  have hne {keyword : List Char} (hkeyword : keyword ∈ Token.keywords)
      (hother : ∀ other : PathKeyword, keyword ≠ other.text) : (word == keyword) = false :=
    beq_eq_false_iff_ne.2 (beq_eq_false_iff_ne.1 (h.beq_eq_false hkeyword hother)).symm
  have htrue : (word == "true".toList) = false :=
    hne (by decide) fun other => by cases other <;> decide
  have hfalse : (word == "false".toList) = false :=
    hne (by decide) fun other => by cases other <;> decide
  have hliteral : (Rule.one (P := Phrase) .literal).front? (.word word :: tokens) = none := by
    rw [Rule.front?, takeOne, TokenClass.has, htrue, hfalse]
    rfl
  have hahead : literalAhead.front? (.word word :: tokens) = none := by
    change (Rule.choose (.one .literal) Rule.nothing _).front? _ = _
    rw [Rule.front?, hliteral]
    rfl
  change (Rule.choose literalAhead Rule.nothing _).front? _ = _
  rw [Rule.front?, hahead]
  rfl

/-- Neither a value nor bounds follow the name of an argument. -/
theorem EndsSegment.front? (h : EndsSegment tokens) :
    (sign "=").front? tokens = none ∧ (without (sign "::") ++ sign ":").front? tokens = none := by
  rcases h with hends | ⟨word, more, rfl⟩
  · unfold EndsType at hends
    split at hends
    · exact ⟨rfl, rfl⟩
    · next c joint more =>
      rcases hends with rfl | rfl <;> cases joint <;> exact ⟨rfl, rfl⟩
    · exact hends.elim
  · exact ⟨rfl, rfl⟩

/-- An argument that starts with a word is read segment by segment. -/
theorem takes_argument_relative {word : List Char} (hword : PathWord word)
    (hsigns : OnlyPathSigns (.word word :: tokens)) (hends : EndsSegment middle)
    (hsegment : Takes table n (phrase (.segment false)) (.word word :: tokens) (some middle))
    (hfurther : Takes table n (furtherSegments false) middle (some rest)) (hbound : 8 ≤ n) :
    Takes table (n + 9) (phrase .argument) (.word word :: tokens) (some rest) := by
  have hmiddle := hsigns.of_suffix (run_suffix (hsegment n (Nat.le_refl n)))
  have hrest := hmiddle.of_suffix (run_suffix (hfurther n (Nat.le_refl n)))
  obtain ⟨hvalue, hbounds⟩ := hends.front?
  have hafter := hfurther.seq ((takes_furtherBounds hrest false false).mono (by omega))
  exact .named (.choose_no (takes_ahead (k := 7) hbound rfl rfl (by decide))
    (.choose_no (takes_ahead hbound (hword.front?_constAhead tokens) rfl (by decide))
    (.choose_no (takes_macroHead hsigns)
    (.choose_yes (takes_ahead hbound (hword.front?_pathWord tokens) rfl (by decide))
    (.seq (hsegment.mono (Nat.le_add_right n 3))
    (.choose_no (takes_ahead hbound hvalue rfl (by decide))
    (.choose_no (takes_ahead hbound hbounds rfl (by decide)) hafter)))))))

/-- A lifetime is an argument. -/
theorem takes_argument_lifetime (name : List Char) (hsigns : OnlyPathSigns tokens) :
    Takes table 16 (phrase .argument) (.lifetime name :: tokens) (some tokens) := by
  have hplus : (without (sign "+")).front? tokens = some tokens :=
    front?_without (takeOp_of_lacks (c := '+') (by decide) (hsigns.lacks (by decide)))
  have hlook : (Rule.one .lifetime ++ without (sign "+")).front? (.lifetime name :: tokens) =
      some tokens := by
    rw [front?_append]
    exact hplus
  exact .named (.choose_yes (n := 14) (.ahead hlook rfl (by decide))
    (.ahead rfl rfl (by decide)))

/-! ## Arguments -/

/-- The arguments after the first. -/
def furtherArguments : Rule Phrase :=
  loop (without (sign ">")) (sign "," ++ choose (sign ">") Rule.nothing (phrase .argument))

/-- Arguments between angle brackets. -/
theorem takes_arguments {joint closing : Bool}
    (hsigns : OnlyPathSigns (.punct '<' joint :: tokens))
    (hfirst : (sign ">").front? tokens = none)
    (hargument : Takes table n (phrase .argument) tokens (some middle))
    (hfurther : Takes table n furtherArguments middle (some (.punct '>' closing :: rest)))
    (hbound : 8 ≤ n) :
    Takes table (n + 6) (opt (argumentsAhead false) (phrase .arguments))
      (.punct '<' joint :: tokens) (some rest) := by
  have hcolons : (opt (sign "::") (sign "::")).front? (.punct '<' joint :: tokens) =
      some (.punct '<' joint :: tokens) := by
    cases joint <;> rfl
  have hopening : (opt (sign "::") (sign "::") ++ sign "<").front? (.punct '<' joint :: tokens) =
      some tokens := by
    rw [front?_append, hcolons]
    rfl
  have hlist : Takes table (n + 2) (separated (sign ">") (sign ",") (phrase .argument)) tokens
      (some (.punct '>' closing :: rest)) :=
    .choose_no (takes_ahead hbound hfirst rfl (by decide)) (hargument.seq hfurther)
  refine .choose_yes (takes_ahead hbound (front?_argumentsAhead (hsigns.lacks (by decide))) rfl
    (by decide)) (.named (.seq (.seq ?_ hlist) (takes_ahead (k := 3) hbound rfl rfl (by decide))))
  exact takes_ahead hbound hopening rfl (by decide)

end

end ModelMend
