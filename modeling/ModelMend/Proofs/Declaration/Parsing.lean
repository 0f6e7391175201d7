import ModelMend.Proofs.Declaration.Phrases

/-!
# A printed type follows the grammar

The tokens of a type, in front of the end of the text or of a comma or a closing bracket, are taken
as a type by the grammar, and the same holds for every part of a type (`parsed`). So a printed type
is a relationship type exactly if its last segment names a container (`isRelationType_text`).
-/

namespace ModelMend

open Text Lexeme Grammar Rule
open Phrase (phrase sign key anyKey pathWord macroHead literalAhead)

namespace TypeSyntax

variable {part : TypePart}

/-- The tokens of a path start with a word. -/
theorem tokens_segment_cons (segment : TypeSyntax .segment) (joint : Bool) :
    ∃ word more, PathWord word ∧ segment.tokens joint = .word word :: more := by
  cases segment with
  | keyword word => exact ⟨word.text, [], Or.inr ⟨word, rfl⟩, rfl⟩
  | plain name => exact ⟨name.text, [], Or.inl name.isPlainName_text, rfl⟩
  | generic name arguments => exact ⟨name.text, _, Or.inl name.isPlainName_text, rfl⟩

theorem tokens_path_cons (path : TypeSyntax .path) (joint : Bool) :
    ∃ word more, PathWord word ∧ path.tokens joint = .word word :: more := by
  cases path with
  | last segment => exact segment.tokens_segment_cons joint
  | nested segment path =>
    obtain ⟨word, more, hword, htokens⟩ := segment.tokens_segment_cons true
    exact ⟨word, _, hword, by rw [tokens, htokens]; rfl⟩

/-- No part of a type starts with a closing bracket. -/
theorem front?_closing_none (type : TypeSyntax part) (joint : Bool) (rest : List Token) :
    (sign ">").front? (type.tokens joint ++ rest) = none := by
  induction type generalizing joint rest with
  | last segment ih => exact ih joint rest
  | nested segment path ih _ =>
    rw [tokens, List.append_assoc, List.append_assoc]
    exact ih true _
  | keyword word => rfl
  | plain name => rfl
  | generic name arguments _ => rfl
  | one argument ih => exact ih joint rest
  | more argument arguments ih _ =>
    rw [tokens, List.append_assoc, List.append_assoc]
    exact ih true _
  | lifetime name => rfl
  | typed type ih => exact ih joint rest
  | relative path ih => exact ih joint rest
  | absolute path _ => rfl

/-- A part of a type is taken by its phrase, in front of anything that ends it. A path is taken
segment by segment and a list of arguments one by one, since the grammar goes on after the first in
more than one place. -/
def Parsed : {part : TypePart} → TypeSyntax part → Prop
  | .path, path => ∀ joint rest, OnlyPathSigns rest → EndsType rest → ∃ middle, EndsSegment middle ∧
    Takes table (32 * (path.tokens joint).length) (phrase (.segment false)) (path.tokens joint ++ rest)
      (some middle) ∧
    Takes table (32 * (path.tokens joint).length) (furtherSegments false) middle (some rest)
  | .segment, segment => ∀ joint rest, OnlyPathSigns rest → EndsSegment rest →
    Takes table (32 * (segment.tokens joint).length) (phrase (.segment false))
      (segment.tokens joint ++ rest) (some rest)
  | .arguments, arguments => ∀ joint closing rest, OnlyPathSigns rest → ∃ middle,
    Takes table (32 * (arguments.tokens joint).length + 64) (phrase .argument)
      (arguments.tokens joint ++ .punct '>' closing :: rest) (some middle) ∧
    Takes table (32 * (arguments.tokens joint).length + 64) furtherArguments middle
      (some (.punct '>' closing :: rest))
  | .argument, argument => ∀ joint rest, OnlyPathSigns rest → EndsType rest →
    Takes table (32 * (argument.tokens joint).length + 32) (phrase .argument)
      (argument.tokens joint ++ rest) (some rest)
  | .type, type => ∀ joint rest, OnlyPathSigns rest → EndsType rest →
    Takes table (32 * (type.tokens joint).length + 16) (phrase (.type true))
      (type.tokens joint ++ rest) (some rest) ∧
    Takes table (32 * (type.tokens joint).length + 32) (phrase .argument)
      (type.tokens joint ++ rest) (some rest)

theorem tokens_length_pos (path : TypeSyntax .path) (joint : Bool) :
    0 < (path.tokens joint).length := by
  obtain ⟨word, more, -, htokens⟩ := path.tokens_path_cons joint
  rw [htokens]
  exact Nat.succ_pos _

theorem parsed_last {segment : TypeSyntax .segment} (h : segment.Parsed) : (last segment).Parsed := by
  intro joint rest hrest hends
  have hlength := (last segment).tokens_length_pos joint
  exact ⟨rest, Or.inl hends, h joint rest hrest (Or.inl hends),
    (takes_noSegments hends).mono (by omega)⟩

theorem parsed_nested {segment : TypeSyntax .segment} {path : TypeSyntax .path}
    (hsegment : segment.Parsed) (hpath : path.Parsed) : (nested segment path).Parsed := by
  intro joint rest hrest hends
  obtain ⟨middle, -, hfirst, hfurther⟩ := hpath joint rest hrest hends
  obtain ⟨word, more, -, htokens⟩ := path.tokens_path_cons joint
  have hsigns : OnlyPathSigns (colons ++ (path.tokens joint ++ rest)) := by
    have hfront := (absolute path).onlyPathSigns_tokens joint
    rw [← List.append_assoc]
    exact hfront.append hrest
  have hstop : EndsSegment (colons ++ (path.tokens joint ++ rest)) :=
    Or.inr ⟨word, more ++ rest, by rw [htokens]; rfl⟩
  have hlook : segmentAhead.front? (colons ++ (path.tokens joint ++ rest)) =
      some (path.tokens joint ++ rest) := by
    rw [htokens]
    rfl
  have hlength := path.tokens_length_pos joint
  have hlonger : ((nested segment path).tokens joint).length =
      (segment.tokens true).length + 2 + (path.tokens joint).length := by
    rw [tokens, List.length_append, List.length_append]
    rfl
  have hcolons : Takes table (32 * (path.tokens joint).length) (sign "::")
      (colons ++ (path.tokens joint ++ rest)) (some (path.tokens joint ++ rest)) :=
    .ahead rfl rfl (Nat.le_trans (by decide : 1 ≤ 8) (by omega))
  have hloop : Takes table (32 * (path.tokens joint).length + 2) (furtherSegments false)
      (colons ++ (path.tokens joint ++ rest)) (some rest) :=
    .loop_more (takes_ahead (by omega) hlook rfl (by decide)) (hcolons.seq hfirst)
      (hfurther.mono (Nat.le_succ _))
  have htokens : (nested segment path).tokens joint ++ rest =
      segment.tokens true ++ (colons ++ (path.tokens joint ++ rest)) := by
    rw [tokens, List.append_assoc, List.append_assoc]
  rw [htokens]
  exact ⟨_, hstop, (hsegment true _ hsigns hstop).mono (by omega), hloop.mono (by omega)⟩

/-- The arguments of a segment with their brackets. -/
theorem takes_brackets {arguments : TypeSyntax .arguments} (h : arguments.Parsed)
    (opening closing : Bool) {rest : List Token} (hrest : OnlyPathSigns rest) :
    Takes table (32 * (arguments.tokens true).length + 70)
      (opt (argumentsAhead false) (phrase .arguments))
      (.punct '<' opening :: (arguments.tokens true ++ .punct '>' closing :: rest)) (some rest) := by
  obtain ⟨middle, hargument, hfurther⟩ := h true closing rest hrest
  have hsigns : OnlyPathSigns (arguments.tokens true ++ .punct '>' closing :: rest) :=
    (arguments.onlyPathSigns_tokens true).append (hrest.sign_cons (by decide) closing)
  exact takes_arguments (hsigns.sign_cons (by decide) opening)
    (arguments.front?_closing_none true _) hargument hfurther (by omega)

theorem parsed_generic (name : Identifier) {arguments : TypeSyntax .arguments}
    (h : arguments.Parsed) : (generic name arguments).Parsed := by
  intro joint rest hrest hends
  have htokens : (generic name arguments).tokens joint ++ rest =
      .word name.text :: .punct '<' (startsPunct arguments.text) ::
        (arguments.tokens true ++ .punct '>' joint :: rest) := by
    simp [tokens]
  have hlength : ((generic name arguments).tokens joint).length =
      (arguments.tokens true).length + 3 := by
    simp [tokens]
  rw [htokens]
  exact (takes_name name (takes_brackets h _ joint hrest) (by omega)).mono (by omega)

theorem parsed_one {argument : TypeSyntax .argument} (h : argument.Parsed) :
    (one argument).Parsed := by
  intro joint closing rest hrest
  have hsigns : OnlyPathSigns (.punct '>' closing :: rest) := hrest.sign_cons (by decide) closing
  have hstop : (without (sign ">")).front? (.punct '>' closing :: rest) = none := rfl
  refine ⟨.punct '>' closing :: rest, (h joint _ hsigns (Or.inr rfl)).mono ?_, ?_⟩
  · rw [tokens]
    omega
  · exact (Takes.loop_stop (n := 8) (.ahead hstop rfl (by decide))).mono (by omega)

theorem parsed_more {argument : TypeSyntax .argument} {arguments : TypeSyntax .arguments}
    (hargument : argument.Parsed) (harguments : arguments.Parsed) :
    (more argument arguments).Parsed := by
  intro joint closing rest hrest
  obtain ⟨middle, hnext, hfurther⟩ := harguments joint closing rest hrest
  have hsigns : OnlyPathSigns
      (.punct ',' false :: (arguments.tokens joint ++ .punct '>' closing :: rest)) :=
    ((arguments.onlyPathSigns_tokens joint).append (hrest.sign_cons (by decide) closing)).sign_cons
      (by decide) false
  have hbody : Takes table (32 * (arguments.tokens joint).length + 66)
      (sign "," ++ choose (sign ">") Rule.nothing (phrase .argument))
      (.punct ',' false :: (arguments.tokens joint ++ .punct '>' closing :: rest)) (some middle) :=
    .seq (takes_ahead (k := 1) (by omega) rfl rfl (by decide))
      (.choose_no (takes_ahead (k := 0) (by omega) (arguments.front?_closing_none joint _) rfl
        (by decide)) hnext)
  have hloop : Takes table (32 * (arguments.tokens joint).length + 67) furtherArguments
      (.punct ',' false :: (arguments.tokens joint ++ .punct '>' closing :: rest))
      (some (.punct '>' closing :: rest)) :=
    .loop_more (takes_ahead (k := 2) (by omega) rfl rfl (by decide)) hbody
      (hfurther.mono (by omega))
  have htokens : (more argument arguments).tokens joint ++ .punct '>' closing :: rest =
      argument.tokens true ++
        .punct ',' false :: (arguments.tokens joint ++ .punct '>' closing :: rest) := by
    simp [tokens]
  have hlength : ((more argument arguments).tokens joint).length =
      (argument.tokens true).length + 1 + (arguments.tokens joint).length := by
    simp [tokens]
    omega
  rw [htokens]
  exact ⟨_, (hargument true _ hsigns (Or.inl rfl)).mono (by omega), hloop.mono (by omega)⟩

theorem takes_relative {path : TypeSyntax .path} (h : path.Parsed) (joint : Bool)
    {rest : List Token} (hrest : OnlyPathSigns rest) (hends : EndsType rest) :
    Takes table (32 * (path.tokens joint).length + 3) (phrase (.path false))
      (path.tokens joint ++ rest) (some rest) := by
  obtain ⟨middle, -, hsegment, hfurther⟩ := h joint rest hrest hends
  obtain ⟨word, more, -, htokens⟩ := path.tokens_path_cons joint
  have hlength := path.tokens_length_pos joint
  have hlook : (opt (sign "::") (sign "::")).front? (path.tokens joint ++ rest) =
      some (path.tokens joint ++ rest) := by
    rw [htokens]
    rfl
  have hbound : 8 ≤ 32 * (path.tokens joint).length := by omega
  exact takes_path (takes_ahead (k := 0) hbound hlook rfl (by decide)) hsegment hfurther

theorem takes_absolute {path : TypeSyntax .path} (h : path.Parsed) (joint : Bool)
    {rest : List Token} (hrest : OnlyPathSigns rest) (hends : EndsType rest) :
    Takes table (32 * (path.tokens joint).length + 3) (phrase (.path false))
      (colons ++ (path.tokens joint ++ rest)) (some rest) := by
  obtain ⟨middle, -, hsegment, hfurther⟩ := h joint rest hrest hends
  have hlength := path.tokens_length_pos joint
  have hbound : 8 ≤ 32 * (path.tokens joint).length := by omega
  exact takes_path (takes_ahead (k := 0) hbound rfl rfl (by decide)) hsegment hfurther

theorem parsed_relative {path : TypeSyntax .path} (h : path.Parsed) : (relative path).Parsed := by
  intro joint rest hrest hends
  have hpath := takes_relative h joint hrest hends
  obtain ⟨middle, hmiddle, hsegment, hfurther⟩ := h joint rest hrest hends
  obtain ⟨word, more, hword, htokens⟩ := path.tokens_path_cons joint
  have hlength := path.tokens_length_pos joint
  have hsigns := ((relative path).onlyPathSigns_tokens joint).append hrest
  rw [tokens] at hsigns ⊢
  have hbound : 8 ≤ 32 * (path.tokens joint).length := by omega
  generalize 32 * (path.tokens joint).length = n at hpath hsegment hfurther hbound ⊢
  rw [htokens, List.cons_append] at hpath hsegment hsigns ⊢
  have hstarts : StartsPath (.word word :: (more ++ rest)) := Or.inl ⟨word, _, hword, rfl⟩
  exact ⟨(takes_type hstarts hsigns hpath (by omega)).mono (by omega),
    (takes_argument_relative hword hsigns hmiddle hsegment hfurther hbound).mono (by omega)⟩

theorem parsed_absolute {path : TypeSyntax .path} (h : path.Parsed) : (absolute path).Parsed := by
  intro joint rest hrest hends
  have hsigns := ((absolute path).onlyPathSigns_tokens joint).append hrest
  have hlength : ((absolute path).tokens joint).length = (path.tokens joint).length + 2 := by
    simp [tokens, colons]
  have hpos := path.tokens_length_pos joint
  have htokens : (absolute path).tokens joint ++ rest = colons ++ (path.tokens joint ++ rest) := by
    rw [tokens, List.append_assoc]
  rw [htokens] at hsigns ⊢
  have htype := takes_type (Or.inr ⟨_, rfl⟩) hsigns (takes_absolute h joint hrest hends) (by omega)
  exact ⟨htype.mono (by omega),
    (takes_argument_absolute hsigns htype (by omega)).mono (by omega)⟩

/-- **Every part of a printed type is taken by its phrase.** -/
theorem parsed (type : TypeSyntax part) : type.Parsed := by
  induction type with
  | last segment ih => exact parsed_last ih
  | nested segment path ihSegment ihPath => exact parsed_nested ihSegment ihPath
  | keyword word =>
    intro joint rest _ hends
    exact (takes_keyword word hends).mono (by simp [tokens])
  | plain name =>
    intro joint rest _ hends
    exact (takes_name name (takes_noArguments hends) (by decide)).mono (by simp [tokens])
  | generic name arguments ih => exact parsed_generic name ih
  | one argument ih => exact parsed_one ih
  | more argument arguments ihArgument ihArguments => exact parsed_more ihArgument ihArguments
  | lifetime name =>
    intro joint rest hrest _
    exact (takes_argument_lifetime name.text hrest).mono (by omega)
  | typed type ih =>
    intro joint rest hrest hends
    exact (ih joint rest hrest hends).2
  | relative path ih => exact parsed_relative ih
  | absolute path ih => exact parsed_absolute ih

/-! ## Relationship types -/

theorem length_le_weightAll (tokens : List Token) : tokens.length ≤ Token.weightAll tokens := by
  induction tokens with
  | nil => exact Nat.zero_le _
  | cons token tokens ih =>
    have := token.weight_pos
    rw [List.length_cons, Token.weightAll]
    omega

/-- There is fuel enough for a bound like those above. -/
theorem rest?_of_takes {rule : Rule Phrase} {tokens : List Token} {result : Option (List Token)}
    (h : Takes table (32 * tokens.length + 128) rule tokens result) :
    after? rule tokens = result := by
  refine h _ ?_
  have := length_le_weightAll tokens
  rw [fuelFor]
  omega

theorem takes_path_of_type (type : TypeSyntax .type) :
    Takes table (32 * (type.tokens false).length + 3) (phrase (.path false)) (type.tokens false)
      (some []) := by
  cases type with
  | relative path =>
    have h := takes_relative path.parsed false .nil (trivial : EndsType [])
    rwa [List.append_nil] at h
  | absolute path =>
    have h := takes_absolute path.parsed false .nil (trivial : EndsType [])
    rw [List.append_nil] at h
    refine h.mono ?_
    rw [tokens, List.length_append]
    omega

theorem startsPath_tokens (type : TypeSyntax .type) (joint : Bool) :
    StartsPath (type.tokens joint) := by
  cases type with
  | relative path =>
    obtain ⟨word, more, hword, htokens⟩ := path.tokens_path_cons joint
    exact Or.inl ⟨word, more, hword, htokens⟩
  | absolute path => exact Or.inr ⟨path.tokens joint, rfl⟩

theorem isType_tokens (type : TypeSyntax .type) : isType (type.tokens false) = true := by
  have htype := (type.parsed false [] .nil trivial).1
  rw [List.append_nil] at htype
  have hrest : after? (phrase (.type true)) (type.tokens false) = some [] :=
    rest?_of_takes (htype.mono (by omega))
  change ((after? (phrase (.type true)) (type.tokens false)).any List.isEmpty) = true
  rw [hrest]
  rfl

theorem isPathType_tokens (type : TypeSyntax .type) : isPathType (type.tokens false) = true := by
  have hpath := type.takes_path_of_type
  obtain ⟨-, -, -, hangle, -⟩ := (type.startsPath_tokens false).front?
  have hlook : (oneOf [pathWord, sign "::", sign "<"]).front? (type.tokens false) =
      some (type.tokens false) := by
    rcases type.startsPath_tokens false with ⟨word, more, hword, htokens⟩ | ⟨more, htokens⟩
    · rw [htokens]
      change (Rule.choose pathWord Rule.nothing _).front? _ = _
      rw [Rule.front?, hword.front?_pathWord]
      rfl
    · rw [htokens]
      rfl
  have hqualified : Takes table (32 * (type.tokens false).length + 10)
      (phrase (.qualifiedPath false)) (type.tokens false) (some []) :=
    .named (.choose_no (.ahead hangle rfl (Nat.le_trans (by decide : 1 ≤ 8) (by omega)))
      (hpath.mono (by omega)))
  have hall : Takes table (32 * (type.tokens false).length + 11)
      (Rule.choose (oneOf [pathWord, sign "::", sign "<"]) (phrase (.qualifiedPath false)) never)
      (type.tokens false) (some []) :=
    .choose_yes (.ahead hlook rfl (Nat.le_trans (by decide : _ ≤ 10) (by omega))) hqualified
  change ((after? (Rule.choose (oneOf [pathWord, sign "::", sign "<"])
    (phrase (.qualifiedPath false)) never) (type.tokens false)).any List.isEmpty) = true
  rw [rest?_of_takes (hall.mono (by omega))]
  rfl

/-- The segment in front is passed with its arguments. -/
theorem takes_segment_arguments (segment : TypeSyntax .segment) (joint : Bool) {rest : List Token}
    (hrest : OnlyPathSigns rest) (hends : EndsSegment rest) :
    ∃ more, segment.tokens joint ++ rest = .word segment.lastName :: more ∧
      after? (opt (argumentsAhead false) (phrase .arguments)) more = some rest := by
  cases segment with
  | keyword word => exact ⟨rest, rfl, rest?_of_takes ((takes_noArguments hends).mono (by omega))⟩
  | plain name => exact ⟨rest, rfl, rest?_of_takes ((takes_noArguments hends).mono (by omega))⟩
  | generic name arguments =>
    refine ⟨.punct '<' (startsPunct arguments.text) ::
      (arguments.tokens true ++ .punct '>' joint :: rest), by simp [tokens, lastName], ?_⟩
    refine rest?_of_takes ((takes_brackets arguments.parsed _ joint hrest).mono ?_)
    rw [List.length_cons, List.length_append]
    omega

theorem lastSegment?_tokens : ∀ (path : TypeSyntax .path) (fuel : Nat),
    (path.tokens false).length ≤ fuel →
      lastSegment? fuel (path.tokens false) = some path.lastName
  | last segment, fuel, hfuel => by
    obtain ⟨more, htokens, hmore⟩ :=
      segment.takes_segment_arguments false .nil (Or.inl (trivial : EndsType []))
    rw [List.append_nil] at htokens
    cases fuel with
    | zero =>
      have := (last segment).tokens_length_pos false
      omega
    | succ fuel =>
      rw [tokens, htokens, lastSegment?, hmore]
      rfl
  | nested segment path, fuel, hfuel => by
    obtain ⟨word, after, -, hword⟩ := path.tokens_path_cons false
    have hsigns : OnlyPathSigns (colons ++ path.tokens false) :=
      (absolute path).onlyPathSigns_tokens false
    have hends : EndsSegment (colons ++ path.tokens false) :=
      Or.inr ⟨word, after, by rw [hword]⟩
    obtain ⟨more, htokens, hmore⟩ := segment.takes_segment_arguments true hsigns hends
    have hlength : ((nested segment path).tokens false).length =
        (segment.tokens true).length + 2 + (path.tokens false).length := by
      simp [tokens, colons]
      omega
    cases fuel with
    | zero => omega
    | succ fuel =>
      have ih := lastSegment?_tokens path fuel (by omega)
      rw [tokens, List.append_assoc, htokens, lastSegment?, hmore]
      exact ih

/-- **The name of the last segment is found.** -/
theorem pathName?_tokens (type : TypeSyntax .type) :
    pathName? (type.tokens false) = some type.lastName := by
  obtain ⟨-, -, -, hangle, -⟩ := (type.startsPath_tokens false).front?
  have hhead {start : List Token} (hlook : (opt (sign "::") (sign "::")).front? (type.tokens false) =
      some start) : after? (Rule.choose (sign "<") selfType (opt (sign "::") (sign "::")))
        (type.tokens false) = some start :=
    rest?_of_takes ((Takes.choose_no (n := 8) (.ahead hangle rfl (by decide))
      (.ahead hlook rfl (by decide))).mono (by omega))
  cases type with
  | relative path =>
    obtain ⟨word, more, -, htokens⟩ := path.tokens_path_cons false
    have hlook : (opt (sign "::") (sign "::")).front? ((relative path).tokens false) =
        some (path.tokens false) := by
      rw [tokens, htokens]
      rfl
    unfold pathName?
    dsimp only
    rw [hhead hlook, Option.bind_some]
    exact lastSegment?_tokens path _ (Nat.le_refl _)
  | absolute path =>
    unfold pathName?
    dsimp only
    rw [@hhead (path.tokens false) rfl, Option.bind_some]
    exact lastSegment?_tokens path _ (by simp [tokens])

/-- **A printed type is a relationship type exactly if it names a container.** -/
theorem isRelationType_text (type : TypeSyntax .type) :
    isRelationType type.text = type.isContainer := by
  unfold isRelationType
  rw [type.ofText?_text]
  simp only [Option.filter_some, type.isType_tokens, ↓reduceIte, type.isPathType_tokens, Bool.true_and,
    type.pathName?_tokens]
  rfl

end TypeSyntax

end ModelMend
