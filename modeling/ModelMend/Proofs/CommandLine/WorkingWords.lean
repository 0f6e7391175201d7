import ModelMend.CommandLine.Arguments

/-!
# The words that say what is to be done

Some switches only choose what is told. A command line without the words for them asks for the same
work (`Arguments.parse_workingWords`).

The reader of all words and the reader of the working words keep in step (`ArgumentReader.Follows`):
what one has taken the other has taken too, or has still pending. A telling switch makes the first reader
take what is pending, and the second does not see it; whatever comes next makes it catch up.
-/

namespace ModelMend

namespace Switch

/-- The switch only chooses what is told. -/
def onlyTells : Switch → Bool
  | json | verbose | quiet => true
  | _ => false

theorem long_of_ofLong? {name : List Char} {switch : Switch} (h : ofLong? name = some switch) :
    switch.long = name :=
  of_decide_eq_true (List.find?_some h :)

theorem not_onlyTells_of_takesValue {switch : Switch} (h : switch.takesValue = true) :
    switch.onlyTells = false := by
  cases switch <;> first | rfl | cases h

end Switch

/-- The word is made of switches that only choose what is told. -/
def isTellingWord : List Char → Bool
  | '-' :: '-' :: name => (Switch.ofLong? name).any Switch.onlyTells
  | '-' :: letter :: letters =>
    (letter :: letters).all fun letter => (Switch.ofShort? letter).any Switch.onlyTells
  | _ => false

theorem isTellingWord_cases {word : List Char} (h : isTellingWord word = true) :
    (∃ switch : Switch, switch.onlyTells = true ∧ word = '-' :: '-' :: switch.long) ∨
    ∃ letter letters, letter ≠ '-' ∧ word = '-' :: letter :: letters ∧
      ((letter :: letters).all fun letter =>
        (Switch.ofShort? letter).any Switch.onlyTells) = true := by
  unfold isTellingWord at h
  split at h
  · next name =>
    cases hswitch : Switch.ofLong? name with
    | none => simp [hswitch] at h
    | some switch =>
      rw [hswitch] at h
      exact Or.inl ⟨switch, h, by rw [Switch.long_of_ofLong? hswitch]⟩
  · next letter letters hlong =>
    exact Or.inr ⟨letter, letters, fun hletter => hlong hletter, rfl, h⟩
  · cases h

/-- The words of a command line but those that only choose what is told. After two hyphens alone every
word is a value. -/
def workingWords : List (List Char) → List (List Char)
  | [] => []
  | word :: words =>
    if word = "--".toList then word :: words
    else if isTellingWord word then workingWords words
    else word :: workingWords words

/-- The arguments with nothing said about what is told. -/
def Arguments.work (arguments : Arguments) : Arguments :=
  { arguments with json := false, verbose := false, quiet := false }

namespace ArgumentReader

/-- The reader as it would be without the telling switches. -/
def work (reader : ArgumentReader) : ArgumentReader :=
  { reader with
    arguments := reader.arguments.work
    seen := reader.seen.filter fun switch => !switch.onlyTells }

/-- Only a switch that takes a value waits for one or has one. -/
def PendingTakes (reader : ArgumentReader) : Prop :=
  ∀ switch, (reader.pending = some (.switch switch) ∨
    ∃ value, reader.pending = some (.value switch value)) → switch.takesValue = true

/-- The follower has read the working words of what the reader has read. -/
structure Follows (reader follower : ArgumentReader) : Prop where
  pendingTakes : reader.PendingTakes
  /-- It is in the same state, or has yet to take what the reader has taken. -/
  inStep : follower = reader.work ∨ reader.pending = none ∧ follower.settle = .ok reader.work

/-- What the follower comes to is what the reader comes to, without the telling switches. -/
structure CatchesUp (reader after : ArgumentReader) (result : Except NoRun ArgumentReader) :
    Prop where
  result_eq : result = .ok after.work
  pendingTakes : after.PendingTakes
  onlyValues_eq : after.onlyValues = reader.onlyValues

variable {reader follower after : ArgumentReader} {switch : Switch} {word : List Char}

/-! ## Taking values and switches -/

theorem contains_work (h : switch.onlyTells = false) :
    reader.work.seen.contains switch = reader.seen.contains switch := by
  simp [work, h]

theorem takeValue_work (h : switch.takesValue = true) (value : List Char) :
    reader.work.takeValue switch value = (reader.takeValue switch value).map work := by
  have hseen := @contains_work reader switch (Switch.not_onlyTells_of_takesValue h)
  cases switch <;> try cases h
  · simp only [takeValue, hseen]
    split
    · rfl
    · split
      · rfl
      · simp [Except.map, work, Arguments.work, List.filter_append, Switch.onlyTells]
  · rfl

theorem settle_work (h : reader.PendingTakes) : reader.work.settle = reader.settle.map work := by
  unfold settle
  cases hpending : reader.pending with
  | none => simp [work, hpending, Except.map]
  | some pending =>
    have hwork : reader.work.pending = some pending := hpending
    cases pending with
    | switch switch => simp [hwork, refuse, Except.map]
    | value switch value =>
      have htakes := h switch (Or.inr ⟨value, hpending⟩)
      simp only [hwork]
      exact @takeValue_work { reader with pending := none } switch htakes value
    | directory value =>
      simp only [hwork]
      split <;> rfl

theorem pending_of_settle (h : reader.settle = .ok after) :
    after.pending = none ∧ after.hasDirectory = reader.hasDirectory ∧
      after.onlyValues = reader.onlyValues := by
  unfold settle at h
  split at h
  · next hpending =>
    cases h
    exact ⟨hpending, rfl, rfl⟩
  · cases h
  · unfold takeValue at h
    split at h
    · cases h
      exact ⟨rfl, rfl, rfl⟩
    · split at h
      · cases h
      · split at h
        · cases h
        · cases h
          exact ⟨rfl, rfl, rfl⟩
  · split at h
    · cases h
    · cases h
      exact ⟨rfl, rfl, rfl⟩

theorem pendingTakes_of_none (h : reader.pending = none) : reader.PendingTakes := by
  rintro switch (hswitch | ⟨value, hvalue⟩)
  · rw [h] at hswitch
    cases hswitch
  · rw [h] at hvalue
    cases hvalue

theorem CatchesUp.follows {result : Except NoRun ArgumentReader}
    (h : CatchesUp reader after result) : ∃ after', result = .ok after' ∧ Follows after after' :=
  ⟨after.work, h.result_eq, h.pendingTakes, Or.inl rfl⟩

theorem Follows.settle_eq (h : Follows reader follower) :
    follower.settle = reader.settle.map work := by
  rcases h.inStep with rfl | ⟨hpending, hsettle⟩
  · exact settle_work h.pendingTakes
  · have hreader : reader.settle = .ok reader := by
      simp [settle, hpending]
    rw [hsettle, hreader]
    rfl

theorem Follows.flags (h : Follows reader follower) :
    follower.hasDirectory = reader.hasDirectory ∧ follower.onlyValues = reader.onlyValues := by
  rcases h.inStep with rfl | ⟨-, hsettle⟩
  · exact ⟨rfl, rfl⟩
  · obtain ⟨-, hdirectory, hvalues⟩ := pending_of_settle hsettle
    exact ⟨hdirectory.symm, hvalues.symm⟩

theorem takeSwitch_eq_ok (h : reader.takeSwitch switch = .ok after) :
    ∃ settled, reader.settle = .ok settled ∧ settled.seen.contains switch = false ∧
      switch ≠ .help ∧ switch ≠ .version ∧
      after = { settled with
        arguments := turnOn settled.arguments switch, seen := settled.seen ++ [switch] } := by
  unfold takeSwitch at h
  split at h
  · cases h
  · next settled hsettled =>
    refine ⟨settled, hsettled, ?_⟩
    split at h
    · cases h
    · cases h
    · next hhelp hversion =>
      split at h
      · cases h
      · next hseen =>
        cases h
        exact ⟨by simpa using hseen, hhelp, hversion, rfl⟩

theorem work_turnOn (h : switch.onlyTells = true) :
    ({ reader with
      arguments := turnOn reader.arguments switch, seen := reader.seen ++ [switch] } :
        ArgumentReader).work = reader.work := by
  cases switch <;> simp only [Switch.onlyTells, Bool.false_eq_true] at h <;>
    simp [work, Arguments.work, turnOn, List.filter_append, Switch.onlyTells]

/-- A telling switch leaves the follower behind. -/
theorem Follows.takeSwitch_telling (h : Follows reader follower) (hswitch : switch.onlyTells = true)
    (htake : reader.takeSwitch switch = .ok after) :
    Follows after follower ∧ after.onlyValues = reader.onlyValues := by
  obtain ⟨settled, hsettle, -, -, -, rfl⟩ := takeSwitch_eq_ok htake
  obtain ⟨hpending, -, hvalues⟩ := pending_of_settle hsettle
  refine ⟨⟨pendingTakes_of_none hpending, Or.inr ⟨hpending, ?_⟩⟩, hvalues⟩
  rw [h.settle_eq, hsettle, work_turnOn hswitch]
  rfl

/-- At a working switch the follower catches up. -/
theorem Follows.takeSwitch_working (h : Follows reader follower) (hswitch : switch.onlyTells = false)
    (htake : reader.takeSwitch switch = .ok after) :
    CatchesUp reader after (follower.takeSwitch switch) := by
  obtain ⟨settled, hsettle, hseen, hhelp, hversion, rfl⟩ := takeSwitch_eq_ok htake
  obtain ⟨hpending, -, hvalues⟩ := pending_of_settle hsettle
  refine ⟨?_, pendingTakes_of_none hpending, hvalues⟩
  rw [← @contains_work settled switch hswitch] at hseen
  unfold takeSwitch
  rw [h.settle_eq, hsettle]
  cases switch with
  | json | verbose | quiet => cases hswitch
  | help => exact absurd rfl hhelp
  | version => exact absurd rfl hversion
  | config | exclude | dryRun =>
    simp only [Except.map, hseen, Bool.false_eq_true, ↓reduceIte]
    simp [work, Arguments.work, turnOn, List.filter_append, Switch.onlyTells]

theorem takeValue_eq_ok {value : List Char} (h : reader.takeValue switch value = .ok after) :
    after.pending = reader.pending ∧ after.onlyValues = reader.onlyValues := by
  unfold takeValue at h
  split at h
  · cases h
    exact ⟨rfl, rfl⟩
  · split at h
    · cases h
    · split at h
      · cases h
      · cases h
        exact ⟨rfl, rfl⟩

theorem Follows.readDirectory (h : Follows reader follower) {value : List Char}
    (hread : reader.readDirectory value = .ok after) :
    CatchesUp reader after (follower.readDirectory value) := by
  unfold ArgumentReader.readDirectory at hread ⊢
  rw [h.flags.1, h.settle_eq]
  split at hread
  · cases hread
  · next hfirst =>
    cases hsettle : reader.settle with
    | error stop =>
      rw [hsettle] at hread
      cases hread
    | ok settled =>
      rw [hsettle] at hread
      cases hread
      refine ⟨by simp [hfirst, Except.map, work], ?_, (pending_of_settle hsettle).2.2⟩
      rintro switch (hswitch | ⟨value, hvalue⟩)
      · cases hswitch
      · cases hvalue

/-! ## Reading a word -/

theorem read_twoHyphens (h : reader.onlyValues = false) :
    reader.read "--".toList = .ok { reader with onlyValues := true } := by
  simp [read, h]

theorem read_long (h : reader.onlyValues = false) {text : List Char} (htext : text ≠ []) :
    reader.read ('-' :: '-' :: text) = reader.readLong text := by
  cases text with
  | nil => exact absurd rfl htext
  | cons letter letters => simp [read, h]

theorem read_short (h : reader.onlyValues = false) {letter : Char} (hletter : letter ≠ '-')
    (letters : List Char) :
    reader.read ('-' :: letter :: letters) = reader.readShort (letter :: letters) := by
  unfold read
  simp only [h, Bool.false_eq_true, ↓reduceIte]
  split
  · next heq => cases heq; exact absurd rfl hletter
  · next heq => cases heq; exact absurd rfl hletter
  · next heq => cases heq; rfl
  · next hshort => exact absurd rfl (hshort letter letters)
  · next hshort _ => exact absurd rfl (hshort letter letters)

/-- A word that is no switch is the value a switch waits for, or a directory. -/
theorem read_value (h : reader.onlyValues = false)
    (hword : ∀ letter letters, word ≠ '-' :: letter :: letters) :
    reader.read word = match reader.pending with
      | some (.switch switch) => .ok { reader with pending := some (.value switch word) }
      | _ => reader.readDirectory word := by
  unfold read
  simp only [h, Bool.false_eq_true, ↓reduceIte]
  split
  · exact absurd rfl (hword '-' [])
  · next text _ => exact absurd rfl (hword '-' text)
  · next letter letters _ _ => exact absurd rfl (hword letter letters)
  · next hpending => rw [hpending]
  · next hpending =>
    split
    · next hswitch => exact absurd hswitch (hpending _)
    · rfl

theorem readLong_long (h : switch.onlyTells = true) :
    reader.readLong switch.long = reader.takeSwitch switch := by
  cases switch <;> simp only [Switch.onlyTells, Bool.false_eq_true] at h <;> rfl

theorem Follows.readShort_telling {letters : List Char} (h : Follows reader follower)
    (hletters : (letters.all fun letter =>
      (Switch.ofShort? letter).any Switch.onlyTells) = true)
    (hread : reader.readShort letters = .ok after) :
    Follows after follower ∧ after.onlyValues = reader.onlyValues := by
  induction letters generalizing reader with
  | nil =>
    cases hread
    exact ⟨h, rfl⟩
  | cons letter letters ih =>
    rw [List.all_cons, Bool.and_eq_true] at hletters
    cases hswitch : Switch.ofShort? letter with
    | none => simp [hswitch] at hletters
    | some switch =>
      rw [hswitch] at hletters
      unfold readShort at hread
      rw [List.foldlM_cons, hswitch] at hread
      cases htake : reader.takeSwitch switch with
      | error stop =>
        simp only [htake] at hread
        cases hread
      | ok next =>
        simp only [htake] at hread
        obtain ⟨hnext, hvalues⟩ := h.takeSwitch_telling hletters.1 htake
        obtain ⟨hafter, hvalues'⟩ := ih hnext hletters.2 hread
        exact ⟨hafter, hvalues'.trans hvalues⟩

/-- The letters of a word of switches that is read to its end only choose what is told. -/
theorem all_onlyTells_of_readShort {letters : List Char} (hread : reader.readShort letters = .ok after) :
    (letters.all fun letter => (Switch.ofShort? letter).any Switch.onlyTells) = true := by
  induction letters generalizing reader with
  | nil => rfl
  | cons letter letters ih =>
    unfold readShort at hread
    rw [List.foldlM_cons] at hread
    cases hswitch : Switch.ofShort? letter with
    | none =>
      rw [hswitch] at hread
      cases hread
    | some switch =>
      rw [hswitch] at hread
      cases htake : reader.takeSwitch switch with
      | error stop =>
        simp only [htake] at hread
        cases hread
      | ok next =>
        simp only [htake] at hread
        obtain ⟨settled, -, -, hhelp, hversion, -⟩ := takeSwitch_eq_ok htake
        rw [List.all_cons, hswitch, Option.any_some, ih hread, Bool.and_true]
        have hshort : switch.short? = some letter := of_decide_eq_true (List.find?_some hswitch :)
        cases switch with
        | json | verbose | quiet => rfl
        | help => exact absurd rfl hhelp
        | version => exact absurd rfl hversion
        | config | exclude | dryRun => cases hshort

/-- At a word that only chooses what is told the follower stays where it is. -/
theorem Follows.read_telling (h : Follows reader follower) (hword : isTellingWord word = true)
    (hvalues : reader.onlyValues = false) (hread : reader.read word = .ok after) :
    Follows after follower ∧ after.onlyValues = reader.onlyValues := by
  obtain ⟨switch, htells, rfl⟩ | ⟨letter, letters, hletter, rfl, hall⟩ := isTellingWord_cases hword
  · have htext : switch.long ≠ [] := by cases switch <;> exact List.cons_ne_nil _ _
    rw [read_long hvalues htext, readLong_long htells] at hread
    exact h.takeSwitch_telling htells hread
  · rw [read_short hvalues hletter] at hread
    exact h.readShort_telling hall hread

/-- A switch that will take the next word. -/
theorem Follows.await (h : Follows reader follower) (htakes : switch.takesValue = true)
    (hread : (reader.settle.map fun reader => { reader with pending := some (.switch switch) }) =
      .ok after) :
    CatchesUp reader after
      (follower.settle.map fun reader => { reader with pending := some (.switch switch) }) := by
  rw [h.settle_eq]
  cases hsettle : reader.settle with
  | error stop =>
    rw [hsettle] at hread
    cases hread
  | ok settled =>
    rw [hsettle] at hread
    cases hread
    refine ⟨rfl, ?_, (pending_of_settle hsettle).2.2⟩
    rintro other (hother | ⟨value, hvalue⟩)
    · cases hother
      exact htakes
    · cases hvalue

/-- A switch with its value in the same word. -/
theorem Follows.takeValue (h : Follows reader follower) (htakes : switch.takesValue = true)
    {value : List Char} (hread : (reader.settle.bind (·.takeValue switch value)) = .ok after) :
    CatchesUp reader after (follower.settle.bind (·.takeValue switch value)) := by
  rw [h.settle_eq]
  cases hsettle : reader.settle with
  | error stop =>
    rw [hsettle] at hread
    cases hread
  | ok settled =>
    obtain ⟨hpending, -, hvalues⟩ := pending_of_settle hsettle
    rw [hsettle, Except.bind] at hread
    obtain ⟨hpending', hvalues'⟩ := takeValue_eq_ok hread
    refine ⟨?_, pendingTakes_of_none (hpending'.trans hpending), hvalues'.trans hvalues⟩
    rw [Except.map, Except.bind, takeValue_work htakes, hread]
    rfl

/-- At a long switch that is not one of those the follower catches up. -/
theorem Follows.readLong_working (h : Follows reader follower) {text : List Char}
    (hword : isTellingWord ('-' :: '-' :: text) = false)
    (hread : reader.readLong text = .ok after) :
    CatchesUp reader after (follower.readLong text) := by
  have htext := List.takeWhile_append_dropWhile (p := fun letter => decide (letter ≠ '=')) (l := text)
  unfold readLong at hread ⊢
  revert htext hread
  generalize text.takeWhile (fun letter => decide (letter ≠ '=')) = name
  generalize text.dropWhile (fun letter => decide (letter ≠ '=')) = rest
  intro hread htext
  cases hswitch : Switch.ofLong? name with
  | none =>
    simp only [hswitch] at hread
    cases hread
  | some switch =>
    cases htakes : switch.takesValue with
    | true =>
      cases rest with
      | nil =>
        simp only [hswitch, htakes] at hread ⊢
        exact h.await htakes hread
      | cons letter value =>
        simp only [hswitch, htakes] at hread ⊢
        exact h.takeValue htakes hread
    | false =>
      cases rest with
      | nil =>
        simp only [hswitch, htakes] at hread ⊢
        refine h.takeSwitch_working ?_ hread
        rw [← htext, List.append_nil] at hword
        simpa [isTellingWord, hswitch] using hword
      | cons letter value =>
        simp only [hswitch, htakes] at hread
        cases hread

/-- At a word of the work the follower catches up. -/
theorem Follows.read_working (h : Follows reader follower) (hword : isTellingWord word = false)
    (hhyphens : word ≠ "--".toList) (hvalues : reader.onlyValues = false)
    (hread : reader.read word = .ok after) :
    CatchesUp reader after (follower.read word) := by
  have hvalues' : follower.onlyValues = false := h.flags.2.trans hvalues
  by_cases hlong : ∃ text, text ≠ [] ∧ word = '-' :: '-' :: text
  · obtain ⟨text, htext, rfl⟩ := hlong
    rw [read_long hvalues htext] at hread
    rw [read_long hvalues' htext]
    exact h.readLong_working hword hread
  by_cases hshort : ∃ letter letters, letter ≠ '-' ∧ word = '-' :: letter :: letters
  · obtain ⟨letter, letters, hletter, rfl⟩ := hshort
    rw [read_short hvalues hletter] at hread
    have hall := all_onlyTells_of_readShort hread
    rw [isTellingWord, hall] at hword
    · cases hword
    · exact hletter
  have hvalue : ∀ letter letters, word ≠ '-' :: letter :: letters := by
    rintro letter letters rfl
    by_cases hletter : letter = '-'
    · subst hletter
      by_cases hletters : letters = []
      · exact hhyphens (by rw [hletters]; rfl)
      · exact hlong ⟨letters, hletters, rfl⟩
    · exact hshort ⟨letter, letters, hletter, rfl⟩
  rw [read_value hvalues hvalue] at hread
  rw [read_value hvalues' hvalue]
  by_cases hwaits : ∃ switch, reader.pending = some (.switch switch)
  · obtain ⟨switch, hpending⟩ := hwaits
    obtain rfl | ⟨hnone, -⟩ := h.inStep
    · have htakes := h.pendingTakes switch (Or.inl hpending)
      simp only [hpending] at hread
      cases hread
      refine ⟨by simp [work, hpending], ?_, rfl⟩
      rintro other (hother | ⟨value, hvalue⟩)
      · cases hother
      · cases hvalue
        exact htakes
    · rw [hnone] at hpending
      cases hpending
  · have hwaits' : ¬∃ switch, follower.pending = some (.switch switch) := by
      rintro ⟨switch, hpending⟩
      obtain rfl | ⟨-, hsettle⟩ := h.inStep
      · exact hwaits ⟨switch, hpending⟩
      · rw [settle, hpending] at hsettle
        cases hsettle
    split at hread
    · next switch hpending => exact absurd ⟨switch, hpending⟩ hwaits
    · split
      · next switch hpending => exact absurd ⟨switch, hpending⟩ hwaits'
      · exact h.readDirectory hread

/-! ## Reading all words -/

theorem settle_setOnlyValues :
    ({ reader with onlyValues := true } : ArgumentReader).settle =
      reader.settle.map fun reader => { reader with onlyValues := true } := by
  unfold settle
  simp only
  split
  · rfl
  · rfl
  · next switch value heq =>
    unfold takeValue
    simp only
    split
    · rfl
    · split
      · rfl
      · split <;> rfl
  · split <;> rfl

/-- After two hyphens the follower is where it was. -/
theorem Follows.setOnlyValues (h : Follows reader follower) :
    Follows { reader with onlyValues := true } { follower with onlyValues := true } := by
  refine ⟨h.pendingTakes, ?_⟩
  obtain rfl | ⟨hpending, hsettle⟩ := h.inStep
  · exact Or.inl rfl
  · refine Or.inr ⟨hpending, ?_⟩
    rw [settle_setOnlyValues, hsettle]
    rfl

theorem Follows.foldlM_onlyValues {words : List (List Char)} (h : Follows reader follower)
    (hvalues : reader.onlyValues = true) (hread : words.foldlM read reader = .ok after) :
    ∃ after', words.foldlM read follower = .ok after' ∧ Follows after after' := by
  induction words generalizing reader follower with
  | nil =>
    cases hread
    exact ⟨follower, rfl, h⟩
  | cons word words ih =>
    rw [List.foldlM_cons] at hread ⊢
    have hstep : reader.read word = reader.readDirectory word := by simp [read, hvalues]
    have hstep' : follower.read word = follower.readDirectory word := by
      simp [read, h.flags.2, hvalues]
    rw [hstep']
    rw [hstep] at hread
    cases hfirst : reader.readDirectory word with
    | error stop =>
      rw [hfirst] at hread
      cases hread
    | ok next =>
      rw [hfirst] at hread
      have hnext := h.readDirectory hfirst
      obtain ⟨next', hfirst', hfollows⟩ := hnext.follows
      rw [hfirst']
      exact ih hfollows (hnext.onlyValues_eq.trans hvalues) hread

/-- The follower reads the working words while the reader reads all words. -/
theorem Follows.foldlM_workingWords {words : List (List Char)} (h : Follows reader follower)
    (hvalues : reader.onlyValues = false) (hread : words.foldlM read reader = .ok after) :
    ∃ after', (workingWords words).foldlM read follower = .ok after' ∧ Follows after after' := by
  induction words generalizing reader follower with
  | nil =>
    cases hread
    exact ⟨follower, rfl, h⟩
  | cons word words ih =>
    rw [List.foldlM_cons] at hread
    cases hfirst : reader.read word with
    | error stop =>
      rw [hfirst] at hread
      cases hread
    | ok next =>
      rw [hfirst] at hread
      unfold workingWords
      by_cases hhyphens : word = "--".toList
      · subst hhyphens
        rw [read_twoHyphens hvalues] at hfirst
        cases hfirst
        rw [if_pos rfl, List.foldlM_cons, read_twoHyphens (h.flags.2.trans hvalues)]
        exact h.setOnlyValues.foldlM_onlyValues rfl hread
      · rw [if_neg hhyphens]
        cases hword : isTellingWord word with
        | true =>
          obtain ⟨hnext, hvalues'⟩ := h.read_telling hword hvalues hfirst
          exact ih hnext (hvalues'.trans hvalues) hread
        | false =>
          have hnext := h.read_working hword hhyphens hvalues hfirst
          obtain ⟨next', hfirst', hfollows⟩ := hnext.follows
          rw [if_neg Bool.false_ne_true, List.foldlM_cons, hfirst']
          exact ih hfollows (hnext.onlyValues_eq.trans hvalues) hread

theorem finish_eq_ok {arguments : Arguments} (h : reader.finish = .ok arguments) :
    ∃ settled, reader.settle = .ok settled ∧ settled.arguments = arguments := by
  unfold finish at h
  split at h
  · cases h
  · next settled hsettle =>
    split at h
    · cases h
    · cases h
      exact ⟨settled, hsettle, rfl⟩

theorem finish_of_work (h : follower.settle = .ok reader.work) :
    follower.finish = .ok reader.arguments.work := by
  have hseen : (reader.work.seen.filter fun switch => switch = .quiet || switch = .verbose) = [] := by
    rw [work, List.filter_filter, List.filter_eq_nil_iff]
    intro switch _
    cases switch <;> decide
  unfold finish
  simp only [h, hseen]
  rfl

end ArgumentReader

/-- The working words of a command line ask for the same work and for no telling. -/
theorem Arguments.parse_workingWords {words : List (List Char)} {arguments : Arguments}
    (h : parse words = .ok arguments) : parse (workingWords words) = .ok arguments.work := by
  unfold parse at h ⊢
  cases hread : words.foldlM ArgumentReader.read {} with
  | error stop =>
    rw [hread] at h
    cases h
  | ok reader =>
    rw [hread] at h
    obtain ⟨settled, hsettle, rfl⟩ := ArgumentReader.finish_eq_ok h
    have hstart : ArgumentReader.Follows {} {} :=
      ⟨ArgumentReader.pendingTakes_of_none rfl, Or.inl rfl⟩
    obtain ⟨follower, hread', hfollows⟩ := hstart.foldlM_workingWords rfl hread
    rw [hread']
    refine ArgumentReader.finish_of_work ?_
    rw [hfollows.settle_eq, hsettle]
    rfl

end ModelMend
