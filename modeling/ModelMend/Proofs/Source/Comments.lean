import ModelMend.Proofs.Source.Insertion
import ModelMend.Proofs.Token.Pieces

/-!
# Comments and the relation declaration

A place of a text lies inside a line comment if the lexer, reading the text piece by piece, comes to two
slashes in front of it on its line (`InLineComment`). A declaration that is inserted always stands outside
of comments (`relation_fitsInCode`), but where it goes, and whether it goes anywhere, is decided by
wordings that are looked for in comments as well (`mend_comments`).
-/

namespace ModelMend

open Text

/-! ## Places inside line comments -/

/-- The place between these texts lies inside a line comment, one that documents something included. -/
def InLineComment (front back : List Char) : Prop :=
  ∃ code comment, front = code ++ comment ∧ comment ≠ [] ∧ '\n' ∉ comment ∧
    "//".toList <+: comment ++ back ∧ Lexeme.Visits (front ++ back) (comment ++ back)

/-- The start of a line lies in no line comment. -/
theorem not_inLineComment_of_lineStart {front : List Char} (h : front.getLast? = some '\n')
    (back : List Char) : ¬InLineComment front back := by
  rintro ⟨code, comment, rfl, hne, hnewline, -, -⟩
  rw [List.getLast?_append] at h
  cases hlast : comment.getLast? with
  | none => exact hne (List.getLast?_eq_none_iff.1 hlast)
  | some c =>
    rw [hlast, Option.some_or] at h
    exact hnewline (List.mem_of_getLast? (hlast.trans h))

/-- The wording fits at a place of the text outside of line comments. -/
def Text.Wording.FitsInCode (wording : Wording) (text : List Char) : Prop :=
  ∃ before onward, before ++ onward = text ∧ wording.FitsAt before onward ∧
    ¬InLineComment before onward

theorem relationHead_after? (rest : List Char) :
    relationHead.after? (some '\n') ("pub enum Relation ".toList ++ rest) = some (' ' :: rest) :=
  rfl

/-- **A declaration that is inserted stands outside of line comments**, whatever it is inserted into. -/
theorem relation_fitsInCode {text : List Char} (h : (ensureRelation text).2 = true) :
    relationHead.FitsInCode (ensureRelation text).1 := by
  obtain ⟨hnone, hbehavior⟩ := (ensureRelation_inserted_iff text).1 h
  obtain ⟨found, hfound⟩ := Option.isSome_iff_exists.1 hbehavior
  obtain ⟨count, -, hresult, -⟩ := ensureRelation_of_found hnone hfound
  have hending : ∃ returns, lineEnding text = returns ++ ['\n'] := by
    unfold lineEnding
    split
    · exact ⟨['\r'], rfl⟩
    · exact ⟨[], rfl⟩
  obtain ⟨returns, hreturns⟩ := hending
  have hlines : relationLines (lineEnding text) =
      "#[derive(Copy, Clone, Debug, EnumIter, DeriveRelation)]".toList ++ lineEnding text ++
        "pub enum Relation \x7b\x7d".toList ++ lineEnding text ++ lineEnding text := rfl
  rw [hresult, hlines]
  generalize found.before ++ (List.replicate count (lineEnding text)).flatten = front
  generalize "#[derive(Copy, Clone, Debug, EnumIter, DeriveRelation)]".toList = derives
  have hlast : (front ++ derives ++ lineEnding text).getLast? = some '\n' := by
    rw [hreturns, ← List.append_assoc, List.getLast?_concat]
  refine ⟨front ++ derives ++ lineEnding text, "pub enum Relation ".toList ++
    ("\x7b\x7d".toList ++ (lineEnding text ++ (lineEnding text ++ found.onward))), ?_, ?_,
      not_inLineComment_of_lineStart hlast _⟩
  · have hhead : "pub enum Relation \x7b\x7d".toList =
        "pub enum Relation ".toList ++ "\x7b\x7d".toList := by decide
    simp only [hhead, List.append_assoc]
  · rw [Wording.FitsAt, hlast, relationHead_after?, Option.isSome_some]

/-! ## What comments decide -/

/-- **Comments and the relation declaration.** A declaration that is inserted stands outside of comments.
Comments have no say in it, neither cut apart by an insertion nor taken for a declaration, exactly if,
of what is left of the source when its model is mended: where no relation is declared, the first place
that implements the behaviour lies in no comment; and where one is, it is declared outside of comments
or the behaviour is implemented nowhere but in comments. -/
theorem mend_comments (source : List Char) :
    ((mend source).stats.relationInserted = true →
      relationHead.FitsInCode (mend source).text) ∧
    (((mend source).stats.relationInserted = true → ∀ before onward,
          before ++ onward = (modeled source).1 → behaviorHead.FitsFirst before onward →
            ¬InLineComment before onward) ∧
        (behaviorHead.FitsInCode (mend source).text → relationHead.FitsInCode (mend source).text) ↔
      (relationHead.occursIn (modeled source).1 = false → ∀ before onward,
          before ++ onward = (modeled source).1 → behaviorHead.FitsFirst before onward →
            ¬InLineComment before onward) ∧
        (relationHead.occursIn (modeled source).1 = true →
          behaviorHead.FitsInCode (modeled source).1 →
            relationHead.FitsInCode (modeled source).1)) := by
  rw [mend_text, mend_relationInserted]
  generalize (modeled source).1 = text
  refine ⟨relation_fitsInCode, ?_⟩
  cases hinserted : (ensureRelation text).2 with
  | true =>
    obtain ⟨hnone, -⟩ := (ensureRelation_inserted_iff text).1 hinserted
    have hcode := relation_fitsInCode hinserted
    simp [hnone, hcode]
  | false =>
    rw [ensureRelation_of_not_inserted hinserted]
    rcases (ensureRelation_not_inserted_iff text).1 hinserted with hrelation | hnone
    · simp [hrelation]
    · -- nothing implements the behaviour, so there is no place to speak of
      have hnowhere (before onward : List Char) (happend : before ++ onward = text) :
          ¬behaviorHead.FitsAt before onward := by
        intro hfits
        rw [Wording.occursIn_iff.2 ⟨before, onward, happend, hfits⟩] at hnone
        cases hnone
      have hcode : ¬behaviorHead.FitsInCode text := by
        rintro ⟨before, onward, happend, hfits, -⟩
        exact hnowhere before onward happend hfits
      refine iff_of_true ⟨by simp, fun h => absurd h hcode⟩ ⟨?_, fun _ h => absurd h hcode⟩
      intro _ before onward happend hfirst
      exact absurd hfirst.fits (hnowhere before onward happend)

/-- A behaviour that is commented out. -/
def commentedBehavior : List Char :=
  "// impl ActiveModelBehavior for ActiveModel \x7b\x7d\n".toList

/-- A behaviour, and a relation declaration that is commented out. -/
def commentedRelation : List Char :=
  "// pub enum Relation \x7b\x7d\nimpl ActiveModelBehavior for ActiveModel \x7b\x7d\n".toList

/-- The first is cut apart by an insertion, and the second is left without a declaration. -/
theorem mend_steered_by_comments :
    (∃ before onward, before ++ onward = (modeled commentedBehavior).1 ∧
      behaviorHead.FitsFirst before onward ∧ InLineComment before onward ∧
        (mend commentedBehavior).stats.relationInserted = true) ∧
    behaviorHead.FitsInCode (mend commentedRelation).text ∧
      ¬relationHead.FitsInCode (mend commentedRelation).text := by
  have hsame : (mend commentedRelation).text = commentedRelation := by decide +kernel
  rw [hsame]
  refine ⟨?_, ?_, ?_⟩
  · have hfound : behaviorHead.find? (modeled commentedBehavior).1 =
        some ⟨"// ".toList, "impl ActiveModelBehavior for ActiveModel \x7b\x7d\n".toList,
          " \x7b\x7d\n".toList⟩ := by decide +kernel
    refine ⟨_, _, Wording.find?_append hfound, Wording.find?_fitsFirst hfound, ?_, by decide +kernel⟩
    exact ⟨[], "// ".toList, rfl, by decide, by decide, by decide, .here _⟩
  · exact ⟨"// pub enum Relation \x7b\x7d\n".toList,
      "impl ActiveModelBehavior for ActiveModel \x7b\x7d\n".toList, by decide,
      by unfold Wording.FitsAt; decide +kernel, not_inLineComment_of_lineStart (by decide) _⟩
  · rintro ⟨before, onward, happend, hfits, hcode⟩
    have honly : ∀ count ≤ commentedRelation.length,
        relationHead.FitsAt (commentedRelation.take count) (commentedRelation.drop count) →
          count = 3 := by
      unfold Wording.FitsAt
      decide +kernel
    have hlength : before.length ≤ commentedRelation.length := by
      rw [← happend, List.length_append]
      omega
    have hthree : before.length = 3 := by
      apply honly before.length hlength
      rwa [← happend, List.take_left, List.drop_left]
    have hbefore : before = "// ".toList := by
      have htake : (before ++ onward).take 3 = before := by rw [← hthree, List.take_left]
      rw [← htake, happend]
      decide
    subst hbefore
    exact hcode ⟨[], "// ".toList, rfl, by decide, by decide, ⟨' ' :: onward, rfl⟩, .here _⟩

end ModelMend
