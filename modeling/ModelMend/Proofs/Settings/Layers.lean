import Mathlib
import ModelMend.Settings.Load

/-!
# The layers of the settings

The directory and the exclusions are looked for on their own: first in the environment, then in the
file, then among the defaults (`loadSettings_layers`). What a setting is laid over only counts for
tables, and each of the two stands under a key of its own in one table, so a layer hides exactly what
it names itself.
-/

namespace ModelMend

open Text

/-! ## Keys -/

/-- The key of the directory in the section. -/
def directoryName : List Char :=
  "dir".toList

/-- The key of the exclusions in the section. -/
def excludedName : List Char :=
  "exclude".toList

/-- The key of the directory in the environment. -/
def directoryKey : List Char :=
  "entities.dir".toList

/-- A key that a document holds without quotes. -/
def IsBare (key : List Char) : Prop :=
  key ≠ [] ∧ ∀ c ∈ key, Toml.isBareChar c = true

theorem isNameChar_toLower {c : Char} (h : Toml.isBareChar c = true) :
    KeyPath.isNameChar c.toLower = true := by
  by_cases hletter : c.isAlpha = true
  · simp [KeyPath.isNameChar, Char.isAlphanum, hletter]
  · have hsame : c.toLower = c := by
      apply Char.toLower_eq_of_not_isUpper
      intro hupper
      exact hletter (by simp [Char.isAlpha, hupper])
    rw [hsame]
    simp only [Toml.isBareChar, KeyPath.isNameChar, Bool.or_eq_true] at h ⊢
    tauto

/-- A bare key is one name. -/
theorem IsBare.ofKey_lowerKey {key : List Char} (h : IsBare key) :
    KeyPath.ofKey (lowerKey key) = [.name (lowerKey key)] := by
  have hall : ∀ c ∈ lowerKey key, KeyPath.isNameChar c = true := by
    intro c hc
    obtain ⟨d, hd, rfl⟩ := List.mem_map.1 hc
    exact isNameChar_toLower (h.2 d hd)
  have hempty : ¬(lowerKey key).isEmpty = true := by
    simpa [lowerKey] using h.1
  have htake : (lowerKey key).takeWhile KeyPath.isNameChar = lowerKey key :=
    List.takeWhile_eq_self_iff.2 hall
  have hdrop : (lowerKey key).dropWhile KeyPath.isNameChar = [] :=
    List.dropWhile_eq_nil_iff.2 hall
  unfold KeyPath.ofKey
  rw [htake, hdrop]
  dsimp only
  rw [if_neg hempty, KeyPath.steps?]

namespace Setting

/-! ## Entries laid over a table -/

theorem overlayEntries_cons (target : Setting) (key : List Char) (value : Setting)
    (entries : List (List Char × Setting)) :
    overlayEntries target ((key, value) :: entries) =
      overlayEntries (target.insert key (overlay (target.get? key) value)) entries := by
  rw [overlayEntries]

/-- Entries whose keys are single names are laid over a setting like those of a table. -/
theorem withSource_eq_overlayEntries {entries : List (List Char × Setting)}
    (h : ∀ entry ∈ entries, KeyPath.ofKey entry.1 = [.name entry.1]) (target : Setting) :
    target.withSource entries = overlayEntries target entries := by
  unfold withSource
  induction entries generalizing target with
  | nil => rw [overlayEntries, List.foldl_nil]
  | cons entry entries ih =>
    obtain ⟨hfirst, hmore⟩ := List.forall_mem_cons.1 h
    rw [List.foldl_cons, ih hmore, hfirst, put, overlayEntries_cons]

theorem lookup?_eq_none {key : List Char} {entries : List (List Char × Setting)}
    (h : key ∉ entries.map Prod.fst) : lookup? key entries = none := by
  induction entries with
  | nil => rfl
  | cons entry entries ih =>
    rw [List.map_cons, List.mem_cons, not_or] at h
    rw [lookup?, if_neg (Ne.symm h.1), ih h.2]

/-- What entries with distinct keys leave under a key. -/
theorem get?_overlayEntries {entries : List (List Char × Setting)}
    (h : (entries.map Prod.fst).Nodup) (target : Setting) (key : List Char) :
    (overlayEntries target entries).get? key =
      ((lookup? key entries).map (overlay (target.get? key))).or (target.get? key) := by
  induction entries generalizing target with
  | nil => rw [overlayEntries, lookup?, Option.map_none, Option.none_or]
  | cons entry entries ih =>
    obtain ⟨hfirst, hmore⟩ := List.nodup_cons.1 h
    rw [overlayEntries_cons, ih hmore, get?_insert, lookup?]
    by_cases hkey : entry.1 = key
    · have hlater : lookup? key entries = none := lookup?_eq_none (hkey ▸ hfirst)
      simp [hkey, hlater]
    · simp [hkey, Ne.symm hkey]

theorem kind_insert (setting : Setting) (key : List Char) (value : Setting) :
    (setting.insert key value).kind = .table := by
  unfold insert
  split <;> rfl

theorem kind_overlayEntries {target : Setting} (h : target.kind = .table)
    (entries : List (List Char × Setting)) : (overlayEntries target entries).kind = .table := by
  induction entries generalizing target with
  | nil => rwa [overlayEntries]
  | cons entry entries ih =>
    rw [overlayEntries_cons]
    exact ih (kind_insert _ _ _)

/-- What is no table hides what it is laid over. -/
theorem overlay_of_kind_ne {value : Setting} (h : value.kind ≠ .table) (old : Option Setting) :
    overlay old value = value := by
  cases value with
  | table origin entries => exact absurd rfl h
  | _ => simp [overlay]

/-! ## The section -/

/-- What the section holds under a name. -/
def inSection? (settings : Setting) (name : List Char) : Option Setting :=
  (settings.get? sectionKey).bind (·.get? name)

/-- The section is a table, if it is there. -/
def HasSection (settings : Setting) : Prop :=
  ∀ found, settings.get? sectionKey = some found → found.kind = .table

/-- A setting with a name of the section hides what was there under this name, and nothing else. -/
theorem put_inSection {value : Setting} (h : value.kind ≠ .table) (settings : Setting)
    (name : List Char) :
    HasSection (put value [.name sectionKey, .name name] settings) ∧
      ∀ other, inSection? (put value [.name sectionKey, .name name] settings) other =
        if other = name then some value else inSection? settings other := by
  have hput : put value [.name sectionKey, .name name] settings = settings.insert sectionKey
      (((settings.get? sectionKey).getD .missing).insert name value) := by
    rw [put, put, overlay_of_kind_ne h]
    simp
  rw [hput]
  constructor
  · intro found hfound
    rw [get?_insert, if_pos rfl, Option.some.injEq] at hfound
    rw [← hfound, kind_insert]
  · intro other
    unfold inSection?
    rw [get?_insert, if_pos rfl, Option.bind_some, get?_insert]
    cases settings.get? sectionKey with
    | none => rfl
    | some found => rfl

end Setting

theorem BatchSettings.ofSection_eq {settings : Setting} (h : settings.HasSection) :
    ofSection (settings.get? sectionKey) =
      ofPlaces (settings.inSection? directoryName) (settings.inSection? excludedName) := by
  unfold Setting.inSection?
  cases hfound : settings.get? sectionKey with
  | none => rfl
  | some found =>
    have hkind := h found hfound
    cases found with
    | table origin entries => rfl
    | _ => cases hkind

/-! ## What a document sets -/

namespace Toml.Entries

/-- The value of a key, in any letter case. -/
def anyCase? (key : List Char) (entries : Entries) : Option Toml :=
  (entries.find? fun entry => lowerKey entry.1 = key).map Prod.snd

/-- No two keys are equal up to letter case. -/
def Distinct (entries : Entries) : Prop :=
  (entries.map fun entry => lowerKey entry.1).Nodup

instance (entries : Entries) : Decidable entries.Distinct :=
  inferInstanceAs (Decidable (List.Nodup _))

/-- The section sets the directory and the exclusions to this, where there is one. -/
inductive SectionSets (entries : Entries) :
    Option (List Char) → Option (List (List Char)) → Prop where
  | nothing (absent : entries.anyCase? sectionKey = none) : SectionSets entries none none
  | something {form : TableForm} {inner : Entries} {directory : Option (List Char)}
      {excluded : Option (List (List Char))}
      (here : entries.anyCase? sectionKey = some (.table form inner)) (distinct : inner.Distinct)
      (dir : inner.anyCase? directoryName = directory.map .string)
      (exclude : inner.anyCase? excludedName =
        excluded.map fun names => .array (names.map .string)) :
      SectionSets entries directory excluded

/-- A document with bare keys, none of them twice, that sets the directory and the exclusions to this
in its section. -/
structure Sets (entries : Entries) (directory : Option (List Char))
    (excluded : Option (List (List Char))) : Prop where
  bare : ∀ entry ∈ entries, IsBare entry.1
  distinct : entries.Distinct
  inSection : entries.SectionSets directory excluded

end Toml.Entries

namespace Setting

theorem lookup?_ofEntries (source key : List Char) (entries : Toml.Entries) :
    lookup? key (ofEntries source entries) = (entries.anyCase? key).map (ofToml source) := by
  induction entries with
  | nil => rw [ofEntries, lookup?, Toml.Entries.anyCase?, List.find?_nil]; rfl
  | cons entry entries ih =>
    obtain ⟨name, value⟩ := entry
    rw [ofEntries, lookup?, Toml.Entries.anyCase?, List.find?_cons]
    by_cases h : lowerKey name = key
    · simp [h]
    · simpa [h, Toml.Entries.anyCase?] using ih

theorem map_fst_ofEntries (source : List Char) (entries : Toml.Entries) :
    (ofEntries source entries).map Prod.fst = entries.map fun entry => lowerKey entry.1 := by
  induction entries with
  | nil => rw [ofEntries]; rfl
  | cons entry entries ih =>
    obtain ⟨name, value⟩ := entry
    rw [ofEntries, List.map_cons, List.map_cons, ih]

theorem ofItems_strings (source : List Char) (names : List (List Char)) :
    ofItems source (names.map .string) = names.map .string := by
  induction names with
  | nil => rw [List.map_nil, ofItems]; rfl
  | cons name names ih => rw [List.map_cons, ofItems, ih, ofToml, List.map_cons]

/-- What the entries of a table with distinct keys leave under a name. -/
theorem get?_overlayEntries_ofEntries {entries : Toml.Entries} (h : entries.Distinct)
    (source key : List Char) : (overlayEntries empty (ofEntries source entries)).get? key =
      ((entries.anyCase? key).map (ofToml source)).map (overlay none) := by
  have hdistinct : ((ofEntries source entries).map Prod.fst).Nodup := by
    rwa [map_fst_ofEntries]
  rw [get?_overlayEntries hdistinct, lookup?_ofEntries]
  exact Option.or_none

/-- What a document sets is what its settings hold. -/
theorem withSource_ofEntries {entries : Toml.Entries} {directory : Option (List Char)}
    {excluded : Option (List (List Char))} (h : entries.Sets directory excluded)
    (source : List Char) :
    HasSection (empty.withSource (ofEntries source entries)) ∧
      inSection? (empty.withSource (ofEntries source entries)) directoryName =
        directory.map .string ∧
      inSection? (empty.withSource (ofEntries source entries)) excludedName =
        excluded.map fun names => .list (some source) (names.map .string) := by
  have hnames : ∀ entry ∈ ofEntries source entries, KeyPath.ofKey entry.1 = [.name entry.1] := by
    intro entry hentry
    have hkey := List.mem_map_of_mem (f := Prod.fst) hentry
    rw [map_fst_ofEntries] at hkey
    obtain ⟨written, hwritten, heq⟩ := List.mem_map.1 hkey
    rw [← heq]
    exact (h.bare written hwritten).ofKey_lowerKey
  have hsection := get?_overlayEntries_ofEntries h.distinct source sectionKey
  rw [withSource_eq_overlayEntries hnames]
  unfold HasSection inSection?
  rw [hsection]
  cases h.inSection with
  | nothing absent => simp [absent]
  | @something form inner _ _ here distinct dir exclude =>
    rw [here, Option.map_some, Option.map_some, ofToml, overlay]
    refine ⟨?_, ?_, ?_⟩
    · rintro found ⟨⟩
      exact kind_overlayEntries rfl _
    · change (overlayEntries empty (ofEntries source inner)).get? directoryName = _
      rw [get?_overlayEntries_ofEntries distinct, dir]
      cases directory with
      | none => rfl
      | some text => simp [ofToml, overlay]
    · change (overlayEntries empty (ofEntries source inner)).get? excludedName = _
      rw [get?_overlayEntries_ofEntries distinct, exclude]
      cases excluded with
      | none => rfl
      | some names => simp [ofToml, overlay, ofItems_strings]

end Setting

/-! ## What an environment sets -/

/-- The value of a variable reads as no boolean, no integer and no number. -/
structure ReadsAsText (value : List Char) : Prop where
  notBoolean : value.map Char.toLower ∉ ["true".toList, "false".toList]
  notInteger : (integerOfText? value).filter fitsSigned64 = none
  notNumber : Binary64.ofText? value = none

namespace Environment

/-- The settings of an environment with the texts that they are set to. -/
def named (environment : Environment) : List (List Char × List Char) :=
  environment.filterMap fun entry => (key? entry.1).map fun key => (key, entry.2)

/-- The environment sets the directory and the exclusions to these texts, each at most once, and
nothing else. -/
structure Sets (environment : Environment) (directory excluded : Option (List Char)) : Prop where
  known : ∀ entry ∈ environment.named, entry.1 = directoryKey ∨ entry.1 = listKey
  once : (environment.named.map Prod.fst).Nodup
  readsAsText : ∀ entry ∈ environment.named, ReadsAsText entry.2
  directory_eq : environment.named.lookup directoryKey = directory
  excluded_eq : environment.named.lookup listKey = excluded

/-- The list of texts between commas. -/
def listOf (value : List Char) : Setting :=
  .list (some "the environment".toList) ((split ',' value).map .string)

theorem settings_eq (environment : Environment) : environment.settings =
    environment.named.map fun entry => (entry.1, valueOf entry.1 entry.2) := by
  unfold settings named
  rw [List.map_filterMap]
  congr
  funext entry
  rw [Option.map_map]
  rfl

theorem valueOf_of_readsAsText {value : List Char} (h : ReadsAsText value) (key : List Char) :
    valueOf key value = if key = listKey then listOf value else .string value := by
  have hboolean := h.notBoolean
  simp only [List.mem_cons, List.not_mem_nil, or_false, not_or] at hboolean
  unfold valueOf
  dsimp only
  rw [if_neg hboolean.1, if_neg hboolean.2, h.notInteger, h.notNumber]
  rfl

theorem kind_valueOf (key value : List Char) : (valueOf key value).kind ≠ .table := by
  unfold valueOf
  dsimp only
  repeat' split
  all_goals rintro ⟨⟩

/-- One value for the directory or the exclusions. -/
theorem put_valueOf {key value : List Char} (hkey : key = directoryKey ∨ key = listKey)
    (settings : Setting) :
    let layered := Setting.put (valueOf key value) (KeyPath.ofKey key) settings
    layered.HasSection ∧
      layered.inSection? directoryName =
        (if key = directoryKey then some (valueOf key value)
          else settings.inSection? directoryName) ∧
      layered.inSection? excludedName =
        (if key = listKey then some (valueOf key value) else settings.inSection? excludedName) := by
  have hne : directoryKey ≠ listKey := by decide
  have hnames : directoryName ≠ excludedName := by decide
  rcases hkey with rfl | rfl
  · have hsteps : KeyPath.ofKey directoryKey = [.name sectionKey, .name directoryName] := by decide
    have hput := Setting.put_inSection (kind_valueOf directoryKey value) settings directoryName
    rw [hsteps]
    refine ⟨hput.1, ?_, ?_⟩
    · rw [hput.2, if_pos rfl, if_pos rfl]
    · rw [hput.2, if_neg hnames.symm, if_neg hne]
  · have hsteps : KeyPath.ofKey listKey = [.name sectionKey, .name excludedName] := by decide
    have hput := Setting.put_inSection (kind_valueOf listKey value) settings excludedName
    rw [hsteps]
    refine ⟨hput.1, ?_, ?_⟩
    · rw [hput.2, if_neg hnames, if_neg hne.symm]
    · rw [hput.2, if_pos rfl, if_pos rfl]

/-- Values for the directory and the exclusions are laid over what was there, by induction on the
values. -/
theorem withSource_known {named : List (List Char × List Char)}
    (hknown : ∀ entry ∈ named, entry.1 = directoryKey ∨ entry.1 = listKey)
    (honce : (named.map Prod.fst).Nodup) {settings : Setting} (hsection : settings.HasSection) :
    let layered := settings.withSource (named.map fun entry => (entry.1, valueOf entry.1 entry.2))
    layered.HasSection ∧
      layered.inSection? directoryName =
        ((named.lookup directoryKey).map (valueOf directoryKey)).or
          (settings.inSection? directoryName) ∧
      layered.inSection? excludedName =
        ((named.lookup listKey).map (valueOf listKey)).or (settings.inSection? excludedName) := by
  induction named generalizing settings with
  | nil => exact ⟨hsection, rfl, rfl⟩
  | cons entry named ih =>
    obtain ⟨key, value⟩ := entry
    rw [List.forall_mem_cons] at hknown
    obtain ⟨hfirst, honce⟩ := List.nodup_cons.1 honce
    have hlater : named.lookup key = none := by
      rw [List.lookup_eq_none_iff]
      intro entry hentry
      rw [bne_iff_ne]
      rintro rfl
      have hmem := List.mem_map_of_mem (f := Prod.fst) hentry
      exact hfirst hmem
    obtain ⟨hhere, hdirectory, hexcluded⟩ := @put_valueOf key value hknown.1 settings
    obtain ⟨hall, hdirectory', hexcluded'⟩ := ih hknown.2 honce hhere
    refine ⟨hall, ?_, ?_⟩
    · refine hdirectory'.trans ?_
      rw [hdirectory, List.lookup_cons]
      by_cases h : directoryKey = key
      · simp [h, hlater]
      · rw [beq_eq_false_iff_ne.2 h, if_neg (Ne.symm h)]
    · refine hexcluded'.trans ?_
      rw [hexcluded, List.lookup_cons]
      by_cases h : listKey = key
      · simp [h, hlater]
      · rw [beq_eq_false_iff_ne.2 h, if_neg (Ne.symm h)]

theorem map_valueOf_of_readsAsText (key : List Char) {found : Option (List Char)}
    (h : ∀ value, found = some value → ReadsAsText value) :
    found.map (valueOf key) =
      found.map fun value => if key = listKey then listOf value else .string value := by
  cases found with
  | none => rfl
  | some value => rw [Option.map_some, Option.map_some, valueOf_of_readsAsText (h value rfl)]

theorem mem_of_lookup {named : List (List Char × List Char)} {key value : List Char}
    (h : named.lookup key = some value) : (key, value) ∈ named := by
  obtain ⟨front, back, rfl, -⟩ := List.lookup_eq_some_iff.1 h
  exact List.mem_append_right front List.mem_cons_self

/-- Texts for the directory and the exclusions are laid over what was there. -/
theorem withSource_named {named : List (List Char × List Char)}
    (hknown : ∀ entry ∈ named, entry.1 = directoryKey ∨ entry.1 = listKey)
    (honce : (named.map Prod.fst).Nodup) (htext : ∀ entry ∈ named, ReadsAsText entry.2)
    {settings : Setting} (hsection : settings.HasSection) :
    let layered := settings.withSource (named.map fun entry => (entry.1, valueOf entry.1 entry.2))
    layered.HasSection ∧
      layered.inSection? directoryName =
        ((named.lookup directoryKey).map .string).or (settings.inSection? directoryName) ∧
      layered.inSection? excludedName =
        ((named.lookup listKey).map listOf).or (settings.inSection? excludedName) := by
  have hread (key : List Char) : ∀ value, named.lookup key = some value → ReadsAsText value :=
    fun value hvalue => htext _ (mem_of_lookup hvalue)
  have hne : directoryKey ≠ listKey := by decide
  have hdirectory := map_valueOf_of_readsAsText directoryKey (hread directoryKey)
  have hexcluded := map_valueOf_of_readsAsText listKey (hread listKey)
  simp only [hne, ↓reduceIte] at hdirectory hexcluded
  have hlayered := withSource_known hknown honce hsection
  rw [hdirectory, hexcluded] at hlayered
  exact hlayered

end Environment

namespace BatchSettings

theorem read_textOf (directory : Option (List Char)) (default : List Char) :
    read textOf default (directory.map .string) = .ok (directory.getD default) := by
  cases directory <;> rfl

theorem textsOf_list (origin : Option (List Char)) (names : List (List Char)) :
    textsOf (.list origin (names.map .string)) = .ok names := by
  change (names.map Setting.string).mapM textOf = .ok names
  induction names with
  | nil => rfl
  | cons name names ih =>
    rw [List.map_cons, List.mapM_cons, ih]
    rfl

end BatchSettings

/-! ## What a file sets -/

/-- No extension of another format ends like that of a TOML file. -/
theorem eq_toml_of_hasExtension {name : Bytes} {format : SettingsFormat}
    (htoml : hasExtension (encode "toml".toList) name = true)
    (hformat : format.extensions.any (hasExtension · name) = true) : format = .toml := by
  obtain ⟨extension, hmem, hextension⟩ := List.any_eq_true.1 hformat
  simp only [hasExtension, Bool.and_eq_true, List.isSuffixOf_iff_suffix] at htoml hextension
  have hends := List.suffix_or_suffix_of_suffix htoml.1 hextension.1
  have hapart : ∀ other : SettingsFormat, other ≠ .toml → ∀ extension ∈ other.extensions,
      ¬(0x2e :: encode "toml".toList <:+ 0x2e :: extension ∨
        0x2e :: extension <:+ 0x2e :: encode "toml".toList) := by
    intro other
    cases other <;> decide
  by_contra hother
  exact hapart format hother extension hmem hends

section

variable [SettingsFormats] {store : Store} {path : Path}

/-- A file with the extension of TOML is a TOML file, in whichever order the formats are tried. -/
theorem settingsFile?_of_toml (hfile : store.isFile path = true)
    (htoml : hasExtension (encode "toml".toList) path.name = true) :
    settingsFile? store path = some (path, .toml) := by
  unfold settingsFile?
  rw [if_pos hfile]
  cases hfound : SettingsFormats.order.find? fun format =>
      format.extensions.any (hasExtension · path.name) with
  | none =>
    have hnone := List.find?_eq_none.1 hfound .toml (SettingsFormats.complete .toml)
    exact absurd (by simpa [SettingsFormat.extensions] using htoml) hnone
  | some format =>
    have hformat := List.find?_some hfound
    rw [eq_toml_of_hasExtension htoml hformat, Option.map_some]

/-- What is found in a TOML file is its document, if it is one. -/
theorem readSettings_of_toml {file : Path} {place : Place} {bytes : Bytes}
    (hfile : settingsFile? store path = some (file, .toml))
    (hread : store.read file = .ok (place, bytes)) :
    readSettings store path =
      match Toml.parse? (markedText bytes) with
      | none => .broken
      | some entries => .document (Setting.ofEntries file.normalized.text entries) := by
  unfold readSettings
  rw [hfile]
  dsimp only
  rw [hread]
  dsimp only
  rw [SettingsFormat.parse?]
  cases Toml.parse? (markedText bytes) <;> rfl

/-- What the file that a path stands for sets the directory and the exclusions to: nothing, where there
is none or it holds no document. -/
inductive FileSets (store : Store) (path : Path) :
    Option (List Char) → Option (List (List Char)) → Prop where
  | absent (none_found : readSettings store path = .absent) : FileSets store path none none
  | broken (found : readSettings store path = .broken) : FileSets store path none none
  | document {name : List Char} {entries : Toml.Entries} {directory : Option (List Char)}
      {excluded : Option (List (List Char))}
      (found : readSettings store path = .document (Setting.ofEntries name entries))
      (content : entries.Sets directory excluded) : FileSets store path directory excluded

/-- The settings of the file are what it sets, whatever its name is. -/
theorem FileSets.exists_settings {directory : Option (List Char)}
    {excluded : Option (List (List Char))} (h : FileSets store path directory excluded)
    (environment : Environment) :
    ∃ (source : List Char) (settings : Setting),
      (loadSettings store path environment).settings =
        BatchSettings.ofSection
          ((settings.withSource environment.settings).get? sectionKey) ∧
      settings.HasSection ∧ settings.inSection? directoryName = directory.map .string ∧
      settings.inSection? excludedName =
        excluded.map fun names => .list (some source) (names.map .string) := by
  cases h with
  | absent none_found =>
    refine ⟨[], .empty, ?_, nofun, rfl, rfl⟩
    unfold loadSettings
    rw [none_found]
    rfl
  | broken found =>
    refine ⟨[], .empty, ?_, nofun, rfl, rfl⟩
    unfold loadSettings
    rw [found]
    rfl
  | @document name entries _ _ found content =>
    refine ⟨name, Setting.empty.withSource (Setting.ofEntries name entries), ?_,
      Setting.withSource_ofEntries content name⟩
    unfold loadSettings
    rw [found]
    rfl

/-- **The environment goes before the file and the file before the defaults, for each setting on its
own.** -/
theorem loadSettings_layers {environment : Environment}
    {fileDirectory directory : Option (List Char)} {fileExcluded : Option (List (List Char))}
    {excluded : Option (List Char)} (hfile : FileSets store path fileDirectory fileExcluded)
    (henvironment : environment.Sets directory excluded) :
    (loadSettings store path environment).settings = .ok
      { directory := (directory.or fileDirectory).getD "entity/src".toList
        excluded := ((excluded.map (split ',')).or fileExcluded).getD
          ["lib.rs".toList, "prelude.rs".toList, "sea_orm_active_enums.rs".toList] } := by
  obtain ⟨source, settings, hload, hsection, hdirectory, hexcluded⟩ :=
    hfile.exists_settings environment
  obtain ⟨hlayered, hdirectory', hexcluded'⟩ := Environment.withSource_named henvironment.known
    henvironment.once henvironment.readsAsText hsection
  rw [hload, Environment.settings_eq, BatchSettings.ofSection_eq hlayered, hdirectory', hexcluded',
    hdirectory, hexcluded, henvironment.directory_eq, henvironment.excluded_eq]
  have hread : BatchSettings.read BatchSettings.textsOf ({} : BatchSettings).excluded
      ((excluded.map Environment.listOf).or
        (fileExcluded.map fun names => .list (some source) (names.map .string))) =
      .ok (((excluded.map (split ',')).or fileExcluded).getD ({} : BatchSettings).excluded) := by
    cases excluded with
    | some value =>
      exact BatchSettings.textsOf_list (some "the environment".toList) (split ',' value)
    | none =>
      cases fileExcluded with
      | some names => exact BatchSettings.textsOf_list (some source) names
      | none => rfl
  unfold BatchSettings.ofPlaces
  rw [← Option.map_or, BatchSettings.read_textOf, hread]
  rfl

end

/-- A document that sets both, with keys in several letter cases, and holds a date and a time. -/
def cakeSettingsText : List Char :=
  ("generated = 2024-01-01\n[Entities]\nDIR = \"cake/src\"\nexclude = [\"mod.rs\"]\n" ++
    "at = 1979-05-27 07:32:00.50Z\n").toList

def cakeSettings : Store where
  nodes := [([encode "s.toml".toList], .file (encode cakeSettingsText) 0o644)]
  distinct := by decide
  proper := by decide

/-- An environment that sets the exclusions, with a blank behind the comma. -/
def cakeEnvironment : Environment :=
  [("HOME".toList, "/home".toList),
    ("FIX_ENTITIES__Entities__EXCLUDE".toList, "a.rs, b.rs".toList)]

theorem loadSettings_layers_cakes :
    FileSets cakeSettings (.ofText "s.toml".toList) (some "cake/src".toList)
        (some ["mod.rs".toList]) ∧
      cakeEnvironment.Sets none (some "a.rs, b.rs".toList) ∧
      (loadSettings cakeSettings (.ofText "s.toml".toList) cakeEnvironment).settings =
        .ok ⟨"cake/src".toList, ["a.rs".toList, " b.rs".toList]⟩ := by
  let day : Toml.Date := ⟨2024, 1, 1, by decide⟩
  let moment : Toml.DateTime :=
    .moment ⟨1979, 5, 27, by decide⟩ ⟨7, 32, 0, 500000000, by decide⟩ (some .universal)
  let entries : Toml.Entries :=
    [("generated".toList, .dateTime (.date day)),
      ("Entities".toList, .table .header
        [("DIR".toList, .string "cake/src".toList),
          ("exclude".toList, .array [.string "mod.rs".toList]),
          ("at".toList, .dateTime moment)])]
  have hfound : readSettings cakeSettings (.ofText "s.toml".toList) =
      .document (Setting.ofEntries "s.toml".toList entries) := by
    have hparse : Toml.parse? (markedText (encode cakeSettingsText)) = some entries := by cbv
    have hfile : settingsFile? cakeSettings (.ofText "s.toml".toList) =
        some (.ofText "s.toml".toList, .toml) :=
      settingsFile?_of_toml rfl (by decide)
    rw [readSettings_of_toml hfile rfl, hparse]
    rfl
  have hfile : FileSets cakeSettings (.ofText "s.toml".toList) (some "cake/src".toList)
      (some ["mod.rs".toList]) := by
    refine .document hfound ⟨?_, by decide, .something rfl (by decide) rfl rfl⟩
    have hbare : ∀ entry ∈ entries, entry.1 ≠ [] ∧ entry.1.all Toml.isBareChar = true := by
      decide
    exact fun entry hentry => ⟨(hbare entry hentry).1, List.all_eq_true.1 (hbare entry hentry).2⟩
  have hnamed : cakeEnvironment.named = [(Environment.listKey, "a.rs, b.rs".toList)] := by
    decide +kernel
  have henvironment : cakeEnvironment.Sets none (some "a.rs, b.rs".toList) := by
    constructor
    · simp [hnamed]
    · simp [hnamed]
    · rw [hnamed, List.forall_mem_singleton]
      exact ⟨by decide +kernel, by decide +kernel, rfl⟩
    · rw [hnamed]
      decide
    · rw [hnamed]
      decide
  exact ⟨hfile, henvironment, loadSettings_layers hfile henvironment⟩

end ModelMend
