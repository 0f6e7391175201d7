import ModelMend.Proofs.Batch.Verdict

/-!
# The accounts of a batch

A batch takes the files of a directory one after the other. At every moment its report, its events
and its log tell the verdicts on the files that are done, in order; these files are as the verdicts
leave them, and everything else is as it was (`BatchRun.Progress`). A file that is not done yet is
therefore where it was and holds what it held, so the verdict on it is the one from the start.
-/

namespace ModelMend

open Text

/-- A run on the files of a directory that has come this far. -/
structure BatchRun.Progress (start : BatchRun) (directory : Path) (place : Place)
    (done : List EntityFile) (run : BatchRun) : Prop where
  report : run.report = { start.report with
    changed := start.report.changed ++ done.filterMap EntityFile.changedRecord?
    failed := start.report.failed ++ done.filterMap (EntityFile.failedRecord? directory) }
  events : run.events = start.events ++ done.filterMap (EntityFile.event? directory)
  log : run.log = start.log ++ done.flatMap (EntityFile.logEntries directory)
  mended : ∀ file ∈ done,
    run.store.node? (place ++ [file.name]) = some (file.after start.report.dryRun)
  kept : ∀ other, (∀ file ∈ done, other ≠ place ++ [file.name]) →
    run.store.node? other = start.store.node? other

namespace BatchRun

variable {start run : BatchRun} {directory : Path} {place : Place} {done : List EntityFile}

theorem Progress.nothing : Progress start directory place [] start where
  report := by simp
  events := by simp
  log := by simp
  mended := by simp
  kept _ _ := rfl

/-- A batch makes no directory of a file and no file of a directory. -/
theorem Progress.sameKinds (h : Progress start directory place done run)
    (hdone : ∀ file ∈ done, file.IsIn directory start.store place) :
    Store.SameKinds start.store run.store := by
  intro other
  by_cases hother : ∃ file ∈ done, other = place ++ [file.name]
  · obtain ⟨file, hfile, rfl⟩ := hother
    rw [h.mended file hfile, (hdone file hfile).node?_eq]
    cases start.report.dryRun with
    | true => rfl
    | false =>
      unfold EntityFile.after EntityFile.mended
      cases file.verdict <;> rfl
  · push Not at hother
    rw [h.kept other hother]

theorem place_ne_of_notMem {file : EntityFile} (hnew : file.name ∉ done.map EntityFile.name)
    (place : Place) : ∀ other ∈ done, place ++ [file.name] ≠ place ++ [other.name] := by
  intro other hother heq
  have hname := List.singleton_inj.1 (List.append_cancel_left heq)
  exact hnew (hname ▸ List.mem_map_of_mem hother)

/-- A file that is not done yet is where it was and as it was. -/
theorem Progress.isIn (h : Progress start directory place done run)
    (hdone : ∀ file ∈ done, file.IsIn directory start.store place) {file : EntityFile}
    (hfile : file.IsIn directory start.store place) (hnew : file.name ∉ done.map EntityFile.name) :
    file.IsIn directory run.store place := by
  have hnode : run.store.node? (place ++ [file.name]) = some file.node := by
    rw [h.kept _ (place_ne_of_notMem hnew place), hfile.node?_eq]
  exact ⟨hfile.isName, (h.sameKinds hdone).find_eq_ok hfile.find hnode⟩

/-- **One file more.** -/
theorem Progress.mendNext (h : Progress start directory place done run)
    (hdone : ∀ file ∈ done, file.IsIn directory start.store place) {file : EntityFile}
    (hfile : file.IsIn directory start.store place) (hnew : file.name ∉ done.map EntityFile.name) :
    Progress start directory place (done ++ [file]) (run.mendNext (file.path directory)) := by
  have hhere := h.isIn hdone hfile hnew
  have hdry : run.report.dryRun = start.report.dryRun := by rw [h.report]
  rw [hhere.mendNext_eq, hdry]
  constructor
  · simp only [h.report, List.filterMap_append, List.filterMap_cons, List.filterMap_nil,
      List.append_assoc]
    cases file.changedRecord? <;> cases file.failedRecord? directory <;> rfl
  · simp only [h.events, List.filterMap_append, List.filterMap_cons, List.filterMap_nil,
      List.append_assoc]
    cases file.event? directory <;> rfl
  · simp [h.log]
  · intro other hother
    rw [hhere.node?_mendFile]
    rcases List.mem_append.1 hother with hold | hlast
    · rw [if_neg (place_ne_of_notMem hnew place other hold).symm, h.mended other hold]
    · rw [List.mem_singleton.1 hlast, if_pos rfl]
  · intro other hother
    rw [hhere.node?_mendFile, if_neg (hother file (by simp)), h.kept]
    exact fun file hold => hother file (List.mem_append_left _ hold)

/-- **A run over all files**, by induction on those that are left. -/
theorem Progress.foldl_mendNext {files : List EntityFile}
    (h : Progress start directory place done run)
    (hfiles : ∀ file ∈ done ++ files, file.IsIn directory start.store place)
    (hdistinct : ((done ++ files).map EntityFile.name).Nodup) :
    Progress start directory place (done ++ files)
      ((files.map (EntityFile.path directory)).foldl BatchRun.mendNext run) := by
  induction files generalizing done run with
  | nil => simpa using h
  | cons file files ih =>
    have hnew : file.name ∉ done.map EntityFile.name := by
      rw [List.map_append, List.map_cons, List.nodup_append] at hdistinct
      intro hmem
      exact hdistinct.2.2 _ hmem _ List.mem_cons_self rfl
    have hstep := h.mendNext (fun other hother => hfiles other (List.mem_append_left _ hother))
      (hfiles file (by simp)) hnew
    rw [List.append_cons] at hfiles hdistinct ⊢
    exact ih hstep hfiles hdistinct

/-- A dry run writes nothing. -/
theorem store_foldl_mendNext_of_dryRun {run : BatchRun} (h : run.report.dryRun = true)
    (paths : List Path) : (paths.foldl BatchRun.mendNext run).store = run.store := by
  induction paths generalizing run with
  | nil => rfl
  | cons path paths ih =>
    have hstep : (run.mendNext path).store = run.store ∧
        (run.mendNext path).report.dryRun = run.report.dryRun := by
      have hstore : (mendFile run.store path run.report.dryRun).store = run.store := by
        unfold mendFile
        split
        · rfl
        · dsimp only
          rw [if_pos h]
          split <;> rfl
      unfold BatchRun.mendNext record
      dsimp only
      split <;> exact ⟨hstore, rfl⟩
    rw [List.foldl_cons, ih (hstep.2.trans h), hstep.1]

end BatchRun

/-! ## The files that a batch comes upon -/

/-- The files that are found in a directory, which is at a place: each of them once. -/
structure Discovers (store : Store) (directory : Path) (excluded : List (List Char)) (place : Place)
    (files : List EntityFile) (found : Discovery) : Prop where
  discover_eq : discover store directory excluded = .ok found
  entities_eq : found.entities = files.map (EntityFile.path directory)
  isIn : ∀ file ∈ files, file.IsIn directory store place
  distinct : (files.map EntityFile.name).Nodup

theorem exists_map_name_eq {Holds : EntityFile → Prop} {names : List Bytes}
    (h : ∀ name ∈ names, ∃ file : EntityFile, file.name = name ∧ Holds file) :
    ∃ files : List EntityFile, files.map EntityFile.name = names ∧ ∀ file ∈ files, Holds file := by
  induction names with
  | nil => exact ⟨[], rfl, List.forall_mem_nil _⟩
  | cons name names ih =>
    obtain ⟨⟨file, rfl, hfile⟩, hmore⟩ := List.forall_mem_cons.1 h
    obtain ⟨files, rfl, hfiles⟩ := ih hmore
    exact ⟨file :: files, rfl, List.forall_mem_cons.2 ⟨hfile, hfiles⟩⟩

section

variable {store : Store} {directory : Path} {place : Place}
  (hdirectory : store.find directory = .ok (place, .directory))

include hdirectory

theorem exists_entityFile {excluded : List (List Char)} {name : Bytes}
    (h : name ∈ store.entitiesIn directory place excluded) :
    ∃ file : EntityFile, file.name = name ∧ file.IsIn directory store place := by
  have hfound := (List.mem_filter.1 ((List.mergeSort_perm _ _).mem_iff.1 h)).1
  obtain ⟨hname, hkind⟩ := List.mem_filter.1 hfound
  have hisName := Store.isName_of_mem_names hname
  have hfile := (Bool.and_eq_true _ _ ▸ hkind).1
  unfold Store.isFile at hfile
  split at hfile
  · next there contents mode hfind =>
    obtain ⟨hplace, -⟩ := Store.place_of_find_child hdirectory hisName hfind
    exact ⟨⟨name, contents, mode⟩, rfl, hisName, hplace ▸ hfind⟩
  · cases hfile

theorem exists_discovers (excluded : List (List Char)) :
    ∃ files found, Discovers store directory excluded place files found := by
  have hfile (name : Bytes) (hname : name ∈ store.entitiesIn directory place excluded) :=
    exists_entityFile hdirectory hname
  obtain ⟨files, hnames, hfiles⟩ := exists_map_name_eq hfile
  refine ⟨files, ⟨files.map (EntityFile.path directory),
    (store.skippedIn directory place excluded).map directory.child⟩, ?_, rfl, hfiles, ?_⟩
  · unfold discover
    rw [hdirectory]
    dsimp only
    rw [← hnames, List.map_map]
    rfl
  · rw [hnames]
    refine (List.mergeSort_perm _ _).nodup_iff.2 ?_
    exact ((Store.nodup_names store place).filter _).filter _

end

/-! ## Batches -/

section

variable {store : Store} {settings : BatchSettings} {place : Place} {files : List EntityFile}
  {found : Discovery}

theorem Discovers.exists_run
    (h : Discovers store (.ofText settings.directory) settings.excluded place files found)
    (dryRun : Bool) :
    ∃ run : BatchRun, runBatch store settings dryRun = .ok run.finish ∧
      BatchRun.Progress (.start store (.ofText settings.directory) found dryRun)
        (.ofText settings.directory) place files run ∧
      (dryRun = true → run.store = store) := by
  let start := BatchRun.start store (.ofText settings.directory) found dryRun
  have hprogress : start.Progress (.ofText settings.directory) place files
      (found.entities.foldl BatchRun.mendNext start) := by
    rw [h.entities_eq]
    exact BatchRun.Progress.nothing.foldl_mendNext h.isIn h.distinct
  refine ⟨found.entities.foldl BatchRun.mendNext start, ?_, hprogress, ?_⟩
  · unfold runBatch
    dsimp only
    rw [h.discover_eq]
  · exact fun hdry => BatchRun.store_foldl_mendNext_of_dryRun hdry _

/-- What a run that is not dry leaves behind when it came upon these files. -/
structure BatchRun.Accounts (store : Store) (directory : Path) (place : Place)
    (files : List EntityFile) (run : BatchRun) : Prop where
  scanned : run.report.scanned = files.length
  /-- Every file is mended, failed or clean, and no two of these. -/
  counted : run.report.changed.length + run.report.failed.length +
    files.countP EntityFile.isClean = run.report.scanned
  changed : run.report.changed = files.filterMap EntityFile.changedRecord?
  failed : run.report.failed = files.filterMap (EntityFile.failedRecord? directory)
  events : run.events =
    .discovered run.report.scanned :: files.filterMap (EntityFile.event? directory)
  /-- Nothing comes and nothing goes. -/
  kinds : Store.SameKinds store run.store
  /-- Where a file was, there is what the verdict on it leaves of it. -/
  mended : ∀ file ∈ files, run.store.node? (place ++ [file.name]) = some file.mended
  kept : ∀ other, (∀ file ∈ files, other ≠ place ++ [file.name]) →
    run.store.node? other = store.node? other

/-- **The accounts of a batch.** -/
theorem runBatch_accounts
    (hdirectory : store.find (.ofText settings.directory) = .ok (place, .directory)) :
    ∃ files found run,
      Discovers store (.ofText settings.directory) settings.excluded place files found ∧
        runBatch store settings false = .ok run ∧
          run.Accounts store (.ofText settings.directory) place files := by
  obtain ⟨files, found, h⟩ := exists_discovers hdirectory settings.excluded
  obtain ⟨run, hrun, hprogress, -⟩ := h.exists_run false
  refine ⟨files, found, run.finish, h, hrun, ?_⟩
  have hreport := hprogress.report
  have hscanned : run.report.scanned = files.length := by
    rw [hreport]
    exact (congrArg List.length h.entities_eq).trans (List.length_map _)
  have hchanged : run.report.changed = files.filterMap EntityFile.changedRecord? := by
    rw [hreport]
    exact List.nil_append _
  have hfailed : run.report.failed =
      files.filterMap (EntityFile.failedRecord? (.ofText settings.directory)) := by
    rw [hreport]
    exact List.nil_append _
  refine ⟨hscanned, ?_, hchanged, hfailed, ?_, hprogress.sameKinds h.isIn, hprogress.mended,
    hprogress.kept⟩
  · change run.report.changed.length + run.report.failed.length + _ = run.report.scanned
    rw [hchanged, hfailed, hscanned]
    exact EntityFile.countP_verdicts (.ofText settings.directory) files
  · change run.events = .discovered run.report.scanned :: _
    rw [hprogress.events, hreport]
    rfl

end

/-- A directory with a file that is mended, one that holds no text, one that is clean, and one that
is excluded. -/
def cakeShop : Store :=
  [("a.rs", encode "pub struct Model \x7b\n    pub cakes: HasMany<Cake>,\n\x7d\n".toList),
    ("b.rs", [0xff]), ("c.rs", []), ("mod.rs", [0xff])].foldl
    (fun store file =>
      store.putFile [encode "e".toList, encode file.1.toList] file.2 0o640) .empty

theorem discover_cakeShop : discover cakeShop (.ofText "e".toList) ["mod.rs".toList] =
    .ok ⟨["e/a.rs", "e/b.rs", "e/c.rs"].map fun path => .ofText path.toList,
      [.ofText "e/mod.rs".toList]⟩ := by
  have hfind : cakeShop.find (.ofText "e".toList) = .ok ([encode "e".toList], .directory) := by
    decide +kernel
  have hnames : (cakeShop.entityNames (.ofText "e".toList) [encode "e".toList]).filter
      (fun name => !isExcluded ["mod.rs".toList] name) =
      [encode "a.rs".toList, encode "b.rs".toList, encode "c.rs".toList] := by
    decide +kernel
  have hskipped : cakeShop.skippedIn (.ofText "e".toList) [encode "e".toList] ["mod.rs".toList] =
      [encode "mod.rs".toList] := by
    decide +kernel
  unfold discover Store.entitiesIn
  rw [hfind]
  dsimp only
  rw [hnames, hskipped, List.mergeSort_of_pairwise (by decide +kernel)]
  decide +kernel

theorem runBatch_accounts_cakeShop :
    cakeShop.find (.ofText "e".toList) = .ok ([encode "e".toList], .directory) ∧
      ∃ files found run,
        Discovers cakeShop (.ofText "e".toList) ["mod.rs".toList] [encode "e".toList] files found ∧
        runBatch cakeShop ⟨"e".toList, ["mod.rs".toList]⟩ false = .ok run ∧
        run.Accounts cakeShop (.ofText "e".toList) [encode "e".toList] files ∧
        run.report.scanned = 3 ∧ run.report.changed.length = 1 ∧ run.report.failed.length = 1 := by
  have hfind : cakeShop.find (.ofText "e".toList) = .ok ([encode "e".toList], .directory) := by
    decide +kernel
  have hcounts : (runBatch cakeShop ⟨"e".toList, ["mod.rs".toList]⟩ false).map (fun run =>
      (run.report.scanned, run.report.changed.length, run.report.failed.length)) = .ok (3, 1, 1) := by
    unfold runBatch
    dsimp only
    rw [discover_cakeShop]
    decide +kernel
  have haccounts := @runBatch_accounts cakeShop ⟨"e".toList, ["mod.rs".toList]⟩ _ hfind
  obtain ⟨files, found, run, hfiles, hrun, haccounts⟩ := haccounts
  rw [hrun] at hcounts
  simp only [Except.map, Except.ok.injEq, Prod.mk.injEq] at hcounts
  exact ⟨hfind, files, found, run, hfiles, hrun, haccounts, hcounts⟩

/-- What is found is found in a directory. -/
theorem find_of_discover {store : Store} {directory : Path} {excluded : List (List Char)}
    {found : Discovery} (h : discover store directory excluded = .ok found) :
    ∃ place, store.find directory = .ok (place, .directory) := by
  unfold discover at h
  split at h
  · next place hfind => exact ⟨place, hfind⟩
  · cases h

/-- **A dry run tells what the real run does.** It ends in the same failure, or it leaves the store
alone and its report, its events and its log are those of the real run, but that it says it is dry. -/
theorem runBatch_dryRun (store : Store) (settings : BatchSettings) :
    runBatch store settings true = (runBatch store settings false).map fun run =>
      { run with store := store, report := { run.report with dryRun := true } } := by
  cases hdiscover : discover store (.ofText settings.directory) settings.excluded with
  | error failure =>
    unfold runBatch
    dsimp only
    rw [hdiscover]
    rfl
  | ok found =>
    obtain ⟨place, hdirectory⟩ := find_of_discover hdiscover
    obtain ⟨files, found, h⟩ := exists_discovers hdirectory settings.excluded
    obtain ⟨dry, hdry, hdryProgress, hstore⟩ := h.exists_run true
    obtain ⟨real, hreal, hrealProgress, -⟩ := h.exists_run false
    have htold : dry = { real with store := store, report := { real.report with dryRun := true } } := by
      calc dry = ⟨dry.store, dry.report, dry.events, dry.log⟩ := rfl
        _ = _ := by
          rw [hstore rfl, hdryProgress.report, hdryProgress.events, hdryProgress.log,
            hrealProgress.report, hrealProgress.events, hrealProgress.log]
          rfl
    rw [hdry, hreal, htold]
    rfl

end ModelMend
