import LayeredConfig.Proofs.Config.Composite

/-!
# Choices that are left open

A configuration may leave choices open, and every reader of one falls back to a value of its own.  `withDefaults`
writes such values down beforehand.  Both agree, and what is filled in is told by that alone.

* `ExtendedBy` — a configuration keeps the choices of another one and makes further ones.
* `IsComplete` — no choice is open that `withDefaults` makes.
* `Alike` — two configurations from which a program takes the same.
* `eq_withDefaults_iff` — `withDefaults` is the only complete extension that is alike.
* `composite_congr` — the tables of configurations that are alike.
* `withDefaults_conservative` — what filling in a configuration keeps.
-/

namespace LayeredConfig.Config

/-- A choice that is made is not made differently. -/
def Keeps {α : Type} (a b : Option α) : Prop := ∀ x, a = some x → b = some x

/-! ## Extensions -/

/-- A repository keeps what another one says. -/
structure Repository.ExtendedBy (r s : Repository) : Prop where
  name : s.name = r.name
  dataFile : s.dataFile = r.dataFile
  order : Keeps r.order s.order
  defaultLabel : Keeps r.defaultLabel s.defaultLabel
  failOnError : Keeps r.failOnError s.failOnError
  configIncomplete : Keeps r.configIncomplete s.configIncomplete

/-- Output choices that keep other ones. -/
structure Output.ExtendedBy (o p : Output) : Prop where
  stripDocument : Keeps o.stripDocument p.stripDocument
  acceptEmpty : Keeps o.acceptEmpty p.acceptEmpty
  resolvePlaceholders : Keeps o.resolvePlaceholders p.resolvePlaceholders

/-- Logging choices that keep other ones. -/
structure Logging.ExtendedBy (l m : Logging) : Prop where
  level : Keeps l.level m.level
  directory : Keeps l.directory m.directory
  redactSensitive : Keeps l.redactSensitive m.redactSensitive

/-- A configuration keeps what another one says, repository by repository.  A section that is not there leaves all
of its choices open. -/
structure ExtendedBy (c d : Config) : Prop where
  repositories : List.Forall₂ Repository.ExtendedBy c.repositories d.repositories
  output : (c.output.getD {}).ExtendedBy (d.output.getD {})
  logging : (c.logging.getD {}).ExtendedBy (d.logging.getD {})

/-! ## Complete configurations -/

/-- Every choice of a repository is made; its name may be taken from its data file. -/
structure Repository.IsComplete (r : Repository) : Prop where
  order : r.order.isSome
  defaultLabel : r.defaultLabel.isSome
  failOnError : r.failOnError.isSome
  configIncomplete : r.configIncomplete.isSome

/-- Every output choice is made. -/
structure Output.IsComplete (o : Output) : Prop where
  stripDocument : o.stripDocument.isSome
  acceptEmpty : o.acceptEmpty.isSome
  resolvePlaceholders : o.resolvePlaceholders.isSome

/-- Every logging choice is made; there need not be a directory. -/
structure Logging.IsComplete (l : Logging) : Prop where
  level : l.level.isSome
  redactSensitive : l.redactSensitive.isSome

/-- Both sections are there, and no choice is open in them or in a repository. -/
structure IsComplete (c : Config) : Prop where
  repositories : ∀ r ∈ c.repositories, r.IsComplete
  output : ∃ o, c.output = some o ∧ o.IsComplete
  logging : ∃ l, c.logging = some l ∧ l.IsComplete

/-! ## What a program takes from a configuration -/

/-- Two repositories of which the tables are set up in the same way. -/
structure Repository.Alike (r s : Repository) : Prop where
  place : s.place = r.place
  tableSettings : s.tableSettings = r.tableSettings

/-- Two configurations from which a program takes the same. -/
structure Alike (c d : Config) : Prop where
  repositories : List.Forall₂ Repository.Alike c.repositories d.repositories
  acceptEmpty : d.acceptEmpty = c.acceptEmpty
  renderOptions : ∀ noResolve, d.renderOptions noResolve = c.renderOptions noResolve
  logLevel : d.logLevel = c.logLevel
  logDirectory : d.logDirectory = c.logDirectory
  redacts : d.redacts = c.redacts

variable {c d : Config}

theorem ExtendedBy.refl (c : Config) : c.ExtendedBy c where
  repositories := List.forall₂_same.2 fun _ _ =>
    ⟨rfl, rfl, fun _ => id, fun _ => id, fun _ => id, fun _ => id⟩
  output := ⟨fun _ => id, fun _ => id, fun _ => id⟩
  logging := ⟨fun _ => id, fun _ => id, fun _ => id⟩

theorem Alike.refl (c : Config) : c.Alike c where
  repositories := List.forall₂_same.2 fun _ _ => ⟨rfl, rfl⟩
  acceptEmpty := rfl
  renderOptions := fun _ => rfl
  logLevel := rfl
  logDirectory := rfl
  redacts := rfl

/-! ## Filling in -/

theorem keeps_some_getD {α : Type} (a : Option α) (standard : α) : Keeps a (some (a.getD standard)) := by
  rintro x rfl
  rfl

/-- What a reader falls back to tells what has been filled in. -/
theorem eq_some_of_getD_eq {α : Type} {a b : Option α} {standard : α} (hb : b.isSome)
    (h : b.getD standard = a.getD standard) : b = some (a.getD standard) := by
  obtain ⟨x, rfl⟩ := Option.isSome_iff_exists.1 hb
  exact congrArg some h

theorem Repository.withDefaults_spec (r : Repository) :
    r.ExtendedBy r.withDefaults ∧ r.withDefaults.IsComplete ∧ r.Alike r.withDefaults := by
  refine ⟨⟨rfl, rfl, ?_, ?_, ?_, ?_⟩, ⟨rfl, rfl, rfl, rfl⟩, rfl, rfl⟩ <;> exact keeps_some_getD _ _

/-- The choices of a repository are filled in as its table would have made them. -/
theorem Repository.eq_withDefaults {r s : Repository} (hextended : r.ExtendedBy s) (hcomplete : s.IsComplete)
    (halike : r.Alike s) : s = r.withDefaults := by
  have hplace : s.order.getD 0 = r.order.getD 0 := Int32.toInt_inj.1 halike.place
  have hsettings := TableSettings.mk.inj halike.tableSettings
  have horder := eq_some_of_getD_eq hcomplete.order hplace
  have hfail := eq_some_of_getD_eq hcomplete.failOnError hsettings.1
  have hincomplete := eq_some_of_getD_eq hcomplete.configIncomplete hsettings.2.1
  have hlabel := eq_some_of_getD_eq hcomplete.defaultLabel hsettings.2.2
  cases s with
  | mk name dataFile order defaultLabel failOnError configIncomplete =>
      obtain ⟨rfl, rfl, -⟩ := hextended
      dsimp only at horder hfail hincomplete hlabel
      rw [horder, hfail, hincomplete, hlabel]
      rfl

theorem eq_map_withDefaults {repositories filled : List Repository}
    (hextended : List.Forall₂ Repository.ExtendedBy repositories filled)
    (hcomplete : ∀ s ∈ filled, s.IsComplete)
    (halike : List.Forall₂ Repository.Alike repositories filled) :
    filled = repositories.map Repository.withDefaults := by
  induction hextended with
  | nil => rfl
  | cons hrs _ ih =>
      obtain ⟨hs, hcomplete⟩ := List.forall_mem_cons.1 hcomplete
      obtain ⟨hhead, halike⟩ := List.forall₂_cons.1 halike
      rw [List.map_cons, Repository.eq_withDefaults hrs hs hhead, ih hcomplete halike]

theorem extendedBy_withDefaults (c : Config) : c.ExtendedBy c.withDefaults where
  repositories := List.forall₂_map_right_iff.2 (List.forall₂_same.2 fun r _ => r.withDefaults_spec.1)
  output := ⟨keeps_some_getD _ _, keeps_some_getD _ _, keeps_some_getD _ _⟩
  logging := ⟨keeps_some_getD _ _, fun _ => id, keeps_some_getD _ _⟩

theorem isComplete_withDefaults (c : Config) : c.withDefaults.IsComplete where
  repositories := List.forall_mem_map.2 fun r _ => r.withDefaults_spec.2.1
  output := ⟨_, rfl, rfl, rfl, rfl⟩
  logging := ⟨_, rfl, rfl, rfl⟩

/-! ## Readers and sections -/

/-- A choice in a section that is not there is open. -/
theorem bind_eq_getD {α β : Type} (a : Option α) {f : α → Option β} (empty : α) (h : f empty = none) :
    a.bind f = f (a.getD empty) := by
  cases a with
  | none => exact h.symm
  | some x => rfl

theorem acceptEmpty_eq (c : Config) : c.acceptEmpty = (c.output.getD {}).acceptEmpty.getD true := by
  rw [acceptEmpty, bind_eq_getD c.output {} rfl]

theorem renderOptions_eq (c : Config) (noResolve : Bool) :
    c.renderOptions noResolve =
      { stripDocument := (c.output.getD {}).stripDocument.getD true
        resolvePlaceholders := !noResolve && (c.output.getD {}).resolvePlaceholders.getD true } := by
  rw [renderOptions, bind_eq_getD c.output {} rfl, bind_eq_getD c.output {} rfl]

theorem logLevel_eq (c : Config) : c.logLevel = (c.logging.getD {}).level.getD standardLevel := by
  rw [logLevel, bind_eq_getD c.logging {} rfl]

theorem logDirectory_eq (c : Config) : c.logDirectory = (c.logging.getD {}).directory := by
  rw [logDirectory, bind_eq_getD c.logging {} rfl]

theorem redacts_eq (c : Config) : c.redacts = (c.logging.getD {}).redactSensitive.getD true := by
  rw [redacts, bind_eq_getD c.logging {} rfl]

theorem alike_withDefaults (c : Config) : c.Alike c.withDefaults where
  repositories := List.forall₂_map_right_iff.2 (List.forall₂_same.2 fun r _ => r.withDefaults_spec.2.2)
  acceptEmpty := (acceptEmpty_eq c).symm
  renderOptions := fun noResolve => (renderOptions_eq c noResolve).symm
  logLevel := (logLevel_eq c).symm
  logDirectory := (logDirectory_eq c).symm
  redacts := (redacts_eq c).symm

theorem output_eq_withDefaults (hcomplete : d.IsComplete) (halike : c.Alike d) :
    d.output = some (c.output.getD {}).withDefaults := by
  obtain ⟨o, ho, hstrip, haccept, hresolve⟩ := hcomplete.output
  have hacceptEmpty := halike.acceptEmpty
  rw [acceptEmpty_eq, acceptEmpty_eq, ho] at hacceptEmpty
  have hoptions := halike.renderOptions false
  rw [renderOptions_eq, renderOptions_eq, ho] at hoptions
  obtain ⟨hstripDocument, hresolvePlaceholders⟩ := RenderOptions.mk.inj hoptions
  rw [ho]
  cases o with
  | mk stripDocument acceptEmpty resolvePlaceholders =>
      have hfirst : stripDocument = _ := eq_some_of_getD_eq hstrip hstripDocument
      have hsecond : acceptEmpty = _ := eq_some_of_getD_eq haccept hacceptEmpty
      have hthird : resolvePlaceholders = _ := eq_some_of_getD_eq hresolve hresolvePlaceholders
      rw [hfirst, hsecond, hthird]
      rfl

theorem logging_eq_withDefaults (hcomplete : d.IsComplete) (halike : c.Alike d) :
    d.logging = some (c.logging.getD {}).withDefaults := by
  obtain ⟨l, hl, hlevel, hredact⟩ := hcomplete.logging
  have hlogLevel := halike.logLevel
  have hlogDirectory := halike.logDirectory
  have hredacts := halike.redacts
  rw [logLevel_eq, logLevel_eq, hl] at hlogLevel
  rw [logDirectory_eq, logDirectory_eq, hl] at hlogDirectory
  rw [redacts_eq, redacts_eq, hl] at hredacts
  rw [hl]
  cases l with
  | mk level directory redactSensitive =>
      have hfirst : level = _ := eq_some_of_getD_eq hlevel hlogLevel
      have hsecond : directory = _ := hlogDirectory
      have hthird : redactSensitive = _ := eq_some_of_getD_eq hredact hredacts
      rw [hfirst, hsecond, hthird]
      rfl

/-- There is one way only to make all choices that a configuration leaves open so that a program sees no
difference. -/
theorem eq_withDefaults_iff : d = c.withDefaults ↔ c.ExtendedBy d ∧ d.IsComplete ∧ c.Alike d := by
  constructor
  · rintro rfl
    exact ⟨extendedBy_withDefaults c, isComplete_withDefaults c, alike_withDefaults c⟩
  · rintro ⟨hextended, hcomplete, halike⟩
    have hrepositories := eq_map_withDefaults hextended.repositories hcomplete.repositories halike.repositories
    have houtput := output_eq_withDefaults hcomplete halike
    have hlogging := logging_eq_withDefaults hcomplete halike
    cases d with
    | mk repositories output logging =>
        dsimp only at hrepositories houtput hlogging
        rw [hrepositories, houtput, hlogging]
        rfl

/-! ## The tables -/

/-- A repository is loaded from its name, its data file and what is alike. -/
theorem repositoryMember_congr {r s : Repository} (hextended : r.ExtendedBy s) (halike : r.Alike s)
    (files : FileSystem) : repositoryMember files s = repositoryMember files r := by
  have hname : s.displayName = r.displayName := by
    rw [Repository.displayName, Repository.displayName, hextended.name, hextended.dataFile]
  unfold repositoryMember
  rw [hname, hextended.dataFile, halike.place, halike.tableSettings]

/-- Configurations that are alike have the same tables if one extends the other. -/
theorem composite_congr (hextended : c.ExtendedBy d) (halike : c.Alike d) (files : FileSystem)
    (dataFiles : List String) : composite files d dataFiles = composite files c dataFiles := by
  obtain ⟨hlength, hkept⟩ := List.forall₂_iff_zip.1 hextended.repositories
  obtain ⟨-, hlike⟩ := List.forall₂_iff_zip.1 halike.repositories
  have hmember : List.Forall₂ (fun r s => repositoryMember files s = repositoryMember files r)
      c.repositories d.repositories :=
    List.forall₂_iff_zip.2 ⟨hlength, fun hmem => repositoryMember_congr (hkept hmem) (hlike hmem) files⟩
  unfold composite
  rw [mapM_congr_forall₂ hmember, halike.acceptEmpty]

/-- Filling in keeps every choice that is made and the sequence of the repositories, makes all other choices, and
changes nothing of what a program takes from a configuration, its tables included.  Nothing is left to be filled
in a second time. -/
theorem withDefaults_conservative (c : Config) :
    c.ExtendedBy c.withDefaults ∧ c.withDefaults.IsComplete ∧ c.Alike c.withDefaults ∧
      (∀ files dataFiles, composite files c.withDefaults dataFiles = composite files c dataFiles) ∧
      c.withDefaults.withDefaults = c.withDefaults := by
  have hextended := extendedBy_withDefaults c
  have hcomplete := isComplete_withDefaults c
  have halike := alike_withDefaults c
  refine ⟨hextended, hcomplete, halike, composite_congr hextended halike, ?_⟩
  -- what is complete extends itself and is like itself, so it is its own filling
  exact (eq_withDefaults_iff.2 ⟨ExtendedBy.refl _, hcomplete, Alike.refl _⟩).symm

end LayeredConfig.Config
