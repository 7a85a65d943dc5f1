import PyFly.ConfigBinding
import PyFly.ConfigSources

/-!
# Active profiles

The profiles are resolved twice: by `_resolve_profiles_early` from the two YAML
files, for the overlays, and by `Environment` from the configuration with all
files merged, for the beans.  The results are the same when the first value
which is read early and the last one in the order of the merge list the same
profiles.
-/

namespace PyFly.Core

open Config Value

variable {σ : Type} (python : Python σ) (environ : Environ)

/-! ## The two resolutions -/

def profilesVariable : List Char :=
  "PYFLY_PROFILES_ACTIVE".toList

def profilesKey : List Char :=
  "pyfly.profiles.active".toList

/-- `[p.strip() for p in names.split(",") if p.strip()]` -/
def profileNames (names : List Char) : List (List Char) :=
  ((names.splitOn ',').map python.strip).filter fun name => !name.isEmpty

def profilesOf (value : Value σ) : List (List Char) :=
  if truth python value then profileNames python (strOf python value) else []

/-- `os.environ.get("PYFLY_PROFILES_ACTIVE", "")` -/
def envProfiles : List Char :=
  (environ profilesVariable).getD []

def activeIn (pyfly : Entries σ) : Value σ :=
  match (pyfly.lookup "profiles".toList).getD (.dict []) with
  | .dict profiles => (profiles.lookup "active".toList).getD (.text [])
  | _ => .text []

/-- The active profiles in one file.  A true value under `pyfly` must be a
dictionary. -/
def candidateActive (data : Value σ) : Except PyError (Value σ) :=
  match data with
  | .dict entries =>
    match orEmpty python
      ((entries.lookup "pyfly".toList).getD (.dict [])) with
    | .dict pyfly => .ok (activeIn pyfly)
    | _ => .error .attributeError
  | _ => .error .attributeError

def firstActive : List (Option (File σ)) → Except PyError (List (List Char))
  | [] => .ok []
  | none :: files => firstActive files
  | some (.error error) :: _ => .error error
  | some (.ok document) :: files =>
    match candidateActive python (loadConfigData python document) with
    | .error error => .error error
    | .ok active =>
      if truth python active then
        .ok (profileNames python (strOf python active))
      else firstActive files

def earlyCandidates (dir : Directory σ) : List (Option (File σ)) :=
  [dir.base .config .yaml, dir.base .root .yaml]

def resolveProfilesEarly (configDir : Option (Directory σ)) :
    Except PyError (List (List Char)) :=
  if envProfiles environ ≠ [] then
    .ok (profileNames python (envProfiles environ))
  else
    match configDir with
    | none => .ok []
    | some dir => firstActive python (earlyCandidates dir)

def loadProfiles (config : Config σ) : Except PyError (List (List Char)) :=
  if envProfiles environ ≠ [] then
    .ok (profileNames python (envProfiles environ))
  else
    (config.get python environ profilesKey (.text [])).map (profilesOf python)

/-! ## The application -/

structure Installation (σ : Type) where
  configPath : Option (Directory σ)
  workingDir : Directory σ
  defaults : Entries σ
  defaults_active : given (keyParts profilesKey) (.dict defaults) = some (.text [])

def findConfigDir (app : Installation σ) : Option (Directory σ) :=
  match app.configPath with
  | some dir => some dir
  | none =>
    if (candidates app.workingDir.base).any Option.isSome then
      some app.workingDir
    else none

structure Startup (σ : Type) where
  overlays : List (List Char)
  config : Config σ

def start (app : Installation σ) : Except PyError (Startup σ) :=
  match resolveProfilesEarly python environ (findConfigDir app) with
  | .error error => .error error
  | .ok activeProfiles =>
    match findConfigDir app with
    | none => .ok ⟨[], ⟨app.defaults⟩⟩
    | some dir =>
      (fromSources python app.defaults dir activeProfiles).map (Startup.mk activeProfiles)

def OverlaysSilent (app : Installation σ) (profiles : List (List Char)) :
    Prop :=
  ∀ dir ∈ findConfigDir app, ∀ profile ∈ profiles, ∀ file ∈ candidates (dir.overlay profile),
      fileGiven python (keyParts profilesKey) file = none

/-! ## Where the resolutions agree -/

/-- What one file holds under `pyfly.profiles.active`. -/
def fileActive : Option (File σ) → Value σ
  | some (.ok document) =>
    walk (keyParts profilesKey) (loadConfigData python document)
  | _ => .null

def firstTrue : List (Option (File σ)) → Value σ
  | [] => .text []
  | file :: files =>
    if truth python (fileActive python file) then fileActive python file
    else firstTrue files

/-- The value which the YAML files have for the overlays: that of
`config/pyfly.yaml`, if it is true, before that of `pyfly.yaml`. -/
def earlyValue (app : Installation σ) : Value σ :=
  match findConfigDir app with
  | none => .text []
  | some dir => firstTrue python (earlyCandidates dir)

def mergedValue (app : Installation σ) : Value σ :=
  match findConfigDir app with
  | none => .text []
  | some dir =>
    ((candidates dir.base).map
      (fileGiven python (keyParts profilesKey))).foldl overrideWith (.text [])

structure SameProfiles (app : Installation σ) (config : Config σ) : Prop where
  named : envProfiles environ ≠ [] →
    findConfigDir app ≠ none ∨ profileNames python (envProfiles environ) = []
  emptied : environ profilesVariable = some [] → profilesOf python (earlyValue python app) = []
  configured : environ profilesVariable = none →
    (∀ chars, mergedValue python app = .text chars → ¬ opening <:+: chars) →
      profilesOf python (mergedValue python app) = profilesOf python (earlyValue python app)
  resolved : environ profilesVariable = none →
    ∀ chars, mergedValue python app = .text chars → opening <:+: chars →
      ∃ names, config.resolvePlaceholders python environ maxLevels chars = .ok names ∧
        profilesOf python (.text names) = profilesOf python (earlyValue python app)

/-! ## The early value -/

variable {python}

theorem walk_activeIn (pyfly : Entries σ) :
    walk ["profiles".toList, "active".toList] (.dict pyfly) = activeIn pyfly ∨
      activeIn pyfly = .text [] ∧
        walk ["profiles".toList, "active".toList] (.dict pyfly) = .null := by
  have hwalk : walk ["profiles".toList, "active".toList] (.dict pyfly) =
      walk ["active".toList] ((pyfly.lookup "profiles".toList).getD .null) := rfl
  rw [hwalk, activeIn]
  cases pyfly.lookup "profiles".toList with
  | none => exact .inr ⟨rfl, rfl⟩
  | some profiles =>
    cases profiles with
    | null => exact .inr ⟨rfl, rfl⟩
    | text chars => exact .inr ⟨rfl, rfl⟩
    | scalar object => exact .inr ⟨rfl, rfl⟩
    | dict profiles =>
      have hlast : walk ["active".toList] (.dict profiles) =
          (profiles.lookup "active".toList).getD .null := rfl
      rw [Option.getD_some, Option.getD_some, hlast]
      dsimp only
      cases profiles.lookup "active".toList with
      | none => exact .inr ⟨rfl, rfl⟩
      | some active => exact .inl rfl

variable {value : Value σ}

theorem orEmpty_eq_dict {entries : Entries σ} (h : orEmpty python value = .dict entries) :
    value = .dict entries ∨ entries = [] ∧ truth python value = false := by
  unfold orEmpty at h
  split at h
  · exact .inl h
  · rename_i hfalse
    exact .inr ⟨(Value.dict.inj h).symm, Bool.not_eq_true _ ▸ hfalse⟩

theorem entriesOf_of_truth_eq_false (h : truth python value = false) :
    entriesOf value = [] := by
  cases value with
  | dict entries =>
    have hempty : entries = [] := by simpa [truth] using h
    exact hempty
  | null => rfl
  | text chars => rfl
  | scalar object => rfl

theorem walk_of_entriesOf_eq_nil (h : entriesOf value = []) (part : List Char)
    (parts : List (List Char)) : walk (part :: parts) value = .null := by
  rw [walk_cons, Value.next, h]
  exact walk_null parts

/-- The early reading of a file finds what `get` would find in it, and an empty
text instead of nothing. -/
theorem eq_or_of_candidateActive {data active : Value σ}
    (h : candidateActive python data = .ok active) :
    walk (keyParts profilesKey) data = active ∨
      active = .text [] ∧ walk (keyParts profilesKey) data = .null := by
  have hparts : keyParts profilesKey =
      ["pyfly".toList, "profiles".toList, "active".toList] := by decide
  rw [hparts]
  cases data with
  | null => cases h
  | text chars => cases h
  | scalar object => cases h
  | dict entries =>
    simp only [candidateActive] at h
    split at h
    · rename_i pyfly hpyfly
      obtain rfl := Except.ok.inj h
      have hnext : Value.next "pyfly".toList (.dict entries) =
          (entries.lookup "pyfly".toList).getD .null := rfl
      have hnothing : activeIn ([] : Entries σ) = .text [] := rfl
      rw [walk_cons, hnext]
      cases hlookup : entries.lookup "pyfly".toList with
      | none =>
        rw [hlookup] at hpyfly
        obtain rfl : [] = pyfly := by
          obtain heq | ⟨rfl, -⟩ := orEmpty_eq_dict hpyfly
          · exact Value.dict.inj heq
          · rfl
        exact .inr ⟨hnothing, rfl⟩
      | some value =>
        rw [hlookup, Option.getD_some] at hpyfly
        obtain rfl | ⟨rfl, hfalse⟩ := orEmpty_eq_dict hpyfly
        · exact walk_activeIn pyfly
        · exact .inr ⟨hnothing, walk_of_entriesOf_eq_nil
            (entriesOf_of_truth_eq_false hfalse) _ _⟩
    · cases h

theorem firstActive_eq {files : List (Option (File σ))}
    {profiles : List (List Char)} (h : firstActive python files = .ok profiles) :
    profiles = profilesOf python (firstTrue python files) := by
  induction files with
  | nil =>
    obtain rfl := Except.ok.inj h
    rfl
  | cons file files ih =>
    match file, h with
    | none, h => exact ih h
    | some (.error error), h => cases h
    | some (.ok document), h =>
      have hfile : fileActive python (some (.ok document)) =
          walk (keyParts profilesKey) (loadConfigData python document) := rfl
      rw [firstTrue, hfile]
      simp only [firstActive] at h
      split at h
      · cases h
      · rename_i active hactive
        obtain hwalk | ⟨hempty, hnull⟩ := eq_or_of_candidateActive hactive
        · rw [hwalk]
          split at h
          · rename_i htrue
            obtain rfl := Except.ok.inj h
            rw [if_pos htrue, profilesOf, if_pos htrue]
          · rename_i hfalse
            rw [if_neg hfalse]
            exact ih h
        · rw [hnull]
          rw [hempty] at h
          exact ih h

/-! ## The two lists -/

theorem envKey_profilesKey : envKey python profilesKey = profilesVariable := by
  have hstem : packageStem <+: profilesKey := by decide
  have hascii : ∀ c ∈ "profiles.active".toList, c.toNat < 128 := by decide
  have hbase : profilesKey.drop packageStem.length = "profiles.active".toList := by decide
  delta envKey
  dsimp only
  rw [if_pos hstem, hbase, python.upper_ascii _ hascii]
  decide

variable {environ}

theorem envProfiles_ne_nil_iff : envProfiles environ ≠ [] ↔
      ∃ chars, environ profilesVariable = some chars ∧ chars ≠ [] := by
  rw [envProfiles]
  cases environ profilesVariable with
  | none => simp
  | some chars => simp

variable {startup : Startup σ}

theorem start_cases {app : Installation σ} (h : start python environ app = .ok startup) :
    ∃ profiles, resolveProfilesEarly python environ (findConfigDir app) = .ok profiles ∧
      ((findConfigDir app = none ∧ startup.overlays = [] ∧ startup.config = ⟨app.defaults⟩) ∨
        ∃ dir, findConfigDir app = some dir ∧ startup.overlays = profiles ∧
          fromSources python app.defaults dir profiles = .ok startup.config) := by
  unfold start at h
  split at h
  · cases h
  · rename_i profiles hprofiles
    refine ⟨profiles, hprofiles, ?_⟩
    cases hdir : findConfigDir app with
    | none =>
      simp only [hdir] at h
      obtain rfl := Except.ok.inj h
      exact .inl ⟨rfl, rfl, rfl⟩
    | some dir =>
      simp only [hdir] at h
      cases hsources : fromSources python app.defaults dir profiles with
      | error error =>
        rw [hsources] at h
        cases h
      | ok config =>
        rw [hsources] at h
        obtain rfl := Except.ok.inj h
        exact .inr ⟨dir, rfl, rfl, hsources⟩

theorem overlays_of_start {app : Installation σ} (h : start python environ app = .ok startup)
    (henv : envProfiles environ = []) :
    startup.overlays = profilesOf python (earlyValue python app) := by
  obtain ⟨profiles, hprofiles, ⟨hdir, hoverlays, -⟩ |
    ⟨dir, hdir, hoverlays, -⟩⟩ := start_cases h
  · rw [hoverlays, earlyValue, hdir]
    rfl
  · simp only [resolveProfilesEarly, henv, ne_eq, not_true_eq_false,
      if_false, hdir] at hprofiles
    rw [hoverlays, earlyValue, hdir]
    exact firstActive_eq hprofiles

theorem overlays_of_start_named {app : Installation σ}
    (h : start python environ app = .ok startup)
    (henv : envProfiles environ ≠ []) :
    startup.overlays = if findConfigDir app = none then []
      else profileNames python (envProfiles environ) := by
  obtain ⟨profiles, hprofiles, ⟨hdir, hoverlays, -⟩ |
    ⟨dir, hdir, hoverlays, -⟩⟩ := start_cases h
  · rw [hoverlays, if_pos hdir]
  · have hnamed := Except.ok.inj ((if_pos henv).symm.trans hprofiles)
    rw [hoverlays, if_neg (by simp [hdir]), hnamed]

theorem walk_of_start {app : Installation σ} (h : start python environ app = .ok startup)
    (hsilent : OverlaysSilent python app startup.overlays) :
    walk (keyParts profilesKey) (.dict startup.config.data) = mergedValue python app := by
  have hdefaults : walk (keyParts profilesKey) (.dict app.defaults) = .text [] := by
    rw [walk_eq_overrideWith, app.defaults_active]
    rfl
  obtain ⟨profiles, -, ⟨hdir, -, hconfig⟩ | ⟨dir, hdir, hoverlays, hsources⟩⟩ := start_cases h
  · rw [mergedValue, hdir, hconfig]
    exact hdefaults
  · rw [mergedValue, hdir]
    dsimp only
    rw [← hdefaults]
    exact walk_fromSources hsources (hoverlays ▸ hsilent dir (Option.mem_def.mpr hdir))

theorem loadProfiles_of_named (config : Config σ) (henv : envProfiles environ ≠ []) :
    loadProfiles python environ config = .ok (profileNames python (envProfiles environ)) :=
  if_pos henv

theorem loadProfiles_of_emptied (config : Config σ)
    (henv : environ profilesVariable = some []) :
    loadProfiles python environ config = .ok [] := by
  have hnone : ¬ envProfiles environ ≠ [] := by simp [envProfiles, henv]
  rw [loadProfiles, if_neg hnone, Config.get, envKey_profilesKey, henv]
  rfl

theorem loadProfiles_of_unset (config : Config σ) (henv : environ profilesVariable = none) :
    loadProfiles python environ config = (config.resolved python environ (.text [])
        (walk (keyParts profilesKey) (.dict config.data))).map (profilesOf python) := by
  have hnone : ¬ envProfiles environ ≠ [] := by simp [envProfiles, henv]
  rw [loadProfiles, if_neg hnone, Config.get, envKey_profilesKey, henv]

theorem map_profilesOf_resolved (config : Config σ)
    (h : ∀ chars, value = .text chars → ¬ opening <:+: chars) :
    (config.resolved python environ (.text []) value).map
        (profilesOf python) = .ok (profilesOf python value) := by
  cases value with
  | null => rfl
  | text chars =>
    rw [resolved_text_of_no_opening python environ config _ (h chars rfl)]
    rfl
  | scalar object => rfl
  | dict entries => rfl

section Conditions

variable {app : Installation σ} {config : Config σ}

theorem sameProfiles_iff_of_named (henv : envProfiles environ ≠ []) :
    SameProfiles python environ app config ↔ findConfigDir app ≠ none ∨
        profileNames python (envProfiles environ) = [] := by
  obtain ⟨chars, hchars, hne⟩ := envProfiles_ne_nil_iff.mp henv
  constructor
  · exact fun h => h.named henv
  · refine fun h => ⟨fun _ => h, fun hempty => ?_, fun hnone => ?_, fun hnone => ?_⟩
    · exact (hne (Option.some.inj (hchars.symm.trans hempty))).elim
    · rw [hchars] at hnone
      cases hnone
    · rw [hchars] at hnone
      cases hnone

theorem sameProfiles_iff_of_emptied (henv : environ profilesVariable = some []) :
    SameProfiles python environ app config ↔
      profilesOf python (earlyValue python app) = [] := by
  constructor
  · exact fun h => h.emptied henv
  · refine fun h => ⟨fun hne => ?_, fun _ => h, fun hnone => ?_, fun hnone => ?_⟩
    · exact (hne (by simp [envProfiles, henv])).elim
    · rw [henv] at hnone
      cases hnone
    · rw [henv] at hnone
      cases hnone

theorem sameProfiles_iff_of_unset (henv : environ profilesVariable = none) :
    SameProfiles python environ app config ↔
      (config.resolved python environ (.text []) (mergedValue python app)).map
        (profilesOf python) = .ok (profilesOf python (earlyValue python app)) := by
  have hunset (P : Prop) : envProfiles environ ≠ [] → P := fun hne =>
    (hne (by simp [envProfiles, henv])).elim
  have hset (P : Prop) : environ profilesVariable = some [] → P := by
    intro hempty
    rw [henv] at hempty
    cases hempty
  by_cases hplain : ∀ chars, mergedValue python app = .text chars → ¬ opening <:+: chars
  · rw [map_profilesOf_resolved config hplain, Except.ok.injEq]
    constructor
    · exact fun h => h.configured henv hplain
    · exact fun h => ⟨hunset _, hset _, fun _ _ => h, fun _ chars hchars hopening =>
          (hplain chars hchars hopening).elim⟩
  · push Not at hplain
    obtain ⟨chars, hchars, hopening⟩ := hplain
    rw [hchars, resolved_text_of_opening python environ config _ hopening]
    constructor
    · intro h
      obtain ⟨names, hnames, hprofiles⟩ :=
        h.resolved henv chars hchars hopening
      rw [hnames, ← hprofiles]
      rfl
    · intro h
      refine ⟨hunset _, hset _, fun _ hplain => ?_, fun _ chars' hchars' _ => ?_⟩
      · exact (hplain chars hchars hopening).elim
      · obtain rfl := Value.text.inj (hchars.symm.trans hchars')
        cases hnames : config.resolvePlaceholders python environ maxLevels chars with
        | error error =>
          rw [hnames] at h
          cases h
        | ok names =>
          rw [hnames] at h
          exact ⟨names, rfl, Except.ok.inj h⟩

end Conditions

/-- The application loads its overlays for the active profiles, if and only if
the conditions hold. -/
theorem loadProfiles_eq_overlays_iff {app : Installation σ}
    {startup : Startup σ} (h : start python environ app = .ok startup)
    (hsilent : OverlaysSilent python app startup.overlays) :
    loadProfiles python environ startup.config = .ok startup.overlays ↔
      SameProfiles python environ app startup.config := by
  by_cases henv : envProfiles environ = []
  · rw [overlays_of_start h henv]
    cases hvar : environ profilesVariable with
    | none =>
      rw [loadProfiles_of_unset startup.config hvar,
        walk_of_start h hsilent, sameProfiles_iff_of_unset hvar]
    | some chars =>
      obtain rfl : chars = [] := by simpa [envProfiles, hvar] using henv
      rw [loadProfiles_of_emptied startup.config hvar,
        sameProfiles_iff_of_emptied hvar, Except.ok.injEq]
      exact eq_comm
  · rw [loadProfiles_of_named startup.config henv,
      overlays_of_start_named h henv, sameProfiles_iff_of_named henv]
    cases findConfigDir app with
    | none => simp
    | some dir => simp

/-! ## Two YAML files -/

def activeDocument (names : List Char) : Document ℕ where
  value := .dict [("pyfly".toList,
    .dict [("profiles".toList, .dict [("active".toList, .text names)])])]
  keys_distinct := by simp [KeysDistinct, EntriesDistinct]

def yamlProject (inConfig inRoot : List Char) : Installation ℕ where
  configPath := none
  workingDir :=
    { base := fun
        | .config, .yaml => some (.ok (activeDocument inConfig))
        | .root, .yaml => some (.ok (activeDocument inRoot))
        | _, .toml => none
      overlay := fun _ _ _ => none }
  defaults := entriesOf (activeDocument []).value
  defaults_active := rfl

def yamlStartup (inConfig inRoot : List Char) : Startup ℕ where
  overlays := [inConfig]
  config := ⟨entriesOf (activeDocument inRoot).value⟩

theorem overlaysSilent_yamlProject (inConfig inRoot : List Char) (profiles : List (List Char)) :
    OverlaysSilent plainPython (yamlProject inConfig inRoot) profiles := by
  intro dir hdir profile _ file hfile
  obtain rfl : (yamlProject inConfig inRoot).workingDir = dir :=
    Option.some.inj (Option.mem_def.mp hdir)
  have hnone : file = none := by
    simpa [candidates, yamlProject] using hfile
  rw [hnone]
  rfl


/-- The active profiles of a project which sets them twice to the same
names. -/
theorem loadProfiles_eq_overlays_iff_dev : loadProfiles plainPython (fun _ => none)
        (yamlStartup "dev".toList "dev".toList).config = .ok ["dev".toList] ↔
      SameProfiles plainPython (fun _ => none) (yamlProject "dev".toList "dev".toList)
        (yamlStartup "dev".toList "dev".toList).config :=
  have hstart : start plainPython (fun _ => none) (yamlProject "dev".toList "dev".toList) =
        .ok (yamlStartup "dev".toList "dev".toList) := rfl
  loadProfiles_eq_overlays_iff hstart (overlaysSilent_yamlProject _ _ _)

/-- `config/pyfly.yaml` activates `dev`, `pyfly.yaml` activates `prod`: the
overlays of `dev` are loaded, the beans of `prod` are kept. -/
theorem loadProfiles_ne_overlays_prod : start plainPython (fun _ => none)
        (yamlProject "dev".toList "prod".toList) =
      .ok (yamlStartup "dev".toList "prod".toList) ∧
    OverlaysSilent plainPython (yamlProject "dev".toList "prod".toList)
      (yamlStartup "dev".toList "prod".toList).overlays ∧
    loadProfiles plainPython (fun _ => none) (yamlStartup "dev".toList "prod".toList).config ≠
      .ok (yamlStartup "dev".toList "prod".toList).overlays := by
  refine ⟨rfl, overlaysSilent_yamlProject _ _ _, ?_⟩
  decide

end PyFly.Core
