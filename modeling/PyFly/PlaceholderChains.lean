import Mathlib.Logic.Relation
import PyFly.ConfigBinding
import PyFly.Library.FallibleMaps

/-!
# Chains of placeholders

A placeholder refers to a value of the configuration unless a variable of the
environment has its name.  The value is read as it stands, so that chains of
references are followed up to the depth which the guard allows.
-/

namespace PyFly.Core.Config

open Library

variable {σ : Type} (python : Python σ) (environ : Environ)
variable (config : Config σ)

/-! ## References -/

def reference? (inner : List Char) : Option (List Char) :=
  match environ (splitDefault inner).1 with
  | some _ => none
  | none =>
    match walk (keyParts (splitDefault inner).1) (.dict config.data) with
    | .null => none
    | current =>
      if opening <:+: strOf python current then
        some (strOf python current)
      else none

def Dangles (inner : List Char) : Prop :=
  environ (splitDefault inner).1 = none ∧
    walk (keyParts (splitDefault inner).1) (.dict config.data) = .null ∧
      (splitDefault inner).2 = none

def RefersTo (value other : List Char) : Prop :=
  ∃ inner ∈ placeholder.findAll value, config.reference? python environ inner = some other

def Dangling (value : List Char) : Prop :=
  ∃ inner ∈ placeholder.findAll value, config.Dangles environ inner

/-- A number of references, one after the other. -/
inductive Chain : ℕ → List Char → List Char → Prop
  | done (value : List Char) : Chain 0 value value
  | step {n : ℕ} {value next last : List Char}
      (hrefers : config.RefersTo python environ value next)
      (hrest : Chain n next last) : Chain (n + 1) value last

structure Substitutes (inner text : List Char) : Prop where
  fromEnviron : ∀ value, environ (splitDefault inner).1 = some value → text = value
  fromConfig : environ (splitDefault inner).1 = none →
    walk (keyParts (splitDefault inner).1) (.dict config.data) ≠ .null →
      ∀ current, current = strOf python
          (walk (keyParts (splitDefault inner).1) (.dict config.data)) →
        (¬ opening <:+: current → text = current) ∧
        (opening <:+: current →
          config.resolvePlaceholders python environ maxLevels current = .ok text)
  fromDefault : environ (splitDefault inner).1 = none →
    walk (keyParts (splitDefault inner).1) (.dict config.data) = .null →
      (splitDefault inner).2 = some text

/-! ## One level -/

variable {python environ config}

section Replacement

variable {deeper : List Char → Except PyError (List Char)} {inner : List Char}

theorem replacement_of_variable {value : List Char}
    (hvalue : environ (splitDefault inner).1 = some value) :
    config.replacement python environ deeper inner = .ok value := by
  unfold replacement
  dsimp only
  rw [hvalue]

theorem replacement_of_missing (hvalue : environ (splitDefault inner).1 = none)
    (hwalk : walk (keyParts (splitDefault inner).1) (.dict config.data) = .null) :
    config.replacement python environ deeper inner = match (splitDefault inner).2 with
      | some value => .ok value
      | none => .error (unresolved inner) := by
  unfold replacement
  dsimp only
  cases (splitDefault inner).2 with
  | none => rw [hvalue, hwalk]
  | some value => rw [hvalue, hwalk]

theorem replacement_of_configured (hvalue : environ (splitDefault inner).1 = none)
    (hwalk : walk (keyParts (splitDefault inner).1) (.dict config.data) ≠ .null) :
    config.replacement python environ deeper inner = if opening <:+: strOf python
          (walk (keyParts (splitDefault inner).1) (.dict config.data)) then
        deeper (strOf python (walk (keyParts (splitDefault inner).1) (.dict config.data)))
      else .ok (strOf python (walk (keyParts (splitDefault inner).1) (.dict config.data))) := by
  unfold replacement
  dsimp only
  rw [hvalue]
  generalize walk (keyParts (splitDefault inner).1) (.dict config.data) = current at hwalk ⊢
  cases current with
  | null => exact absurd rfl hwalk
  | text chars => rfl
  | scalar object => rfl
  | dict entries => rfl

end Replacement

theorem replacement_error_iff
    {deeper : List Char → Except PyError (List Char)} {inner : List Char} :
    (∃ error, config.replacement python environ deeper inner = .error error) ↔
      config.Dangles environ inner ∨
        ∃ other, config.reference? python environ inner = some other ∧
          ∃ error, deeper other = .error error := by
  unfold replacement reference? Dangles
  dsimp only
  cases environ (splitDefault inner).1 with
  | some value => simp
  | none =>
    dsimp only
    cases hwalk : walk (keyParts (splitDefault inner).1) (.dict config.data) with
    | null => cases (splitDefault inner).2 <;> simp
    | text chars =>
      by_cases hopen : opening <:+: strOf python (.text chars : Value σ)
      · simp [hopen]
      · simp [hopen]
    | scalar object =>
      by_cases hopen : opening <:+: strOf python (.scalar object)
      · simp [hopen]
      · simp [hopen]
    | dict entries =>
      by_cases hopen : opening <:+: strOf python (.dict entries)
      · simp [hopen]
      · simp [hopen]

variable {levels : ℕ} {value : List Char}

theorem resolvePlaceholders_error_iff :
    (∃ error, config.resolvePlaceholders python environ (levels + 1) value = .error error) ↔
      config.Dangling environ value ∨ ∃ other, config.RefersTo python environ value other ∧
          ∃ error, config.resolvePlaceholders python environ levels other = .error error := by
  have hlevel : (∃ error, config.resolvePlaceholders python environ
      (levels + 1) value = .error error) ↔ ∃ inner ∈ placeholder.findAll value, ∃ error,
          config.replacement python environ
            (config.resolvePlaceholders python environ levels) inner = .error error := by
    rw [← mapM_error_iff, resolvePlaceholders]
    cases (placeholder.findAll value).mapM (config.replacement python environ
        (config.resolvePlaceholders python environ levels)) with
    | error error => exact iff_of_true ⟨error, rfl⟩ ⟨error, rfl⟩
    | ok values =>
      constructor
      · rintro ⟨error, h⟩
        cases h
      · rintro ⟨error, h⟩
        cases h
  rw [hlevel]
  constructor
  · rintro ⟨inner, hinner, herror⟩
    rcases replacement_error_iff.mp herror with hdangles | ⟨other, h, herror⟩
    · exact .inl ⟨inner, hinner, hdangles⟩
    · exact .inr ⟨other, ⟨inner, hinner, h⟩, herror⟩
  · rintro (⟨inner, hinner, hdangles⟩ | ⟨other, ⟨inner, hinner, h⟩, herror⟩)
    · exact ⟨inner, hinner, replacement_error_iff.mpr (.inl hdangles)⟩
    · exact ⟨inner, hinner, replacement_error_iff.mpr (.inr ⟨other, h, herror⟩)⟩

/-! ## All levels -/

theorem error_iff_chain :
    (∃ error, config.resolvePlaceholders python environ levels value = .error error) ↔
      (∃ last, config.Chain python environ levels value last) ∨
        ∃ n < levels, ∃ last, config.Chain python environ n value last ∧
          config.Dangling environ last := by
  induction levels generalizing value with
  | zero => exact iff_of_true ⟨_, rfl⟩ (.inl ⟨value, .done value⟩)
  | succ levels ih =>
    rw [resolvePlaceholders_error_iff]
    constructor
    · rintro (hdangling | ⟨other, hrefers, herror⟩)
      · exact .inr ⟨0, Nat.succ_pos levels, value, .done value, hdangling⟩
      · rcases ih.mp herror with ⟨last, hchain⟩ | ⟨n, hn, last, hchain, hend⟩
        · exact .inl ⟨last, .step hrefers hchain⟩
        · exact .inr ⟨n + 1, Nat.succ_lt_succ hn, last, .step hrefers hchain, hend⟩
    · rintro (⟨last, hchain⟩ | ⟨n, hn, last, hchain, hend⟩)
      · cases hchain with
        | @step _ _ other _ hrefers hrest =>
          exact .inr ⟨other, hrefers, ih.mpr (.inl ⟨last, hrest⟩)⟩
      · cases hchain with
        | done value => exact .inl hend
        | @step n _ other _ hrefers hrest =>
          exact .inr ⟨other, hrefers, ih.mpr
            (.inr ⟨n, Nat.lt_of_succ_lt_succ hn, last, hrest, hend⟩)⟩

variable {last : List Char}

theorem Chain.reaches {n : ℕ} (h : config.Chain python environ n value last) :
    Relation.ReflTransGen (config.RefersTo python environ) value last := by
  induction h with
  | done value => exact .refl
  | step hrefers _ ih => exact ih.head hrefers

theorem exists_chain_of_reaches
    (h : Relation.ReflTransGen (config.RefersTo python environ) value last) :
    ∃ n, config.Chain python environ n value last := by
  induction h using Relation.ReflTransGen.head_induction_on with
  | refl => exact ⟨0, .done last⟩
  | head hrefers _ ih =>
    obtain ⟨n, hchain⟩ := ih
    exact ⟨n + 1, .step hrefers hchain⟩

theorem Chain.shorten {n m : ℕ} (h : config.Chain python environ n value last) (hle : m ≤ n) :
    ∃ other, config.Chain python environ m value other := by
  induction h generalizing m with
  | done value =>
    obtain rfl := Nat.le_zero.mp hle
    exact ⟨value, .done value⟩
  | @step n value next last hrefers _ ih =>
    cases m with
    | zero => exact ⟨value, .done value⟩
    | succ m =>
      obtain ⟨other, hchain⟩ := ih (Nat.le_of_succ_le_succ hle)
      exact ⟨other, .step hrefers hchain⟩

theorem exists_chain_of_circular {circular : List Char}
    (hcycle : Relation.TransGen (config.RefersTo python environ) circular circular) (n : ℕ)
    (h : Relation.TransGen (config.RefersTo python environ) value circular) :
    ∃ last, config.Chain python environ n value last := by
  induction n generalizing value with
  | zero => exact ⟨value, .done value⟩
  | succ n ih =>
    obtain ⟨next, hrefers, hrest⟩ := Relation.TransGen.head'_iff.mp h
    obtain ⟨last, hchain⟩ := ih (Relation.TransGen.trans_right hrest hcycle)
    exact ⟨last, .step hrefers hchain⟩

theorem error_iff_reaches :
    (∃ error, config.resolvePlaceholders python environ maxLevels value = .error error) ↔
      (∃ last, Relation.ReflTransGen (config.RefersTo python environ) value
          last ∧ config.Dangling environ last) ∨
        (∃ last, Relation.ReflTransGen (config.RefersTo python environ) value
          last ∧ Relation.TransGen (config.RefersTo python environ) last last) ∨
        ∃ last, config.Chain python environ maxLevels value last := by
  rw [error_iff_chain]
  constructor
  · rintro (hlong | ⟨n, -, last, hchain, hend⟩)
    · exact .inr (.inr hlong)
    · exact .inl ⟨last, hchain.reaches, hend⟩
  · rintro (⟨last, hreaches, hend⟩ | ⟨last, hreaches, hcycle⟩ | hlong)
    · obtain ⟨n, hchain⟩ := exists_chain_of_reaches hreaches
      rcases Nat.lt_or_ge n maxLevels with hn | hn
      · exact .inr ⟨n, hn, last, hchain, hend⟩
      · exact .inl (hchain.shorten hn)
    · exact .inl (exists_chain_of_circular hcycle maxLevels
        (Relation.TransGen.trans_right hreaches hcycle))
    · exact .inl hlong

/-! ## The text -/

variable {text : List Char}

theorem resolvePlaceholders_eq_ok_iff :
    config.resolvePlaceholders python environ (levels + 1) value = .ok text ↔
      ∃ shown : List Char → List Char, text = placeholder.sub shown value ∧
        ∀ inner ∈ placeholder.findAll value, config.replacement python environ
            (config.resolvePlaceholders python environ levels) inner = .ok (shown inner) := by
  rw [resolvePlaceholders]
  cases hitems : (placeholder.findAll value).mapM (config.replacement python environ
        (config.resolvePlaceholders python environ levels)) with
  | error error =>
    obtain ⟨inner, hinner, other, herror⟩ := mapM_error_iff.mp ⟨error, hitems⟩
    constructor
    · intro h
      cases h
    · rintro ⟨shown, -, hshown⟩
      rw [hshown inner hinner] at herror
      cases herror
  | ok values =>
    constructor
    · intro h
      obtain rfl := Except.ok.inj h
      refine ⟨_, rfl, ?_⟩
      intro inner hinner
      obtain ⟨shown, hshown⟩ := exists_ok_of_mapM hitems hinner
      rw [hshown]
      rfl
    · rintro ⟨shown, rfl, hshown⟩
      refine congrArg Except.ok (Pattern.subFrom_congr ?_)
      intro inner hinner
      rw [hshown inner hinner]
      rfl

theorem replacement_mono {deeper deepest : List Char → Except PyError (List Char)}
    (hdeeper : ∀ value text, deeper value = .ok text →
      deepest value = .ok text) {inner : List Char}
    (h : config.replacement python environ deeper inner = .ok text) :
    config.replacement python environ deepest inner = .ok text := by
  cases hvalue : environ (splitDefault inner).1 with
  | some value =>
    rw [replacement_of_variable hvalue] at h ⊢
    exact h
  | none =>
    by_cases hwalk : walk (keyParts (splitDefault inner).1) (.dict config.data) = .null
    · rw [replacement_of_missing hvalue hwalk] at h ⊢
      exact h
    · rw [replacement_of_configured hvalue hwalk] at h ⊢
      split at h
      · next hopen =>
          rw [if_pos hopen]
          exact hdeeper _ _ h
      · next hopen =>
          rw [if_neg hopen]
          exact h

theorem error_isValueError {error : PyError}
    (h : config.resolvePlaceholders python environ levels value =
      .error error) : ∃ message, error = .valueError message := by
  induction levels generalizing value error with
  | zero => exact ⟨_, (Except.error.inj h).symm⟩
  | succ levels ih =>
    rw [resolvePlaceholders] at h
    split at h
    · next other hitems =>
        obtain rfl := Except.error.inj h
        obtain ⟨inner, -, herror⟩ := exists_error_of_mapM hitems
        cases hvalue : environ (splitDefault inner).1 with
        | some value =>
          rw [replacement_of_variable hvalue] at herror
          cases herror
        | none =>
          by_cases hwalk : walk (keyParts (splitDefault inner).1) (.dict config.data) = .null
          · rw [replacement_of_missing hvalue hwalk] at herror
            split at herror
            · cases herror
            · exact ⟨_, (Except.error.inj herror).symm⟩
          · rw [replacement_of_configured hvalue hwalk] at herror
            split at herror
            · exact ih herror
            · cases herror
    · cases h

theorem resolvePlaceholders_mono {more : ℕ} (hle : levels ≤ more)
    (h : config.resolvePlaceholders python environ levels value = .ok text) :
    config.resolvePlaceholders python environ more value = .ok text := by
  induction levels generalizing more value text with
  | zero => cases h
  | succ levels ih =>
    obtain ⟨more, rfl⟩ := Nat.exists_eq_add_of_le' (Nat.lt_of_lt_of_le
      (Nat.succ_pos levels) hle)
    obtain ⟨shown, htext, hshown⟩ := resolvePlaceholders_eq_ok_iff.mp h
    refine resolvePlaceholders_eq_ok_iff.mpr ⟨shown, htext, ?_⟩
    intro inner hinner
    refine replacement_mono ?_ (hshown inner hinner)
    intro other shown
    exact ih (Nat.le_of_succ_le_succ hle)

theorem substitutes_of_replacement (hlevels : levels ≤ maxLevels)
    {inner : List Char} (h : config.replacement python environ
      (config.resolvePlaceholders python environ levels) inner = .ok text) :
    config.Substitutes python environ inner text where
  fromEnviron := by
    intro value hvalue
    rw [replacement_of_variable hvalue] at h
    exact (Except.ok.inj h).symm
  fromConfig := by
    rintro hvalue hwalk current rfl
    rw [replacement_of_configured hvalue hwalk] at h
    constructor
    · intro hopen
      rw [if_neg hopen] at h
      exact (Except.ok.inj h).symm
    · intro hopen
      rw [if_pos hopen] at h
      exact resolvePlaceholders_mono hlevels h
  fromDefault := by
    intro hvalue hwalk
    rw [replacement_of_missing hvalue hwalk] at h
    split at h
    · next hdefault => rw [hdefault, Except.ok.inj h]
    · cases h

/-- Where neither variable is set, a text is shown as `get` returns it. -/
theorem Substitutes.get_eq {inner : List Char}
    (h : config.Substitutes python environ inner text)
    (hvalue : environ (splitDefault inner).1 = none)
    (hoverride : environ (envKey python (splitDefault inner).1) = none)
    {chars : List Char}
    (hwalk : walk (keyParts (splitDefault inner).1) (.dict config.data) =
      .text chars) (default : Value σ) :
    config.get python environ (splitDefault inner).1 default = .ok (.text text) := by
  have hne : walk (keyParts (splitDefault inner).1) (.dict config.data) ≠ .null := by
    intro hnull
    rw [hwalk] at hnull
    cases hnull
  obtain ⟨hplain, hresolved⟩ := h.fromConfig hvalue hne chars (by rw [hwalk]; rfl)
  rw [get, hoverride]
  dsimp only
  rw [hwalk]
  by_cases hopen : opening <:+: chars
  · rw [resolved_text_of_opening _ _ _ _ hopen, hresolved hopen]
    rfl
  · rw [resolved_text_of_no_opening _ _ _ _ hopen, hplain hopen]

/-- Placeholders are resolved unless a chain of references is circular, is
longer than the guard allows or ends at nothing. -/
theorem resolvePlaceholders_resolves (python : Python σ) (environ : Environ)
    (config : Config σ) (value : List Char) :
    ((∃ error, config.resolvePlaceholders python environ maxLevels value = .error error) ↔
      (∃ last, Relation.ReflTransGen (config.RefersTo python environ) value
          last ∧ config.Dangling environ last) ∨
        (∃ last, Relation.ReflTransGen (config.RefersTo python environ) value
          last ∧ Relation.TransGen (config.RefersTo python environ) last last) ∨
        ∃ last, config.Chain python environ maxLevels value last) ∧
    (∀ error, config.resolvePlaceholders python environ maxLevels value =
        .error error → ∃ message, error = .valueError message) ∧
    ∀ text, config.resolvePlaceholders python environ maxLevels value = .ok text →
      ∃ shown : List Char → List Char, text = placeholder.sub shown value ∧
        ∀ inner ∈ placeholder.findAll value,
          config.Substitutes python environ inner (shown inner) ∧
          (environ (splitDefault inner).1 = none →
            environ (envKey python (splitDefault inner).1) = none →
            ∀ chars, walk (keyParts (splitDefault inner).1) (.dict config.data) = .text chars →
              ∀ default, config.get python environ (splitDefault inner).1
                default = .ok (.text (shown inner))) := by
  refine ⟨error_iff_reaches, fun error => error_isValueError, ?_⟩
  intro text h
  obtain ⟨shown, htext, hshown⟩ := resolvePlaceholders_eq_ok_iff.mp h
  refine ⟨shown, htext, ?_⟩
  intro inner hinner
  have hsubstitutes := substitutes_of_replacement (Nat.le_succ 10) (hshown inner hinner)
  exact ⟨hsubstitutes, fun hvalue hoverride _ hwalk =>
    hsubstitutes.get_eq hvalue hoverride hwalk⟩

/-! ## A long chain and an override -/

def spelled (c : Char) : List Char :=
  opening ++ [c, '}']

def chainLetters : List Char :=
  "abcdefghijkl".toList

def longChain : Config ℕ where
  data := (chainLetters.zip chainLetters.tail).map (fun pair =>
    ([pair.1], .text (spelled pair.2))) ++ [(['l'], .text ['x'])]

def emptyEnviron : Environ :=
  fun _ => none

def chainTexts : List (List Char) :=
  chainLetters.map spelled

theorem chainTexts_refer : ∀ value ∈ chainTexts, ∀ inner ∈ placeholder.findAll value,
      ∀ other ∈ longChain.reference? plainPython emptyEnviron inner, other ∈ chainTexts ∧
          chainTexts.idxOf value < chainTexts.idxOf other := by
  decide +kernel

theorem chainTexts_found : ∀ value ∈ chainTexts, ∀ inner ∈ placeholder.findAll value,
      (longChain.replacement plainPython emptyEnviron
        (fun _ => .ok []) inner).toOption.isSome := by
  decide +kernel

theorem resolve_longChain : (longChain.resolvePlaceholders plainPython emptyEnviron maxLevels
      (spelled 'a')).toOption = none := by
  decide +kernel

theorem mem_chainTexts (h : Relation.ReflTransGen
      (longChain.RefersTo plainPython emptyEnviron) (spelled 'a') last) :
    last ∈ chainTexts := by
  induction h with
  | refl => exact List.mem_cons_self
  | tail _ hrefers ih =>
    obtain ⟨inner, hinner, href⟩ := hrefers
    exact (chainTexts_refer _ ih inner hinner _ href).1

theorem idxOf_lt_of_transGen {first : List Char} (hfirst : first ∈ chainTexts)
    (h : Relation.TransGen (longChain.RefersTo plainPython emptyEnviron) first last) :
    last ∈ chainTexts ∧ chainTexts.idxOf first < chainTexts.idxOf last := by
  induction h with
  | single hrefers =>
    obtain ⟨inner, hinner, href⟩ := hrefers
    exact chainTexts_refer _ hfirst inner hinner _ href
  | tail _ hrefers ih =>
    obtain ⟨inner, hinner, href⟩ := hrefers
    have hnext := chainTexts_refer _ ih.1 inner hinner _ href
    exact ⟨hnext.1, ih.2.trans hnext.2⟩

/-- `PYFLY_APP` is set. -/
def overrideEnviron : Environ := fun name =>
  if name = "PYFLY_APP".toList then some ['y'] else none

def appConfig : Config ℕ where
  data := [("app".toList, .text ['x'])]

/-- A chain of references which ends is too long for the guard, and a
placeholder does not read the variable which overrides its key. -/
theorem not_resolves_as_get : (¬ ∀ (environ : Environ) (config : Config ℕ) (value : List Char),
      (∃ error, config.resolvePlaceholders plainPython environ maxLevels value = .error error) ↔
        (∃ last, Relation.ReflTransGen (config.RefersTo plainPython environ) value last ∧
          config.Dangling environ last) ∨
        ∃ last, Relation.ReflTransGen (config.RefersTo plainPython environ) value last ∧
          Relation.TransGen (config.RefersTo plainPython environ) last last) ∧
    ¬ ∀ (environ : Environ) (config : Config ℕ) (key text : List Char) (current : Value ℕ),
      config.resolvePlaceholders plainPython environ maxLevels
          (opening ++ key ++ ['}']) = .ok text →
        config.get plainPython environ key .null = .ok current →
          text = strOf plainPython current := by
  constructor
  · intro h
    have herror : ∃ error, longChain.resolvePlaceholders plainPython
        emptyEnviron maxLevels (spelled 'a') = .error error := by
      cases hresolve : longChain.resolvePlaceholders plainPython
          emptyEnviron maxLevels (spelled 'a') with
      | error error => exact ⟨error, rfl⟩
      | ok text =>
        have hnone := resolve_longChain
        rw [hresolve] at hnone
        cases hnone
    rcases (h emptyEnviron longChain (spelled 'a')).mp herror with
      ⟨last, hreaches, inner, hinner, hdangles⟩ | ⟨last, hreaches, hcycle⟩
    · obtain ⟨error, hreplace⟩ := replacement_error_iff.mpr
        (.inl hdangles : _ ∨ ∃ other, _ ∧ ∃ error,
          (fun _ => .ok [] : List Char → Except PyError (List Char)) other = .error error)
      have hfound := chainTexts_found last (mem_chainTexts hreaches) inner hinner
      rw [hreplace] at hfound
      cases hfound
    · exact Nat.lt_irrefl _ (idxOf_lt_of_transGen (mem_chainTexts hreaches) hcycle).2
  · intro h
    have hkey : envKey plainPython "app".toList = "PYFLY_APP".toList := by
      decide
    have hget : appConfig.get plainPython overrideEnviron "app".toList
        .null = .ok (.text ['y']) := by
      rw [get, hkey]
      rfl
    have htext := h overrideEnviron appConfig "app".toList ['x'] _ (by decide +kernel) hget
    exact absurd htext (by decide)

end PyFly.Core.Config
