import Mathlib.Data.Fintype.Card
import Mathlib.Data.List.FinRange
import Mathlib.Data.List.NodupEquivFin
import Mathlib.Logic.Equiv.Fin.Basic
import PyFly.Library.InsertionDict
import PyFly.Library.IntegerText
import PyFly.Library.Placeholders

/-!
# Message bundles

A message is looked up under the dotted keys of the flattened tree of its
locale, then of the default locale.  The arguments are put into the growing
text one after the other.
-/

namespace PyFly.I18n

open Library Library.Placeholders List

variable {V : Type}

/-! ## Flattening -/

inductive Messages (V : Type)
  | empty
  | message (key : List Char) (value : V) (rest : Messages V)
  | group (key : List Char) (entries : Messages V) (rest : Messages V)
  deriving DecidableEq, Repr

abbrev Bundle := Dict (List Char) (List Char)

def fullKey (before key : List Char) : List Char :=
  if before = [] then before ++ key else before ++ '.' :: key

/-- The loop of `_flatten` over the entries, with the items so far. -/
def flattenInto (str : V → List Char) : Messages V → List Char → Bundle → Bundle
  | .empty, _, items => items
  | .message key value rest, before, items =>
    flattenInto str rest before (items.set (fullKey before key) (str value))
  | .group key entries rest, before, items =>
    flattenInto str rest before
      (items.update (flattenInto str entries (fullKey before key) .empty))

def flatten (str : V → List Char) (data : Messages V) : Bundle :=
  flattenInto str data [] .empty

namespace Messages

def leaves : Messages V → List (List (List Char) × V)
  | .empty => []
  | .message key value rest => ([key], value) :: rest.leaves
  | .group key entries rest =>
    (entries.leaves.map fun leaf => (key :: leaf.1, leaf.2)) ++ rest.leaves

end Messages

def dotted (before : List Char) (path : List (List Char)) : List Char :=
  path.foldl fullKey before

def Messages.under (data : Messages V) (before code : List Char) : Option V :=
  (data.leaves.filter fun leaf => dotted before leaf.1 = code).getLast?.map Prod.snd

theorem Messages.under_message (key : List Char) (value : V)
    (rest : Messages V) (before code : List Char) :
    (Messages.message key value rest).under before code = (rest.under before code).or
        (if fullKey before key = code then some value else none) := by
  have hleaves : (Messages.message key value rest).leaves =
      [([key], value)] ++ rest.leaves := rfl
  have hdotted : dotted before [key] = fullKey before key := rfl
  rw [under, hleaves, filter_append, List.getLast?_append, Option.map_or]
  refine congrArg (Option.or _) ?_
  by_cases hkey : fullKey before key = code
  · simp [hdotted, hkey]
  · simp [hdotted, hkey]

theorem Messages.under_group (key : List Char) (entries rest : Messages V)
    (before code : List Char) :
    (Messages.group key entries rest).under before code = (rest.under before code).or
        (entries.under (fullKey before key) code) := by
  have hleaves : (Messages.group key entries rest).leaves =
      (entries.leaves.map fun leaf => (key :: leaf.1, leaf.2)) ++ rest.leaves :=
    rfl
  rw [under, hleaves, filter_append, List.getLast?_append, Option.map_or,
    filter_map, List.getLast?_map, Option.map_map]
  rfl

theorem get?_flattenInto (str : V → List Char) (data : Messages V)
    (before code : List Char) (items : Bundle) :
    (flattenInto str data before items).get? code =
      ((data.under before code).map str).or (items.get? code) := by
  induction data generalizing before items with
  | empty => rfl
  | message key value rest ih =>
    rw [flattenInto, ih, Messages.under_message, Option.map_or, Option.or_assoc]
    refine congrArg (Option.or _) ?_
    by_cases hkey : fullKey before key = code
    · subst hkey
      rw [Dict.get?_set_self, if_pos rfl]
      rfl
    · rw [Dict.get?_set_of_ne (Ne.symm hkey), if_neg hkey]
      rfl
  | group key entries rest ihentries ihrest =>
    rw [flattenInto, ihrest, Dict.get?_update, ihentries,
      Messages.under_group, Option.map_or, Option.or_assoc, Dict.get?_empty,
      Option.none_or, Option.or_assoc]

theorem get?_flatten (str : V → List Char) (data : Messages V) (code : List Char) :
    (flatten str data).get? code = (data.under [] code).map str := by
  rw [flatten, get?_flattenInto, Dict.get?_empty, Option.or_none]

/-! ## The message source -/

inductive Extension
  | yaml
  | yml
  | json
  deriving DecidableEq, Repr

/-- The files `messages_{locale}` under the base path with what was parsed from
them, and the default locale. -/
structure Resources (V : Type) where
  file : Extension → List Char → Option (Messages V)
  defaultLocale : List Char

namespace Resources

variable (resources : Resources V)

def tree (locale : List Char) : Messages V :=
  match resources.file .yaml locale with
  | some data => data
  | none =>
    match resources.file .yml locale with
    | some data => data
    | none => (resources.file .json locale).getD .empty

def message (code locale : List Char) : Option V :=
  ((resources.tree locale).under [] code).or
    ((resources.tree resources.defaultLocale).under [] code)

end Resources

structure MessageSource (resources : Resources V) (str : V → List Char) where
  cache : Dict (List Char) Bundle
  cached : ∀ locale bundle, cache.get? locale = some bundle →
    bundle = flatten str (resources.tree locale)

inductive MessageError
  | keyError (message : List Char)
  deriving DecidableEq, Repr

def placeholder (idx : ℕ) : List Char :=
  '{' :: (renderNat idx ++ ['}'])

def substitute (str : V → List Char) (template : List Char) (args : List V) : List Char :=
  args.zipIdx.foldl
    (fun result item => replaceAll (placeholder item.2) (str item.1) result)
    template

namespace MessageSource

variable {resources : Resources V} {str : V → List Char}

def initial : MessageSource resources str where
  cache := .empty
  cached := by simp

def loadBundle (source : MessageSource resources str) (locale : List Char) :
    Bundle × MessageSource resources str :=
  match source.cache.get? locale with
  | some bundle => (bundle, source)
  | none =>
    let messages := flatten str (resources.tree locale)
    (messages,
      { cache := source.cache.set locale messages
        cached := by
          intro other bundle h
          by_cases hother : other = locale
          · subst hother
            rw [Dict.get?_set_self] at h
            exact (Option.some.inj h).symm
          · rw [Dict.get?_set_of_ne hother] at h
            exact source.cached other bundle h })

def keyErrorText (code locale : List Char) : List Char :=
  "No message found for code '".toList ++ code ++ "' in locale '".toList ++ locale ++ ['\'']

def getMessage (source : MessageSource resources str) (code : List Char)
    (args : List V) (locale : List Char) :
    Except MessageError (List Char) × MessageSource resources str :=
  let (bundle, source) := source.loadBundle locale
  let template := bundle.get? code
  let (template, source) :=
    if template = none ∧ locale ≠ resources.defaultLocale then
      let (bundle, source) := source.loadBundle resources.defaultLocale
      (bundle.get? code, source)
    else (template, source)
  match template with
  | none => (.error (.keyError (keyErrorText code locale)), source)
  | some template => (.ok (substitute str template args), source)

theorem loadBundle_fst (source : MessageSource resources str) (locale : List Char) :
    (source.loadBundle locale).1 = flatten str (resources.tree locale) := by
  unfold loadBundle
  split
  · next bundle h => exact source.cached locale bundle h
  · rfl

theorem getMessage_fst (source : MessageSource resources str)
    (code : List Char) (args : List V) (locale : List Char) :
    (source.getMessage code args locale).1 = match resources.message code locale with
      | none => .error (.keyError (keyErrorText code locale))
      | some template => .ok (substitute str (str template) args) := by
  have hfirst : (source.loadBundle locale).1.get? code =
      ((resources.tree locale).under [] code).map str := by
    rw [loadBundle_fst, get?_flatten]
  have hsecond (source : MessageSource resources str) :
      (source.loadBundle resources.defaultLocale).1.get? code =
        ((resources.tree resources.defaultLocale).under [] code).map str := by
    rw [loadBundle_fst, get?_flatten]
  unfold getMessage Resources.message
  simp only [hfirst, hsecond]
  cases hlocale : (resources.tree locale).under [] code with
  | some template => simp
  | none =>
    by_cases hdefault : locale = resources.defaultLocale
    · subst hdefault
      simp [hlocale]
    · cases (resources.tree resources.defaultLocale).under [] code with
      | none => simp [hdefault]
      | some template => simp [hdefault]

end MessageSource

/-! ## Placeholders -/

theorem ne_brace_of_mem_renderNat {m : ℕ} {c : Char} (h : c ∈ renderNat m) :
    c ≠ '{' ∧ c ≠ '}' := by
  obtain ⟨d, hd, rfl⟩ := mem_map.mp h
  have hlt := lt_ten_of_mem_decimalDigits hd
  interval_cases d <;> decide

theorem opening_ne_closing : '{' ≠ '}' := by
  decide

def holders (n : ℕ) : Placeholders Char (Fin n) where
  opening := '{'
  closing := '}'
  name i := renderNat i
  opening_ne_closing := opening_ne_closing
  name_injective := fun _ _ h => Fin.ext (renderNat_injective h)
  opening_notMem _ h := (ne_brace_of_mem_renderNat h).1 rfl
  closing_notMem _ h := (ne_brace_of_mem_renderNat h).2 rfl

theorem token_holders {n : ℕ} (i : Fin n) : (holders n).token i = placeholder i := rfl

variable {n : ℕ} (str : V → List Char) (template : List Char) (args : Fin n → V)

def places (n : ℕ) (template : List Char) : List (Char ⊕ Fin n) :=
  (holders n).read (List.finRange n) template

def simultaneous : List Char :=
  (places n template).flatMap (Sum.elim (fun c => [c]) fun i => str (args i))

def renumber (order : Equiv.Perm (Fin n)) : List Char :=
  (holders n).text ((places n template).map (Sum.map id order.symm))

def ReplacesAtOnce : Prop :=
  ∀ order : Equiv.Perm (Fin n),
    substitute str (renumber template order) (List.ofFn (args ∘ order)) =
        simultaneous str template args ∧
      (holders n).FillsPlaces (List.finRange n) (str ∘ args ∘ order)
        (places n (renumber template order))

/-- Where the values of some arguments are put in at once, the placeholder with
their number appears nowhere, or every other argument is that placeholder. -/
def Separate : Prop :=
  ∀ (chosen : Finset (Fin n)) (i : Fin n), i ∉ chosen →
    str (args i) = placeholder chosen.card ∨ ¬ (placeholder chosen.card).map .inl <:+:
        putIn (fun j => if j ∈ chosen then some (str (args j)) else none)
          (places n template)

/-! ## Every order of the arguments -/

theorem zipIdx_ofFn (f : Fin n → V) :
    (List.ofFn f).zipIdx = (List.finRange n).map fun i => (f i, i.val) := by
  apply ext_getElem
  · simp
  · intro m h _
    simp

theorem substitute_ofFn (text : List Char) (f : Fin n → V) : substitute str text (List.ofFn f) =
      (holders n).replaceEach (List.finRange n) (str ∘ f) text := by
  rw [substitute, zipIdx_ofFn, foldl_map]
  rfl

theorem text_putIn_renumbered (order : Equiv.Perm (Fin n)) :
    (holders n).text (putIn (among (List.finRange n) (str ∘ args ∘ order))
        ((places n template).map (Sum.map id order.symm))) =
      simultaneous str template args := by
  have hall : among (List.finRange n) (str ∘ args ∘ order) =
      fun i => some (str (args (order i))) := by
    funext i
    exact if_pos (mem_finRange i)
  rw [hall, text_putIn_some, flatMap_map, simultaneous]
  congr 1
  funext place
  cases place with
  | inl c => rfl
  | inr i =>
    rw [Sum.map_inr, Sum.elim_inr, Sum.elim_inr, Equiv.apply_symm_apply]

theorem places_renumber (order : Equiv.Perm (Fin n)) :
    places n (renumber template order) = (places n template).map (Sum.map id order.symm) := by
  have hproper := (holders n).proper_read (List.finRange n) template
  refine read_text ⟨fun i _ => mem_finRange i, ?_⟩
  intro i _
  rw [map_inl_infix_map_iff order.symm.injective]
  exact hproper.clean i (mem_finRange i)

theorem replacesAtOnce_iff_distinct : ReplacesAtOnce str template args ↔
      ∀ order : Equiv.Perm (Fin n), (holders n).Distinct (List.finRange n) (str ∘ args ∘ order)
          ((places n template).map (Sum.map id order.symm)) := by
  constructor
  · intro h order
    rw [← places_renumber]
    exact ((holders n).fillsPlaces_iff _ _ _).mp (h order).2
  · intro h order
    have hfills := ((holders n).fillsPlaces_iff _ _ _).mpr (h order)
    refine ⟨?_, places_renumber template order ▸ hfills⟩
    rw [substitute_ofFn, renumber, hfills _ (prefix_refl _), text_putIn_renumbered]

theorem length_of_concat {keys : List (Fin n)} {k : Fin n}
    (h : keys ++ [k] <+: List.finRange n) :
    keys.Nodup ∧ k ∉ keys ∧ keys.length = k.val := by
  have hnodup : (keys ++ [k]).Nodup :=
    (nodup_finRange n).sublist h.sublist
  obtain ⟨hkeys, -, hdisjoint⟩ := nodup_append.mp hnodup
  obtain ⟨rest, hrest⟩ := h
  refine ⟨hkeys, fun hk => hdisjoint k hk k (mem_singleton_self k) rfl, ?_⟩
  have hget : (List.finRange n)[keys.length]? = some k := by
    rw [← hrest]
    simp
  obtain ⟨hlength, hvalue⟩ := List.getElem?_eq_some_iff.mp hget
  rw [getElem_finRange] at hvalue
  rw [← hvalue]
  rfl

theorem exists_order_of_list {arranged : List (Fin n)} (hnodup : arranged.Nodup)
    (hall : ∀ j, j ∈ arranged) :
    ∃ order : Equiv.Perm (Fin n), (List.finRange n).map order = arranged := by
  have hlength : n = arranged.length := by
    have huniv : arranged.toFinset = Finset.univ := by
      ext j
      exact iff_of_true (mem_toFinset.mpr (hall j)) (Finset.mem_univ j)
    rw [← toFinset_card_of_nodup hnodup, huniv, Finset.card_univ, Fintype.card_fin]
  refine ⟨(finCongr hlength).trans (hnodup.getEquivOfForallMemList arranged hall), ?_⟩
  apply ext_getElem
  · rw [length_map, length_finRange, ← hlength]
  · intro m hm _
    rw [getElem_map, getElem_finRange]
    rfl

/-- An order of the arguments in which the chosen ones come first, followed by
a given one. -/
theorem exists_order (chosen : Finset (Fin n)) {i : Fin n} (hi : i ∉ chosen) :
    ∃ (order : Equiv.Perm (Fin n)) (keys : List (Fin n)) (k : Fin n),
      keys ++ [k] <+: List.finRange n ∧ k.val = chosen.card ∧ order k = i ∧
        ∀ j, order.symm j ∈ keys ↔ j ∈ chosen := by
  let others : List (Fin n) := (Finset.univ \ insert i chosen).toList
  have hothers : ∀ j, j ∈ others ↔ j ≠ i ∧ j ∉ chosen := by
    intro j
    simp [others]
  have hnodup : (chosen.toList ++ i :: others).Nodup := by
    refine nodup_append.mpr ⟨chosen.nodup_toList,
      nodup_cons.mpr ⟨?_, Finset.nodup_toList _⟩, ?_⟩
    · intro h
      exact ((hothers i).mp h).1 rfl
    · intro j hj m hm hsame
      subst hsame
      rw [Finset.mem_toList] at hj
      rcases mem_cons.mp hm with rfl | hm
      · exact hi hj
      · exact ((hothers j).mp hm).2 hj
  have hall : ∀ j, j ∈ chosen.toList ++ i :: others := by
    intro j
    rw [mem_append, Finset.mem_toList, mem_cons, hothers]
    by_cases hj : j ∈ chosen
    · exact Or.inl hj
    · by_cases hji : j = i
      · exact Or.inr (Or.inl hji)
      · exact Or.inr (Or.inr ⟨hji, hj⟩)
  obtain ⟨order, horder⟩ := exists_order_of_list hnodup hall
  obtain ⟨keys, back, hsplit, hkeys, hback⟩ := map_eq_append_iff.mp horder
  obtain ⟨k, back, rfl, hk, -⟩ := map_eq_cons_iff.mp hback
  have hconcat : keys ++ [k] <+: List.finRange n := ⟨back, by simp [hsplit]⟩
  refine ⟨order, keys, k, hconcat, ?_, hk, ?_⟩
  · have hlength := congrArg List.length hkeys
    rw [length_map, (length_of_concat hconcat).2.2, Finset.length_toList] at hlength
    exact hlength
  · intro j
    rw [← Finset.mem_toList, ← hkeys, mem_map]
    constructor
    · intro hj
      exact ⟨_, hj, order.apply_symm_apply j⟩
    · rintro ⟨m, hm, rfl⟩
      rwa [Equiv.symm_apply_apply]

theorem infix_putIn_iff (order : Equiv.Perm (Fin n)) (keys : List (Fin n)) (word : List Char) :
    word.map Sum.inl <:+: putIn (among keys (str ∘ args ∘ order))
        ((places n template).map (Sum.map id order.symm)) ↔
      word.map Sum.inl <:+: putIn
          (fun j => if order.symm j ∈ keys then some (str (args j)) else none)
          (places n template) := by
  have hvalue : (fun j => among keys (str ∘ args ∘ order) (order.symm j)) =
      fun j => if order.symm j ∈ keys then some (str (args j)) else none := by
    funext j
    unfold among
    rw [Function.comp_apply, Function.comp_apply, Equiv.apply_symm_apply]
  rw [putIn_map, map_inl_infix_map_iff order.symm.injective, hvalue]

theorem replacesAtOnce_iff_separate :
    ReplacesAtOnce str template args ↔ Separate str template args := by
  rw [replacesAtOnce_iff_distinct]
  constructor
  · intro h chosen i hi
    obtain ⟨order, keys, k, hkeys, hk, rfl, hchosen⟩ := exists_order chosen hi
    have hdistinct := h order keys k hkeys
    rw [infix_putIn_iff, token_holders, hk] at hdistinct
    simp only [hchosen] at hdistinct
    exact hdistinct
  · intro h order keys k hkeys
    obtain ⟨hnodup, hfresh, hlength⟩ := length_of_concat hkeys
    let chosen : Finset (Fin n) :=
      Finset.univ.filter fun j => order.symm j ∈ keys
    have hchosen : ∀ j, j ∈ chosen ↔ order.symm j ∈ keys := by
      intro j
      simp [chosen]
    have hcard : chosen.card = k.val := by
      have himage : chosen = keys.toFinset.image order := by
        ext j
        rw [hchosen, Finset.mem_image]
        constructor
        · intro hj
          exact ⟨order.symm j, mem_toFinset.mpr hj, order.apply_symm_apply j⟩
        · rintro ⟨m, hm, rfl⟩
          rw [Equiv.symm_apply_apply]
          exact mem_toFinset.mp hm
      rw [himage, Finset.card_image_of_injective _ order.injective,
        toFinset_card_of_nodup hnodup, hlength]
    have hk : order k ∉ chosen := by
      rw [hchosen, Equiv.symm_apply_apply]
      exact hfresh
    have hseparate := h chosen (order k) hk
    rw [infix_putIn_iff, token_holders, ← hcard]
    simp only [hchosen] at hseparate
    exact hseparate

theorem renumber_refl : renumber template (Equiv.refl (Fin n)) = template := by
  rw [renumber, Equiv.refl_symm, Equiv.coe_refl, Sum.map_id_id, map_id, places, text_read]

/-! ## Messages -/

structure GetsMessage {resources : Resources V} {str : V → List Char}
    (source : MessageSource resources str) (code locale : List Char)
    (args : Fin n → V) : Prop where
  missing : resources.message code locale = none →
    (source.getMessage code (List.ofFn args) locale).1 =
      .error (.keyError (MessageSource.keyErrorText code locale))
  found : ∀ template, resources.message code locale = some template →
    (source.getMessage code (List.ofFn args) locale).1 =
        .ok (simultaneous str (str template) args) ∧
      ReplacesAtOnce str (str template) args

/-- Messages are right exactly where no choice of arguments makes the
placeholder of another one. -/
theorem getsMessage_iff_separate {resources : Resources V}
    {str : V → List Char} (source : MessageSource resources str)
    (code locale : List Char) (args : Fin n → V) :
    GetsMessage source code locale args ↔
      ∀ template, resources.message code locale = some template →
        Separate str (str template) args := by
  constructor
  · intro h template htemplate
    have hfound := (h.found template htemplate).2
    rwa [replacesAtOnce_iff_separate] at hfound
  · intro h
    constructor
    · intro hmissing
      rw [source.getMessage_fst, hmissing]
    · intro template htemplate
      have hreplaces := (replacesAtOnce_iff_separate str _ args).mpr (h template htemplate)
      have hplain := (hreplaces (Equiv.refl (Fin n))).1
      rw [renumber_refl] at hplain
      rw [source.getMessage_fst, htemplate]
      exact ⟨congrArg Except.ok hplain, hreplaces⟩

/-- One message `{0} {1}` under the code `m`. -/
def pairMessages : Resources (List Char) where
  file _ _ := some (.message ['m'] "{0} {1}".toList .empty)
  defaultLocale := "en".toList

/-- The arguments `{1}` and `x`. -/
theorem not_getsMessage_pairMessages : ¬ ∀ (resources : Resources (List Char))
      (source : MessageSource resources id) (code locale : List Char)
      (n : ℕ) (args : Fin n → List Char), GetsMessage source code locale args := by
  intro h
  have hmessage := (h pairMessages .initial ['m'] "en".toList 2
    ![['{', '1', '}'], ['x']]).found "{0} {1}".toList (by decide +kernel)
  have htext := hmessage.1
  revert htext
  decide +kernel

end PyFly.I18n
