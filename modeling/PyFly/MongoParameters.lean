import Mathlib.Data.List.Perm.Subperm
import PyFly.Library.InsertionDict
import PyFly.Library.TextReplacement

/-!
# Parameters of MongoDB queries

`_substitute_params` walks a parsed JSON template.  A string which is one
placeholder becomes the argument itself; in any other string the placeholders
are replaced one parameter after another, each in the text the last one left.
-/

namespace PyFly.Data

open Library List

/-- The characters which `str.strip` removes, and those of identifiers. -/
structure CharClasses where
  space : Char → Bool
  word : Char → Bool
  word_colon : word ':' = false

/-- A JSON template, or what becomes of it: a leaf is a value other than a
string, a list or a dictionary, or an argument as it was passed. -/
inductive Template (V : Type)
  | leaf (value : V)
  | text (text : List Char)
  | array (items : List (Template V))
  | object (entries : List (List Char × Template V))

structure Arguments (classes : CharClasses) (V : Type) where
  params : Dict (List Char) V
  names : ∀ name ∈ params.keys, ∀ c ∈ name, classes.word c = true

variable {V : Type} (classes : CharClasses) (str : V → List Char)

def strip (text : List Char) : List Char :=
  ((text.dropWhile classes.space).reverse.dropWhile classes.space).reverse

def soleName (text : List Char) : Option (List Char) :=
  match strip classes text with
  | ':' :: name => some name
  | _ => none

def placeholder (name : List Char) : List Char := ':' :: name

def replaceParams (params : List (List Char × V)) (text : List Char) : List Char :=
  params.foldl
    (fun result param =>
      if placeholder param.1 <:+: result then
        replaceAll (placeholder param.1) (str param.2) result
      else result)
    text

def substituteText (params : Dict (List Char) V) (text : List Char) : Template V :=
  match (soleName classes text).bind params.get? with
  | some value => .leaf value
  | none => .text (replaceParams str params.items text)

mutual

def substituteParams (params : Dict (List Char) V) : Template V → Template V
  | .leaf value => .leaf value
  | .text text => substituteText classes str params text
  | .array items => .array (substituteItems params items)
  | .object entries => .object (substituteEntries params entries)

def substituteItems (params : Dict (List Char) V) : List (Template V) → List (Template V)
  | [] => []
  | item :: items => substituteParams params item :: substituteItems params items

def substituteEntries (params : Dict (List Char) V) :
    List (List Char × Template V) → List (List Char × Template V)
  | [] => []
  | (key, value) :: entries =>
    (key, substituteParams params value) :: substituteEntries params entries

end

/-! ## Simultaneous substitution -/

inductive TemplatePiece
  | char (c : Char)
  | placeholder (name : List Char)
  deriving DecidableEq, Repr

/-- The pieces of what is left of a string, after `skip` characters which
belong to the last name. -/
def piecesFrom : ℕ → List Char → List TemplatePiece
  | _, [] => []
  | skip + 1, _ :: text => piecesFrom skip text
  | 0, c :: text =>
    if c = ':' then
      .placeholder (text.takeWhile classes.word) ::
        piecesFrom (text.takeWhile classes.word).length text
    else .char c :: piecesFrom 0 text

def pieces (text : List Char) : List TemplatePiece :=
  piecesFrom classes 0 text

def TemplatePiece.interpolate (value : List Char → Option V) : TemplatePiece → List Char
  | char c => [c]
  | placeholder name =>
    match value name with
    | some v => str v
    | none => ':' :: name

def interpolate (value : List Char → Option V) (text : List Char) : List Char :=
  (pieces classes text).flatMap (TemplatePiece.interpolate str value)

def simultaneousText (value : List Char → Option V) (text : List Char) : Template V :=
  match (soleName classes text).bind value with
  | some v => .leaf v
  | none => .text (interpolate classes str value text)

mutual

def simultaneous (value : List Char → Option V) : Template V → Template V
  | .leaf v => .leaf v
  | .text text => simultaneousText classes str value text
  | .array items => .array (simultaneousItems value items)
  | .object entries => .object (simultaneousEntries value entries)

def simultaneousItems (value : List Char → Option V) : List (Template V) → List (Template V)
  | [] => []
  | item :: items => simultaneous value item :: simultaneousItems value items

def simultaneousEntries (value : List Char → Option V) :
    List (List Char × Template V) → List (List Char × Template V)
  | [] => []
  | (key, item) :: entries =>
    (key, simultaneous value item) :: simultaneousEntries value entries

end

def SubstitutesAtOnce (arguments : Arguments classes V) (template : Template V) : Prop :=
  ∀ chosen : Dict (List Char) V, List.Subperm chosen.items arguments.params.items →
      substituteParams classes str chosen template =
        simultaneous classes str chosen.get? template

mutual

def Template.texts : Template V → List (List Char)
  | .leaf _ => []
  | .text string => [string]
  | .array items => itemTexts items
  | .object entries => entryTexts entries

def Template.itemTexts : List (Template V) → List (List Char)
  | [] => []
  | item :: items => item.texts ++ itemTexts items

def Template.entryTexts : List (List Char × Template V) → List (List Char)
  | [] => []
  | (_, item) :: entries => item.texts ++ entryTexts entries

end

def TemplatePiece.slots (value : List Char → Option V) (name : List Char)
    (piece : TemplatePiece) : List (Option Char) :=
  if piece = .placeholder name then [none]
  else (piece.interpolate str value).map some

def PlaceholderAlone (value : List Char → Option V) (name : List Char)
    (text : List Char) : Prop :=
  ¬ (placeholder name).map some <:+:
    (pieces classes text).flatMap (TemplatePiece.slots str value name)

/-- The condition on a string: whichever arguments are filled in before one of
them, its placeholder then stands nowhere but where the string has it, unless
the argument is its own placeholder. -/
def Undisturbed (arguments : Arguments classes V) (text : List Char) : Prop :=
  ∀ (chosen : Dict (List Char) V) (name : List Char) (v : V),
    List.Subperm (chosen.items ++ [(name, v)]) arguments.params.items →
      (∀ sole, soleName classes text = some sole → sole ≠ name ∧ sole ∉ chosen.keys) →
      str v ≠ placeholder name → PlaceholderAlone classes str chosen.get? name text

variable {classes str}

/-! ## Pieces -/

def TemplatePiece.source : TemplatePiece → List Char
  | char c => [c]
  | placeholder name => ':' :: name

theorem piecesFrom_source (skip : ℕ) (text : List Char) :
    (piecesFrom classes skip text).flatMap TemplatePiece.source = text.drop skip := by
  induction text generalizing skip with
  | nil => cases skip <;> rfl
  | cons c text ih =>
    cases skip with
    | succ skip => exact ih skip
    | zero =>
      rw [piecesFrom]
      split
      · rename_i hcolon
        rw [flatMap_cons, ih, hcolon]
        have htake := takeWhile_append_dropWhile (p := classes.word) (l := text)
        have hdrop := @drop_left _ (text.takeWhile classes.word) (text.dropWhile classes.word)
        rw [htake] at hdrop
        rw [hdrop, TemplatePiece.source, cons_append, htake]
        rfl
      · rw [flatMap_cons, ih]
        rfl

theorem pieces_source (text : List Char) :
    (pieces classes text).flatMap TemplatePiece.source = text :=
  piecesFrom_source 0 text

theorem interpolate_none (text : List Char) :
    interpolate classes str (fun _ => none) text = text := by
  have hpiece : TemplatePiece.interpolate str (fun _ => none) = TemplatePiece.source := by
    funext piece
    cases piece <;> rfl
  rw [interpolate, hpiece, pieces_source]

theorem fill_slots (filler : List Char) (value : List Char → Option V)
    (name : List Char) (piece : TemplatePiece) :
    fill filler (piece.slots str value name) = if piece = .placeholder name then filler
      else piece.interpolate str value := by
  unfold TemplatePiece.slots
  split
  · rw [fill_none, fill_nil, append_nil]
  · rw [fill_map_some]

theorem fill_placeholder {value : List Char → Option V} {name : List Char}
    (hname : value name = none) (text : List Char) :
    fill (placeholder name) ((pieces classes text).flatMap
          (TemplatePiece.slots str value name)) =
      interpolate classes str value text := by
  rw [fill_flatMap]
  congr 1
  funext piece
  rw [fill_slots]
  split
  · rename_i hpiece
    rw [hpiece, TemplatePiece.interpolate, hname]
    rfl
  · rfl

theorem fill_value {value value' : List Char → Option V} {name : List Char}
    {v : V} (hname : value' name = some v)
    (hother : ∀ other, other ≠ name → value' other = value other)
    (text : List Char) :
    fill (str v) ((pieces classes text).flatMap (TemplatePiece.slots str value name)) =
      interpolate classes str value' text := by
  rw [fill_flatMap]
  congr 1
  funext piece
  rw [fill_slots]
  split
  · rename_i hpiece
    rw [hpiece, TemplatePiece.interpolate, hname]
  · rename_i hpiece
    cases piece with
    | char c => rfl
    | placeholder other =>
      have hne : other ≠ name := by
        intro heq
        exact hpiece (by rw [heq])
      rw [TemplatePiece.interpolate, TemplatePiece.interpolate, hother other hne]

/-! ## One parameter after another -/

theorem replaceParams_concat (params : List (List Char × V))
    (param : List Char × V) (text : List Char) :
    replaceParams str (params ++ [param]) text =
      replaceAll (placeholder param.1) (str param.2) (replaceParams str params text) := by
  unfold replaceParams
  rw [foldl_append, foldl_cons, foldl_nil]
  split
  · rfl
  · rename_i hnot
    exact (replaceAll_of_absent _ hnot).symm

theorem solid_placeholder {name : List Char} (hname : ':' ∉ name) : Solid (placeholder name) :=
  ⟨':', name, rfl, hname⟩

theorem replaceAll_interpolate_iff {chosen : Dict (List Char) V}
    {name : List Char} (hcolon : ':' ∉ name) (hname : name ∉ chosen.keys)
    (v : V) (text : List Char) :
    replaceAll (placeholder name) (str v) (interpolate classes str chosen.get? text) =
      interpolate classes str (chosen.set name v).get? text ↔
      (str v ≠ placeholder name → PlaceholderAlone classes str chosen.get? name text) := by
  have hbefore := @fill_placeholder V classes str _ name (Dict.get?_eq_none_iff.mpr hname) text
  have hafter := @fill_value V classes str chosen.get?
    (chosen.set name v).get? name v (Dict.get?_set_self chosen name v)
    (fun other hne => Dict.get?_set_of_ne hne v) text
  rw [← hbefore, ← hafter]
  exact replaceAll_fill_iff (solid_placeholder hcolon)

section Texts

variable {arguments : Arguments classes V} {text : List Char}

theorem Arguments.colon_notMem (arguments : Arguments classes V)
    {name : List Char} (hname : name ∈ arguments.params.keys) :
    ':' ∉ name := by
  intro hcolon
  have hword := arguments.names name hname ':' hcolon
  rw [classes.word_colon] at hword
  exact Bool.false_ne_true hword

variable {chosen : Dict (List Char) V}

theorem substituteText_eq_iff
    (hsole : ∀ sole, soleName classes text = some sole → sole ∉ chosen.keys) :
    substituteText classes str chosen text = simultaneousText classes str chosen.get? text ↔
      replaceParams str chosen.items text = interpolate classes str chosen.get? text := by
  have hnone : (soleName classes text).bind chosen.get? = none := by
    cases hname : soleName classes text with
    | none => rfl
    | some sole => exact Dict.get?_eq_none_iff.mpr (hsole sole hname)
  rw [substituteText, simultaneousText, hnone, Template.text.injEq]

theorem items_concat_of_subperm {name : List Char} {v : V}
    (hsub : List.Subperm (chosen.items ++ [(name, v)]) arguments.params.items) :
    name ∉ chosen.keys ∧ name ∈ arguments.params.keys ∧
      (chosen.set name v).items = chosen.items ++ [(name, v)] := by
  have hnodup : ((chosen.items ++ [(name, v)]).map Prod.fst).Nodup := by
    obtain ⟨middle, hperm, hsublist⟩ := hsub
    have hmiddle := arguments.params.nodupKeys.sublist (hsublist.map Prod.fst)
    exact (hperm.map Prod.fst).nodup_iff.mp hmiddle
  have hnotMem : name ∉ chosen.keys := by
    rw [map_append, nodup_append] at hnodup
    intro hmem
    exact hnodup.2.2 name hmem name (by simp) rfl
  refine ⟨hnotMem, ?_, ?_⟩
  · have hmem : (name, v) ∈ arguments.params.items :=
      hsub.subset (by simp)
    exact mem_map.mpr ⟨(name, v), hmem, rfl⟩
  · have hnot : name ∉ chosen.items.map Prod.fst := hnotMem
    rw [Dict.set, dif_neg hnot]

/-- A string without a stray placeholder: every run of the loop gives the
simultaneous substitution. -/
theorem replaceParams_of_undisturbed (hclean : Undisturbed classes str arguments text)
    (hsub : List.Subperm chosen.items arguments.params.items)
    (hsole : ∀ sole, soleName classes text = some sole → sole ∉ chosen.keys) :
    replaceParams str chosen.items text = interpolate classes str chosen.get? text := by
  obtain ⟨items, hnodup⟩ := chosen
  induction items using List.reverseRecOn with
  | nil => exact (interpolate_none text).symm
  | append_singleton items param ih =>
    have hbefore : (items.map Prod.fst).Nodup :=
      hnodup.sublist ((sublist_append_left items [param]).map _)
    let before : Dict (List Char) V := ⟨items, hbefore⟩
    have hconcat : List.Subperm (before.items ++ [(param.1, param.2)])
        arguments.params.items := hsub
    obtain ⟨hnotMem, hmem, hset⟩ := items_concat_of_subperm hconcat
    have hearlier : ∀ sole, soleName classes text = some sole →
        sole ≠ param.1 ∧ sole ∉ before.keys := by
      intro sole hname
      have hnot := hsole sole hname
      simp only [Dict.keys, map_append, mem_append,
        map_cons, map_nil, mem_singleton, not_or] at hnot
      exact ⟨hnot.2, hnot.1⟩
    have hprefix : List.Subperm items arguments.params.items :=
      (sublist_append_left items [param]).subperm.trans hsub
    have hwhole : (⟨items ++ [param], hnodup⟩ : Dict (List Char) V) =
        before.set param.1 param.2 := by
      cases hboth : before.set param.1 param.2 with
      | mk others hothers =>
        rw [hboth] at hset
        congr 1
        exact hset.symm
    rw [hwhole, hset, replaceParams_concat,
      ih hbefore hprefix fun sole hname => (hearlier sole hname).2]
    exact (replaceAll_interpolate_iff (arguments.colon_notMem hmem) hnotMem param.2 text).mpr
        (hclean before param.1 param.2 hconcat hearlier)

theorem substituteText_iff : (∀ chosen : Dict (List Char) V,
      List.Subperm chosen.items arguments.params.items →
        substituteText classes str chosen text =
          simultaneousText classes str chosen.get? text) ↔
      Undisturbed classes str arguments text := by
  constructor
  · intro hall chosen name v hsub hsole hne
    obtain ⟨hnotMem, hmem, hset⟩ := items_concat_of_subperm hsub
    have hbefore : replaceParams str chosen.items text =
        interpolate classes str chosen.get? text := by
      refine (substituteText_eq_iff fun sole hname =>
        (hsole sole hname).2).mp (hall chosen ?_)
      exact (sublist_append_left _ _).subperm.trans hsub
    have hafter : replaceParams str (chosen.set name v).items text =
        interpolate classes str (chosen.set name v).get? text := by
      refine (substituteText_eq_iff fun sole hname => ?_).mp (hall (chosen.set name v) ?_)
      · rw [Dict.mem_keys_set, not_or]
        exact ⟨(hsole sole hname).1, (hsole sole hname).2⟩
      · rw [hset]
        exact hsub
    rw [hset, replaceParams_concat, hbefore] at hafter
    exact (replaceAll_interpolate_iff (arguments.colon_notMem hmem) hnotMem
      v text).mp hafter hne
  · intro hclean chosen hsub
    by_cases hsole : ∀ sole, soleName classes text = some sole → sole ∉ chosen.keys
    · exact (substituteText_eq_iff hsole).mpr (replaceParams_of_undisturbed hclean hsub hsole)
    · -- the string is the placeholder of an argument
      push Not at hsole
      obtain ⟨sole, hname, hmem⟩ := hsole
      obtain ⟨v, hv⟩ := Dict.mem_keys_iff.mp hmem
      have hbind : (soleName classes text).bind chosen.get? = some v := by
        rw [hname]
        exact hv
      rw [substituteText, simultaneousText, hbind]

end Texts

/-! ## Templates -/

mutual

theorem substituteParams_eq_iff (chosen : Dict (List Char) V) :
    ∀ template : Template V, substituteParams classes str chosen template =
          simultaneous classes str chosen.get? template ↔
        ∀ text ∈ template.texts, substituteText classes str chosen text =
            simultaneousText classes str chosen.get? text
  | .leaf v => by simp [substituteParams, simultaneous, Template.texts]
  | .text text => by simp [substituteParams, simultaneous, Template.texts]
  | .array items => by
      rw [substituteParams, simultaneous, Template.array.injEq,
        substituteItems_eq_iff chosen items, Template.texts]
  | .object entries => by
      rw [substituteParams, simultaneous, Template.object.injEq,
        substituteEntries_eq_iff chosen entries, Template.texts]

theorem substituteItems_eq_iff (chosen : Dict (List Char) V) :
    ∀ items : List (Template V), substituteItems classes str chosen items =
          simultaneousItems classes str chosen.get? items ↔
        ∀ text ∈ Template.itemTexts items, substituteText classes str chosen text =
            simultaneousText classes str chosen.get? text
  | [] => by simp [substituteItems, simultaneousItems, Template.itemTexts]
  | item :: items => by
      rw [substituteItems, simultaneousItems, List.cons.injEq,
        substituteParams_eq_iff chosen item,
        substituteItems_eq_iff chosen items, Template.itemTexts,
        forall_mem_append]

theorem substituteEntries_eq_iff (chosen : Dict (List Char) V) :
    ∀ entries : List (List Char × Template V), substituteEntries classes str chosen entries =
          simultaneousEntries classes str chosen.get? entries ↔
        ∀ text ∈ Template.entryTexts entries, substituteText classes str chosen text =
            simultaneousText classes str chosen.get? text
  | [] => by
      simp [substituteEntries, simultaneousEntries, Template.entryTexts]
  | (key, item) :: entries => by
      rw [substituteEntries, simultaneousEntries, List.cons.injEq,
        Prod.mk.injEq, substituteParams_eq_iff chosen item,
        substituteEntries_eq_iff chosen entries, Template.entryTexts,
        forall_mem_append]
      simp

end

/-- The substitution is simultaneous exactly when no string of the template is
disturbed: a placeholder is found nowhere but where the string has it as a
whole identifier, whichever arguments are filled in before. -/
theorem substitutes_at_once_iff (arguments : Arguments classes V) (template : Template V) :
    SubstitutesAtOnce classes str arguments template ↔
      ∀ text ∈ template.texts, Undisturbed classes str arguments text := by
  constructor
  · intro hall text htext
    refine substituteText_iff.mp fun chosen hsub => ?_
    exact (substituteParams_eq_iff chosen template).mp (hall chosen hsub) text htext
  · intro hclean chosen hsub
    refine (substituteParams_eq_iff chosen template).mpr ?_
    intro text htext
    exact substituteText_iff.mpr (hclean text htext) chosen hsub

/-! ## A name which starts another one -/

def asciiClasses : CharClasses where
  space c := c.isWhitespace
  word c := c.isAlphanum || c = '_'
  word_colon := by decide

/-- `a` and `ab`, with texts as values. -/
def prefixArguments : Arguments asciiClasses (List Char) where
  params := ⟨[("a".toList, "1".toList), ("ab".toList, "2".toList)], by decide⟩
  names := by
    have hkeys : ∀ name ∈ ["a".toList, "ab".toList],
        name.all asciiClasses.word = true := by decide
    exact fun name hname => all_eq_true.mp (hkeys name hname)

theorem not_substitutes_at_once_prefix : ¬ SubstitutesAtOnce asciiClasses id prefixArguments
      (.object [("name".toList, .text "x:ab".toList)]) := by
  intro hlaw
  have hsame := (substituteParams_eq_iff _ _).mp
    (hlaw prefixArguments.params (List.Subperm.refl _)) "x:ab".toList
    (by simp [Template.texts, Template.entryTexts])
  have hcode : substituteText asciiClasses id prefixArguments.params
      "x:ab".toList = .text "x1b".toList := rfl
  have hlawful : simultaneousText asciiClasses id prefixArguments.params.get?
      "x:ab".toList = .text "x2".toList := rfl
  rw [hcode, hlawful, Template.text.injEq] at hsame
  exact absurd hsame (by decide)

/-- The value of `a` brings in the placeholder of `b`. -/
example : replaceParams id [("a".toList, ":b".toList), ("b".toList, "2".toList)]
      "x:a".toList = "x2".toList := by
  decide

end PyFly.Data
