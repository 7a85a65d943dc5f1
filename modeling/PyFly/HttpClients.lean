import PyFly.Library.InsertionDict
import PyFly.Library.Placeholders

/-!
# Declarative HTTP clients

The parameters of a declared method become path variables, query parameters or
the body of a request.  Path variables are replaced one after the other in the
growing path.
-/

namespace PyFly.Client

open Library Library.Placeholders List

variable {V : Type}

/-! ## Requests -/

structure ParamName where
  text : List Char
  plain : ∀ c ∈ text, c ≠ '{' ∧ c ≠ '}' ∧ c ≠ '/'
  deriving DecidableEq

def selfName : ParamName := ⟨"self".toList, by decide⟩

def bodyName : ParamName := ⟨"body".toList, by decide⟩

def holders : Placeholders Char ParamName where
  opening := '{'
  closing := '}'
  name := ParamName.text
  opening_ne_closing := by decide
  name_injective := by
    rintro ⟨text, _⟩ ⟨text', _⟩ rfl
    rfl
  opening_notMem name h := (name.plain _ h).1 rfl
  closing_notMem name h := (name.plain _ h).2.1 rfl

def placeholder (key : ParamName) : List Char :=
  '{' :: (key.text ++ ['}'])

def resolvePath (str : V → List Char) (params : List (ParamName × V))
    (pathTemplate : List Char) : List Char × List ParamName :=
  params.foldl
    (fun state item =>
      if placeholder item.1 <:+: state.1 then
        (replaceAll (placeholder item.1) (str item.2) state.1, state.2 ++ [item.1])
      else state)
    (pathTemplate, [])

/-- The arguments of `client.request`; the body and the query parameters need
not be given. -/
structure Request (V : Type) where
  method : String
  path : List Char
  json : Option V
  params : Option (Dict ParamName V)

def takesBody (httpMethod : String) : Bool :=
  httpMethod ∈ ["POST", "PUT", "PATCH"]

def buildRequest (str : V → List Char) (httpMethod : String)
    (pathTemplate : List Char) (arguments : Dict ParamName V) : Request V :=
  let params := arguments.erase selfName
  let (path, pathVars) := resolvePath str params.items pathTemplate
  let remaining := params.restrict fun key => key ∉ pathVars
  let json := if takesBody httpMethod then remaining.get? bodyName else none
  let remaining :=
    if takesBody httpMethod then remaining.erase bodyName else remaining
  { method := httpMethod
    path := path
    json := json
    params := if remaining.items.isEmpty then none else some remaining }

section Meaning

variable (str : V → List Char) (httpMethod : String)
  (pathTemplate : List Char) (arguments : Dict ParamName V)

def declared : List ParamName :=
  (arguments.erase selfName).keys

def valueText (key : ParamName) : List Char :=
  ((arguments.erase selfName).get? key).elim [] str

def places : List (Char ⊕ ParamName) :=
  holders.read (declared arguments) pathTemplate

def simultaneous : List Char :=
  (places pathTemplate arguments).flatMap (Sum.elim (fun c => [c]) (valueText str arguments))

def IsVariable (key : ParamName) : Prop :=
  Sum.inr key ∈ places pathTemplate arguments

instance (key : ParamName) : Decidable (IsVariable pathTemplate arguments key) :=
  decidable_of_iff (∃ place ∈ places pathTemplate arguments, place = Sum.inr key)
    exists_eq_right

def IsBody (key : ParamName) : Prop :=
  takesBody httpMethod = true ∧ key = bodyName

instance (key : ParamName) : Decidable (IsBody httpMethod key) :=
  inferInstanceAs (Decidable (_ ∧ _))

structure SendsOnce (request : Request V) : Prop where
  path : request.path = simultaneous str pathTemplate arguments
  json : request.json = if ¬ IsVariable pathTemplate arguments bodyName ∧
        IsBody httpMethod bodyName then
      (arguments.erase selfName).get? bodyName
    else none
  query : ∀ key, (request.params.getD .empty).get? key =
    if ¬ IsVariable pathTemplate arguments key ∧
        ¬ IsBody httpMethod key then
      (arguments.erase selfName).get? key
    else none
  untouched : holders.FillsPlaces (declared arguments)
    (valueText str arguments) (places pathTemplate arguments)
  segments : request.path.count '/' = pathTemplate.count '/'

structure Separate : Prop where
  placeholders : ∀ keys key, keys ++ [key] <+: declared arguments →
    (valueText str arguments key = placeholder key ∧ IsVariable pathTemplate arguments key) ∨
      ¬ (placeholder key).map .inl <:+: putIn (among keys (valueText str arguments))
          (places pathTemplate arguments)
  slashes : ∀ key, IsVariable pathTemplate arguments key → '/' ∉ valueText str arguments key

/-! ## The loop -/

theorem resolvePath_concat (params : List (ParamName × V)) (item : ParamName × V) :
    resolvePath str (params ++ [item]) pathTemplate =
      if placeholder item.1 <:+: (resolvePath str params pathTemplate).1 then
        (replaceAll (placeholder item.1) (str item.2) (resolvePath str params pathTemplate).1,
          (resolvePath str params pathTemplate).2 ++ [item.1])
      else resolvePath str params pathTemplate :=
  foldl_concat _ _ _ _

variable {params : List (ParamName × V)}

theorem resolvePath_fst {value : ParamName → List Char}
    (hvalue : ∀ item ∈ params, value item.1 = str item.2) :
    (resolvePath str params pathTemplate).1 =
      holders.replaceEach (params.map Prod.fst) value pathTemplate := by
  induction params using List.reverseRecOn with
  | nil => rfl
  | append_singleton params item ih =>
    have hbefore := ih fun other hother =>
      hvalue other (mem_append_left _ hother)
    have hitem := hvalue item (mem_append_right _ mem_cons_self)
    rw [resolvePath_concat, map_append, map_singleton, replaceEach_concat, ← hbefore, hitem]
    split
    · rfl
    · next habsent => exact (replaceAll_of_absent _ habsent).symm

variable {key : ParamName}

theorem subset_of_pathVars (h : key ∈ (resolvePath str params pathTemplate).2) :
    key ∈ params.map Prod.fst := by
  induction params using List.reverseRecOn with
  | nil => exact absurd h not_mem_nil
  | append_singleton params item ih =>
    rw [resolvePath_concat] at h
    rw [map_append, map_singleton, mem_append]
    split at h
    · exact (mem_append.mp h).imp_left ih
    · exact Or.inl (ih h)

variable {keys : List ParamName}

theorem mem_pathVars_iff {value : ParamName → List Char}
    (hvalue : ∀ item ∈ params, value item.1 = str item.2)
    (hnodup : (params.map Prod.fst).Nodup)
    (hkeys : keys ++ [key] <+: params.map Prod.fst) :
    key ∈ (resolvePath str params pathTemplate).2 ↔
      placeholder key <:+: holders.replaceEach keys value pathTemplate := by
  induction params using List.reverseRecOn with
  | nil => simp at hkeys
  | append_singleton params item ih =>
    have hvalue' : ∀ other ∈ params, value other.1 = str other.2 :=
      fun other hother => hvalue other (mem_append_left _ hother)
    rw [map_append, map_singleton] at hnodup hkeys
    obtain ⟨hnodup', -, hdisjoint⟩ := nodup_append.mp hnodup
    have hfst := resolvePath_fst str pathTemplate hvalue'
    rcases prefix_concat_iff.mp hkeys with hlast | hkeys
    · obtain ⟨rfl, hkey⟩ := append_inj' hlast rfl
      obtain rfl := singleton_inj.mp hkey
      have hfresh : item.1 ∉ (resolvePath str params pathTemplate).2 :=
        fun hmem => hdisjoint item.1 (subset_of_pathVars str pathTemplate hmem) item.1
          (mem_singleton_self _) rfl
      rw [resolvePath_concat, ← hfst]
      split
      · next hfound => exact iff_of_true (by simp) hfound
      · next habsent => exact iff_of_false hfresh habsent
    · have hmemkeys : key ∈ params.map Prod.fst :=
        hkeys.subset (mem_append_right _ (mem_singleton_self key))
      have hne : key ≠ item.1 :=
        hdisjoint key hmemkeys item.1 (mem_singleton_self _)
      have hmem : key ∈ (resolvePath str (params ++ [item]) pathTemplate).2 ↔
          key ∈ (resolvePath str params pathTemplate).2 := by
        rw [resolvePath_concat]
        split
        · simp [hne]
        · rfl
      rw [hmem]
      exact ih hvalue' hnodup' hkeys

/-! ## The request -/

abbrev loop : List Char × List ParamName :=
  resolvePath str (arguments.erase selfName).items pathTemplate

theorem buildRequest_path : (buildRequest str httpMethod pathTemplate arguments).path =
      (loop str pathTemplate arguments).1 := rfl

theorem buildRequest_json : (buildRequest str httpMethod pathTemplate arguments).json =
      if bodyName ∉ (loop str pathTemplate arguments).2 ∧
          IsBody httpMethod bodyName then
        (arguments.erase selfName).get? bodyName
      else none := by
  unfold buildRequest IsBody
  simp only [Dict.get?_restrict, decide_eq_true_eq]
  by_cases hbody : takesBody httpMethod = true
  · simp [hbody]
  · simp [hbody]

theorem buildRequest_query (key : ParamName) :
    ((buildRequest str httpMethod pathTemplate arguments).params.getD .empty).get? key =
      if key ∉ (loop str pathTemplate arguments).2 ∧
          ¬ IsBody httpMethod key then
        (arguments.erase selfName).get? key
      else none := by
  have hgetD (dict : Dict ParamName V) :
      ((if dict.items.isEmpty then none else some dict).getD .empty).get? key =
        dict.get? key := by
    split
    · next hempty =>
        have hitems : dict = .empty := Dict.ext (List.isEmpty_iff.mp hempty)
        rw [hitems]
        rfl
    · rfl
  unfold buildRequest IsBody
  simp only [hgetD]
  by_cases hbody : takesBody httpMethod = true
  · simp only [hbody, if_true, Dict.get?_erase, Dict.get?_restrict, decide_eq_true_eq]
    by_cases hkey : key = bodyName
    · simp [hkey]
    · simp [hkey]
  · simp [hbody, Dict.get?_restrict]

theorem valueText_of_mem {item : ParamName × V} (h : item ∈ (arguments.erase selfName).items) :
    valueText str arguments item.1 = str item.2 := by
  have hget : (arguments.erase selfName).get? item.1 = some item.2 :=
    Dict.get?_eq_some_iff.mpr h
  rw [valueText, hget, Option.elim_some]

theorem loop_fst : (loop str pathTemplate arguments).1 =
      holders.replaceEach (declared arguments) (valueText str arguments)
        pathTemplate :=
  resolvePath_fst str pathTemplate fun _ hitem =>
    valueText_of_mem str arguments hitem

theorem exists_concat_le (h : key ∈ declared arguments) :
    ∃ keys, keys ++ [key] <+: declared arguments := by
  obtain ⟨keys, rest, hsplit⟩ := append_of_mem h
  exact ⟨keys, rest, by rw [hsplit]; simp⟩

theorem notMem_of_concat (h : keys ++ [key] <+: declared arguments) : key ∉ keys := by
  have hnodup : (keys ++ [key]).Nodup :=
    (arguments.erase selfName).keys_nodup.sublist h.sublist
  intro hkey
  exact (nodup_append.mp hnodup).2.2 key hkey key (mem_singleton_self key) rfl

theorem mem_loop_iff (hfills : holders.FillsPlaces (declared arguments)
      (valueText str arguments) (places pathTemplate arguments))
    (hkeys : keys ++ [key] <+: declared arguments) :
    key ∈ (loop str pathTemplate arguments).2 ↔ (placeholder key).map .inl <:+:
          putIn (among keys (valueText str arguments)) (places pathTemplate arguments) ∨
        IsVariable pathTemplate arguments key := by
  have hbefore := hfills keys ((prefix_append keys [key]).trans hkeys)
  rw [places, text_read] at hbefore
  have hmem := mem_pathVars_iff str pathTemplate
    (fun _ hitem => valueText_of_mem str arguments hitem)
    (arguments.erase selfName).nodupKeys hkeys
  rw [hmem, hbefore]
  refine (holders.token_infix_text_iff key _).trans (or_congr_right ?_)
  rw [inr_mem_putIn, among, if_neg (notMem_of_concat arguments hkeys)]
  exact and_iff_left rfl

theorem loop_fst_of_fills (hfills : holders.FillsPlaces (declared arguments)
      (valueText str arguments) (places pathTemplate arguments)) :
    (loop str pathTemplate arguments).1 = simultaneous str pathTemplate arguments := by
  have hproper := holders.proper_read (declared arguments) pathTemplate
  have hpath := hfills _ (prefix_refl _)
  have hall : ∀ key, .inr key ∈ places pathTemplate arguments →
      among (declared arguments) (valueText str arguments) key =
        some (valueText str arguments key) :=
    fun key hkey => if_pos (hproper.known key hkey)
  rw [places, text_read, ← places, putIn_congr hall, text_putIn_some] at hpath
  rw [loop_fst, hpath, simultaneous]

theorem slash_notMem_token (key : ParamName) : '/' ∉ holders.token key := by
  intro h
  rcases mem_cons.mp h with h | h
  · exact absurd h (by decide)
  rcases mem_append.mp h with h | h
  · exact (key.plain _ h).2.2 rfl
  · exact absurd (mem_singleton.mp h) (by decide)

theorem count_simultaneous_iff :
    (simultaneous str pathTemplate arguments).count '/' = pathTemplate.count '/' ↔
      ∀ key, IsVariable pathTemplate arguments key → '/' ∉ valueText str arguments key := by
  have hcount := holders.count_eq_iff slash_notMem_token
    (valueText str arguments) (places pathTemplate arguments)
  rwa [places, text_read] at hcount

theorem get?_of_mem_declared (h : key ∈ declared arguments) :
    ∃ value, (arguments.erase selfName).get? key = some value :=
  Option.ne_none_iff_exists'.mp fun hnone =>
    Dict.get?_eq_none_iff.mp hnone h

theorem isVariable_of_mem_loop (h : SendsOnce str httpMethod pathTemplate arguments
      (buildRequest str httpMethod pathTemplate arguments))
    (hdeclared : key ∈ declared arguments)
    (hmem : key ∈ (loop str pathTemplate arguments).2) :
    IsVariable pathTemplate arguments key := by
  by_contra hnot
  obtain ⟨value, hvalue⟩ := get?_of_mem_declared arguments hdeclared
  by_cases hbody : IsBody httpMethod key
  · have hjson := h.json
    obtain rfl := hbody.2
    rw [buildRequest_json, if_neg (fun hsent => hsent.1 hmem),
      if_pos ⟨hnot, hbody⟩, hvalue] at hjson
    cases hjson
  · have hquery := h.query key
    rw [buildRequest_query, if_neg (fun hsent => hsent.1 hmem),
      if_pos ⟨hnot, hbody⟩, hvalue] at hquery
    cases hquery

/-- Each parameter is sent once exactly where no value brings the placeholder
of a later parameter or a slash. -/
theorem buildRequest_sendsOnce_iff : SendsOnce str httpMethod pathTemplate arguments
        (buildRequest str httpMethod pathTemplate arguments) ↔
      Separate str pathTemplate arguments := by
  constructor
  · intro h
    have hdistinct := (holders.fillsPlaces_iff _ _ _).mp h.untouched
    constructor
    · intro keys key hkeys
      by_cases hclean : (placeholder key).map .inl <:+:
          putIn (among keys (valueText str arguments)) (places pathTemplate arguments)
      · have hvalue := (hdistinct keys key hkeys).resolve_right (not_not.mpr hclean)
        have hmem := (mem_loop_iff str pathTemplate arguments h.untouched
          hkeys).mpr (Or.inl hclean)
        have hdeclared : key ∈ declared arguments :=
          hkeys.subset (mem_append_right _ (mem_singleton_self key))
        exact Or.inl ⟨hvalue, isVariable_of_mem_loop str httpMethod pathTemplate
          arguments h hdeclared hmem⟩
      · exact Or.inr hclean
    · have hsegments := h.segments
      rw [h.path] at hsegments
      exact (count_simultaneous_iff str pathTemplate arguments).mp hsegments
  · intro h
    have hdistinct : holders.Distinct (declared arguments)
        (valueText str arguments) (places pathTemplate arguments) :=
      fun keys key hkeys => (h.placeholders keys key hkeys).imp_left And.left
    have hfills := (holders.fillsPlaces_iff _ _ _).mpr hdistinct
    have hpath := loop_fst_of_fills str pathTemplate arguments hfills
    -- the path variables are those of the template
    have hmem : ∀ key ∈ declared arguments, (key ∈ (loop str pathTemplate arguments).2 ↔
          IsVariable pathTemplate arguments key) := by
      intro key hdeclared
      obtain ⟨keys, hkeys⟩ := exists_concat_le arguments hdeclared
      rw [mem_loop_iff str pathTemplate arguments hfills hkeys]
      constructor
      · rintro (hbrought | hvariable)
        · exact ((h.placeholders keys key hkeys).resolve_right (not_not.mpr hbrought)).2
        · exact hvariable
      · exact Or.inr
    have hsent (key : ParamName) (other : Prop) [Decidable other] :
        (if key ∉ (loop str pathTemplate arguments).2 ∧ other then
            (arguments.erase selfName).get? key
          else none) =
        if ¬ IsVariable pathTemplate arguments key ∧ other then
          (arguments.erase selfName).get? key
        else none := by
      by_cases hdeclared : key ∈ declared arguments
      · simp only [hmem key hdeclared]
      · have hnone := Dict.get?_eq_none_iff.mpr hdeclared
        rw [hnone, ite_self, ite_self]
    constructor
    · rw [buildRequest_path, hpath]
    · rw [buildRequest_json, hsent]
    · intro key
      rw [buildRequest_query, hsent]
    · exact hfills
    · rw [buildRequest_path, hpath]
      exact (count_simultaneous_iff str pathTemplate arguments).mpr h.slashes

end Meaning

/-- The template `/{a}` called with `{b}` for `a` and `1` for `b`. -/
theorem not_sendsOnce_braces : ¬ ∀ (httpMethod : String) (pathTemplate : List Char)
      (arguments : Dict ParamName (List Char)), SendsOnce id httpMethod pathTemplate arguments
          (buildRequest id httpMethod pathTemplate arguments) := by
  intro h
  have hpath := (h "GET" "/{a}".toList
    ((Dict.empty.set ⟨['a'], by decide⟩ "{b}".toList).set ⟨['b'], by decide⟩
      ['1'])).path
  revert hpath
  decide +kernel

end PyFly.Client
