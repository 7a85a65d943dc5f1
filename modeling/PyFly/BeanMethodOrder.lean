import Mathlib.Data.List.Nodup
import Mathlib.Data.List.Pairwise
import PyFly.Configurations
import PyFly.Library.Acyclic

/-!
# The order of bean methods

The sort counts a producer of a parameter when its return type is the type of
the parameter and no later method returns the same.  The container looks into
`Optional` and `list`, so that it may supply beans of producers which the sort
did not count.  These come in time when the queue of the sort happens to take
them sooner.
-/

namespace PyFly.Container

open Library List

variable {κ : Type}

/-! ## What is consumed -/

/-- What `typing.get_type_hints` makes of an annotation. -/
def TypeExpr.hint : TypeExpr κ → TypeExpr κ
  | .cls name => .cls name
  | .annotated base _ => base.hint
  | .optional inner => .optional inner.hint
  | .listOf item => .listOf item.hint
  | .classRef arg => .classRef arg

def BeanMethod.hinted (method : BeanMethod κ) : BeanMethod κ :=
  { method with
    returnType := method.returnType.map TypeExpr.hint
    parameters := method.parameters.map fun parameter =>
      { parameter with type := parameter.type.hint } }

/-- The type whose beans `_resolve_param` supplies for a type. -/
def TypeExpr.consumed : TypeExpr κ → Option (TypeExpr κ)
  | .cls name => some (.cls name)
  | .annotated base none => base.consumed
  | .annotated _ (some _) => none
  | .optional inner => some inner
  | .listOf item => some item
  | .classRef _ => none

def Feeds (methods : List (BeanMethod κ)) (producer consumer : String) :
    Prop :=
  ∃ made ∈ methods, ∃ taken ∈ methods, made.attrName = producer ∧
    taken.attrName = consumer ∧ ∃ parameter ∈ taken.parameters,
      ∃ type, made.returnType = some type ∧ parameter.type.consumed = some type

def lastProducer [DecidableEq κ] (methods : List (BeanMethod κ))
    (type : TypeExpr κ) : Option (BeanMethod κ) :=
  methods.reverse.find? fun method => method.returnType = some type

def Counts [DecidableEq κ] (methods : List (BeanMethod κ))
    (consumer producer : String) : Prop :=
  producer ≠ consumer ∧ ∃ taken ∈ methods, taken.attrName = consumer ∧
    ∃ parameter ∈ taken.parameters, ∃ made,
      lastProducer methods parameter.type = some made ∧ made.attrName = producer

section Readiness

variable (names : List String) (awaits : String → String → Prop)

def Listed (first second : String) : Prop :=
  names.idxOf first < names.idxOf second

inductive Sooner : String → String → Prop
  | ready {first second dep : String} (hdep : awaits second dep)
      (hready : ∀ other, awaits first other → Sooner other dep) :
      Sooner first second
  | together {first second dep : String} (hlisted : Listed names first second)
      (hdep : awaits second dep)
      (hready : ∀ other, awaits first other → other ≠ dep → Sooner other dep) :
      Sooner first second
  | free {first second : String} (hlisted : Listed names first second)
      (hfree : ∀ other, ¬ awaits first other) : Sooner first second

def ReadyBefore (rank : String → ℕ) (first second : String) : Prop :=
  (∃ dep, awaits second dep ∧ ∀ other, awaits first other → rank other < rank dep) ∨
  Listed names first second ∧ ((∀ other, ¬ awaits first other) ∨
      ∃ dep, awaits second dep ∧ ∀ other, awaits first other → rank other ≤ rank dep)

end Readiness

def ProducersFirst (methods sorted : List (BeanMethod κ)) : Prop :=
  (sorted.map BeanMethod.attrName).Pairwise fun first second =>
    ¬ Feeds methods second first

/-- The producers which the sort does not count become ready sooner than their
consumers; where the sort finds a cycle, all are listed before. -/
def InTime [DecidableEq κ] (methods : List (BeanMethod κ)) : Prop :=
  ((∀ name, ¬ Relation.TransGen
      (fun dep name => Counts methods name dep) name name) →
    ∀ producer consumer, Feeds methods producer consumer → ¬ Counts methods consumer producer →
        Sooner (methods.map BeanMethod.attrName) (Counts methods) producer consumer) ∧
  ∀ name, Relation.TransGen
      (fun dep name => Counts methods name dep) name name →
    ∀ producer consumer, Feeds methods producer consumer →
      Listed (methods.map BeanMethod.attrName) producer consumer

section Queue

variable (deps : List (String × List String))

def Awaits (name dep : String) : Prop :=
  ∃ entry ∈ deps, entry.1 = name ∧ dep ∈ entry.2

def remaining (taken : List String) : List (String × List String) :=
  deps.map fun entry => (entry.1, entry.2.filter (· ∉ taken))

structure Round (taken queue : List String) : Prop where
  nodup : (taken ++ queue).Nodup
  fed : ∀ name ∈ taken ++ queue, ∀ dep, Awaits deps name dep → dep ∈ taken
  sorted : (taken ++ queue).Pairwise (ReadyBefore (deps.map Prod.fst) (Awaits deps) fun name =>
      taken.idxOf name)
  earlier : (taken ++ queue).Pairwise fun first second =>
    ¬ Awaits deps first second
  named : ∀ name ∈ taken ++ queue, name ∈ deps.map Prod.fst
  complete : ∀ name ∈ deps.map Prod.fst,
    (∀ dep, Awaits deps name dep → dep ∈ taken) → name ∈ taken ++ queue

end Queue

section Positions

variable {α : Type} [BEq α] [LawfulBEq α] {names : List α}

theorem pairwise_idxOf_lt (hnames : names.Nodup) : names.Pairwise fun first second =>
      names.idxOf first < names.idxOf second := by
  rw [pairwise_iff_getElem]
  intro i j hi hj hlt
  rwa [hnames.idxOf_getElem, hnames.idxOf_getElem]

theorem rel_of_idxOf_lt {r : α → α → Prop} (hpairwise : names.Pairwise r)
    {first second : α} (hsecond : second ∈ names)
    (hlt : names.idxOf first < names.idxOf second) : r first second := by
  have hbound := idxOf_lt_length_of_mem hsecond
  have hrel := pairwise_iff_getElem.mp hpairwise _ _ (hlt.trans hbound) hbound hlt
  rwa [getElem_idxOf, getElem_idxOf] at hrel

theorem idxOf_lt_or_lt {first second : α} (hfirst : first ∈ names)
    (hne : first ≠ second) : names.idxOf first < names.idxOf second ∨
      names.idxOf second < names.idxOf first := by
  apply Nat.lt_or_gt_of_ne
  intro hsame
  exact hne ((idxOf_inj hfirst).mp hsame)

end Positions

section Rounds

variable {deps : List (String × List String)}

theorem awaits_iff (hnames : (deps.map Prod.fst).Nodup)
    {entry : String × List String} (hentry : entry ∈ deps) {dep : String} :
    Awaits deps entry.1 dep ↔ dep ∈ entry.2 := by
  constructor
  · intro h
    obtain ⟨other, hother, hname, hdep⟩ := h
    rwa [inj_on_of_nodup_map hnames hother hentry hname] at hdep
  · intro hdep
    exact ⟨entry, hentry, rfl, hdep⟩

theorem remaining_nil : remaining deps [] = deps := by
  unfold remaining
  simp

theorem discard_remaining (node : String) (taken : List String) :
    discard node (remaining deps taken) = remaining deps (taken ++ [node]) := by
  unfold discard remaining
  rw [map_map]
  apply map_congr_left
  intro entry _
  simp only [Function.comp_apply, filter_filter]
  congr 2
  funext dep
  simp only [mem_append, mem_singleton, not_or, ne_eq]
  rw [← Bool.decide_and]
  exact decide_eq_decide.mpr and_comm

variable {taken : List String}

/-- The methods which become ready with one are those which still waited for
it alone. -/
theorem mem_released_remaining (hnames : (deps.map Prod.fst).Nodup) {node name : String} :
    name ∈ released node (remaining deps taken) ↔
      name ∈ deps.map Prod.fst ∧ Awaits deps name node ∧ node ∉ taken ∧
        ∀ dep, Awaits deps name dep → dep ∈ taken ++ [node] := by
  rw [mem_released]
  constructor
  · rintro ⟨left, hleft, rfl, hnode, hnone⟩
    obtain ⟨entry, hentry, rfl⟩ := mem_map.mp hleft
    dsimp only at hnode hnone ⊢
    rw [mem_filter, decide_eq_true_eq] at hnode
    refine ⟨mem_map_of_mem hentry, (awaits_iff hnames hentry).mpr hnode.1, hnode.2, ?_⟩
    intro dep hdep
    rw [awaits_iff hnames hentry] at hdep
    by_contra hnot
    rw [mem_append, mem_singleton, not_or] at hnot
    have hmem : dep ∈ (entry.2.filter (· ∉ taken)).filter (· ≠ node) := by
      simp [hdep, hnot]
    rw [hnone] at hmem
    exact not_mem_nil hmem
  · rintro ⟨hname, hnode, hfresh, hall⟩
    obtain ⟨entry, hentry, rfl⟩ := mem_map.mp hname
    refine ⟨(entry.1, entry.2.filter (· ∉ taken)),
      mem_map_of_mem (f := fun entry : String × List String =>
        (entry.1, entry.2.filter (· ∉ taken))) hentry, rfl, ?_, ?_⟩
    · rw [awaits_iff hnames hentry] at hnode
      simp [hnode, hfresh]
    · rw [filter_eq_nil_iff]
      intro dep hdep
      rw [mem_filter, decide_eq_true_eq] at hdep
      have hmem := hall dep ((awaits_iff hnames hentry).mpr hdep.1)
      rw [mem_append, mem_singleton] at hmem
      simpa using hmem.resolve_left hdep.2

theorem ReadyBefore.append {more : List String} {first second : String}
    (hfirst : ∀ dep, Awaits deps first dep → dep ∈ taken)
    (hsecond : ∀ dep, Awaits deps second dep → dep ∈ taken)
    (h : ReadyBefore (deps.map Prod.fst) (Awaits deps)
      (fun name => taken.idxOf name) first second) :
    ReadyBefore (deps.map Prod.fst) (Awaits deps)
      (fun name => (taken ++ more).idxOf name) first second := by
  have hsame : ∀ name ∈ taken, (taken ++ more).idxOf name = taken.idxOf name :=
    fun _ hname => idxOf_append_of_mem hname
  rcases h with ⟨dep, hdep, hlt⟩ | ⟨hlisted, hfree | ⟨dep, hdep, hle⟩⟩
  · refine .inl ⟨dep, hdep, ?_⟩
    intro other hother
    dsimp only
    rw [hsame _ (hfirst other hother), hsame _ (hsecond dep hdep)]
    exact hlt other hother
  · exact .inr ⟨hlisted, .inl hfree⟩
  · refine .inr ⟨hlisted, .inr ⟨dep, hdep, ?_⟩⟩
    intro other hother
    dsimp only
    rw [hsame _ (hfirst other hother), hsame _ (hsecond dep hdep)]
    exact hle other hother

theorem Round.start (hnames : (deps.map Prod.fst).Nodup) :
    Round deps [] ((deps.filter fun entry => entry.2 = []).map Prod.fst) := by
  have hfree : ∀ name ∈ (deps.filter fun entry => entry.2 = []).map Prod.fst,
      ∀ dep, ¬ Awaits deps name dep := by
    intro name hname dep hdep
    obtain ⟨entry, hentry, rfl⟩ := mem_map.mp hname
    obtain ⟨hmem, hnone⟩ := mem_filter.mp hentry
    rw [awaits_iff hnames hmem, of_decide_eq_true hnone] at hdep
    exact not_mem_nil hdep
  have hsub : ((deps.filter fun entry => entry.2 = []).map Prod.fst).Sublist
      (deps.map Prod.fst) := filter_sublist.map Prod.fst
  refine ⟨hnames.sublist hsub, ?_, ?_, ?_, fun name hname => hsub.subset hname, ?_⟩
  · intro name hname dep hdep
    exact absurd hdep (hfree name hname dep)
  · refine ((pairwise_idxOf_lt hnames).sublist hsub).imp_of_mem ?_
    intro first second hfirst _ hlisted
    exact .inr ⟨hlisted, .inl (hfree first hfirst)⟩
  · apply pairwise_of_forall_mem_list
    intro first hfirst second _
    exact hfree first hfirst second
  · intro name hname hnone
    obtain ⟨entry, hentry, rfl⟩ := mem_map.mp hname
    refine mem_map_of_mem (mem_filter.mpr ⟨hentry, ?_⟩)
    apply decide_eq_true
    apply eq_nil_iff_forall_not_mem.mpr
    intro dep hdep
    exact not_mem_nil (hnone dep ((awaits_iff hnames hentry).mpr hdep))

theorem Round.next (hnames : (deps.map Prod.fst).Nodup) {queue : List String} {node : String}
    (h : Round deps taken (node :: queue)) :
    Round deps (taken ++ [node]) (queue ++ released node (remaining deps taken)) := by
  have hnew : ∀ name, name ∈ released node (remaining deps taken) ↔
      name ∈ deps.map Prod.fst ∧ Awaits deps name node ∧ node ∉ taken ∧
        ∀ dep, Awaits deps name dep → dep ∈ taken ++ [node] :=
    fun _ => mem_released_remaining hnames
  have hsub : (released node (remaining deps taken)).Sublist (deps.map Prod.fst) := by
    have hkeys : (remaining deps taken).map Prod.fst = deps.map Prod.fst := by
      unfold remaining
      rw [map_map]
      rfl
    rw [← hkeys]
    exact filter_sublist.map Prod.fst
  have hfed : ∀ name ∈ taken ++ node :: queue, ∀ dep,
      Awaits deps name dep → dep ∈ taken ++ [node] :=
    fun name hname dep hdep =>
      mem_append_left _ (h.fed name hname dep hdep)
  have hnode : node ∉ taken := fun hmem =>
    disjoint_of_nodup_append h.nodup hmem mem_cons_self
  have hall : ∀ name ∈ taken ++ node :: queue ++ released node (remaining deps taken), ∀ dep,
        Awaits deps name dep → dep ∈ taken ++ [node] := by
    intro name hname
    rcases mem_append.mp hname with hname | hname
    · exact hfed name hname
    · exact ((hnew name).mp hname).2.2.2
  have hdisjoint : ∀ name ∈ taken ++ node :: queue,
      name ∉ released node (remaining deps taken) := by
    intro name hname hmem
    exact hnode (h.fed name hname node ((hnew name).mp hmem).2.1)
  have hbehind : ∀ name ∈ released node (remaining deps taken), name ∉ taken ++ [node] := by
    intro name hname hmem
    refine hdisjoint name ?_ hname
    rcases mem_append.mp hmem with hmem | hmem
    · exact mem_append_left _ hmem
    · rw [mem_singleton] at hmem
      exact mem_append_right _ (hmem ▸ mem_cons_self)
  have hrank : ∀ name ∈ taken, (taken ++ [node]).idxOf name < (taken ++ [node]).idxOf node := by
    intro name hname
    rw [idxOf_append_of_mem hname, idxOf_append_of_notMem hnode]
    exact Nat.lt_add_right _ (idxOf_lt_length_of_mem hname)
  have horder : taken ++ [node] ++ (queue ++ released node (remaining deps taken)) =
        taken ++ node :: queue ++ released node (remaining deps taken) := by
    simp
  constructor
  · rw [horder]
    refine h.nodup.append (hnames.sublist hsub) ?_
    intro name hname hmem
    exact hdisjoint name hname hmem
  · rw [horder]
    exact hall
  · rw [horder, pairwise_append]
    refine ⟨?_, ?_, ?_⟩
    · apply h.sorted.imp_of_mem
      intro first second hfirst hsecond hready
      exact hready.append (h.fed first hfirst) (h.fed second hsecond)
    · apply ((pairwise_idxOf_lt hnames).sublist hsub).imp_of_mem
      intro first second hfirst hsecond hlisted
      refine .inr ⟨hlisted, .inr ⟨node, ((hnew second).mp hsecond).2.1, ?_⟩⟩
      intro other hother
      have hmem := ((hnew first).mp hfirst).2.2.2 other hother
      rcases mem_append.mp hmem with hmem | hmem
      · exact Nat.le_of_lt (hrank other hmem)
      · rw [mem_singleton] at hmem
        exact Nat.le_of_eq (congrArg (fun name => (taken ++ [node]).idxOf name) hmem)
    · intro first hfirst second hsecond
      refine .inl ⟨node, ((hnew second).mp hsecond).2.1, ?_⟩
      intro other hother
      exact hrank other (h.fed first hfirst other hother)
  · rw [horder, pairwise_append]
    refine ⟨h.earlier, ?_, ?_⟩
    · apply pairwise_of_forall_mem_list
      intro first hfirst second hsecond hawaits
      exact hbehind second hsecond (((hnew first).mp hfirst).2.2.2 second hawaits)
    · intro first hfirst second hsecond hawaits
      exact hbehind second hsecond (hfed first hfirst second hawaits)
  · rw [horder]
    intro name hname
    rcases mem_append.mp hname with hname | hname
    · exact h.named name hname
    · exact hsub.subset hname
  · rw [horder]
    intro name hname hready
    by_cases hbefore : ∀ dep, Awaits deps name dep → dep ∈ taken
    · exact mem_append_left _ (h.complete name hname hbefore)
    · refine mem_append_right _ ((hnew name).mpr ⟨hname, ?_, hnode, hready⟩)
      by_contra hnot
      apply hbefore
      intro dep hdep
      rcases mem_append.mp (hready dep hdep) with hmem | hmem
      · exact hmem
      · rw [mem_singleton] at hmem
        exact absurd (hmem ▸ hdep) hnot

theorem Round.run (hnames : (deps.map Prod.fst).Nodup) (fuel : ℕ)
    {queue : List String} (h : Round deps taken queue) :
    ∃ rest, Round deps (taken ++ takeReady fuel queue (remaining deps taken)) rest ∧
      (rest = [] ∨ (takeReady fuel queue (remaining deps taken)).length = fuel) := by
  induction fuel generalizing taken queue with
  | zero =>
    refine ⟨queue, ?_, .inr rfl⟩
    rw [takeReady, append_nil]
    exact h
  | succ fuel ih =>
    cases queue with
    | nil =>
      refine ⟨[], ?_, .inl rfl⟩
      rw [takeReady, append_nil]
      exact h
    | cons node queue =>
      obtain ⟨rest, hrest, hend⟩ := ih (h.next hnames)
      rw [← discard_remaining] at hrest hend
      rw [takeReady, append_cons]
      exact ⟨rest, hrest, hend.imp_right fun hlength => by
        rw [length_cons, hlength]⟩

theorem Round.awaits_lt {order : List String} (h : Round deps order [])
    (hself : ∀ name, ¬ Awaits deps name name) {name dep : String}
    (hname : name ∈ order) (hdep : Awaits deps name dep) :
    order.idxOf dep < order.idxOf name := by
  have hearlier := h.earlier
  have hfed := h.fed
  rw [append_nil] at hearlier hfed
  have hmem := hfed name hname dep hdep
  have hne : dep ≠ name := by
    rintro rfl
    exact hself dep hdep
  rcases idxOf_lt_or_lt hmem hne with hlt | hlt
  · exact hlt
  · exact absurd hdep (rel_of_idxOf_lt hearlier hmem hlt)

theorem Round.sooner_iff {order : List String} (h : Round deps order [])
    (hself : ∀ name, ¬ Awaits deps name name) {first second : String}
    (hfirst : first ∈ order) (hsecond : second ∈ order) :
    Sooner (deps.map Prod.fst) (Awaits deps) first second ↔
      order.idxOf first < order.idxOf second := by
  have hfed := h.fed
  have hsorted := h.sorted
  rw [append_nil] at hfed hsorted
  have hready : ∀ first ∈ order, ∀ second ∈ order, order.idxOf first < order.idxOf second →
        ReadyBefore (deps.map Prod.fst) (Awaits deps)
          (fun name => order.idxOf name) first second :=
    fun _ _ _ hsecond hlt => rel_of_idxOf_lt hsorted hsecond hlt
  constructor
  · intro hsooner
    induction hsooner with
    | @ready first second dep hdep _ ih =>
      have hdeps := hfed second hsecond dep hdep
      by_contra hnot
      rcases Nat.eq_or_lt_of_le (Nat.not_lt.mp hnot) with hsame | hlt
      · rw [(idxOf_inj hsecond).mp hsame] at hdep
        exact Nat.lt_irrefl _ (ih dep hdep (hfed _ hfirst _ hdep) hdeps)
      · rcases hready second hsecond first hfirst hlt with
          ⟨other, hother, hmax⟩ | ⟨-, hfree | ⟨other, hother, hmax⟩⟩
        · exact Nat.lt_asymm (hmax dep hdep) (ih other hother (hfed _ hfirst _ hother) hdeps)
        · exact hfree dep hdep
        · exact Nat.not_lt.mpr (hmax dep hdep) (ih other hother (hfed _ hfirst _ hother) hdeps)
    | @together first second dep hlisted hdep _ ih =>
      have hdeps := hfed second hsecond dep hdep
      have hle : ∀ other, Awaits deps first other → order.idxOf other ≤ order.idxOf dep := by
        intro other hother
        by_cases hsame : other = dep
        · rw [hsame]
        · exact Nat.le_of_lt (ih other hother hsame (hfed _ hfirst _ hother) hdeps)
      by_contra hnot
      rcases Nat.eq_or_lt_of_le (Nat.not_lt.mp hnot) with hsame | hlt
      · rw [(idxOf_inj hsecond).mp hsame] at hlisted
        exact Nat.lt_irrefl _ hlisted
      · rcases hready second hsecond first hfirst hlt with
          ⟨other, hother, hmax⟩ | ⟨hbefore, -⟩
        · exact Nat.not_lt.mpr (hle other hother) (hmax dep hdep)
        · exact Nat.lt_asymm hlisted hbefore
    | @free first second hlisted hfree =>
      by_contra hnot
      rcases Nat.eq_or_lt_of_le (Nat.not_lt.mp hnot) with hsame | hlt
      · rw [(idxOf_inj hsecond).mp hsame] at hlisted
        exact Nat.lt_irrefl _ hlisted
      · rcases hready second hsecond first hfirst hlt with
          ⟨other, hother, -⟩ | ⟨hbefore, -⟩
        · exact hfree other hother
        · exact Nat.lt_asymm hlisted hbefore
  · induction hrank : order.idxOf second using Nat.strong_induction_on
      generalizing first second with
    | _ rank ih =>
      intro hlt
      rcases hready first hfirst second hsecond (hrank ▸ hlt) with
        ⟨dep, hdep, hmax⟩ | ⟨hlisted, hfree | ⟨dep, hdep, hmax⟩⟩
      · have hdeps := hfed second hsecond dep hdep
        refine .ready hdep fun other hother => ?_
        exact ih _ (hrank ▸ h.awaits_lt hself hsecond hdep)
          (hfed _ hfirst _ hother) hdeps rfl (hmax other hother)
      · exact .free hlisted hfree
      · have hdeps := hfed second hsecond dep hdep
        refine .together hlisted hdep fun other hother hne => ?_
        refine ih _ (hrank ▸ h.awaits_lt hself hsecond hdep)
          (hfed _ hfirst _ hother) hdeps rfl ?_
        refine Nat.lt_of_le_of_ne (hmax other hother) fun hsame => hne ?_
        exact (idxOf_inj (hfed _ hfirst _ hother)).mp hsame

end Rounds

/-! ## What the sort counts -/

variable {producer consumer : String}

theorem Feeds.mem {methods : List (BeanMethod κ)} (h : Feeds methods producer consumer) :
    producer ∈ methods.map BeanMethod.attrName ∧
      consumer ∈ methods.map BeanMethod.attrName := by
  obtain ⟨made, hmade, taken, htaken, rfl, rfl, -⟩ := h
  exact ⟨mem_map_of_mem hmade, mem_map_of_mem htaken⟩

section Sorting

variable [DecidableEq κ] {methods : List (BeanMethod κ)}

theorem get?_producers (methods : List (BeanMethod κ)) (type : TypeExpr κ) :
    (producers methods).get? type = (lastProducer methods type).map BeanMethod.attrName := by
  induction methods using List.reverseRecOn with
  | nil => rfl
  | append_singleton methods method ih =>
    unfold producers Dict.ofList lastProducer at ih ⊢
    rw [filterMap_append, foldl_append, reverse_append,
      reverse_singleton, singleton_append, List.find?_cons]
    cases hreturn : method.returnType with
    | none => simpa [hreturn] using ih
    | some returned =>
      rw [filterMap_cons, hreturn, filterMap_nil]
      dsimp only [Option.map_some]
      rw [foldl_cons, foldl_nil]
      by_cases hsame : returned = type
      · subst hsame
        rw [Dict.get?_set_self]
        simp
      · rw [Dict.get?_set_of_ne (Ne.symm hsame), ih]
        simp [hsame]

theorem awaits_allDeps (methods : List (BeanMethod κ)) :
    Awaits (allDeps methods) = Counts methods := by
  funext consumer producer
  apply propext
  constructor
  · rintro ⟨entry, hentry, rfl, hdep⟩
    obtain ⟨taken, htaken, rfl⟩ := mem_map.mp hentry
    obtain ⟨hmem, hne⟩ := mem_filter.mp hdep
    obtain ⟨parameter, hparameter, hget⟩ := mem_filterMap.mp hmem
    rw [get?_producers, Option.map_eq_some_iff] at hget
    exact ⟨of_decide_eq_true hne, taken, htaken, rfl, parameter, hparameter, hget⟩
  · rintro ⟨hne, taken, htaken, rfl, parameter, hparameter, hmade⟩
    refine ⟨_, mem_map_of_mem htaken, rfl, ?_⟩
    refine mem_filter.mpr ⟨mem_filterMap.mpr ⟨parameter, hparameter, ?_⟩, decide_eq_true hne⟩
    rw [get?_producers, Option.map_eq_some_iff]
    exact hmade

theorem not_awaits_self (methods : List (BeanMethod κ)) (name : String) :
    ¬ Awaits (allDeps methods) name name := by
  rw [awaits_allDeps]
  exact fun hcounts => hcounts.1 rfl

theorem Counts.mem {consumer producer : String} (h : Counts methods consumer producer) :
    consumer ∈ methods.map BeanMethod.attrName ∧
      producer ∈ methods.map BeanMethod.attrName := by
  obtain ⟨_, taken, htaken, rfl, _, _, made, hmade, rfl⟩ := h
  have hmem := mem_of_find?_eq_some hmade
  exact ⟨mem_map_of_mem htaken, mem_map_of_mem (mem_reverse.mp hmem)⟩

theorem orderedNames_cases (h : (methods.map BeanMethod.attrName).Nodup) :
    (∃ name, Relation.TransGen
        (fun dep name => Counts methods name dep) name name) ∧
      (orderedNames methods).length ≠ methods.length ∨
    (∀ name, ¬ Relation.TransGen
        (fun dep name => Counts methods name dep) name name) ∧
      (orderedNames methods).length = methods.length ∧
        Round (allDeps methods) (orderedNames methods) [] := by
  have hnames : ((allDeps methods).map Prod.fst).Nodup := by
    rwa [map_fst_allDeps]
  obtain ⟨rest, hround, hend⟩ :=
    (Round.start hnames).run hnames methods.length
  rw [remaining_nil] at hround hend
  rw [nil_append] at hround
  change Round (allDeps methods) (orderedNames methods) rest at hround
  change rest = [] ∨ (orderedNames methods).length = methods.length at hend
  have hnodup : (orderedNames methods).Nodup :=
    (nodup_append.mp hround.nodup).1
  by_cases hlength : (orderedNames methods).length = methods.length
  · have hperm := orderedNames_perm h hlength
    obtain rfl : rest = [] := by
      apply eq_nil_iff_forall_not_mem.mpr
      intro name hname
      have hnamed := hround.named name (mem_append_right _ hname)
      rw [map_fst_allDeps] at hnamed
      exact disjoint_of_nodup_append hround.nodup (hperm.mem_iff.mpr hnamed) hname
    refine .inr ⟨?_, hlength, hround⟩
    apply acyclic_of_rank_lt fun name => (orderedNames methods).idxOf name
    intro dep name hcounts
    exact hround.awaits_lt (not_awaits_self methods)
      (hperm.mem_iff.mpr hcounts.mem.1) (awaits_allDeps methods ▸ hcounts)
  · refine .inl ⟨?_, hlength⟩
    obtain rfl := hend.resolve_right hlength
    by_contra hacyclic
    rw [not_exists] at hacyclic
    have hall : ∀ name ∈ methods.map BeanMethod.attrName, name ∈ orderedNames methods := by
      refine forall_mem_of_acyclic (p := fun name =>
        name ∈ orderedNames methods) hacyclic ?_
      intro name hname hdeps
      have hmem := hround.complete name (by rwa [map_fst_allDeps])
      rw [awaits_allDeps, append_nil] at hmem
      exact hmem fun dep hdep => hdeps dep hdep.mem.2 hdep
    have hsub := (List.Nodup.subperm h hall).length_le
    have hsup := (List.Nodup.subperm hnodup fun name hname =>
      map_fst_allDeps methods ▸
        hround.named name (mem_append_left _ hname)).length_le
    rw [length_map] at hsub hsup
    exact hlength (Nat.le_antisymm hsup hsub)

theorem map_sortBeanMethods (h : (methods.map BeanMethod.attrName).Nodup)
    (hlength : (orderedNames methods).length = methods.length) :
    (sortBeanMethods methods).map BeanMethod.attrName = orderedNames methods := by
  have hperm := orderedNames_perm h hlength
  unfold sortBeanMethods
  rw [if_neg (not_not.mpr hlength), map_filterMap]
  have hfound : ∀ name ∈ orderedNames methods,
      (methods.find? fun method => method.attrName = name).map
        BeanMethod.attrName = some name := by
    intro name hname
    obtain ⟨method, hmethod, rfl⟩ :=
      mem_map.mp (hperm.mem_iff.mp hname)
    rw [find?_attrName h hmethod, Option.map_some]
  rw [filterMap_congr hfound, filterMap_some]

end Sorting

/-! ## Producers first -/

theorem pairwise_not_feeds_iff {methods : List (BeanMethod κ)}
    {order : List String} (hnodup : order.Nodup)
    (hmem : ∀ name ∈ methods.map BeanMethod.attrName, name ∈ order)
    (hself : ∀ name, ¬ Feeds methods name name) :
    (order.Pairwise fun first second => ¬ Feeds methods second first) ↔
      ∀ producer consumer, Feeds methods producer consumer →
        order.idxOf producer < order.idxOf consumer := by
  constructor
  · intro hpairwise producer consumer hfeeds
    have hproducer := hmem _ hfeeds.mem.1
    have hne : producer ≠ consumer := by
      rintro rfl
      exact hself producer hfeeds
    rcases idxOf_lt_or_lt hproducer hne with hlt | hlt
    · exact hlt
    · exact absurd hfeeds (rel_of_idxOf_lt hpairwise hproducer hlt)
  · intro hbefore
    refine (pairwise_idxOf_lt hnodup).imp ?_
    intro first second hlt hfeeds
    exact Nat.lt_asymm hlt (hbefore second first hfeeds)

section Order

variable [DecidableEq κ]

/-- The sort is a permutation with each method after its producers exactly when
those which it does not count are in time. -/
theorem sortBeanMethods_producersFirst_iff (methods : List (BeanMethod κ))
    (hnames : (methods.map BeanMethod.attrName).Nodup)
    (hacyclic : ∀ name, ¬ Relation.TransGen (Feeds (methods.map BeanMethod.hinted)) name name) :
    ((sortBeanMethods (methods.map BeanMethod.hinted)).Perm (methods.map BeanMethod.hinted) ∧
      ProducersFirst (methods.map BeanMethod.hinted)
        (sortBeanMethods (methods.map BeanMethod.hinted))) ↔
      InTime (methods.map BeanMethod.hinted) := by
  have hhinted : ((methods.map BeanMethod.hinted).map BeanMethod.attrName).Nodup := by
    rw [map_map]
    exact hnames
  generalize methods.map BeanMethod.hinted = hinted at hacyclic hhinted ⊢
  have hself : ∀ name, ¬ Feeds hinted name name := fun name hfeeds =>
    hacyclic name (.single hfeeds)
  rw [and_iff_right (sortBeanMethods_perm hhinted)]
  unfold ProducersFirst InTime
  rcases orderedNames_cases hhinted with
    ⟨⟨name, hcycle⟩, hlength⟩ | ⟨hcounts, hlength, hround⟩
  · have hsorted : sortBeanMethods hinted = hinted := by
      unfold sortBeanMethods
      rw [if_pos hlength]
    rw [hsorted, pairwise_not_feeds_iff hhinted (fun _ h => h) hself]
    constructor
    · intro hlisted
      exact ⟨fun hcounts => absurd hcycle (hcounts name), fun _ _ => hlisted⟩
    · intro hintime
      exact hintime.2 name hcycle
  · have hperm := orderedNames_perm hhinted hlength
    have hsooner : ∀ first ∈ orderedNames hinted, ∀ second ∈ orderedNames hinted,
        (Sooner (hinted.map BeanMethod.attrName) (Counts hinted) first second ↔
          (orderedNames hinted).idxOf first < (orderedNames hinted).idxOf second) := by
      intro first hfirst second hsecond
      have hiff := hround.sooner_iff (not_awaits_self hinted) hfirst hsecond
      rwa [map_fst_allDeps, awaits_allDeps] at hiff
    rw [map_sortBeanMethods hhinted hlength,
      pairwise_not_feeds_iff (hperm.nodup_iff.mpr hhinted)
        (fun _ h => hperm.mem_iff.mpr h) hself]
    constructor
    · intro hbefore
      refine ⟨?_, fun name hcycle => absurd hcycle (hcounts name)⟩
      intro _ producer consumer hfeeds _
      exact (hsooner _ (hperm.mem_iff.mpr hfeeds.mem.1) _
        (hperm.mem_iff.mpr hfeeds.mem.2)).mpr (hbefore producer consumer hfeeds)
    · intro hintime producer consumer hfeeds
      have hproducer := hperm.mem_iff.mpr hfeeds.mem.1
      have hconsumer := hperm.mem_iff.mpr hfeeds.mem.2
      by_cases hcounted : Counts hinted consumer producer
      · exact hround.awaits_lt (not_awaits_self hinted) hconsumer
          (awaits_allDeps hinted ▸ hcounted)
      · exact (hsooner _ hproducer _ hconsumer).mp
          (hintime.1 hcounts producer consumer hfeeds hcounted)

end Order

def beanMethod (attrName : String) (returnType : ℕ)
    (parameters : List (Parameter ℕ)) : BeanMethod ℕ where
  attrName := attrName
  functionName := attrName
  returnType := some (.cls returnType)
  parameters := parameters
  conditions := []

def listedMethods : List (BeanMethod ℕ) :=
  [beanMethod "base" 1 [], beanMethod "client" 2 [⟨"bases", .listOf (.cls 1), false⟩]]

theorem feeds_listedMethods
    (h : Feeds (listedMethods.map BeanMethod.hinted) producer consumer) :
    producer = "base" ∧ consumer = "client" := by
  obtain ⟨made, hmade, taken, htaken, rfl, rfl, parameter, hparameter, type,
    hreturn, hconsumed⟩ := h
  rcases mem_pair.mp htaken with rfl | rfl
  · exact absurd hparameter not_mem_nil
  · obtain rfl := mem_singleton.mp hparameter
    obtain rfl := Option.some.inj hconsumed
    rcases mem_pair.mp hmade with rfl | rfl
    · exact ⟨rfl, rfl⟩
    · exact absurd hreturn (by decide)

theorem listed_listedMethods :
    Listed ((listedMethods.map BeanMethod.hinted).map BeanMethod.attrName) "base" "client" := by
  unfold Listed
  decide

theorem inTime_listedMethods : InTime (listedMethods.map BeanMethod.hinted) := by
  constructor
  · intro _ producer consumer hfeeds _
    obtain ⟨rfl, rfl⟩ := feeds_listedMethods hfeeds
    refine .free listed_listedMethods ?_
    rintro other ⟨-, taken, htaken, hname, parameter, hparameter, -⟩
    rcases mem_pair.mp htaken with rfl | rfl
    · exact absurd hparameter not_mem_nil
    · exact absurd hname (by decide)
  · intro _ _ producer consumer hfeeds
    obtain ⟨rfl, rfl⟩ := feeds_listedMethods hfeeds
    exact listed_listedMethods

theorem sortBeanMethods_producersFirst_listed :
    (sortBeanMethods (listedMethods.map BeanMethod.hinted)).Perm
        (listedMethods.map BeanMethod.hinted) ∧
      ProducersFirst (listedMethods.map BeanMethod.hinted)
        (sortBeanMethods (listedMethods.map BeanMethod.hinted)) := by
  refine (sortBeanMethods_producersFirst_iff listedMethods (by decide)
    ?_).mpr inTime_listedMethods
  apply acyclic_of_rank_lt fun name => if name = "client" then 1 else 0
  intro producer consumer hfeeds
  obtain ⟨rfl, rfl⟩ := feeds_listedMethods hfeeds
  decide

def optionalMethods : List (BeanMethod ℕ) :=
  [beanMethod "client" 2 [⟨"base", .optional (.cls 1), false⟩], beanMethod "service" 1 []]

theorem feeds_optionalMethods
    (h : Feeds (optionalMethods.map BeanMethod.hinted) producer consumer) :
    producer = "service" ∧ consumer = "client" := by
  obtain ⟨made, hmade, taken, htaken, rfl, rfl, parameter, hparameter, type,
    hreturn, hconsumed⟩ := h
  rcases mem_pair.mp htaken with rfl | rfl
  · obtain rfl := mem_singleton.mp hparameter
    obtain rfl := Option.some.inj hconsumed
    rcases mem_pair.mp hmade with rfl | rfl
    · exact absurd hreturn (by decide)
    · exact ⟨rfl, rfl⟩
  · exact absurd hparameter not_mem_nil

/-- An optional parameter is resolved before its producer has run. -/
theorem not_producersFirst_optional : ¬ ∀ methods : List (BeanMethod ℕ),
      (methods.map BeanMethod.attrName).Nodup →
      (∀ name, ¬ Relation.TransGen (Feeds (methods.map BeanMethod.hinted)) name name) →
      (sortBeanMethods (methods.map BeanMethod.hinted)).Perm (methods.map BeanMethod.hinted) ∧
        ProducersFirst (methods.map BeanMethod.hinted)
          (sortBeanMethods (methods.map BeanMethod.hinted)) := by
  intro h
  have hacyclic : ∀ name, ¬ Relation.TransGen
      (Feeds (optionalMethods.map BeanMethod.hinted)) name name := by
    apply acyclic_of_rank_lt fun name => if name = "client" then 1 else 0
    intro producer consumer hfeeds
    obtain ⟨rfl, rfl⟩ := feeds_optionalMethods hfeeds
    decide
  have hfirst := (h optionalMethods (by decide) hacyclic).2
  have hsorted : (sortBeanMethods (optionalMethods.map
      BeanMethod.hinted)).map BeanMethod.attrName = ["client", "service"] := by
    decide +kernel
  unfold ProducersFirst at hfirst
  rw [hsorted, pairwise_pair] at hfirst
  apply hfirst
  refine ⟨_, mem_cons_of_mem _ mem_cons_self, _,
    mem_cons_self, rfl, rfl, _, mem_cons_self, _, rfl, rfl⟩

end PyFly.Container
