import PyFly.Library.Gather

/-!
# Descending programs


A rank orders the queries.  When the main coroutine never climbs in rank, when
the children of a gathering stay on the level of its query and when nothing
follows a gathering that was left early, then the levels do not overlap in
time: what is issued on one level starts after everything above has ended.
-/

namespace PyFly.Library

open List

variable {Q R α β : Type}


def Coroutine.Layered (rules : GatherRules Q R β) (rank : Q → Option ℕ)
    (fault : R → Bool) : Coroutine Q R α → Prop
  | .done _ => True
  | .await query resume =>
    (∀ codes, rules.children query = some codes →
      (∃ level, rank query = some level ∧ ∀ code ∈ codes,
        code.Always fun query => (rank query).getD level = level) ∧
      ∀ reply, fault reply = true → (resume reply).isDone = true) ∧
    ∀ reply, (resume reply).Layered rules rank fault

def Above (rank : Q → Option ℕ) (level : ℕ) (counted : Q → Bool) : Prop :=
  ∀ query, counted query = true → ∃ higher, rank query = some higher ∧ level < higher

def Ordered (rank : Q → Option ℕ) (trace : List (Signal Q R)) : Prop :=
  ∀ before query after level, trace = before ++ .issued query :: after →
    rank query = some level → ∀ counted, Above rank level counted →
      before.countP (Signal.issues counted) = before.countP (Signal.answers counted) ∧
        ∀ signal ∈ after, counted signal.query = false

def Floor (rank : Q → Option ℕ) (level : ℕ) (trace : List (Signal Q R)) :
    Prop :=
  ∀ query, .issued query ∈ trace → ∀ found, rank query = some found → level ≤ found

section Descent

variable {rank : Q → Option ℕ} {trace : List (Signal Q R)} {level : ℕ}

variable {query : Q}

theorem Above.eq_false {counted : Q → Bool} (habove : Above rank level counted)
    (hlevel : (rank query).getD level = level) :
    counted query = false := by
  cases hcounted : counted query with
  | false => rfl
  | true =>
    obtain ⟨higher, hrank, hlt⟩ := habove query hcounted
    rw [hrank] at hlevel
    exact absurd hlevel (Nat.ne_of_gt hlt)

theorem Ordered.append_signal (hordered : Ordered rank trace) {signal : Signal Q R}
    (hlow : ∀ query, .issued query ∈ trace → ∀ found,
      rank query = some found → ∀ counted, Above rank found counted →
        counted signal.query = false)
    (hissued : ∀ query, signal = .issued query → ∀ found,
      rank query = some found → ∀ counted, Above rank found counted →
        trace.countP (Signal.issues counted) = trace.countP (Signal.answers counted)) :
    Ordered rank (trace ++ [signal]) := by
  intro before query after found hsplit hrank counted habove
  rcases eq_nil_or_concat after with hnil | ⟨init, last, hafter⟩
  · rw [hnil] at hsplit
    obtain ⟨hbefore, hsignal⟩ := append_inj' hsplit rfl
    have hsignal' := singleton_inj.mp hsignal
    rw [hnil, ← hbefore]
    refine ⟨hissued query hsignal' found hrank counted habove, ?_⟩
    intro other hmem
    cases hmem
  · rw [concat_eq_append] at hafter
    rw [hafter, ← cons_append, ← append_assoc] at hsplit
    obtain ⟨htrace, hlast⟩ := append_inj' hsplit rfl
    have hlast' := singleton_inj.mp hlast
    obtain ⟨hcounts, hrest⟩ :=
      hordered before query init found htrace hrank counted habove
    refine ⟨hcounts, ?_⟩
    intro other hmem
    rw [hafter] at hmem
    rcases mem_append.mp hmem with hinit | hend
    · exact hrest other hinit
    · rw [mem_singleton.mp hend, ← hlast']
      have hmemQuery : .issued query ∈ trace := by
        rw [htrace]
        exact mem_append_right before mem_cons_self
      exact hlow query hmemQuery found hrank counted habove

theorem Floor.low (hfloor : Floor rank level trace) {issued : Q}
    {found : ℕ} (hquery : (rank query).getD level = level)
    (hmem : .issued issued ∈ trace) (hrank : rank issued = some found)
    {counted : Q → Bool} (habove : Above rank found counted) :
    counted query = false := by
  have hle := hfloor issued hmem found hrank
  cases hcounted : counted query with
  | false => rfl
  | true =>
    obtain ⟨higher, hhigher, hlt⟩ := habove query hcounted
    rw [hhigher] at hquery
    have hsame : higher = level := hquery
    omega

theorem Ordered.append_answered (hordered : Ordered rank trace)
    (hfloor : Floor rank level trace) (hquery : (rank query).getD level = level)
    (reply : R) :
    Ordered rank (trace ++ [.answered query reply]) ∧
      Floor rank level (trace ++ [.answered query reply]) := by
  constructor
  · apply hordered.append_signal
    · intro issued hmem found hrank counted habove
      exact hfloor.low hquery hmem hrank habove
    · intro other heq
      cases heq
  · intro issued hmem found hrank
    rcases mem_append.mp hmem with hold | hnew
    · exact hfloor issued hold found hrank
    · cases mem_singleton.mp hnew

theorem Ordered.append_issued (hordered : Ordered rank trace) (hfloor : Floor rank level trace)
    (hended : ∀ counted, Above rank level counted → trace.countP (Signal.issues counted) =
        trace.countP (Signal.answers counted))
    (queries : List Q)
    (hqueries : ∀ query ∈ queries, (rank query).getD level = level) :
    Ordered rank (trace ++ queries.map .issued) ∧
      Floor rank level (trace ++ queries.map .issued) := by
  induction queries generalizing trace with
  | nil =>
    rw [map_nil, append_nil]
    exact ⟨hordered, hfloor⟩
  | cons first rest ih =>
    have hfirst := hqueries first mem_cons_self
    rw [map_cons, append_cons]
    apply ih
    · apply hordered.append_signal
      · intro issued hmem found hrank counted habove
        exact hfloor.low hfirst hmem hrank habove
      · intro issued heq found hrank counted habove
        cases heq
        have hsame : found = level := by
          rw [hrank] at hfirst
          exact hfirst
        rw [hsame] at habove
        exact hended counted habove
    · intro issued hmem found hrank
      rcases mem_append.mp hmem with hold | hnew
      · exact hfloor issued hold found hrank
      · cases mem_singleton.mp hnew
        rw [hrank] at hfirst
        exact Nat.le_of_eq hfirst.symm
    · intro counted habove
      have hnot := habove.eq_false hfirst
      have hissues : (Signal.issued first : Signal Q R).issues counted = counted first := rfl
      have hanswers : (Signal.issued first : Signal Q R).answers counted = false := rfl
      rw [countP_append, countP_append, countP_singleton,
        countP_singleton, hissues, hanswers, hnot]
      exact congrArg (· + 0) (hended counted habove)
    · intro query hmem
      exact hqueries query (mem_cons_of_mem _ hmem)

end Descent

structure Crew.Descending (rules : GatherRules Q R β) (rank : Q → Option ℕ)
    (fault : R → Bool) (level : ℕ) (crew : Crew Q R α β)
    (trace : List (Signal Q R)) : Prop where
  main : ∀ query resume, crew.main = .await query resume →
    (rank query).getD level = level ∧ ∀ reply, (resume reply).Descends rank level
  layered : crew.main.Layered rules rank fault
  children : ∀ child ∈ crew.gathering ++ crew.orphans,
    child.code.Always fun query => (rank query).getD level = level
  gathering : crew.gathering ≠ [] → ∃ query resume codes,
    crew.main = .await query resume ∧ rules.children query = some codes
  orphans : crew.main.isDone = true ∨ ∀ child ∈ crew.orphans, child.code.isDone = true
  floor : Floor rank level trace
  ordered : Ordered rank trace

structure GatherRules.Patient (rules : GatherRules Q R β)
    (fault : R → Bool) : Prop where
  collect : ∀ query interrupted choice results reply,
    rules.collect query interrupted choice results = some reply →
      fault reply = true ∨ ∀ result ∈ results, result.isSome = true
  interrupt : ∀ query codes, rules.children query = some codes →
    fault (rules.interrupt query) = true

section DescendingRuns

variable {rules : GatherRules Q R β} {rank : Q → Option ℕ}
variable {fault : R → Bool} {level : ℕ} {crew next : Crew Q R α β}
variable {trace signals : List (Signal Q R)}

def heads (code : Coroutine Q R α) (children : List (Child Q R β)) : List Q :=
  code.head?.toList ++ children.filterMap fun child => child.code.head?

theorem opening_eq_map (code : Coroutine Q R α) :
    opening code = (code.head?.toList).map Signal.issued := by
  cases code with
  | done result => rfl
  | await query resume => rfl

theorem flatMap_opening_eq_map (children : List (Child Q R β)) :
    (children.flatMap fun child => opening child.code) =
      (children.filterMap fun child => child.code.head?).map Signal.issued := by
  induction children with
  | nil => rfl
  | cons child rest ih =>
    rw [flatMap_cons, opening_eq_map, ih, filterMap_cons]
    cases child.code with
    | done result => rfl
    | await query resume => rfl

theorem enter_signals (crew : Crew Q R α β) (code : Coroutine Q R α) :
    (rules.enter crew code).2 = (heads code (rules.spawned code)).map .issued := by
  unfold GatherRules.enter heads
  rw [map_append, opening_eq_map, flatMap_opening_eq_map]

theorem waitsFor_of_always {counted : Q → Bool}
    (habove : Above rank level counted) {code : Coroutine Q R β}
    (hcode : code.Always fun query => (rank query).getD level = level) :
    code.waitsFor counted = 0 := by
  cases code with
  | done result => rfl
  | await query resume =>
    show (counted query).toNat = 0
    rw [habove.eq_false hcode.1]
    rfl

theorem waitsFor_of_isDone {counted : Q → Bool} {code : Coroutine Q R β}
    (hdone : code.isDone = true) : code.waitsFor counted = 0 := by
  cases code with
  | done result => rfl
  | await query resume => cases hdone

theorem always_of_isDone {property : Q → Prop} {code : Coroutine Q R β}
    (hdone : code.isDone = true) : code.Always property := by
  cases code with
  | done result => trivial
  | await query resume => cases hdone

def Coroutine.levelOf (rank : Q → Option ℕ) (level : ℕ) (code : Coroutine Q R α) : ℕ :=
  match code with
  | .done _ => level
  | .await query _ => (rank query).getD level

theorem Coroutine.getD_levelOf (rank : Q → Option ℕ) (level : ℕ)
    (query : Q) (resume : R → Coroutine Q R α) :
    (rank query).getD ((Coroutine.await query resume).levelOf rank level) =
      (Coroutine.await query resume).levelOf rank level := by
  show (rank query).getD ((rank query).getD level) = (rank query).getD level
  cases rank query with
  | none => rfl
  | some found => rfl

variable {code : Coroutine Q R α}

theorem spawned_always (level : ℕ) (hlayered : code.Layered rules rank fault) :
    ∀ child ∈ rules.spawned code, child.code.Always fun query =>
      (rank query).getD (code.levelOf rank level) = code.levelOf rank level := by
  intro child hmem
  unfold GatherRules.spawned at hmem
  cases code with
  | done result => cases hmem
  | await query resume =>
    dsimp only at hmem
    cases hchildren : rules.children query with
    | none =>
      rw [hchildren] at hmem
      cases hmem
    | some codes =>
      rw [hchildren] at hmem
      obtain ⟨code, hcode, hchild⟩ := mem_map.mp hmem
      obtain ⟨⟨found, hrank, hall⟩, _⟩ := hlayered.1 codes hchildren
      rw [← hchild]
      unfold Coroutine.levelOf
      dsimp only
      rw [hrank]
      exact hall code hcode

theorem heads_level (level : ℕ) (hlayered : code.Layered rules rank fault) :
    ∀ other ∈ heads code (rules.spawned code),
      (rank other).getD (code.levelOf rank level) = code.levelOf rank level := by
  intro other hmem
  rcases mem_append.mp hmem with hhead | hchild
  · cases code with
    | done result => cases hhead
    | await first rest =>
      have hsame : other = first := mem_singleton.mp hhead
      rw [hsame]
      exact Coroutine.getD_levelOf rank level first rest
  · obtain ⟨child, hchildMem, hother⟩ := mem_filterMap.mp hchild
    have halways := spawned_always level hlayered child hchildMem
    cases hcode : child.code with
    | done result =>
      rw [hcode] at hother
      cases hother
    | await first rest =>
      rw [hcode] at hother halways
      rw [← Option.some.inj hother]
      exact halways.1

theorem spawned_nonempty (h : rules.spawned code ≠ []) :
    ∃ query resume codes, code = .await query resume ∧ rules.children query = some codes := by
  unfold GatherRules.spawned at h
  cases code with
  | done result => exact absurd rfl h
  | await query resume =>
    dsimp only at h
    cases hchildren : rules.children query with
    | none =>
      rw [hchildren] at h
      exact absurd rfl h
    | some codes => exact ⟨query, resume, codes, rfl, hchildren⟩

variable {query : Q}

/-- The main coroutine is answered: either it stays on its level, or
everybody else has ended and it goes down. -/
theorem Crew.Descending.resumeWith (h : crew.Descending rules rank fault level trace)
    (hbalanced : ∀ counted, Balanced counted crew trace)
    {resume : R → Coroutine Q R α} (hmain : crew.main = .await query resume)
    {reply : R} (hended : (resume reply).isDone = true ∨
      ∀ child ∈ crew.gathering, child.code.isDone = true) :
    (rules.resumeWith crew query resume reply).1.Descending rules rank fault
      ((resume reply).levelOf rank level)
      (trace ++ (rules.resumeWith crew query resume reply).2) := by
  obtain ⟨hquery, hdescends⟩ := h.main query resume hmain
  have hnext := hdescends reply
  have hlayered : (resume reply).Layered rules rank fault := by
    have hall := h.layered
    rw [hmain] at hall
    exact hall.2 reply
  have hle : (resume reply).levelOf rank level ≤ level := by
    unfold Coroutine.levelOf
    cases hcode : resume reply with
    | done result => exact Nat.le_refl _
    | await other rest =>
      rw [hcode] at hnext
      exact hnext.1
  have horphans : ∀ child ∈ crew.orphans, child.code.isDone = true := by
    rcases h.orphans with hdone | horphans
    · rw [hmain] at hdone
      cases hdone
    · exact horphans
  -- going down is only possible when no child is left
  have hchildren : (resume reply).levelOf rank level = level ∨
      ∀ child ∈ crew.gathering ++ crew.orphans, child.code.isDone = true := by
    rcases hended with hdone | hgathering
    · left
      unfold Coroutine.levelOf
      cases hcode : resume reply with
      | done result => rfl
      | await other rest =>
        rw [hcode] at hdone
        cases hdone
    · right
      intro child hmem
      rcases mem_append.mp hmem with hchild | horphan
      · exact hgathering child hchild
      · exact horphans child horphan
  have hanswered := h.ordered.append_answered h.floor hquery reply
  have hfloor : Floor rank ((resume reply).levelOf rank level)
      (trace ++ [.answered query reply]) := by
    intro issued hmem found hrank
    exact Nat.le_trans hle (hanswered.2 issued hmem found hrank)
  have hquiet : ∀ counted, Above rank ((resume reply).levelOf rank level) counted →
      (trace ++ [Signal.answered query reply]).countP (Signal.issues counted) =
        (trace ++ [Signal.answered query reply]).countP (Signal.answers counted) := by
    intro counted habove
    have hbalance := hbalanced counted
    unfold Balanced Crew.waiting at hbalance
    have hnone : ((crew.gathering ++ crew.orphans).map fun child =>
        child.code.waitsFor counted).sum = 0 := by
      apply sum_eq_zero
      intro weighed hmem
      obtain ⟨child, hchild, hsame⟩ := mem_map.mp hmem
      rw [← hsame]
      rcases hchildren with hsameLevel | hdone
      · rw [hsameLevel] at habove
        exact waitsFor_of_always habove (h.children child hchild)
      · exact waitsFor_of_isDone (hdone child hchild)
    have hwaits : crew.main.waitsFor counted = (counted query).toNat := by
      rw [hmain]
      rfl
    have hissues : (Signal.answered query reply).issues counted = false := rfl
    have hanswers : (Signal.answered query reply).answers counted = counted query := rfl
    rw [hnone, hwaits] at hbalance
    rw [countP_append, countP_append, countP_singleton,
      countP_singleton, hissues, hanswers, hbalance]
    cases counted query <;> rfl
  have hheads := heads_level level hlayered
  have hissued := hanswered.1.append_issued hfloor hquiet _ hheads
  have hsignals : trace ++ (rules.resumeWith crew query resume reply).2 =
        (trace ++ [.answered query reply]) ++
          (heads (resume reply) (rules.spawned (resume reply))).map .issued := by
    show trace ++ (.answered query reply :: (rules.enter crew (resume reply)).2) = _
    rw [enter_signals, append_assoc]
    rfl
  rw [hsignals]
  refine ⟨?_, hlayered, ?_, ?_, ?_, hissued.2, hissued.1⟩
  · intro other rest hcode
    have hcode' : resume reply = .await other rest := hcode
    rw [hcode'] at hnext ⊢
    exact ⟨Coroutine.getD_levelOf rank level other rest, hnext.2⟩
  · intro child hmem
    rcases mem_append.mp hmem with hspawned | hold
    · exact spawned_always level hlayered child hspawned
    · have hmemOld : child ∈ crew.gathering ++ crew.orphans := by
        rcases mem_append.mp hold with horphan | hgathering
        · exact mem_append_right _ horphan
        · exact mem_append_left _ hgathering
      rcases hchildren with hsameLevel | hdone
      · rw [hsameLevel]
        exact h.children child hmemOld
      · exact always_of_isDone (hdone child hmemOld)
  · intro hnonempty
    exact spawned_nonempty hnonempty
  · rcases hended with hdone | hgathering
    · exact Or.inl hdone
    · right
      intro child hmem
      rcases mem_append.mp hmem with horphan | hchild
      · exact horphans child horphan
      · exact hgathering child hchild

theorem always_set {children : List (Child Q R β)} {index : ℕ}
    {child : Child Q R β} {resume : R → Coroutine Q R β} {property : Q → Prop}
    (hall : ∀ child ∈ children, child.code.Always property)
    (hchild : children[index]? = some child)
    (hcode : child.code = .await query resume) (reply : R) :
    property query ∧ (resume reply).Always property ∧
      ∀ child ∈ children.set index ⟨resume reply, false⟩, child.code.Always property := by
  have halways := hall child (mem_of_getElem? hchild)
  rw [hcode] at halways
  refine ⟨halways.1, halways.2 reply, ?_⟩
  intro other hmem
  rcases mem_or_eq_of_mem_set hmem with hold | hnew
  · exact hall other hold
  · rw [hnew]
    exact halways.2 reply

theorem Crew.Descending.child_signals (h : crew.Descending rules rank fault level trace)
    (hbalanced : ∀ counted, Balanced counted crew trace)
    (hquery : (rank query).getD level = level) (reply : R)
    {code : Coroutine Q R β}
    (hcode : code.Always fun query => (rank query).getD level = level) :
    Ordered rank (trace ++ .answered query reply :: opening code) ∧
      Floor rank level (trace ++ .answered query reply :: opening code) := by
  have hanswered := h.ordered.append_answered h.floor hquery reply
  rw [opening_eq_map, append_cons]
  apply hanswered.1.append_issued hanswered.2
  · intro counted habove
    have hbalance := hbalanced counted
    unfold Balanced Crew.waiting at hbalance
    have hnone : ((crew.gathering ++ crew.orphans).map fun child =>
        child.code.waitsFor counted).sum = 0 := by
      apply sum_eq_zero
      intro weighed hmem
      obtain ⟨child, hchild, hsame⟩ := mem_map.mp hmem
      rw [← hsame]
      exact waitsFor_of_always habove (h.children child hchild)
    have hwaits : crew.main.waitsFor counted = 0 := by
      cases hmain : crew.main with
      | done result => rfl
      | await first resume =>
        show (counted first).toNat = 0
        rw [habove.eq_false (h.main first resume hmain).1]
        rfl
    have hissues : (Signal.answered query reply).issues counted = false := rfl
    have hanswers : (Signal.answered query reply).answers counted = counted query := rfl
    rw [hnone, hwaits] at hbalance
    rw [countP_append, countP_append, countP_singleton,
      countP_singleton, hissues, hanswers, hbalance,
      habove.eq_false hquery]
    rfl
  · intro first hmem
    cases hsplit : code with
    | done result =>
      rw [hsplit] at hmem
      cases hmem
    | await second resume =>
      rw [hsplit] at hmem hcode
      rw [mem_singleton.mp hmem]
      exact hcode.1

theorem Crew.Descending.step (hpatient : rules.Patient fault)
    (h : crew.Descending rules rank fault level trace)
    (hbalanced : ∀ counted, Balanced counted crew trace) {pick : CrewPick}
    (hstep : rules.step crew pick = some (next, signals)) :
    ∃ level', next.Descending rules rank fault level' (trace ++ signals) := by
  cases GatherRules.transition_of_step hstep with
  | replied pick query resume reply hmain hplain hreply =>
    refine ⟨_, h.resumeWith hbalanced hmain (Or.inr ?_)⟩
    intro child hmem
    obtain ⟨other, rest, codes, hother, hcodes⟩ :=
      h.gathering (ne_nil_of_mem hmem)
    rw [hmain] at hother
    cases hother
    rw [hplain] at hcodes
    cases hcodes
  | gathered choice query resume codes reply hmain hchildren hcollect =>
    refine ⟨_, h.resumeWith hbalanced hmain ?_⟩
    rcases hpatient.collect _ _ _ _ _ hcollect with hfault | hall
    · left
      have hlayered := h.layered
      rw [hmain] at hlayered
      exact (hlayered.1 codes hchildren).2 reply hfault
    · right
      intro child hmem
      exact isDone_of_result? (hall _ (mem_map_of_mem hmem))
  | child index child query resume reply hchild hcode hreply =>
    obtain ⟨hquery, hrest, hset⟩ := always_set
      (fun child hmem => h.children child (mem_append_left _ hmem))
      hchild hcode reply
    have hsignals := h.child_signals hbalanced hquery reply hrest
    refine ⟨level, h.main, h.layered, ?_, ?_, h.orphans, hsignals.2, hsignals.1⟩
    · intro other hmem
      rcases mem_append.mp hmem with hgathering | horphan
      · exact hset other hgathering
      · exact h.children other (mem_append_right _ horphan)
    · intro _
      exact h.gathering (ne_nil_of_mem (mem_of_getElem? hchild))
  | orphan index child query resume reply hchild hcode hreply =>
    obtain ⟨hquery, hrest, hset⟩ := always_set
      (fun child hmem => h.children child (mem_append_right _ hmem))
      hchild hcode reply
    have hsignals := h.child_signals hbalanced hquery reply hrest
    refine ⟨level, h.main, h.layered, ?_, h.gathering, ?_, hsignals.2, hsignals.1⟩
    · intro other hmem
      rcases mem_append.mp hmem with hgathering | horphan
      · exact h.children other (mem_append_left _ hgathering)
      · exact hset other horphan
    · rcases h.orphans with hdone | hdone
      · exact Or.inl hdone
      · have hfinished := hdone child (mem_of_getElem? hchild)
        rw [hcode] at hfinished
        cases hfinished
  | abandoned query resume codes reply hmain hchildren hcollect =>
    refine ⟨_, h.resumeWith hbalanced hmain (Or.inl ?_)⟩
    have hlayered := h.layered
    rw [hmain] at hlayered
    exact (hlayered.1 codes hchildren).2 _ (hpatient.interrupt query codes hchildren)
  | interrupted query resume codes hmain hchildren hcollect =>
    rw [append_nil]
    refine ⟨level, h.main, h.layered, ?_, ?_, h.orphans, h.floor, h.ordered⟩
    · intro other hmem
      rcases mem_append.mp hmem with hgathering | horphan
      · obtain ⟨child, hchild, hsame⟩ := mem_map.mp hgathering
        rw [← hsame]
        exact h.children child (mem_append_left _ hchild)
      · exact h.children other (mem_append_right _ horphan)
    · intro _
      exact ⟨query, resume, codes, hmain, hchildren⟩

theorem descending_start {bound : ℕ} (hdescends : code.Descends rank bound)
    (hlayered : code.Layered rules rank fault) :
    (rules.start code).1.Descending rules rank fault
      (code.levelOf rank bound) (rules.start code).2 := by
  have hheads : ∀ other ∈ heads code (rules.spawned code),
      (rank other).getD (code.levelOf rank bound) = code.levelOf rank bound :=
    heads_level bound hlayered
  have hempty : Ordered rank ([] : List (Signal Q R)) := by
    intro before query after level hsplit
    exact absurd hsplit (by simp)
  have hfloor : Floor rank (code.levelOf rank bound) ([] : List (Signal Q R)) := by
    intro query hmem
    cases hmem
  have hissued := hempty.append_issued hfloor (fun _ _ => rfl) _ hheads
  have hsignals : (rules.start code).2 = (heads code (rules.spawned code)).map .issued :=
    enter_signals _ code
  rw [hsignals]
  refine ⟨?_, hlayered, ?_, ?_, ?_, hissued.2, hissued.1⟩
  · intro other rest hcode
    have hcode' : code = .await other rest := hcode
    rw [hcode'] at hdescends ⊢
    exact ⟨Coroutine.getD_levelOf rank bound other rest, hdescends.2⟩
  · intro child hmem
    rw [show (rules.start code).1.orphans = [] from rfl, append_nil]
      at hmem
    exact spawned_always bound hlayered child hmem
  · intro hnonempty
    exact spawned_nonempty hnonempty
  · right
    intro child hmem
    cases hmem

/-- In every run of a descending program, with or without cancellations, what
is issued on one level starts after everything above has ended. -/
theorem descending_execute (hpatient : rules.Patient fault) {bound : ℕ}
    (hdescends : code.Descends rank bound)
    (hlayered : code.Layered rules rank fault) (schedule : List CrewPick) :
    Ordered rank (rules.execute code schedule).trace := by
  have hgood : (∀ counted, Balanced counted (rules.execute code schedule).state
        (rules.execute code schedule).trace) ∧
      ∃ level, (rules.execute code schedule).state.Descending rules rank
        fault level (rules.execute code schedule).trace := by
    refine Machine.runFrom_invariant
      (fun crew trace => (∀ counted, Balanced counted crew trace) ∧
        ∃ level, Crew.Descending rules rank fault level crew trace)
      ?_ ?_ schedule
    · intro crew trace pick next signals hgood hstep
      obtain ⟨hbalanced, level, hdescending⟩ := hgood
      exact ⟨fun counted => (hbalanced counted).step hstep,
        hdescending.step hpatient hbalanced hstep⟩
    · exact ⟨fun counted => balanced_start rules counted code,
        _, descending_start hdescends hlayered⟩
  obtain ⟨_, level, hdescending⟩ := hgood
  exact hdescending.ordered

end DescendingRuns

end PyFly.Library
