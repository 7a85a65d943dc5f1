import PyFly.ResolutionMeaning

/-!
# Resolutions agree with their meaning

Each resolution ends within a depth which the number of registrations bounds.
Its result is what the registration means; it reports a circular dependency
exactly when there is no meaning.
-/

namespace PyFly.Container

open Library List

variable {κ ε : Type} [DecidableEq κ]
variable {classes : Classes κ ε} {registry : Registry κ} {base : Beans κ}

/-! ## Justified states -/

theorem Justified.refl : Justified classes registry base base where
  kept _ _ h := h
  meant _ _ _ h := ⟨1, verdict_of_held h 0⟩
  active := rfl
  config _ _ := rfl

variable {beans : Beans κ}

theorem Justified.congr {beans' : Beans κ} (hjustified : Justified classes registry base beans)
    (hinstances : beans'.instances = beans.instances)
    (hrequest : beans'.request = beans.request) :
    Justified classes registry base beans' where
  kept reg reply h := by
    rw [held_congr hinstances hrequest]
    exact hjustified.kept reg reply h
  meant reg hreg reply h := by
    rw [held_congr hinstances hrequest] at h
    exact hjustified.meant reg hreg reply h
  active := by
    rw [hrequest]
    exact hjustified.active
  config owner field := by
    rw [← hjustified.config owner field]
    unfold configReply
    rw [hinstances]

variable {reg other : Registration κ} {bean : Bean κ}
  {reply : Except (Failure κ ε) (Bean κ)}

omit [DecidableEq κ] in
theorem held_keep (hnone : (held classes beans reg :
      Option (Except (Failure κ ε) (Bean κ))) = none)
    (h : held classes beans other = some reply) :
    held classes (keep classes reg bean beans) other = some reply := by
  cases hscope : reg.scope with
  | transient =>
    simp only [keep, hscope]
    exact h
  | singleton =>
    have hempty : beans.instances reg.id = none := by
      simpa [held, hscope] using hnone
    rw [← h]
    unfold held
    cases hother : other.scope with
    | singleton =>
      have hne : other.id ≠ reg.id := by
        intro hid
        simp [held, hother, hid, hempty] at h
      simp [keep, hscope, Function.update_of_ne hne]
    | request => simp [keep, hscope]
    | transient => rfl
  | request =>
    cases hrequest : beans.request with
    | none => simp [held, hscope, hrequest] at hnone
    | some attributes =>
      have hempty : attributes.get? (cacheKey classes reg) = none := by
        simpa [held, hscope, hrequest] using hnone
      rw [← h]
      unfold held
      cases hother : other.scope with
      | singleton => simp [keep, hscope]
      | transient => rfl
      | request =>
        have hne : cacheKey classes other ≠ cacheKey classes reg := by
          intro hkey
          simp [held, hother, hrequest, hkey, hempty] at h
        simp [keep, hscope, hrequest, Dict.get?_set_of_ne hne]

omit [DecidableEq κ] in
theorem cacheKey_inj (h : cacheKey classes other = cacheKey classes reg) :
    classes.qualname other.implType = classes.qualname reg.implType := by
  unfold cacheKey at h
  exact String.append_right_inj _ |>.mp h

omit [DecidableEq κ] in
theorem held_of_keep (h : held classes (keep classes reg bean beans) other = some reply) :
    held classes beans other = some reply ∨ (reply = .ok bean ∧ other.scope = reg.scope ∧
        ((reg.scope = .singleton ∧ other.id = reg.id) ∨ (reg.scope = .request ∧
            cacheKey classes other = cacheKey classes reg))) := by
  cases hscope : reg.scope with
  | transient =>
    simp only [keep, hscope] at h
    exact .inl h
  | singleton =>
    cases hother : other.scope with
    | singleton =>
      by_cases hid : other.id = reg.id
      · simp only [held, hother, keep, hscope, hid, Function.update_self] at h
        cases h
        exact .inr ⟨rfl, rfl, .inl ⟨rfl, hid⟩⟩
      · simp only [held, hother, keep, hscope, Function.update_of_ne hid] at h
        simp only [held, hother]
        exact .inl h
    | request =>
      simp only [held, hother, keep, hscope] at h
      simp only [held, hother]
      exact .inl h
    | transient => simp [held, hother] at h
  | request =>
    cases hother : other.scope with
    | singleton =>
      simp only [held, hother, keep, hscope] at h
      simp only [held, hother]
      exact .inl h
    | transient => simp [held, hother] at h
    | request =>
      cases hrequest : beans.request with
      | none =>
        simp only [held, hother, keep, hscope, hrequest, Option.map_none] at h
        simp only [held, hother, hrequest]
        exact .inl h
      | some attributes =>
        simp only [held, hother, keep, hscope, hrequest, Option.map_some] at h
        by_cases hkey : cacheKey classes other = cacheKey classes reg
        · rw [hkey, Dict.get?_set_self] at h
          cases h
          exact .inr ⟨rfl, rfl, .inr ⟨rfl, hkey⟩⟩
        · rw [Dict.get?_set_of_ne hkey] at h
          simp only [held, hother, hrequest]
          exact .inl h

theorem Justified.keep (hsteady : Steady classes registry base)
    (hjustified : Justified classes registry base beans)
    (hreg : reg ∈ registry.all) (hnone : (held classes beans reg :
      Option (Except (Failure κ ε) (Bean κ))) = none)
    (htype : bean.type = reg.implType) {depth : ℕ}
    (hverdict : verdict classes registry base depth reg = some (.ok bean.type)) :
    Justified classes registry base (keep classes reg bean beans) where
  kept other reply h := held_keep hnone (hjustified.kept other reply h)
  active := by
    rw [← hjustified.active]
    unfold Container.keep
    cases reg.scope with
    | request => simp
    | _ => rfl
  meant other hother reply h := by
    obtain hbefore | ⟨rfl, hscope, hsame⟩ := held_of_keep h
    · exact hjustified.meant other hother reply hbefore
    · obtain ⟨_, hid⟩ | ⟨hrequest, hkey⟩ := hsame
      · rw [registry.identified other hother reg hreg hid]
        exact ⟨depth, hverdict⟩
      · -- another registration of the same class, which holds nothing either
        have himpl := hsteady.qualname other hother reg hreg
          (hscope.trans hrequest) hrequest (cacheKey_inj hkey)
        have hheld : ∀ beans : Beans κ, (held classes beans other :
              Option (Except (Failure κ ε) (Bean κ))) = held classes beans reg := by
          intro beans
          have hmessage : noRequest classes other = (noRequest classes reg : Failure κ ε) := by
            rw [noRequest, noRequest, himpl]
          simp only [held, hscope, hrequest, hkey, hmessage]
        refine ⟨depth, ?_⟩
        show verdict classes registry base depth other = some (.ok bean.type)
        rw [← hverdict]
        cases depth with
        | zero => rfl
        | succ depth => rw [verdict, verdict, hheld, himpl]
  config owner field := by
    rw [← hjustified.config owner field]
    unfold configReply
    cases hconfig : registry.registrations.get? classes.config with
    | none => rfl
    | some configReg =>
      have hinstance : (Container.keep classes reg bean beans).instances
          configReg.id = beans.instances configReg.id := by
        unfold Container.keep
        cases hscope : reg.scope with
        | transient => rfl
        | request => rfl
        | singleton =>
          have hne : configReg.id ≠ reg.id := by
            intro hid
            have hsame := registry.identified configReg
              (Wellformed.mem_all_of_registrations hconfig) reg hreg hid
            subst hsame
            have hset := hsteady.config configReg hconfig hscope
            obtain ⟨config, hinst⟩ := Option.ne_none_iff_exists'.mp hset
            have hheld : held classes base configReg =
                some (.ok config : Except (Failure κ ε) (Bean κ)) := by
              simp [held, hscope, hinst]
            rw [hjustified.kept _ _ hheld] at hnone
            cases hnone
          exact Function.update_of_ne hne _ _
      simp only [Option.bind_some, hinstance]

/-! ## Rulings of the container -/

theorem Live.below {path : List (TypeExpr κ)} {asked : Registration κ}
    (hlive : Live classes registry base path reg)
    (hnone : (held classes base reg : Option (Except (Failure κ ε) (Bean κ))) = none)
    (hasked : ∀ depth, built classes registry base depth reg.implType ≠ none →
        verdict classes registry base depth asked ≠ none) :
    Live classes registry base (path ++ [reg.implType]) asked := by
  intro cls hcls depth hbuilt
  obtain hold | hnew := mem_append.mp hcls
  · have hreg := hlive cls hold depth hbuilt
    cases depth with
    | zero => exact absurd rfl hreg
    | succ depth =>
      have hbuilt' : built classes registry base depth reg.implType ≠
          none := by
        intro hempty
        rw [verdict_of_not_held hnone, hempty] at hreg
        exact hreg rfl
      obtain ⟨reply, hreply⟩ :=
        Option.ne_none_iff_exists'.mp (hasked depth hbuilt')
      rw [verdict_succ depth asked reply hreply]
      exact Option.some_ne_none reply
  · rw [mem_singleton.mp hnew] at hbuilt
    exact hasked depth hbuilt

def Ruled (classes : Classes κ ε) (registry : Registry κ) (base : Beans κ)
    (resolver : Resolver κ ε) : Prop :=
  ∀ reg ∈ registry.all, ∀ beans reply after, Justified classes registry base beans →
    Live classes registry base beans.resolving reg →
    resolver reg beans = some (reply, after) → Justified classes registry base after ∧
        ∃ depth, ruling classes registry base depth beans.resolving reg =
          some (reply.map Bean.type)

variable {resolver : Resolver κ ε}

/-- A program follows the rulings, when its queries are among those its
outcome depends on. -/
theorem ruled_perform (hruled : Ruled classes registry base resolver)
    (hcareful : Careful classes registry resolver) {path : List (TypeExpr κ)}
    {start : ℕ → Prop} {α : Type} {program : Resolving κ ε α}
    (hprogram : Wellformed registry program)
    (hstart : ∀ depth, start depth → program.run? (replyOf classes registry base
        (verdict classes registry base depth)) ≠ none)
    (hlive : ∀ reg, (∀ depth, start depth → verdict classes registry base depth reg ≠ none) →
      Live classes registry base path reg) {owner : Option ℕ} {final : Beans κ}
    {result : Except (Failure κ ε) α}
    (hjustified : Justified classes registry base beans)
    (hpath : beans.resolving = path)
    (hrun : Coroutine.perform (answerQuery classes registry resolver owner)
      program beans = some (result, final)) :
    Justified classes registry base final ∧ ∃ depth, program.run? (replyOf classes registry base
        (ruling classes registry base depth path)) = some result := by
  have hmore : ∀ depth query reply, replyOf classes registry base
          (ruling classes registry base depth path) query = some reply →
        replyOf classes registry base
          (ruling classes registry base (depth + 1) path) query = some reply :=
    fun depth => replyOf_more (ruling_succ depth path)
  have hanswer : ∀ query beans reply next, registry.Serves query →
      (Justified classes registry base beans ∧ beans.resolving = path) →
      (∀ depth, start depth → replyOf classes registry base
        (verdict classes registry base depth) query ≠ none) →
      answerQuery classes registry resolver owner query beans = some (reply, next) →
      (Justified classes registry base next ∧ next.resolving = path) ∧
        (∃ depth, replyOf classes registry base
          (ruling classes registry base depth path) query = some reply) ∧
        ∀ depth reply', replyOf classes registry base
          (verdict classes registry base depth) query = some reply' → reply' = reply := by
    rintro query beans reply next hserved ⟨hbeans, hresolves⟩ hearly hanswer
    have hnext := (spares_answerQuery hcareful hserved hanswer).resolving
    cases query with
    | config cls field =>
      cases hanswer
      refine ⟨⟨hbeans, hresolves⟩, ⟨0, ?_⟩, ?_⟩
      · rw [hbeans.config cls field]
        rfl
      · intro depth reply' hreply'
        rw [hbeans.config cls field]
        exact (Option.some.inj hreply').symm
    | resolve slot key reg =>
      obtain ⟨made, middle, hmade, rfl, hafter⟩ :=
        answerQuery_resolve_cases hanswer
      have hready : Live classes registry base beans.resolving reg := by
        rw [hresolves]
        exact hlive reg hearly
      obtain ⟨hmiddle, depth, hdepth⟩ :=
        hruled reg hserved beans made middle hbeans hready hmade
      have hjust : Justified classes registry base next := by
        obtain ⟨bean, _, rfl⟩ | ⟨failure, _, rfl⟩ := hafter
        · exact hmiddle.congr rfl rfl
        · exact hmiddle
      refine ⟨⟨hjust, hnext.trans hresolves⟩, ⟨depth, ?_⟩, ?_⟩
      · rw [← hresolves]
        exact hdepth
      · intro early reply' hreply'
        obtain ⟨depth', hdepth'⟩ := ruling_of_live hready hreply'
        exact ruling_unique hdepth' hdepth
  obtain ⟨⟨hfinal, _⟩, hends⟩ := Coroutine.perform_follows hmore hanswer
    hprogram.serves ⟨hjustified, hpath⟩ hstart hrun
  exact ⟨hfinal, hends⟩

variable {after : Beans κ}

theorem Spares.held (hsteady : Steady classes registry base) {before : Beans κ}
    (h : Spares classes registry before after) (hreg : reg ∈ registry.all)
    (hmem : reg.implType ∈ before.resolving) :
    (held classes after reg : Option (Except (Failure κ ε) (Bean κ))) =
      held classes before reg := by
  unfold Container.held
  cases hscope : reg.scope with
  | transient => rfl
  | singleton =>
    dsimp only
    rw [h.instances reg hreg hmem]
  | request =>
    have hget := h.attributes (cacheKey classes reg) <| by
      intro other hother hother' hkey
      rw [hsteady.qualname other hother reg hreg hother' hscope (cacheKey_inj hkey)]
      exact hmem
    have hactive := h.active
    dsimp only
    cases hbefore : before.request with
    | none =>
      rw [hbefore, Option.isSome_none, Option.isSome_eq_false_iff,
        Option.isNone_iff_eq_none] at hactive
      rw [hactive]
    | some attributes =>
      rw [hbefore, Option.isSome_some, Option.isSome_iff_exists] at hactive
      obtain ⟨attributes', hafter⟩ := hactive
      rw [hbefore, hafter, Option.bind_some, Option.bind_some] at hget
      rw [hafter]
      dsimp only
      rw [hget]

theorem held_createInstance (hsteady : Steady classes registry base)
    (hcareful : Careful classes registry resolver) (hreg : reg ∈ registry.all)
    (h : createInstance classes registry resolver reg beans = some (reply, after)) :
    (held classes after reg : Option (Except (Failure κ ε) (Bean κ))) =
      held classes beans reg := by
  obtain ⟨_, _, rfl⟩ | ⟨_, result, final, hperform, hend⟩ :=
    createInstance_cases h
  · exact held_congr rfl rfl reg
  · have hfinal := spares_perform hcareful (Wellformed.creation reg.implType) hperform
    have hheld := hfinal.held hsteady hreg
      (mem_append_right _ (mem_singleton_self reg.implType))
    rw [held_congr (instances_enter _ beans) (request_enter _ beans)] at hheld
    obtain ⟨_, _, rfl⟩ | ⟨_, _, _, rfl⟩ := hend
    · rw [← hheld]
      exact held_congr rfl rfl reg
    · rw [← hheld]
      exact held_congr rfl rfl reg

theorem Justified.not_held (hjustified : Justified classes registry base beans)
    (h : (held classes beans reg : Option (Except (Failure κ ε) (Bean κ))) = none) :
    (held classes base reg : Option (Except (Failure κ ε) (Bean κ))) = none := by
  cases hbase : (held classes base reg : Option (Except (Failure κ ε) (Bean κ))) with
  | none => rfl
  | some reply =>
    rw [hjustified.kept reg reply hbase] at h
    cases h

theorem ruled_createInstance (hruled : Ruled classes registry base resolver)
    (hcareful : Careful classes registry resolver)
    (hjustified : Justified classes registry base beans)
    (hlive : Live classes registry base beans.resolving reg)
    (hnone : (held classes beans reg : Option (Except (Failure κ ε) (Bean κ))) = none)
    (h : createInstance classes registry resolver reg beans = some (reply, after)) :
    Justified classes registry base after ∧
      ∃ depth, ruling classes registry base depth beans.resolving reg =
        some (reply.map Bean.type) := by
  have hbase := hjustified.not_held hnone
  obtain ⟨hmem, rfl, rfl⟩ | ⟨hmem, result, final, hperform, hend⟩ :=
    createInstance_cases h
  · exact ⟨hjustified.congr rfl rfl, 1, ruling_of_mem hbase hmem 0⟩
  · have hentered : Justified classes registry base
        (enter reg.implType beans) := hjustified.congr rfl rfl
    have hstart : ∀ depth, built classes registry base depth reg.implType ≠ none →
          (creation classes registry reg.implType).run? (replyOf classes registry base
              (verdict classes registry base depth)) ≠ none :=
      fun _ hbuilt => hbuilt
    obtain ⟨hfinal, depth, hdepth⟩ := ruled_perform hruled hcareful
      (Wellformed.creation reg.implType) hstart
      (fun asked hasked => hlive.below hbase hasked) hentered rfl hperform
    have hruling : ruling classes registry base (depth + 1) beans.resolving
        reg = some (result.map fun _ => reg.implType) := by
      rw [ruling_of_not_mem hbase hmem, hdepth]
      rfl
    obtain ⟨rfl, rfl, rfl⟩ | ⟨failure, rfl, rfl, rfl⟩ := hend
    · exact ⟨hfinal.congr rfl rfl, depth + 1, hruling⟩
    · exact ⟨hfinal.congr rfl rfl, depth + 1, hruling⟩

theorem ruled_resolveRegistration (hsteady : Steady classes registry base) (depth : ℕ) :
    Ruled classes registry base (resolveRegistration classes registry depth) := by
  induction depth with
  | zero =>
    intro reg hreg beans reply after hjustified hlive h
    cases h
  | succ depth ih =>
    intro reg hreg beans reply after hjustified hlive h
    obtain ⟨bean, hheld, rfl, rfl⟩ | ⟨failure, hheld, rfl, rfl⟩ |
      ⟨hnone, made, middle, hmade, hend⟩ := resolveRegistration_cases h
    · obtain ⟨depth', hverdict⟩ := hjustified.meant reg hreg _ hheld
      exact ⟨hjustified.congr rfl rfl, ruling_of_live hlive hverdict⟩
    · obtain ⟨depth', hverdict⟩ := hjustified.meant reg hreg _ hheld
      exact ⟨hjustified, ruling_of_live hlive hverdict⟩
    · obtain ⟨hmiddle, depth', hruling⟩ := ruled_createInstance ih
        (careful_resolveRegistration depth) hjustified hlive hnone hmade
      obtain ⟨bean, rfl, rfl, rfl⟩ | ⟨failure, rfl, rfl, rfl⟩ := hend
      · have hempty := held_createInstance hsteady
          (careful_resolveRegistration depth) hreg hmade
        rw [hnone] at hempty
        have hverdict := verdict_of_ruling depth' _ reg _ hruling (by simp [Except.map])
        have htype : bean.type = reg.implType := by
          obtain ⟨_, hreply, _⟩ | ⟨_, _, _, _, hend⟩ :=
            createInstance_cases hmade
          · cases hreply
          · obtain ⟨_, hreply, _⟩ | ⟨_, _, hreply, _⟩ := hend
            · cases hreply
              rfl
            · cases hreply
        exact ⟨(hmiddle.keep hsteady hreg hempty htype hverdict).congr rfl rfl, depth', hruling⟩
      · exact ⟨hmiddle, depth', hruling⟩

end PyFly.Container
