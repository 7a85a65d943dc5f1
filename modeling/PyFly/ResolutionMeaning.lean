import Mathlib.Data.Nat.Find
import PyFly.Resolution

/-!
# What a resolution means

The ruling on a registration is computed without a cache: its bean is held
from the beginning, or its class is in creation and refused, or it is created
from the rulings on the registrations the program asks for.  The verdict does
not even know which classes are in creation; circular dependencies have none.
Below a class in creation, on which the asked registration depends in no way,
the ruling is the verdict.
-/

namespace PyFly.Container

open Library

variable {κ ε : Type}

section Meaning

variable [DecidableEq κ] (classes : Classes κ ε) (registry : Registry κ)
variable (base : Beans κ)

def replyOf (meaning : Registration κ → Option (Except (Failure κ ε) (TypeExpr κ))) :
    Query κ → Option (Except (Failure κ ε) (TypeExpr κ))
  | .config owner field =>
    some (configReply classes registry base owner field)
  | .resolve _ _ reg => meaning reg

def verdict : ℕ → Registration κ → Option (Except (Failure κ ε) (TypeExpr κ))
  | 0, _ => none
  | depth + 1, reg =>
    match held classes base reg with
    | some reply => some (reply.map Bean.type)
    | none =>
      ((creation classes registry reg.implType).run?
        (replyOf classes registry base (verdict depth))).map
          fun result => result.map fun _ => reg.implType

def built (depth : ℕ) (cls : TypeExpr κ) : Option (Except (Failure κ ε) Unit) :=
  (creation classes registry cls).run?
    (replyOf classes registry base (verdict classes registry base depth))

def ruling : ℕ → List (TypeExpr κ) → Registration κ → Option (Except (Failure κ ε) (TypeExpr κ))
  | 0, _, _ => none
  | depth + 1, path, reg =>
    match held classes base reg with
    | some reply => some (reply.map Bean.type)
    | none =>
      if reg.implType ∈ path then
        some (.error (.currentlyInCreation path reg.implType))
      else
        ((creation classes registry reg.implType).run? (replyOf classes registry base
            (ruling depth (path ++ [reg.implType])))).map
          fun result => result.map fun _ => reg.implType

def Live (path : List (TypeExpr κ)) (reg : Registration κ) : Prop :=
  ∀ cls ∈ path, ∀ depth, built classes registry base depth cls ≠ none →
    verdict classes registry base depth reg ≠ none

structure Justified (beans : Beans κ) : Prop where
  kept : ∀ reg reply, held classes base reg = some reply → held classes beans reg = some reply
  meant : ∀ reg ∈ registry.all, ∀ reply, held classes beans reg = some reply →
    ∃ depth, verdict classes registry base depth reg = some (reply.map Bean.type)
  active : beans.request.isSome = base.request.isSome
  config : ∀ owner field, configReply classes registry beans owner field =
    (configReply classes registry base owner field : Except (Failure κ ε) (TypeExpr κ))

/-- The `Config` bean is there before it is needed, and classes of request
scope are told apart by their qualified names. -/
structure Steady : Prop where
  config : ∀ reg, registry.registrations.get? classes.config = some reg →
    reg.scope = .singleton → base.instances reg.id ≠ none
  qualname : ∀ reg ∈ registry.all, ∀ other ∈ registry.all,
    reg.scope = .request → other.scope = .request →
      classes.qualname reg.implType = classes.qualname other.implType →
        reg.implType = other.implType

variable {classes registry base}

variable {reg : Registration κ}

theorem verdict_of_held {reply : Except (Failure κ ε) (Bean κ)}
    (h : held classes base reg = some reply) (depth : ℕ) :
    verdict classes registry base (depth + 1) reg = some (reply.map Bean.type) := by
  rw [verdict, h]

theorem verdict_of_not_held (h : (held classes base reg :
      Option (Except (Failure κ ε) (Bean κ))) = none) (depth : ℕ) :
    verdict classes registry base (depth + 1) reg =
      (built classes registry base depth reg.implType).map fun result =>
        result.map fun _ => reg.implType := by
  rw [verdict, h]
  rfl

theorem replyOf_more {meaning meaning' :
      Registration κ → Option (Except (Failure κ ε) (TypeExpr κ))}
    (hmore : ∀ reg reply, meaning reg = some reply → meaning' reg = some reply) :
    ∀ query reply, replyOf classes registry base meaning query = some reply →
      replyOf classes registry base meaning' query = some reply := by
  intro query reply h
  cases query with
  | config owner field => exact h
  | resolve slot key reg => exact hmore reg reply h

theorem verdict_succ (depth : ℕ) (reg : Registration κ)
    (reply : Except (Failure κ ε) (TypeExpr κ))
    (h : verdict classes registry base depth reg = some reply) :
    verdict classes registry base (depth + 1) reg = some reply := by
  induction depth generalizing reg reply with
  | zero => cases h
  | succ depth ih =>
    cases hheld : (held classes base reg : Option (Except (Failure κ ε) (Bean κ))) with
    | some bean =>
      rw [verdict_of_held hheld] at h ⊢
      exact h
    | none =>
      rw [verdict_of_not_held hheld, Option.map_eq_some_iff] at h
      obtain ⟨result, hresult, hreply⟩ := h
      rw [verdict_of_not_held hheld, Option.map_eq_some_iff]
      exact ⟨result, Coroutine.run?_mono (replyOf_more fun reg reply => ih reg reply)
          hresult, hreply⟩

variable {reply : Except (Failure κ ε) (TypeExpr κ)} {depth : ℕ}

theorem verdict_unique {depth' : ℕ} {reply' : Except (Failure κ ε) (TypeExpr κ)}
    (h : verdict classes registry base depth reg = some reply)
    (h' : verdict classes registry base depth' reg = some reply') :
    reply = reply' := by
  have hmore := @verdict_succ κ ε _ classes registry base
  have hleft := Coroutine.answers_mono hmore (Nat.le_max_left depth depth') h
  have hright := Coroutine.answers_mono hmore (Nat.le_max_right depth depth') h'
  rw [hleft] at hright
  exact Option.some.inj hright

/-! ## Rulings -/

theorem ruling_of_held {reply : Except (Failure κ ε) (Bean κ)}
    (h : held classes base reg = some reply) (depth : ℕ)
    (path : List (TypeExpr κ)) :
    ruling classes registry base (depth + 1) path reg = some (reply.map Bean.type) := by
  rw [ruling, h]

variable {path : List (TypeExpr κ)}

theorem ruling_of_mem (h : (held classes base reg :
      Option (Except (Failure κ ε) (Bean κ))) = none)
    (hmem : reg.implType ∈ path) (depth : ℕ) :
    ruling classes registry base (depth + 1) path reg =
      some (.error (.currentlyInCreation path reg.implType)) := by
  rw [ruling, h]
  exact if_pos hmem

theorem ruling_of_not_mem (h : (held classes base reg :
      Option (Except (Failure κ ε) (Bean κ))) = none)
    (hmem : reg.implType ∉ path) (depth : ℕ) :
    ruling classes registry base (depth + 1) path reg =
      ((creation classes registry reg.implType).run?
        (replyOf classes registry base (ruling classes registry base depth
            (path ++ [reg.implType])))).map
        fun result => result.map fun _ => reg.implType := by
  rw [ruling, h]
  exact if_neg hmem

theorem ruling_succ (depth : ℕ) (path : List (TypeExpr κ))
    (reg : Registration κ) (reply : Except (Failure κ ε) (TypeExpr κ))
    (h : ruling classes registry base depth path reg = some reply) :
    ruling classes registry base (depth + 1) path reg = some reply := by
  induction depth generalizing path reg reply with
  | zero => cases h
  | succ depth ih =>
    cases hheld : (held classes base reg : Option (Except (Failure κ ε) (Bean κ))) with
    | some bean =>
      rw [ruling_of_held hheld] at h ⊢
      exact h
    | none =>
      by_cases hmem : reg.implType ∈ path
      · rw [ruling_of_mem hheld hmem] at h ⊢
        exact h
      · rw [ruling_of_not_mem hheld hmem, Option.map_eq_some_iff] at h ⊢
        obtain ⟨result, hresult, hreply⟩ := h
        exact ⟨result, Coroutine.run?_mono (replyOf_more (ih _)) hresult, hreply⟩

theorem ruling_unique {depth' : ℕ} {reply' : Except (Failure κ ε) (TypeExpr κ)}
    (h : ruling classes registry base depth path reg = some reply)
    (h' : ruling classes registry base depth' path reg = some reply') :
    reply = reply' := by
  have hmore : ∀ depth reg reply, ruling classes registry base depth path reg = some reply →
        ruling classes registry base (depth + 1) path reg = some reply :=
    fun depth reg reply => ruling_succ depth path reg reply
  have hleft := Coroutine.answers_mono hmore (Nat.le_max_left depth depth') h
  have hright := Coroutine.answers_mono hmore (Nat.le_max_right depth depth') h'
  rw [hleft] at hright
  exact Option.some.inj hright

omit [DecidableEq κ] in
theorem calm_of_map {α β : Type} {f : α → β} {reply : Except (Failure κ ε) α} :
    (∀ failure, reply.map f = .error failure → ¬ failure.Circular) ↔
      ∀ failure, reply = .error failure → ¬ failure.Circular := by
  cases reply with
  | ok value => simp [Except.map]
  | error failure => simp [Except.map]

theorem verdict_of_ruling (depth : ℕ) (path : List (TypeExpr κ))
    (reg : Registration κ) (reply : Except (Failure κ ε) (TypeExpr κ))
    (h : ruling classes registry base depth path reg = some reply)
    (hcalm : ∀ failure, reply = .error failure → ¬ failure.Circular) :
    verdict classes registry base depth reg = some reply := by
  induction depth generalizing path reg reply with
  | zero => cases h
  | succ depth ih =>
    cases hheld : (held classes base reg : Option (Except (Failure κ ε) (Bean κ))) with
    | some bean =>
      rw [ruling_of_held hheld] at h
      rw [verdict_of_held hheld]
      exact h
    | none =>
      by_cases hmem : reg.implType ∈ path
      · rw [ruling_of_mem hheld hmem] at h
        cases h
        exact absurd ⟨path, _, rfl⟩ (hcalm _ rfl)
      · rw [ruling_of_not_mem hheld hmem, Option.map_eq_some_iff] at h
        obtain ⟨result, hresult, rfl⟩ := h
        rw [verdict_of_not_held hheld, Option.map_eq_some_iff]
        refine ⟨result, ?_, rfl⟩
        refine Coroutine.run?_of_relays Failure.Circular ?_
          (Wellformed.creation reg.implType).relays
          (calm_of_map.mp hcalm) hresult
        intro query reply' hreply' hcalm'
        cases query with
        | config owner field => exact hreply'
        | resolve slot key reg' => exact ih _ reg' reply' hreply' hcalm'

theorem ruling_of_verdict (depth : ℕ) (path : List (TypeExpr κ))
    (reg : Registration κ) (reply : Except (Failure κ ε) (TypeExpr κ))
    (h : verdict classes registry base depth reg = some reply)
    (hpath : ∀ cls ∈ path, ∀ depth' < depth, built classes registry base depth' cls = none) :
    ruling classes registry base depth path reg = some reply := by
  induction depth using Nat.strong_induction_on generalizing path reg reply with
  | _ depth ih =>
    cases depth with
    | zero => cases h
    | succ depth =>
      cases hheld : (held classes base reg : Option (Except (Failure κ ε) (Bean κ))) with
      | some bean =>
        rw [verdict_of_held hheld] at h
        rw [ruling_of_held hheld]
        exact h
      | none =>
        rw [verdict_of_not_held hheld, Option.map_eq_some_iff] at h
        obtain ⟨result, hresult, rfl⟩ := h
        have hmem : reg.implType ∉ path := by
          intro hmem
          rw [hpath _ hmem depth (Nat.lt_succ_self depth)] at hresult
          cases hresult
        by_cases hfirst : ∃ earlier < depth,
            built classes registry base earlier reg.implType ≠ none
        · -- the class is built earlier, with the same result
          obtain ⟨earlier, hlt, hbuilt⟩ := hfirst
          obtain ⟨result', hresult'⟩ :=
            Option.ne_none_iff_exists'.mp hbuilt
          have hverdict : verdict classes registry base (earlier + 1)
              reg = some (result'.map fun _ => reg.implType) := by
            rw [verdict_of_not_held hheld, hresult']
            rfl
          have hlater : verdict classes registry base (depth + 1) reg =
              some (result.map fun _ => reg.implType) := by
            rw [verdict_of_not_held hheld, hresult]
            rfl
          rw [← verdict_unique hverdict hlater]
          have hruling := ih (earlier + 1) (by omega) path reg _
            hverdict fun cls hcls depth' hdepth' =>
              hpath cls hcls depth' (by omega)
          exact Coroutine.answers_mono
            (fun depth => ruling_succ depth path)
            (by omega : earlier + 1 ≤ depth + 1) hruling
        · rw [ruling_of_not_mem hheld hmem, Option.map_eq_some_iff]
          refine ⟨result, ?_, rfl⟩
          refine Coroutine.run?_mono (replyOf_more ?_) hresult
          intro reg' reply' hreply'
          refine ih depth (Nat.lt_succ_self depth) _ reg' reply' hreply' ?_
          intro cls hcls depth' hdepth'
          obtain hold | hnew := List.mem_append.mp hcls
          · exact hpath cls hold depth' (by omega)
          · rw [List.mem_singleton.mp hnew]
            by_contra hne
            exact hfirst ⟨depth', hdepth', hne⟩

theorem ruling_of_live (hlive : Live classes registry base path reg)
    (h : verdict classes registry base depth reg = some reply) :
    ∃ depth', ruling classes registry base depth' path reg = some reply := by
  classical
  have hsome : ∃ depth, verdict classes registry base depth reg ≠ none := by
    refine ⟨depth, ?_⟩
    rw [h]
    exact Option.some_ne_none reply
  obtain ⟨reply', hreply'⟩ :=
    Option.ne_none_iff_exists'.mp (Nat.find_spec hsome)
  rw [verdict_unique h hreply']
  refine ⟨Nat.find hsome, ruling_of_verdict _ path reg reply' hreply' ?_⟩
  intro cls hcls earlier hearlier
  by_contra hbuilt
  exact Nat.find_min hsome hearlier (hlive cls hcls earlier hbuilt)

end Meaning

end PyFly.Container
