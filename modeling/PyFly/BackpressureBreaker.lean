import PyFly.Backpressure

/-!
# The circuit of the breaker strategy

The last opening is looked up in the turns of the loop, not in its variables.
-/

namespace PyFly.Transactional

variable {I V E : Type}

variable (config : BackpressureConfig) (clock : ℕ → ℚ)

/-- The reading with which a turn opens the circuit, or opens it again. -/
def BreakerTurn.opening (turn : BreakerTurn I V E) : Option ℚ :=
  match turn.entry with
  | .produced (.error _) =>
    if turn.after.circuitOpen then turn.after.circuitOpenedAt else none
  | _ => none

def lastOpening (last : Option ℚ) (turns : List (BreakerTurn I V E)) : Option ℚ :=
  turns.foldl (fun last turn => turn.opening.or last) last

structure BreakerState.Sound (last : Option ℚ) (state : BreakerState) : Prop where
  opened : state.circuitOpen = true ↔ state.circuitOpenedAt.isSome = true
  below : state.circuitOpen = false → state.consecutiveFailures < config.failureThreshold
  last : state.circuitOpen = true → state.circuitOpenedAt = last

structure BreakerTurn.Maintains (last : Option ℚ) (turn : BreakerTurn I V E) :
    Prop where
  before : turn.before.Sound config last
  after : turn.after.Sound config (turn.opening.or last)
  closed : turn.before.circuitOpen = false → turn.calledAt.isSome = true
  due : turn.before.circuitOpen = true → (turn.calledAt.isSome = true ↔
    ∃ openedAt, last = some openedAt ∧
      (config.waitDurationMs : ℚ) / 1000 ≤ clock turn.before.instant - openedAt)
  waits : turn.before.circuitOpen = true → ∀ calledAt, turn.calledAt = some calledAt →
    ∃ openedAt, last = some openedAt ∧ (config.waitDurationMs : ℚ) / 1000 ≤ calledAt - openedAt
  probes : turn.before.circuitOpen = true → ∀ calledAt, turn.calledAt = some calledAt →
    (∃ value, turn.entry = .produced (.ok value) ∧
      turn.after.circuitOpen = false ∧ turn.after.consecutiveFailures = 0) ∨
    ∃ error openedAt, turn.entry = .produced (.error error) ∧
      turn.after.circuitOpen = true ∧ turn.opening = some openedAt ∧
      calledAt ≤ openedAt
  rejects : turn.calledAt = none →
    turn.opening = none ∧ (∃ message, turn.entry = .rejected message) ∧
      ∃ instant, turn.after = { turn.before with instant := instant }

namespace BreakerState

variable {config clock} (processor : Processor I V E)
  (render : I → String) {state : BreakerState} {last : Option ℚ}

theorem exists_opening (hsound : state.Sound config last) (hopen : state.circuitOpen = true) :
    ∃ openedAt, last = some openedAt ∧ state.circuitOpenedAt = some openedAt := by
  obtain ⟨openedAt, hopened⟩ := Option.isSome_iff_exists.mp (hsound.opened.mp hopen)
  exact ⟨openedAt, (hsound.last hopen).symm.trans hopened, hopened⟩

theorem maintains_turn (hclock : Monotone clock)
    (hthreshold : 1 ≤ config.failureThreshold) (hsound : state.Sound config last)
    (task : ℕ × I) :
    (state.turn config clock processor render task).Maintains config clock last := by
  cases hopen : state.circuitOpen with
  | false =>
    have hnone : state.circuitOpenedAt = none := by
      have hopened := hsound.opened
      rw [hopen] at hopened
      simpa using hopened
    cases hcall : (processor task).outcome with
    | ok value =>
      constructor <;> simp [turn, BreakerTurn.opening, hopen, hcall, hsound]
      constructor <;> simp [hnone]
      omega
    | error error =>
      by_cases hreached : config.failureThreshold ≤ state.consecutiveFailures + 1
      · constructor <;> simp [turn, BreakerTurn.opening, hopen, hcall, hreached, hsound]
        constructor <;> simp
      · constructor <;> simp [turn, BreakerTurn.opening, hopen, hcall, hreached, hsound]
        constructor <;> simp [hnone]
        omega
  | true =>
    obtain ⟨openedAt, hlast, hopened⟩ := exists_opening hsound hopen
    by_cases hwaited : (config.waitDurationMs : ℚ) / 1000 ≤ clock state.instant - openedAt
    · have hwait : (config.waitDurationMs : ℚ) / 1000 ≤ clock (state.instant + 1) - openedAt :=
        le_trans hwaited (sub_le_sub_right (hclock (Nat.le_succ _)) _)
      cases hcall : (processor task).outcome with
      | ok value =>
        constructor <;>
          simp [turn, BreakerTurn.opening, waited, hopen, hopened, hwaited, hcall, hlast, hwait]
        · exact hlast ▸ hsound
        · constructor <;> simp
          omega
      | error error =>
        constructor <;>
          simp [turn, BreakerTurn.opening, waited, hopen, hopened, hwaited, hcall, hlast, hwait]
        · exact hlast ▸ hsound
        · constructor <;> simp
        · exact hclock (Nat.le_succ _)
    · constructor <;> simp [turn, BreakerTurn.opening, waited, hopen, hopened, hwaited, hlast]
      · exact hlast ▸ hsound
      · constructor <;> simp

theorem maintains_turns (hclock : Monotone clock)
    (hthreshold : 1 ≤ config.failureThreshold) {tasks : List (ℕ × I)}
    {earlier later : List (BreakerTurn I V E)} {turn : BreakerTurn I V E}
    (hsound : state.Sound config last)
    (hturns : state.turns config clock processor render tasks = earlier ++ turn :: later) :
    turn.before = earlier.foldl (fun _ turn => turn.after) state ∧
      turn.Maintains config clock (lastOpening last earlier) := by
  induction tasks generalizing state last earlier with
  | nil => simp [turns] at hturns
  | cons task rest ih =>
    have hfirst := maintains_turn processor render hclock hthreshold hsound task
    cases earlier with
    | nil =>
      obtain ⟨rfl, -⟩ := List.cons_eq_cons.mp hturns
      refine ⟨?_, hfirst⟩
      unfold turn
      split <;> (try split) <;> rfl
    | cons head earlier =>
      obtain ⟨rfl, hrest⟩ := List.cons_eq_cons.mp hturns
      have hlater := ih hfirst.after hrest
      exact hlater

end BreakerState

end PyFly.Transactional
