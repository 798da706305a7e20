import Sigma16.Transition

/-!
Total correctness of segments of a run: from every state with one property the run
comes to a state with another. The rules compose segments and count loops down.
-/

namespace Transition

variable {Reason State : Type} {step : State → Outcome Reason State}
variable {pre middle post : State → Prop}

def Leads (step : State → Outcome Reason State) (pre post : State → Prop) : Prop :=
  ∀ state, pre state → ∃ last, Reaches step state last ∧ post last

def Stops (step : State → Outcome Reason State) (pre : State → Prop)
    (post : Reason → State → Prop) : Prop :=
  ∀ state, pre state → ∃ count reason last,
    iterate step count state = .stopped reason last ∧ post reason last

theorem Reaches.trans {first second third : State} (before : Reaches step first second)
    (after : Reaches step second third) : Reaches step first third := by
  induction after with
  | refl => exact before
  | next _ taken ih => exact ih.next taken

namespace Leads

theorem refl (pre : State → Prop) : Leads step pre pre :=
  fun state holds => ⟨state, .refl state, holds⟩

theorem single (taken : ∀ state, pre state → ∃ next, step state = .running next ∧ post next) :
    Leads step pre post := by
  intro state holds
  obtain ⟨next, run, after⟩ := taken state holds
  exact ⟨next, .next (.refl state) run, after⟩

theorem trans (first : Leads step pre middle) (second : Leads step middle post) :
    Leads step pre post := by
  intro state holds
  obtain ⟨between, before, halfway⟩ := first state holds
  obtain ⟨last, after, done⟩ := second between halfway
  exact ⟨last, before.trans after, done⟩

theorem weaken {stronger weaker : State → Prop} (leads : Leads step pre post)
    (before : ∀ state, stronger state → pre state) (after : ∀ state, post state → weaker state) :
    Leads step stronger weaker := by
  intro state holds
  obtain ⟨last, run, done⟩ := leads state (before state holds)
  exact ⟨last, run, after last done⟩

/-- A loop whose every turn takes the invariant from one count to the one below. -/
theorem countdown (inv : Nat → State → Prop)
    (body : ∀ count, Leads step (inv (count + 1)) (inv count)) (count : Nat) :
    Leads step (inv count) (inv 0) := by
  induction count with
  | zero => exact refl (inv 0)
  | succ count ih => exact (body count).trans ih

theorem stops {last : Reason → State → Prop} (leads : Leads step pre post)
    (ends : ∀ state, post state → ∃ reason final,
      step state = .stopped reason final ∧ last reason final) : Stops step pre last := by
  intro state holds
  obtain ⟨before, run, halfway⟩ := leads state holds
  obtain ⟨count, steps⟩ := reaches_iff_iterate.mp run
  obtain ⟨reason, final, stopped, done⟩ := ends before halfway
  refine ⟨count + 1, reason, final, ?_, done⟩
  rw [iterate_succ, steps, Outcome.bind_running, stopped]

end Leads

/-- A run stops when every step keeps the invariant and brings the measure down, or stops. -/
theorem Stops.of_measure {inv : State → Prop} {last : Reason → State → Prop} (measure : State → Nat)
    (turn : ∀ state, inv state →
      (∃ next, step state = .running next ∧ inv next ∧ measure next < measure state) ∨
      ∃ reason final, step state = .stopped reason final ∧ last reason final) :
    Stops step inv last := by
  intro state
  induction bound : measure state using Nat.strongRecOn generalizing state with
  | ind bound ih =>
      intro holds
      rcases turn state holds with ⟨next, taken, kept, lower⟩ | ⟨reason, final, stopped, done⟩
      · obtain ⟨count, reason, final, run, done⟩ := ih _ (by omega) next rfl kept
        exact ⟨count + 1, reason, final, by rw [iterate, taken, Outcome.bind_running, run], done⟩
      · exact ⟨1, reason, final, by rw [iterate, stopped, Outcome.bind_stopped], done⟩

theorem Stops.within_measure {inv : State → Prop} {last : Reason → State → Prop}
    (measure : State → Nat)
    (turn : ∀ state, inv state →
      (∃ next, step state = .running next ∧ inv next ∧ measure next < measure state) ∨
      ∃ reason final, step state = .stopped reason final ∧ last reason final)
    {state : State} (holds : inv state) :
    ∃ count ≤ measure state + 1, ∃ reason final,
      iterate step count state = .stopped reason final ∧ last reason final := by
  induction bound : measure state using Nat.strongRecOn generalizing state with
  | ind bound ih =>
      rcases turn state holds with ⟨next, taken, kept, lower⟩ | ⟨reason, final, stopped, done⟩
      · obtain ⟨count, within, reason, final, run, done⟩ := ih _ (by omega) kept rfl
        refine ⟨count + 1, by omega, reason, final, ?_, done⟩
        rw [iterate, taken, Outcome.bind_running, run]
      · refine ⟨1, by omega, reason, final, ?_, done⟩
        rw [iterate, stopped, Outcome.bind_stopped]

theorem iterate_keeps {inv : State → Prop} {last : Reason → State → Prop}
    (turn : ∀ state, inv state → (∃ next, step state = .running next ∧ inv next) ∨
      ∃ reason final, step state = .stopped reason final ∧ last reason final)
    (count : Nat) {state : State} (holds : inv state) :
    (∃ next, iterate step count state = .running next ∧ inv next) ∨
      ∃ reason final, iterate step count state = .stopped reason final ∧ last reason final := by
  induction count generalizing state with
  | zero => exact .inl ⟨state, rfl, holds⟩
  | succ count ih =>
      rcases turn state holds with ⟨next, taken, kept⟩ | ⟨reason, final, stopped, done⟩
      · rw [iterate, taken]
        exact ih kept
      · exact .inr ⟨reason, final, by rw [iterate, stopped, Outcome.bind_stopped], done⟩

theorem iterate_forever {inv : State → Prop}
    (turn : ∀ state, inv state → ∃ next, step state = .running next ∧ inv next) (count : Nat)
    {state : State} (holds : inv state) : ∃ last, iterate step count state = .running last := by
  induction count generalizing state with
  | zero => exact ⟨state, rfl⟩
  | succ count ih =>
      obtain ⟨next, taken, kept⟩ := turn state holds
      rw [iterate, taken]
      exact ih kept

theorem Reaches.ends {first middle last : State} {count : Nat} {reason : Reason}
    (passed : Reaches step first middle) (run : iterate step count first = .stopped reason last) :
    ∃ more, iterate step (more + 1) middle = .stopped reason last := by
  induction passed with
  | refl =>
      cases count with
      | zero => cases run
      | succ count => exact ⟨count, run⟩
  | next _ taken ih =>
      obtain ⟨more, run⟩ := ih
      rw [iterate, taken, Outcome.bind_running] at run
      cases more with
      | zero => cases run
      | succ more => exact ⟨more, run⟩

end Transition
