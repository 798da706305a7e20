/-!
Deterministic step functions that either keep running or stop with a reason.
The rules below carry a fact about one step to every state a run reaches.
-/

namespace Transition

inductive Outcome (Reason State : Type) where
  | running (state : State)
  | stopped (reason : Reason) (state : State)

namespace Outcome

variable {Reason State : Type}

def state : Outcome Reason State → State
  | running state => state
  | stopped _ state => state

def bind (outcome : Outcome Reason State) (next : State → Outcome Reason State) :
    Outcome Reason State :=
  match outcome with
  | running state => next state
  | stopped reason state => stopped reason state

@[simp] theorem bind_running (state : State) (next : State → Outcome Reason State) :
    (running state).bind next = next state := rfl

@[simp] theorem bind_stopped (reason : Reason) (state : State)
    (next : State → Outcome Reason State) :
    (stopped reason state).bind next = stopped reason state := rfl

@[simp] theorem state_running (state : State) :
    (running state : Outcome Reason State).state = state := rfl

@[simp] theorem state_stopped (reason : Reason) (state : State) :
    (stopped reason state).state = state := rfl

end Outcome

variable {Reason State : Type} {step : State → Outcome Reason State}

inductive Reaches (step : State → Outcome Reason State) : State → State → Prop
  | refl (state) : Reaches step state state
  | next {first middle last} : Reaches step first middle → step middle = .running last →
      Reaches step first last

/-- An invariant of single steps holds in every state a run reaches. -/
theorem Reaches.invariant (inv : State → Prop) {first last : State}
    (preserved : ∀ state next, inv state → step state = .running next → inv next)
    (run : Reaches step first last) (initial : inv first) : inv last := by
  induction run with
  | refl => exact initial
  | next _ taken ih => exact preserved _ _ ih taken

def iterate (step : State → Outcome Reason State) : Nat → State → Outcome Reason State
  | 0, state => .running state
  | count + 1, state => (step state).bind (iterate step count)

variable {first middle last : State}

theorem Reaches.head (taken : step first = .running middle) (run : Reaches step middle last) :
    Reaches step first last := by
  induction run with
  | refl => exact .next (.refl first) taken
  | next _ later ih => exact .next ih later

theorem iterate_add (count more : Nat) (first : State) :
    iterate step (count + more) first = (iterate step count first).bind (iterate step more) := by
  induction count generalizing first with
  | zero =>
      rw [Nat.zero_add]
      rfl
  | succ count ih =>
      rw [Nat.add_right_comm, iterate, iterate]
      cases step first with
      | stopped reason state => rfl
      | running state => exact ih state

theorem iterate_succ (count : Nat) (first : State) :
    iterate step (count + 1) first = (iterate step count first).bind step := by
  rw [iterate_add]
  cases iterate step count first with
  | stopped reason state => rfl
  | running state =>
      rw [Outcome.bind_running, Outcome.bind_running, iterate]
      cases step state <;> rfl

theorem reaches_iff_iterate :
    Reaches step first last ↔ ∃ count, iterate step count first = .running last := by
  constructor
  · intro run
    induction run with
    | refl => exact ⟨0, rfl⟩
    | next _ taken ih =>
        obtain ⟨count, earlier⟩ := ih
        exact ⟨count + 1, by rw [iterate_succ, earlier, Outcome.bind_running, taken]⟩
  · rintro ⟨count, run⟩
    induction count generalizing first with
    | zero =>
        obtain rfl : first = last := by simpa [iterate] using run
        exact .refl first
    | succ count ih =>
        cases stepped : step first with
        | stopped reason state => simp [iterate, stepped] at run
        | running state =>
            rw [iterate, stepped] at run
            exact (ih run).head stepped

end Transition
