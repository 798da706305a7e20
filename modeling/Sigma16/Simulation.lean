import Sigma16.TotalCorrectness

/-!
Two machines that move in step: what relates their states before a step relates them after
any number of steps, for as long as the first machine stays where its steps are matched.
-/

namespace Transition

variable {Reason State OtherReason OtherState : Type}

namespace Outcome

def map (into : State → OtherState) : Outcome Reason State → Outcome Reason OtherState
  | running state => running (into state)
  | stopped reason state => stopped reason (into state)

@[simp] theorem map_running (into : State → OtherState) (state : State) :
    (running state : Outcome Reason State).map into = running (into state) := rfl

@[simp] theorem map_stopped (into : State → OtherState) (reason : Reason) (state : State) :
    (stopped reason state).map into = stopped reason (into state) := rfl

inductive Matches (reasons : Reason → OtherReason → Prop) (states : State → OtherState → Prop) :
    Outcome Reason State → Outcome OtherReason OtherState → Prop
  | running {first second} : states first second →
      Matches reasons states (.running first) (.running second)
  | stopped {reason other first second} : reasons reason other → states first second →
      Matches reasons states (.stopped reason first) (.stopped other second)

variable {reasons : Reason → OtherReason → Prop} {states : State → OtherState → Prop}

theorem Matches.bind {next : State → Outcome Reason State}
    {follow : OtherState → Outcome OtherReason OtherState} {first : Outcome Reason State}
    {second : Outcome OtherReason OtherState} (matched : Matches reasons states first second)
    (each : ∀ state other, first = .running state → states state other →
      Matches reasons states (next state) (follow other)) :
    Matches reasons states (first.bind next) (second.bind follow) := by
  cases matched with
  | running related => exact each _ _ rfl related
  | stopped same related => exact .stopped same related

theorem Matches.of_running {first : State} {second : Outcome OtherReason OtherState}
    (matched : Matches reasons states (.running first) second) :
    ∃ last, second = .running last ∧ states first last := by
  cases matched with
  | running related => exact ⟨_, rfl, related⟩

theorem Matches.of_stopped {reason : Reason} {first : State}
    {second : Outcome OtherReason OtherState}
    (matched : Matches reasons states (.stopped reason first) second) :
    ∃ other last, second = .stopped other last ∧ reasons reason other ∧ states first last := by
  cases matched with
  | stopped same related => exact ⟨_, _, rfl, same, related⟩

theorem Matches.state {first : Outcome Reason State} {second : Outcome OtherReason OtherState}
    (matched : Matches reasons states first second) : states first.state second.state := by
  cases matched with
  | running related => exact related
  | stopped _ related => exact related

theorem Matches.mono {weaker : State → OtherState → Prop} {first : Outcome Reason State}
    {second : Outcome OtherReason OtherState} (matched : Matches reasons states first second)
    (weaken : ∀ state other, states state other → weaker state other) :
    Matches reasons weaker first second := by
  cases matched with
  | running related => exact .running (weaken _ _ related)
  | stopped same related => exact .stopped same (weaken _ _ related)

theorem matches_graph {into : State → OtherState} {first : Outcome Reason State}
    {second : Outcome Reason OtherState} :
    Matches (· = ·) (fun state other => into state = other) first second ↔
      second = first.map into := by
  constructor
  · intro matched
    cases matched with
    | running related => rw [← related, map_running]
    | stopped same related => rw [← same, ← related, map_stopped]
  · rintro rfl
    cases first with
    | running state => exact .running rfl
    | stopped reason state => exact .stopped rfl rfl

end Outcome

variable {step : State → Outcome Reason State}
variable {follow : OtherState → Outcome OtherReason OtherState}
variable {reasons : Reason → OtherReason → Prop} {states : State → OtherState → Prop}

/-- Steps that are matched from the states satisfying `guard` match whole runs through them. -/
theorem iterate_matches (guard : State → Prop)
    (each : ∀ state other, states state other → guard state →
      (step state).Matches reasons states (follow other))
    {first : State} {second : OtherState} (related : states first second) (count : Nat)
    (guarded : ∀ before < count, ∀ middle, iterate step before first = .running middle →
      guard middle) :
    (iterate step count first).Matches reasons states (iterate follow count second) := by
  induction count with
  | zero => exact .running related
  | succ count ih =>
      rw [iterate_succ, iterate_succ]
      have earlier := ih fun before inside => guarded before (Nat.lt_succ_of_lt inside)
      refine earlier.bind fun middle other reached later => ?_
      exact each middle other later (guarded count (Nat.lt_succ_self count) middle reached)

theorem iterate_congr {other : State → Outcome Reason State} {inv : State → Prop}
    (same : ∀ state, inv state → other state = step state)
    (kept : ∀ state next, inv state → step state = .running next → inv next) (count : Nat)
    {first : State} (holds : inv first) : iterate other count first = iterate step count first := by
  induction count generalizing first with
  | zero => rfl
  | succ count ih =>
      rw [iterate, iterate, same first holds]
      cases taken : step first with
      | running next => exact ih (kept first next holds taken)
      | stopped reason last => rfl

end Transition
