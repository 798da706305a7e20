import Mathlib.Data.List.Forall2

/-!
Computations that return a value or an error: what a sequence of them returned, which
errors it can end in, and what a fold of them preserves.
-/

namespace Fallible

variable {Err Mid Val : Type}

theorem bind_eq_ok {first : Except Err Mid} {rest : Mid → Except Err Val} {val : Val} :
    (first >>= rest) = .ok val ↔ ∃ mid, first = .ok mid ∧ rest mid = .ok val := by
  cases first <;> simp [bind, Except.bind]

theorem bind_eq_error {first : Except Err Mid} {rest : Mid → Except Err Val} {err : Err} :
    (first >>= rest) = .error err ↔
      first = .error err ∨ ∃ mid, first = .ok mid ∧ rest mid = .error err := by
  cases first <;> simp [bind, Except.bind]

theorem map_eq_ok {first : Except Err Mid} {into : Mid → Val} {val : Val} :
    first.map into = .ok val ↔ ∃ mid, first = .ok mid ∧ val = into mid := by
  cases first <;> simp [Except.map, eq_comm]

theorem map_eq_map {Other : Type} {first : Except Err Mid} {second : Except Err Other}
    {into : Mid → Val} {onto : Other → Val} (same : first.map into = second.map onto) :
    (∃ err, first = .error err ∧ second = .error err) ∨
      ∃ mid other, first = .ok mid ∧ second = .ok other ∧ into mid = onto other := by
  cases first with
  | error err =>
      cases second with
      | error other => exact .inl ⟨err, rfl, congrArg Except.error (Except.error.inj same).symm⟩
      | ok other => cases same
  | ok mid =>
      cases second with
      | error other => cases same
      | ok other => exact .inr ⟨mid, other, rfl, rfl, Except.ok.inj same⟩

variable {Item State : Type}

theorem mapM_eq_ok {each : Item → Except Err Val} {items : List Item} {vals : List Val} :
    items.mapM each = .ok vals ↔ List.Forall₂ (fun item val => each item = .ok val) items vals := by
  induction items generalizing vals with
  | nil => simp [pure, Except.pure, eq_comm]
  | cons item items ih =>
      simp only [List.mapM_cons, bind_eq_ok, ih, pure, Except.pure, Except.ok.injEq,
        List.forall₂_cons_left_iff]
      constructor
      · rintro ⟨val, first, vals, rest, rfl⟩
        exact ⟨val, vals, first, rest, rfl⟩
      · rintro ⟨val, vals, first, rest, rfl⟩
        exact ⟨val, first, vals, rest, rfl⟩

theorem mapM_at {each : Item → Except Err Val} {items : List Item} {vals : List Val} {index : Nat}
    {item : Item} (mapped : items.mapM each = .ok vals) (stored : items[index]? = some item) :
    ∃ val, vals[index]? = some val ∧ each item = .ok val := by
  have related := mapM_eq_ok.mp mapped
  clear mapped
  induction related generalizing index with
  | nil => simp at stored
  | cons first rest ih =>
      cases index with
      | zero =>
          obtain rfl := Option.some.inj stored
          exact ⟨_, rfl, first⟩
      | succ index => exact ih stored

theorem mapM_source {each : Item → Except Err Val} {items : List Item} {vals : List Val} {val : Val}
    (mapped : items.mapM each = .ok vals) (member : val ∈ vals) :
    ∃ item ∈ items, each item = .ok val := by
  have related := mapM_eq_ok.mp mapped
  clear mapped
  induction related with
  | nil => cases member
  | cons first _ ih =>
      rcases List.mem_cons.mp member with rfl | later
      · exact ⟨_, by simp, first⟩
      · obtain ⟨item, stored, made⟩ := ih later
        exact ⟨item, by simp [stored], made⟩

theorem mapM_eq_error {each : Item → Except Err Val} {items : List Item} {err : Err}
    (failed : items.mapM each = .error err) : ∃ item ∈ items, each item = .error err := by
  induction items with
  | nil => cases failed
  | cons item items ih =>
      rw [List.mapM_cons, bind_eq_error] at failed
      rcases failed with first | ⟨val, _, rest⟩
      · exact ⟨item, by simp, first⟩
      · rcases bind_eq_error.mp rest with later | ⟨vals, _, impossible⟩
        · obtain ⟨other, member, failed⟩ := ih later
          exact ⟨other, by simp [member], failed⟩
        · cases impossible

theorem mapM_succeeds {each : Item → Except Err Val} {items : List Item} :
    (∃ vals, items.mapM each = .ok vals) ↔ ∀ item ∈ items, ∃ val, each item = .ok val := by
  constructor
  · rintro ⟨vals, mapped⟩ item member
    obtain ⟨index, stored⟩ := List.getElem?_of_mem member
    obtain ⟨val, _, found⟩ := mapM_at mapped stored
    exact ⟨val, found⟩
  · intro succeeds
    cases outcome : items.mapM each with
    | ok vals => exact ⟨vals, rfl⟩
    | error err =>
        obtain ⟨item, member, failed⟩ := mapM_eq_error outcome
        obtain ⟨val, found⟩ := succeeds item member
        cases found.symm.trans failed

theorem foldlM_eq_error {step : State → Item → Except Err State} {items : List Item}
    {first : State} {err : Err} (failed : items.foldlM step first = .error err) :
    ∃ before item after middle, items = before ++ item :: after ∧
      before.foldlM step first = .ok middle ∧ step middle item = .error err := by
  induction items generalizing first with
  | nil => cases failed
  | cons item items ih =>
      rw [List.foldlM_cons, bind_eq_error] at failed
      rcases failed with here | ⟨next, taken, later⟩
      · exact ⟨[], item, items, first, rfl, rfl, here⟩
      · obtain ⟨before, other, after, middle, rfl, ran, failed⟩ := ih later
        refine ⟨item :: before, other, after, middle, rfl, ?_, failed⟩
        rw [List.foldlM_cons, taken]
        exact ran

/-- A fact every step of a fold preserves holds at its end. -/
theorem foldlM_invariant {step : State → Item → Except Err State} (inv : State → Prop)
    {items : List Item} {first last : State}
    (preserved : ∀ item ∈ items, ∀ state next, inv state → step state item = .ok next → inv next)
    (initial : inv first) (folded : items.foldlM step first = .ok last) : inv last := by
  induction items generalizing first with
  | nil =>
      obtain rfl := Except.ok.inj folded
      exact initial
  | cons item items ih =>
      rw [List.foldlM_cons, bind_eq_ok] at folded
      obtain ⟨middle, taken, rest⟩ := folded
      exact ih (fun other member => preserved other (by simp [member]))
        (preserved item (by simp) first middle initial taken) rest

def FailsWithin (allowed : Err → Prop) (outcome : Except Err Val) : Prop :=
  ∀ err, outcome = .error err → allowed err

section FailsWithin

variable {allowed : Err → Prop} {first : Except Err Mid} {outcome : Except Err Val}

theorem failsWithin_ok (val : Val) : FailsWithin allowed (.ok val) := by
  intro err failed
  cases failed

theorem failsWithin_error {err : Err} :
    FailsWithin allowed (.error err : Except Err Val) ↔ allowed err := by
  constructor
  · intro within
    exact within err rfl
  · intro kind other failed
    obtain rfl := Except.error.inj failed
    exact kind

theorem failsWithin_map (into : Mid → Val) :
    FailsWithin allowed (first.map into) ↔ FailsWithin allowed first := by
  cases first with
  | ok mid => exact iff_of_true (failsWithin_ok (into mid)) (failsWithin_ok mid)
  | error err => exact failsWithin_error.trans failsWithin_error.symm

theorem failsWithin_bind {rest : Mid → Except Err Val} (within : FailsWithin allowed first) :
    FailsWithin allowed (first >>= rest) ↔ ∀ mid, first = .ok mid → FailsWithin allowed (rest mid) := by
  constructor
  · intro whole mid found err failed
    exact whole err (bind_eq_error.mpr (.inr ⟨mid, found, failed⟩))
  · intro later err failed
    rcases bind_eq_error.mp failed with early | ⟨mid, found, late⟩
    · exact within err early
    · exact later mid found err late

theorem failsWithin_mapM {each : Item → Except Err Val} (within : ∀ item, FailsWithin allowed (each item))
    (items : List Item) : FailsWithin allowed (items.mapM each) := by
  intro err failed
  obtain ⟨item, _, raised⟩ := mapM_eq_error failed
  exact within item err raised

theorem failsWithin_unpack {each : Item → Except Err Mid} {rest : List Mid → Except Err Val}
    {count : Nat} {items : List Item} (within : ∀ item, FailsWithin allowed (each item))
    (unpacked : ∀ mids, FailsWithin allowed (rest mids) ↔ mids.length = count) :
    FailsWithin allowed (items.mapM each >>= rest) ↔
      ¬ ((∀ item ∈ items, ∃ mid, each item = .ok mid) ∧ items.length ≠ count) := by
  rw [failsWithin_bind (failsWithin_mapM within items), ← mapM_succeeds]
  constructor
  · rintro later ⟨⟨mids, mapped⟩, other⟩
    have length := (mapM_eq_ok.mp mapped).length_eq
    exact other (length.trans ((unpacked mids).mp (later mids mapped)))
  · intro shaped mids mapped
    have length := (mapM_eq_ok.mp mapped).length_eq
    rw [unpacked, ← length]
    by_contra other
    exact shaped ⟨⟨mids, mapped⟩, other⟩

end FailsWithin

section Related

variable {Other OtherMid OtherVal OtherItem : Type} {errors : Err → Other → Prop}
variable {mids : Mid → OtherMid → Prop} {vals : Val → OtherVal → Prop}

inductive Related (errors : Err → Other → Prop) (vals : Val → OtherVal → Prop) :
    Except Err Val → Except Other OtherVal → Prop
  | ok {val other} : vals val other → Related errors vals (.ok val) (.ok other)
  | error {err other} : errors err other → Related errors vals (.error err) (.error other)

theorem Related.bind {first : Except Err Mid} {second : Except Other OtherMid}
    {rest : Mid → Except Err Val} {follow : OtherMid → Except Other OtherVal}
    (related : Related errors mids first second)
    (later : ∀ mid other, mids mid other → Related errors vals (rest mid) (follow other)) :
    Related errors vals (first >>= rest) (second >>= follow) := by
  cases related with
  | ok same => exact later _ _ same
  | error failed => exact .error failed

theorem Related.mapM {each : Item → Except Err Val} {also : OtherItem → Except Other OtherVal}
    {items : List Item} {others : List OtherItem}
    (pairs : List.Forall₂ (fun item other => Related errors vals (each item) (also other))
      items others) :
    Related errors (List.Forall₂ vals) (items.mapM each) (others.mapM also) := by
  induction pairs with
  | nil => exact .ok .nil
  | cons first _ ih =>
      rw [List.mapM_cons, List.mapM_cons]
      refine first.bind fun val other same => ih.bind fun rest others tail => ?_
      exact .ok (.cons same tail)

end Related

end Fallible
