import Mathlib.Algebra.GroupWithZero.Nat
import Mathlib.Logic.Basic

/-! # Runs of a faulting state machine

A machine takes inputs in any order its environment allows, answers with an
output, and may fault. An invariant that no allowed input can break, and from
which no allowed input faults, holds in every reachable state.
-/

namespace Dope.Run

universe u v w x

/-! The states of these machines hold tables, with as many positions as there are
lanes or sides: positions are compared by equality, and there is a first one. -/

instance fin_lawful (n : Nat) : LawfulBEq (Fin n) := inferInstance

instance one_neZero : NeZero 1 := ⟨Nat.one_ne_zero⟩

instance two_neZero : NeZero 2 := ⟨by decide⟩

instance three_neZero : NeZero 3 := ⟨by decide⟩

/-- A state machine over states `σ`, inputs `ι`, outputs `ω` and faults `ε`. -/
structure Machine (σ : Type u) (ι : Type v) (ω : Type w) (ε : Type x) where
  start : σ → Prop
  allowed : σ → ι → Prop
  step : σ → ι → Except ε (ω × σ)

variable {σ : Type u} {ι : Type v} {ω : Type w} {ε : Type x}

inductive Machine.Reachable (m : Machine σ ι ω ε) : σ → Prop where
  | start {s : σ} : m.start s → m.Reachable s
  | next {s t : σ} {i : ι} {o : ω} :
      m.Reachable s → m.allowed s i → m.step s i = .ok (o, t) → m.Reachable t

variable {s t : σ}

/-- One more input, given by name. -/
theorem Machine.Reachable.call {m : Machine σ ι ω ε} {o : ω} (h : m.Reachable s) (i : ι)
    (ok : m.allowed s i) (run : m.step s i = .ok (o, t)) : m.Reachable t :=
  .next h ok run

/-- `I` holds at the start, and an allowed input from `I` succeeds into `I`. -/
structure Machine.Invariant (m : Machine σ ι ω ε) (I : σ → Prop) : Prop where
  start : ∀ s, m.start s → I s
  step : ∀ s i, I s → m.allowed s i → ∃ o t, m.step s i = .ok (o, t) ∧ I t

variable {m : Machine σ ι ω ε} {I : σ → Prop}

/-- One step from a state in the invariant stays in it. -/
theorem Machine.Invariant.preserved (inv : m.Invariant I) {i : ι} {o : ω} (hs : I s)
    (ha : m.allowed s i) (run : m.step s i = .ok (o, t)) : I t := by
  obtain ⟨o', t', run', ht⟩ := inv.step s i hs ha
  rw [run] at run'
  have same : t = t' := congrArg Prod.snd (Except.ok.inj run')
  rw [same]
  exact ht

theorem Machine.Invariant.holds (inv : m.Invariant I) (h : m.Reachable s) : I s := by
  induction h with
  | start hs => exact inv.start _ hs
  | next _ ha run ih => exact inv.preserved ih ha run

/-- No allowed input faults in a reachable state. -/
theorem Machine.Invariant.progress (inv : m.Invariant I) (h : m.Reachable s) {i : ι}
    (ha : m.allowed s i) : ∃ o t, m.step s i = .ok (o, t) := by
  obtain ⟨o, t, run, -⟩ := inv.step s i (inv.holds h) ha
  exact ⟨o, t, run⟩

/-- Allowed steps through states that all satisfy `P`. -/
inductive Machine.Steps (m : Machine σ ι ω ε) (P : σ → Prop) (s : σ) : σ → Prop where
  | refl : m.Steps P s s
  | next {t u : σ} {i : ι} {o : ω} :
      m.Steps P s t → m.allowed t i → m.step t i = .ok (o, u) → P u → m.Steps P s u

variable {α : Type w}

/-- What a step between states of `P` keeps, a run through `P` keeps. -/
theorem Machine.Steps.keeps {P : σ → Prop} (value : σ → α) (h : m.Steps P s t)
    (start : m.Reachable s) (first : P s)
    (step : ∀ s t i o, m.Reachable s → P s → m.allowed s i → m.step s i = .ok (o, t) → P t → value
      t = value s) : m.Reachable t ∧ P t ∧ value t = value s := by
  induction h with
  | refl => exact ⟨start, first, rfl⟩
  | next _ allowed run last ih =>
    rcases ih with ⟨reached, here, same⟩
    exact ⟨.next reached allowed run, last,
      (step _ _ _ _ reached here allowed run last).trans same⟩

/-! ## Sequencing -/

variable {β : Type w}

theorem bind_ok {value : Except ε α} {next : α → Except ε β} {result : β} :
    value >>= next = .ok result ↔ ∃ mid, value = .ok mid ∧ next mid = .ok result := by
  cases value with
  | error | ok => simp [bind, Except.bind]

@[simp] theorem ok_bind (a : α) (next : α → Except ε β) :
    (Except.ok a >>= next) = next a := rfl

/-! ## Two runs -/

/-- Two computations end with related values, or with the same fault. -/
inductive Agree {α β : Type w} (R : α → β → Prop) : Except ε α → Except ε β → Prop where
  | ok {a : α} {b : β} : R a b → Agree R (.ok a) (.ok b)
  | error {fault : ε} : Agree R (.error fault) (.error fault)

theorem Agree.bind {γ δ : Type w} {R : α → β → Prop} {S : γ → δ → Prop} {first : Except ε α}
    {second : Except ε β} {next : α → Except ε γ} {next' : β → Except ε δ}
    (agree : Agree R first second) (rest : ∀ a b, R a b → Agree S (next a) (next' b)) :
    Agree S (first >>= next) (second >>= next') := by
  cases agree with
  | ok related => exact rest _ _ related
  | error => exact .error

/-! ## Refinement -/

/-- The inputs and outputs of a run, in order. -/
inductive Machine.Traces (m : Machine σ ι ω ε) : List (ι × ω) → σ → Prop where
  | start {s : σ} : m.start s → m.Traces [] s
  | next {events : List (ι × ω)} {s t : σ} {i : ι} {o : ω} :
      m.Traces events s → m.allowed s i → m.step s i = .ok (o, t) →
      m.Traces (events ++ [(i, o)]) t

theorem Machine.Traces.call {events : List (ι × ω)} {o : ω} (h : m.Traces events s) (i : ι)
    (ok : m.allowed s i) (run : m.step s i = .ok (o, t)) : m.Traces (events ++ [(i, o)]) t :=
  .next h ok run

/-- An abstract system, which says what may follow. -/
structure Spec (α : Type u) (ι : Type v) (ω : Type w) where
  start : α → Prop
  step : α → ι → ω → α → Prop

inductive Spec.Traces {α : Type u} (spec : Spec α ι ω) : List (ι × ω) → α → Prop where
  | start {a : α} : spec.start a → spec.Traces [] a
  | next {events : List (ι × ω)} {a b : α} {i : ι} {o : ω} :
      spec.Traces events a → spec.step a i o b → spec.Traces (events ++ [(i, o)]) b

/-- Every step of the machine succeeds, and is a step of the abstract system. -/
structure Machine.Refines {α : Type u} (m : Machine σ ι ω ε) (spec : Spec α ι ω)
    (R : σ → α → Prop) : Prop where
  start : ∀ s, m.start s → ∃ a, spec.start a ∧ R s a
  step : ∀ s a i, R s a → m.allowed s i →
    ∃ o t b, m.step s i = .ok (o, t) ∧ spec.step a i o b ∧ R t b

/-- What the machine answers, the abstract system may answer. -/
theorem Machine.Refines.traces {α : Type u} {spec : Spec α ι ω} {R : σ → α → Prop}
    (refines : m.Refines spec R) {events : List (ι × ω)} (h : m.Traces events s) :
    ∃ a, spec.Traces events a ∧ R s a := by
  induction h with
  | start started =>
    obtain ⟨a, first, related⟩ := refines.start _ started
    exact ⟨a, .start first, related⟩
  | next _ ha run ih =>
    obtain ⟨a, traces, related⟩ := ih
    obtain ⟨o, t, b, run', step, related'⟩ := refines.step _ a _ related ha
    rw [run] at run'
    cases run'
    exact ⟨b, .next traces step, related'⟩

end Dope.Run
