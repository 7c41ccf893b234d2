import Mathlib.Algebra.Group.Nat.Defs
import Mathlib.Logic.Basic
import Dope.Base.Run

/-! # Reply arena layout

Model of `reply/layout` and of the credit plans of `retain/grant/plan`. Sizes are
`usize` on a 64-bit target; a subtraction below zero is a fault. A count is a
`u32`.
-/

namespace Dope.Reply

open Run

/-- What the source leaves undefined, or stops on: arithmetic below zero, a slot
read as occupied that is not, and a vacancy that is occupied. -/
inductive Fault where
  | arithmetic
  | vacant
  | occupied
deriving DecidableEq, Repr

/-- `a - b` -/
def minus (a b : Nat) : Except Fault Nat :=
  if b ≤ a then .ok (a - b) else .error .arithmetic

theorem minus_of_le {a b : Nat} (le : b ≤ a) : minus a b = .ok (a - b) := if_pos le

def u32Max : Nat := 2 ^ 32 - 1

structure Limit where
  data : Nat
  bytes : Nat
  values : Nat
deriving DecidableEq, Repr

structure Capacity where
  lanes : Nat
  entries : Nat
  data : Nat
  bytes : Nat
  values : Nat
deriving DecidableEq, Repr

def maximumEntries : Nat := u32Max / 2

def maximumData : Nat := u32Max

/-! ## Plans -/

/-- What every lane shares, and what each keeps for itself, on `N` axes. -/
structure Plan (N : Nat) where
  shared : Fin N → Nat
  reserve : Fin N → Nat

namespace Plan

def entryLimit (entries lanes : Nat) : Except Fault Nat := do
  let rest ← minus entries lanes
  return rest + 1

def slots (entries lanes : Nat) : Except Fault (Plan 1) := do
  let limit ← entryLimit entries lanes
  let shared ← minus limit 1
  return ⟨fun _ => shared, fun _ => 1⟩

def payloadReserve (capacity : Fin 3 → Nat) (lanes : Nat) (axis : Fin 3) : Nat :=
  if lanes = 1 then capacity axis else capacity axis / lanes / 2

def payload (capacity : Fin 3 → Nat) (lanes : Nat) : Except Fault (Plan 3) := do
  let reserve := payloadReserve capacity lanes
  let data ← minus (capacity 0) (reserve 0 * lanes)
  let values ← minus (capacity 1) (reserve 1 * lanes)
  let bytes ← minus (capacity 2) (reserve 2 * lanes)
  return ⟨fun
    | 0 => data
    | 1 => values
    | 2 => bytes, reserve⟩

def ceiling (plan : Plan 3) (axis : Fin 3) : Nat := plan.shared axis + plan.reserve axis

theorem slots_of_le {entries lanes : Nat} (le : lanes ≤ entries) :
    slots entries lanes = .ok ⟨fun _ => entries - lanes, fun _ => 1⟩ := by
  have limit : entryLimit entries lanes = .ok (entries - lanes + 1) := by
    rw [entryLimit, minus_of_le le]
    rfl
  rw [slots, limit, ok_bind, minus_of_le (by omega)]
  rfl

theorem payloadReserve_mul_le (capacity : Fin 3 → Nat) (lanes : Nat) (axis : Fin 3) :
    payloadReserve capacity lanes axis * lanes ≤ capacity axis := by
  unfold payloadReserve
  by_cases single : lanes = 1
  · simp [single]
  · rw [if_neg single]
    calc capacity axis / lanes / 2 * lanes ≤ capacity axis / lanes * lanes :=
          Nat.mul_le_mul_right lanes (Nat.div_le_self _ 2)
      _ ≤ capacity axis := Nat.div_mul_le_self _ _

theorem payload_ok (capacity : Fin 3 → Nat) (lanes : Nat) :
    ∃ plan, payload capacity lanes = .ok plan := by
  unfold payload
  simp only [minus_of_le (payloadReserve_mul_le capacity lanes _), ok_bind]
  exact ⟨_, rfl⟩

end Plan

/-! ## Layouts -/

structure Layout where
  lanes : Nat
  entries : Nat
  limit : Limit
  admission : Plan 1
  payload : Plan 3

inductive Layout.Error where
  | zeroLanes
  | lanesTooLarge (actual maximum : Nat)
  | zeroEntries
  | zeroBytes
  | zeroValues
  | zeroDataLimit
  | zeroByteLimit
  | zeroValueLimit
  | entriesBelowLanes (entries lanes : Nat)
  | entriesTooLarge (actual maximum : Nat)
  | dataTooLarge (actual maximum : Nat)
  | dataLimitUnattainable (requested available : Nat)
  | byteLimitUnattainable (requested available : Nat)
  | valueLimitUnattainable (requested available : Nat)
deriving DecidableEq, Repr

namespace Layout

/-- What is wrong with the sizes, in the order of the source. -/
def rejects (capacity : Capacity) (wanted : Option Limit) : Option Error :=
  if u32Max < capacity.lanes then some (.lanesTooLarge capacity.lanes u32Max)
  else if capacity.lanes = 0 then some .zeroLanes
  else if u32Max < capacity.entries then
    some (.entriesTooLarge capacity.entries maximumEntries)
  else if capacity.entries = 0 then some .zeroEntries
  else if capacity.entries < capacity.lanes then
    some (.entriesBelowLanes capacity.entries capacity.lanes)
  else if maximumEntries < capacity.entries then
    some (.entriesTooLarge capacity.entries maximumEntries)
  else if maximumData < capacity.data then some (.dataTooLarge capacity.data maximumData)
  else if capacity.bytes = 0 then some .zeroBytes
  else if capacity.values = 0 then some .zeroValues
  else
    match wanted with
    | some limit =>
        if limit.data = 0 then some .zeroDataLimit
        else if limit.bytes = 0 then some .zeroByteLimit
        else if limit.values = 0 then some .zeroValueLimit
        else none
    | none => if capacity.data = 0 then some .zeroDataLimit else none

/-- The limits of one reply, which one lane must be able to attain. -/
def limits (plan : Plan 3) : Option Limit → Except Error Limit
  | some limit =>
      if plan.ceiling 0 < limit.data then
        .error (.dataLimitUnattainable limit.data (plan.ceiling 0))
      else if plan.ceiling 1 < limit.values then
        .error (.valueLimitUnattainable limit.values (plan.ceiling 1))
      else if plan.ceiling 2 < limit.bytes then
        .error (.byteLimitUnattainable limit.bytes (plan.ceiling 2))
      else .ok limit
  | none => .ok ⟨plan.ceiling 0, plan.ceiling 2, plan.ceiling 1⟩

def withLimit (capacity : Capacity) (wanted : Option Limit) :
    Except Fault (Except Error Layout) :=
  match rejects capacity wanted with
  | some cause => .ok (.error cause)
  | none => do
      let admission ← Plan.slots capacity.entries capacity.lanes
      let sizes : Fin 3 → Nat := fun
        | 0 => capacity.data
        | 1 => capacity.values
        | 2 => capacity.bytes
      let payload ← Plan.payload sizes capacity.lanes
      match limits payload wanted with
      | .error cause => return .error cause
      | .ok limit => return .ok ⟨capacity.lanes, capacity.entries, limit, admission, payload⟩

/-- What an accepted layout says about its lanes and entries. -/
structure Accepted (layout : Layout) : Prop where
  lanes : 0 < layout.lanes
  entries : layout.lanes ≤ layout.entries
  bound : layout.entries ≤ maximumEntries
  shared : layout.admission.shared 0 = layout.entries - layout.lanes
  reserve : layout.admission.reserve 0 = 1

theorem rejects_none {capacity : Capacity} {wanted : Option Limit}
    (passed : rejects capacity wanted = none) :
    0 < capacity.lanes ∧ capacity.lanes ≤ capacity.entries ∧
      capacity.entries ≤ maximumEntries := by
  unfold rejects at passed
  have lanes : ¬ capacity.lanes = 0 := by
    intro zero
    simp [zero, u32Max] at passed
  have entries : ¬ capacity.entries < capacity.lanes := by
    intro below
    simp only [below, if_true] at passed
    repeat' split at passed
    all_goals simp_all
  have bound : ¬ maximumEntries < capacity.entries := by
    intro above
    simp only [above, if_true] at passed
    repeat' split at passed
    all_goals simp_all
  omega

/-- No size is rejected by a fault, and what is accepted is a layout as described. -/
theorem withLimit_cases (capacity : Capacity) (wanted : Option Limit) :
    ∃ result, withLimit capacity wanted = .ok result ∧
      ∀ layout, result = .ok layout → layout.Accepted := by
  unfold withLimit
  cases passed : rejects capacity wanted with
  | some cause => exact ⟨_, rfl, nofun⟩
  | none =>
    rcases rejects_none passed with ⟨lanes, entries, bound⟩
    rcases Plan.payload_ok (fun
      | 0 => capacity.data
      | 1 => capacity.values
      | 2 => capacity.bytes) capacity.lanes with ⟨payload, planned⟩
    simp only [Plan.slots_of_le entries, planned, ok_bind]
    cases limits payload wanted with
    | error cause => exact ⟨_, rfl, nofun⟩
    | ok limit =>
      refine ⟨_, rfl, ?_⟩
      rintro layout ⟨⟩
      exact ⟨lanes, entries, bound, rfl, rfl⟩

theorem withLimit_accepted {capacity : Capacity} {wanted : Option Limit} {layout : Layout}
    (accepted : withLimit capacity wanted = .ok (.ok layout)) : layout.Accepted := by
  rcases withLimit_cases capacity wanted with ⟨result, run, all⟩
  rw [accepted] at run
  exact all layout (Except.ok.inj run).symm

/-- The shared part and one reserve for each lane make up the entries. -/
theorem Accepted.total {layout : Layout} (accepted : layout.Accepted) :
    layout.admission.shared 0 + layout.admission.reserve 0 * layout.lanes = layout.entries := by
  have le := accepted.entries
  rw [accepted.shared, accepted.reserve]
  omega

end Layout

end Dope.Reply
