import Dope.Egress.Wait.Tree
import Mathlib.Tactic.Common

/-! # Fair credit with protected lanes

The credit pool of the egress path lies outside the repository. What the wait
queue relies on is stated here once: a lane owns protected credit, a request is
served from the unused protected credit first and its remainder is the demand
on the shared credit, which is what an acquisition takes off it. How returned
credit splits between the lane and the shared credit is left open. Both axes,
entries and resident bytes, follow the same rule independently.
-/

namespace Dope.Egress.Wait

/-! ## Component-wise arithmetic -/

namespace Amount

instance : LE Amount := ⟨fun a b => a.entries ≤ b.entries ∧ a.resident ≤ b.resident⟩

instance : DecidableLE Amount := fun a b =>
  inferInstanceAs (Decidable (a.entries ≤ b.entries ∧ a.resident ≤ b.resident))

instance : Add Amount := ⟨fun a b => ⟨a.entries + b.entries, a.resident + b.resident⟩⟩

/-- Saturating subtraction. -/
instance : Sub Amount := ⟨fun a b => ⟨a.entries - b.entries, a.resident - b.resident⟩⟩

instance : Min Amount := ⟨fun a b => ⟨min a.entries b.entries, min a.resident b.resident⟩⟩

@[simp] theorem add_entries (a b : Amount) : (a + b).entries = a.entries + b.entries := rfl

@[simp] theorem add_resident (a b : Amount) : (a + b).resident = a.resident + b.resident := rfl

@[simp] theorem sub_entries (a b : Amount) : (a - b).entries = a.entries - b.entries := rfl

@[simp] theorem sub_resident (a b : Amount) : (a - b).resident = a.resident - b.resident := rfl

@[simp] theorem min_entries (a b : Amount) : (min a b).entries = min a.entries b.entries := rfl

@[simp] theorem min_resident (a b : Amount) : (min a b).resident = min a.resident b.resident := rfl

@[simp] theorem zero_entries : Amount.zero.entries = 0 := rfl

@[simp] theorem zero_resident : Amount.zero.resident = 0 := rfl

@[ext] theorem ext {a b : Amount} (he : a.entries = b.entries) (hr : a.resident = b.resident) :
    a = b := by
  cases a
  cases b
  simp_all

theorem sub_zero (a : Amount) : a - Amount.zero = a := rfl

theorem zero_le (a : Amount) : Amount.zero ≤ a :=
  ⟨Nat.zero_le _, Nat.zero_le _⟩

theorem le_trans {a b c : Amount} (h₁ : a ≤ b) (h₂ : b ≤ c) : a ≤ c :=
  ⟨h₁.1.trans h₂.1, h₁.2.trans h₂.2⟩

end Amount

end Dope.Egress.Wait

namespace Dope.Egress.Credit

open Wait

/-- The credit pool seen by the wait queue: a lane's own state, and the
operations on one lane together with the shared credit. -/
structure FairCredit where
  Lane : Type
  unused : Lane → Amount
  demand : Lane → Amount → Amount
  acquire : Lane → Amount → Amount → Lane × Amount
  /-- The checked acquisition, which may refuse. -/
  charge : Lane → Amount → Amount → Option (Lane × Amount)
  release : Lane → Amount → Amount → Lane × Amount
  demand_eq : ∀ lane amount, demand lane amount = amount - unused lane
  acquire_shared : ∀ lane shared amount,
    (acquire lane shared amount).2 = shared - demand lane amount

namespace FairCredit

/-- A lane that stores what it holds and its reserve. -/
structure Pair where
  held : Amount
  reserve : Amount

/-- The rule written out on stored amounts: what a lane holds beyond its
reserve goes back to the shared credit first. -/
def direct : FairCredit where
  Lane := Pair
  unused lane := lane.reserve - lane.held
  demand lane amount := amount - (lane.reserve - lane.held)
  acquire lane shared amount :=
    (⟨lane.held + amount, lane.reserve⟩, shared - (amount - (lane.reserve - lane.held)))
  charge lane shared amount :=
    if amount - (lane.reserve - lane.held) ≤ shared then
      some (⟨lane.held + amount, lane.reserve⟩, shared - (amount - (lane.reserve - lane.held)))
    else none
  release lane shared amount :=
    (⟨lane.held - amount, lane.reserve⟩, shared + min amount (lane.held - lane.reserve))
  demand_eq _ _ := rfl
  acquire_shared _ _ _ := rfl

variable (credit : FairCredit)

theorem demand_entries_le (lane : credit.Lane) (amount : Amount) :
    (credit.demand lane amount).entries ≤ amount.entries := by
  rw [credit.demand_eq]
  exact Nat.sub_le _ _

/-- A request with no shared demand leaves the shared credit alone. -/
theorem acquire_shared_of_zero {lane : credit.Lane} {shared amount : Amount}
    (h : credit.demand lane amount = Amount.zero) :
    (credit.acquire lane shared amount).2 = shared := by
  rw [credit.acquire_shared, h, Amount.sub_zero]

end FairCredit

end Dope.Egress.Credit
