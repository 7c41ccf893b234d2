import Dope.Egress.Credit.Fair
import Mathlib.Logic.Function.Basic

/-! # Held credit

The account of all lanes, as the metadata store sees it. The accounts themselves
lie outside the repository, and what the store relies on is stated here once: a
lane holds its reserve first and shared credit beyond it, and what a lane holds
beyond its reserve goes back to the shared credit first. Both axes follow the
rule independently.
-/

namespace Dope.Egress.Metadata

open Wait Function

/-- The credit of one lane beside the shared credit. -/
structure HeldCredit where
  Lane : Type
  new : Amount → Lane
  held : Lane → Amount
  reserve : Lane → Amount
  acquire : Lane → Amount → Amount → Lane × Amount
  charge : Lane → Amount → Amount → Option (Lane × Amount)
  release : Lane → Amount → Amount → Lane × Amount
  /-- A lane is no more than its two amounts. -/
  ext : ∀ {lane other}, held lane = held other → reserve lane = reserve other → lane = other
  new_held : ∀ amount, held (new amount) = Amount.zero
  new_reserve : ∀ amount, reserve (new amount) = amount
  acquire_held : ∀ lane shared amount, held (acquire lane shared amount).1 = held lane + amount
  acquire_reserve : ∀ lane shared amount,
    reserve (acquire lane shared amount).1 = reserve lane
  /-- What is left of the reserve counts first. -/
  acquire_shared : ∀ lane shared amount,
    (acquire lane shared amount).2 = shared - (amount - (reserve lane - held lane))
  /-- The checked acquisition grants nothing that is not covered. -/
  charge_some : ∀ lane shared amount result, charge lane shared amount = some result →
    amount - (reserve lane - held lane) ≤ shared ∧ result = acquire lane shared amount
  release_held : ∀ lane shared amount, amount ≤ held lane →
    held (release lane shared amount).1 = held lane - amount
  release_reserve : ∀ lane shared amount,
    reserve (release lane shared amount).1 = reserve lane
  release_shared : ∀ lane shared amount, amount ≤ held lane →
    (release lane shared amount).2 = shared + min amount (held lane - reserve lane)

namespace HeldCredit

/-- A lane that stores its two amounts. -/
structure Pair where
  held : Amount
  reserve : Amount
deriving DecidableEq

/-- The rule written out on stored amounts. -/
def direct : HeldCredit where
  Lane := Pair
  new amount := ⟨Amount.zero, amount⟩
  held lane := lane.held
  reserve lane := lane.reserve
  acquire lane shared amount :=
    (⟨lane.held + amount, lane.reserve⟩, shared - (amount - (lane.reserve - lane.held)))
  charge lane shared amount :=
    if amount - (lane.reserve - lane.held) ≤ shared then
      some (⟨lane.held + amount, lane.reserve⟩, shared - (amount - (lane.reserve - lane.held)))
    else none
  release lane shared amount :=
    (⟨lane.held - amount, lane.reserve⟩, shared + min amount (lane.held - lane.reserve))
  ext := by
    intro lane other held reserve
    cases lane
    cases other
    cases held
    cases reserve
    rfl
  new_held _ := rfl
  new_reserve _ := rfl
  acquire_held _ _ _ := rfl
  acquire_reserve _ _ _ := rfl
  acquire_shared _ _ _ := rfl
  charge_some lane shared amount result h := by
    split at h
    · exact ⟨‹_›, (Option.some.inj h).symm⟩
    · cases h
  release_held _ _ _ _ := rfl
  release_reserve _ _ _ := rfl
  release_shared _ _ _ _ := rfl

end HeldCredit

/-! ## The account -/

structure Account (credit : HeldCredit) (n : Nat) where
  shared : Amount
  lanes : Fin n → credit.Lane

namespace Account

variable {credit : HeldCredit} {n : Nat}

def held (account : Account credit n) (lane : Fin n) : Amount := credit.held (account.lanes lane)

def reserve (account : Account credit n) (lane : Fin n) : Amount :=
  credit.reserve (account.lanes lane)

def demand (account : Account credit n) (lane : Fin n) (amount : Amount) : Amount :=
  amount - (account.reserve lane - account.held lane)

/-- The unchecked acquisition. -/
def acquire (account : Account credit n) (lane : Fin n) (amount : Amount) : Account credit n :=
  let (state, shared) := credit.acquire (account.lanes lane) account.shared amount
  ⟨shared, update account.lanes lane state⟩

def charge (account : Account credit n) (lane : Fin n) (amount : Amount) :
    Option (Account credit n) :=
  match credit.charge (account.lanes lane) account.shared amount with
  | none => none
  | some (state, shared) => some ⟨shared, update account.lanes lane state⟩

/-- `Grant::release` -/
def release (account : Account credit n) (lane : Fin n) (amount : Amount) : Account credit n :=
  let (state, shared) := credit.release (account.lanes lane) account.shared amount
  ⟨shared, update account.lanes lane state⟩

/-! ## Sums of grants -/

theorem eq_of {account other : Account credit n} (lane : Fin n)
    (shared : account.shared = other.shared) (held : account.held lane = other.held lane)
    (reserve : account.reserve lane = other.reserve lane)
    (others : ∀ l, l ≠ lane → account.lanes l = other.lanes l) : account = other := by
  cases account with
  | mk shared₁ lanes₁ =>
    cases other with
    | mk shared₂ lanes₂ =>
      cases shared
      have same : lanes₁ = lanes₂ := by
        funext l
        by_cases here : l = lane
        · rw [here]
          exact credit.ext held reserve
        · exact others l here
      rw [same]

variable (account : Account credit n) (lane : Fin n) {a b amount : Amount}

theorem acquire_held : (account.acquire lane a).held lane = account.held lane + a := by
  unfold acquire held
  dsimp only
  rw [update_self, credit.acquire_held]

theorem acquire_reserve : (account.acquire lane a).reserve lane = account.reserve lane := by
  unfold acquire reserve
  dsimp only
  rw [update_self, credit.acquire_reserve]

theorem acquire_shared : (account.acquire lane a).shared = account.shared - account.demand lane a :=
  credit.acquire_shared _ _ _

theorem acquire_others {l : Fin n} (differ : l ≠ lane) :
    (account.acquire lane a).lanes l = account.lanes l := update_of_ne differ ..

theorem release_held (within : a ≤ account.held lane) :
    (account.release lane a).held lane = account.held lane - a := by
  unfold release held
  dsimp only
  rw [update_self, credit.release_held _ _ _ within]

theorem release_reserve : (account.release lane a).reserve lane = account.reserve lane := by
  unfold release reserve
  dsimp only
  rw [update_self, credit.release_reserve]

theorem release_shared (within : a ≤ account.held lane) :
    (account.release lane a).shared =
      account.shared + min a (account.held lane - account.reserve lane) :=
  credit.release_shared _ _ _ within

theorem release_others {l : Fin n} (differ : l ≠ lane) :
    (account.release lane a).lanes l = account.lanes l := update_of_ne differ ..

/-- Credit that was covered goes back to where it came from. -/
theorem release_acquire (covered : account.demand lane a ≤ account.shared) :
    (account.acquire lane a).release lane a = account := by
  have within : a ≤ (account.acquire lane a).held lane := by
    rw [acquire_held]
    exact ⟨Nat.le_add_left .., Nat.le_add_left ..⟩
  apply eq_of lane
  · rw [release_shared _ _ within, acquire_shared, acquire_held, acquire_reserve]
    unfold demand at covered ⊢
    rcases covered with ⟨entries, resident⟩
    apply Amount.ext
    · simp only [Amount.add_entries, Amount.sub_entries, Amount.min_entries] at entries ⊢
      omega
    · simp only [Amount.add_resident, Amount.sub_resident, Amount.min_resident] at resident ⊢
      omega
  · rw [release_held _ _ within, acquire_held]
    apply Amount.ext
    · exact Nat.add_sub_cancel ..
    · exact Nat.add_sub_cancel ..
  · rw [release_reserve, acquire_reserve]
  · intro l differ
    rw [release_others _ _ differ, acquire_others _ _ differ]

/-- A grant that is held may be seen as acquired last. -/
theorem acquire_release (within : a ≤ account.held lane) :
    (account.release lane a).acquire lane a = account := by
  rcases within with ⟨entries, resident⟩
  apply eq_of lane
  · rw [acquire_shared, release_shared _ _ ⟨entries, resident⟩]
    unfold demand
    rw [release_reserve, release_held _ _ ⟨entries, resident⟩]
    apply Amount.ext
    · simp only [Amount.add_entries, Amount.sub_entries, Amount.min_entries]
      omega
    · simp only [Amount.add_resident, Amount.sub_resident, Amount.min_resident]
      omega
  · rw [acquire_held, release_held _ _ ⟨entries, resident⟩]
    apply Amount.ext
    · exact Nat.sub_add_cancel entries
    · exact Nat.sub_add_cancel resident
  · rw [acquire_reserve, release_reserve]
  · intro l differ
    rw [acquire_others _ _ differ, release_others _ _ differ]

/-- Parts of a grant go back one by one as the whole does. -/
theorem release_release (within : a + b ≤ account.held lane) :
    (account.release lane a).release lane b = account.release lane (a + b) := by
  rcases within with ⟨entries, resident⟩
  simp only [Amount.add_entries] at entries
  simp only [Amount.add_resident] at resident
  have first : a ≤ account.held lane := ⟨by omega, by omega⟩
  have second : b ≤ (account.release lane a).held lane := by
    rw [release_held _ _ first]
    refine ⟨?_, ?_⟩
    · rw [Amount.sub_entries]
      omega
    · rw [Amount.sub_resident]
      omega
  have whole : a + b ≤ account.held lane := ⟨entries, resident⟩
  apply eq_of lane
  · rw [release_shared _ _ second, release_shared _ _ first, release_shared _ _ whole,
      release_held _ _ first, release_reserve]
    apply Amount.ext
    · simp only [Amount.add_entries, Amount.sub_entries, Amount.min_entries]
      omega
    · simp only [Amount.add_resident, Amount.sub_resident, Amount.min_resident]
      omega
  · rw [release_held _ _ second, release_held _ _ first, release_held _ _ whole]
    apply Amount.ext
    · exact Nat.sub_sub ..
    · exact Nat.sub_sub ..
  · rw [release_reserve, release_reserve, release_reserve]
  · intro l differ
    rw [release_others _ _ differ, release_others _ _ differ, release_others _ _ differ]

/-- What stays held of a grant, once the rest has gone back, is as if it alone
had been acquired. -/
theorem acquire_release_sum (within : a + b ≤ account.held lane) :
    (account.release lane (a + b)).acquire lane a = account.release lane b := by
  have swap : a + b = b + a := by
    apply Amount.ext
    · exact Nat.add_comm ..
    · exact Nat.add_comm ..
  rw [swap] at within ⊢
  have part : b ≤ account.held lane := by
    rcases within with ⟨entries, resident⟩
    simp only [Amount.add_entries] at entries
    simp only [Amount.add_resident] at resident
    exact ⟨by omega, by omega⟩
  rw [← release_release _ _ within]
  apply acquire_release
  rw [release_held _ _ part]
  rcases within with ⟨entries, resident⟩
  simp only [Amount.add_entries] at entries
  simp only [Amount.add_resident] at resident
  refine ⟨?_, ?_⟩
  · rw [Amount.sub_entries]
    omega
  · rw [Amount.sub_resident]
    omega

theorem charge_some {next : Account credit n} (h : account.charge lane amount = some next) :
    account.demand lane amount ≤ account.shared ∧ next = account.acquire lane amount := by
  unfold charge at h
  split at h
  · cases h
  · cases h
    rename_i state shared granted
    have same := credit.charge_some _ _ _ _ granted
    refine ⟨same.1, ?_⟩
    unfold acquire
    rw [← same.2]

end Account

end Dope.Egress.Metadata
