import Dope.Egress.Metadata.Arena
import Dope.Egress.Metadata.Vacant

/-! # Guaranteed demand

Model of `reserve/demand`, `reserve/plan` and the checks of `storage/config`. A
storage with a guaranteed final path proves once, from its configuration, that
every lane has room for a copied prefix and a bounded body. The plan made from
that proof is not checked again.
-/

namespace Dope.Egress.Metadata

open Wait

/-! ## Words of 32 bits -/

def u32Max : Nat := 2 ^ 32 - 1

/-- A sum that is not representable. -/
structure Overflow where
  left : Nat
  right : Nat
deriving DecidableEq, Repr

/-- A plain sum of the source, which must not overflow. -/
def u32Add (left right : Nat) : Except Overflow Nat :=
  if left + right ≤ u32Max then .ok (left + right) else .error ⟨left, right⟩

def asU32 (value : Nat) : Nat := value % 2 ^ 32

theorem asU32_eq {value : Nat} (small : value ≤ u32Max) : asU32 value = value := by
  unfold u32Max at small
  exact Nat.mod_eq_of_lt (by omega)

/-! ## What a lane can ever hold -/

/-- Credit whose lanes can be asked whether an amount could ever be theirs: the shared
limit and their own reserve have to cover it. -/
structure FitCredit extends HeldCredit where
  fits : Lane → Amount → Amount → Bool
  fits_iff : ∀ lane limit amount, limit + reserve lane ≤ ⟨u32Max, u32Max⟩ →
    (fits lane limit amount = true ↔ amount ≤ limit + reserve lane)

/-- The rule on stored amounts. -/
def FitCredit.direct : FitCredit where
  toHeldCredit := HeldCredit.direct
  fits lane limit amount := decide (amount ≤ limit + lane.reserve)
  fits_iff _ _ _ _ := decide_eq_true_iff

/-! ## The configuration -/

/-- `Credit::capped_add` -/
def cappedAdd (left right : Amount) : Amount :=
  ⟨min (left.entries + right.entries) u32Max, min (left.resident + right.resident) u32Max⟩

/-- `Credit::floor` -/
def floor (amount : Amount) (lanes : Nat) : Amount :=
  ⟨amount.entries / lanes, amount.resident / lanes⟩

inductive Fit where
  | admitted
  | entries
  | resident
deriving DecidableEq, Repr

namespace Config

def bytes (config : Config) : Nat := config.total.resident

/-- The most chunks of a size that both axes admit. -/
def chunks (config : Config) (bytes : Nat) : Option Nat :=
  let chunks := min config.entries (config.bytes / bytes)
  if chunks = 0 then none else some chunks

def fitsAll (config : Config) (lanes : Nat) (req : Amount) : Fit :=
  let avail := cappedAdd config.shared (floor config.reserved lanes)
  if avail.entries < req.entries then .entries
  else if avail.resident < req.resident then .resident
  else .admitted

end Config

/-! ## Provisioning -/

/-- `bound::Limit`, of which one case is named. -/
inductive BodyLimit where
  | atMost (bytes : Nat)
  | other
deriving DecidableEq, Repr

/-- The type parameters of a guarantee and what is asserted of them. -/
structure Guaranteed (maxBytes : Nat) where
  limit : BodyLimit
  PREFIX : Nat
  positive : 0 < PREFIX
  within : PREFIX ≤ maxBytes

/-- The bound of the body, stored plus one in a nonzero word. -/
structure Capacity where
  word : Nat
  nonzero : word ≠ 0
deriving DecidableEq, Repr

namespace Capacity

def fromValid (body : Nat) : Except Overflow Capacity :=
  if body + 1 ≤ u32Max then .ok ⟨body + 1, Nat.succ_ne_zero body⟩ else .error ⟨body, 1⟩

def body (capacity : Capacity) : Nat := capacity.word - 1

end Capacity

structure Setup where
  config : Config
  routes : Nat
  capacity : Option Capacity

inductive Provision where
  | queued (setup : Setup) (headers : Nat)
  | direct (setup : Setup)

def usizeMax : Nat := 2 ^ 64 - 1

/-- `checked_add` on `usize` -/
def checkedAdd (left right : Nat) : Option Nat :=
  if left + right ≤ usizeMax then some (left + right) else none

namespace Guaranteed

variable {maxBytes : Nat}

def provision (guaranteed : Guaranteed maxBytes) (config : Config) (routes : Nat) :
    Except Overflow Provision :=
  let setup : Setup := ⟨config, routes, none⟩
  match guaranteed.limit with
  | .other => .ok (.direct setup)
  | .atMost body =>
      match checkedAdd guaranteed.PREFIX body with
      | none => .ok (.direct setup)
      | some total =>
          if maxBytes < total then .ok (.direct setup)
          else
            match config.fitsAll routes ⟨2, asU32 total⟩ with
            | .entries => .ok (.direct setup)
            | .resident => .ok (.direct setup)
            | .admitted =>
                match config.chunks (asU32 guaranteed.PREFIX) with
                | none => .ok (.direct setup)
                | some headers =>
                    match Capacity.fromValid (asU32 body) with
                    | .error overflow => .error overflow
                    | .ok capacity =>
                        .ok (.queued { setup with capacity := some capacity } headers)

end Guaranteed

/-! ## Plans -/

namespace Limit

/-- At most so many bytes, not none. -/
def bounded (bytes resident : Nat) : Limit := ⟨.atMost bytes, resident, fun h => by cases h⟩

def open_ (resident : Nat) : Limit := ⟨.open_, resident, fun h => by cases h⟩

end Limit

namespace Bounds

/-- A prefix of some length before a body of any. -/
def copied (PREFIX body : Nat) : Bounds where
  first := .bounded PREFIX PREFIX
  second := .open_ body
  resident := PREFIX + body
  sum := rfl

/-- The bounds of a copied prefix and a bounded body. -/
def proven (PREFIX : Nat) (capacity : Capacity) : Except Overflow Bounds :=
  match u32Add (asU32 PREFIX) capacity.body with
  | .error overflow => .error overflow
  | .ok _ => .ok (copied (asU32 PREFIX) capacity.body)

end Bounds

/-- Nothing for a storage that is direct only. -/
def Setup.bounds {maxBytes : Nat} (guaranteed : Guaranteed maxBytes) (setup : Setup) :
    Except Overflow (Option Bounds) :=
  match setup.capacity with
  | none => .ok none
  | some capacity => (Bounds.proven guaranteed.PREFIX capacity).map some

structure Plan (n : Nat) where
  lane : Fin n
  bounds : Bounds

namespace Plan

variable {credit : FitCredit} {n : Nat}

/-- The unchecked plan. -/
def proven (lane : Fin n) (bounds : Bounds) : Plan n := ⟨lane, bounds⟩

/-- The checked plan; a lane that cannot hold the bounds gives them back. -/
def new (limit : Amount) (account : Account credit.toHeldCredit n) (lane : Fin n)
    (bounds : Bounds) : Except Bounds (Plan n) :=
  if credit.fits (account.lanes lane) limit bounds.amount then .ok (proven lane bounds)
  else .error bounds

end Plan

/-- `Queue::prove` -/
def prove {maxBytes n : Nat} (guaranteed : Guaranteed maxBytes) (setup : Setup) (lane : Fin n) :
    Except Overflow (Option (Plan n)) :=
  match setup.bounds guaranteed with
  | .error overflow => .error overflow
  | .ok none => .ok none
  | .ok (some bounds) => .ok (some (.proven lane bounds))

/-! ## The reserves -/

theorem floor_le_dealt (amount count index : Nat) : amount / count ≤ dealt amount count index :=
  Nat.le_add_right _ _

theorem dealt_le {count : Nat} (some : 0 < count) (amount index : Nat) :
    dealt amount count index ≤ amount := by
  have whole := Nat.div_add_mod amount count
  have part := Nat.le_mul_of_pos_left (amount / count) some
  unfold dealt
  split <;> omega

theorem reserve_beside {config : Config} (sized : config.shared ≤ ⟨u32Max, u32Max⟩) {n : Nat}
    (lane : Fin n) : config.shared + reserveOf config n lane ≤ ⟨u32Max, u32Max⟩ := by
  have some : 0 < n := lane.pos
  have entries := dealt_le some config.reserved.entries lane
  have resident := dealt_le some config.reserved.resident lane
  rcases sized with ⟨shared, bytes⟩
  cases kind : config.kind with
  | split =>
    have reserved : config.reserved = ⟨2048, 524288⟩ := by
      unfold Config.reserved
      rw [kind]
      rfl
    have halves : config.shared = ⟨2048, 524288⟩ := config.default kind
    rw [reserved] at entries resident
    constructor
    · rw [Amount.add_entries, halves, reserveOf, reserved]
      exact le_trans (Nat.add_le_add_left entries 2048) (by decide)
    · rw [Amount.add_resident, halves, reserveOf, reserved]
      exact le_trans (Nat.add_le_add_left resident 524288) (by decide)
  | shared =>
    have reserved : config.reserved = ⟨0, 0⟩ := by
      unfold Config.reserved
      rw [kind]
    rw [reserved] at entries resident
    constructor
    · rw [Amount.add_entries, reserveOf, reserved]
      exact le_trans (Nat.add_le_add_left entries _) shared
    · rw [Amount.add_resident, reserveOf, reserved]
      exact le_trans (Nat.add_le_add_left resident _) bytes

/-- What fits beside the rounded share fits beside every lane's reserve. -/
theorem fitsAll_covers {config : Config} {n : Nat} {req : Amount}
    (fits : config.fitsAll n req = .admitted) (lane : Fin n) :
    req ≤ config.shared + reserveOf config n lane := by
  have entries := floor_le_dealt config.reserved.entries n lane
  have resident := floor_le_dealt config.reserved.resident n lane
  unfold Config.fitsAll cappedAdd floor at fits
  dsimp only at fits
  split at fits
  · cases fits
  · split at fits
    · cases fits
    · constructor
      · rw [Amount.add_entries, reserveOf]
        dsimp only
        omega
      · rw [Amount.add_resident, reserveOf]
        dsimp only
        omega

/-! ### The reserves of an account never change -/

/-- An account whose lanes have the reserves they were given. -/
def Account.Shared {credit : HeldCredit} {n : Nat} (config : Config)
    (account : Account credit n) : Prop :=
  ∀ lane, account.reserve lane = reserveOf config n lane

namespace Account.Shared

variable {credit : HeldCredit} {n : Nat} {config : Config} {account : Account credit n}

theorem new : (Account.new credit n config).Shared config := fun _ => credit.new_reserve _

theorem acquire (shared : account.Shared config) (lane : Fin n) (amount : Amount) :
    (account.acquire lane amount).Shared config := by
  intro other
  by_cases here : other = lane
  · rw [here, Account.acquire_reserve, shared lane]
  · have same := account.acquire_others lane (a := amount) here
    rw [Account.reserve, same]
    exact shared other

theorem release (shared : account.Shared config) (lane : Fin n) (amount : Amount) :
    (account.release lane amount).Shared config := by
  intro other
  by_cases here : other = lane
  · rw [here, Account.release_reserve, shared lane]
  · have same := account.release_others lane (a := amount) here
    rw [Account.reserve, same]
    exact shared other

end Account.Shared

/-! ## Provisioning is sound -/

namespace Guaranteed

variable {maxBytes : Nat} (guaranteed : Guaranteed maxBytes) (config : Config) (routes : Nat)

theorem provision_queued (small : maxBytes < u32Max) {setup : Setup} {headers : Nat}
    (queued : guaranteed.provision config routes = .ok (.queued setup headers)) :
    ∃ body, guaranteed.limit = .atMost body ∧ guaranteed.PREFIX + body ≤ maxBytes ∧
      config.fitsAll routes ⟨2, guaranteed.PREFIX + body⟩ = .admitted ∧
      setup = ⟨config, routes, some ⟨body + 1, Nat.succ_ne_zero body⟩⟩ := by
  unfold provision at queued
  dsimp only at queued
  split at queued
  · cases queued
  · rename_i body bound
    split at queued
    · cases queued
    · rename_i total sum
      have exact_ : total = guaranteed.PREFIX + body := by
        unfold checkedAdd at sum
        split at sum
        · cases sum
          rfl
        · cases sum
      split at queued
      · cases queued
      · have total32 : asU32 total = total := asU32_eq (by omega)
        have body32 : asU32 body = body := asU32_eq (by omega)
        split at queued
        · cases queued
        · cases queued
        · rename_i fits
          split at queued
          · cases queued
          · split at queued
            · cases queued
            · rename_i capacity valid
              rw [total32, exact_] at fits
              rw [body32] at valid
              unfold Capacity.fromValid at valid
              split at valid
              · cases valid
                cases queued
                exact ⟨body, bound, by omega, fits, rfl⟩
              · cases valid

theorem provision_ok (small : maxBytes < u32Max) :
    ∃ provision, guaranteed.provision config routes = .ok provision := by
  unfold provision
  dsimp only
  split
  · exact ⟨_, rfl⟩
  · rename_i body bound
    split
    · exact ⟨_, rfl⟩
    · rename_i total sum
      have above : body ≤ total := by
        unfold checkedAdd at sum
        split at sum
        · cases sum
          omega
        · cases sum
      split
      · exact ⟨_, rfl⟩
      · split
        · exact ⟨_, rfl⟩
        · exact ⟨_, rfl⟩
        · split
          · exact ⟨_, rfl⟩
          · have body32 : asU32 body = body := asU32_eq (by omega)
            unfold Capacity.fromValid
            rw [body32, if_pos (by omega)]
            exact ⟨_, rfl⟩

end Guaranteed

theorem proven_ok {PREFIX : Nat} {capacity : Capacity} (small : PREFIX + capacity.body < u32Max) :
    Bounds.proven PREFIX capacity = .ok (.copied PREFIX capacity.body) := by
  have whole : asU32 PREFIX = PREFIX := asU32_eq (by omega)
  unfold Bounds.proven u32Add
  rw [whole, if_pos (by omega)]

/-- Provisioning overflows nowhere. Where it queues, every lane has room for two entries
and for the prefix and the body, in whatever state its account is, and the plan that is
made without a check is the plan that the check makes. -/
theorem provision_sound (credit : FitCredit) {maxBytes : Nat} (small : maxBytes < u32Max)
    (guaranteed : Guaranteed maxBytes) (config : Config)
    (sized : config.shared ≤ ⟨u32Max, u32Max⟩) (routes : Nat) :
    (∃ provision, guaranteed.provision config routes = .ok provision) ∧
    ∀ setup headers, guaranteed.provision config routes = .ok (.queued setup headers) →
      ∃ body bounds, guaranteed.limit = .atMost body ∧
        setup.bounds guaranteed = .ok (some bounds) ∧
        bounds.amount = ⟨2, guaranteed.PREFIX + body⟩ ∧
        ∀ account : Account credit.toHeldCredit routes, account.Shared config →
          ∀ lane : Fin routes,
            config.shared + account.reserve lane ≤ ⟨u32Max, u32Max⟩ ∧
            credit.fits (account.lanes lane) config.shared bounds.amount = true ∧
            prove guaranteed setup lane = .ok (some (.proven lane bounds)) ∧
            Plan.new config.shared account lane bounds = .ok (.proven lane bounds) := by
  refine ⟨guaranteed.provision_ok config routes small, ?_⟩
  intro setup headers queued
  obtain ⟨body, bound, total, fits, rfl⟩ :=
    guaranteed.provision_queued config routes small queued
  have body_eq : (⟨body + 1, Nat.succ_ne_zero body⟩ : Capacity).body = body :=
    Nat.add_sub_cancel body 1
  have bounded : (⟨config, routes, some ⟨body + 1, Nat.succ_ne_zero body⟩⟩ : Setup).bounds
      guaranteed = .ok (some (.copied guaranteed.PREFIX body)) := by
    unfold Setup.bounds
    dsimp only
    rw [proven_ok (by omega), body_eq]
    rfl
  refine ⟨body, .copied guaranteed.PREFIX body, bound, bounded, rfl, ?_⟩
  intro account shared lane
  have beside := reserve_beside sized lane
  have covers := fitsAll_covers fits lane
  rw [← shared lane] at beside covers
  have roomy : credit.fits (account.lanes lane) config.shared
      (Bounds.copied guaranteed.PREFIX body).amount = true :=
    (credit.fits_iff _ _ _ beside).mpr covers
  have made : prove guaranteed ⟨config, routes, some ⟨body + 1, Nat.succ_ne_zero body⟩⟩ lane =
      .ok (some (Plan.proven lane (.copied guaranteed.PREFIX body))) := by
    unfold prove
    rw [bounded]
  refine ⟨beside, roomy, made, ?_⟩
  unfold Plan.new
  rw [if_pos roomy]

/-- A prefix of 16 bytes and a body of 100 over three lanes of the default pool. -/
theorem provision_sound_example :
    ∃ setup headers,
      (⟨.atMost 100, 16, by decide, by decide⟩ : Guaranteed (2 ^ 20)).provision .DEFAULT 3 =
          .ok (.queued setup headers) ∧
        ∀ lane : Fin 3,
          Plan.new Config.DEFAULT.shared
            (.new FitCredit.direct.toHeldCredit 3 .DEFAULT : Account FitCredit.direct.toHeldCredit 3)
            lane (.copied 16 100) = .ok (.proven lane (.copied 16 100)) := by
  have small : 2 ^ 20 < u32Max := by decide
  have sized : Config.DEFAULT.shared ≤ ⟨u32Max, u32Max⟩ := ⟨by decide, by decide⟩
  have sound := (provision_sound .direct small
    ⟨.atMost 100, 16, by decide, by decide⟩ .DEFAULT sized 3).2 _ _ rfl
  obtain ⟨body, bounds, bound, proven, amount, lanes⟩ := sound
  cases bound
  cases proven
  exact ⟨_, _, rfl, fun lane => (lanes _ .new lane).2.2.2⟩

end Dope.Egress.Metadata
