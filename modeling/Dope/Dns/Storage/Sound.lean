import Dope.Dns.Storage.Queries
import Dope.Dns.Tx.Runs
import Dope.Dns.Wire.Replay
import Mathlib.Data.Fintype.Card
import Mathlib.Data.Fintype.Prod

/-! # The indexes follow the branches

What one branch contributes to the four indexes is read off its state. The
registry is sound for a view of all branches when every index is exactly the
sum of these contributions. While a branch is in the hands of an operation its
row is empty and only its stream lease is still counted; `Held` allows for that
one lease.
-/

namespace Dope.Dns.Storage

open Index Run Function

instance : Fintype Family.Version := ⟨{.four, .six}, by intro family; cases family <;> simp⟩

variable {config : Config} {n lanes : Nat}

namespace Branch

/-- The branch sets its bit in the plane of its transport. -/
def bit (branch : Branch config n) (plane : Plane) : Bool :=
  match branch with
  | .pending attempt => planeOf attempt.request.stream = plane
  | _ => false

def udpId : Branch config n → Option Tx.Id
  | .waiting _ (.udp lease) => some lease.id
  | _ => none

def tcpId : Branch config n → Option Tx.Id
  | .waiting _ (.tcp id) => some id
  | _ => none

/-- The server whose stream the branch holds a lease on. -/
def stream (branch : Branch config n) : Option Tx.Server :=
  match branch.attempt with
  | some attempt => attempt.request.stream
  | none => none

/-- A branch without an attempt takes part in no index. -/
def Quiet (branch : Branch config n) : Prop := branch.attempt = none

theorem Quiet.bit {branch : Branch config n} (quiet : branch.Quiet) (plane : Plane) :
    branch.bit plane = false := by
  cases branch <;> first | rfl | simp [Quiet, attempt] at quiet

theorem Quiet.udpId {branch : Branch config n} (quiet : branch.Quiet) : branch.udpId = none := by
  cases branch <;> first | rfl | simp [Quiet, attempt] at quiet

theorem Quiet.tcpId {branch : Branch config n} (quiet : branch.Quiet) : branch.tcpId = none := by
  cases branch <;> first | rfl | simp [Quiet, attempt] at quiet

theorem Quiet.stream {branch : Branch config n} (quiet : branch.Quiet) : branch.stream = none := by
  unfold Branch.stream
  rw [show branch.attempt = none from quiet]

theorem quiet_empty : (empty : Branch config n).Quiet := rfl

theorem quiet_ofOutcome (outcome : Outcome n) : (ofOutcome outcome : Branch config n).Quiet := by
  cases outcome <;> rfl

theorem quiet_of_finished {branch : Branch config n} (h : Query.finished branch = true) :
    branch.Quiet := by
  cases branch <;> first | rfl | simp [Query.finished] at h

end Branch

theorem planeOf_injective : Injective planeOf := by
  intro left right same
  cases left with
  | none =>
    cases right with
    | none => rfl
    | some server => exact absurd same.symm (Fin.succ_ne_zero server)
  | some left =>
    cases right with
    | none => exact absurd same (Fin.succ_ne_zero left)
    | some right => exact congrArg some (Fin.succ_injective _ same)

abbrev View (config : Config) (n lanes : Nat) := Place lanes → Branch config n

/-- The branches that hold a lease on a server's stream. -/
def holders (view : View config n lanes) (server : Tx.Server) : Finset (Place lanes) :=
  Finset.univ.filter fun place => (view place).stream = some server

structure Held (view : View config n lanes) (registry : Registry lanes)
    (hand : Option Tx.Server) : Prop where
  bits : ∀ plane place, registry.pending plane place = (view place).bit plane
  udp : ∀ id place, registry.ids.owners id = some place ↔ (view place).udpId = some id
  tcp : ∀ id place, registry.ids.streamOwners id = some place ↔ (view place).tcpId = some id
  live : ∀ server, registry.live.counts server =
    (holders view server).card + (if hand = some server then 1 else 0)
  valid : registry.ids.Valid

variable {view : View config n lanes} {registry : Registry lanes} {hand : Option Tx.Server}
  {place : Place lanes} {attempt : Attempt config} {branch : Branch config n}

/-! ## Changing the view -/

/-- A change of one row that no branch of the view notices. -/
theorem Held.quiet {view' : View config n lanes} (held : Held view registry hand)
    (same : ∀ place, view' place = view place ∨ ((view place).Quiet ∧ (view' place).Quiet)) :
    Held view' registry hand := by
  have bits : ∀ place plane, (view' place).bit plane = (view place).bit plane := by
    intro place plane
    obtain same | ⟨old, new⟩ := same place
    · rw [same]
    · rw [old.bit, new.bit]
  have udp : ∀ place, (view' place).udpId = (view place).udpId := by
    intro place
    obtain same | ⟨old, new⟩ := same place
    · rw [same]
    · rw [old.udpId, new.udpId]
  have tcp : ∀ place, (view' place).tcpId = (view place).tcpId := by
    intro place
    obtain same | ⟨old, new⟩ := same place
    · rw [same]
    · rw [old.tcpId, new.tcpId]
  have stream : ∀ place, (view' place).stream = (view place).stream := by
    intro place
    obtain same | ⟨old, new⟩ := same place
    · rw [same]
    · rw [old.stream, new.stream]
  refine ⟨?_, ?_, ?_, ?_, held.valid⟩
  · intro plane place
    rw [bits]
    exact held.bits plane place
  · intro id place
    rw [udp]
    exact held.udp id place
  · intro id place
    rw [tcp]
    exact held.tcp id place
  · intro server
    rw [held.live server]
    simp only [holders, stream]

theorem Held.set_quiet (held : Held view registry hand) (place : Place lanes)
    (branch : Branch config n) (old : (view place).Quiet) (new : branch.Quiet) :
    Held (update view place branch) registry hand := by
  apply held.quiet
  intro other
  by_cases same : other = place
  · subst same
    right
    rw [update_self]
    exact ⟨old, new⟩
  · left
    rw [update_of_ne same]

theorem holders_update (view : View config n lanes) (place : Place lanes)
    (branch : Branch config n) (old : (view place).Quiet) (server : Tx.Server) :
    (holders (update view place branch) server).card =
      (holders view server).card + (if branch.stream = some server then 1 else 0) := by
  have apart : place ∉ holders view server := by
    simp [holders, old.stream]
  have other : ∀ p, p ≠ place →
      ((update view place branch p).stream = some server ↔ (view p).stream = some server) := by
    intro p ne
    rw [update_of_ne ne]
  split
  · rename_i streams
    rw [← Finset.card_insert_of_notMem apart]
    congr 1
    ext p
    by_cases same : p = place
    · subst same
      simp [holders, streams]
    · simp [holders, same]
  · rename_i streams
    rw [Nat.add_zero]
    congr 1
    ext p
    by_cases same : p = place
    · subst same
      simp [holders, streams, old.stream]
    · simp [holders, other p same]

/-! ## Changing the registry -/

/-- Only the owners of the table are visible to the branches. -/
theorem Held.ids (held : Held view registry hand) {ids : Tx.Table (Place lanes)}
    (owners : ids.owners = registry.ids.owners)
    (streamOwners : ids.streamOwners = registry.ids.streamOwners) (valid : ids.Valid) :
    Held view { registry with ids := ids } hand := by
  refine ⟨held.bits, ?_, ?_, held.live, valid⟩
  · intro id place
    rw [owners]
    exact held.udp id place
  · intro id place
    rw [streamOwners]
    exact held.tcp id place

theorem Held.streamFailure (held : Held view registry hand) (cause : Option Error.Kind) :
    Held view { registry with streamFailure := cause } hand :=
  ⟨held.bits, held.udp, held.tcp, held.live, held.valid⟩

/-! ## Taking and putting branches -/

/-- Writing a row over an empty one, with what the registry must show for it. -/
theorem Held.put (branch : Branch config n) (held : Held view registry branch.stream)
    (old : (view place).Quiet)
    {registry' : Registry lanes}
    (bits : ∀ plane p, registry'.pending plane p =
      if p = place then branch.bit plane else registry.pending plane p)
    (udp : ∀ id p, registry'.ids.owners id = some p ↔
      if p = place then branch.udpId = some id else registry.ids.owners id = some p)
    (tcp : ∀ id p, registry'.ids.streamOwners id = some p ↔
      if p = place then branch.tcpId = some id else registry.ids.streamOwners id = some p)
    (live : registry'.live = registry.live) (valid : registry'.ids.Valid) :
    Held (update view place branch) registry' none := by
  refine ⟨?_, ?_, ?_, ?_, valid⟩
  · intro plane p
    rw [bits]
    by_cases same : p = place
    · subst same
      rw [if_pos rfl, update_self]
    · rw [if_neg same, update_of_ne same]
      exact held.bits plane p
  · intro id p
    rw [udp]
    by_cases same : p = place
    · subst same
      rw [if_pos rfl, update_self]
    · rw [if_neg same, update_of_ne same]
      exact held.udp id p
  · intro id p
    rw [tcp]
    by_cases same : p = place
    · subst same
      rw [if_pos rfl, update_self]
    · rw [if_neg same, update_of_ne same]
      exact held.tcp id p
  · intro server
    rw [live, held.live server, holders_update view place branch old]
    simp

section

variable (held : Held view registry hand) (old : (view place).Quiet)

include held old

theorem Held.unowned (id : Tx.Id) :
    registry.ids.owners id ≠ some place ∧ registry.ids.streamOwners id ≠ some place := by
  constructor
  · intro owned
    have mine := (held.udp id place).mp owned
    rw [old.udpId] at mine
    simp at mine
  · intro owned
    have mine := (held.tcp id place).mp owned
    rw [old.tcpId] at mine
    simp at mine

/-- An index that follows the other branches and not the one being written. -/
theorem Held.others :
    (∀ id p, registry.ids.owners id = some p ↔
      if p = place then (none : Option Tx.Id) = some id else registry.ids.owners id = some p) ∧
    (∀ id p, registry.ids.streamOwners id = some p ↔
      if p = place then (none : Option Tx.Id) = some id
      else registry.ids.streamOwners id = some p) := by
  constructor
  · intro id p
    by_cases same : p = place
    · subst same
      simpa using (held.unowned old id).1
    · rw [if_neg same]
  · intro id p
    by_cases same : p = place
    · subst same
      simpa using (held.unowned old id).2
    · rw [if_neg same]

theorem Held.clear_bits (plane : Plane) (p : Place lanes) :
    registry.pending plane p = if p = place then false else registry.pending plane p := by
  by_cases same : p = place
  · subst same
    rw [if_pos rfl, held.bits, old.bit]
  · rw [if_neg same]

end

theorem Held.put_pending (place : Place lanes) (attempt : Attempt config)
    (held : Held view registry attempt.request.stream) (old : (view place).Quiet) :
    Held (update view place (.pending attempt)) (Row.register registry place attempt.request)
      none := by
  have others := held.others old
  apply Held.put (.pending attempt) held old
  · intro plane p
    simp only [Row.register, Planes.insert_apply]
    by_cases same : p = place
    · subst same
      rw [if_pos rfl]
      by_cases mine : planeOf attempt.request.stream = plane
      · simp [Branch.bit, mine]
      · rw [if_neg (fun h => mine h.1.symm), held.bits, old.bit]
        simp [Branch.bit, mine]
    · simp [same]
  · exact others.1
  · exact others.2
  · rfl
  · exact held.valid

theorem Held.put_udp (held : Held view registry attempt.request.stream)
    (old : (view place).Quiet) {ids : Tx.Table (Place lanes)} {lease : Tx.Udp}
    (granted : Tx.Table.Granted registry.ids ids place lease) :
    Held (update view place (.waiting attempt (.udp lease))) { registry with ids := ids }
      none := by
  obtain ⟨plane, free, -⟩ := granted.member
  have vacant := held.valid.owner_of_free free
  apply Held.put (.waiting attempt (.udp lease)) held old
  · exact held.clear_bits old
  · intro id p
    rw [granted.owners]
    by_cases taken : id = lease.id
    · subst taken
      by_cases same : p = place
      · simp [same, Branch.udpId]
      · simp [same, Ne.symm same, vacant]
    · by_cases same : p = place
      · subst same
        simp [taken, Ne.symm taken, Branch.udpId, (held.unowned old id).1]
      · simp [taken, same]
  · intro id p
    rw [granted.streamOwners]
    exact (held.others old).2 id p
  · rfl
  · exact held.valid.granted granted

variable {id : Tx.Id}

theorem Held.put_tcp (held : Held view registry attempt.request.stream) (old : (view place).Quiet)
    {ids : Tx.Table (Place lanes)} (granted : registry.ids.tryTcp place id = (.ok (), ids)) :
    Held (update view place (.waiting attempt (.tcp id))) { registry with ids := ids } none := by
  have valid : ids.Valid := by
    have valid := held.valid.tryTcp place id
    rw [granted] at valid
    exact valid
  unfold Tx.Table.tryTcp at granted
  split at granted
  · simp at granted
  · rename_i vacant
    obtain rfl : _ = ids := congrArg Prod.snd granted
    apply Held.put (.waiting attempt (.tcp id)) held old
    · exact held.clear_bits old
    · exact (held.others old).1
    · intro other p
      by_cases taken : other = id
      · subst taken
        by_cases same : p = place
        · simp [same, Branch.tcpId]
        · simp [same, Ne.symm same, vacant]
      · by_cases same : p = place
        · subst same
          simp [taken, Ne.symm taken, Branch.tcpId, (held.unowned old other).2]
        · simp [taken, same]
    · rfl
    · exact valid

theorem Held.take (held : Held view registry none) {registry' : Registry lanes}
    (bits : ∀ plane p, registry'.pending plane p =
      if p = place then false else registry.pending plane p)
    (udp : ∀ id p, registry'.ids.owners id = some p ↔
      p ≠ place ∧ registry.ids.owners id = some p)
    (tcp : ∀ id p, registry'.ids.streamOwners id = some p ↔
      p ≠ place ∧ registry.ids.streamOwners id = some p)
    (live : registry'.live = registry.live) (valid : registry'.ids.Valid) :
    Held (update view place .empty) registry' (view place).stream := by
  have refill : update (update view place .empty) place (view place) = view := by
    rw [update_idem, update_eq_self]
  have counts := holders_update (update view place .empty) place (view place)
    (by rw [update_self]; exact Branch.quiet_empty)
  simp only [refill] at counts
  refine ⟨?_, ?_, ?_, ?_, valid⟩
  · intro plane p
    rw [bits]
    by_cases same : p = place
    · subst same
      rw [if_pos rfl, update_self]
      rfl
    · rw [if_neg same, update_of_ne same]
      exact held.bits plane p
  · intro id p
    rw [udp]
    by_cases same : p = place
    · subst same
      simp [Branch.udpId]
    · rw [update_of_ne same, ← held.udp id p]
      simp [same]
  · intro id p
    rw [tcp]
    by_cases same : p = place
    · subst same
      simp [Branch.tcpId]
    · rw [update_of_ne same, ← held.tcp id p]
      simp [same]
  · intro server
    rw [live, held.live server, counts server]
    simp

/-- An id that the row does not own stays with its owner. -/
theorem Held.not_udp (held : Held view registry hand) (other : (view place).udpId ≠ some id)
    (p : Place lanes) :
    registry.ids.owners id = some p ↔ p ≠ place ∧ registry.ids.owners id = some p := by
  by_cases same : p = place
  · subst same
    simp [held.udp id p, other]
  · simp [same]

theorem Held.not_tcp (held : Held view registry hand) (other : (view place).tcpId ≠ some id)
    (p : Place lanes) :
    registry.ids.streamOwners id = some p ↔
      p ≠ place ∧ registry.ids.streamOwners id = some p := by
  by_cases same : p = place
  · subst same
    simp [held.tcp id p, other]
  · simp [same]

theorem Held.take_pending (held : Held view registry none) (row : view place = .pending attempt) :
    Held (update view place .empty) (Row.unregister registry place attempt.request)
      attempt.request.stream := by
  have taken : (view place).stream = attempt.request.stream := by
    rw [row]
    rfl
  rw [← taken]
  apply held.take
  · intro plane p
    simp only [Row.unregister, Planes.clear_apply]
    by_cases same : p = place
    · subst same
      by_cases mine : plane = planeOf attempt.request.stream
      · simp [mine]
      · simp [mine, held.bits, row, Branch.bit, Ne.symm mine]
    · simp [same]
  · exact fun id p => held.not_udp (by simp [row, Branch.udpId]) p
  · exact fun id p => held.not_tcp (by simp [row, Branch.tcpId]) p
  · rfl
  · exact held.valid

theorem Held.take_waiting (held : Held view registry none) {transaction : Tx.Lease}
    (row : view place = .waiting attempt transaction) :
    Held (update view place .empty)
      { registry with ids := registry.ids.release transaction } attempt.request.stream := by
  have taken : (view place).stream = attempt.request.stream := by
    rw [row]
    rfl
  have bits : ∀ plane p, registry.pending plane p =
      if p = place then false else registry.pending plane p := by
    intro plane p
    by_cases same : p = place
    · subst same
      rw [if_pos rfl, held.bits, row]
      rfl
    · rw [if_neg same]
  rw [← taken]
  cases transaction with
  | udp lease =>
    have mine : registry.ids.owners lease.id = some place :=
      (held.udp lease.id place).mpr (by rw [row]; rfl)
    apply held.take
    · exact bits
    · intro id p
      simp only [Tx.Table.release, Tx.Table.releaseUdp]
      by_cases same : id = lease.id
      · subst same
        rw [if_pos rfl, mine]
        simp [eq_comm]
      · rw [if_neg same]
        exact held.not_udp (by simp [row, Branch.udpId, Ne.symm same]) p
    · exact fun id p => held.not_tcp (by simp [row, Branch.tcpId]) p
    · rfl
    · exact held.valid.releaseUdp (by rw [mine]; rfl)
  | tcp id =>
    have mine : registry.ids.streamOwners id = some place :=
      (held.tcp id place).mpr (by rw [row]; rfl)
    have cleared : registry.ids.clearTcp id = { registry.ids with
        streamOwners := fun i => if i = id then none else registry.ids.streamOwners i
        streams := registry.ids.streams - 1 } := by
      unfold Tx.Table.clearTcp
      rw [mine]
    apply held.take
    · exact bits
    · intro other p
      simp only [Tx.Table.release, cleared]
      exact held.not_udp (by simp [row, Branch.udpId]) p
    · intro other p
      simp only [Tx.Table.release, cleared]
      by_cases same : other = id
      · subst same
        rw [if_pos rfl, mine]
        simp [eq_comm]
      · rw [if_neg same]
        exact held.not_tcp (by simp [row, Branch.tcpId, Ne.symm same]) p
    · rfl
    · exact held.valid.clearTcp id

end Dope.Dns.Storage
