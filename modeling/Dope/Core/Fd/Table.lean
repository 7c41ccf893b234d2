import Dope.Base.Span
import Dope.Core.Fd.Retire

/-! # Outbound descriptors

Model of `fd/domain/{mod,outbound}`: the slots behind the accepted ones are leased to
routes in intervals of one mapping, or taken one by one. A route that is given up
keeps its interval until the last of its slots has settled.
-/

namespace Dope.Core.Fd

structure Prefix where
  mapped : Nat
  allocated : Nat
deriving DecidableEq, Repr

/-- A live route, or a retired one with the slots that are still to settle. -/
inductive State where
  | live
  | retired (remaining : Nat)
deriving DecidableEq, Repr

structure Lease where
  start : Nat
  len : Nat
  state : State
deriving DecidableEq, Repr

/-- The position of a local slot. -/
def Lease.position (lease : Lease) (slot : Nat) : Option Nat :=
  if slot < lease.len then some (lease.start + slot) else none

structure Table where
  capacity : Nat
  mapping : Nat → Nat
  extent : Prefix
  routes : Nat → Option Lease

namespace Table

/-- The mapping starts with the slots behind the accepted ones, in order. -/
def tryNew (accept outbound : Nat) : Table :=
  ⟨outbound, fun position => accept + position, ⟨0, 0⟩, fun _ => none⟩

variable (table : Table)

def get (lease : Lease) (slot : Nat) : Option Nat :=
  (lease.position slot).map table.mapping

/-- The physical slot of a local one. -/
def slot (owner slot : Nat) : Option Nat :=
  match table.routes owner with
  | some lease => table.get lease slot
  | none => none

def hasRetired : Bool :=
  (List.range 256).any fun owner =>
    match table.routes owner with
    | some ⟨_, _, .retired _⟩ => true
    | some ⟨_, _, .live⟩ | none => false

end Table

inductive Assign where
  | ok
  | empty
  | occupied
  | capacity (requested available : Nat)
  | retiring (requested available : Nat)
deriving DecidableEq, Repr

inductive Reserve where
  | ok (slot generation : Nat)
  | capacity
  | retiring
deriving DecidableEq, Repr

inductive Acquire where
  | ok (slot generation : Nat)
  | full
  | identityExhausted
deriving DecidableEq, Repr

variable {T : Type}

structure Domain (T : Type) where
  resident : Store T
  accept : Nat
  closed : Option Retirement
  outbound : Table

namespace Domain

def tryNew (accept outbound last : Nat) : Domain T :=
  ⟨.tryNew (accept + outbound) last, accept, none, .tryNew accept outbound⟩

variable (domain : Domain T)

def state (slot : Nat) : SlotState := (domain.resident.entries slot).state

def setState (slot : Nat) (state : SlotState) : Domain T :=
  { domain with resident := domain.resident.setState slot state }

def hasRetiring : Bool := domain.outbound.hasRetired || domain.resident.hasRetiring

/-! ## Standalone slots -/

/-- Admits one mapping entry before extending the allocated prefix. -/
def tryReserve : Reserve × Domain T :=
  let table := domain.outbound
  let extent := table.extent
  if extent.allocated < table.capacity then
    let index := table.mapping extent.allocated
    let (version, resident) := domain.resident.claim index .standalone
    (.ok index version, { domain with
      resident, outbound := { table with extent := ⟨extent.mapped, extent.allocated + 1⟩ } })
  else (if domain.hasRetiring then .retiring else .capacity, domain)

/-- Consumes one still-counted admission. -/
def releaseOne (slot : Nat) : Except Fault (Domain T) :=
  let table := domain.outbound
  let extent := table.extent
  if extent.allocated = 0 then .error .admission
  else
    .ok { domain with
      resident := domain.resident.setState slot .free
      outbound := { table with
        mapping := Function.update table.mapping (extent.allocated - 1) slot
        extent := ⟨extent.mapped, extent.allocated - 1⟩ } }

/-! ## Routes -/

/-- The slots of the positions from `start` on are mapped for their owner. -/
def map (store : Store T) (mapping : Nat → Nat) (owner start : Nat) : Nat → Store T
  | 0 => store
  | count + 1 =>
      map (store.setState (mapping start) (.route .mapped owner)) mapping owner (start + 1) count

/-- Admits a disjoint nonempty interval and both bounded prefix successors. -/
def tryAssign (owner count : Nat) : Assign × Domain T :=
  if count = 0 then (.empty, domain)
  else
    let table := domain.outbound
    match table.routes owner with
    | some _ => (.occupied, domain)
    | none =>
        let extent := table.extent
        let avail := table.capacity - extent.allocated
        if avail < count then
          (if domain.hasRetiring then .retiring count avail else .capacity count avail, domain)
        else
          let next : Prefix := ⟨extent.mapped + count, extent.allocated + count⟩
          let mapping := Span.rotate table.mapping extent.mapped extent.allocated next.allocated
          (.ok, { domain with
            resident := map domain.resident mapping owner extent.mapped count
            outbound := { table with
              mapping
              routes := Function.update table.routes owner (some ⟨extent.mapped, count, .live⟩)
              extent := next } })

def acquire (owner slot : Nat) : Acquire × Domain T :=
  match domain.outbound.routes owner with
  | none => (.full, domain)
  | some lease =>
      match lease.state with
      | .retired _ => (.full, domain)
      | .live =>
          match domain.outbound.get lease slot with
          | none => (.full, domain)
          | some index =>
              let entry := domain.resident.entries index
              if entry.exhausted then (.identityExhausted, domain)
              else if entry.state.isState .mapped owner then
                let (version, resident) :=
                  domain.resident.claim index (.route .unopenedOne owner)
                (.ok index version, { domain with resident })
              else (.full, domain)

/-- Reusable slots are read from `read` down, and go to the end of what is left.
Exhausted slots retain anonymous allocations. -/
def compact (store : Store T) (mapping : Nat → Nat) (read allocated : Nat) :
    Nat → Store T × (Nat → Nat) × Nat
  | 0 => (store, mapping, allocated)
  | count + 1 =>
      let index := mapping (read - 1)
      if (store.entries index).exhausted then
        compact (store.setState index .standalone) mapping (read - 1) allocated count
      else
        compact (store.setState index .free)
          (Function.update mapping (allocated - 1) index) (read - 1) (allocated - 1) count

/-- Removes a retired interval; backward compaction preserves unread entries. -/
def reclaim (owner : Nat) (removed : Lease) : Domain T :=
  let table := domain.outbound
  let extent := table.extent
  let mapping := Span.rotate table.mapping removed.start (removed.start + removed.len)
    extent.allocated
  let (resident, mapping, allocated) :=
    compact domain.resident mapping extent.allocated extent.allocated removed.len
  let shifted := fun other =>
    (table.routes other).map fun lease =>
      if removed.start < lease.start then { lease with start := lease.start - removed.len }
      else lease
  { domain with
    resident
    outbound := { table with
      mapping := Span.reverse mapping allocated extent.allocated
      routes := Function.update shifted owner none
      extent := ⟨extent.mapped - removed.len, allocated⟩ } }

def unsettled (owner : Nat) (lease : Lease) : Nat :=
  (List.range' lease.start lease.len).countP fun position =>
    !(domain.state (domain.outbound.mapping position)).isState .mapped owner

def retireRoute (owner : Nat) : Domain T :=
  match domain.outbound.routes owner with
  | none => domain
  | some lease =>
      let remaining := domain.unsettled owner lease
      if remaining = 0 then domain.reclaim owner lease
      else { domain with outbound := { domain.outbound with
        routes := Function.update domain.outbound.routes owner
          (some { lease with state := .retired remaining }) } }

/-- The last slot of a retired route to settle reclaims it. -/
def releaseSlot (slot owner : Nat) : Domain T :=
  let domain := domain.setState slot (.route .mapped owner)
  match domain.outbound.routes owner with
  | none => domain
  | some lease =>
      match lease.state with
      | .live => domain
      | .retired remaining =>
          if remaining - 1 = 0 then domain.reclaim owner lease
          else { domain with outbound := { domain.outbound with
            routes := Function.update domain.outbound.routes owner
              (some { lease with state := .retired (remaining - 1) }) } }

end Domain

end Dope.Core.Fd
