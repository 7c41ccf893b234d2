import Dope.OneShot.Cell
import Dope.Base.Run
import Mathlib.Logic.Function.Basic

/-! # One-shot pool

Model of `link/oneshot/{entry,mod,routes,raw}`: the positions of a pool in their
epochs, the queue of what waits for room in the submission queue, and the deadlines.
The deadline that is first comes with the input.
-/

namespace Dope.OneShot

inductive Due where
  | connect (epoch instant : Nat)
  | send (epoch instant : Nat)
deriving DecidableEq, Repr

namespace Due

def epoch : Due → Nat
  | .connect epoch _ | .send epoch _ => epoch

def instant : Due → Nat
  | .connect _ instant | .send _ instant => instant

def timeout (now : Nat) : Due → Cancellation
  | .connect _ instant => .connectTimeout (now - instant)
  | .send _ instant => .sendTimeout (now - instant)

end Due

inductive Progress (A : Type) where
  | idle
  | pending
  | complete (authority : A) (result : Except Error Unit)
deriving DecidableEq

inductive Busy where
  | slot
  | descriptor
  | submit
deriving DecidableEq, Repr

inductive Unsent (A P : Type) where
  | busy (request : Request A P) (cause : Busy)
  | rejected (request : Request A P) (cause : SubmitCause)
  | outside (request : Request A P)
  | exhausted (request : Request A P)
deriving DecidableEq, Repr

def Unsent.request {A P : Type} : Unsent A P → Request A P
  | .busy request _ | .rejected request _ | .outside request | .exhausted request => request

inductive Dispatch (A P : Type) where
  | sent
  | unsent (cause : Unsent A P)
deriving DecidableEq, Repr

/-- The descriptor slot that a route meets. -/
inductive Vacancy where
  | ok (slot : Nat)
  | full
  | identityExhausted
deriving DecidableEq, Repr

variable {A P : Type}

/-- The descriptor that a phase holds. -/
def Phase.fd? : Phase → Option Nat
  | .connectRetry fd _ | .connecting fd _ _ | .connectingCancelled fd _ | .sendRetry fd
  | .sending fd _ _ => some fd
  | .creating .. | .creatingCancelled .. | .retired => none

inductive State (A P : Type) where
  | free
  | occupied (cell : Cell A P)
  | retired
deriving DecidableEq, Repr

structure Slot (A P : Type) where
  epoch : Nat
  state : State A P
deriving DecidableEq, Repr

structure Pool (A P : Type) where
  slots : Nat → Slot A P
  capacity : Nat
  last : Nat
  retries : List Local
  deadlines : Nat → Option Due

namespace Pool

def prepare (capacity last : Nat) : Pool A P :=
  ⟨fun _ => ⟨0, .free⟩, capacity, last, [], fun _ => none⟩

variable (pool : Pool A P)

/-- The resident of a position. -/
def tryAt (index : Nat) : Option (Local × Cell A P) :=
  if index < pool.capacity then
    match (pool.slots index).state with
    | .occupied cell => some (⟨index, (pool.slots index).epoch⟩, cell)
    | .free | .retired => none
  else none

/-- The resident of a position in an epoch. -/
def tryKey (key : Local) : Option (Cell A P) :=
  match pool.tryAt key.index with
  | some (found, cell) => if found = key then some cell else none
  | none => none

def put (key : Local) (cell : Cell A P) : Pool A P :=
  let slot : Slot A P := ⟨key.epoch, .occupied cell⟩
  { pool with slots := Function.update pool.slots key.index slot }

/-- The epoch is over, and the last one retires the position. -/
def discard (key : Local) : Pool A P :=
  let slot : Slot A P :=
    if key.epoch = pool.last then ⟨key.epoch, .retired⟩ else ⟨key.epoch + 1, .free⟩
  { pool with slots := Function.update pool.slots key.index slot }

def due (index : Nat) (due : Option Due) : Pool A P :=
  { pool with deadlines := Function.update pool.deadlines index due }

def schedule (key : Local) : Pool A P :=
  if key ∈ pool.retries then pool else { pool with retries := pool.retries ++ [key] }

def unlink (key : Local) : Pool A P := { pool with retries := pool.retries.erase key }

/-! ## Entries -/

/-- The cell is dropped, with the descriptor it still holds. -/
def take (key : Local) (cell : Cell A P) (driver : Driver P) : Option A × Pool A P × Driver P :=
  (cell.authority, ((pool.due key.index none).unlink key).discard key,
    match cell.phase.fd? with
    | some fd => driver.close key fd
    | none => driver)

def finishDone (key : Local) (cell : Cell A P) (result : Except Error Unit) (driver : Driver P) :
    Progress A × Pool A P × Driver P :=
  let (owner, pool, driver) := pool.take key cell driver
  (match owner with
    | some owner => .complete owner result
    | none => .idle, pool, driver)

def finish (key : Local) (cell : Cell A P) (result : Except Error Unit) (fd : Nat)
    (driver : Driver P) : Progress A × Pool A P × Driver P :=
  let (done, pool, driver) := pool.finishDone key cell result driver
  (done, pool, driver.close key fd)

def settle (key : Local) (cell : Cell A P) (progress : SendProgress) (driver : Driver P) :
    Progress A × Pool A P × Driver P :=
  match progress with
  | .complete fd => pool.finish key cell (.ok ()) fd driver
  | .submitted => (.pending, pool.put key cell, driver)
  | .retry => (.pending, (pool.put key cell).schedule key, driver)
  | .cancelled fd => pool.finish key cell (.error .abandoned) fd driver
  | .failed error fd => pool.finish key cell (.error error) fd driver

/-- The entry of a cell whose authority is cancelled for a reason. -/
def cancel (key : Local) (cell : Cell A P) (reason : Cancellation) (reply : Stop)
    (driver : Driver P) : Progress A × Pool A P × Driver P :=
  let pool := pool.due key.index none
  match cell.cancel reply with
  | (none, cell) => (.idle, pool.put key cell, driver)
  | (some (owner, .error failure), cell) =>
      (.complete owner (.error (.cancellation reason failure)),
        (pool.put key cell).unlink key, driver)
  | (some (owner, .ok (.idle fd)), _) =>
      (.complete owner (.error (.fromCancellation reason)), (pool.unlink key).discard key,
        driver.close key fd)
  | (some (owner, .ok .pending), cell) =>
      (.complete owner (.error (.fromCancellation reason)), pool.put key cell, driver)
  | (some (owner, .ok .retry), cell) =>
      (.complete owner (.error (.fromCancellation reason)), (pool.put key cell).schedule key,
        driver)

/-- The full submission queue of a retry is an error, and the retry is deferred. -/
def retry (bounds : Bounds) (key : Local) (cell : Cell A P) (stop : Stop) (dial : Establish)
    (reply : Submit) (driver : Driver P) :
    Except Fault (Except SubmitCause (Progress A) × Pool A P × Driver P) :=
  match cell.retry bounds key stop dial reply driver with
  | .error fault => .error fault
  | .ok (.idle, cell, driver) => .ok (.ok .idle, pool.put key cell, driver)
  | .ok (.cancel (.error _), cell, driver) =>
      .ok (.ok .pending, (pool.put key cell).unlink key, driver)
  | .ok (.cancel (.ok (.idle fd)), cell, driver) =>
      let (done, pool, driver) := pool.finish key cell (.error .abandoned) fd driver
      .ok (.ok done, pool, driver)
  | .ok (.cancel (.ok .pending), cell, driver) => .ok (.ok .pending, pool.put key cell, driver)
  | .ok (.cancel (.ok .retry), cell, driver) =>
      .ok (.error .full, (pool.put key cell).schedule key, driver)
  | .ok (.send .retry, cell, driver) =>
      .ok (.error .full, (pool.put key cell).schedule key, driver)
  | .ok (.send progress, cell, driver) =>
      let (done, pool, driver) := pool.settle key cell progress driver
      .ok (.ok done, pool, driver)
  | .ok (.connect .pending, cell, driver) => .ok (.ok .pending, pool.put key cell, driver)
  | .ok (.connect (.failed error fd), cell, driver) =>
      let (done, pool, driver) := pool.finish key cell (.error error) fd driver
      .ok (.ok done, pool, driver)
  | .ok (.connect .retry, cell, driver) =>
      .ok (.error .full, (pool.put key cell).schedule key, driver)

/-! ## Calls -/

def trySend (index : Nat) (request : Request A P) (vacancy : Vacancy) (reply : Submit)
    (driver : Driver P) : Dispatch A P × Pool A P × Driver P :=
  if pool.capacity ≤ index then (.unsent (.outside request), pool, driver)
  else match (pool.slots index).state with
    | .occupied _ => (.unsent (.busy request .slot), pool, driver)
    | .retired => (.unsent (.exhausted request), pool, driver)
    | .free =>
        let key : Local := ⟨index, (pool.slots index).epoch⟩
        match vacancy with
        | .full => (.unsent (.busy request .descriptor), pool, driver)
        | .identityExhausted => (.unsent (.exhausted request), pool, driver)
        | .ok slot =>
            match reply with
            | .full => (.unsent (.busy request .submit), pool, driver)
            | .identityExhausted =>
                (.unsent (.rejected request .identityExhausted), pool, driver)
            | .ok flight =>
                let (cell, deadline) := Cell.new request slot flight
                (.sent, (pool.put key cell).due index (some (.connect key.epoch deadline)),
                  driver.submit ⟨key, flight, .socket slot⟩)

def cancelAt (index : Nat) (reply : Stop) (driver : Driver P) :
    Progress A × Pool A P × Driver P :=
  match pool.tryAt index with
  | some (key, cell) => pool.cancel key cell .cancelled reply driver
  | none => (.idle, pool, driver)

/-- A position outside is excluded. -/
def tryCancel (index : Nat) (reply : Stop) (driver : Driver P) :
    Option (Progress A) × Pool A P × Driver P :=
  if index < pool.capacity then
    let (progress, pool, driver) := pool.cancelAt index reply driver
    (some progress, pool, driver)
  else (none, pool, driver)

/-- The next position of a scan. A cursor at the end stays there. -/
def cancelNext (cursor : Nat) (reply : Stop) (driver : Driver P) :
    Option (Progress A) × Nat × Pool A P × Driver P :=
  if cursor < pool.capacity then
    let (progress, pool, driver) := pool.cancelAt cursor reply driver
    (some progress, cursor + 1, pool, driver)
  else (none, cursor, pool, driver)

/-- `first` is the index under the earliest deadline. -/
def expireOne (now : Nat) (first : Option Nat) (reply : Stop) (driver : Driver P) :
    Option (Progress A) × Pool A P × Driver P :=
  match first with
  | none => (none, pool, driver)
  | some index =>
      match pool.deadlines index with
      | none => (none, pool, driver)
      | some due =>
          if now < due.instant then (none, pool, driver)
          else
            let pool := pool.due index none
            match pool.tryKey ⟨index, due.epoch⟩ with
            | some cell =>
                let (progress, pool, driver) :=
                  pool.cancel ⟨index, due.epoch⟩ cell (due.timeout now) reply driver
                (some progress, pool, driver)
            | none => (some .idle, pool, driver)

def socket (done : Completion Created) (reply : Establish) (driver : Driver P) :
    Progress A × Pool A P × Driver P :=
  match pool.tryKey done.key with
  | none => (.idle, pool, driver)
  | some cell =>
      match cell.socket done reply driver with
      | (.pending, cell, driver) => (.pending, pool.put done.key cell, driver)
      | (.cancelled fd, cell, driver) =>
          pool.finish done.key cell (.error .abandoned) fd driver
      | (.failed error fd, cell, driver) => pool.finish done.key cell (.error error) fd driver
      | (.finished error, cell, driver) => pool.finishDone done.key cell (.error error) driver
      | (.stale, cell, driver) => (.idle, pool.put done.key cell, driver)
      | (.retry, cell, driver) =>
          (.pending, (pool.put done.key cell).schedule done.key, driver)

/-- A completion for another operation is given back. -/
def connect (bounds : Bounds) (done : Completion Connected) (now : Nat) (reply : Submit)
    (driver : Driver P) : Except Fault (Option (Progress A) × Pool A P × Driver P) :=
  match pool.tryKey done.key with
  | none => .ok (none, pool, driver)
  | some cell =>
      match cell.connect bounds done now reply driver with
      | .error fault => .error fault
      | .ok (none, cell, driver) => .ok (none, pool.put done.key cell, driver)
      | .ok (some (.failed error fd), cell, driver) =>
          let (progress, pool, driver) := pool.finish done.key cell (.error error) fd driver
          .ok (some progress, pool, driver)
      | .ok (some (.cancelled fd), cell, driver) =>
          let (progress, pool, driver) := pool.finish done.key cell (.error .abandoned) fd driver
          .ok (some progress, pool, driver)
      | .ok (some (.connected deadline sent), cell, driver) =>
          let pool := pool.due done.key.index (some (.send done.key.epoch deadline))
          let (progress, pool, driver) := pool.settle done.key cell sent driver
          .ok (some progress, pool, driver)

def send (bounds : Bounds) (done : Completion Sent) (reply : Submit) (driver : Driver P) :
    Except Fault (Option (Progress A) × Pool A P × Driver P) :=
  match pool.tryKey done.key with
  | none => .ok (none, pool, driver)
  | some cell =>
      match cell.send bounds done reply driver with
      | .error fault => .error fault
      | .ok (none, cell, driver) => .ok (none, pool.put done.key cell, driver)
      | .ok (some sent, cell, driver) =>
          let (progress, pool, driver) := pool.settle done.key cell sent driver
          .ok (some progress, pool, driver)

def retryOne (bounds : Bounds) (stop : Stop) (dial : Establish) (reply : Submit)
    (driver : Driver P) :
    Except Fault (Except SubmitCause (Progress A) × Pool A P × Driver P) :=
  match pool.retries with
  | [] => .ok (.ok .idle, pool, driver)
  | key :: rest =>
      let pool := { pool with retries := rest }
      match pool.tryKey key with
      | some cell => pool.retry bounds key cell stop dial reply driver
      | none => .ok (.ok .idle, pool, driver)

/-- One position is given up. The kernel is done with what it had submitted. -/
def finishAt (index : Nat) (driver : Driver P) : Option (Local × A) × Pool A P × Driver P :=
  match pool.tryAt index with
  | some (key, cell) =>
      let (owner, pool, driver) := pool.take key cell (driver.quiesce key)
      (owner.map (key, ·), pool, driver)
  | none => (none, pool, driver)

end Pool

/-- All positions from `index` on are given up. -/
def finishFrom (pool : Pool A P) (driver : Driver P) (released : List (Local × A)) :
    (index count : Nat) → List (Local × A) × Pool A P × Driver P
  | _, 0 => (released, pool, driver)
  | index, count + 1 =>
      let (owner, pool, driver) := pool.finishAt index driver
      finishFrom pool driver (owner.toList ++ released) (index + 1) count

/-! ## Owners -/

/-- A pool and its driver. The requests that were accepted, the authorities that were
handed back and the bytes that were acknowledged are kept for each position in its
epochs, and where the last cancellation met a full submission queue. -/
structure World (A P : Type) where
  pool : Pool A P
  driver : Driver P
  accepted : List (Local × A)
  handed : List (Local × A)
  acked : Local → Nat
  stalled : List Local

inductive Input (A P : Type) where
  | trySend (index : Nat) (request : Request A P) (vacancy : Vacancy) (reply : Submit)
  | tryCancel (index : Nat) (reply : Stop)
  | cancelNext (cursor : Nat) (reply : Stop)
  | expireOne (now : Nat) (first : Option Nat) (reply : Stop)
  | socket (done : Completion Created) (reply : Establish)
  | connect (done : Completion Connected) (now : Nat) (reply : Submit)
  | send (done : Completion Sent) (reply : Submit)
  | retryOne (stop : Stop) (dial : Establish) (reply : Submit)
  | finish

inductive Output (A P : Type) where
  | dispatch (dispatch : Dispatch A P)
  | progress (progress : Progress A)
  | excluded
  | ended
  | refused
  | full (cause : SubmitCause)
  | released (owners : List (Local × A))

/-- The phases of an operation that a cancellation has to stop. -/
def Phase.stops : Phase → Bool
  | .creating .. | .connecting .. | .sending .. => true
  | .creatingCancelled .. | .connectRetry .. | .connectingCancelled .. | .sendRetry _
  | .retired => false

namespace World

variable (world : World A P)

def hand (key : Local) : Progress A → List (Local × A)
  | .complete authority _ => (key, authority) :: world.handed
  | .idle | .pending => world.handed

/-- What a cancellation leaves, of a cell with or without its authority. -/
def stall (key : Local) (owned : Bool) (reply : Stop) : List Local :=
  match world.pool.tryKey key with
  | some cell =>
      if cell.authority.isSome = owned then
        if reply = .full && cell.phase.stops then key :: world.stalled.filter (· ≠ key)
        else world.stalled.filter (· ≠ key)
      else world.stalled
  | none => world.stalled

/-- What the retry of the first in line leaves. -/
def retried (reply : Stop) : List Local :=
  match world.pool.retries with
  | key :: _ => world.stall key false reply
  | [] => world.stalled

/-- The kernel acknowledges what it was given. -/
def ack (done : Completion Sent) : Local → Nat :=
  match done.outcome with
  | .ok bytes =>
      if world.driver.waits .send done.key done.flight then
        Function.update world.acked done.key (world.acked done.key + bytes)
      else world.acked
  | .error _ => world.acked

def step (bounds : Bounds) : Input A P → Except Fault (Output A P × World A P)
  | .trySend index request vacancy reply =>
      let key : Local := ⟨index, (world.pool.slots index).epoch⟩
      let (dispatch, pool, driver) :=
        world.pool.trySend index request vacancy reply world.driver
      match dispatch with
      | .sent =>
          .ok (.dispatch .sent, { world with
            pool, driver
            accepted := (key, request.authority) :: world.accepted
            acked := Function.update world.acked key 0 })
      | .unsent cause => .ok (.dispatch (.unsent cause), { world with pool, driver })
  | .tryCancel index reply =>
      let key : Local := ⟨index, (world.pool.slots index).epoch⟩
      match world.pool.tryCancel index reply world.driver with
      | (none, pool, driver) => .ok (.excluded, { world with pool, driver })
      | (some progress, pool, driver) =>
          .ok (.progress progress, { world with
            pool, driver, handed := world.hand key progress
            stalled := world.stall key true reply })
  | .cancelNext cursor reply =>
      let key : Local := ⟨cursor, (world.pool.slots cursor).epoch⟩
      match world.pool.cancelNext cursor reply world.driver with
      | (none, _, pool, driver) => .ok (.ended, { world with pool, driver })
      | (some progress, _, pool, driver) =>
          .ok (.progress progress, { world with
            pool, driver, handed := world.hand key progress
            stalled := world.stall key true reply })
  | .expireOne now first reply =>
      let index := first.getD 0
      let key : Local := ⟨index, (world.pool.slots index).epoch⟩
      match world.pool.expireOne now first reply world.driver with
      | (none, pool, driver) => .ok (.ended, { world with pool, driver })
      | (some progress, pool, driver) =>
          .ok (.progress progress, { world with
            pool, driver, handed := world.hand key progress
            stalled := world.stall key true reply })
  | .socket done reply =>
      let (progress, pool, driver) :=
        world.pool.socket done reply (world.driver.deliver .socket done.key done.flight)
      .ok (.progress progress, { world with
        pool, driver, handed := world.hand done.key progress })
  | .connect done now reply =>
      match world.pool.connect bounds done now reply
          (world.driver.deliver .connect done.key done.flight) with
      | .error fault => .error fault
      | .ok (none, pool, driver) => .ok (.refused, { world with pool, driver })
      | .ok (some progress, pool, driver) =>
          .ok (.progress progress, { world with
            pool, driver, handed := world.hand done.key progress })
  | .send done reply =>
      let acked := world.ack done
      match world.pool.send bounds done reply
          (world.driver.deliver .send done.key done.flight) with
      | .error fault => .error fault
      | .ok (none, pool, driver) => .ok (.refused, { world with pool, driver, acked })
      | .ok (some progress, pool, driver) =>
          .ok (.progress progress, { world with
            pool, driver, acked, handed := world.hand done.key progress })
  | .retryOne stop dial reply =>
      let key := world.pool.retries.headD ⟨0, 0⟩
      match world.pool.retryOne bounds stop dial reply world.driver with
      | .error fault => .error fault
      | .ok (.error cause, pool, driver) =>
          .ok (.full cause, { world with pool, driver, stalled := world.retried stop })
      | .ok (.ok progress, pool, driver) =>
          .ok (.progress progress, { world with
            pool, driver, handed := world.hand key progress
            stalled := world.retried stop })
  | .finish =>
      let (owners, pool, driver) :=
        finishFrom world.pool world.driver [] 0 world.pool.capacity
      .ok (.released owners, { world with pool, driver, handed := owners ++ world.handed })

/-- The index under the earliest deadline. -/
def First (first : Option Nat) : Prop :=
  match first with
  | none => ∀ index, world.pool.deadlines index = none
  | some index => ∃ due, world.pool.deadlines index = some due ∧
      ∀ other due', world.pool.deadlines other = some due' → due.instant ≤ due'.instant

/-- A socket that was created stands in the slot that it was created for. A completion
may name anything else. -/
def allowed : Input A P → Prop
  | .expireOne _ first _ => world.First first
  | .socket done _ => ∀ made slot, done.outcome = .created made →
      ⟨done.key, done.flight, .socket slot⟩ ∈ world.driver.outstanding → made = slot
  | .trySend .. | .tryCancel .. | .cancelNext .. | .connect .. | .send .. | .retryOne ..
  | .finish => True

def machine (A P : Type) (bounds : Bounds) (capacity last : Nat) :
    Run.Machine (World A P) (Input A P) (Output A P) Fault where
  start world := world = ⟨Pool.prepare capacity last, ⟨[], [], []⟩, [], [], fun _ => 0, []⟩
  allowed := allowed
  step world := world.step bounds

end World

end Dope.OneShot
