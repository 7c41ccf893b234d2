import Dope.Core.Clock

/-! # A one-shot send

Model of `link/oneshot/{phase,states,raw/cell}`: a request is carried through the
creation of its socket, the connect and the sends of its payload. What is submitted
to the kernel is kept in the driver until it is completed. What a submission meets
comes with the input.
-/

namespace Dope.OneShot

open Core.Clock (tryAdd)

/-- A position in one of its epochs. -/
structure Local where
  index : Nat
  epoch : Nat
deriving DecidableEq, Repr

inductive Cancellation where
  | cancelled
  | connectTimeout (lateBy : Nat)
  | sendTimeout (lateBy : Nat)
deriving DecidableEq, Repr

inductive SubmitCause where
  | full
  | identityExhausted
deriving DecidableEq, Repr

inductive Error where
  | submit (cause : SubmitCause)
  | socket (errno : Nat)
  | option (errno : Nat)
  | connect (errno : Nat)
  | send (errno : Nat)
  | sendAmount (observed submitted : Nat)
  | sendDeadlineOverflow (range : Core.Clock.Range)
  | connectTimeout (lateBy : Nat)
  | sendTimeout (lateBy : Nat)
  | cancelled
  | cancellation (reason : Cancellation) (failure : Nat)
  | abandoned
deriving DecidableEq, Repr

def Error.fromCancellation : Cancellation → Error
  | .cancelled => .cancelled
  | .connectTimeout lateBy => .connectTimeout lateBy
  | .sendTimeout lateBy => .sendTimeout lateBy

/-- A send outside the payload. -/
inductive Fault where
  | payload
deriving DecidableEq, Repr

structure Request (A P : Type) where
  address : P
  authority : A
  payload : List UInt8
  connectDeadline : Nat
  sendWindow : Nat
deriving DecidableEq, Repr

/-! ## Driver -/

/-- What the kernel works on. A send covers `bytes` of the payload from `start`. -/
inductive Action (P : Type) where
  | socket (slot : Nat)
  | connect (address : P) (fd : Nat)
  | send (fd start bytes : Nat)
deriving DecidableEq, Repr

structure Op (P : Type) where
  key : Local
  flight : Nat
  action : Action P
deriving DecidableEq, Repr

inductive Kind where
  | socket
  | connect
  | send
deriving DecidableEq, Repr

def Action.kind {P : Type} : Action P → Kind
  | .socket _ => .socket
  | .connect .. => .connect
  | .send .. => .send

/-- What is outstanding in the kernel, and the descriptors that were created and
closed for each position. -/
structure Driver (P : Type) where
  outstanding : List (Op P)
  created : List (Local × Nat)
  closed : List (Local × Nat)
deriving DecidableEq, Repr

namespace Driver

variable {P : Type} (driver : Driver P)

def submit (op : Op P) : Driver P := { driver with outstanding := op :: driver.outstanding }

/-- A completion names a kind, a position in an epoch and a flight. -/
def names (kind : Kind) (key : Local) (flight : Nat) (op : Op P) : Bool :=
  op.action.kind = kind && op.key = key && op.flight = flight

def waits (kind : Kind) (key : Local) (flight : Nat) : Bool :=
  driver.outstanding.any (names kind key flight)

def deliver (kind : Kind) (key : Local) (flight : Nat) : Driver P :=
  { driver with outstanding := driver.outstanding.filter (!names kind key flight ·) }

def quiesce (key : Local) : Driver P :=
  { driver with outstanding := driver.outstanding.filter (·.key ≠ key) }

def create (key : Local) (fd : Nat) : Driver P :=
  { driver with created := (key, fd) :: driver.created }

def close (key : Local) (fd : Nat) : Driver P :=
  { driver with closed := (key, fd) :: driver.closed }

end Driver

/-- What a submission meets. -/
inductive Submit where
  | ok (flight : Nat)
  | full
  | identityExhausted
deriving DecidableEq, Repr

/-- What the submission of a connect meets. -/
inductive Establish where
  | ok (flight : Nat)
  | full
  | identityExhausted
  | option (errno : Nat)
deriving DecidableEq, Repr

/-- What a cancellation meets. -/
inductive Stop where
  | accepted
  | full
  | rejected (failure : Nat)
deriving DecidableEq, Repr

/-! ## Completions -/

inductive Created where
  | created (slot : Nat)
  | create (errno : Nat)
  | retired
deriving DecidableEq, Repr

inductive Connected where
  | ok
  | option (errno : Nat)
  | connect (errno : Nat)
deriving DecidableEq, Repr

inductive Sent where
  | ok (bytes : Nat)
  | error (errno : Nat)
deriving DecidableEq, Repr

/-- A completion names a position in an epoch, and the flight. -/
structure Completion (O : Type) where
  key : Local
  flight : Nat
  outcome : O
deriving DecidableEq, Repr

/-! ## Phases -/

inductive Phase where
  | creating (slot flight window : Nat)
  | creatingCancelled (slot flight : Nat)
  | connectRetry (fd window : Nat)
  | connecting (fd flight window : Nat)
  | connectingCancelled (fd flight : Nat)
  | sendRetry (fd : Nat)
  | sending (fd flight bytes : Nat)
  | retired
deriving DecidableEq, Repr

inductive Dial where
  | pending
  | retry
  | failed (error : Error) (fd : Nat)
deriving DecidableEq, Repr

inductive Socket where
  | pending
  | cancelled (fd : Nat)
  | retry
  | failed (error : Error) (fd : Nat)
  | finished (error : Error)
  | stale
deriving DecidableEq, Repr

/-- The report of a connect that was tried. -/
def Dial.socket : Dial → Socket
  | .pending => .pending
  | .retry => .retry
  | .failed error fd => .failed error fd

inductive SendProgress where
  | complete (fd : Nat)
  | submitted
  | retry
  | cancelled (fd : Nat)
  | failed (error : Error) (fd : Nat)
deriving DecidableEq, Repr

inductive Connect where
  | connected (deadline : Nat) (sent : SendProgress)
  | failed (error : Error) (fd : Nat)
  | cancelled (fd : Nat)
deriving DecidableEq, Repr

/-- What a cancellation comes to, when it is not rejected. -/
inductive Cancel where
  | idle (fd : Nat)
  | pending
  | retry
deriving DecidableEq, Repr

inductive Retry where
  | cancel (result : Except Nat Cancel)
  | connect (dial : Dial)
  | send (progress : SendProgress)
  | idle
deriving DecidableEq

variable {A P : Type}

/-- The connect of a created socket. -/
def connectSubmit (fd window : Nat) (address : P) (key : Local) (driver : Driver P) :
    Establish → Phase × Dial × Driver P
  | .ok flight =>
      (.connecting fd flight window, .pending,
        driver.submit ⟨key, flight, .connect address fd⟩)
  | .full => (.connectRetry fd window, .retry, driver)
  | .identityExhausted => (.retired, .failed (.submit .identityExhausted) fd, driver)
  | .option errno => (.retired, .failed (.option errno) fd, driver)

/-- A completion is joined with the creation it belongs to. -/
def tryFinish (slot flight : Nat) (done : Completion Created) : Option Created :=
  if done.flight = flight then
    match done.outcome with
    | .created made => if made = slot then some (.created made) else none
    | .create errno => some (.create errno)
    | .retired => some .retired
  else none

namespace Phase

def socket (phase : Phase) (done : Completion Created) (address : P) (reply : Establish)
    (stopped : Bool) (driver : Driver P) : Phase × Socket × Driver P :=
  match phase with
  | .creatingCancelled slot flight =>
      match tryFinish slot flight done with
      | some (.created fd) => (.retired, .cancelled fd, driver.create done.key fd)
      | some (.create errno) => (.retired, .finished (.socket errno), driver)
      | some .retired => (.retired, .finished .abandoned, driver)
      | none => (.creatingCancelled slot flight, .stale, driver)
  | .creating slot flight window =>
      match tryFinish slot flight done with
      | some (.created fd) =>
          if stopped then (.retired, .cancelled fd, driver.create done.key fd)
          else
            let (phase, dial, driver) :=
              connectSubmit fd window address done.key (driver.create done.key fd) reply
            (phase, (match dial with
              | .pending => .pending
              | .retry => .retry
              | .failed error fd => .failed error fd), driver)
      | some (.create errno) => (.retired, .finished (.socket errno), driver)
      | some .retired => (.retired, .finished .abandoned, driver)
      | none => (.creating slot flight window, .stale, driver)
  | .connectRetry .. | .connecting .. | .connectingCancelled .. | .sendRetry _ | .sending ..
  | .retired => (phase, .stale, driver)

def cancel (phase : Phase) (reply : Stop) : Phase × Except Nat Cancel :=
  match phase with
  | .creating slot flight _ =>
      match reply with
      | .accepted => (.creatingCancelled slot flight, .ok .pending)
      | .full => (phase, .ok .retry)
      | .rejected failure => (phase, .error failure)
  | .connecting fd flight _ =>
      match reply with
      | .accepted => (.connectingCancelled fd flight, .ok .pending)
      | .full => (phase, .ok .retry)
      | .rejected failure => (phase, .error failure)
  | .sending .. =>
      match reply with
      | .accepted => (phase, .ok .pending)
      | .full => (phase, .ok .retry)
      | .rejected failure => (phase, .error failure)
  | .connectRetry fd _ => (.retired, .ok (.idle fd))
  | .sendRetry fd => (.retired, .ok (.idle fd))
  | .creatingCancelled .. | .connectingCancelled .. | .retired => (phase, .ok .pending)

end Phase

/-! ## Cells -/

/-- The longest transfer, and the furthest instant. -/
structure Bounds where
  transfer : Nat
  horizon : Nat
  positive : 0 < transfer

structure Cell (A P : Type) where
  authority : Option A
  address : P
  phase : Phase
  payload : List UInt8
  offset : Nat
deriving DecidableEq, Repr

namespace Cell

def new (request : Request A P) (slot flight : Nat) : Cell A P × Nat :=
  (⟨some request.authority, request.address, .creating slot flight request.sendWindow,
    request.payload, 0⟩, request.connectDeadline)

variable (cell : Cell A P) (bounds : Bounds)

/-- The suffix from the offset is read unchecked. -/
def submit (fd : Nat) (key : Local) (reply : Submit) (driver : Driver P) :
    Except Fault (SendProgress × Cell A P × Driver P) :=
  if cell.payload.length < cell.offset then .error .payload
  else
    let bytes := min (cell.payload.length - cell.offset) bounds.transfer
    if bytes = 0 then .ok (.complete fd, cell, driver)
    else match reply with
      | .ok flight =>
          .ok (.submitted, { cell with phase := .sending fd flight bytes },
            driver.submit ⟨key, flight, .send fd cell.offset bytes⟩)
      | .full => .ok (.retry, { cell with phase := .sendRetry fd }, driver)
      | .identityExhausted => .ok (.failed (.submit .identityExhausted) fd, cell, driver)

def socket (done : Completion Created) (reply : Establish) (driver : Driver P) :
    Socket × Cell A P × Driver P :=
  let (phase, progress, driver) :=
    cell.phase.socket done cell.address reply cell.authority.isNone driver
  (progress, { cell with phase }, driver)

/-- A completion that is not the one that is waited for is given back. -/
def connect (done : Completion Connected) (now : Nat) (reply : Submit) (driver : Driver P) :
    Except Fault (Option Connect × Cell A P × Driver P) :=
  let current := { cell with phase := .retired }
  match cell.phase with
  | .connecting fd flight window =>
      if done.flight = flight then
        match done.outcome with
        | .ok =>
            if cell.authority.isNone then .ok (some (.cancelled fd), current, driver)
            else match tryAdd bounds.horizon now window with
              | .ok deadline =>
                  match current.submit bounds fd done.key reply driver with
                  | .error fault => .error fault
                  | .ok (sent, cell, driver) => .ok (some (.connected deadline sent), cell, driver)
              | .error range =>
                  .ok (some (.failed (.sendDeadlineOverflow range) fd), current, driver)
        | .option errno => .ok (some (.failed (.option errno) fd), current, driver)
        | .connect errno => .ok (some (.failed (.connect errno) fd), current, driver)
      else .ok (none, cell, driver)
  | .connectingCancelled fd flight =>
      if done.flight = flight then
        match done.outcome with
        | .ok => .ok (some (.cancelled fd), current, driver)
        | .option errno => .ok (some (.failed (.option errno) fd), current, driver)
        | .connect errno => .ok (some (.failed (.connect errno) fd), current, driver)
      else .ok (none, cell, driver)
  | .creating .. | .creatingCancelled .. | .connectRetry .. | .sendRetry _ | .sending ..
  | .retired => .ok (none, cell, driver)

/-- A cell without its authority is cancelled again. -/
def retry (key : Local) (stop : Stop) (dial : Establish) (reply : Submit) (driver : Driver P) :
    Except Fault (Retry × Cell A P × Driver P) :=
  if cell.authority.isNone then
    let (phase, progress) := cell.phase.cancel stop
    .ok (.cancel progress, { cell with phase }, driver)
  else match cell.phase with
    | .connectRetry fd window =>
        let (phase, progress, driver) := connectSubmit fd window cell.address key driver dial
        .ok (.connect progress, { cell with phase }, driver)
    | .sendRetry fd =>
        match ({ cell with phase := .retired } : Cell A P).submit bounds fd key reply driver with
        | .error fault => .error fault
        | .ok (progress, cell, driver) => .ok (.send progress, cell, driver)
    | .creating .. | .creatingCancelled .. | .connecting .. | .connectingCancelled ..
    | .sending .. | .retired => .ok (.idle, cell, driver)

def send (done : Completion Sent) (reply : Submit) (driver : Driver P) :
    Except Fault (Option SendProgress × Cell A P × Driver P) :=
  match cell.phase with
  | .sending fd flight bound =>
      if done.flight = flight then
        let current := { cell with phase := .retired }
        match done.outcome with
        | .ok bytes =>
            if bytes = 0 ∨ bound < bytes then
              .ok (some (.failed (.sendAmount bytes bound) fd), current, driver)
            else
              let current := { current with offset := cell.offset + bytes }
              if cell.authority.isNone then .ok (some (.cancelled fd), current, driver)
              else match current.submit bounds fd done.key reply driver with
                | .error fault => .error fault
                | .ok (progress, cell, driver) => .ok (some progress, cell, driver)
        | .error errno => .ok (some (.failed (.send errno) fd), current, driver)
      else .ok (none, cell, driver)
  | .creating .. | .creatingCancelled .. | .connectRetry .. | .connecting ..
  | .connectingCancelled .. | .sendRetry _ | .retired => .ok (none, cell, driver)

/-- The authority is taken first, and once. -/
def cancel (reply : Stop) : Option (A × Except Nat Cancel) × Cell A P :=
  match cell.authority with
  | none => (none, cell)
  | some owner =>
      let (phase, progress) := cell.phase.cancel reply
      (some (owner, progress), { cell with authority := none, phase })

end Cell

end Dope.OneShot
