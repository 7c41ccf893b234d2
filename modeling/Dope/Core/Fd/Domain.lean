import Mathlib.Algebra.Group.Nat.Defs
import Dope.Base.Run
import Dope.Core.Fd.Table

/-! # Descriptor domain

Model of `fd/domain/{outbound,retire}` and of the owners around it: the creation, use
and close of a descriptor, and the echoes of the kernel. A close may be carried out
before its echo is seen, and an accepted slot may be filled again by then.
-/

namespace Dope.Core.Fd

inductive Create where
  | deliver
  | retired
deriving DecidableEq, Repr

inductive Close where
  | submit
  | settled
  | released
deriving DecidableEq, Repr

/-- Descriptor-table ownership class observed on a retirement completion. -/
inductive Class where
  | close
  | standalone
deriving DecidableEq, Repr

inductive Bind where
  | ready (echo : Retirement) (expected : Class)
  | missing
  | mismatch (echo : Retirement) (expected observed : Class)
deriving DecidableEq, Repr

/-! ## Echoes -/

/-- An echo is a word: the slot, the generation, the class and the side. -/
def pack (token : Retirement) (of : Class) : Nat :=
  token.index + 2 ^ 24 * (token.generation + 2 ^ 32 *
    ((match of with
      | .close => 0
      | .standalone => 1) + 2 * (match token.side with
      | .zero => 0
      | .one => 1)))

def unpack (raw : Nat) : Retirement :=
  ⟨raw % 2 ^ 24, raw / 2 ^ 24 % 2 ^ 32, if raw / 2 ^ 57 % 2 = 0 then .zero else .one⟩

def observed (raw : Nat) : Class := if raw / 2 ^ 56 % 2 = 0 then .close else .standalone

variable {T : Type}

namespace Domain

variable (domain : Domain T)

/-! ## Creation -/

def beginCreate (slot owner : Nat) : Domain T := domain.setState slot (.route .creatingOne owner)

def created (slot owner : Nat) : Create × Domain T :=
  if (domain.state slot).isPhase .creatingOne then
    (.deliver, domain.setState slot (.route .openTwo owner))
  else
    let domain := domain.setState slot (.route .closingZero owner)
    (.retired, { domain with resident := domain.resident.enqueue slot })

def failed (slot owner : Nat) : Domain T :=
  if (domain.state slot).isPhase .creatingOne then
    domain.setState slot (.route .failedOne owner)
  else domain.releaseSlot slot owner

def activate (slot owner : Nat) : Domain T := domain.setState slot (.route .openOne owner)

/-! ## Closures -/

def direct (slot owner : Nat) : Domain T := domain.setState slot (.route .closingZero owner)

/-- One of the two holders of a slot lets go of it. -/
def close (slot owner : Nat) : Close × Domain T :=
  if (domain.state slot).isPhase .openTwo then
    (.submit, domain.setState slot (.route .closingOne owner))
  else if (domain.state slot).isPhase .closingOne then
    (.settled, domain.setState slot (.route .closingZero owner))
  else (.released, domain)

def closeCreating (slot owner : Nat) : Close × Domain T :=
  if (domain.state slot).isPhase .creatingOne then
    (.settled, domain.setState slot (.route .creatingZero owner))
  else domain.close slot owner

def complete (slot : Nat) : Domain T :=
  match domain.state slot with
  | .free | .standalone => domain
  | .route phase owner =>
      if phase = .closingZero then domain.releaseSlot slot owner
      else domain.setState slot (.route .closedOne owner)

/-! ## View -/

/-- An owned slot outside the accepted ones is mapped. -/
def retire (slot : Nat) (owner : Option Nat) : Domain T :=
  let domain :=
    if slot < domain.accept then domain
    else match owner with
      | some owner => domain.direct slot owner
      | none => domain
  { domain with resident := domain.resident.releaseEnqueue slot }

def unopened (slot owner : Nat) : Domain T :=
  let phase := (domain.resident.entries slot).phase
  { domain with resident := domain.resident.release slot phase }.releaseSlot slot owner

def creating (slot owner : Nat) : Domain T :=
  let phase := (domain.resident.entries slot).phase
  match domain.closeCreating slot owner with
  | (.submit, domain) => { domain with resident := domain.resident.releaseEnqueue slot }
  | (.settled, domain) => { domain with resident := domain.resident.release slot phase }
  | (.released, domain) =>
      { domain with resident := domain.resident.release slot phase }.releaseSlot slot owner

def discard (slot owner : Nat) : Domain T :=
  match domain.close slot owner with
  | (.submit, domain) => { domain with resident := domain.resident.enqueue slot }
  | (.settled, domain) => domain
  | (.released, domain) => domain.releaseSlot slot owner

def abandon (slot : Nat) : Reclaimed × Domain T :=
  let (reclaimed, resident) := domain.resident.abandon slot
  (reclaimed, { domain with resident })

def classOf (slot : Nat) : Class :=
  if slot < domain.accept then .close
  else if (domain.state slot).owner.isSome then .close
  else .standalone

def bind (raw : Nat) : Bind × Domain T :=
  if 2 ^ 58 ≤ raw then (.missing, domain)
  else
    let token := unpack raw
    match domain.resident.bind token with
    | none => (.missing, domain)
    | some resident =>
        let expected := domain.classOf token.index
        let domain := { domain with resident }
        if expected = observed raw then (.ready token expected, domain)
        else (.mismatch token expected (observed raw), domain)

/-- The next retirement, as it goes to the kernel. -/
def pending : Option Nat × Domain T :=
  match domain.resident.pendingRetirement with
  | (none, resident) => (none, { domain with resident })
  | (some token, resident) =>
      (some (pack token (domain.classOf token.index)), { domain with resident })

def submitted (raw : Nat) : Except Fault (Domain T) :=
  match domain.resident.submitted (unpack raw) with
  | .error fault => .error fault
  | .ok resident => .ok { domain with resident }

/-- A close that is carried out at once has no echo. -/
def commit (raw : Nat) : Except Fault (Domain T) :=
  let token := unpack raw
  match observed raw with
  | .close =>
      match domain.resident.commit token with
      | .error fault => .error fault
      | .ok resident =>
          let domain := { domain with resident }
          .ok (if token.index < domain.accept then domain else domain.complete token.index)
  | .standalone =>
      match domain.resident.recycle token with
      | .error fault => .error fault
      | .ok (.reusable, resident) => { domain with resident }.releaseOne token.index
      | .ok (.exhausted, resident) => .ok { domain with resident }

def completeEcho (token : Retirement) (expected : Class) : Except Fault (Domain T) :=
  match expected with
  | .standalone =>
      match domain.resident.finishReuse token with
      | (.reusable, resident) => { domain with resident }.releaseOne token.index
      | (.exhausted, resident) => .ok { domain with resident }
  | .close =>
      if token.index < domain.accept then
        .ok { domain with resident := domain.resident.finish token, closed := some token }
      else .ok ({ domain with resident := domain.resident.finish token }.complete token.index)

def retryEcho (token : Retirement) : Domain T :=
  { domain with resident := domain.resident.retry token }

/-- A reservation that is not used is given back in its generation. -/
def releaseReserved (slot : Nat) : Except Fault (Domain T) :=
  { domain with resident := domain.resident.releaseCancel slot }.releaseOne slot

/-- An accepted descriptor finds its owner, or is to be retired again. -/
def accepted (slot : Nat) : Except Reclaimed Nat × Domain T :=
  match domain.resident.tryClaim slot with
  | (some version, resident) => (.ok version, { domain with resident })
  | (none, resident) =>
      let (reclaimed, domain) := { domain with resident }.abandon slot
      (.error reclaimed, domain)

end Domain

/-! ## Owners -/

/-- What is owned of a descriptor: a lease in one of its kinds, the other half of a
socket that was created, its creation in the kernel, or an echo that was bound. -/
inductive Token where
  | accepted (slot generation : Nat)
  | solo (slot generation : Nat)
  | unopened (slot owner index generation : Nat)
  | creating (slot owner generation : Nat)
  | active (slot owner generation : Nat)
  | made (slot owner : Nat)
  | flight (slot owner index : Nat)
  | echo (token : Retirement) (expected : Class)
deriving DecidableEq, Repr

/-- The kernel's side of an accepted slot: it is filled, a close of it is submitted,
that close was carried out, or a descriptor was accepted into it and is on its way. -/
structure Native where
  occupied : Bool
  running : Bool
  executed : Bool
  arrived : Bool
deriving DecidableEq, Repr

structure World (T : Type) where
  domain : Domain T
  tokens : List Token
  native : Nat → Native
  published : List (Nat × Nat × T)
  submits : Nat → Nat
  consumes : Nat → Nat

abbrev World.entries (world : World T) : Nat → Entry T := world.domain.resident.entries

abbrev World.slot (world : World T) : Nat → Nat → Option Nat := world.domain.outbound.slot

inductive Input (T : Type) where
  | assign (owner count : Nat)
  | reserve
  | release (slot generation : Nat)
  | acquire (owner index : Nat)
  | unopened (slot owner index generation : Nat)
  | begin (slot owner index generation : Nat)
  | created (slot owner index : Nat)
  | failed (slot owner index : Nat)
  | creating (slot owner generation : Nat)
  | discard (slot owner : Nat)
  | activate (slot owner generation : Nat)
  | retireActive (slot owner generation : Nat)
  | retireSolo (slot generation : Nat)
  | retireAccepted (slot generation : Nat)
  | retireRoute (owner : Nat)
  | arrive (slot : Nat)
  | accepted (slot : Nat)
  | abandon (slot : Nat)
  | publish (slot generation : Nat) (target : T)
  | target (slot generation : Nat)
  | pending
  | submit
  | commit
  | execute (slot : Nat)
  | fail (slot : Nat)
  | bind (raw : Nat)
  | complete (echo : Retirement) (expected : Class)
  | retry (echo : Retirement) (expected : Class)

inductive Output (T : Type) where
  | assign (assign : Assign)
  | reserve (reserve : Reserve)
  | acquire (acquire : Acquire)
  | create (create : Create)
  | refused
  | done
  | accepted (accepted : Except Reclaimed Nat)
  | abandoned (reclaimed : Reclaimed)
  | target (target : Option T)
  | pending (raw : Option Nat)
  | bound (bind : Bind)

namespace World

variable (world : World T)

def setNative (slot : Nat) (native : Native) : Nat → Native :=
  Function.update world.native slot native

def step : Input T → Except Fault (Output T × World T)
  | .assign owner count =>
      let (assign, domain) := world.domain.tryAssign owner count
      .ok (.assign assign, { world with domain })
  | .reserve =>
      match world.domain.tryReserve with
      | (.ok slot generation, domain) =>
          .ok (.reserve (.ok slot generation),
            { world with domain, tokens := .solo slot generation :: world.tokens })
      | (reserve, domain) => .ok (.reserve reserve, { world with domain })
  | .release slot generation =>
      match world.domain.releaseReserved slot with
      | .error fault => .error fault
      | .ok domain =>
          .ok (.done, { world with domain, tokens := world.tokens.erase (.solo slot generation) })
  | .acquire owner index =>
      match world.domain.acquire owner index with
      | (.ok slot generation, domain) =>
          .ok (.acquire (.ok slot generation), { world with
            domain, tokens := .unopened slot owner index generation :: world.tokens })
      | (acquire, domain) => .ok (.acquire acquire, { world with domain })
  | .unopened slot owner index generation =>
      .ok (.done, { world with
        domain := world.domain.unopened slot owner
        tokens := world.tokens.erase (.unopened slot owner index generation) })
  | .begin slot owner index generation =>
      .ok (.done, { world with
        domain := world.domain.beginCreate slot owner
        tokens := .creating slot owner generation :: .flight slot owner index ::
          world.tokens.erase (.unopened slot owner index generation) })
  | .created flight owner index =>
      match world.domain.outbound.slot owner index with
      | none => .ok (.refused, world)
      | some slot =>
          let tokens := world.tokens.erase (.flight flight owner index)
          match world.domain.created slot owner with
          | (.deliver, domain) => .ok (.create .deliver, { world with
              domain, tokens := .made slot owner :: tokens })
          | (.retired, domain) => .ok (.create .retired, { world with domain, tokens })
  | .failed flight owner index =>
      match world.domain.outbound.slot owner index with
      | none => .ok (.refused, world)
      | some slot =>
          .ok (.done, { world with
            domain := world.domain.failed slot owner
            tokens := world.tokens.erase (.flight flight owner index) })
  | .creating slot owner generation =>
      .ok (.done, { world with
        domain := world.domain.creating slot owner
        tokens := world.tokens.erase (.creating slot owner generation) })
  | .discard slot owner =>
      .ok (.done, { world with
        domain := world.domain.discard slot owner
        tokens := world.tokens.erase (.made slot owner) })
  | .activate slot owner generation =>
      .ok (.done, { world with
        domain := world.domain.activate slot owner
        tokens := .active slot owner generation ::
          (world.tokens.erase (.made slot owner)).erase (.creating slot owner generation) })
  | .retireActive slot owner generation =>
      .ok (.done, { world with
        domain := world.domain.retire slot (some owner)
        tokens := world.tokens.erase (.active slot owner generation) })
  | .retireSolo slot generation =>
      .ok (.done, { world with
        domain := world.domain.retire slot none
        tokens := world.tokens.erase (.solo slot generation) })
  | .retireAccepted slot generation =>
      .ok (.done, { world with
        domain := world.domain.retire slot none
        tokens := world.tokens.erase (.accepted slot generation) })
  | .retireRoute owner => .ok (.done, { world with domain := world.domain.retireRoute owner })
  | .arrive slot =>
      .ok (.done, { world with
        native := world.setNative slot
          { world.native slot with occupied := true, arrived := true } })
  | .accepted slot =>
      let native := world.setNative slot { world.native slot with arrived := false }
      match world.domain.accepted slot with
      | (.ok generation, domain) => .ok (.accepted (.ok generation), { world with
          domain, native, tokens := .accepted slot generation :: world.tokens })
      | (.error reclaimed, domain) =>
          .ok (.accepted (.error reclaimed), { world with domain, native })
  | .abandon slot =>
      let (reclaimed, domain) := world.domain.abandon slot
      .ok (.abandoned reclaimed, { world with
        domain, native := world.setNative slot { world.native slot with arrived := false } })
  | .publish slot generation target =>
      .ok (.done, { world with
        domain := { world.domain with
          resident := world.domain.resident.setTarget slot generation target }
        published := (slot, generation, target) :: world.published })
  | .target slot generation =>
      match world.domain.resident.target slot generation with
      | .error fault => .error fault
      | .ok target => .ok (.target target, world)
  | .pending =>
      let (raw, domain) := world.domain.pending
      .ok (.pending raw, { world with domain })
  | .submit =>
      match world.domain.pending with
      | (none, domain) => .ok (.pending none, { world with domain })
      | (some raw, domain) =>
          match domain.submitted raw with
          | .error fault => .error fault
          | .ok domain =>
              let slot := (unpack raw).index
              .ok (.pending (some raw), { world with
                domain
                native := world.setNative slot
                  { world.native slot with running := true, executed := false }
                submits := Function.update world.submits slot (world.submits slot + 1) })
  | .commit =>
      match world.domain.pending with
      | (none, domain) => .ok (.pending none, { world with domain })
      | (some raw, domain) =>
          match domain.commit raw with
          | .error fault => .error fault
          | .ok domain =>
              let slot := (unpack raw).index
              .ok (.pending (some raw), { world with
                domain
                native := world.setNative slot { world.native slot with occupied := false } })
  | .execute slot =>
      .ok (.done, { world with
        native := world.setNative slot
          { world.native slot with running := false, executed := true, occupied := false } })
  | .fail slot =>
      .ok (.done, { world with
        native := world.setNative slot { world.native slot with running := false } })
  | .bind raw =>
      match world.domain.bind raw with
      | (.ready echo expected, domain) => .ok (.bound (.ready echo expected), { world with
          domain, tokens := .echo echo expected :: world.tokens })
      | (.mismatch echo expected observed, domain) =>
          .ok (.bound (.mismatch echo expected observed), { world with
            domain, tokens := .echo echo expected :: world.tokens })
      | (.missing, domain) => .ok (.bound .missing, { world with domain })
  | .complete echo expected =>
      match world.domain.completeEcho echo expected with
      | .error fault => .error fault
      | .ok domain =>
          .ok (.done, { world with
            domain
            tokens := world.tokens.erase (.echo echo expected)
            consumes := Function.update world.consumes echo.index
              (world.consumes echo.index + 1) })
  | .retry echo expected =>
      .ok (.done, { world with
        domain := world.domain.retryEcho echo
        tokens := world.tokens.erase (.echo echo expected)
        consumes := Function.update world.consumes echo.index (world.consumes echo.index + 1) })

/-- Owners use what they own. The kernel fills an accepted slot that is vacant, is
through with a close when its echo returns, and does not report that a close failed
which it carried out, unless the slot has its next descriptor. -/
def allowed : Input T → Prop
  | .assign .. | .reserve | .acquire .. | .retireRoute _ | .publish .. | .target .. | .pending
  | .submit | .commit => True
  | .release slot generation | .retireSolo slot generation =>
      .solo slot generation ∈ world.tokens
  | .unopened slot owner index generation | .begin slot owner index generation =>
      .unopened slot owner index generation ∈ world.tokens
  | .created slot owner index | .failed slot owner index =>
      .flight slot owner index ∈ world.tokens
  | .creating slot owner generation => .creating slot owner generation ∈ world.tokens
  | .discard slot owner => .made slot owner ∈ world.tokens
  | .activate slot owner generation =>
      .made slot owner ∈ world.tokens ∧ .creating slot owner generation ∈ world.tokens
  | .retireActive slot owner generation => .active slot owner generation ∈ world.tokens
  | .retireAccepted slot generation => .accepted slot generation ∈ world.tokens
  | .arrive slot => slot < world.domain.accept ∧ (world.native slot).occupied = false
  | .accepted slot | .abandon slot => (world.native slot).arrived = true
  | .execute slot | .fail slot => (world.native slot).running = true
  | .bind raw => (unpack raw).index < world.domain.accept →
      (world.native (unpack raw).index).running = false
  | .complete echo expected => .echo echo expected ∈ world.tokens
  | .retry echo expected => .echo echo expected ∈ world.tokens ∧
      (echo.index < world.domain.accept → (world.native echo.index).executed = false ∨
        (world.native echo.index).occupied = true ∧ (world.native echo.index).arrived = false)

end World

/-- The slots of a driver, and its last generation. -/
structure Layout where
  accept : Nat
  outbound : Nat
  last : Nat
  bounded : accept + outbound ≤ 2 ^ 24
  word : last < 2 ^ 32

def World.machine (T : Type) (layout : Layout) :
    Run.Machine (World T) (Input T) (Output T) Fault where
  start world := world = ⟨.tryNew layout.accept layout.outbound layout.last, [],
    fun _ => ⟨false, false, false, false⟩, [], fun _ => 0, fun _ => 0⟩
  allowed := World.allowed
  step := World.step

end Dope.Core.Fd
