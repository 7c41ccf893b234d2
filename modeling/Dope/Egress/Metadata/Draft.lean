import Dope.Egress.Metadata.Slab

/-! # Batches

Model of `metadata/batch`. A batch acquires its credit as a whole. Its caller
pushes loads one by one, each taking a part of the credit and a node, on a chain
that no lane sees; at the end the chain goes to the lane as a whole, or every
node and every part of the credit goes back.

The caller's closure is a tree of pushes, whose continuation sees the answer to
each. What was pushed is recorded beside the state.
-/

namespace Dope.Egress.Metadata

open Wait Function Run

/-- The credit that is missing. -/
inductive Shortage where
  | entries (available requested : Nat)
  | resident (available requested : Nat)
deriving DecidableEq, Repr

/-- `Amount::checked_sub` -/
def Amount.checkedSub (amount removed : Amount) : Except Shortage Amount :=
  if removed.entries ≤ amount.entries then
    if removed.resident ≤ amount.resident then .ok (amount - removed)
    else .error (.resident amount.resident removed.resident)
  else .error (.entries amount.entries removed.entries)

namespace Batch

inductive Rejection (n : Nat) where
  | batchCapacity (requested : Charge) (remaining : Amount) (cause : Shortage)
  | capacity (charge : Charge) (cause : Admission n)
deriving DecidableEq, Repr

/-- A rejected load with its reason. -/
structure Rejected (T : Type) (n : Nat) where
  load : NonEmpty T
  reason : Rejection n
deriving DecidableEq, Repr

inductive Error (E : Type) (n : Nat) where
  | admission (cause : Admission n)
  | build (error : E)
  | mismatch (remaining : Amount)
deriving DecidableEq, Repr

/-- `batch::Plan`: at least one entry. -/
structure Plan where
  amount : Amount
  pos : 0 < amount.entries
deriving DecidableEq

/-- What the caller does with a batch. -/
inductive Build (T R E : Type) (n : Nat) where
  | done (output : Except E R)
  | push (load : NonEmpty T) (next : Except (Rejected T n) Unit → Build T R E n)

/-- The chain of a batch, and what is left of its credit; `pushed` is what was
pushed so far. -/
structure Draft (T : Type) where
  links : Ends
  credit : Amount
  pushed : List (NonEmpty T)

namespace Draft

variable {credit : HeldCredit} {n : Nat} {access : Access credit n} {T R E : Type}

def tryNew (pool : Pool access T) (lane : Fin n) (plan : Plan) :
    Except (Admission n) (Draft T × Pool access T) :=
  match pool.tryAcquire lane plan.amount with
  | .error cause => .error cause
  | .ok pool => .ok (⟨.empty, plan.amount, []⟩, pool)

def tryPush (pool : Pool access T) (lane : Fin n) (draft : Draft T) (load : NonEmpty T) :
    Except (Rejected T n) Unit × Draft T × Pool access T :=
  match Amount.checkedSub draft.credit load.amount with
  | .error cause =>
      (.error ⟨load, .batchCapacity load.charge draft.credit cause⟩, draft, pool)
  | .ok rest =>
      match pool.slab.vacancy with
      | none =>
          (.error ⟨load, .capacity load.charge (.storage lane load.amount 0)⟩, draft, pool)
      | some index =>
          let slab := pool.slab.reserve index
          let slab := slab.write index load ⟨load.len, load.resident⟩
          let (slab, links) := slab.append draft.links index
          (.ok (), ⟨links, rest, draft.pushed ++ [load]⟩, { pool with slab := slab })

def build (lane : Fin n) : Build T R E n → Draft T → Pool access T →
    Except E R × Draft T × Pool access T
  | .done output, draft, pool => (output, draft, pool)
  | .push load next, draft, pool =>
      let (answer, draft, pool) := tryPush pool lane draft load
      build lane (next answer) draft pool

/-- The rest of `cancel`'s loop: `grant` is the credit of the last discarded node. -/
def discardFrom (lane : Fin n) : Nat → Amount → Ends → Slab T → Account credit n →
    Except Fault (Slab T × Account credit n)
  | 0, _, _, _, _ => .error .walk
  | fuel + 1, grant, links, slab, account => do
      match ← slab.discard links with
      | (some stored, slab, links) =>
          discardFrom lane fuel stored.amount links slab (account.release lane grant)
      | (none, slab, _) => .ok (slab, account.release lane grant)

def cancel (pool : Pool access T) (lane : Fin n) (draft : Draft T) :
    Except Fault (Pool access T) := do
  match ← pool.slab.discard draft.links with
  | (some stored, slab, links) =>
      let (slab, account) ←
        discardFrom lane (slab.len + 1) stored.amount links slab pool.account
      .ok (({ pool with slab := slab, account := account } : Pool access T).release lane
        draft.credit)
  | (none, slab, _) =>
      .ok (({ pool with slab := slab } : Pool access T).release lane draft.credit)

/-- `state().append`: the chain of the batch is put behind the lane. -/
def append (pool : Pool access T) (lane : Fin n) (source : Ends) : Pool access T :=
  match source.head with
  | none => pool
  | some front =>
      let ends := pool.links lane
      { pool with
        slab := match ends.tail with
          | none => pool.slab
          | some prev => pool.slab.setNext prev (some front)
        links := update pool.links lane ⟨some (ends.head.getD front), source.tail⟩ }

def tryBuild (pool : Pool access T) (lane : Fin n) (draft : Draft T) (closure : Build T R E n) :
    Except Fault (Except (Error E n) R × List (NonEmpty T) × Pool access T) :=
  match build lane closure draft pool with
  | (.error error, draft, pool) => do
      let pool ← cancel pool lane draft
      .ok (.error (.build error), draft.pushed, pool)
  | (.ok output, draft, pool) =>
      if draft.credit ≠ Amount.zero then do
        let pool ← cancel pool lane draft
        .ok (.error (.mismatch draft.credit), draft.pushed, pool)
      else .ok (.ok output, draft.pushed, append pool lane draft.links)

end Draft

/-- `Queue::try_batch` -/
def tryBatch {credit : HeldCredit} {n : Nat} {access : Access credit n} {T R E : Type}
    (pool : Pool access T) (lane : Fin n) (plan : Plan) (closure : Build T R E n) :
    Except Fault (Except (Error E n) R × List (NonEmpty T) × Pool access T) :=
  match Draft.tryNew pool lane plan with
  | .error cause => .ok (.error (.admission cause), [], pool)
  | .ok (draft, pool) => Draft.tryBuild pool lane draft closure

end Batch

end Dope.Egress.Metadata
