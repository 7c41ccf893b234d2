import Mathlib.Algebra.Group.Nat.Defs
import Dope.Core.Ready.Arena.Words

/-! # Slots of the arena

Model of `driver/schedule/ready/arena/cells` and of the resident state. A slot
has a kind, a generation and a payload. A key names a slot in one generation.
-/

namespace Dope.Core.Ready.Arena

inductive Kind where
  | free
  | reserved
  | dispatch
  | task
  | topology
  | retired
deriving DecidableEq, Repr

/-- Generations, with their raw form. The last one has no successor. -/
structure Epochs (G : Type) where
  initial : G
  next : G → Option G
  raw : G → BitVec 32
  fromRaw : BitVec 32 → G

namespace Epochs

structure Lawful {G : Type} (epochs : Epochs G) : Prop where
  fromRaw_raw : ∀ epoch, epochs.fromRaw (epochs.raw epoch) = epoch
  advance : ∀ {epoch epoch'}, epochs.next epoch = some epoch' →
    (epochs.raw epoch).toNat < (epochs.raw epoch').toNat

/-- Generations that count up. -/
def counter : Epochs (BitVec 32) where
  initial := 0
  next epoch := if epoch = BitVec.allOnes 32 then none else some (epoch + 1)
  raw := id
  fromRaw := id

theorem counter_lawful : counter.Lawful where
  fromRaw_raw _ := rfl
  advance := by
    intro epoch epoch' next
    unfold counter at next
    dsimp only at next
    split at next
    · cases next
    · rename_i more
      cases next
      have bound := epoch.isLt
      have apart : epoch.toNat ≠ 2 ^ 32 - 1 := by
        intro last
        apply more
        apply BitVec.eq_of_toNat_eq
        rw [last]
        rfl
      show epoch.toNat < (epoch + 1).toNat
      rw [BitVec.toNat_add]
      show epoch.toNat < (epoch.toNat + 1) % 2 ^ 32
      rw [Nat.mod_eq_of_lt (by omega)]
      omega

end Epochs

structure Key (G : Type) where
  index : Nat
  epoch : G
deriving DecidableEq, Repr

/-- What a task was bound with. -/
structure Record (G : Type) where
  parent : Key G
  topology : Nat
  local_ : BitVec 32
deriving DecidableEq

structure Cell (G : Type) where
  word0 : BitVec 64
  word1 : BitVec 64
  word2 : BitVec 64
  generation : G
  kind : Kind
  queue : Option Lane
deriving DecidableEq

namespace Cell

variable {G : Type}

def setKind (cell : Cell G) (kind : Kind) : Cell G := { cell with kind, queue := none }

def setEpoch (cell : Cell G) (epoch : G) : Cell G := { cell with generation := epoch }

def setFree (cell : Cell G) (next : Nat) : Cell G := { cell with word0 := freeWord next }

def setDispatch (cell : Cell G) (target : Token) : Cell G :=
  { cell with word0 := (target.words 0).1, word1 := (target.words 0).2 }

def overwrite (cell : Cell G) (words : BitVec 64 × BitVec 64 × BitVec 64) : Cell G :=
  { cell with word0 := words.1, word1 := words.2.1, word2 := words.2.2 }

def dispatch (cell : Cell G) : Option Token := Token.restore (cell.word0, cell.word1)

def record (epochs : Epochs G) (cell : Cell G) : Record G where
  parent := ⟨identityIndex cell.word0, epochs.fromRaw (identityEpoch cell.word0)⟩
  topology := bindingRoot cell.word1
  local_ := bindingLocal cell.word1

def link (cell : Cell G) : Link := .fromWord cell.word2

def setLink (cell : Cell G) (link : Link) : Cell G := { cell with word2 := link.word }

/-- The ends of a lane of a topology. -/
def links (cell : Cell G) : Lane → Link
  | .first => .fromWord cell.word0
  | .second => .fromWord cell.word1

def setLinks (cell : Cell G) (side : Lane) (links : Link) : Cell G :=
  match side with
  | .first => { cell with word0 := links.word }
  | .second => { cell with word1 := links.word }

def state (cell : Cell G) : State := cell.word2

def setState (cell : Cell G) (state : State) : Cell G := { cell with word2 := state }

def setQueue (cell : Cell G) (queue : Option Lane) : Cell G := { cell with queue }

end Cell

/-- The payload of a task. -/
def taskWords {G : Type} (epochs : Epochs G) (parent : Key G) (topology : Nat)
    (local_ : BitVec 32) : BitVec 64 × BitVec 64 × BitVec 64 :=
  (identityWord parent.index (epochs.raw parent.epoch), bindingWord topology local_,
    Link.empty.word)

/-- The first descriptors of the arena are slots of files, the others dynamic. -/
structure Layout where
  descriptors : Nat
  dynamic : Nat
  pos : 0 < descriptors + dynamic
  bound : descriptors + dynamic < 2 ^ 16
deriving DecidableEq, Repr

namespace Layout

def capacity (layout : Layout) : Capacity :=
  ⟨layout.descriptors + layout.dynamic, layout.pos, layout.bound⟩

def available (layout : Layout) : Option (Nat × Nat) :=
  if layout.dynamic = 0 then none else some (layout.descriptors, layout.dynamic)

def nextFree (layout : Layout) (index : Nat) : Nat :=
  if index + 1 = layout.capacity.raw then index else index + 1

/-- An index of a dynamic slot. -/
def Inside (layout : Layout) (index : Nat) : Prop :=
  layout.descriptors ≤ index ∧ index < layout.capacity.raw

instance (layout : Layout) (index : Nat) : Decidable (layout.Inside index) :=
  inferInstanceAs (Decidable (_ ∧ _))

end Layout

abbrev Slots (G : Type) := Nat → Cell G

namespace Slots

variable {G : Type} (epochs : Epochs G)

def new (layout : Layout) : Slots G := fun index =>
  if layout.capacity.raw ≤ index then ⟨0, 0, 0, epochs.initial, .retired, none⟩
  else ⟨freeWord (layout.nextFree index), 0, 0, epochs.initial, .free, none⟩

def modify (slots : Slots G) (index : Nat) (edit : Cell G → Cell G) : Slots G :=
  Function.update slots index (edit (slots index))

def next (slots : Slots G) (index : Nat) : Nat := reserveWord (slots index).word0

def link (slots : Slots G) (index next : Nat) : Slots G := slots.modify index (·.setFree next)

def reserve (slots : Slots G) (index : Nat) : Key G × Slots G :=
  (⟨index, (slots index).generation⟩, slots.modify index (·.setKind .reserved))

def dispatch (slots : Slots G) (key : Key G) (target : Token) : Slots G :=
  slots.modify key.index fun cell => (cell.setDispatch target).setKind .dispatch

def task (slots : Slots G) (key parent : Key G) (topology : Nat) (local_ : BitVec 32) : Slots G :=
  slots.modify key.index fun cell =>
    (cell.overwrite (taskWords epochs parent topology local_)).setKind .task

def topology (slots : Slots G) (key : Key G) : Slots G :=
  slots.modify key.index fun cell => (cell.overwrite (0, 0, 0)).setKind .topology

/-- The slot of a dispatch, of a task or of a topology is reserved again. -/
def unbind (slots : Slots G) (index : Nat) : Slots G := slots.modify index (·.setKind .reserved)

/-- Advance the generation, or retire the slot with its last one. -/
def renew (slots : Slots G) (key : Key G) : Option (Key G) × Slots G :=
  match epochs.next (slots key.index).generation with
  | some next => (some ⟨key.index, next⟩, slots.modify key.index (·.setEpoch next))
  | none => (none, slots.modify key.index (·.setKind .retired))

def publish (slots : Slots G) (key : Key G) (next : Nat) : Slots G :=
  slots.modify key.index fun cell => (cell.setFree next).setKind .free

end Slots

end Dope.Core.Ready.Arena
