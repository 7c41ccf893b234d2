import Mathlib.Algebra.Group.Nat.Defs
import Dope.Base.Run
import Dope.Base.Stack

/-! # Flight slots

Model of `driver/retained/flight/storage`. An entry is vacant, occupied or
retired. The word of a vacant entry links the free list of its group; that of an
occupied one names its group and carries three flags; and a retired one keeps a
pattern of the flags that no occupied entry has. A group is a run of entries with
a header: its free list and how many of its entries the present lease was issued.

Entries and groups are numbered in the order of the directory and of their
creation. A read of the wrong variant of a word, or of a value that was not
written, faults.
-/

namespace Dope.Core.Flight

open Function

/-! ## Widths -/

structure Layout where
  indexBits : Nat
  generationBits : Nat
deriving DecidableEq, Repr

/-- The largest `usize`. -/
def usizeMax : Nat := 2 ^ 64 - 1

namespace Layout

def isValid (layout : Layout) : Bool :=
  layout.indexBits ≠ 0 && layout.indexBits ≤ 32 && layout.generationBits ≠ 0 &&
    layout.generationBits ≤ 32 && layout.indexBits + layout.generationBits ≤ 64

def indexLimit (layout : Layout) : Nat :=
  if layout.indexBits = 0 then 0
  else if 64 ≤ layout.indexBits then usizeMax
  else 2 ^ layout.indexBits

end Layout

/-! ## Entries -/

structure Flags where
  attached : Bool
  pending : Bool
  bound : Bool
deriving DecidableEq, Repr

namespace Flags

def clear : Flags := ⟨false, false, false⟩

/-- The pattern of a retired entry. -/
def retired : Flags := ⟨true, false, true⟩

end Flags

inductive Word where
  | free (next : Option Nat)
  | occupied (owner : Nat) (flags : Flags)
  | retired
deriving DecidableEq, Repr

/-- The low bits of the pointer; a link is aligned. -/
def Word.flags : Word → Flags
  | .free _ => .clear
  | .occupied _ flags => flags
  | .retired => .retired

structure Entry (T : Type) where
  value : Option T
  word : Word
  index : Nat
  generation : Nat

def Entry.new {T : Type} (index : Nat) : Entry T := ⟨none, .free none, index, 1⟩

/-! ## Groups -/

/-- The block of a group and its header. The flag for an empty lease stands
beside the count of issued entries. -/
structure Group where
  first : Nat
  len : Nat
  free : Option Nat
  leased : Bool
  empty : Bool
  issued : Nat
deriving DecidableEq, Repr

/-- The entries of the block, in order. -/
def Group.slice (group : Group) : List Nat := List.range' group.first group.len

inductive Fault where
  /-- The word of an entry is of another variant. -/
  | variant
  /-- The value of an entry was not written. -/
  | value
  /-- The count of issued entries wraps. -/
  | issued
  /-- The directory is written beyond its capacity. -/
  | directory
deriving DecidableEq, Repr

/-- The directory and the groups; `capacity` is the room of the directory. -/
structure Arena (T : Type) where
  entry : Nat → Entry T
  len : Nat
  capacity : Nat
  group : Nat → Group
  count : Nat

inductive Vacancy where
  | full
  | identityExhausted
deriving DecidableEq, Repr

namespace Arena

variable {T : Type}

def new : Arena T where
  entry := Entry.new
  len := 0
  capacity := 0
  group _ := ⟨0, 0, none, false, false, 0⟩
  count := 0

def setEntry (arena : Arena T) (e : Nat) (entry : Entry T) : Arena T :=
  { arena with entry := update arena.entry e entry }

def setGroup (arena : Arena T) (g : Nat) (group : Group) : Arena T :=
  { arena with group := update arena.group g group }

def setWord (arena : Arena T) (e : Nat) (word : Word) : Arena T :=
  arena.setEntry e { arena.entry e with word := word }

def flags (arena : Arena T) (e : Nat) : Flags := (arena.entry e).word.flags

/-! ## Vacancies -/

/-- Return a vacant entry to the free list of its group. -/
def releaseVacant (arena : Arena T) (e g : Nat) : Arena T :=
  let arena := arena.setWord e (.free (arena.group g).free)
  arena.setGroup g { arena.group g with free := some e }

/-- Take an entry off the free list. -/
def tryVacancy (arena : Arena T) (g : Nat) : Except Fault (Except Vacancy Nat × Arena T) :=
  let group := arena.group g
  match group.free with
  | none =>
      .ok (.error (if ¬ group.empty ∧ group.issued = 0 then .identityExhausted else .full), arena)
  | some e =>
      match (arena.entry e).word with
      | .free next => .ok (.ok e, arena.setGroup g { group with free := next })
      | _ => .error .variant

/-- The lease of a group ends. -/
def release (arena : Arena T) (g : Nat) : Arena T :=
  arena.setGroup g { arena.group g with leased := false }

end Arena

end Dope.Core.Flight
