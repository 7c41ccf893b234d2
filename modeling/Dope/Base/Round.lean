import Dope.Base.Cycle
import Mathlib.Data.List.MinMax
import Mathlib.Data.Fintype.Basic

/-! # Residents in rounds

A table of positions, each vacant or with a resident, and a ring of the residents
that are scheduled. A resident is named by its position and the generation that
the position had when it came. Beside the table stands a queue of retries, which
keeps for a position the generation of a resident and when its retry is due.
-/

namespace Dope.Round

structure Key (n : Nat) where
  slot : Fin n
  generation : Nat
deriving DecidableEq, Repr

structure Slot (R : Type) where
  generation : Nat
  resident : Option R
deriving DecidableEq, Repr

structure Table (n : Nat) (R : Type) where
  slots : Fin n → Slot R
  ring : List (Fin n)
  nodup : ring.Nodup
  live : ∀ i ∈ ring, (slots i).resident.isSome = true

variable {n : Nat} {R : Type}

namespace Table

def new (n : Nat) (R : Type) : Table n R := ⟨fun _ => ⟨0, none⟩, [], List.nodup_nil, by simp⟩

variable (table : Table n R)

def key (i : Fin n) : Key n := ⟨i, (table.slots i).generation⟩

def get (key : Key n) : Option R :=
  if (table.slots key.slot).generation = key.generation then (table.slots key.slot).resident
  else none

/-- The scheduled resident whose turn it is. -/
def turn : Option (Fin n × R) :=
  table.ring.head?.bind fun i => (table.slots i).resident.map fun r => (i, r)

/-- Write over a resident. -/
def edit (i : Fin n) (f : R → R) : Table n R where
  slots := Function.update table.slots i
    { table.slots i with resident := (table.slots i).resident.map f }
  ring := table.ring
  nodup := table.nodup
  live := by
    intro j mem
    have live := table.live j mem
    by_cases same : j = i
    · subst same
      simpa using live
    · simpa [same] using live

/-- Schedule a resident behind all others. -/
def link (i : Fin n) : Table n R where
  slots := table.slots
  ring := if (table.slots i).resident.isSome then Cycle.push table.ring i else table.ring
  nodup := by
    split
    · exact Cycle.nodup_push table.nodup
    · exact table.nodup
  live := by
    intro j mem
    split at mem
    · rename_i resides
      rcases Cycle.mem_push.mp mem with mem | rfl
      · exact table.live j mem
      · exact resides
    · exact table.live j mem

def unlink (i : Fin n) : Table n R where
  slots := table.slots
  ring := Cycle.unlink table.ring i
  nodup := Cycle.nodup_unlink table.nodup
  live := fun j mem => table.live j ((Cycle.mem_unlink table.nodup).mp mem).1

/-- Schedule a scheduled resident behind all others. -/
def requeue (i : Fin n) : Table n R := (table.unlink i).link i

/-- The resident whose turn it is goes behind all others. -/
def advance : Table n R where
  slots := table.slots
  ring := (Cycle.next table.ring).2
  nodup := Cycle.nodup_next table.nodup
  live := fun j mem => table.live j (Cycle.mem_next.mp mem)

/-- A resident comes to a vacant position, or takes the place of another under the
generation that the position has from then on. -/
def place (i : Fin n) (generation : Nat) (r : R) : Table n R where
  slots := Function.update table.slots i ⟨generation, some r⟩
  ring := table.ring
  nodup := table.nodup
  live := by
    intro j mem
    by_cases same : j = i
    · subst same
      simp
    · simpa [same] using table.live j mem

def insert (i : Fin n) (r : R) : Table n R := table.place i (table.slots i).generation r

def replace (i : Fin n) (r : R) : Table n R := table.place i ((table.slots i).generation + 1) r

/-- A resident leaves, and its name with it. -/
def discard (i : Fin n) : Table n R where
  slots := Function.update table.slots i ⟨(table.slots i).generation + 1, none⟩
  ring := Cycle.unlink table.ring i
  nodup := Cycle.nodup_unlink table.nodup
  live := by
    intro j mem
    rcases (Cycle.mem_unlink table.nodup).mp mem with ⟨mem, apart⟩
    simpa [apart] using table.live j mem

variable {table} {i j : Fin n} {r : R}

theorem get_some {key : Key n} : table.get key = some r ↔
    (table.slots key.slot).generation = key.generation ∧
      (table.slots key.slot).resident = some r := by
  unfold get
  by_cases same : (table.slots key.slot).generation = key.generation
  · simp [same]
  · simp [same]

theorem get_key (resides : (table.slots i).resident = some r) : table.get (table.key i) = some r :=
  get_some.mpr ⟨rfl, resides⟩

theorem turn_some (first : table.turn = some (i, r)) :
    i ∈ table.ring ∧ (table.slots i).resident = some r := by
  unfold turn at first
  cases head : table.ring.head? with
  | none => simp [head] at first
  | some k =>
    simp only [head, Option.bind_some, Option.map_eq_some_iff, Prod.mk.injEq] at first
    rcases first with ⟨found, resides, rfl, rfl⟩
    exact ⟨List.mem_of_mem_head? head, resides⟩

/-! ## What the operations change -/

@[simp] theorem edit_ring (f : R → R) : (table.edit i f).ring = table.ring := rfl

theorem slots_edit (f : R → R) : (table.edit i f).slots = Function.update table.slots i
    { table.slots i with resident := (table.slots i).resident.map f } := rfl

@[simp] theorem slots_edit_self (f : R → R) : (table.edit i f).slots i =
    ⟨(table.slots i).generation, (table.slots i).resident.map f⟩ := by
  simp [slots_edit]

@[simp] theorem slots_edit_of_ne (f : R → R) (apart : j ≠ i) :
    (table.edit i f).slots j = table.slots j := by
  simp [slots_edit, apart]

@[simp] theorem link_slots : (table.link i).slots = table.slots := rfl

theorem mem_link (resides : (table.slots i).resident = some r) :
    j ∈ (table.link i).ring ↔ j ∈ table.ring ∨ j = i := by
  simp [link, resides, Cycle.mem_push]

@[simp] theorem unlink_slots : (table.unlink i).slots = table.slots := rfl

@[simp] theorem mem_unlink : j ∈ (table.unlink i).ring ↔ j ∈ table.ring ∧ j ≠ i :=
  Cycle.mem_unlink table.nodup

@[simp] theorem requeue_slots : (table.requeue i).slots = table.slots := rfl

theorem mem_requeue (resides : (table.slots i).resident = some r) :
    j ∈ (table.requeue i).ring ↔ j ∈ table.ring ∨ j = i := by
  rw [requeue, mem_link (by simpa using resides), mem_unlink]
  by_cases same : j = i
  · simp [same]
  · simp [same]

@[simp] theorem advance_slots : table.advance.slots = table.slots := rfl

@[simp] theorem mem_advance : j ∈ table.advance.ring ↔ j ∈ table.ring := Cycle.mem_next

@[simp] theorem place_ring (generation : Nat) : (table.place i generation r).ring = table.ring := rfl

@[simp] theorem slots_place_self (generation : Nat) :
    (table.place i generation r).slots i = ⟨generation, some r⟩ := by
  simp [place]

@[simp] theorem slots_place_of_ne (generation : Nat) (apart : j ≠ i) :
    (table.place i generation r).slots j = table.slots j := by
  simp [place, apart]

@[simp] theorem slots_discard_self :
    (table.discard i).slots i = ⟨(table.slots i).generation + 1, none⟩ := by
  simp [discard]

@[simp] theorem slots_discard_of_ne (apart : j ≠ i) :
    (table.discard i).slots j = table.slots j := by
  simp [discard, apart]

/-- A resident that leaves is unlinked on the way. -/
@[simp] theorem discard_unlink : (table.unlink i).discard i = table.discard i := by
  have gone : Cycle.unlink (Cycle.unlink table.ring i) i = Cycle.unlink table.ring i := by
    refine List.erase_of_not_mem ?_
    rw [Cycle.mem_unlink table.nodup]
    exact fun here => here.2 rfl
  simp only [discard, unlink, gone]

@[simp] theorem discard_edit (f : R → R) : (table.edit i f).discard i = table.discard i := by
  simp [discard, edit]

@[simp] theorem mem_discard : j ∈ (table.discard i).ring ↔ j ∈ table.ring ∧ j ≠ i :=
  Cycle.mem_unlink table.nodup

end Table

/-! ## Retries -/

/-- The generation of a resident, and when its retry is due. -/
abbrev Retries (n : Nat) : Type := Fin n → Option (Nat × Nat)

/-- `first` answers with a retry that no other precedes. -/
structure LawfulFirst (first : Retries n → Option (Fin n)) : Prop where
  some_ : ∀ {retries i}, first retries = some i → ∃ generation due,
    retries i = some (generation, due) ∧
      ∀ j generation' due', retries j = some (generation', due') → due ≤ due'
  none_ : ∀ {retries}, first retries = none → ∀ i, retries i = none

/-- The earliest retry, and among equals the one of the lowest position. -/
def least (retries : Retries n) : Option (Fin n) :=
  ((List.finRange n).filter fun i => (retries i).isSome).argmin fun i =>
    ((retries i).map Prod.snd).getD 0

theorem least_lawful : LawfulFirst (least (n := n)) where
  some_ {retries i} found := by
    have mem := List.argmin_mem found
    have waits : (retries i).isSome = true := (List.mem_filter.mp mem).2
    rcases Option.isSome_iff_exists.mp waits with ⟨⟨generation, due⟩, retry⟩
    refine ⟨generation, due, retry, ?_⟩
    intro j generation' due' other
    have later : j ∈ (List.finRange n).filter fun i => (retries i).isSome := by
      simp [other]
    have le := List.le_of_mem_argmin later found
    simpa [retry, other] using le
  none_ {retries} missing := by
    intro i
    have empty := List.argmin_eq_none.mp missing
    by_contra waits
    have mem : i ∈ (List.finRange n).filter fun i => (retries i).isSome := by
      simp [Option.isSome_iff_ne_none, waits]
    rw [empty] at mem
    cases mem

end Dope.Round
