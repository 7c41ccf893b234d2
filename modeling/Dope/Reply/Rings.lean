import Dope.Base.Tally
import Dope.Reply.Book

/-! # What the rings and the accounts agree on

The reserve ring holds the active lanes below their reserve, and a lane holds
one unit of credit for each of its entries.
-/

namespace Dope.Reply

open Run Tally

/-! ## Rings -/

namespace Queues

variable {n : Nat} {queues : Queues n} {N K : Fin 2} {member other : Fin n}

/-- No lane is twice in a ring. -/
def Nodup (queues : Queues n) : Prop := ∀ N, (queues.heads N).Nodup

theorem mem_setHead {ring : List (Fin n)} (same : ∀ other, other ∈ ring ↔ other ∈ queues.heads N) :
    other ∈ (queues.setHead N ring).heads K ↔ other ∈ queues.heads K := by
  by_cases here : K = N
  · subst here
    simpa [setHead] using same other
  · simp [setHead, here]

theorem Nodup.setHead {ring : List (Fin n)} (nodup : queues.Nodup) (fresh : ring.Nodup) :
    (queues.setHead N ring).Nodup := by
  intro K
  by_cases here : K = N
  · subst here
    simpa [Queues.setHead] using fresh
  · simpa [Queues.setHead, here] using nodup K

theorem mem_insert : other ∈ (queues.insert N member).2.heads K ↔
    other ∈ queues.heads K ∨ (K = N ∧ other = member) := by
  by_cases linked : member ∈ queues.heads N
  · have run : (queues.insert N member).2 = queues := by simp [insert, isLinked, linked]
    rw [run]
    constructor
    · exact Or.inl
    · rintro (mem | ⟨rfl, rfl⟩)
      · exact mem
      · exact linked
  · have run : (queues.insert N member).2 =
        queues.setHead N (Cycle.push (queues.heads N) member) := by
      simp [insert, isLinked, linked]
    rw [run]
    by_cases here : K = N
    · subst here
      simpa [setHead] using Cycle.mem_push
    · simp [setHead, here]

theorem insert_fst : (queues.insert N member).1 = true ↔ member ∉ queues.heads N := by
  by_cases linked : member ∈ queues.heads N <;> simp [insert, isLinked, linked]

theorem Nodup.insert (nodup : queues.Nodup) : (queues.insert N member).2.Nodup := by
  by_cases linked : member ∈ queues.heads N
  · simpa [Queues.insert, isLinked, linked] using nodup
  · simpa [Queues.insert, isLinked, linked] using nodup.setHead (Cycle.nodup_push (nodup N))

theorem mem_remove (nodup : queues.Nodup) : other ∈ (queues.remove N member).heads K ↔
    other ∈ queues.heads K ∧ ¬(K = N ∧ other = member) := by
  by_cases linked : member ∈ queues.heads N
  · have run : queues.remove N member =
        queues.setHead N (Cycle.unlink (queues.heads N) member) := by
      simp [remove, isLinked, linked]
    rw [run]
    by_cases here : K = N
    · subst here
      simpa [setHead] using Cycle.mem_unlink (nodup K)
    · simp [setHead, here]
  · have run : queues.remove N member = queues := by simp [remove, isLinked, linked]
    rw [run]
    constructor
    · intro mem
      refine ⟨mem, ?_⟩
      rintro ⟨rfl, rfl⟩
      exact linked mem
    · exact And.left

theorem Nodup.remove (nodup : queues.Nodup) : (queues.remove N member).Nodup := by
  by_cases linked : member ∈ queues.heads N
  · simpa [Queues.remove, isLinked, linked] using nodup.setHead (Cycle.nodup_unlink (nodup N))
  · simpa [Queues.remove, isLinked, linked] using nodup

theorem mem_next : other ∈ (queues.next N).2.heads K ↔ other ∈ queues.heads K :=
  mem_setHead fun _ => Cycle.mem_next

theorem Nodup.next (nodup : queues.Nodup) : (queues.next N).2.Nodup :=
  nodup.setHead (Cycle.nodup_next (nodup N))

end Queues

/-- The reserve ring holds the active lanes below their reserve. -/
structure Tracks {credit : FairCredit} {n : Nat} (order : Queues n) (pool : Pool credit n) :
    Prop where
  nodup : order.Nodup
  reserved : ∀ lane, lane ∈ order.heads 1 ↔
    lane ∈ order.heads 0 ∧ pool.held lane < pool.reserve lane

/-! ## Accounts -/

/-- `lane` holds `owed` units beyond its entries, and every other lane one for each. -/
structure Counts {credit : FairCredit} {n m : Nat} (slots : Fin m → Option (Entry n))
    (pool : Pool credit n) (lane : Fin n) (owed : Nat) : Prop where
  held : ∀ other, pool.held other =
    tally (fun entry => entry.lane = other) slots + if other = lane then owed else 0
  entries : pool.entries = tally (fun _ => True) slots + owed

namespace Counts

variable {credit : FairCredit} {n m : Nat} {slots : Fin m → Option (Entry n)}
  {pool pool' : Pool credit n} {lane : Fin n} {owed : Nat}

theorem settled (counts : Counts slots pool lane 0) (other : Fin n) :
    Counts slots pool other 0 where
  held third := by simpa using counts.held third
  entries := counts.entries

theorem register {request : Nat} (counts : Counts slots pool lane 0)
    (moves : pool.Moves lane pool' (pool.held lane + request))
    (entries : pool'.entries = pool.entries + request) : Counts slots pool' lane request where
  held other := by
    by_cases same : other = lane
    · subst same
      rw [moves.held, counts.held]
      simp
    · rw [moves.others other same, counts.held]
      simp [same]
  entries := by rw [entries, counts.entries]; omega

theorem place {vacant : Fin m} {body : Body} (counts : Counts slots pool lane (owed + 1))
    (free : slots vacant = none) :
    Counts (Function.update slots vacant (some ⟨lane, body⟩)) pool lane owed where
  held other := by
    rw [counts.held, tally_place free]
    by_cases same : other = lane
    · subst same
      simp
      omega
    · have apart : ¬ lane = other := fun eq => same eq.symm
      simp [same, apart]
  entries := by
    rw [counts.entries, tally_place free]
    simp
    omega

theorem change {index : Fin m} {body body' : Body} (counts : Counts slots pool lane owed)
    {owner : Fin n} (entry : slots index = some ⟨owner, body⟩) :
    Counts (Function.update slots index (some ⟨owner, body'⟩)) pool lane owed where
  held other := by
    rw [counts.held, tally_change entry]
    exact Iff.rfl
  entries := by
    rw [counts.entries, tally_change entry]
    exact Iff.rfl

/-- An entry leaves, and its lane owes one unit less than it holds. -/
theorem clear {index : Fin m} {body : Body} (counts : Counts slots pool lane 0)
    (entry : slots index = some ⟨lane, body⟩) :
    Counts (Function.update slots index none) pool lane 1 where
  held other := by
    rw [counts.held, tally_clear entry]
    by_cases same : other = lane
    · simp [same]
    · have apart : ¬ lane = other := fun eq => same eq.symm
      simp [same, apart]
  entries := by
    rw [counts.entries, tally_clear entry]
    simp

theorem release (counts : Counts slots pool lane 1)
    (moves : pool.Moves lane pool' (pool.held lane - 1))
    (entries : pool'.entries = pool.entries - 1) : Counts slots pool' lane 0 where
  held other := by
    by_cases same : other = lane
    · subst same
      rw [moves.held, counts.held]
      simp
    · rw [moves.others other same, counts.held]
      simp [same]
  entries := by rw [entries, counts.entries]; omega

end Counts

/-- What holds between two operations. -/
structure Arena.Inv {credit : FairCredit} {n m : Nat} (arena : Arena credit n m) : Prop where
  rings : Tracks arena.order arena.pool
  counts : ∀ lane, Counts arena.slots arena.pool lane 0

end Dope.Reply
