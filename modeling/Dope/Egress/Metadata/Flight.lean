import Dope.Egress.Metadata.Front

/-! # Flights

Model of `prepare` and `reserve` in `queue/flight`, of the visit in `metadata`, and of
`progress::State::scatter`: what a lane has left to send is gathered from its front into
one message, until the descriptors, the bytes or the entries run out.
-/

namespace Dope.Egress.Metadata

open Wait Run

/-- How payloads are gathered: at most `iov` descriptors and `limit` bytes for a message,
and from an offset on the bytes of a payload that are one chunk of its cursor. -/
structure Gather (T : Type) where
  iov : Nat
  limit : Nat
  chunk : NonEmpty T → Nat → Nat
  iov_pos : 0 < iov
  limit_pos : 0 < limit
  chunk_pos : ∀ load offset, offset < load.len → 0 < chunk load offset
  chunk_le : ∀ load offset, offset < load.len → offset + chunk load offset ≤ load.len

/-- A descriptor, of the bytes of a payload from `start` on. -/
structure Iovec (T : Type) where
  load : NonEmpty T
  start : Nat
  len : Nat

inductive Reservation (T : Type) where
  | empty
  | active
  | unavailable
  | ready (iovecs : List (Iovec T)) (bytes : Nat)

namespace Gather

variable {T : Type} (gather : Gather T)

/-- The next chunk of a payload, within the bytes that are left. -/
def scatter (load : NonEmpty T) (offset left : Nat) : Option Nat :=
  if left = 0 ∨ load.len ≤ offset then none else some (min (gather.chunk load offset) left)

/-- The descriptors of one entry, with the vacancies and the bytes that are left, and
whether the visit goes on. -/
def fill (load : NonEmpty T) : Nat → Nat → Nat → List (Iovec T) × Nat × Nat × Bool
  | 0, _, left => ([], 0, left, false)
  | vacant + 1, offset, left =>
      match gather.scatter load offset left with
      | none => ([], vacant + 1, left, left != 0)
      | some count =>
          let (iovecs, rest) := fill load vacant (offset + count) (left - count)
          (⟨load, offset, count⟩ :: iovecs, rest)

/-- The descriptors of the entries from a slot on, and the bytes that are left. -/
def visit (slab : Slab T) :
    Nat → Option Nat → Nat → Nat → Except Fault (List (Iovec T) × Nat)
  | _, none, _, left => .ok ([], left)
  | 0, some _, _, _ => .error .walk
  | fuel + 1, some slot, vacant, left =>
      match (slab.cells slot).value, (slab.cells slot).entry with
      | some load, some stored =>
          let (iovecs, vacant, left, more) :=
            gather.fill load vacant (load.len - stored.bytes) left
          if more then do
            let (rest, left) ← visit slab fuel (slab.next slot) vacant left
            .ok (iovecs ++ rest, left)
          else .ok (iovecs, left)
      | _, _ => .error .uninit

/-- Every turn of the visit but the last one takes a descriptor. A buffer of
descriptors may not be free. -/
def reserve {credit : HeldCredit} {n : Nat} {access : Access credit n} (pool : Pool access T)
    (lane : Fin n) (active free : Bool) : Except Fault (Reservation T) :=
  match (pool.links lane).head with
  | none => .ok .empty
  | some front =>
      if active then .ok .active
      else if !free then .ok .unavailable
      else do
        let (iovecs, left) ←
          gather.visit pool.slab (gather.iov + 1) (some front) gather.iov gather.limit
        .ok (.ready iovecs (gather.limit - left))

end Gather

/-! ## Descriptors of unsent bytes -/

section
variable {T : Type} {gather : Gather T} {load : NonEmpty T} {vacant offset left : Nat}

def Iovec.bytes (iovec : Iovec T) : List (NonEmpty T × Nat) :=
  (iovec.load.bytes.drop iovec.start).take iovec.len

/-- `count` bytes are described, of those that are to be sent. -/
structure Describes (iovecs : List (Iovec T)) (bytes : List (NonEmpty T × Nat)) (count : Nat) :
    Prop where
  spells : iovecs.flatMap Iovec.bytes = bytes.take count
  within : count ≤ bytes.length

theorem NonEmpty.length_bytes (load : NonEmpty T) : load.bytes.length = load.len := by
  unfold bytes
  rw [List.length_map, List.length_range]

theorem Gather.scatter_some {count : Nat} (h : gather.scatter load offset left = some count) :
    0 < count ∧ count ≤ left ∧ offset + count ≤ load.len := by
  unfold scatter at h
  split at h
  · cases h
  · rename_i more
    cases h
    have pos := gather.chunk_pos load offset (by omega)
    have le := gather.chunk_le load offset (by omega)
    omega

/-- What comes of one entry. The visit goes on only after the whole of it. -/
structure Fills (load : NonEmpty T) (vacant offset left : Nat)
    (out : List (Iovec T) × Nat × Nat × Bool) (count : Nat) : Prop where
  budget : out.2.2.1 + count = left
  describes : Describes out.1 (load.bytes.drop offset) count
  room : out.1.length + out.2.1 = vacant
  taken : 0 < count → out.2.1 < vacant
  whole : out.2.2.2 = true → offset + count = load.len ∧ 0 < out.2.2.1
  some : 0 < vacant → 0 < left → offset < load.len → 0 < count

theorem Gather.fill_spec (gather : Gather T) (load : NonEmpty T) (inside : offset ≤ load.len) :
    ∃ count, Fills load vacant offset left (gather.fill load vacant offset left) count := by
  induction vacant generalizing offset left with
  | zero => exact ⟨0, rfl, ⟨rfl, Nat.zero_le _⟩, rfl, nofun, nofun, nofun⟩
  | succ vacant ih =>
    unfold fill
    cases scattered : gather.scatter load offset left with
    | none =>
      have ended : left = 0 ∨ load.len ≤ offset := by
        unfold scatter at scattered
        split at scattered
        · assumption
        · cases scattered
      refine ⟨0, rfl, ⟨rfl, Nat.zero_le _⟩, Nat.zero_add _, nofun, ?_, ?_⟩
      · intro more
        have some : left ≠ 0 := by simpa using more
        dsimp only
        omega
      · intro _ some before
        omega
    | some chunk =>
      obtain ⟨pos, within, short⟩ := scatter_some scattered
      obtain ⟨count, fills⟩ := @ih (offset + chunk) (left - chunk) short
      have rest := fills.describes
      have length := rest.within
      rw [List.length_drop, load.length_bytes] at length
      refine ⟨chunk + count, ?_, ⟨?_, ?_⟩, ?_, ?_, ?_, ?_⟩
      · have := fills.budget
        dsimp only
        omega
      · refine (List.flatMap_cons ..).trans ?_
        rw [rest.spells, List.take_add, List.drop_drop]
        rfl
      · rw [List.length_drop, load.length_bytes]
        omega
      · have := fills.room
        dsimp only
        rw [List.length_cons]
        omega
      · intro _
        have := fills.room
        dsimp only
        omega
      · intro more
        have := fills.whole more
        dsimp only
        omega
      · intro _ _ _
        omega

variable {slab : Slab T} {xs : List (Placed T)} {slot : Option Nat}

theorem Gather.visit_spec (gather : Gather T) {fuel : Nat}
    (threads : Stack.Threads slab.next slot (nodes xs)) (has : ∀ placed ∈ xs, slab.Has placed)
    (unsent : ∀ placed ∈ xs, placed.Unsent) (enough : vacant < fuel) :
    ∃ iovecs left' count, gather.visit slab fuel slot vacant left = .ok (iovecs, left') ∧
      left' + count = left ∧ Describes iovecs (stream xs) count ∧ iovecs.length ≤ vacant ∧
      (xs ≠ [] → 0 < vacant → 0 < left → 0 < count) := by
  induction xs generalizing fuel slot vacant left with
  | nil =>
    cases threads
    refine ⟨[], left, 0, ?_, rfl, ⟨rfl, Nat.le_refl _⟩, Nat.zero_le _, fun no => absurd rfl no⟩
    unfold visit
    rfl
  | cons placed xs ih =>
    obtain ⟨rfl, rest⟩ := threads
    have here := has placed List.mem_cons_self
    have own := unsent placed List.mem_cons_self
    have pos := own.pos
    have le := own.le
    cases fuel with
    | zero => omega
    | succ fuel =>
      obtain ⟨count, fills⟩ := @gather.fill_spec _ vacant (placed.load.len - placed.stored.bytes)
        left placed.load (Nat.sub_le ..)
      unfold visit
      rw [here.value, here.entry]
      dsimp only
      generalize gather.fill placed.load vacant (placed.load.len - placed.stored.bytes) left = out
        at fills
      rcases out with ⟨iovecs, vacant', left', more⟩
      have spent := fills.budget
      have room := fills.room
      have some := fills.some
      have described := fills.describes
      dsimp only at spent room some described ⊢
      have whole : (stream (placed :: xs)).length = placed.stored.bytes + (stream xs).length := by
        unfold stream
        rw [List.flatMap_cons, List.length_append, own.length]
      have short := described.within
      rw [List.length_drop, placed.load.length_bytes] at short
      cases more with
      | false =>
        refine ⟨iovecs, left', count, rfl, spent, ⟨?_, by omega⟩, by omega, ?_⟩
        · rw [described.spells]
          unfold stream
          rw [List.flatMap_cons, List.take_append_of_le_length (by rw [own.length]; omega)]
          rfl
        · intro _ vacancy budget
          exact some vacancy budget (by omega)
      | true =>
        have all := fills.whole rfl
        have used := fills.taken
        dsimp only at all used
        obtain ⟨others, left'', count', ran, spent', described', room', -⟩ := @ih vacant' left' _
          fuel rest (fun other member => has other (List.mem_cons_of_mem _ member))
          (fun other member => unsent other (List.mem_cons_of_mem _ member)) (by omega)
        rw [if_pos rfl, ran]
        have further := described'.within
        refine ⟨iovecs ++ others, left'', count + count', rfl, by omega, ⟨?_, by omega⟩, ?_, ?_⟩
        · have full : count = placed.unsent.length := by
            rw [own.length]
            omega
          rw [List.flatMap_append, described.spells, described'.spells]
          unfold stream
          rw [List.flatMap_cons, full, List.take_length_add_append]
          congr 1
          exact List.take_length
        · rw [List.length_append]
          omega
        · intro _ _ _
          omega

end

/-- A flight describes the first bytes that a lane has left to send. -/
theorem Gather.reserve_spec {T : Type} (gather : Gather T) {credit : HeldCredit} {n : Nat}
    {access : Access credit n} {pool : Pool access T} {lane : Fin n} {xs : List (Placed T)}
    (chain : Chain pool.slab (pool.links lane) xs) (unsent : ∀ placed ∈ xs, placed.Unsent)
    (active free : Bool) :
    ∃ reservation, gather.reserve pool lane active free = .ok reservation ∧
      ∀ iovecs bytes, reservation = .ready iovecs bytes →
        Describes iovecs (stream xs) bytes ∧ 0 < bytes ∧ bytes ≤ gather.limit ∧
          iovecs.length ≤ gather.iov := by
  unfold reserve
  cases front : (pool.links lane).head with
  | none => exact ⟨.empty, rfl, nofun⟩
  | some front =>
    dsimp only
    cases active with
    | true => exact ⟨.active, rfl, nofun⟩
    | false =>
      cases free with
      | false => exact ⟨.unavailable, rfl, nofun⟩
      | true =>
        have threads := chain.threads
        rw [front] at threads
        have some : xs ≠ [] := by
          rintro rfl
          cases threads
        obtain ⟨iovecs, left, count, ran, spent, described, room, pos⟩ :=
          @gather.visit_spec _ gather.iov gather.limit _ _ _ _ threads chain.has unsent
            (Nat.lt_succ_self _)
        rw [if_neg Bool.false_ne_true, if_neg (by simp), ran]
        refine ⟨_, rfl, ?_⟩
        rintro _ _ ⟨⟩
        have same : gather.limit - left = count := by omega
        rw [same]
        exact ⟨described, pos some gather.iov_pos gather.limit_pos, by omega, room⟩

end Dope.Egress.Metadata
