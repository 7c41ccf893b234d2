import Dope.Egress.Metadata.Publishes

/-! # Fronts of lanes

Model of `metadata/front`, of `metadata/head`, and of what an acknowledgement in
`queue/flight` takes off a lane: whole entries from the front, and the rest of the
bytes off the entry after them.
-/

namespace Dope.Egress.Metadata

open Wait Function Run Share

namespace Pool

variable {credit : HeldCredit} {n : Nat} {access : Access credit n} {T : Type}
  (pool : Pool access T) (lane : Fin n)

/-- `front::take`: the front leaves, its node is vacant again and its credit goes back. -/
def take : Except Fault (Option (NonEmpty T) × Pool access T) :=
  match (pool.links lane).head with
  | none => .ok (none, pool)
  | some slot => do
      let (next, value, stored, slab) ← pool.slab.detach slot
      let links := update pool.links lane ((pool.links lane).pop next)
      .ok (some value,
        ({ pool with slab := slab.recycle slot, links } : Pool access T).release lane stored.amount)

/-- `Stored::consume`, when it leaves bytes to send. -/
def consumeFront (slot : Nat) (stored : Stored) (bytes : Nat) : Pool access T :=
  let entry := some { stored with bytes := stored.bytes - bytes }
  { pool with slab := pool.slab.setCell slot { pool.slab.cells slot with entry } }

/-- The loop of `Released::consume`, with the values it releases. -/
def consume : Nat → Nat → Pool access T → Except Fault (List (NonEmpty T) × Pool access T)
  | 0, _, _ => .error .walk
  | fuel + 1, bytes, pool =>
      match (pool.links lane).head with
      | none => .ok ([], pool)
      | some slot =>
          match (pool.slab.cells slot).entry with
          | none => .error .uninit
          | some stored =>
              if bytes < stored.bytes then .ok ([], pool.consumeFront slot stored bytes)
              else do
                let (value, pool) ← pool.take lane
                if bytes = stored.bytes then .ok (value.toList, pool)
                else
                  let (values, pool) ← consume fuel (bytes - stored.bytes) pool
                  .ok (value.toList ++ values, pool)

/-- Every turn of the loop but the last one takes a byte at least. -/
def complete (bytes : Nat) : Except Fault (List (NonEmpty T) × Pool access T) :=
  if bytes = 0 then .ok ([], pool) else consume lane bytes bytes pool

end Pool

/-! ## Unsent bytes -/

section
variable {T : Type} {placed : Placed T} {xs ys : List (Placed T)} {count : Nat}

/-- The bytes of a payload, each by its position. -/
def NonEmpty.bytes (load : NonEmpty T) : List (NonEmpty T × Nat) :=
  (List.range load.len).map (Prod.mk load)

/-- The bytes of an entry that are not acknowledged. -/
def Placed.unsent (placed : Placed T) : List (NonEmpty T × Nat) :=
  placed.load.bytes.drop (placed.load.len - placed.stored.bytes)

def stream (xs : List (Placed T)) : List (NonEmpty T × Nat) := xs.flatMap Placed.unsent

/-- An entry has bytes left, and no more than its payload. -/
structure Placed.Unsent (placed : Placed T) : Prop where
  pos : 0 < placed.stored.bytes
  le : placed.stored.bytes ≤ placed.load.len

theorem Placed.Fresh.unsent (fresh : placed.Fresh) : placed.Unsent := by
  unfold Placed.Fresh at fresh
  constructor
  · rw [fresh]
    exact placed.load.pos
  · rw [fresh]

theorem stream_fresh (fresh : ∀ placed ∈ ys, placed.Fresh) :
    stream ys = (ys.map Placed.load).flatMap NonEmpty.bytes := by
  unfold stream
  rw [List.flatMap_map]
  apply List.flatMap_congr
  intro placed member
  unfold Placed.unsent
  rw [fresh placed member, Nat.sub_self, List.drop_zero]

theorem Placed.Unsent.length (unsent : placed.Unsent) :
    placed.unsent.length = placed.stored.bytes := by
  unfold Placed.unsent NonEmpty.bytes
  rw [List.length_drop, List.length_map, List.length_range]
  exact Nat.sub_sub_self unsent.le

theorem stream_drop_part (unsent : placed.Unsent) (less : count < placed.stored.bytes) :
    stream ({ placed with stored := { placed.stored with bytes := placed.stored.bytes - count } } ::
      xs) = (stream (placed :: xs)).drop count := by
  have le := unsent.le
  have short : count ≤ placed.unsent.length := by
    rw [unsent.length]
    exact less.le
  have further : placed.load.len - (placed.stored.bytes - count) =
      placed.load.len - placed.stored.bytes + count := by omega
  unfold stream
  rw [List.flatMap_cons, List.flatMap_cons, List.drop_append_of_le_length short]
  congr 1
  unfold Placed.unsent
  rw [List.drop_drop, further]

theorem stream_drop_whole (unsent : placed.Unsent) (whole : placed.stored.bytes ≤ count) :
    (stream xs).drop (count - placed.stored.bytes) = (stream (placed :: xs)).drop count := by
  rw [← unsent.length] at whole ⊢
  unfold stream
  rw [List.flatMap_cons, List.drop_append, List.drop_of_length_le whole, List.nil_append]

end

/-! ## The front of a chain -/

section
variable {T : Type} {n : Nat} {slab : Slab T} {links : Fin n → Ends} {free : List Nat}
  {chains : Fin n → List (Placed T)} {lane : Fin n} {placed : Placed T} {xs : List (Placed T)}

/-- Only one chain and the held nodes change. -/
theorem parts_others {held held' : List Nat} {place : Place n} (notHeld : place ≠ .held)
    (apart : place ≠ .lane lane) :
    parts free held' (update chains lane xs) place = parts free held chains place := by
  cases place with
  | free => rfl
  | held => exact absurd rfl notHeld
  | lane l =>
    have differ : l ≠ lane := by
      rintro rfl
      exact apart rfl
    unfold parts
    dsimp only
    rw [update_of_ne differ]

theorem Formed.pop (formed : Formed slab links free [] chains) (front : chains lane = placed :: xs) :
    Formed slab (update links lane ((links lane).pop (slab.next placed.node))) free [placed.node]
      (update chains lane xs) where
  vacant := formed.vacant
  lanes l := by
    by_cases here : l = lane
    · subst here
      rw [update_self, update_self]
      have chain := formed.lanes l
      rw [front] at chain
      exact chain.pop
    · rw [update_of_ne here, update_of_ne here]
      exact formed.lanes l
  shares := by
    apply @Shares.exchange _ _ _ _ _ _ _ .held (.lane lane) formed.shares (by simp)
    · exact fun place => parts_others
    · unfold parts
      dsimp only
      rw [update_self, front]
      exact .refl _

/-- What the front has left to send may change. -/
theorem Formed.restore (formed : Formed slab links free [] chains)
    (front : chains lane = placed :: xs) (stored : Stored) :
    Formed (slab.setCell placed.node { slab.cells placed.node with entry := some stored }) links
      free [] (update chains lane ({ placed with stored } :: xs)) := by
  have member : placed.node ∈ nodes (chains lane) := by
    rw [front]
    exact List.mem_cons_self
  have next : (slab.setCell placed.node
      { slab.cells placed.node with entry := some stored }).next = slab.next := by
    rw [next_setCell]
    exact update_eq_self ..
  have same : parts free [] (update chains lane ({ placed with stored } :: xs)) =
      parts free [] chains := by
    funext place
    by_cases here : place = .lane lane
    · subst here
      unfold parts
      dsimp only
      rw [update_self, front]
      rfl
    · cases place with
      | held | free => rfl
      | lane l => exact parts_others (by simp) here
  refine ⟨?_, ?_, ?_⟩
  · rw [next]
    exact formed.vacant
  · intro l
    by_cases here : l = lane
    · subst here
      have chain := formed.lanes l
      have nodup := formed.nodup_chain l
      rw [front] at chain nodup
      rw [update_self]
      refine ⟨?_, chain.tail, ?_⟩
      · rw [next]
        exact chain.threads
      · intro other inside
        rcases List.mem_cons.mp inside with rfl | inside
        · have has := chain.has placed List.mem_cons_self
          refine ⟨?_, ?_, ?_⟩
          · exact (congrArg Cell.value (setCell_self _)).trans has.value
          · exact congrArg Cell.entry (setCell_self _)
          · exact (congrArg Cell.occupied (setCell_self _)).trans has.occupied
        · apply (chain.has other (List.mem_cons_of_mem _ inside)).of_cell
          apply setCell_of_ne
          intro same
          exact (List.nodup_cons.mp nodup).1 (same ▸ mem_nodes inside)
    · rw [update_of_ne here]
      apply (formed.lanes l).frame
      intro k chained
      apply setCell_of_ne
      rintro rfl
      exact formed.chain_out_chain here chained member
  · rw [same]
    exact formed.shares

theorem Pool.take_spec {credit : HeldCredit} {access : Access credit n} {pool : Pool access T}
    (formed : Formed pool.slab pool.links free [] chains) (front : chains lane = placed :: xs) :
    ∃ pool', pool.take lane = .ok (some placed.load, pool') ∧
      Formed pool'.slab pool'.links (placed.node :: free) [] (update chains lane xs) ∧
      pool'.account = pool.account.release lane placed.stored.amount := by
  have chain := formed.lanes lane
  rw [front] at chain
  have has := chain.has placed List.mem_cons_self
  unfold Pool.take
  rw [chain.head_cons]
  unfold Slab.detach
  dsimp only
  rw [has.value, has.entry]
  refine ⟨_, rfl, ?_, rfl⟩
  let cell : Cell T :=
    { pool.slab.cells placed.node with value := none, entry := none, occupied := false }
  have kept : Formed (pool.slab.setCell placed.node cell)
      (update pool.links lane ((pool.links lane).pop (pool.slab.next placed.node))) free
      [placed.node] (update chains lane xs) := by
    apply (formed.pop front).frame
    · rfl
    · rfl
    · intro k outside
      apply setCell_of_ne
      rintro rfl
      exact outside List.mem_cons_self
  exact kept.recycle (List.Perm.refl _)

end

end Dope.Egress.Metadata
