import Dope.Egress.Metadata.Demand
import Dope.Egress.Metadata.Flight

/-! # Runs of a metadata pool

Entries are published one by one, in pairs and in batches, are gathered into flights, and
leave from the front as their bytes are acknowledged. Between two inputs no node is held:
every node is vacant or on one lane, and all credit is shared, reserved or held by an
entry.
-/

namespace Dope.Egress.Metadata

open Wait Function Run

/-! ## Balanced credit -/

inductive Axis where
  | entries
  | resident

namespace Axis

def of : Axis → Amount → Nat
  | entries, amount => amount.entries
  | resident, amount => amount.resident

variable (axis : Axis) (a b : Amount)

theorem of_add : axis.of (a + b) = axis.of a + axis.of b := by
  cases axis <;> rfl

theorem of_sub : axis.of (a - b) = axis.of a - axis.of b := by
  cases axis <;> rfl

theorem of_min : axis.of (min a b) = min (axis.of a) (axis.of b) := by
  cases axis <;> rfl

theorem of_le {a b : Amount} (le : a ≤ b) : axis.of a ≤ axis.of b := by
  cases axis with
  | entries => exact le.1
  | resident => exact le.2

end Axis

section
variable {credit : HeldCredit} {n : Nat} {config : Config} {account : Account credit n}
  {lane : Fin n} {a : Amount}

/-- One term of a sum changes. -/
theorem sum_change {f g : Fin n → Nat} (others : ∀ l, l ≠ lane → f l = g l) :
    ∑ l, f l + g lane = ∑ l, g l + f lane := by
  have inside := Finset.mem_univ lane
  have same : ∑ l ∈ Finset.univ.erase lane, f l = ∑ l ∈ Finset.univ.erase lane, g l :=
    Finset.sum_congr rfl fun l member => others l (Finset.ne_of_mem_erase member)
  rw [← Finset.add_sum_erase _ f inside, ← Finset.add_sum_erase _ g inside, same]
  omega

/-- Lanes hold or reserve what is not shared. -/
structure Balanced (config : Config) (account : Account credit n) : Prop where
  reserve : account.Shared config
  whole : ∀ axis : Axis, axis.of account.shared +
    ∑ l, max (axis.of (account.held l)) (axis.of (account.reserve l)) = axis.of config.total

namespace Balanced

theorem new (some : 0 < n) : Balanced config (Account.new credit n config) := by
  refine ⟨.new, ?_⟩
  intro axis
  have each : ∀ l, max (axis.of ((Account.new credit n config).held l))
      (axis.of ((Account.new credit n config).reserve l)) =
      dealt (axis.of config.reserved) n l := by
    intro l
    have held : (Account.new credit n config).held l = Amount.zero := credit.new_held _
    have reserve : (Account.new credit n config).reserve l = reserveOf config n l :=
      credit.new_reserve _
    rw [held, reserve]
    cases axis <;> exact Nat.zero_max _
  rw [Finset.sum_congr rfl fun l _ => each l, sum_dealt _ some, config.total_eq, axis.of_add]
  rfl

/-- One lane exchanges credit with what is shared. -/
theorem exchange (balanced : Balanced config account) {account' : Account credit n}
    (reserve : account'.Shared config) (others : ∀ l, l ≠ lane → account'.lanes l = account.lanes l)
    (own : ∀ axis : Axis, axis.of account'.shared +
        max (axis.of (account'.held lane)) (axis.of (account'.reserve lane)) =
      axis.of account.shared +
        max (axis.of (account.held lane)) (axis.of (account.reserve lane))) :
    Balanced config account' := by
  refine ⟨reserve, ?_⟩
  intro axis
  have whole := balanced.whole axis
  have same := own axis
  have moved := @sum_change n lane
    (fun l => max (axis.of (account'.held l)) (axis.of (account'.reserve l)))
    (fun l => max (axis.of (account.held l)) (axis.of (account.reserve l))) (by
      intro l differ
      unfold Account.held Account.reserve
      rw [others l differ])
  omega

theorem acquire (balanced : Balanced config account)
    (covered : account.demand lane a ≤ account.shared) :
    Balanced config (account.acquire lane a) := by
  apply balanced.exchange (balanced.reserve.acquire lane a)
  · exact fun l => account.acquire_others lane
  · intro axis
    have enough := axis.of_le covered
    unfold Account.demand at enough
    rw [axis.of_sub, axis.of_sub] at enough
    rw [Account.acquire_shared, Account.acquire_held, Account.acquire_reserve, Account.demand,
      axis.of_sub, axis.of_sub, axis.of_sub, axis.of_add]
    omega

theorem release (balanced : Balanced config account) (within : a ≤ account.held lane) :
    Balanced config (account.release lane a) := by
  apply balanced.exchange (balanced.reserve.release lane a)
  · exact fun l => account.release_others lane
  · intro axis
    have least := axis.of_le within
    rw [Account.release_shared _ _ within, Account.release_held _ _ within,
      Account.release_reserve, axis.of_add, axis.of_min, axis.of_sub, axis.of_sub]
    omega

theorem held_le (balanced : Balanced config account) :
    ∑ l, (account.held l).entries ≤ config.entries := by
  have whole := balanced.whole .entries
  have least : ∑ l, (account.held l).entries ≤
      ∑ l, max (Axis.entries.of (account.held l)) (Axis.entries.of (account.reserve l)) :=
    Finset.sum_le_sum fun l _ => Nat.le_max_left ..
  exact (least.trans (Nat.le_add_left ..)).trans whole.le

end Balanced

/-! ## Between two inputs -/

variable {access : Access credit n} {T : Type} {pool pool' : Pool access T} {free : List Nat}
  {chains : Fin n → List (Placed T)} {placed : Placed T} {xs ys : List (Placed T)} {bytes : Nat}

/-- What holds while no node is held. -/
structure Pool.Sound (config : Config) (pool : Pool access T) (free : List Nat)
    (chains : Fin n → List (Placed T)) : Prop where
  formed : Formed pool.slab pool.links free [] chains
  held : ∀ l, pool.account.held l = charged (chains l)
  balanced : Balanced config pool.account
  count : free.length + ∑ l, (chains l).length = config.entries
  unsent : ∀ l, ∀ placed ∈ chains l, placed.Unsent

namespace Pool.Sound

/-- Covered credit always finds its nodes. -/
theorem room (sound : pool.Sound config free chains)
    (covered : pool.account.demand lane a ≤ pool.account.shared) : a.entries ≤ free.length := by
  have least := (sound.balanced.acquire covered).held_le
  have moved := @sum_change n lane
    (fun l => ((pool.account.acquire lane a).held l).entries)
    (fun l => (chains l).length) (by
      intro l differ
      rw [Account.held, Account.acquire_others _ _ differ]
      exact congrArg Amount.entries (sound.held l))
  have count := sound.count
  rw [Account.acquire_held, sound.held, Amount.add_entries] at moved
  unfold charged at moved
  dsimp only at moved
  omega

/-- The chain of one lane changes, with the credit that its entries hold. -/
theorem exchange (sound : pool.Sound config free chains) {rest : List Nat}
    (formed : Formed pool'.slab pool'.links rest [] (update chains lane xs))
    (others : ∀ l, l ≠ lane → pool'.account.lanes l = pool.account.lanes l)
    (held : pool'.account.held lane = charged xs) (balanced : Balanced config pool'.account)
    (count : rest.length + xs.length = free.length + (chains lane).length)
    (unsent : ∀ placed ∈ xs, placed.Unsent) : pool'.Sound config rest (update chains lane xs) := by
  refine ⟨formed, ?_, balanced, ?_, ?_⟩
  · apply (forall_update_iff chains fun l xs => pool'.account.held l = charged xs).mpr
    refine ⟨held, ?_⟩
    intro l differ
    rw [← sound.held, Account.held, others l differ]
    rfl
  · have moved := @sum_change n lane (fun l => (update chains lane xs l).length)
      (fun l => (chains l).length) (by
        intro l differ
        rw [update_of_ne differ])
    have whole := sound.count
    rw [update_self] at moved
    omega
  · apply (forall_update_iff chains fun l xs => ∀ placed ∈ xs, placed.Unsent).mpr
    exact ⟨unsent, fun l _ => sound.unsent l⟩

/-- Fresh entries are put behind a lane with credit that is covered. -/
theorem append (sound : pool.Sound config free chains) {rest : List Nat}
    (nodes : free.Perm (nodes ys ++ rest)) (fresh : ∀ placed ∈ ys, placed.Fresh)
    (formed : Formed pool'.slab pool'.links rest [] (update chains lane (chains lane ++ ys)))
    (covered : pool.account.demand lane (charged ys) ≤ pool.account.shared)
    (account : pool'.account = pool.account.acquire lane (charged ys)) :
    pool'.Sound config rest (update chains lane (chains lane ++ ys)) := by
  apply sound.exchange formed
  · rw [account]
    exact fun l => Account.acquire_others _ _
  · rw [account, Account.acquire_held, sound.held]
    unfold charged
    apply Amount.ext
    · exact List.length_append.symm
    · rw [List.map_append, List.sum_append]
      rfl
  · rw [account]
    exact sound.balanced.acquire covered
  · have used := nodes.length_eq
    unfold Metadata.nodes at used
    rw [List.length_append, List.length_map] at used
    rw [List.length_append]
    omega
  · intro placed member
    rcases List.mem_append.mp member with earlier | last
    · exact sound.unsent lane placed earlier
    · exact (fresh placed last).unsent

/-- The front leaves with its credit. -/
theorem take (sound : pool.Sound config free chains) (front : chains lane = placed :: xs) :
    ∃ pool', pool.take lane = .ok (some placed.load, pool') ∧
      pool'.Sound config (placed.node :: free) (update chains lane xs) := by
  obtain ⟨pool', ran, formed, account⟩ := Pool.take_spec sound.formed front
  have own := sound.held lane
  have unsent := sound.unsent lane
  rw [front] at own unsent
  rw [charged_cons] at own
  have within : placed.stored.amount ≤ pool.account.held lane := by
    rw [own]
    exact ⟨Nat.le_add_right .., Nat.le_add_right ..⟩
  refine ⟨pool', ran, sound.exchange formed ?_ ?_ ?_ ?_ ?_⟩
  · rw [account]
    exact fun l => Account.release_others _ _
  · rw [account, Account.release_held _ _ within, own]
    apply Amount.ext
    · exact Nat.add_sub_cancel_left ..
    · exact Nat.add_sub_cancel_left ..
  · rw [account]
    exact sound.balanced.release within
  · rw [front, List.length_cons, List.length_cons]
    omega
  · exact fun other member => unsent other (List.mem_cons_of_mem _ member)

/-- A front that is not sent as a whole keeps its place and its credit. -/
theorem consumeFront (sound : pool.Sound config free chains) (front : chains lane = placed :: xs)
    (less : bytes < placed.stored.bytes) :
    (pool.consumeFront placed.node placed.stored bytes).Sound config free (update chains lane
      ({ placed with stored := { placed.stored with bytes := placed.stored.bytes - bytes } } ::
        xs)) := by
  have own := sound.held lane
  have unsent := sound.unsent lane
  rw [front] at own unsent
  apply sound.exchange
  · exact sound.formed.restore front _
  · exact fun _ _ => rfl
  · exact own
  · exact sound.balanced
  · rw [front]
    rfl
  · intro other member
    rcases List.mem_cons.mp member with rfl | later
    · have le := (unsent placed List.mem_cons_self).le
      exact ⟨Nat.sub_pos_of_lt less, (Nat.sub_le ..).trans le⟩
    · exact unsent other (List.mem_cons_of_mem _ later)

/-- What acknowledged bytes leave of a lane. -/
structure Drops (xs : List (Placed T)) (bytes : Nat) (values : List (NonEmpty T))
    (left : List (Placed T)) : Prop where
  stream : stream left = (stream xs).drop bytes
  loads : values ++ left.map Placed.load = xs.map Placed.load

theorem consume {fuel : Nat} (sound : pool.Sound config free chains) (some : 0 < bytes)
    (enough : bytes ≤ fuel) :
    ∃ values pool' free' left, Pool.consume lane fuel bytes pool = .ok (values, pool') ∧
      pool'.Sound config free' (update chains lane left) ∧
      Drops (chains lane) bytes values left := by
  induction fuel generalizing bytes pool free chains with
  | zero => omega
  | succ fuel ih =>
    have chain := sound.formed.lanes lane
    unfold Pool.consume
    cases front : chains lane with
    | nil =>
      rw [front] at chain
      have head : (pool.links lane).head = none := chain.threads
      rw [head]
      refine ⟨[], pool, free, [], rfl, ?_, List.drop_nil.symm, rfl⟩
      rw [← front, update_eq_self]
      exact sound
    | cons placed xs =>
      rw [front] at chain
      have has := chain.has placed List.mem_cons_self
      have unsent : placed.Unsent := by
        apply sound.unsent lane
        rw [front]
        exact List.mem_cons_self
      rw [chain.head_cons]
      dsimp only
      rw [has.entry]
      dsimp only
      by_cases less : bytes < placed.stored.bytes
      · rw [if_pos less]
        exact ⟨[], _, free, _, rfl, sound.consumeFront front less, stream_drop_part unsent less,
          rfl⟩
      · rw [if_neg less]
        obtain ⟨pool', ran, taken⟩ := sound.take front
        have dropped := @stream_drop_whole _ placed xs bytes unsent (Nat.le_of_not_lt less)
        rw [ran]
        dsimp only [ok_bind]
        by_cases whole : bytes = placed.stored.bytes
        · rw [if_pos whole]
          refine ⟨[placed.load], pool', _, xs, rfl, taken, ?_, rfl⟩
          rw [← dropped, whole, Nat.sub_self, List.drop_zero]
        · rw [if_neg whole]
          have pos := unsent.pos
          have more : 0 < bytes - placed.stored.bytes := by omega
          have fewer : bytes - placed.stored.bytes ≤ fuel := by omega
          obtain ⟨values, last, free', left, rest, sound', drops⟩ := ih taken more fewer
          rw [update_self] at drops
          rw [update_idem] at sound'
          rw [rest]
          refine ⟨placed.load :: values, last, free', left, rfl, sound',
            drops.stream.trans dropped, ?_⟩
          rw [List.cons_append, drops.loads]
          rfl

theorem complete (sound : pool.Sound config free chains) :
    ∃ values pool' free' left, pool.complete lane bytes = .ok (values, pool') ∧
      pool'.Sound config free' (update chains lane left) ∧
      Drops (chains lane) bytes values left := by
  unfold Pool.complete
  by_cases zero : bytes = 0
  · rw [if_pos zero, zero]
    refine ⟨[], pool, free, chains lane, rfl, ?_, rfl, rfl⟩
    rw [update_eq_self]
    exact sound
  · rw [if_neg zero]
    exact sound.consume (Nat.pos_of_ne_zero zero) (Nat.le_refl _)

end Pool.Sound

/-! ## Reserving -/

/-- A reservation at once acquires the credit of its bounds first. -/
theorem Vacant.tryReserve_cases (lane : Fin n) (bounds : Bounds) :
    (∃ cause, tryReserve pool lane bounds = (.error cause, pool)) ∨
    ∃ start : Pool access T, start.slab = pool.slab ∧ start.links = pool.links ∧
      bounds.amount ≤ start.account.held lane ∧
      start.account.release lane bounds.amount = pool.account ∧
      pool.account.demand lane bounds.amount ≤ pool.account.shared ∧
      tryReserve pool lane bounds = reserve start lane bounds := by
  unfold tryReserve reserve
  cases shape : bounds.shape with
  | none =>
    right
    refine ⟨pool, rfl, rfl, ?_, ?_, ?_, rfl⟩
    · rw [amount_of_none shape]
      exact Amount.zero_le _
    · rw [amount_of_none shape]
      exact Account.release_zero _ _
    · rw [amount_of_none shape]
      exact ⟨(Nat.sub_le ..).trans (Nat.zero_le _), (Nat.sub_le ..).trans (Nat.zero_le _)⟩
  | some kind =>
    dsimp only
    unfold Pool.tryAcquire
    cases acquired : access.tryAcquire pool.wait pool.account lane bounds.amount with
    | error cause => exact .inl ⟨cause, rfl⟩
    | ok account =>
      obtain ⟨covered, rfl⟩ := access.acquired _ _ _ _ _ acquired
      right
      refine ⟨{ pool with account := pool.account.acquire lane bounds.amount }, rfl, rfl, ?_,
        Account.release_acquire _ _ covered, covered, rfl⟩
      dsimp only
      rw [Account.acquire_held]
      exact ⟨Nat.le_add_left .., Nat.le_add_left ..⟩

/-! ## Records -/

/-- What was published on a lane and released from it, how many bytes of it were
acknowledged, and how many are in flight. -/
structure Record (T : Type) where
  published : List (NonEmpty T)
  released : List (NonEmpty T)
  acknowledged : Nat
  flight : Option Nat

namespace Record

variable (record : Record T) {loads values : List (NonEmpty T)} {left : List (Placed T)}

def new : Record T := ⟨[], [], 0, none⟩

/-- All bytes that the lane was ever to send. -/
def outgoing : List (NonEmpty T × Nat) := record.published.flatMap NonEmpty.bytes

def publish (loads : List (NonEmpty T)) : Record T :=
  { record with published := record.published ++ loads }

def acknowledge (bytes : Nat) (values : List (NonEmpty T)) : Record T :=
  { record with
    released := record.released ++ values
    acknowledged := record.acknowledged + bytes
    flight := none }

/-- Released and waiting, the loads are those published, in their order; what is left to
send is what was to be sent, less the acknowledged bytes, and covers the flight. -/
structure Agrees (record : Record T) (xs : List (Placed T)) : Prop where
  loads : record.released ++ xs.map Placed.load = record.published
  sent : stream xs = record.outgoing.drop record.acknowledged
  most : record.acknowledged + record.flight.getD 0 ≤ record.outgoing.length

variable {record : Record T}

section

variable (agrees : record.Agrees xs)

include agrees

theorem Agrees.publish (fresh : ∀ placed ∈ ys, placed.Fresh) :
    (record.publish (ys.map Placed.load)).Agrees (xs ++ ys) := by
  have grown : (record.publish (ys.map Placed.load)).outgoing = record.outgoing ++ stream ys := by
    rw [stream_fresh fresh]
    exact List.flatMap_append
  refine ⟨?_, ?_, ?_⟩
  · rw [List.map_append, ← List.append_assoc]
    exact congrArg (· ++ _) agrees.loads
  · rw [grown]
    have most := (Nat.le_add_right ..).trans agrees.most
    refine Eq.trans ?_ (List.drop_append_of_le_length most).symm
    rw [← agrees.sent]
    exact List.flatMap_append
  · rw [grown, List.length_append]
    exact agrees.most.trans (Nat.le_add_right ..)

theorem Agrees.unsent : record.acknowledged + (stream xs).length = record.outgoing.length := by
  have most := (Nat.le_add_right ..).trans agrees.most
  rw [agrees.sent, List.length_drop]
  omega

theorem Agrees.flying {maximum : Nat} (active : record.flight = some maximum) :
    maximum ≤ (stream xs).length := by
  have most := agrees.most
  have left := agrees.unsent
  rw [active] at most
  exact Nat.add_le_add_iff_left.mp (most.trans left.ge)

theorem Agrees.acknowledge (within : bytes ≤ (stream xs).length)
    (drops : Pool.Sound.Drops xs bytes values left) :
    (record.acknowledge bytes values).Agrees left := by
  refine ⟨?_, ?_, ?_⟩
  · refine Eq.trans ?_ agrees.loads
    rw [← drops.loads]
    exact List.append_assoc ..
  · rw [drops.stream, agrees.sent, List.drop_drop]
    rfl
  · exact (Nat.add_le_add_left within _).trans agrees.unsent.le

theorem Agrees.reserve {flight : Option Nat} (within : flight.getD 0 ≤ (stream xs).length) :
    { record with flight }.Agrees xs := by
  exact ⟨agrees.loads, agrees.sent, (Nat.add_le_add_left within _).trans agrees.unsent.le⟩

end

end Record

/-! ## The runs -/

structure World (access : Access credit n) (T : Type) where
  pool : Pool access T
  records : Fin n → Record T

inductive Input (n : Nat) (T R E : Type) where
  | publish (lane : Fin n) (bounds : Bounds) (maxBytes : Nat) (first second : Option (Value T))
  | batch (lane : Fin n) (plan : Batch.Plan) (closure : Batch.Build T R E n)
  /-- A flight is reserved, and retained or, with what was sent at once, released. -/
  | submit (lane : Fin n) (free : Bool) (sent : Option Nat)
  | abort (lane : Fin n)
  | complete (lane : Fin n) (bytes : Nat)

/-- `queue::Change`, with what was released. -/
inductive Change (T : Type) where
  | applied (released : List (NonEmpty T))
  | stale
  | invalid (actual maximum : Nat)

def checked (maxBytes : Nat) (value : Option (Value T)) : List (NonEmpty T) :=
  match Inputs.check maxBytes value with
  | .ok load => load.toList
  | .error _ => []

namespace World

variable (world : World access T) {R E : Type}

def publish (pool : Pool access T) (lane : Fin n) (loads : List (NonEmpty T)) : World access T :=
  ⟨pool, update world.records lane ((world.records lane).publish loads)⟩

def fly (lane : Fin n) (flight : Option Nat) : World access T :=
  { world with records := update world.records lane { world.records lane with flight } }

/-- What is acknowledged leaves the lane, with its flight. -/
def consume (lane : Fin n) (bytes : Nat) : Except Fault (Change T × World access T) := do
  let (values, pool) ← world.pool.complete lane bytes
  .ok (.applied values, ⟨pool, update world.records lane
    ((world.records lane).acknowledge bytes values)⟩)

def step (gather : Gather T) : Input n T R E → Except Fault (Change T × World access T)
  | .publish lane bounds maxBytes first second =>
      match Vacant.tryReserve world.pool lane bounds with
      | (.error _, pool) => .ok (.applied [], { world with pool })
      | (.ok vacant, pool) =>
          match vacant.tryPublish maxBytes pool lane first second with
          | (.ok .published, pool) =>
              .ok (.applied [],
                world.publish pool lane (checked maxBytes first ++ checked maxBytes second))
          | (_, pool) => .ok (.applied [], { world with pool })
  | .batch lane plan closure => do
      match ← Batch.tryBatch world.pool lane plan closure with
      | (.ok _, pushed, pool) => .ok (.applied [], world.publish pool lane pushed)
      | (.error _, _, pool) => .ok (.applied [], { world with pool })
  | .submit lane free sent => do
      match ← gather.reserve world.pool lane (world.records lane).flight.isSome free with
      | .empty | .active | .unavailable => .ok (.applied [], world)
      | .ready _ maximum =>
          match sent with
          | none => .ok (.applied [], world.fly lane (some maximum))
          | some bytes =>
              if maximum < bytes then .ok (.invalid bytes maximum, world)
              else world.consume lane bytes
  | .abort lane => .ok (.applied [], world.fly lane none)
  | .complete lane bytes =>
      match (world.records lane).flight with
      | none => .ok (.stale, world)
      | some maximum =>
          if maximum < bytes then .ok (.invalid bytes maximum, world)
          else world.consume lane bytes

/-- The pool is sound, and every lane agrees with its record. -/
structure Inv (config : Config) (world : World access T) (free : List Nat)
    (chains : Fin n → List (Placed T)) : Prop where
  sound : world.pool.Sound config free chains
  agrees : ∀ l, (world.records l).Agrees (chains l)

variable {world : World access T} {gather : Gather T}

theorem Inv.move (inv : world.Inv config free chains) {rest : List Nat} {record : Record T}
    (sound : pool'.Sound config rest (update chains lane xs)) (agrees : record.Agrees xs) :
    (⟨pool', update world.records lane record⟩ : World access T).Inv config rest
      (update chains lane xs) := by
  refine ⟨sound, ?_⟩
  intro l
  dsimp only
  by_cases here : l = lane
  · rw [here, update_self, update_self]
    exact agrees
  · rw [update_of_ne here, update_of_ne here]
    exact inv.agrees l

/-- A reservation or a batch that comes to nothing. -/
theorem Inv.same (inv : world.Inv config free chains) {rest : List Nat}
    (formed : Formed pool'.slab pool'.links rest [] chains)
    (account : pool'.account = world.pool.account) (length : rest.length = free.length) :
    ({ world with pool := pool' } : World access T).Inv config rest chains := by
  have sound := inv.sound
  refine ⟨⟨formed, ?_, ?_, ?_, sound.unsent⟩, inv.agrees⟩
  · rw [account]
    exact sound.held
  · rw [account]
    exact sound.balanced
  · rw [length]
    exact sound.count

theorem checked_valid {maxBytes : Nat} {bounds : Bounds} {first second : Option (Value T)}
    {valid : Validated T}
    (ran : (Inputs.new bounds first second).validate maxBytes bounds = .ok valid) :
    checked maxBytes first ++ checked maxBytes second =
      valid.first.toList ++ valid.second.toList := by
  obtain ⟨one, two⟩ := Inputs.validate_ok ran
  have moved : checked maxBytes first ++ checked maxBytes second =
      checked maxBytes (Inputs.new bounds first second).first ++
        checked maxBytes (Inputs.new bounds first second).second := by
    unfold Inputs.new
    split
    · rename_i alone
      rw [Option.isNone_iff_eq_none.mp alone.1]
      exact (List.append_nil _).symm
    · rfl
  rw [moved, checked, one, checked, two]

section

variable (inv : world.Inv config free chains)

include inv

theorem Inv.publishes (lane : Fin n) (bounds : Bounds) (maxBytes : Nat)
    (first second : Option (Value T)) :
    ∃ output next free' chains', world.step gather (.publish lane bounds maxBytes first second :
        Input n T R E) = .ok (output, next) ∧ next.Inv config free' chains' := by
  unfold step
  dsimp only
  rcases @Vacant.tryReserve_cases _ _ _ _ world.pool lane bounds with ⟨cause, refused⟩ |
    ⟨start, slab, links, granted, back, covered, same⟩
  · rw [refused]
    exact ⟨.applied [], world, free, chains, rfl, inv⟩
  · have formed := inv.sound.formed
    rw [← slab, ← links] at formed
    rw [same]
    have comes : ∀ {pool'}, Returned start lane bounds.amount free chains pool' →
        ({ world with pool := pool' } : World access T).Inv config free chains :=
      fun returned => inv.same returned.formed (returned.account.trans back) rfl
    rcases Vacant.reserve_spec formed granted with ⟨cause, refused, returned⟩ |
      ⟨slots, free', reserved, made, rfl, holds, kept, account⟩
    · cases ran : Vacant.reserve start lane bounds with
      | mk answer pool' =>
        rw [ran] at refused returned
        cases refused
        exact ⟨.applied [], _, free, chains, rfl, comes returned⟩
    · have rolled := holds.rollback
      have returned : Returned start lane bounds.amount (slots.indices ++ free') chains
          (slots.rollback reserved lane) := by
        refine ⟨rolled.formed, rolled.links.trans kept, ?_⟩
        rw [rolled.account, account]
      rw [made]
      unfold Vacant.tryPublish Slots.tryPublish
      dsimp only
      cases valid : (Inputs.new bounds first second).validate maxBytes bounds with
      | error error => exact ⟨.applied [], _, _, chains, rfl, comes returned⟩
      | ok loads =>
        dsimp only
        rcases Slots.publishValid_settles holds loads.first loads.second with
          ⟨cause, first', second', ran, -⟩ | ⟨ran, -, -⟩ | ⟨pool', rest, ys, ran, sent⟩
        · rw [ran]
          exact ⟨.applied [], _, _, chains, rfl, comes returned⟩
        · rw [ran]
          exact ⟨.applied [], _, _, chains, rfl, comes returned⟩
        · have charge := sent.account
          have within := sent.within
          rw [account, back, ← charged_fresh sent.fresh] at charge
          rw [← charged_fresh sent.fresh] at within
          have part : world.pool.account.demand lane (charged ys) ≤
              world.pool.account.shared := by
            refine Amount.le_trans ?_ covered
            exact ⟨Nat.sub_le_sub_right within.1 _, Nat.sub_le_sub_right within.2 _⟩
          rw [ran]
          dsimp only
          rw [checked_valid valid, ← sent.loads]
          exact ⟨.applied [], _, rest, _, rfl, inv.move
            (inv.sound.append sent.nodes sent.fresh sent.formed part charge)
            ((inv.agrees lane).publish sent.fresh)⟩

theorem Inv.batches (lane : Fin n) (plan : Batch.Plan) (closure : Batch.Build T R E n) :
    ∃ output next free' chains', world.step gather (.batch lane plan closure : Input n T R E) =
      .ok (output, next) ∧ next.Inv config free' chains' := by
  unfold step Batch.tryBatch Batch.Draft.tryNew Pool.tryAcquire
  dsimp only
  cases acquired : access.tryAcquire world.pool.wait world.pool.account lane plan.amount with
  | error cause => exact ⟨.applied [], world, free, chains, rfl, inv⟩
  | ok account =>
    obtain ⟨covered, rfl⟩ := access.acquired _ _ _ _ _ acquired
    dsimp only
    let start : Pool access T :=
      { world.pool with account := world.pool.account.acquire lane plan.amount }
    have opened : Batch.Draft.Drafts start chains plan.amount start
        ⟨.empty, plan.amount, []⟩ free [] := by
      refine ⟨inv.sound.formed, .empty _, rfl, ?_, ?_, rfl, rfl, rfl⟩
      · exact fun placed member => absurd member List.not_mem_nil
      · rw [Amount.add_comm]
        exact Amount.add_zero _
    have within : plan.amount ≤ start.account.held lane := by
      have held := Account.acquire_held world.pool.account lane (a := plan.amount)
      rw [Amount.add_comm] at held
      exact (Amount.le_add_right ..).trans_eq held.symm
    obtain ⟨output, draft, last, used, free', ys, ran, cut, grown, drafts⟩ :=
      @Batch.Draft.Drafts.build _ _ _ _ _ _ _ _ lane _ _ _ _ _ opened closure
    have cancels : ∃ pool', Batch.Draft.cancel last lane draft = .ok pool' ∧
        ({ world with pool := pool' } : World access T).Inv config
          ((nodes ys).reverse ++ free') chains := by
      obtain ⟨pool', cancelled, formed, -, account⟩ := drafts.cancel within
      refine ⟨pool', cancelled, inv.same formed ?_ ?_⟩
      · exact account.trans (Account.release_acquire _ _ covered)
      · rw [cut, grown, List.length_append, List.length_append, List.length_reverse]
        rfl
    unfold Batch.Draft.tryBuild
    have ran' : Batch.Draft.build lane closure ⟨.empty, plan.amount, []⟩
        { world.pool with account := world.pool.account.acquire lane plan.amount } =
        (output, draft, last) := ran
    rw [ran']
    obtain ⟨pool', cancelled, inv'⟩ := cancels
    cases output with
    | error error =>
      dsimp only
      rw [cancelled]
      exact ⟨.applied [], _, _, chains, rfl, inv'⟩
    | ok output =>
      dsimp only
      by_cases left : draft.credit = Amount.zero
      · rw [if_neg (by simp [left])]
        have whole := drafts.credit
        rw [left, Amount.add_zero] at whole
        have some : ys ≠ [] := by
          rintro rfl
          have pos := plan.pos
          rw [← whole] at pos
          cases pos
        obtain ⟨formed, account, -⟩ :=
          @Batch.Draft.Drafts.append _ _ _ _ _ _ lane _ _ _ _ _ drafts some
        have order : free = nodes ys ++ free' := by
          rw [cut, grown]
          rfl
        have charge := account.trans (congrArg (world.pool.account.acquire lane) whole.symm)
        rw [← whole] at covered
        rw [← drafts.loads]
        exact ⟨.applied [], _, free', _, rfl, inv.move
          (inv.sound.append (.of_eq order) drafts.fresh formed covered charge)
          ((inv.agrees lane).publish drafts.fresh)⟩
      · rw [if_pos left, cancelled]
        exact ⟨.applied [], _, _, chains, rfl, inv'⟩

theorem Inv.flies {flight : Option Nat} (within : flight.getD 0 ≤ (stream (chains lane)).length) :
    (world.fly lane flight).Inv config free chains := by
  refine ⟨inv.sound, ?_⟩
  apply (forall_update_iff world.records fun l record => record.Agrees (chains l)).mpr
  exact ⟨(inv.agrees lane).reserve within, fun l _ => inv.agrees l⟩

theorem Inv.consumes (within : bytes ≤ (stream (chains lane)).length) :
    ∃ output next free' chains', world.consume lane bytes = .ok (output, next) ∧
      next.Inv config free' chains' := by
  obtain ⟨values, pool', free', left, ran, sound, drops⟩ :=
    @Pool.Sound.complete _ _ _ lane _ _ _ _ _ bytes inv.sound
  unfold consume
  rw [ran]
  exact ⟨.applied values, _, free', _, rfl, inv.move sound
    ((inv.agrees lane).acknowledge within drops)⟩

end

theorem Inv.reserves (inv : world.Inv config free chains) (lane : Fin n) (active vacant : Bool) :
    ∃ reservation, gather.reserve world.pool lane active vacant = .ok reservation ∧
      ∀ iovecs bytes, reservation = .ready iovecs bytes →
        Describes iovecs (stream (chains lane)) bytes ∧ 0 < bytes ∧ bytes ≤ gather.limit ∧
          iovecs.length ≤ gather.iov :=
  gather.reserve_spec (inv.sound.formed.lanes lane) (inv.sound.unsent lane) active vacant

theorem Inv.submits (inv : world.Inv config free chains) (lane : Fin n) (vacant : Bool)
    (sent : Option Nat) :
    ∃ output next free' chains', world.step gather (.submit lane vacant sent :
        Input n T R E) = .ok (output, next) ∧ next.Inv config free' chains' := by
  unfold step
  dsimp only
  obtain ⟨reservation, ran, ready⟩ := @Inv.reserves _ _ _ _ _ _ _ _ gather inv lane
    (world.records lane).flight.isSome vacant
  rw [ran, ok_bind]
  cases reservation with
  | empty | active | unavailable => exact ⟨.applied [], world, free, chains, rfl, inv⟩
  | ready iovecs maximum =>
    have most := (ready iovecs maximum rfl).1.within
    cases sent with
    | none => exact ⟨.applied [], _, free, chains, rfl, inv.flies most⟩
    | some bytes =>
      dsimp only
      by_cases more : maximum < bytes
      · rw [if_pos more]
        exact ⟨_, world, free, chains, rfl, inv⟩
      · rw [if_neg more]
        exact inv.consumes ((Nat.le_of_not_lt more).trans most)

theorem Inv.completes (inv : world.Inv config free chains) (lane : Fin n) (bytes : Nat) :
    ∃ output next free' chains', world.step gather (.complete lane bytes : Input n T R E) =
      .ok (output, next) ∧ next.Inv config free' chains' := by
  unfold step
  dsimp only
  cases active : (world.records lane).flight with
  | none => exact ⟨.stale, world, free, chains, rfl, inv⟩
  | some maximum =>
    dsimp only
    by_cases more : maximum < bytes
    · rw [if_pos more]
      exact ⟨_, world, free, chains, rfl, inv⟩
    · rw [if_neg more]
      exact inv.consumes ((Nat.le_of_not_lt more).trans ((inv.agrees lane).flying active))

/-- Only what is in flight is acknowledged. -/
theorem complete_beyond (world : World access T)
    (beyond : ∀ maximum, (world.records lane).flight = some maximum → maximum < bytes) :
    ∃ output, world.step gather (.complete lane bytes : Input n T R E) = .ok (output, world) ∧
      ∀ released, output ≠ .applied released := by
  unfold step
  dsimp only
  cases active : (world.records lane).flight with
  | none => exact ⟨.stale, rfl, nofun⟩
  | some maximum =>
    dsimp only
    rw [if_pos (beyond maximum active)]
    exact ⟨_, rfl, nofun⟩

/-- A pool of a configuration, under any inputs. -/
def machine (access : Access credit n) (T R E : Type) (config : Config) (gather : Gather T) :
    Machine (World access T) (Input n T R E) (Change T) Fault where
  start world := ∃ wait, world = ⟨Pool.new access T wait config, fun _ => .new⟩
  allowed _ _ := True
  step world input := world.step gather input

theorem machine_invariant (some : 0 < n) :
    (machine access T R E config gather).Invariant fun world =>
      ∃ free chains, world.Inv config free chains := by
  constructor
  · rintro world ⟨wait, rfl⟩
    refine ⟨List.range config.entries, fun _ => [], ⟨formed_new _, ?_, .new some, ?_, ?_⟩, ?_⟩
    · exact fun l => credit.new_held _
    · rw [List.length_range]
      exact congrArg (config.entries + ·) Finset.sum_const_zero
    · exact fun l placed member => absurd member List.not_mem_nil
    · exact fun l => ⟨rfl, rfl, Nat.le_refl _⟩
  · rintro world input ⟨free, chains, inv⟩ -
    have next : ∃ output next free' chains', world.step gather input = .ok (output, next) ∧
        next.Inv config free' chains' := by
      cases input with
      | publish lane bounds maxBytes first second =>
        exact inv.publishes lane bounds maxBytes first second
      | batch lane plan closure => exact inv.batches lane plan closure
      | submit lane vacant sent => exact inv.submits lane vacant sent
      | abort lane => exact ⟨_, _, free, chains, rfl, inv.flies (Nat.zero_le _)⟩
      | complete lane bytes => exact inv.completes lane bytes
    obtain ⟨output, next, free', chains', ran, inv'⟩ := next
    exact ⟨output, next, ran, free', chains', inv'⟩

/-- In every run each node is vacant or on one lane. The entries of a lane are exactly its
credit, and all credit adds up to what was configured, so that credit which is granted
always finds its nodes. -/
theorem reachable_stored (some : 0 < n) {world : World access T}
    (h : (machine access T R E config gather).Reachable world) :
    ∃ free chains, Formed world.pool.slab world.pool.links free [] chains ∧
      free.length + ∑ l, (chains l).length = config.entries ∧
      (∀ l, world.pool.account.held l = charged (chains l)) ∧
      (∀ axis : Axis, axis.of world.pool.account.shared + ∑ l,
        max (axis.of (world.pool.account.held l)) (axis.of (reserveOf config n l)) =
          axis.of config.total) ∧
      ∀ lane amount acquired, world.pool.tryAcquire lane amount = .ok acquired →
        amount.entries ≤ free.length := by
  obtain ⟨free, chains, inv⟩ := (machine_invariant some).holds h
  have sound := inv.sound
  refine ⟨free, chains, sound.formed, sound.count, sound.held, ?_, ?_⟩
  · intro axis
    rw [← sound.balanced.whole axis]
    congr 1
    apply Finset.sum_congr rfl
    intro l _
    rw [sound.balanced.reserve l]
  · intro lane amount acquired ran
    unfold Pool.tryAcquire at ran
    split at ran
    · cases ran
    · rename_i account granted
      exact sound.room (access.acquired _ _ _ _ _ granted).1

/-- In every run the loads released from a lane, and after them those on its chain, are
those that were published on it, in their order; the bytes left to send are the published
ones less those acknowledged, and cover what is in flight. A flight that is reserved
describes the first bytes left to send. Acknowledging more than is in flight changes
nothing, and no input faults. -/
theorem reachable_delivers (some : 0 < n) {world : World access T}
    (h : (machine access T R E config gather).Reachable world) :
    (∃ free chains, Formed world.pool.slab world.pool.links free [] chains ∧
      ∀ l, (world.records l).Agrees (chains l) ∧
        ∀ active vacant, ∃ reservation,
          gather.reserve world.pool l active vacant = .ok reservation ∧
          ∀ iovecs bytes, reservation = .ready iovecs bytes →
            Describes iovecs (stream (chains l)) bytes ∧ 0 < bytes ∧ bytes ≤ gather.limit ∧
              iovecs.length ≤ gather.iov) ∧
    (∀ lane bytes, (∀ maximum, (world.records lane).flight = .some maximum → maximum < bytes) →
      ∃ output, world.step gather (.complete lane bytes : Input n T R E) = .ok (output, world) ∧
        ∀ released, output ≠ .applied released) ∧
    ∀ input : Input n T R E, ∃ output next, world.step gather input = .ok (output, next) := by
  refine ⟨?_, fun lane bytes => world.complete_beyond, ?_⟩
  · obtain ⟨free, chains, inv⟩ := (machine_invariant some).holds h
    exact ⟨free, chains, inv.sound.formed, fun l => ⟨inv.agrees l, inv.reserves l⟩⟩
  · exact fun input => (machine_invariant some).progress h trivial

/-- Seven descriptors of two bytes at most make a message. -/
def sampleGather : Gather Nat where
  iov := 7
  limit := 100
  chunk load offset := min 2 (load.len - offset)
  iov_pos := by decide
  limit_pos := by decide
  chunk_pos load offset before := by omega
  chunk_le load offset before := by omega

/-- Two loads of one byte go out in a batch, and the first byte is acknowledged. -/
theorem sample_reachable : ∃ world : World (Access.local_ HeldCredit.direct 1) Nat,
    (machine _ Nat Nat Nat (Config.ofShared ⟨4, 0⟩) sampleGather).Reachable world ∧
      (world.records 0).acknowledged = 1 ∧ (world.records 0).flight = none := by
  have start : (machine (Access.local_ HeldCredit.direct 1) Nat Nat Nat
      (Config.ofShared ⟨4, 0⟩) sampleGather).Reachable ⟨Batch.samplePool, fun _ => .new⟩ :=
    .start ⟨(), rfl⟩
  have sent := start.call (.batch 0 Batch.samplePlan (Batch.sampleClosure (.ok 11))) trivial rfl
  have flies := sent.call (.submit 0 true none) trivial rfl
  exact ⟨_, flies.call (.complete 0 1) trivial rfl, rfl, rfl⟩

theorem reachable_stored_example : ∃ world : World (Access.local_ HeldCredit.direct 1) Nat,
    (world.records 0).acknowledged = 1 ∧ ∃ free chains,
      Formed world.pool.slab world.pool.links free [] chains ∧
        free.length + ∑ l, (chains l).length = 4 := by
  obtain ⟨world, reached, acknowledged, -⟩ := sample_reachable
  obtain ⟨free, chains, formed, count, -⟩ := reachable_stored Nat.one_pos reached
  exact ⟨world, acknowledged, free, chains, formed, count⟩

theorem reachable_delivers_example : ∃ world : World (Access.local_ HeldCredit.direct 1) Nat,
    (world.records 0).acknowledged = 1 ∧
      (∃ free chains, Formed world.pool.slab world.pool.links free [] chains ∧
        ∀ l, (world.records l).Agrees (chains l)) ∧
      ∃ output, world.step sampleGather (.complete 0 1 : Input 1 Nat Nat Nat) =
        .ok (output, world) := by
  obtain ⟨world, reached, acknowledged, idle⟩ := sample_reachable
  obtain ⟨⟨free, chains, formed, agrees⟩, beyond, -⟩ := reachable_delivers Nat.one_pos reached
  obtain ⟨output, stale, -⟩ := beyond 0 1 (by
    intro maximum flying
    rw [idle] at flying
    cases flying)
  exact ⟨world, acknowledged, ⟨free, chains, formed, fun l => (agrees l).1⟩, output, stale⟩

end World

end

end Dope.Egress.Metadata
