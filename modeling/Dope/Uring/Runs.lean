import Dope.Uring.Queue

/-! # Runs of the submission queue

Owners reserve room, push or give the room back, and publish; the kernel takes
what is published whenever it likes. Two ghosts count along without a width:
what was pushed, and what the kernel has seen.
-/

namespace Dope.Uring.Queue

open Run Fields

variable {E : Type}

/-! ## Capabilities -/

/-- Reserved room: one entry, or a count of up to `n` of them. -/
inductive Held where
  | vacancy
  | reserved (n : Nat) (limit : Limit n)

namespace State

def tryOne (state : State E) : Except Fault (Option Held) := do
  if ← state.hasCapacity 1 then .ok (some .vacancy) else .ok none

/-- Looks at the kernel's head again, and keeps it when there is room. -/
def tryAcquire (state : State E) : Option (State E) :=
  if state.cursor.tail - state.head = state.axis.entries then none
  else some { state with cursor := { state.cursor with head := state.head } }

def tryReserve (state : State E) (n : Nat) (limit : Limit n) : Except Fault (Option Held) := do
  if ← state.hasCapacity limit.count then .ok (some (.reserved n limit)) else .ok none

/-- The commit of an enter: nothing is pending and no flag asks for progress. -/
def isIdle (state : State E) (progress : Bool) : Bool := state.pending == 0 && !progress

def submit (state : State E) (held : Held) (entries : List E) : Except Fault (State E) :=
  match held with
  | .vacancy =>
      match entries with
      | [] => .error .source
      | entry :: _ => state.pushOne entry
  | .reserved _ limit => state.push entries limit

/-- The kernel reads `count` entries from its head on and moves the head. -/
def consume (state : State E) (count : Nat) : List E × State E :=
  ((List.range count).map fun i =>
      state.memory ((state.head + BitVec.ofNat 32 i) &&& state.axis.mask).toNat,
    { state with head := state.head + BitVec.ofNat 32 count })

end State

/-! ## The machine -/

structure World (E : Type) where
  state : State E
  held : Option Held
  pushed : List E
  seen : List E

inductive Input (E : Type) where
  | tryOne
  | tryAcquire
  | tryReserve (n : Nat) (limit : Limit n)
  | tryIdle (progress : Bool)
  | submit (entries : List E)
  | release
  | refresh
  | consume (count : Nat)

/-- A capability is exclusive. It is given back, or used with as many entries as it
is for; the kernel reads at most to the tail that it was shown. -/
def World.Allowed (world : World E) : Input E → Prop
  | .tryOne | .tryAcquire | .tryReserve .. | .tryIdle _ | .refresh => world.held = none
  | .submit entries =>
      match world.held with
      | none => False
      | some .vacancy => entries.length = 1
      | some (.reserved n _) => entries.length = n
  | .release => world.held ≠ none
  | .consume count => count ≤ (world.state.tail - world.state.head).toNat

/-- How many of the given entries a capability pushes. -/
def Held.count : Held → Nat
  | .vacancy => 1
  | .reserved _ limit => limit.count

/-- The output says if room was granted. -/
def World.step (world : World E) : Input E → Except Fault (Bool × World E)
  | .tryOne => do
      let held ← world.state.tryOne
      .ok (held.isSome, { world with held := held })
  | .tryAcquire =>
      match world.state.tryAcquire with
      | none => .ok (false, world)
      | some state => .ok (true, { world with state := state, held := some .vacancy })
  | .tryReserve n limit => do
      let held ← world.state.tryReserve n limit
      .ok (held.isSome, { world with held := held })
  | .tryIdle progress =>
      let state := world.state.publish
      if state.isIdle progress then
        .ok (true, { world with state := state, held := some .vacancy })
      else .ok (false, { world with state := state })
  | .submit entries =>
      match world.held with
      | none => .error .capacity
      | some held => do
          let state ← world.state.submit held entries
          .ok (true, { world with
            state := state
            held := none
            pushed := world.pushed ++ entries.take held.count })
  | .release => .ok (true, { world with held := none })
  | .refresh => .ok (true, { world with state := world.state.publish })
  | .consume count =>
      let (read, state) := world.state.consume count
      .ok (true, { world with state := state, seen := world.seen ++ read })

/-- An empty ring, its counters anywhere. -/
def World.Start (world : World E) : Prop :=
  ∃ origin memory axis,
    world = ⟨State.new origin origin memory axis, none, [], []⟩

def machine (E : Type) : Machine (World E) (Input E) Bool Fault where
  start := World.Start
  allowed := World.Allowed
  step := World.step

/-! ## The invariant -/

/-- The room that a capability stands for. -/
def Held.room : Option Held → Nat
  | none => 0
  | some held => held.count

/-- All words are counters from one origin: `c` entries are known to be
consumed, and `p` are published. -/
structure World.Counts (world : World E) (origin : BitVec 32) (c p : Nat) : Prop where
  cached : c ≤ world.seen.length
  seen : world.seen.length ≤ p
  published : p ≤ world.pushed.length
  room : world.pushed.length + Held.room world.held ≤ c + world.state.axis.entries.toNat
  head : world.state.head = origin + BitVec.ofNat 32 world.seen.length
  tail : world.state.tail = origin + BitVec.ofNat 32 p
  cursorHead : world.state.cursor.head = origin + BitVec.ofNat 32 c
  cursorTail : world.state.cursor.tail = origin + BitVec.ofNat 32 world.pushed.length
  publishedTail : world.state.cursor.publishedTail = origin + BitVec.ofNat 32 p
  holds : Window.Holds world.state.axis.entries.toNat origin.toNat world.state.memory world.pushed
    world.seen.length
  order : world.seen = world.pushed.take world.seen.length

def World.Inv (world : World E) : Prop := ∃ origin c p, world.Counts origin c p

/-- The difference of two counters is their distance. -/
theorem counter_sub {origin : BitVec 32} {low high : Nat} (le : low ≤ high)
    (near : high - low < 2 ^ 32) :
    (origin + BitVec.ofNat 32 high - (origin + BitVec.ofNat 32 low)).toNat = high - low := by
  have split : high = low + (high - low) := by omega
  have cancel : origin + BitVec.ofNat 32 high - (origin + BitVec.ofNat 32 low) =
      BitVec.ofNat 32 (high - low) := by
    rw [split, BitVec.ofNat_add, ← BitVec.add_assoc, BitVec.add_comm, BitVec.add_sub_cancel]
    congr 1
    omega
  rw [cancel, BitVec.toNat_ofNat, Nat.mod_eq_of_lt near]

theorem Axis.entries_lt (axis : Axis) : axis.entries.toNat < 2 ^ 32 := axis.entries.isLt

theorem Axis.entries_pos (axis : Axis) : 0 < axis.entries.toNat := by
  rw [axis.power]
  exact Nat.two_pow_pos _

section
variable {world : World E} {origin : BitVec 32} {c p : Nat}

theorem World.Counts.pending (h : world.Counts origin c p) :
    world.state.pending.toNat = world.pushed.length - c := by
  have lt := world.state.axis.entries_lt
  have room := h.room
  have cached := h.cached
  have seen := h.seen
  have published := h.published
  rw [State.pending, h.cursorTail, h.cursorHead, counter_sub (by omega) (by omega)]

/-- The subtraction of a capacity check does not underflow. -/
theorem World.Counts.hasCapacity (h : world.Counts origin c p) (required : Nat) :
    world.state.hasCapacity required = .ok (decide
      (world.pushed.length + required ≤ c + world.state.axis.entries.toNat)) := by
  have pending := h.pending
  have room := h.room
  have lt := world.state.axis.entries_lt
  have cached := h.cached
  have seen := h.seen
  have published := h.published
  have enough : ¬ world.state.axis.entries < world.state.pending := by
    rw [BitVec.lt_def]
    omega
  have left : (world.state.axis.entries - world.state.pending).toNat =
      world.state.axis.entries.toNat - (world.pushed.length - c) := by
    rw [BitVec.toNat_sub, pending]
    omega
  rw [State.hasCapacity, if_neg enough, left]
  congr 1
  apply decide_eq_decide.mpr
  omega

/-! ## What a step keeps -/

/-- Entries that the kernel has not consumed keep their cells. -/
def World.Keeps (world world' : World E) (origin : BitVec 32) : Prop :=
  ∀ i, world.seen.length ≤ i → i < world.pushed.length →
    world'.state.memory ((origin.toNat + i) % world.state.axis.entries.toNat) =
      world.state.memory ((origin.toNat + i) % world.state.axis.entries.toNat)

theorem World.Counts.grant (h : world.Counts origin c p) {held : Option Held}
    (room : world.pushed.length + Held.room held ≤ c + world.state.axis.entries.toNat) :
    World.Counts { world with held := held } origin c p :=
  { h with room := room }

theorem World.Counts.publish (h : world.Counts origin c p) (free : world.held = none) :
    ∃ p', World.Counts { world with state := world.state.publish } origin world.seen.length p' := by
  have room := h.room
  have cached := h.cached
  have seen := h.seen
  have published := h.published
  rw [free] at room
  have room' : world.pushed.length + Held.room world.held ≤
      world.seen.length + world.state.axis.entries.toNat := by
    rw [free]
    change world.pushed.length + 0 ≤ _ at room
    change world.pushed.length + 0 ≤ _
    omega
  by_cases news : world.state.cursor.tail ≠ world.state.cursor.publishedTail
  · refine ⟨world.pushed.length, ?_⟩
    rw [State.publish, if_pos news]
    exact {
      cached := Nat.le_refl _
      seen := by
        change world.seen.length ≤ world.pushed.length
        omega
      published := Nat.le_refl _
      room := room'
      head := h.head
      tail := h.cursorTail
      cursorHead := h.head
      cursorTail := h.cursorTail
      publishedTail := h.cursorTail
      holds := h.holds
      order := h.order }
  · refine ⟨p, ?_⟩
    rw [State.publish, if_neg news]
    exact { h with cached := Nat.le_refl _, room := room', cursorHead := h.head }

theorem publish_memory (state : State E) :
    state.publish.memory = state.memory ∧ state.publish.axis = state.axis := by
  unfold State.publish
  by_cases news : state.cursor.tail ≠ state.cursor.publishedTail
  · rw [if_pos news]
    exact ⟨rfl, rfl⟩
  · rw [if_neg news]
    exact ⟨rfl, rfl⟩

/-- A submit with reserved room succeeds and appends behind the tail. -/
theorem World.Counts.submit_extended (h : world.Counts origin c p) {held : Held}
    (holding : world.held = some held) {entries : List E}
    (allowed : world.Allowed (.submit entries)) :
    world.state.submit held entries = .ok (world.state.extended (entries.take held.count)) ∧
      (entries.take held.count).length = held.count := by
  have room := h.room
  have cached := h.cached
  have seen := h.seen
  have published := h.published
  rw [holding] at room
  change world.pushed.length + held.count ≤ _ at room
  simp only [World.Allowed, holding] at allowed
  cases held with
  | vacancy =>
    dsimp only at allowed
    match entries, allowed with
    | [entry], _ => exact ⟨State.pushOne_extended _ _, rfl⟩
  | reserved n limit =>
    dsimp only at allowed
    have le := limit.le
    change world.pushed.length + limit.count ≤ _ at room
    constructor
    · exact State.push_extended world.state limit allowed (by omega)
    · rw [List.length_take]
      change min limit.count _ = limit.count
      omega

theorem World.Counts.extended (h : world.Counts origin c p) {held : Held}
    (holding : world.held = some held) {entries : List E} (length : entries.length = held.count) :
    World.Counts
        { world with
          state := world.state.extended entries
          held := none
          pushed := world.pushed ++ entries } origin c p ∧
      world.Keeps
        { world with
          state := world.state.extended entries
          held := none
          pushed := world.pushed ++ entries } origin := by
  have room := h.room
  have cached := h.cached
  have seen := h.seen
  have published := h.published
  rw [holding] at room
  change world.pushed.length + held.count ≤ _ at room
  have cells : (world.state.extended entries).memory =
      Window.written world.state.axis.entries.toNat (origin.toNat + world.pushed.length) entries
        world.state.memory := by
    apply Window.written_congr
    rw [h.cursorTail, State.counter_mod]
  constructor
  · exact {
      cached := cached
      seen := seen
      published := by
        change p ≤ (world.pushed ++ entries).length
        rw [List.length_append]
        omega
      room := by
        change (world.pushed ++ entries).length + 0 ≤ _
        rw [List.length_append, length]
        exact room
      head := h.head
      tail := h.tail
      cursorHead := h.cursorHead
      cursorTail := by
        change world.state.cursor.tail + BitVec.ofNat 32 entries.length = _
        rw [h.cursorTail, List.length_append, BitVec.ofNat_add, BitVec.add_assoc]
      publishedTail := h.publishedTail
      holds := by
        change Window.Holds _ _ (world.state.extended entries).memory _ _
        rw [cells]
        exact h.holds.written (by omega) (by omega)
      order := by
        change world.seen = (world.pushed ++ entries).take world.seen.length
        rw [List.take_append_of_le_length (by omega)]
        exact h.order }
  · intro i above below
    change (world.state.extended entries).memory _ = _
    rw [cells]
    exact Window.written_kept above below (by omega)

/-- The kernel reads the oldest entries that it has not consumed. -/
theorem World.Counts.consume (h : world.Counts origin c p) {count : Nat}
    (allowed : world.Allowed (.consume count)) :
    World.Counts
      { world with
        state := (world.state.consume count).2
        seen := world.seen ++ (world.state.consume count).1 } origin c p := by
  have room := h.room
  have cached := h.cached
  have seen := h.seen
  have published := h.published
  have small := world.state.axis.entries_lt
  have shown : (world.state.tail - world.state.head).toNat = p - world.seen.length := by
    rw [h.tail, h.head, counter_sub (by omega) (by omega)]
  change count ≤ (world.state.tail - world.state.head).toNat at allowed
  have cell : ∀ i, ((world.state.head + BitVec.ofNat 32 i) &&& world.state.axis.mask).toNat =
      (origin.toNat + (world.seen.length + i)) % world.state.axis.entries.toNat := by
    intro i
    rw [State.mask_toNat, h.head, BitVec.add_assoc, ← BitVec.ofNat_add, State.counter_mod]
  have read : (world.state.consume count).1 =
      (world.pushed.drop world.seen.length).take count := by
    apply List.ext_getElem?
    intro i
    rw [State.consume, List.getElem?_map, List.getElem?_take, List.getElem?_drop]
    by_cases less : i < count
    · rw [if_pos less, List.getElem?_range less, Option.map_some, cell i]
      exact (h.holds _ (by omega) (by omega)).symm
    · rw [if_neg less, List.getElem?_eq_none (by rw [List.length_range]; omega)]
      rfl
  have length : (world.state.consume count).1.length = count := by
    rw [State.consume, List.length_map, List.length_range]
  exact {
    cached := by
      change c ≤ (world.seen ++ _).length
      rw [List.length_append]
      omega
    seen := by
      change (world.seen ++ _).length ≤ p
      rw [List.length_append, length]
      omega
    published := published
    room := room
    head := by
      change world.state.head + BitVec.ofNat 32 count =
        origin + BitVec.ofNat 32 (world.seen ++ (world.state.consume count).1).length
      rw [h.head, List.length_append, length, BitVec.ofNat_add, BitVec.add_assoc]
    tail := h.tail
    cursorHead := h.cursorHead
    cursorTail := h.cursorTail
    publishedTail := h.publishedTail
    holds := h.holds.mono (by
      change world.seen.length ≤ (world.seen ++ _).length
      rw [List.length_append]
      omega)
    order := by
      change world.seen ++ (world.state.consume count).1 =
        world.pushed.take (world.seen ++ (world.state.consume count).1).length
      rw [List.length_append, length, List.take_add, ← h.order, read] }

theorem World.Keeps.of_memory {world' : World E}
    (same : world'.state.memory = world.state.memory) : world.Keeps world' origin := by
  intro i _ _
  rw [same]

/-- An allowed step faults nowhere and keeps the invariant. -/
theorem World.Counts.step (h : world.Counts origin c p) {input : Input E}
    (allowed : world.Allowed input) :
    ∃ output world' c' p', world.step input = .ok (output, world') ∧
      world'.Counts origin c' p' ∧ world.Keeps world' origin := by
  have room := h.room
  have cached := h.cached
  have seen := h.seen
  have published := h.published
  have pos := world.state.axis.entries_pos
  have small := world.state.axis.entries_lt
  cases input with
  | tryOne =>
    change world.held = none at allowed
    rw [World.step, State.tryOne, h.hasCapacity, ok_bind]
    by_cases fits : world.pushed.length + 1 ≤ c + world.state.axis.entries.toNat
    · rw [decide_eq_true fits]
      exact ⟨true, _, c, p, rfl, h.grant fits, .of_memory rfl⟩
    · rw [decide_eq_false fits]
      rw [allowed] at room
      exact ⟨false, _, c, p, rfl, h.grant room, .of_memory rfl⟩
  | tryAcquire =>
    change world.held = none at allowed
    rw [allowed] at room
    change world.pushed.length + 0 ≤ _ at room
    have distance : (world.state.cursor.tail - world.state.head).toNat =
        world.pushed.length - world.seen.length := by
      rw [h.cursorTail, h.head, counter_sub (by omega) (by omega)]
    rw [World.step, State.tryAcquire]
    by_cases full : world.state.cursor.tail - world.state.head = world.state.axis.entries
    · rw [if_pos full]
      exact ⟨false, world, c, p, rfl, h, .of_memory rfl⟩
    · rw [if_neg full]
      have other : world.pushed.length - world.seen.length ≠ world.state.axis.entries.toNat := by
        rw [← distance]
        exact fun same => full (BitVec.eq_of_toNat_eq same)
      have fits : world.pushed.length + 1 ≤
          world.seen.length + world.state.axis.entries.toNat := by omega
      exact ⟨true, _, world.seen.length, p, rfl,
        { h with cached := Nat.le_refl _, room := fits, cursorHead := h.head }, .of_memory rfl⟩
  | tryReserve n limit =>
    change world.held = none at allowed
    rw [World.step, State.tryReserve, h.hasCapacity, ok_bind]
    by_cases fits : world.pushed.length + limit.count ≤ c + world.state.axis.entries.toNat
    · rw [decide_eq_true fits]
      exact ⟨true, _, c, p, rfl, h.grant fits, .of_memory rfl⟩
    · rw [decide_eq_false fits]
      rw [allowed] at room
      exact ⟨false, _, c, p, rfl, h.grant room, .of_memory rfl⟩
  | tryIdle progress =>
    change world.held = none at allowed
    rcases h.publish allowed with ⟨p', counts⟩
    have memory := (publish_memory world.state).1
    rw [World.step]
    by_cases idle : world.state.publish.isIdle progress = true
    · rw [if_pos idle]
      have empty : world.state.publish.pending = 0 := by
        simp only [State.isIdle, Bool.and_eq_true, beq_iff_eq] at idle
        exact idle.1
      have none := counts.pending
      change world.state.publish.pending.toNat = world.pushed.length - world.seen.length at none
      rw [empty] at none
      have zero : (0 : BitVec 32).toNat = 0 := rfl
      have axis := (publish_memory world.state).2
      have fits : world.pushed.length + 1 ≤
          world.seen.length + world.state.publish.axis.entries.toNat := by
        rw [axis]
        omega
      have granted := @World.Counts.grant E _ _ _ _ counts (some .vacancy) fits
      exact ⟨true, _, _, p', rfl, granted, .of_memory memory⟩
    · rw [if_neg idle]
      exact ⟨false, _, _, p', rfl, counts, .of_memory memory⟩
  | submit entries =>
    cases holding : world.held with
    | none =>
      simp only [World.Allowed, holding] at allowed
    | some held =>
      rcases h.submit_extended holding allowed with ⟨submitted, length⟩
      rcases h.extended holding length with ⟨counts, keeps⟩
      rw [World.step, holding]
      dsimp only
      rw [submitted, ok_bind]
      exact ⟨true, _, c, p, rfl, counts, keeps⟩
  | release =>
    have free : world.pushed.length + Held.room none ≤ c + world.state.axis.entries.toNat := by
      change world.pushed.length + 0 ≤ _
      omega
    exact ⟨true, _, c, p, rfl, h.grant free, .of_memory rfl⟩
  | refresh =>
    change world.held = none at allowed
    rcases h.publish allowed with ⟨p', counts⟩
    exact ⟨true, _, _, p', rfl, counts, .of_memory (publish_memory world.state).1⟩
  | consume count => exact ⟨true, _, c, p, rfl, h.consume allowed, .of_memory rfl⟩

end

theorem World.start_inv {world : World E} (start : world.Start) : world.Inv := by
  rcases start with ⟨origin, memory, axis, rfl⟩
  have zero : origin = origin + BitVec.ofNat 32 0 := (BitVec.add_zero origin).symm
  exact ⟨origin, 0, 0, {
    cached := Nat.le_refl _
    seen := Nat.le_refl _
    published := Nat.le_refl _
    room := Nat.zero_le _
    head := zero
    tail := zero
    cursorHead := zero
    cursorTail := zero
    publishedTail := zero
    holds := .empty
    order := rfl }⟩

theorem machine_invariant (E : Type) : (machine E).Invariant World.Inv := by
  constructor
  · intro world start
    exact World.start_inv start
  · intro world input inv allowed
    rcases inv with ⟨origin, c, p, counts⟩
    rcases counts.step allowed with ⟨output, world', c', p', run, counts', -⟩
    exact ⟨output, world', run, origin, c', p', counts'⟩

/-- The entry of the mapping where the kernel finds the `i`-th entry from its head on. -/
def World.slot (world : World E) (i : Nat) : Nat :=
  ((world.state.head + BitVec.ofNat 32 i) &&& world.state.axis.mask).toNat

/-- A bulk push is that many single ones. In every run the tail is at most a
ring ahead of the head, what is not consumed stays in its slot, and the kernel
sees the entries in the order of the pushes. -/
theorem State.reachable_orders (E : Type) :
    (∀ (n : Nat) (state : State E) (source : List E) (limit : Limit n), source.length = n →
      state.hasCapacity limit.count = .ok true →
      state.push source limit = (source.take limit.count).foldlM State.pushOne state) ∧
    ∀ world, (machine E).Reachable world →
      world.state.pending ≤ world.state.axis.entries ∧
      (world.state.cursor.tail - world.state.head).toNat + world.seen.length =
        world.pushed.length ∧
      world.state.cursor.tail - world.state.head ≤ world.state.axis.entries ∧
      world.seen <+: world.pushed ∧
      (∀ i, world.seen.length + i < world.pushed.length →
        world.pushed[world.seen.length + i]? = some (world.state.memory (world.slot i))) ∧
      ∀ input, world.Allowed input → ∃ output world', world.step input = .ok (output, world') ∧
        ∀ i, world.seen.length + i < world.pushed.length →
          world'.state.memory (world.slot i) = world.state.memory (world.slot i) := by
  constructor
  · intro n state source limit length granted
    unfold State.hasCapacity at granted
    split at granted
    · cases granted
    · rename_i enough
      rw [BitVec.lt_def] at enough
      have fits := of_decide_eq_true (Except.ok.inj granted)
      rw [BitVec.toNat_sub] at fits
      have small := state.axis.entries_lt
      exact State.push_eq_each state limit length (by omega)
  · intro world reached
    rcases (machine_invariant E).holds reached with ⟨origin, c, p, counts⟩
    have room := counts.room
    have cached := counts.cached
    have seen := counts.seen
    have published := counts.published
    have pending := counts.pending
    have small := world.state.axis.entries_lt
    have distance : (world.state.cursor.tail - world.state.head).toNat =
        world.pushed.length - world.seen.length := by
      rw [counts.cursorTail, counts.head, counter_sub (by omega) (by omega)]
    have slot : ∀ i, world.slot i =
        (origin.toNat + (world.seen.length + i)) % world.state.axis.entries.toNat := by
      intro i
      rw [World.slot, State.mask_toNat, counts.head, BitVec.add_assoc, ← BitVec.ofNat_add,
        State.counter_mod]
    refine ⟨?_, ?_, ?_, ?_, ?_, ?_⟩
    · rw [BitVec.le_def]
      omega
    · omega
    · rw [BitVec.le_def]
      omega
    · rw [counts.order]
      exact List.take_prefix _ _
    · intro i inside
      rw [slot]
      exact counts.holds _ (by omega) inside
    · intro input allowed
      rcases counts.step allowed with ⟨output, world', c', p', run, -, keeps⟩
      refine ⟨output, world', run, ?_⟩
      intro i inside
      rw [slot]
      exact keeps _ (by omega) inside

namespace Example

def three : Limit 3 := ⟨3, by decide, by decide⟩

def fresh : World Nat :=
  ⟨State.new 0xffffffff 0xffffffff (fun _ => 0) (Axis.ofBits 2 (by decide)), none, [], []⟩

end Example

/-- A push of three entries over the wrap of the counters and of the ring. -/
theorem State.reachable_orders_example :
    Example.fresh.state.push [7, 8, 9] Example.three =
        [7, 8, 9].foldlM State.pushOne Example.fresh.state ∧
      ∃ world, (machine Nat).Reachable world ∧ world.pushed = [7, 8, 9] ∧
        world.seen = [7, 8] ∧ world.pushed[2]? = some (world.state.memory (world.slot 0)) := by
  have granted : Example.fresh.state.hasCapacity Example.three.count = .ok true := by rfl
  have bulk := (State.reachable_orders Nat).1 3 Example.fresh.state [7, 8, 9] Example.three rfl
    granted
  have start : (machine Nat).Reachable Example.fresh := .start ⟨0xffffffff, fun _ => 0, _, rfl⟩
  have reserved := start.call (.tryReserve 3 Example.three) rfl rfl
  have pushed := reserved.call (.submit [7, 8, 9]) rfl rfl
  have shown := pushed.call .refresh rfl rfl
  have two : ∀ n, n = 3 → 2 ≤ n := by omega
  have taken := shown.call (.consume 2) (two _ rfl) rfl
  have orders := (State.reachable_orders Nat).2 _ taken
  exact ⟨bulk, _, taken, rfl, rfl, orders.2.2.2.2.1 0 (by decide)⟩

end Dope.Uring.Queue
