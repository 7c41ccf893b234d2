import Dope.OneShot.Inv

/-! # Runs of a one-shot pool

Every authority comes back once, whatever order the kernel, the clock and the owner
act in, and whenever the submission queue is full.
-/

namespace Dope.OneShot

open Function

variable {A P : Type} {bounds : Bounds} {world : World A P} {cell : Cell A P} {key : Local}
  {pool : Pool A P} {driver driver' : Driver P} {progress : Progress A} {flight fd : Nat}
  {result : Except Error Unit} {done : Completion Sent} {reply : Submit} {input : Input A P}
  {a : A} {kind : Kind} {action : Action P} {pool' : Pool A P} {window now : Nat}

namespace World

/-! ## Lookups -/

theorem tryAt_some {i : Nat} (found : pool.tryAt i = some (key, cell)) :
    key.index = i ∧ pool.slots i = ⟨key.epoch, .occupied cell⟩ := by
  unfold Pool.tryAt at found
  split at found
  · split at found
    · next state =>
        cases found
        exact ⟨rfl, by rw [← state]⟩
    · cases found
    · cases found
  · cases found

theorem tryKey_some (found : pool.tryKey key = some cell) :
    pool.slots key.index = ⟨key.epoch, .occupied cell⟩ := by
  unfold Pool.tryKey at found
  split at found
  · next there =>
      split at found
      · next same =>
          cases found
          rw [← same] at there ⊢
          exact (tryAt_some there).2
      · cases found
  · cases found

theorem Inv.tryAt {world : World A P} (h : world.Inv bounds) {key : Local} {cell : Cell A P}
    (slot : world.Holds key cell) : world.pool.tryAt key.index = some (key, cell) := by
  unfold Pool.tryAt
  rw [if_pos ((h.at key.index).inside cell (by rw [slot])), slot]

theorem Inv.tryKey_iff {world : World A P} (h : world.Inv bounds) {key : Local}
    {cell : Cell A P} : world.pool.tryKey key = some cell ↔
      world.pool.slots key.index = ⟨key.epoch, .occupied cell⟩ := by
  refine ⟨tryKey_some, ?_⟩
  intro slot
  unfold Pool.tryKey
  rw [h.tryAt slot]
  exact if_pos rfl

/-! ## Residents -/

theorem Inv.rest (h : world.Inv bounds) (slot : world.Holds key cell) :
    Kept bounds world world key cell cell := by
  have before := h.at key.index
  have good := before.good cell (by rw [slot])
  have epoch : (⟨key.index, (world.pool.slots key.index).epoch⟩ : Local) = key := by rw [slot]
  constructor
  · rw [← slot, update_eq_self]
  · rfl
  · exact good.1
  · rw [epoch] at good
    exact good.2
  · exact fun _ _ => rfl
  · exact fun _ => id
  · exact fun _ _ => rfl
  · intro due set
    have := before.due due set
    rw [slot] at this
    rcases this with ⟨same, other, held, owned⟩
    cases held
    exact ⟨same, owned⟩
  · exact before.armed cell (by rw [slot])
  · exact fun _ _ => Iff.rfl
  · have := before.retries key.epoch
    rw [slot] at this
    refine this.trans ⟨?_, fun either => ⟨rfl, cell, rfl, either⟩⟩
    rintro ⟨-, other, held, either⟩
    cases held
    exact either
  · exact h.once.retries
  · exact fun _ _ => Iff.rfl
  · intro mem
    have := before.stalled key.epoch mem
    rw [slot] at this
    rcases this with less | ⟨-, -, all⟩
    · exact absurd less (Nat.lt_irrefl _)
    · exact all cell rfl
  · intro op
    have := before.ops op
    rw [slot] at this
    by_cases same : op.key = key
    · rw [this (congrArg Local.index same), same]
      constructor
      · rintro ⟨-, other, held, op⟩
        cases held
        exact .inr op
      · rintro (⟨-, no⟩ | op)
        · exact absurd rfl no
        · exact ⟨rfl, cell, rfl, op⟩
    · refine ⟨fun mem => .inl ⟨mem, same⟩, ?_⟩
      rintro (⟨mem, -⟩ | op)
      · exact mem
      · exact absurd (Cell.op?_key op) same
  · exact h.once.outstanding
  · exact fun _ _ _ => Iff.rfl
  · intro fd
    refine ⟨h.uncreated slot, ?_⟩
    intro held
    have := before.holds cell fd (by rw [slot]) held
    rw [epoch] at this
    exact this
  · exact h.once.created
  · rfl
  · rfl
  · exact .inl ⟨rfl, rfl⟩

theorem Inv.due (h : world.Inv bounds) (slot : world.Holds key cell)
    (held : cell.authority = some a) :
    ∃ due, world.pool.deadlines key.index = some due ∧ due.epoch = key.epoch := by
  have rest := h.rest slot
  rcases Option.ne_none_iff_exists'.mp (rest.armed (by rw [held]; nofun)) with ⟨due, set⟩
  exact ⟨due, set, (rest.due due set).1⟩

/-- A resident without an operation has none with the driver. -/
theorem Inv.idle (h : world.Inv bounds) (slot : world.Holds key cell) (none : cell.op? key = none)
    (op : Op P) : op ∈ world.driver.outstanding ↔ op ∈ world.driver.outstanding ∧ op.key ≠ key := by
  have all := (h.rest slot).ops op
  rw [none] at all
  simpa using all

/-! ## Cancellations -/

/-- What a cancellation makes of a phase. -/
structure Stopped (bounds : Bounds) (cell : Cell A P) (key : Local) (phase : Phase) : Prop where
  op : ({ cell with phase } : Cell A P).op? key = cell.op? key
  waits : phase.waits = false
  fd : phase.fd? = cell.phase.fd?
  good : ({ cell with authority := none, phase } : Cell A P).Good bounds

theorem Inv.stop (h : world.Inv bounds) (slot : world.Holds key cell) {phase : Phase}
    (stopped : Stopped bounds cell key phase) (deadlines : Nat → Option Due)
    (retries stalled : List Local) (handed : List (Local × A))
    (others : ∀ j, j ≠ key.index → deadlines j = world.pool.deadlines j)
    (due : deadlines key.index = none)
    (queue : ∀ k, k ≠ key → (k ∈ retries ↔ k ∈ world.pool.retries)) (line : retries.Nodup)
    (stall : ∀ k, k ≠ key → (k ∈ stalled ↔ k ∈ world.stalled))
    (same : key ∈ retries ↔ key ∈ stalled) (stops : key ∈ stalled → phase.stops)
    (back : cell.authority = none ∧ handed = world.handed ∨ ∃ a, cell.authority = some a ∧ handed
      = (key, a) :: world.handed) :
    Inv bounds { world with
      pool := { world.pool.put key { cell with authority := none, phase } with
        deadlines, retries }
      handed, stalled } := by
  have rest := h.rest slot
  refine h.kept slot (?_ : Kept bounds world _ key cell { cell with authority := none, phase })
  exact { rest with
    slots := rfl
    good := stopped.good
    authority := nofun
    deadlines := others
    due := by
      intro d (set : deadlines key.index = some d)
      rw [due] at set
      cases set
    armed := fun no => absurd rfl no
    retries := queue
    queue := line
    queued := by
      rw [stopped.waits]
      simpa using same
    stalled := stall
    stall := fun mem => ⟨rfl, stops mem⟩
    ops := by
      intro op
      have := rest.ops op
      rw [← stopped.op] at this
      exact this
    holds := by
      intro fd
      have := rest.holds fd
      rw [← stopped.fd] at this
      exact this
    handed := by
      rcases back with ⟨none, same⟩ | ⟨a, held, more⟩
      · exact .inl ⟨same, none.symm⟩
      · exact .inr ⟨a, held, rfl, more⟩ }

theorem cancel_cases (good : cell.Good bounds) (key : Local) (reply : Stop) :
    cell.phase.stops = true ∧ (
      (∃ phase, Stopped bounds cell key phase ∧ reply = .accepted ∧
        cell.phase.cancel reply = (phase, .ok .pending)) ∨
      Stopped bounds cell key cell.phase ∧ reply = .full ∧
        cell.phase.cancel reply = (cell.phase, .ok .retry) ∨
      ∃ failure, Stopped bounds cell key cell.phase ∧ reply = .rejected failure ∧
        cell.phase.cancel reply = (cell.phase, .error failure)) ∨
    (∃ fd, cell.authority ≠ none ∧ cell.phase.stops = false ∧ cell.phase.fd? = some fd ∧
      cell.op? key = none ∧ cell.phase.cancel reply = (.retired, .ok (.idle fd))) ∨
    cell.authority = none ∧ cell.phase.stops = false := by
  rcases good with ⟨offset, state⟩
  cases phase : cell.phase with
  | creating slot flight window =>
    left
    refine ⟨rfl, ?_⟩
    have same : Stopped bounds cell key (.creating slot flight window) := by
      constructor <;> simp [Cell.op?, phase, Phase.waits, Phase.fd?, Cell.Good, offset]
    cases reply with
    | accepted =>
      refine .inl ⟨.creatingCancelled slot flight, ?_, rfl, rfl⟩
      constructor <;> simp [Cell.op?, phase, Phase.waits, Phase.fd?, Cell.Good, offset]
    | full => exact .inr (.inl ⟨same, rfl, rfl⟩)
    | rejected failure => exact .inr (.inr ⟨failure, same, rfl, rfl⟩)
  | connecting fd flight window =>
    left
    refine ⟨rfl, ?_⟩
    have same : Stopped bounds cell key (.connecting fd flight window) := by
      constructor <;> simp [Cell.op?, phase, Phase.waits, Phase.fd?, Cell.Good, offset]
    cases reply with
    | accepted =>
      refine .inl ⟨.connectingCancelled fd flight, ?_, rfl, rfl⟩
      constructor <;> simp [Cell.op?, phase, Phase.waits, Phase.fd?, Cell.Good, offset]
    | full => exact .inr (.inl ⟨same, rfl, rfl⟩)
    | rejected failure => exact .inr (.inr ⟨failure, same, rfl, rfl⟩)
  | sending fd flight bytes =>
    left
    refine ⟨rfl, ?_⟩
    rw [phase] at state
    have same : Stopped bounds cell key (.sending fd flight bytes) := by
      constructor
      · simp [Cell.op?, phase]
      · rfl
      · rw [phase]
      · exact ⟨offset, state⟩
    cases reply with
    | accepted => exact .inl ⟨_, same, rfl, rfl⟩
    | full => exact .inr (.inl ⟨same, rfl, rfl⟩)
    | rejected failure => exact .inr (.inr ⟨failure, same, rfl, rfl⟩)
  | connectRetry fd window =>
    rw [phase] at state
    exact .inr (.inl ⟨fd, state, rfl, rfl, by rw [Cell.op?, phase], rfl⟩)
  | sendRetry fd =>
    rw [phase] at state
    exact .inr (.inl ⟨fd, state, rfl, rfl, by rw [Cell.op?, phase], rfl⟩)
  | creatingCancelled slot flight =>
    rw [phase] at state
    exact .inr (.inr ⟨state, rfl⟩)
  | connectingCancelled fd flight =>
    rw [phase] at state
    exact .inr (.inr ⟨state, rfl⟩)
  | retired =>
    rw [phase] at state
    exact state.elim

/-- What a cancellation is reported with, whether the kernel takes it or rejects it. -/
def Told (reason : Cancellation) (reply : Stop) (error : Error) : Prop :=
  error = .fromCancellation reason ∨
    ∃ failure, reply = .rejected failure ∧ error = .cancellation reason failure

/-! ## Entries -/

theorem discard_vacant (pool : Pool A P) (key : Local) :
    (pool.discard key).slots key.index = ⟨key.epoch, .retired⟩ ∨
      (pool.discard key).slots key.index = ⟨key.epoch + 1, .free⟩ := by
  show update pool.slots key.index _ key.index = _ ∨
    update pool.slots key.index _ key.index = _
  rw [update_self]
  split
  · exact .inl rfl
  · exact .inr rfl

theorem Inv.unqueued (h : world.Inv bounds) (slot : world.Holds key cell)
    (held : cell.authority ≠ none) : key ∉ world.stalled ∧
      (key ∈ world.pool.retries ↔ cell.phase.waits = true) := by
  have rest := h.rest slot
  have unstalled : key ∉ world.stalled := fun mem => held (rest.stall mem).1
  refine ⟨unstalled, ?_⟩
  rw [rest.queued]
  simp [unstalled]

theorem stall_some (h : world.Inv bounds) (slot : world.Holds key cell) (owned : Bool)
    (reply : Stop) :
    world.stall key owned reply =
      if cell.authority.isSome = owned then
        if reply = .full && cell.phase.stops then key :: world.stalled.filter (· ≠ key)
        else world.stalled.filter (· ≠ key)
      else world.stalled := by
  unfold stall
  rw [h.tryKey_iff.mpr slot]

theorem stops_waits {phase : Phase} (stops : phase.stops = true) : phase.waits = false := by
  cases phase <;> first | rfl | cases stops

theorem Inv.cancel {world : World A P} (h : world.Inv bounds) {key : Local} {cell : Cell A P}
    (slot : world.Holds key cell) (reason : Cancellation) (reply : Stop) {progress : Progress A}
    {pool : Pool A P} {driver : Driver P}
    (run : world.pool.cancel key cell reason reply world.driver = (progress, pool, driver)) :
    Inv bounds { world with
      pool, driver, handed := world.hand key progress, stalled := world.stall key true reply } ∧
    ((cell.authority = none ∧ progress = .idle) ∨
      ∃ a e, cell.authority = some a ∧ progress = .complete a (.error e) ∧
        Told reason reply e) := by
  have rest := h.rest slot
  have due : ∀ j, j ≠ key.index → (world.pool.due key.index none).deadlines j =
      world.pool.deadlines j := fun j apart => update_of_ne apart ..
  have cleared : (world.pool.due key.index none).deadlines key.index = none :=
    update_self ..
  rw [stall_some h slot]
  cases held : cell.authority with
  | none =>
    have idle : cell.cancel reply = (none, cell) := by
      unfold Cell.cancel
      rw [held]
    unfold Pool.cancel at run
    rw [idle] at run
    cases run
    refine ⟨?_, .inl ⟨rfl, rfl⟩⟩
    refine h.kept slot (?_ : Kept bounds world _ key cell cell)
    exact { rest with
      slots := rfl
      deadlines := due
      due := by
        intro d (set : (world.pool.due key.index none).deadlines key.index = some d)
        rw [cleared] at set
        cases set
      armed := fun no => absurd held no }
  | some a =>
    have unqueued := h.unqueued slot (by rw [held]; nofun)
    have quiet : cell.phase.stops = true → key ∉ world.pool.retries := by
      intro stops
      rw [unqueued.2, stops_waits stops]
      nofun
    have cut : ∀ {phase out}, cell.phase.cancel reply = (phase, out) →
        cell.cancel reply = (some (a, out), { cell with authority := none, phase }) := by
      intro phase out cancel
      unfold Cell.cancel
      rw [held]
      simp only [cancel]
    rcases cancel_cases rest.good key reply with
      ⟨stops, ⟨phase, stopped, accepted, cancel⟩ | ⟨stopped, full, cancel⟩ |
        ⟨failure, stopped, rejected, cancel⟩⟩ | ⟨fd, -, stops, fd', op, cancel⟩ | ⟨none, -⟩
    · rw [Pool.cancel, cut cancel] at run
      cases run
      refine ⟨?_, .inr ⟨a, _, rfl, rfl, .inl rfl⟩⟩
      have quiet := quiet stops
      refine h.stop slot stopped _ world.pool.retries _ _ due cleared (fun _ _ => Iff.rfl)
        h.once.retries ?_ ?_ ?_ (.inr ⟨a, held, rfl⟩)
      · intro k apart
        simp [accepted, apart]
      · simp [accepted, quiet]
      · simp [accepted]
    · rw [Pool.cancel, cut cancel] at run
      cases run
      refine ⟨?_, .inr ⟨a, _, rfl, rfl, .inl rfl⟩⟩
      have quiet := quiet stops
      have put : ((world.pool.due key.index none).put key { cell with authority := none }).schedule
          key = { (world.pool.due key.index none).put key { cell with authority := none } with
            retries := world.pool.retries ++ [key] } := if_neg quiet
      rw [put]
      refine h.stop slot stopped _ _ _ _ due cleared ?_ ?_ ?_ ?_ ?_ (.inr ⟨a, held, rfl⟩)
      · intro k apart
        simp [apart]
      · have := h.once.retries
        grind
      · intro k apart
        simp [full, stops, apart]
      · simp [full, stops]
      · intro _
        exact stops
    · rw [Pool.cancel, cut cancel] at run
      cases run
      refine ⟨?_, .inr ⟨a, _, rfl, rfl, .inr ⟨failure, rejected, rfl⟩⟩⟩
      have quiet := quiet stops
      have put : ((world.pool.due key.index none).put key { cell with authority := none }).unlink
          key = { (world.pool.due key.index none).put key { cell with authority := none } with
            retries := world.pool.retries } := by
        show { (world.pool.due key.index none).put key { cell with authority := none } with
          retries := world.pool.retries.erase key } = _
        rw [List.erase_of_not_mem quiet]
      rw [put]
      refine h.stop slot stopped _ _ _ _ due cleared (fun _ _ => Iff.rfl)
        h.once.retries ?_ ?_ ?_ (.inr ⟨a, held, rfl⟩)
      · intro k apart
        simp [rejected, apart]
      · simp [rejected, quiet]
      · simp [rejected]
    · rw [Pool.cancel, cut cancel] at run
      cases run
      refine ⟨?_, .inr ⟨a, _, rfl, rfl, .inl rfl⟩⟩
      refine h.gone slot (?_ : Gone world _ key cell)
      constructor
      · exact fun i apart => update_of_ne apart ..
      · exact discard_vacant _ key
      · rfl
      · exact fun _ _ => rfl
      · rfl
      · rfl
      · intro k apart
        simp [stops, apart]
      · intro other
        have all := rest.ops other
        rw [op] at all
        refine ⟨?_, And.left⟩
        intro mem
        rcases all.mp mem with both | no
        · exact both
        · cases no
      · exact h.once.outstanding
      · refine .inl ⟨rfl, ?_, ?_⟩
        · intro n same
          rw [fd'] at same
          cases same
          rfl
        · intro none
          rw [fd'] at none
          cases none
      · rfl
      · exact .inr ⟨a, held, rfl⟩
    · rw [held] at none
      cases none

/-! ## Completions -/

/-- A pool in which nothing but the due of a position and its place in the retry queue
has changed. -/
structure Like (old new : Pool A P) (key : Local) : Prop where
  slots : new.slots = old.slots
  capacity : new.capacity = old.capacity
  last : new.last = old.last
  deadlines : ∀ j, j ≠ key.index → new.deadlines j = old.deadlines j
  retries : new.retries.erase key = old.retries.erase key

theorem like_refl (pool : Pool A P) (key : Local) : Like pool pool key :=
  ⟨rfl, rfl, rfl, fun _ _ => rfl, rfl⟩

theorem like_due (pool : Pool A P) (key : Local) (due : Option Due) :
    Like pool (pool.due key.index due) key :=
  ⟨rfl, rfl, rfl, fun _ apart => update_of_ne apart .., rfl⟩

/-- What the driver knows while a resident is examined, whose operation is over. -/
structure Settled (old new : Driver P) (key : Local) (cell : Cell A P) (fd : Option Nat) :
    Prop where
  ops : ∀ op, op ∈ new.outstanding ↔ op ∈ old.outstanding ∧ op.key ≠ key
  outstanding : new.outstanding.Nodup
  closed : new.closed = old.closed
  made : new.created = old.created ∧ fd = cell.phase.fd? ∨
    ∃ n, fd = some n ∧ cell.phase.fd? = none ∧ new.created = (key, n) :: old.created

/-- The descriptor of a resident that leaves is closed, when there is one. -/
def shut (driver : Driver P) (key : Local) : Option Nat → Driver P
  | some fd => driver.close key fd
  | none => driver

/-- A resident with a retired phase is taken from its position, and its descriptor is
closed. -/
theorem Inv.taken (h : world.Inv bounds) (new : World A P) (cell' : Cell A P)
    (slot : world.Holds key cell) (like : Like world.pool pool key) {fd : Option Nat}
    (settled : Settled world.driver driver key cell fd)
    (authority : cell'.authority = cell.authority) (retired : cell'.phase.fd? = none)
    (run : pool.finishDone key cell' result driver = (progress, pool', driver'))
    (closed : new.driver = shut driver' key fd) (pools : new.pool = pool')
    (accepted : new.accepted = world.accepted) (handed : new.handed = world.hand key progress)
    (acked : ∀ k, k ≠ key → new.acked k = world.acked k)
    (stalled : ∀ k, k ≠ key → (k ∈ new.stalled ↔ k ∈ world.stalled)) :
    new.Inv bounds ∧ (cell.authority = none ∧ progress = .idle ∨
      ∃ a, cell.authority = some a ∧ progress = .complete a result) := by
  have same : driver' = driver := by
    unfold Pool.finishDone Pool.take at run
    rw [retired] at run
    cases run
    rfl
  have outcome : progress = cell.authority.elim .idle fun a => .complete a result := by
    unfold Pool.finishDone Pool.take at run
    rw [authority] at run
    cases run
    cases cell.authority <;> rfl
  have vacant : pool' = ((pool.due key.index none).unlink key).discard key := by
    unfold Pool.finishDone Pool.take at run
    cases run
    rfl
  rw [same] at closed
  rw [vacant] at pools
  have rest := h.rest slot
  have back : cell.authority = none ∧ new.handed = world.handed ∧ progress = .idle ∨
      ∃ a, cell.authority = some a ∧ new.handed = (key, a) :: world.handed ∧
        progress = .complete a result := by
    cases held : cell.authority with
    | none =>
      rw [held] at outcome
      rw [outcome] at handed
      exact .inl ⟨rfl, handed, outcome⟩
    | some a =>
      rw [held] at outcome
      rw [outcome] at handed
      exact .inr ⟨a, rfl, handed, outcome⟩
  refine ⟨?_, ?_⟩
  · refine h.gone slot ?_
    constructor
    · intro i apart
      rw [pools]
      exact (update_of_ne apart ..).trans (congrFun like.slots i)
    · rw [pools]
      exact discard_vacant _ key
    · rw [pools]
      exact like.capacity
    · exact acked
    · rw [pools]
      funext j
      by_cases index : j = key.index
      · rw [index, update_self]
        exact update_self ..
      · rw [update_of_ne index]
        exact (update_of_ne index ..).trans (like.deadlines j index)
    · rw [pools]
      exact like.retries
    · exact stalled
    · intro op
      rw [closed, ← settled.ops]
      cases fd <;> rfl
    · rw [closed]
      cases fd <;> exact settled.outstanding
    · rw [closed]
      rcases settled.made with ⟨created, held⟩ | ⟨n, some, none, created⟩
      · refine .inl ⟨?_, ?_, ?_⟩
        · cases fd <;> exact created
        · intro n same
          rw [same] at held
          rw [held]
          exact congrArg _ settled.closed
        · intro none
          rw [none] at held
          rw [held]
          exact settled.closed
      · rw [some]
        exact .inr ⟨n, none, created, congrArg _ settled.closed⟩
    · exact accepted
    · rcases back with ⟨none, same, -⟩ | ⟨a, held, more, -⟩
      · exact .inl ⟨none, same⟩
      · exact .inr ⟨a, held, more⟩
  · rcases back with ⟨none, -, idle⟩ | ⟨a, held, -, complete⟩
    · exact .inl ⟨none, idle⟩
    · exact .inr ⟨a, held, complete⟩

/-- A resident with a retired phase is taken, and the descriptor it had is closed. -/
theorem Inv.finished (h : world.Inv bounds) (new : World A P) (cell' : Cell A P)
    (slot : world.Holds key cell) (like : Like world.pool pool key)
    (settled : Settled world.driver driver key cell (some fd))
    (authority : cell'.authority = cell.authority) (retired : cell'.phase.fd? = none)
    (run : pool.finish key cell' result fd driver = (progress, pool', driver'))
    (pools : new.pool = pool') (drivers : new.driver = driver')
    (accepted : new.accepted = world.accepted) (handed : new.handed = world.hand key progress)
    (acked : ∀ k, k ≠ key → new.acked k = world.acked k)
    (stalled : ∀ k, k ≠ key → (k ∈ new.stalled ↔ k ∈ world.stalled)) :
    new.Inv bounds ∧ (cell.authority = none ∧ progress = .idle ∨
      ∃ a, cell.authority = some a ∧ progress = .complete a result) := by
  rcases done : pool.finishDone key cell' result driver with ⟨progress', pool'', driver''⟩
  unfold Pool.finish at run
  rw [done] at run
  cases run
  exact h.taken new cell' slot like settled authority retired done drivers pools accepted handed acked
    stalled

theorem submit_cases {cell : Cell A P} (inside : cell.offset ≤ cell.payload.length) (fd : Nat)
    (key : Local) (reply : Submit) (driver : Driver P) :
    cell.offset = cell.payload.length ∧
        cell.submit bounds fd key reply driver = .ok (.complete fd, cell, driver) ∨
      cell.submit bounds fd key reply driver =
        .ok (.failed (.submit .identityExhausted) fd, cell, driver) ∨
      reply = .full ∧ cell.submit bounds fd key reply driver =
        .ok (.retry, { cell with phase := .sendRetry fd }, driver) ∨
      ∃ flight bytes, bytes = min (cell.payload.length - cell.offset) bounds.transfer ∧
        0 < bytes ∧ cell.submit bounds fd key reply driver =
          .ok (.submitted, { cell with phase := .sending fd flight bytes },
            driver.submit ⟨key, flight, .send fd cell.offset bytes⟩) := by
  unfold Cell.submit
  rw [if_neg (Nat.not_lt.mpr inside)]
  dsimp only
  have positive := bounds.positive
  by_cases empty : min (cell.payload.length - cell.offset) bounds.transfer = 0
  · rw [if_pos empty]
    refine .inl ⟨?_, rfl⟩
    omega
  · rw [if_neg empty]
    cases reply with
    | ok flight => exact .inr (.inr (.inr ⟨flight, _, rfl, Nat.pos_of_ne_zero empty, rfl⟩))
    | full => exact .inr (.inr (.inl ⟨rfl, rfl⟩))
    | identityExhausted => exact .inr (.inl rfl)

theorem submit_ok {cell : Cell A P} (inside : cell.offset ≤ cell.payload.length) (fd : Nat)
    (key : Local) (reply : Submit) (driver : Driver P) : ∃ sent cell' driver',
      cell.submit bounds fd key reply driver = .ok (sent, cell', driver') := by
  rcases @submit_cases _ _ bounds cell inside fd key reply driver with
    ⟨-, same⟩ | same | ⟨-, same⟩ | ⟨flight, bytes, -, -, same⟩
  · exact ⟨_, _, _, same⟩
  · exact ⟨_, _, _, same⟩
  · exact ⟨_, _, _, same⟩
  · exact ⟨_, _, _, same⟩

/-- A resident with its authority goes on to another phase, and its due stays. -/
theorem Inv.goes (h : world.Inv bounds) (new : World A P)
    (slot : world.Holds key cell)
    (held : cell.authority = some a) (like : Like world.pool pool key) {due : Due}
    (armed : pool.deadlines key.index = some due) (epoch : due.epoch = key.epoch) {phase : Phase}
    {offset : Nat} {retries : List Local}
    (pools : new.pool = { pool.put key { cell with phase, offset } with retries })
    (good : ({ cell with phase, offset } : Cell A P).Good bounds) (line : retries.Nodup)
    (queue : ∀ k, k ≠ key → (k ∈ retries ↔ k ∈ world.pool.retries))
    (queued : key ∈ retries ↔ phase.waits = true)
    (ops : ∀ op, op ∈ new.driver.outstanding ↔ op ∈ world.driver.outstanding ∧ op.key ≠ key ∨
      ({ cell with phase, offset } : Cell A P).op? key = some op) (once : new.driver.outstanding.Nodup)
    (made : new.driver.created = world.driver.created ∧ phase.fd? = cell.phase.fd? ∨
      ∃ fd, phase.fd? = some fd ∧ cell.phase.fd? = none ∧
        new.driver.created = (key, fd) :: world.driver.created)
    (closed : new.driver.closed = world.driver.closed) (accepted : new.accepted = world.accepted)
    (handed : new.handed = world.handed) (acked : ∀ k, k ≠ key → new.acked k = world.acked k)
    (acked' : new.acked key = offset) (stalled : new.stalled = world.stalled) : new.Inv bounds := by
  have rest := h.rest slot
  have unstalled := (h.unqueued slot (by rw [held]; nofun)).1
  cases new with
  | mk p d ac ha ak st =>
  dsimp only at pools ops once made closed accepted handed acked acked' stalled
  subst pools accepted handed stalled
  refine h.kept slot (?_ : Kept bounds world _ key cell { cell with phase, offset })
  exact { rest with
    slots := congrArg (fun slots => update slots key.index _) like.slots
    capacity := like.capacity
    good := good
    offset := acked'.symm
    acked := acked
    authority := fun _ => id
    deadlines := like.deadlines
    due := by
      intro d (set : pool.deadlines key.index = some d)
      rw [armed] at set
      cases set
      exact ⟨epoch, by rw [held]; nofun⟩
    armed := by
      intro _ (none : pool.deadlines key.index = none)
      rw [armed] at none
      cases none
    retries := queue
    queue := line
    queued := by
      show key ∈ retries ↔ _
      simp [queued, unstalled]
    stall := fun mem => absurd mem unstalled
    ops := ops
    outstanding := once
    others := by
      intro k n apart
      show (k, n) ∈ d.created ↔ _
      rcases made with ⟨same, -⟩ | ⟨fd, -, -, more⟩
      · rw [same]
      · rw [more]
        simp [apart]
    holds := by
      intro n
      show (key, n) ∈ d.created ↔ phase.fd? = some n
      rcases made with ⟨same, fd⟩ | ⟨fd, some, none, more⟩
      · rw [same, fd, rest.holds]
      · rw [more, some, List.mem_cons, rest.holds, none]
        simp [eq_comm]
    created := by
      show (d.created.map Prod.fst).Nodup
      rcases made with ⟨same, -⟩ | ⟨fd, -, none, more⟩
      · rw [same]
        exact h.once.created
      · rw [more, List.map_cons, List.nodup_cons]
        refine ⟨?_, h.once.created⟩
        intro mem
        rcases List.mem_map.mp mem with ⟨x, there, same⟩
        have pair : x = (key, x.2) := Prod.ext same rfl
        rw [pair, rest.holds, none] at there
        cases there
    closed := closed
    handed := .inl ⟨rfl, rfl⟩ }

theorem Inv.settle (h : world.Inv bounds) (new : World A P)
    (slot : world.Holds key cell)
    (held : cell.authority = some a) (like : Like world.pool pool key) (quiet : key ∉ pool.retries)
    (line : pool.retries.Nodup) {due : Due} (armed : pool.deadlines key.index = some due)
    (epoch : due.epoch = key.epoch) (settled : Settled world.driver driver key cell (some fd))
    (holds : cell.phase.fd? = some fd) {offset : Nat} (inside : offset ≤ cell.payload.length)
    {sent : SendProgress} {cell' : Cell A P}
    (submit : ({ cell with phase := .retired, offset } : Cell A P).submit bounds fd key reply
      driver = .ok (sent, cell', driver')) {pool'' : Pool A P} {driver'' : Driver P}
    (run : pool.settle key cell' sent driver' = (progress, pool'', driver''))
    (pools : new.pool = pool'') (drivers : new.driver = driver'')
    (accepted : new.accepted = world.accepted) (handed : new.handed = world.hand key progress)
    (acked : ∀ k, k ≠ key → new.acked k = world.acked k) (acked' : new.acked key = offset)
    (stalled : new.stalled = world.stalled) :
    new.Inv bounds ∧ (progress = .pending ∨ ∃ result, progress = .complete a result ∧
      (result = .ok () → offset = cell.payload.length)) := by
  have retries : ∀ k, k ≠ key → (k ∈ pool.retries ↔ k ∈ world.pool.retries) := by
    intro k apart
    rw [← List.mem_erase_of_ne apart, like.retries, List.mem_erase_of_ne apart]
  have created : driver.created = world.driver.created := by
    rcases settled.made with ⟨same, -⟩ | ⟨-, -, none, -⟩
    · exact same
    · rw [holds] at none
      cases none
  have leave : ∀ result, pool.finish key { cell with phase := .retired, offset } result fd driver =
      (progress, pool'', driver'') → new.Inv bounds ∧ progress = .complete a result := by
    intro result gone
    rcases h.finished new { cell with phase := .retired, offset } slot like settled rfl rfl gone
      pools drivers accepted handed acked (fun k _ => by rw [stalled]) with
      ⟨inv, ⟨none, -⟩ | ⟨b, same, complete⟩⟩
    · rw [held] at none
      cases none
    · rw [held] at same
      cases same
      exact ⟨inv, complete⟩
  rcases @submit_cases _ _ bounds { cell with phase := .retired, offset } inside fd key reply driver
    with ⟨all, same⟩ | same | ⟨-, same⟩ | ⟨flight, bytes, amount, positive, same⟩
  · rw [same] at submit
    cases submit
    rcases leave _ run with ⟨inv, complete⟩
    exact ⟨inv, .inr ⟨_, complete, fun _ => all⟩⟩
  · rw [same] at submit
    cases submit
    rcases leave _ run with ⟨inv, complete⟩
    exact ⟨inv, .inr ⟨_, complete, nofun⟩⟩
  · rw [same] at submit
    cases submit
    have put : (pool.put key { cell with phase := .sendRetry fd, offset }).schedule key =
        { pool.put key { cell with phase := .sendRetry fd, offset } with
          retries := pool.retries ++ [key] } := if_neg quiet
    unfold Pool.settle at run
    dsimp only at run
    rw [put] at run
    cases run
    refine ⟨?_, .inl rfl⟩
    refine h.goes new slot held like armed epoch pools ⟨inside, ?_⟩ ?_ ?_ ?_ ?_ ?_ ?_ ?_ accepted
      handed acked acked' stalled
    · show cell.authority ≠ none
      rw [held]
      nofun
    · grind
    · intro k apart
      rw [← retries k apart]
      simp [apart]
    · simp [Phase.waits]
    · intro op
      rw [drivers, settled.ops]
      simp [Cell.op?]
    · rw [drivers]
      exact settled.outstanding
    · rw [drivers, holds]
      exact .inl ⟨created, rfl⟩
    · rw [drivers]
      exact settled.closed
  · rw [same] at submit
    cases submit
    cases run
    refine ⟨?_, .inl rfl⟩
    refine h.goes new slot held like armed epoch pools ⟨inside, amount, positive⟩ line retries ?_ ?_
      ?_ ?_ ?_ accepted handed acked acked' stalled
    · simp [Phase.waits, quiet]
    · intro op
      rw [drivers]
      show op ∈ _ :: driver.outstanding ↔ _
      rw [List.mem_cons, settled.ops, or_comm]
      simp [Cell.op?, eq_comm]
    · rw [drivers]
      exact List.nodup_cons.mpr
        ⟨fun mem => ((settled.ops _).mp mem).2 rfl, settled.outstanding⟩
    · rw [drivers, holds]
      exact .inl ⟨created, rfl⟩
    · rw [drivers]
      exact settled.closed

/-! ## Deliveries -/

theorem names_iff {op : Op P} :
    Driver.names kind key flight op = true ↔
      op.action.kind = kind ∧ op.key = key ∧ op.flight = flight := by
  unfold Driver.names
  simp [and_assoc]

theorem deliver_idle (stale : driver.waits kind key flight = false) :
    driver.deliver kind key flight = driver := by
  unfold Driver.waits at stale
  unfold Driver.deliver
  have same : driver.outstanding.filter (fun op => !Driver.names kind key flight op) =
      driver.outstanding := by
    rw [List.filter_eq_self]
    intro op mem
    rw [List.any_eq_false] at stale
    simpa using stale op mem
  rw [same]

theorem put_same (slot : pool.slots key.index = ⟨key.epoch, .occupied cell⟩) :
    pool.put key cell = pool := by
  show { pool with slots := update pool.slots key.index ⟨key.epoch, .occupied cell⟩ } = _
  rw [← slot, update_eq_self]

/-- What is delivered was waited for by the resident of its position. -/
theorem Inv.delivered (h : world.Inv bounds) (current : world.driver.waits kind key flight = true) :
    ∃ cell action, world.pool.slots key.index = ⟨key.epoch, .occupied cell⟩ ∧
      cell.op? key = some ⟨key, flight, action⟩ ∧ action.kind = kind ∧
      (⟨key, flight, action⟩ : Op P) ∈ world.driver.outstanding ∧
      ∀ op, op ∈ (world.driver.deliver kind key flight).outstanding ↔
        op ∈ world.driver.outstanding ∧ op.key ≠ key := by
  unfold Driver.waits at current
  rcases List.any_eq_true.mp current with ⟨op, mem, named⟩
  rcases names_iff.mp named with ⟨same, named, flown⟩
  cases op with
  | mk key' flight' action =>
  dsimp only at same named flown
  subst named flown
  rcases (h.at key'.index |>.ops _ rfl).mp mem with ⟨epoch, cell, state, op⟩
  have slot : world.pool.slots key'.index = ⟨key'.epoch, .occupied cell⟩ := by
    dsimp only at epoch
    rw [epoch, ← state]
  refine ⟨cell, action, slot, op, same, mem, ?_⟩
  intro other
  show other ∈ world.driver.outstanding.filter _ ↔ _
  rw [List.mem_filter]
  refine and_congr_right ?_
  intro there
  rw [Bool.not_eq_true', ← Bool.not_eq_true, names_iff]
  refine not_congr ⟨fun all => all.2.1, ?_⟩
  intro key
  rcases ((h.rest slot).ops other).mp there with ⟨-, no⟩ | mine
  · exact absurd key no
  · rw [op] at mine
    cases mine
    exact ⟨same, rfl, rfl⟩

theorem Inv.stale (h : world.Inv bounds) (stale : world.driver.waits kind key flight = false)
    (slot : world.Holds key cell) {flight' : Nat} (op : cell.op? key = some ⟨key, flight', action⟩)
    (same : action.kind = kind) : flight ≠ flight' := by
  intro equal
  subst equal
  have mem := ((h.rest slot).ops _).mpr (.inr op)
  have named := names_iff.mpr ⟨same, rfl, (rfl : (⟨key, flight, action⟩ : Op P).flight = flight)⟩
  have yes : world.driver.waits kind key flight = true :=
    List.any_eq_true.mpr ⟨_, mem, named⟩
  rw [stale] at yes
  cases yes

/-! ## Operations -/

theorem op_socket (op : cell.op? key = some ⟨key, flight, action⟩) (kind : action.kind = .socket) :
    cell.phase.fd? = none ∧ ∃ s, action = .socket s ∧
      ((∃ window, cell.phase = .creating s flight window) ∨
        cell.phase = .creatingCancelled s flight) := by
  unfold Cell.op? at op
  cases phase : cell.phase with
  | creating s n window =>
    rw [phase] at op
    cases op
    exact ⟨rfl, s, rfl, .inl ⟨window, rfl⟩⟩
  | creatingCancelled s n =>
    rw [phase] at op
    cases op
    exact ⟨rfl, s, rfl, .inr rfl⟩
  | connecting | connectingCancelled | sending =>
    rw [phase] at op
    cases op
    cases kind
  | connectRetry | sendRetry | retired =>
    rw [phase] at op
    cases op

theorem op_connect (op : cell.op? key = some ⟨key, flight, action⟩) (kind : action.kind = .connect) :
    ∃ fd, cell.phase.fd? = some fd ∧
      ((∃ window, cell.phase = .connecting fd flight window) ∨
        cell.phase = .connectingCancelled fd flight) := by
  unfold Cell.op? at op
  cases phase : cell.phase with
  | connecting fd n window =>
    rw [phase] at op
    cases op
    exact ⟨fd, rfl, .inl ⟨window, rfl⟩⟩
  | connectingCancelled fd n =>
    rw [phase] at op
    cases op
    exact ⟨fd, rfl, .inr rfl⟩
  | creating | creatingCancelled | sending =>
    rw [phase] at op
    cases op
    cases kind
  | connectRetry | sendRetry | retired =>
    rw [phase] at op
    cases op

/-! ## Steps -/

/-- A completion that the kernel owes is never given back. -/
def Current (world : World A P) : Input A P → Prop
  | .socket done _ => world.driver.waits .socket done.key done.flight = true
  | .connect done _ _ => world.driver.waits .connect done.key done.flight = true
  | .send done _ => world.driver.waits .send done.key done.flight = true
  | .trySend .. | .tryCancel .. | .cancelNext .. | .expireOne .. | .retryOne .. | .finish => True

/-- What an input does. An authority is handed back with the request it came with, and
successfully when every byte was acknowledged. An unsent request comes back, and a
stale completion changes nothing. -/
structure Proper (world : World A P) (input : Input A P) (output : Output A P)
    (next : World A P) : Prop where
  complete : ∀ a result, output = .progress (.complete a result) → ∃ key,
    next.handed = (key, a) :: world.handed ∧ (key, a) ∈ world.accepted ∧
    (∀ b, (key, b) ∉ world.handed) ∧ (result = .ok () → ∃ cell,
      world.pool.tryKey key = some cell ∧ next.acked key = cell.payload.length)
  silent : (∀ a result, output ≠ .progress (.complete a result)) →
    (∀ owners, output ≠ .released owners) → next.handed = world.handed
  released : ∀ owners, output = .released owners → next.handed = owners ++ world.handed ∧
    ∀ i, next.pool.tryAt i = none
  unsent : ∀ cause, output = .dispatch (.unsent cause) → next = world ∧
    ∃ index vacancy reply, input = .trySend index cause.request vacancy reply
  stale : ¬ world.Current input → next = world ∧ (output = .progress .idle ∨ output = .refused)
  current : world.Current input → output ≠ .refused

def Follows (bounds : Bounds) (world : World A P) (input : Input A P) : Prop :=
  ∃ output next, world.step bounds input = .ok (output, next) ∧ next.Inv bounds ∧
    Proper world input output next

/-- An input after which a resident is still pending. -/
theorem Proper.full {next : World A P} {stop : Stop} {dial : Establish}
    (handed : next.handed = world.handed) :
    Proper world (.retryOne stop dial reply) (.full .full) next :=
  ⟨nofun, fun _ _ => handed, nofun, nofun, fun no => absurd trivial no, fun _ => nofun⟩

theorem Proper.pending {next : World A P} (handed : next.handed = world.handed)
    (current : world.Current input) (quiet : ∀ a result, progress ≠ .complete a result) :
    Proper world input (.progress progress) next where
  complete a result same := by
    cases same
    exact absurd rfl (quiet a result)
  silent _ _ := handed
  released := nofun
  unsent := nofun
  stale no := absurd current no
  current _ := nofun

/-- An input after which a resident may have its authority back. -/
theorem Inv.proper {world next : World A P} (h : world.Inv bounds) {key : Local} {cell : Cell A P}
    (slot : world.Holds key cell) {input : Input A P} {progress : Progress A}
    (handed : next.handed = world.hand key progress) (current : world.Current input)
    (out : progress = .idle ∨ progress = .pending ∨ ∃ a result, cell.authority = some a ∧ progress
      = .complete a result ∧ (result = .ok () → next.acked key = cell.payload.length)) :
    Proper world input (.progress progress) next := by
  rcases out with idle | pending | ⟨a, result, held, complete, all⟩
  · rw [idle] at handed ⊢
    exact .pending handed current nofun
  · rw [pending] at handed ⊢
    exact .pending handed current nofun
  · rw [complete] at handed ⊢
    have owner := h.unhanded slot held
    refine ⟨?_, ?_, nofun, nofun, fun no => absurd current no, fun _ => nofun⟩
    · intro b result' same
      cases same
      exact ⟨key, handed, owner.1, owner.2,
        fun ok => ⟨cell, h.tryKey_iff.mpr slot, all ok⟩⟩
    · intro no _
      exact absurd rfl (no a result)

/-- An input that ends a resident, unless its authority is back already. -/
theorem Inv.ends {next : World A P} (h : world.Inv bounds) (slot : world.Holds key cell)
    (current : world.Current input) {error : Error} (inv : next.Inv bounds)
    (handed : next.handed = world.hand key progress)
    (result : cell.authority = none ∧ progress = .idle ∨ ∃ a, cell.authority = some a ∧ progress =
      .complete a (.error error)) (run : world.step bounds input = .ok (.progress progress, next)) :
    Follows bounds world input := by
  refine ⟨.progress progress, next, run, inv, h.proper slot handed current ?_⟩
  rcases result with ⟨-, idle⟩ | ⟨a, held, complete⟩
  · exact .inl idle
  · exact .inr (.inr ⟨a, _, held, complete, nofun⟩)

theorem Proper.same {output : Output A P} (stale : ¬ world.Current input)
    (out : output = .progress .idle ∨ output = .refused) : Proper world input output world := by
  rcases out with idle | refused
  · rw [idle]
    exact ⟨nofun, fun _ _ => rfl, nofun, nofun, fun _ => ⟨rfl, .inl rfl⟩, fun _ => nofun⟩
  · rw [refused]
    exact ⟨nofun, fun _ _ => rfl, nofun, nofun, fun _ => ⟨rfl, .inr rfl⟩,
      fun current => absurd current stale⟩

theorem send_stale {cell : Cell A P} {done : Completion Sent} (reply : Submit) (driver : Driver P)
    (other : ∀ fd flight bytes, cell.phase = .sending fd flight bytes → done.flight ≠ flight) :
    cell.send bounds done reply driver = .ok (none, cell, driver) := by
  unfold Cell.send
  cases phase : cell.phase with
  | sending fd flight bytes => exact if_neg (other fd flight bytes phase)
  | creating | creatingCancelled | connectRetry | connecting | connectingCancelled | sendRetry
  | retired => rfl

theorem ack_other (done : Completion Sent) {k : Local} (apart : k ≠ done.key) :
    world.ack done k = world.acked k := by
  unfold ack
  cases done.outcome with
  | ok bytes =>
    dsimp only
    split
    · rw [update_of_ne apart]
    · rfl
  | error errno => rfl

theorem ack_stale (stale : world.driver.waits .send done.key done.flight = false) :
    world.ack done = world.acked := by
  unfold ack
  rw [stale]
  cases done.outcome <;> rfl

theorem ack_current (current : world.driver.waits .send done.key done.flight = true) {bytes : Nat}
    (ok : done.outcome = .ok bytes) : world.ack done done.key = world.acked done.key + bytes := by
  unfold ack
  rw [ok, current]
  exact update_self ..

theorem Inv.sendEnds (h : world.Inv bounds)
    (current : world.driver.waits .send done.key done.flight = true)
    (slot : world.Holds done.key cell)
    (settled : Settled world.driver (world.driver.deliver .send done.key done.flight) done.key
      cell (some fd)) (cell' : Cell A P) (error : Error) {sent : SendProgress}
    (authority : cell'.authority = cell.authority) (retired : cell'.phase = .retired)
    (ends : sent = .failed error fd ∨ sent = .cancelled fd ∧ error = .abandoned)
    (run : cell.send bounds done reply (world.driver.deliver .send done.key done.flight) = .ok
      (some sent, cell', world.driver.deliver .send done.key done.flight)) :
    Follows bounds world (.send done reply) := by
  rcases out : world.pool.finish done.key cell' (.error error) fd
    (world.driver.deliver .send done.key done.flight) with ⟨progress, pool, driver⟩
  rcases h.finished { world with
    pool, driver, acked := world.ack done, handed := world.hand done.key progress } cell' slot
    (like_refl ..) settled authority (by rw [retired]; rfl) out rfl rfl rfl
    rfl (fun _ => ack_other done) (fun _ _ => Iff.rfl) with ⟨inv, result⟩
  have found := h.tryKey_iff.mpr slot
  refine h.ends slot current inv rfl result ?_
  rcases ends with same | ⟨same, same'⟩
  · subst same
    simp only [step, Pool.send, found, run, Pool.settle, out]
  · subst same same'
    simp only [step, Pool.send, found, run, Pool.settle, out]

theorem step_send (h : world.Inv bounds) (done : Completion Sent) (reply : Submit) :
    Follows bounds world (.send done reply) := by
  cases current : world.driver.waits .send done.key done.flight with
  | false =>
    have run : world.pool.send bounds done reply world.driver =
        .ok (none, world.pool, world.driver) := by
      unfold Pool.send
      cases found : world.pool.tryKey done.key with
      | none => rfl
      | some cell =>
        have slot := tryKey_some found
        have stale := @send_stale _ _ bounds cell done reply world.driver (by
          intro fd flight bytes phase
          exact h.stale current slot (by rw [Cell.op?, phase]) rfl)
        simp only [stale, put_same slot]
    refine ⟨.refused, world, ?_, h, .same (by simp [Current, current]) (.inr rfl)⟩
    simp only [step, deliver_idle current, run, ack_stale current]
  | true =>
    rcases h.delivered current with ⟨cell, action, slot, op, kind, -, ops⟩
    have rest := h.rest slot
    cases phase : cell.phase with
    | creating | creatingCancelled | connecting | connectingCancelled =>
      rw [Cell.op?, phase] at op
      cases op
      cases kind
    | connectRetry | sendRetry | retired =>
      rw [Cell.op?, phase] at op
      cases op
    | sending fd flight bound =>
      rw [Cell.op?, phase] at op
      have flown : done.flight = flight := (congrArg Op.flight (Option.some.inj op)).symm
      have holds : cell.phase.fd? = some fd := by rw [phase]; rfl
      have settled : Settled world.driver
          (world.driver.deliver .send done.key done.flight) done.key cell (some fd) :=
        ⟨ops, h.once.outstanding.filter _, rfl, .inl ⟨rfl, holds.symm⟩⟩
      have good := rest.good
      rw [Cell.Good, phase] at good
      rcases good with ⟨inside, amount, positive⟩
      have found := h.tryKey_iff.mpr slot
      cases outcome : done.outcome with
      | error errno =>
        refine h.sendEnds current slot settled { cell with phase := .retired } (.send errno)
          rfl rfl (.inl rfl) ?_
        simp only [Cell.send, phase, flown, outcome, if_true]
      | ok bytes =>
        by_cases wrong : bytes = 0 ∨ bound < bytes
        · refine h.sendEnds current slot settled { cell with phase := .retired }
            (.sendAmount bytes bound) rfl rfl (.inl rfl) ?_
          simp only [Cell.send, phase, flown, outcome, if_true, if_pos wrong]
        · cases held : cell.authority with
          | none =>
            refine h.sendEnds current slot settled
              { cell with phase := .retired, offset := cell.offset + bytes } .abandoned
              rfl rfl (.inr ⟨rfl, rfl⟩) ?_
            simp only [Cell.send, phase, flown, outcome, if_true, if_neg wrong, held,
              Option.isNone_none]
          | some a =>
            have inside' : cell.offset + bytes ≤ cell.payload.length := by omega
            rcases @submit_ok _ _ bounds
              { cell with phase := .retired, offset := cell.offset + bytes } inside' fd
              done.key reply (world.driver.deliver .send done.key done.flight) with
              ⟨sent, cell', driver', submit⟩
            rcases h.due slot held with ⟨due, armed, epoch⟩
            rcases out : world.pool.settle done.key cell' sent driver' with
              ⟨progress, pool, driver⟩
            have quiet : done.key ∉ world.pool.retries := by
              rw [(h.unqueued slot (by rw [held]; simp)).2, phase]
              rintro ⟨⟩
            have acked : world.ack done done.key = cell.offset + bytes := by
              rw [ack_current current outcome, rest.offset]
            rcases h.settle { world with
              pool, driver, acked := world.ack done
              handed := world.hand done.key progress } slot held
              (like_refl ..) quiet h.once.retries armed epoch settled
              holds inside' submit out rfl rfl rfl rfl (fun _ => ack_other done) acked rfl
              with ⟨inv, result⟩
            refine ⟨.progress progress, _, ?_, inv, h.proper slot rfl current ?_⟩
            · have run : cell.send bounds done reply
                  (world.driver.deliver .send done.key done.flight) =
                    .ok (some sent, cell', driver') := by
                unfold Cell.send
                rw [phase]
                dsimp only
                rw [if_pos flown, outcome]
                dsimp only
                rw [if_neg wrong, if_neg (by rw [held]; simp)]
                simp only [submit]
              simp only [step, Pool.send, found, run, out]
            · rcases result with pending | ⟨result, complete, all⟩
              · exact .inr (.inl pending)
              · refine .inr (.inr ⟨a, result, held, complete, ?_⟩)
                intro ok
                exact acked.trans (all ok)

theorem connect_stale {cell : Cell A P} {done : Completion Connected} (now : Nat)
    (reply : Submit) (driver : Driver P)
    (other : ∀ fd flight window, cell.phase = .connecting fd flight window → done.flight ≠ flight)
    (other' : ∀ fd flight, cell.phase = .connectingCancelled fd flight → done.flight ≠ flight) :
    cell.connect bounds done now reply driver = .ok (none, cell, driver) := by
  unfold Cell.connect
  cases phase : cell.phase with
  | connecting fd flight window => exact if_neg (other fd flight window phase)
  | connectingCancelled fd flight => exact if_neg (other' fd flight phase)
  | creating | creatingCancelled | connectRetry | sending | sendRetry | retired => rfl

theorem Inv.connectEnds (h : world.Inv bounds) {done : Completion Connected}
    (current : world.driver.waits .connect done.key done.flight = true)
    (slot : world.Holds done.key cell)
    (settled : Settled world.driver (world.driver.deliver .connect done.key done.flight) done.key
      cell (some fd)) (error : Error) {step' : Connect}
    (ends : step' = .failed error fd ∨ step' = .cancelled fd ∧ error = .abandoned)
    (run : cell.connect bounds done now reply
      (world.driver.deliver .connect done.key done.flight) =
        .ok (some step', { cell with phase := .retired },
          world.driver.deliver .connect done.key done.flight)) :
    Follows bounds world (.connect done now reply) := by
  rcases out : world.pool.finish done.key { cell with phase := .retired } (.error error) fd
    (world.driver.deliver .connect done.key done.flight) with ⟨progress, pool, driver⟩
  rcases h.finished { world with pool, driver, handed := world.hand done.key progress }
    { cell with phase := .retired } slot (like_refl ..) settled rfl rfl out
    rfl rfl rfl rfl (fun _ _ => rfl) (fun _ _ => Iff.rfl) with ⟨inv, result⟩
  have found := h.tryKey_iff.mpr slot
  refine h.ends slot current inv rfl result ?_
  rcases ends with same | ⟨same, same'⟩
  · subst same
    simp only [step, Pool.connect, found, run, out]
  · subst same same'
    simp only [step, Pool.connect, found, run, out]

/-- A resident whose connect is over, and whose payload is sent. -/
theorem Inv.connects (h : world.Inv bounds) {done : Completion Connected}
    (current : world.driver.waits .connect done.key done.flight = true)
    (slot : world.Holds done.key cell) {deadline : Nat}
    (phase : cell.phase = .connecting fd flight window) (flown : done.flight = flight)
    (settled : Settled world.driver (world.driver.deliver .connect done.key done.flight) done.key
      cell (some fd)) (held : cell.authority = some a) (outcome : done.outcome = .ok)
    (time : Core.Clock.tryAdd bounds.horizon now window = .ok deadline) :
    Follows bounds world (.connect done now reply) := by
  have rest := h.rest slot
  have found := h.tryKey_iff.mpr slot
  have inside := rest.good.1
  have holds : cell.phase.fd? = some fd := by rw [phase]; rfl
  rcases @submit_ok _ _ bounds { cell with phase := .retired } inside fd done.key reply
    (world.driver.deliver .connect done.key done.flight) with ⟨sent, cell', driver', submit⟩
  have run : cell.connect bounds done now reply
      (world.driver.deliver .connect done.key done.flight) =
        .ok (some (.connected deadline sent), cell', driver') := by
    unfold Cell.connect
    rw [phase]
    dsimp only
    rw [if_pos flown, outcome]
    dsimp only
    rw [if_neg (by rw [held]; nofun), time]
    simp only [submit]
  rcases out : (world.pool.due done.key.index (some (.send done.key.epoch deadline))).settle
    done.key cell' sent driver' with ⟨progress, pool, driver⟩
  have quiet : done.key ∉ world.pool.retries := by
    rw [(h.unqueued slot (by rw [held]; nofun)).2, phase]
    nofun
  rcases h.settle { world with pool, driver, handed := world.hand done.key progress } slot held
    (like_due ..) quiet h.once.retries
    (update_self ..) rfl settled holds inside submit out rfl rfl rfl rfl
    (fun _ _ => rfl) rest.offset.symm rfl with ⟨inv, result⟩
  refine ⟨.progress progress, _, ?_, inv, h.proper slot rfl current ?_⟩
  · simp only [step, Pool.connect, found, run, out]
  · rcases result with pending | ⟨result, complete, all⟩
    · exact .inr (.inl pending)
    · refine .inr (.inr ⟨a, result, held, complete, ?_⟩)
      intro ok
      exact rest.offset.symm.trans (all ok)

theorem step_connect (h : world.Inv bounds) (done : Completion Connected) (now : Nat)
    (reply : Submit) : Follows bounds world (.connect done now reply) := by
  cases current : world.driver.waits .connect done.key done.flight with
  | false =>
    have run : world.pool.connect bounds done now reply world.driver =
        .ok (none, world.pool, world.driver) := by
      unfold Pool.connect
      cases found : world.pool.tryKey done.key with
      | none => rfl
      | some cell =>
        have slot := tryKey_some found
        have stale := @connect_stale _ _ bounds cell done now reply world.driver (by
          intro fd flight window phase
          exact h.stale current slot (by rw [Cell.op?, phase]) rfl) (by
          intro fd flight phase
          exact h.stale current slot (by rw [Cell.op?, phase]) rfl)
        simp only [stale, put_same slot]
    refine ⟨.refused, world, ?_, h, .same (by simp [Current, current]) (.inr rfl)⟩
    simp only [step, deliver_idle current, run]
  | true =>
    rcases h.delivered current with ⟨cell, action, slot, op, kind, -, ops⟩
    rcases op_connect op kind with ⟨fd, holds, phase⟩
    have settled : Settled world.driver
        (world.driver.deliver .connect done.key done.flight) done.key cell (some fd) :=
      ⟨ops, h.once.outstanding.filter _, rfl, .inl ⟨rfl, holds.symm⟩⟩
    cases outcome : done.outcome with
    | option errno =>
      refine h.connectEnds current slot settled (.option errno) (.inl rfl) ?_
      rcases phase with ⟨window, phase⟩ | phase
      · simp only [Cell.connect, phase, outcome, if_true]
      · simp only [Cell.connect, phase, outcome, if_true]
    | connect errno =>
      refine h.connectEnds current slot settled (.connect errno) (.inl rfl) ?_
      rcases phase with ⟨window, phase⟩ | phase
      · simp only [Cell.connect, phase, outcome, if_true]
      · simp only [Cell.connect, phase, outcome, if_true]
    | ok =>
      rcases phase with ⟨window, phase⟩ | phase
      · cases held : cell.authority with
        | none =>
          refine h.connectEnds current slot settled .abandoned (.inr ⟨rfl, rfl⟩) ?_
          simp only [Cell.connect, phase, outcome, if_true, held, Option.isNone_none]
        | some a =>
          cases time : Core.Clock.tryAdd bounds.horizon now window with
          | ok deadline => exact h.connects current slot phase rfl settled held outcome time
          | error range =>
            refine h.connectEnds current slot settled (.sendDeadlineOverflow range)
              (.inl rfl) ?_
            simp only [Cell.connect, phase, outcome, if_true, held, time, Option.isNone_some,
              Bool.false_eq_true, if_false]
      · refine h.connectEnds current slot settled .abandoned (.inr ⟨rfl, rfl⟩) ?_
        simp only [Cell.connect, phase, outcome, if_true]

/-- A resident with its authority goes on to another phase. -/
theorem Inv.turn (h : world.Inv bounds)
    (slot : world.Holds key cell)
    (held : cell.authority = some a) (phase : Phase) (retries : List Local) (driver : Driver P)
    (good : ({ cell with phase } : Cell A P).Good bounds) (line : retries.Nodup)
    (queue : ∀ k, k ≠ key → (k ∈ retries ↔ k ∈ world.pool.retries))
    (queued : key ∈ retries ↔ phase.waits = true)
    (ops : ∀ op, op ∈ driver.outstanding ↔ op ∈ world.driver.outstanding ∧ op.key ≠ key ∨
      ({ cell with phase } : Cell A P).op? key = some op) (once : driver.outstanding.Nodup)
    (made : driver.created = world.driver.created ∧ phase.fd? = cell.phase.fd? ∨ ∃ fd, phase.fd? =
      some fd ∧ cell.phase.fd? = none ∧ driver.created = (key, fd) :: world.driver.created)
    (closed : driver.closed = world.driver.closed) :
    Inv bounds { world with
      pool := { world.pool.put key { cell with phase } with retries }, driver } := by
  rcases h.due slot held with ⟨due, armed, epoch⟩
  exact h.goes _ slot held (like_refl ..) armed epoch rfl good line queue queued ops once made closed
    rfl rfl (fun _ _ => rfl) (h.rest slot).offset.symm rfl

theorem connectSubmit_cases (fd window : Nat) (address : P) (key : Local) (driver : Driver P)
    (reply : Establish) :
    (∃ flight, connectSubmit fd window address key driver reply =
      (.connecting fd flight window, .pending,
        driver.submit ⟨key, flight, .connect address fd⟩)) ∨
    reply = .full ∧ connectSubmit fd window address key driver reply =
      (.connectRetry fd window, .retry, driver) ∨
    ∃ error, connectSubmit fd window address key driver reply =
      (.retired, .failed error fd, driver) := by
  cases reply with
  | ok flight => exact .inl ⟨flight, rfl⟩
  | full => exact .inr (.inl ⟨rfl, rfl⟩)
  | identityExhausted | option => exact .inr (.inr ⟨_, rfl⟩)

theorem socket_stale {cell : Cell A P} {done : Completion Created} (reply : Establish)
    (driver : Driver P)
    (other : ∀ s flight window, cell.phase = .creating s flight window → done.flight ≠ flight)
    (other' : ∀ s flight, cell.phase = .creatingCancelled s flight → done.flight ≠ flight) :
    cell.socket done reply driver = (.stale, cell, driver) := by
  have finish : ∀ s flight, done.flight ≠ flight → tryFinish s flight done = none :=
    fun s flight apart => if_neg apart
  unfold Cell.socket Phase.socket
  cases phase : cell.phase with
  | creating s flight window =>
    dsimp only
    rw [finish s flight (other s flight window phase)]
    dsimp only
    rw [← phase]
  | creatingCancelled s flight =>
    dsimp only
    rw [finish s flight (other' s flight phase)]
    dsimp only
    rw [← phase]
  | connecting | connectingCancelled | connectRetry | sending | sendRetry | retired =>
    dsimp only
    rw [← phase]

theorem Inv.socketEnds (h : world.Inv bounds) {done : Completion Created} {reply : Establish}
    (current : world.driver.waits .socket done.key done.flight = true)
    (slot : world.Holds done.key cell) {fd : Option Nat}
    (settled : Settled world.driver driver done.key cell fd) (error : Error) {out : Socket}
    (ends : (∃ n, fd = some n ∧ (out = .failed error n ∨ out = .cancelled n ∧ error = .abandoned))
      ∨ fd = none ∧ out = .finished error)
    (run : cell.socket done reply (world.driver.deliver .socket done.key done.flight) =
      (out, { cell with phase := .retired }, driver)) :
    Follows bounds world (.socket done reply) := by
  have found := h.tryKey_iff.mpr slot
  rcases last : world.pool.finishDone done.key { cell with phase := .retired } (.error error)
    driver with ⟨progress, pool, driver'⟩
  rcases h.taken { world with
    pool, driver := shut driver' done.key fd, handed := world.hand done.key progress }
    { cell with phase := .retired } slot (like_refl ..) settled rfl rfl last rfl rfl rfl rfl
    (fun _ _ => rfl) (fun _ _ => Iff.rfl) with ⟨inv, result⟩
  refine h.ends slot current inv rfl result ?_
  rcases ends with ⟨n, some, same | ⟨same, same'⟩⟩ | ⟨none, same⟩
  · subst some same
    simp only [step, Pool.socket, found, run, Pool.finish, last]
    rfl
  · subst some same same'
    simp only [step, Pool.socket, found, run, Pool.finish, last]
    rfl
  · subst none same
    simp only [step, Pool.socket, found, run, last]
    rfl

/-- A created socket of a resident with its authority. -/
theorem Inv.sockets (h : world.Inv bounds) {done : Completion Created} {reply : Establish}
    (current : world.driver.waits .socket done.key done.flight = true)
    (slot : world.Holds done.key cell) {s : Nat} (phase : cell.phase = .creating s flight window)
    (flown : done.flight = flight)
    (settled : Settled world.driver ((world.driver.deliver .socket done.key done.flight).create
      done.key s) done.key cell (some s)) (held : cell.authority = some a)
    (outcome : done.outcome = .created s) : Follows bounds world (.socket done reply) := by
  have rest := h.rest slot
  have found := h.tryKey_iff.mpr slot
  have inside := rest.good.1
  have quiet : done.key ∉ world.pool.retries := by
    rw [(h.unqueued slot (by rw [held]; simp)).2, phase]
    rintro ⟨⟩
  have unfd : cell.phase.fd? = none := by rw [phase]; rfl
  have joined : tryFinish s flight done = some (.created s) := by
    unfold tryFinish
    rw [if_pos flown, outcome]
    exact if_pos rfl
  have run : cell.socket done reply (world.driver.deliver .socket done.key done.flight) =
      ((connectSubmit s window cell.address done.key
          ((world.driver.deliver .socket done.key done.flight).create done.key s) reply).2.1.socket,
        { cell with phase := (connectSubmit s window cell.address done.key
          ((world.driver.deliver .socket done.key done.flight).create done.key s) reply).1 },
        (connectSubmit s window cell.address done.key
          ((world.driver.deliver .socket done.key done.flight).create done.key s) reply).2.2) := by
    unfold Cell.socket Phase.socket
    rw [phase]
    dsimp only
    rw [joined]
    dsimp only
    have owned : ¬ cell.authority.isNone = true := by
      rw [held]
      simp
    rw [if_neg owned]
    cases (connectSubmit s window cell.address done.key
      ((world.driver.deliver .socket done.key done.flight).create done.key s) reply).2.1 <;> rfl
  rcases connectSubmit_cases s window cell.address done.key
    ((world.driver.deliver .socket done.key done.flight).create done.key s) reply with
    ⟨next, dial⟩ | ⟨-, dial⟩ | ⟨error, dial⟩
  · rw [dial] at run
    have inv := h.turn slot held (.connecting s next window) world.pool.retries
      (((world.driver.deliver .socket done.key done.flight).create done.key s).submit
        ⟨done.key, next, .connect cell.address s⟩) ⟨inside, trivial⟩ h.once.retries
      (fun _ _ => Iff.rfl) (by simp [quiet, Phase.waits]) (by
        intro op
        show op ∈ _ :: (world.driver.deliver .socket done.key done.flight).outstanding ↔ _
        have := settled.ops op
        change op ∈ (world.driver.deliver .socket done.key done.flight).outstanding ↔ _ at this
        rw [List.mem_cons, this, or_comm]
        simp [Cell.op?, eq_comm])
      (List.nodup_cons.mpr ⟨fun mem => ((settled.ops _).mp mem).2 rfl, settled.outstanding⟩)
      (.inr ⟨s, rfl, unfd, rfl⟩) rfl
    refine ⟨.progress .pending, _, ?_, inv, .pending rfl current (by simp)⟩
    simp only [step, Pool.socket, found, run]
    rfl
  · rw [dial] at run
    have put : (world.pool.put done.key { cell with phase := .connectRetry s window }).schedule
        done.key = { world.pool.put done.key { cell with phase := .connectRetry s window } with
          retries := world.pool.retries ++ [done.key] } := if_neg quiet
    have inv := h.turn slot held (.connectRetry s window) (world.pool.retries ++ [done.key])
      ((world.driver.deliver .socket done.key done.flight).create done.key s)
      ⟨inside, by show cell.authority ≠ none; rw [held]; simp⟩
      (by have := h.once.retries; grind) (by intro k apart; simp [apart])
      (by simp [Phase.waits]) (by
        intro op
        rw [settled.ops]
        simp [Cell.op?]) settled.outstanding
      (.inr ⟨s, rfl, unfd, rfl⟩) rfl
    refine ⟨.progress .pending, _, ?_, inv, .pending rfl current (by simp)⟩
    simp only [step, Pool.socket, found, run, Dial.socket, put]
    rfl
  · rw [dial] at run
    exact h.socketEnds current slot settled error (.inl ⟨s, rfl, .inl rfl⟩) run

theorem step_socket (h : world.Inv bounds) (done : Completion Created) (reply : Establish)
    (ok : world.allowed (.socket done reply)) : Follows bounds world (.socket done reply) := by
  cases current : world.driver.waits .socket done.key done.flight with
  | false =>
    have run : world.pool.socket done reply world.driver =
        (.idle, world.pool, world.driver) := by
      unfold Pool.socket
      cases found : world.pool.tryKey done.key with
      | none => rfl
      | some cell =>
        have slot := tryKey_some found
        have stale := @socket_stale _ _ cell done reply world.driver (by
          intro s flight window phase
          exact h.stale current slot (by rw [Cell.op?, phase]) rfl) (by
          intro s flight phase
          exact h.stale current slot (by rw [Cell.op?, phase]) rfl)
        simp only [stale, put_same slot]
    refine ⟨.progress .idle, world, ?_, h, .same (by simp [Current, current]) (.inl rfl)⟩
    simp only [step, deliver_idle current, run]
    rfl
  | true =>
    rcases h.delivered current with ⟨cell, action, slot, op, kind, there, ops⟩
    rcases op_socket op kind with ⟨unfd, s, acted, phase⟩
    rw [acted] at there
    have once : (world.driver.deliver .socket done.key done.flight).outstanding.Nodup :=
      h.once.outstanding.filter _
    have created : Settled world.driver
        ((world.driver.deliver .socket done.key done.flight).create done.key s) done.key cell
        (some s) := ⟨ops, once, rfl, .inr ⟨s, rfl, unfd, rfl⟩⟩
    have failed : Settled world.driver
        (world.driver.deliver .socket done.key done.flight) done.key cell none :=
      ⟨ops, once, rfl, .inl ⟨rfl, unfd.symm⟩⟩
    cases outcome : done.outcome with
    | create errno =>
      refine h.socketEnds current slot failed (.socket errno) (.inr ⟨rfl, rfl⟩) ?_
      rcases phase with ⟨window, phase⟩ | phase
      · simp only [Cell.socket, Phase.socket, phase, tryFinish, outcome, if_true]
      · simp only [Cell.socket, Phase.socket, phase, tryFinish, outcome, if_true]
    | retired =>
      refine h.socketEnds current slot failed .abandoned (.inr ⟨rfl, rfl⟩) ?_
      rcases phase with ⟨window, phase⟩ | phase
      · simp only [Cell.socket, Phase.socket, phase, tryFinish, outcome, if_true]
      · simp only [Cell.socket, Phase.socket, phase, tryFinish, outcome, if_true]
    | created made =>
      have same := ok made s outcome there
      subst same
      rcases phase with ⟨window, phase⟩ | phase
      · cases held : cell.authority with
        | none =>
          refine h.socketEnds current slot created .abandoned
            (.inl ⟨made, rfl, .inr ⟨rfl, rfl⟩⟩) ?_
          simp only [Cell.socket, Phase.socket, phase, tryFinish, outcome, if_true, held,
            Option.isNone_none]
        | some a => exact h.sockets current slot phase rfl created held outcome
      · refine h.socketEnds current slot created .abandoned
          (.inl ⟨made, rfl, .inr ⟨rfl, rfl⟩⟩) ?_
        simp only [Cell.socket, Phase.socket, phase, tryFinish, outcome, if_true]

theorem step_trySend (h : world.Inv bounds) (index : Nat) (request : Request A P)
    (vacancy : Vacancy) (reply : Submit) :
    Follows bounds world (.trySend index request vacancy reply) := by
  have unsent : ∀ cause : Unsent A P, cause.request = request →
      world.pool.trySend index request vacancy reply world.driver =
        (.unsent cause, world.pool, world.driver) →
      Follows bounds world (.trySend index request vacancy reply) := by
    intro cause same run
    refine ⟨.dispatch (.unsent cause), world, ?_, h, nofun, fun _ _ => rfl, nofun, ?_,
      fun no => absurd trivial no, fun _ => nofun⟩
    · simp only [step, run]
    · intro other equal
      cases equal
      exact ⟨rfl, index, vacancy, reply, by rw [same]⟩
  by_cases outside : world.pool.capacity ≤ index
  · exact unsent (.outside request) rfl (if_pos outside)
  · cases here : world.pool.slots index with
    | mk epoch state =>
      cases state with
      | occupied cell =>
        refine unsent (.busy request .slot) rfl ?_
        simp only [Pool.trySend, if_neg outside, here]
      | retired =>
        refine unsent (.exhausted request) rfl ?_
        simp only [Pool.trySend, if_neg outside, here]
      | free =>
        cases vacancy with
        | full =>
          refine unsent (.busy request .descriptor) rfl ?_
          simp only [Pool.trySend, if_neg outside, here]
        | identityExhausted =>
          refine unsent (.exhausted request) rfl ?_
          simp only [Pool.trySend, if_neg outside, here]
        | ok slot =>
          cases reply with
          | full =>
            refine unsent (.busy request .submit) rfl ?_
            simp only [Pool.trySend, if_neg outside, here]
          | identityExhausted =>
            refine unsent (.rejected request .identityExhausted) rfl ?_
            simp only [Pool.trySend, if_neg outside, here]
          | ok flight =>
            have inv := h.publish (Nat.lt_of_not_le outside) here request slot flight
            refine ⟨.dispatch .sent, _, ?_, inv, nofun, fun _ _ => rfl, nofun, nofun,
              fun no => absurd trivial no, fun _ => nofun⟩
            simp only [step, Pool.trySend, if_neg outside, here, Cell.new]

/-- A position is cancelled, whether it has a resident or not. -/
theorem Inv.cancels (h : world.Inv bounds) (index : Nat) (reply : Stop)
    (run : world.pool.cancelAt index reply world.driver = (progress, pool, driver))
    (input : Input A P) (current : world.Current input) :
    Inv bounds { world with
      pool, driver
      handed := world.hand ⟨index, (world.pool.slots index).epoch⟩ progress
      stalled := world.stall ⟨index, (world.pool.slots index).epoch⟩ true reply } ∧
    Proper world input (.progress progress) { world with
      pool, driver
      handed := world.hand ⟨index, (world.pool.slots index).epoch⟩ progress
      stalled := world.stall ⟨index, (world.pool.slots index).epoch⟩ true reply } := by
  unfold Pool.cancelAt at run
  cases found : world.pool.tryAt index with
  | none =>
    rw [found] at run
    cases run
    have idle : world.stall ⟨index, (world.pool.slots index).epoch⟩ true reply =
        world.stalled := by
      unfold stall Pool.tryKey
      rw [found]
    rw [idle]
    exact ⟨h, .pending rfl current nofun⟩
  | some resident =>
    cases resident with
    | mk key cell =>
      rw [found] at run
      rcases tryAt_some found with ⟨same, slot⟩
      have here : (⟨index, (world.pool.slots index).epoch⟩ : Local) = key := by
        rw [slot, ← same]
      rw [here]
      rw [← same] at slot
      rcases h.cancel slot .cancelled reply run with ⟨inv, result⟩
      refine ⟨inv, h.proper slot rfl current ?_⟩
      rcases result with ⟨-, idle⟩ | ⟨a, e, held, complete, -⟩
      · exact .inl idle
      · exact .inr (.inr ⟨a, _, held, complete, nofun⟩)

theorem Proper.rest (world : World A P) {output : Output A P} (current : world.Current input)
    (quiet : output = .excluded ∨ output = .ended ∨ output = .progress .idle) :
    Proper world input output world := by
  rcases quiet with same | same | same
  · rw [same]
    exact ⟨nofun, fun _ _ => rfl, nofun, nofun, fun no => absurd current no, fun _ => nofun⟩
  · rw [same]
    exact ⟨nofun, fun _ _ => rfl, nofun, nofun, fun no => absurd current no, fun _ => nofun⟩
  · rw [same]
    exact .pending rfl current nofun

theorem step_tryCancel (h : world.Inv bounds) (index : Nat) (reply : Stop) :
    Follows bounds world (.tryCancel index reply) := by
  by_cases inside : index < world.pool.capacity
  · rcases run : world.pool.cancelAt index reply world.driver with ⟨progress, pool, driver⟩
    have result := h.cancels index reply run (.tryCancel index reply) trivial
    refine ⟨.progress progress, _, ?_, result.1, result.2⟩
    simp only [step, Pool.tryCancel, if_pos inside, run]
  · refine ⟨.excluded, world, ?_, h, .rest world trivial (.inl rfl)⟩
    simp only [step, Pool.tryCancel, if_neg inside]

theorem step_cancelNext (h : world.Inv bounds) (cursor : Nat) (reply : Stop) :
    Follows bounds world (.cancelNext cursor reply) := by
  by_cases inside : cursor < world.pool.capacity
  · rcases run : world.pool.cancelAt cursor reply world.driver with ⟨progress, pool, driver⟩
    have result := h.cancels cursor reply run (.cancelNext cursor reply) trivial
    refine ⟨.progress progress, _, ?_, result.1, result.2⟩
    simp only [step, Pool.cancelNext, if_pos inside, run]
  · refine ⟨.ended, world, ?_, h, .rest world trivial (.inr (.inl rfl))⟩
    simp only [step, Pool.cancelNext, if_neg inside]

/-- A due deadline that is the first hands the authority back with its timeout. -/
theorem Inv.expires (h : world.Inv bounds) {index : Nat} {due : Due}
    (set : world.pool.deadlines index = some due) (late : due.instant ≤ now) (reply : Stop) :
    ∃ a e next, world.step bounds (.expireOne now (some index) reply) =
        .ok (.progress (.complete a (.error e)), next) ∧ next.Inv bounds ∧
      Proper world (.expireOne now (some index) reply) (.progress (.complete a (.error e))) next ∧
      next.handed = (⟨index, due.epoch⟩, a) :: world.handed ∧ Told (due.timeout now) reply e := by
  rcases (h.at index).due due set with ⟨epoch, cell, state, owned⟩
  have slot : world.pool.slots index = ⟨due.epoch, .occupied cell⟩ := by
    rw [epoch, ← state]
  have found : (world.pool.due index none).tryKey ⟨index, due.epoch⟩ = some cell :=
    (@Inv.tryKey_iff _ _ bounds world h ⟨index, due.epoch⟩ cell).mpr slot
  have again : (world.pool.due index none).cancel ⟨index, due.epoch⟩ cell
      (due.timeout now) reply world.driver =
        world.pool.cancel ⟨index, due.epoch⟩ cell (due.timeout now) reply world.driver := by
    have same : (world.pool.due index none).due index none = world.pool.due index none := by
      simp [Pool.due]
    unfold Pool.cancel
    rw [same]
  rcases run : world.pool.cancel ⟨index, due.epoch⟩ cell (due.timeout now) reply
    world.driver with ⟨progress, pool, driver⟩
  rcases @Inv.cancel _ _ bounds world h ⟨index, due.epoch⟩ cell slot
    (due.timeout now) reply _ _ _ run with ⟨inv, ⟨none, -⟩ | ⟨a, e, held, complete, told⟩⟩
  · exact absurd none owned
  · subst complete
    refine ⟨a, e, _, ?_, inv, @Inv.proper _ _ bounds world _ h ⟨index, due.epoch⟩ cell slot _ _ rfl
      trivial (.inr (.inr ⟨a, _, held, rfl, by simp⟩)), rfl, told⟩
    simp only [step, Pool.expireOne, set, if_neg (Nat.not_lt.mpr late), found, again, run,
      Option.getD_some, ← epoch]

theorem step_expireOne (h : world.Inv bounds) (now : Nat) (first : Option Nat) (reply : Stop) :
    Follows bounds world (.expireOne now first reply) := by
  have ended : world.pool.expireOne now first reply world.driver =
      (none, world.pool, world.driver) → Follows bounds world (.expireOne now first reply) := by
    intro run
    refine ⟨.ended, world, ?_, h, .rest world trivial (.inr (.inl rfl))⟩
    simp only [step, run]
  cases first with
  | none => exact ended rfl
  | some index =>
    cases set : world.pool.deadlines index with
    | none =>
      refine ended ?_
      simp only [Pool.expireOne, set]
    | some due =>
      by_cases early : now < due.instant
      · refine ended ?_
        simp only [Pool.expireOne, set, if_pos early]
      · rcases h.expires set (Nat.not_lt.mp early) reply with ⟨a, e, next, run, inv, proper, -⟩
        exact ⟨_, next, run, inv, proper⟩

/-- The first in line is taken out, when it is in line once. -/
theorem like_pop {rest : List Local} (line : pool.retries = key :: rest)
    (once : pool.retries.Nodup) :
    key ∉ rest ∧ rest.Nodup ∧ Like pool { pool with retries := rest } key := by
  rw [line] at once
  rcases List.nodup_cons.mp once with ⟨fresh, nodup⟩
  refine ⟨fresh, nodup, rfl, rfl, rfl, fun _ _ => rfl, ?_⟩
  rw [line, List.erase_cons_head]
  exact List.erase_of_not_mem fresh

/-- The submission queue is full for what a resident waits to submit. -/
def Blocked (cell : Cell A P) (stop : Stop) (dial : Establish) (reply : Submit) : Prop :=
  cell.authority = none ∧ stop = .full ∨
    cell.authority ≠ none ∧ ((∃ fd window, cell.phase = .connectRetry fd window) ∧ dial = .full ∨
      (∃ fd, cell.phase = .sendRetry fd) ∧ reply = .full)

/-- What becomes of the first in line: it is behind the others as it was, while the
submission queue is full. Otherwise it is out of the queue: the kernel was told to stop
its operation, or has its next one, or it has left its position. -/
inductive Resumed (world : World A P) (key : Local) (rest : List Local) (cell : Cell A P)
    (stop : Stop) (dial : Establish) (reply : Submit) : Output A P → World A P → Prop
  | requeued {next : World A P} (full : Blocked cell stop dial reply)
      (line : next.pool.retries = rest ++ [key]) (stays : next.pool.tryKey key = some cell)
      (driver : next.driver = world.driver) :
      Resumed world key rest cell stop dial reply (.full .full) next
  | stopped {next : World A P} (held : cell.authority = none) (room : stop ≠ .full)
      (line : next.pool.retries = rest)
      (stays : next.pool.tryKey key = some { cell with phase := (cell.phase.cancel stop).1 })
      (driver : next.driver = world.driver) :
      Resumed world key rest cell stop dial reply (.progress .pending) next
  | submitted {next : World A P} (op : Op P) (named : op.key = key)
      (line : next.pool.retries = rest) (driver : next.driver = world.driver.submit op) :
      Resumed world key rest cell stop dial reply (.progress .pending) next
  | finished {next : World A P} {a : A} {result : Except Error Unit}
      (held : cell.authority = some a) (line : next.pool.retries = rest)
      (left : next.pool.tryKey key = none) :
      Resumed world key rest cell stop dial reply (.progress (.complete a result)) next

def Resumes (bounds : Bounds) (world : World A P) (key : Local) (rest : List Local)
    (cell : Cell A P) (stop : Stop) (dial : Establish) (reply : Submit) : Prop :=
  ∃ output next, world.step bounds (.retryOne stop dial reply) = .ok (output, next) ∧
    next.Inv bounds ∧ Proper world (.retryOne stop dial reply) output next ∧
    Resumed world key rest cell stop dial reply output next

/-- A resident that is finished has left its position and the queue. -/
theorem finish_leaves (fresh : key ∉ pool.retries)
    (run : pool.finish key cell result fd driver = (progress, pool', driver')) :
    pool'.retries = pool.retries ∧ pool'.tryKey key = none := by
  unfold Pool.finish Pool.finishDone Pool.take at run
  cases run
  refine ⟨List.erase_of_not_mem fresh, ?_⟩
  rw [Option.eq_none_iff_forall_ne_some]
  intro found there
  have slot := tryKey_some there
  rcases discard_vacant ((pool.due key.index none).unlink key) key with same | same
  · rw [same] at slot
    cases slot
  · rw [same] at slot
    exact absurd (congrArg Slot.epoch slot) (Nat.succ_ne_self _)

/-- A send that is tried again is deferred by a full queue, or it is with the kernel, or
its resident has left. -/
theorem settle_cases {pool : Pool A P} {key : Local} (fresh : key ∉ pool.retries)
    {cell cell' : Cell A P} (inside : cell.offset ≤ cell.payload.length) {a : A}
    (held : cell.authority = some a) {fd : Nat} {reply : Submit} {driver driver' : Driver P}
    {sent : SendProgress}
    (submit : cell.submit bounds fd key reply driver = .ok (sent, cell', driver'))
    {progress : Progress A} {pool' : Pool A P} {driver'' : Driver P}
    (run : pool.settle key cell' sent driver' = (progress, pool', driver'')) :
    sent = .retry ∧ reply = .full ∧ cell' = { cell with phase := .sendRetry fd } ∧
        driver' = driver ∨
      sent ≠ .retry ∧ pool'.retries = pool.retries ∧
        ((∃ op, op.key = key ∧ driver'' = driver.submit op ∧ progress = .pending) ∨
          pool'.tryKey key = none ∧ ∃ result, progress = .complete a result) := by
  have leave : ∀ result, pool.finish key cell result fd driver = (progress, pool', driver'') →
      pool'.retries = pool.retries ∧ pool'.tryKey key = none ∧
        progress = .complete a result := by
    intro result gone
    have leaves := finish_leaves fresh gone
    refine ⟨leaves.1, leaves.2, ?_⟩
    unfold Pool.finish Pool.finishDone Pool.take at gone
    rw [held] at gone
    cases gone
    rfl
  rcases @submit_cases _ _ bounds cell inside fd key reply driver with
    ⟨-, same⟩ | same | ⟨full, same⟩ | ⟨flight, bytes, -, -, same⟩
  · rw [same] at submit
    cases submit
    rcases leave _ run with ⟨line, left, complete⟩
    exact .inr ⟨nofun, line, .inr ⟨left, _, complete⟩⟩
  · rw [same] at submit
    cases submit
    rcases leave _ run with ⟨line, left, complete⟩
    exact .inr ⟨nofun, line, .inr ⟨left, _, complete⟩⟩
  · rw [same] at submit
    cases submit
    exact .inl ⟨rfl, full, rfl, rfl⟩
  · rw [same] at submit
    cases submit
    cases run
    exact .inr ⟨nofun, rfl, .inl ⟨_, rfl, rfl, rfl⟩⟩

theorem Inv.recancels (h : world.Inv bounds) {rest : List Local}
    (line : world.pool.retries = key :: rest) (slot : world.Holds key cell)
    (held : cell.authority = none) (stop : Stop) (dial : Establish) (reply : Submit) :
    Resumes bounds world key rest cell stop dial reply := by
  have resident := h.rest slot
  rcases like_pop line h.once.retries with ⟨fresh, nodup, -⟩
  have found : ({ world.pool with retries := rest } : Pool A P).tryKey key = some cell :=
    h.tryKey_iff.mpr slot
  have due : world.pool.deadlines key.index = none := by
    cases set : world.pool.deadlines key.index with
    | none => rfl
    | some due => exact absurd held (resident.due due set).2
  have stops : cell.phase.stops = true := by
    have queued : key ∈ world.pool.retries := by rw [line]; exact List.mem_cons_self
    rcases resident.queued.mp queued with waits | stalled
    · have good := resident.good.2
      cases phase : cell.phase with
      | connectRetry | sendRetry =>
        rw [phase] at good
        exact absurd held good
      | creating | creatingCancelled | connecting | connectingCancelled | sending | retired =>
        rw [phase] at waits
        cases waits
    · exact (resident.stall stalled).2
  have others : ∀ k, k ≠ key → (k ∈ rest ↔ k ∈ world.pool.retries) := by
    intro k apart
    rw [line]
    simp [apart]
  have bare : ∀ phase, ({ cell with phase } : Cell A P) =
      { cell with authority := none, phase } := by
    intro phase
    rw [← held]
  have ghost : world.retried stop =
      if stop = .full then key :: world.stalled.filter (· ≠ key)
      else world.stalled.filter (· ≠ key) := by
    unfold retried
    rw [line]
    dsimp only
    rw [stall_some h slot, held, stops]
    simp
  rcases cancel_cases resident.good key stop with
    ⟨-, ⟨phase, stopped, accepted, cancel⟩ | ⟨stopped, full, cancel⟩ |
      ⟨failure, stopped, rejected, cancel⟩⟩ | ⟨fd, owned, -⟩ | ⟨-, no⟩
  · subst accepted
    have run : cell.retry bounds key .accepted dial reply world.driver =
        .ok (.cancel (.ok .pending), { cell with authority := none, phase }, world.driver) := by
      unfold Cell.retry
      rw [if_pos (by rw [held]; rfl), cancel, ← bare]
    have inv := h.stop slot stopped world.pool.deadlines rest (world.retried .accepted) world.handed
      (fun _ _ => rfl) due others nodup (by
        intro k apart
        simp [ghost, apart]) (by simp [ghost, fresh])
      (by simp [ghost]) (.inl ⟨held, rfl⟩)
    refine ⟨.progress .pending, _, ?_, inv, .pending rfl trivial nofun,
      .stopped held nofun rfl ?_ rfl⟩
    · simp only [step, Pool.retryOne, line, found, Pool.retry, run]
      rfl
    · rw [cancel, bare phase]
      exact inv.tryKey_iff.mpr (update_self ..)
  · subst full
    have run : cell.retry bounds key .full dial reply world.driver =
        .ok (.cancel (.ok .retry), { cell with authority := none }, world.driver) := by
      unfold Cell.retry
      rw [if_pos (by rw [held]; rfl), cancel, ← bare]
    have put : (({ world.pool with retries := rest } : Pool A P).put key
        { cell with authority := none }).schedule key =
          { world.pool.put key { cell with authority := none } with
            retries := rest ++ [key] } := if_neg fresh
    have inv := h.stop slot stopped world.pool.deadlines (rest ++ [key]) (world.retried .full)
      world.handed (fun _ _ => rfl) due (by
        intro k apart
        rw [← others k apart]
        simp [apart]) (by grind) (by
        intro k apart
        simp [ghost, apart]) (by simp [ghost]) (fun _ => stops) (.inl ⟨held, rfl⟩)
    have stays : ({ cell with authority := none } : Cell A P) = cell := (bare cell.phase).symm
    refine ⟨.full .full, _, ?_, inv, .full rfl, .requeued (.inl ⟨held, rfl⟩) rfl ?_
      rfl⟩
    · simp only [step, Pool.retryOne, line, found, Pool.retry, run, put]
      rfl
    · refine inv.tryKey_iff.mpr ((update_self ..).trans ?_)
      rw [stays]
  · subst rejected
    have run : cell.retry bounds key (.rejected failure) dial reply world.driver =
        .ok (.cancel (.error failure), { cell with authority := none }, world.driver) := by
      unfold Cell.retry
      rw [if_pos (by rw [held]; rfl), cancel, ← bare]
    have put : (({ world.pool with retries := rest } : Pool A P).put key
        { cell with authority := none }).unlink key =
          { world.pool.put key { cell with authority := none } with retries := rest } := by
      show { world.pool.put key { cell with authority := none } with
        retries := rest.erase key } = _
      rw [List.erase_of_not_mem fresh]
    have inv := h.stop slot stopped world.pool.deadlines rest
      (world.retried (.rejected failure)) world.handed
      (fun _ _ => rfl) due others nodup (by
        intro k apart
        simp [ghost, apart]) (by simp [ghost, fresh])
      (by simp [ghost]) (.inl ⟨held, rfl⟩)
    refine ⟨.progress .pending, _, ?_, inv, .pending rfl trivial nofun,
      .stopped held nofun rfl ?_ rfl⟩
    · simp only [step, Pool.retryOne, line, found, Pool.retry, run, put]
      rfl
    · rw [cancel, bare cell.phase]
      exact inv.tryKey_iff.mpr (update_self ..)
  · exact absurd held owned
  · rw [stops] at no
    cases no

theorem Inv.reconnects (h : world.Inv bounds) {rest : List Local}
    (line : world.pool.retries = key :: rest) (slot : world.Holds key cell)
    (held : cell.authority = some a) (phase : cell.phase = .connectRetry fd window) (stop : Stop)
    (dial : Establish) (reply : Submit) (ghost : world.retried stop = world.stalled) :
    Resumes bounds world key rest cell stop dial reply := by
  have resident := h.rest slot
  have inside := resident.good.1
  rcases like_pop line h.once.retries with ⟨fresh, nodup, like⟩
  have found : ({ world.pool with retries := rest } : Pool A P).tryKey key = some cell :=
    h.tryKey_iff.mpr slot
  have others : ∀ k, k ≠ key → (k ∈ rest ↔ k ∈ world.pool.retries) := by
    intro k apart
    rw [line]
    simp [apart]
  have holds : cell.phase.fd? = some fd := by rw [phase]; rfl
  have idle := h.idle slot (by rw [Cell.op?, phase])
  have run : cell.retry bounds key stop dial reply world.driver =
      .ok (.connect (connectSubmit fd window cell.address key world.driver dial).2.1,
        { cell with phase := (connectSubmit fd window cell.address key world.driver dial).1 },
        (connectSubmit fd window cell.address key world.driver dial).2.2) := by
    unfold Cell.retry
    rw [if_neg (by rw [held]; simp), phase]
  rcases connectSubmit_cases fd window cell.address key world.driver dial with
    ⟨flight, out⟩ | ⟨full, out⟩ | ⟨error, out⟩
  · rw [out] at run
    have inv := h.turn slot held (.connecting fd flight window) rest
      (world.driver.submit ⟨key, flight, .connect cell.address fd⟩) ⟨inside, trivial⟩ nodup
      others (by simp [fresh, Phase.waits]) (by
        intro op
        show op ∈ _ :: world.driver.outstanding ↔ _
        rw [List.mem_cons, idle op, or_comm]
        simp [Cell.op?, eq_comm])
      (List.nodup_cons.mpr ⟨fun mem => ((idle _).mp mem).2 rfl, h.once.outstanding⟩)
      (.inl ⟨rfl, holds.symm⟩) rfl
    refine ⟨.progress .pending, _, ?_, inv, .pending rfl trivial (by simp),
      .submitted ⟨key, flight, .connect cell.address fd⟩ rfl rfl rfl⟩
    simp only [step, Pool.retryOne, line, found, Pool.retry, run, ghost]
    rfl
  · rw [out] at run
    have put : (({ world.pool with retries := rest } : Pool A P).put key
        { cell with phase := .connectRetry fd window }).schedule key =
          { world.pool.put key { cell with phase := .connectRetry fd window } with
            retries := rest ++ [key] } := if_neg fresh
    have inv := h.turn slot held (.connectRetry fd window) (rest ++ [key]) world.driver
      ⟨inside, by show cell.authority ≠ none; rw [held]; simp⟩ (by grind) (by
        intro k apart
        rw [← others k apart]
        simp [apart]) (by simp [Phase.waits]) (by
        intro op
        rw [idle op]
        simp [Cell.op?]) h.once.outstanding (.inl ⟨rfl, holds.symm⟩) rfl
    refine ⟨.full .full, _, ?_, inv, .full rfl,
      .requeued (.inr ⟨by simp [held], .inl ⟨⟨fd, window, phase⟩, full⟩⟩) rfl ?_ rfl⟩
    · simp only [step, Pool.retryOne, line, found, Pool.retry, run, put, ghost]
    · refine inv.tryKey_iff.mpr ((update_self ..).trans ?_)
      rw [← phase]
  · rw [out] at run
    rcases last : ({ world.pool with retries := rest } : Pool A P).finish key
      { cell with phase := .retired } (.error error) fd world.driver with
      ⟨progress, pool, driver⟩
    have settled : Settled world.driver world.driver key cell (some fd) :=
      ⟨idle, h.once.outstanding, rfl, .inl ⟨rfl, holds.symm⟩⟩
    rcases h.finished { world with pool, driver, handed := world.hand key progress }
      { cell with phase := .retired } slot like settled rfl rfl last rfl rfl rfl rfl
      (fun _ _ => rfl) (fun _ _ => Iff.rfl) with ⟨inv, result⟩
    have leaves := finish_leaves fresh last
    rcases result with ⟨none, -⟩ | ⟨b, owner, rfl⟩
    · rw [held] at none
      cases none
    · refine ⟨.progress (.complete b (.error error)), _, ?_, inv,
        h.proper slot rfl trivial (.inr (.inr ⟨b, _, owner, rfl, by simp⟩)),
        .finished owner leaves.1 leaves.2⟩
      simp only [step, Pool.retryOne, line, found, Pool.retry, run, last, ghost]
      rfl

theorem Inv.resends (h : world.Inv bounds) {rest : List Local}
    (line : world.pool.retries = key :: rest) (slot : world.Holds key cell)
    (held : cell.authority = some a) (phase : cell.phase = .sendRetry fd) (stop : Stop)
    (dial : Establish) (reply : Submit) (ghost : world.retried stop = world.stalled) :
    Resumes bounds world key rest cell stop dial reply := by
  have resident := h.rest slot
  have inside := resident.good.1
  rcases like_pop line h.once.retries with ⟨fresh, nodup, like⟩
  have found : ({ world.pool with retries := rest } : Pool A P).tryKey key = some cell :=
    h.tryKey_iff.mpr slot
  have holds : cell.phase.fd? = some fd := by rw [phase]; rfl
  have idle := h.idle slot (by rw [Cell.op?, phase])
  have settled : Settled world.driver world.driver key cell (some fd) :=
    ⟨idle, h.once.outstanding, rfl, .inl ⟨rfl, holds.symm⟩⟩
  rcases @submit_ok _ _ bounds { cell with phase := .retired } inside fd key reply world.driver
    with ⟨sent, cell', driver', submit⟩
  have run : cell.retry bounds key stop dial reply world.driver =
      .ok (.send sent, cell', driver') := by
    unfold Cell.retry
    rw [if_neg (by rw [held]; simp), phase]
    dsimp only
    rw [submit]
  rcases h.due slot held with ⟨due, armed, epoch⟩
  rcases out : ({ world.pool with retries := rest } : Pool A P).settle key cell' sent driver'
    with ⟨progress, pool, driver⟩
  rcases h.settle { world with pool, driver, handed := world.hand key progress } slot held like
    fresh nodup armed epoch settled holds inside submit out rfl rfl rfl rfl
    (fun _ _ => rfl) resident.offset.symm rfl with ⟨inv, result⟩
  rcases @settle_cases _ _ bounds { world.pool with retries := rest } key fresh
    { cell with phase := .retired } cell' inside a held fd reply world.driver driver' sent submit
    progress pool driver out with
    ⟨rfl, full, rfl, rfl⟩ | ⟨apart, same, ⟨op, named, rfl, rfl⟩ | ⟨left, done, rfl⟩⟩
  · cases out
    refine ⟨.full .full, _, ?_, inv, .full rfl,
      .requeued (.inr ⟨by simp [held], .inr ⟨⟨fd, phase⟩, full⟩⟩) ?_ ?_ rfl⟩
    · simp only [step, Pool.retryOne, line, found, Pool.retry, run, ghost]
      rfl
    · exact congrArg Pool.retries (if_neg fresh)
    · have put : (({ world.pool with retries := rest } : Pool A P).put key
          { cell with phase := .sendRetry fd }).schedule key =
            { world.pool.put key cell with retries := rest ++ [key] } := by
        rw [← phase]
        exact if_neg fresh
      exact inv.tryKey_iff.mpr ((congrArg (fun pool : Pool A P => pool.slots key.index) put).trans
        (update_self ..))
  · refine ⟨.progress .pending, _, ?_, inv, .pending rfl trivial (by simp),
      .submitted op named same rfl⟩
    simp only [step, Pool.retryOne, line, found, Pool.retry, run, ghost, out]
    rfl
  · refine ⟨.progress (.complete a done), _, ?_, inv, h.proper slot rfl trivial ?_,
      .finished held same left⟩
    · simp only [step, Pool.retryOne, line, found, Pool.retry, run, ghost, out]
      rfl
    · rcases result with pending | ⟨result, complete, all⟩
      · cases pending
      · cases complete
        refine .inr (.inr ⟨a, _, held, rfl, ?_⟩)
        intro ok
        exact resident.offset.symm.trans (all ok)

/-- Whoever is the first in line does not stay where it is. -/
theorem Inv.resumes (h : world.Inv bounds) {rest : List Local}
    (line : world.pool.retries = key :: rest) (stop : Stop) (dial : Establish) (reply : Submit) :
    ∃ cell, world.pool.tryKey key = some cell ∧
      Resumes bounds world key rest cell stop dial reply := by
  have queued : key ∈ world.pool.retries := by rw [line]; exact List.mem_cons_self
  rcases ((h.at key.index).retries key.epoch).mp queued with ⟨epoch, cell, state, -⟩
  have slot : world.pool.slots key.index = ⟨key.epoch, .occupied cell⟩ := by
    rw [epoch, ← state]
  refine ⟨cell, h.tryKey_iff.mpr slot, ?_⟩
  cases held : cell.authority with
  | none => exact h.recancels line slot held stop dial reply
  | some a =>
    have unqueued := h.unqueued slot (by rw [held]; nofun)
    have waits := unqueued.2.mp queued
    have ghost : world.retried stop = world.stalled := by
      unfold retried
      rw [line]
      dsimp only
      rw [stall_some h slot, held]
      simp
    cases phase : cell.phase with
    | connectRetry fd window =>
      exact h.reconnects line slot held phase stop dial reply ghost
    | sendRetry fd => exact h.resends line slot held phase stop dial reply ghost
    | creating | creatingCancelled | connecting | connectingCancelled | sending | retired =>
      rw [phase] at waits
      cases waits

theorem step_retryOne (h : world.Inv bounds) (stop : Stop) (dial : Establish) (reply : Submit) :
    Follows bounds world (.retryOne stop dial reply) := by
  cases line : world.pool.retries with
  | nil =>
    have ghost : world.retried stop = world.stalled := by
      unfold retried
      rw [line]
    refine ⟨.progress .idle, world, ?_, h, .rest world trivial (.inr (.inr rfl))⟩
    simp only [step, Pool.retryOne, line, ghost]
    rfl
  | cons key rest =>
    rcases h.resumes line stop dial reply with ⟨cell, -, output, next, run, inv, proper, -⟩
    exact ⟨output, next, run, inv, proper⟩

/-! ## The end -/

theorem take_eq (pool : Pool A P) (key : Local) (cell : Cell A P) (driver : Driver P) :
    pool.take key cell driver = (cell.authority,
      ((pool.due key.index none).unlink key).discard key,
      shut driver key cell.phase.fd?) := by
  unfold Pool.take
  cases cell.phase.fd? <;> rfl

theorem Inv.finishAt (h : world.Inv bounds) (i : Nat) {owner : Option (Local × A)}
    (run : world.pool.finishAt i world.driver = (owner, pool, driver)) :
    Inv bounds { world with pool, driver, handed := owner.toList ++ world.handed } ∧
      pool.capacity = world.pool.capacity ∧ pool.tryAt i = none ∧
      ∀ j, world.pool.tryAt j = none → pool.tryAt j = none := by
  unfold Pool.finishAt at run
  cases found : world.pool.tryAt i with
  | none =>
    rw [found] at run
    cases run
    exact ⟨h, rfl, found, fun _ => id⟩
  | some resident =>
    cases resident with
    | mk key cell =>
      rw [found] at run
      dsimp only at run
      rw [take_eq] at run
      cases run
      rcases tryAt_some found with ⟨same, slot⟩
      subst same
      have rest := h.rest slot
      have ops : ∀ op, op ∈ (world.driver.quiesce key).outstanding ↔
          op ∈ world.driver.outstanding ∧ op.key ≠ key := by
        intro op
        show op ∈ world.driver.outstanding.filter _ ↔ _
        simp
      have vacant : (((world.pool.due key.index none).unlink key).discard key).tryAt
          key.index = none := by
        unfold Pool.tryAt
        rcases discard_vacant ((world.pool.due key.index none).unlink key) key with
          same | same
        · rw [same]
          split <;> rfl
        · rw [same]
          split <;> rfl
      refine ⟨?_, rfl, vacant, ?_⟩
      · refine h.gone slot (?_ : Gone world _ key cell)
        constructor
        · exact fun j apart => update_of_ne apart ..
        · exact discard_vacant _ key
        · rfl
        · exact fun _ _ => rfl
        · rfl
        · rfl
        · exact fun _ _ => Iff.rfl
        · intro op
          rw [← ops]
          cases cell.phase.fd? <;> rfl
        · have once := h.once.outstanding.filter (fun op => op.key ≠ key)
          cases cell.phase.fd? <;> exact once
        · refine .inl ⟨?_, ?_, ?_⟩
          · cases cell.phase.fd? <;> rfl
          · intro fd same
            rw [same]
            rfl
          · intro none
            rw [none]
            rfl
        · rfl
        · cases held : cell.authority with
          | none => exact .inl ⟨rfl, rfl⟩
          | some a => exact .inr ⟨a, rfl, rfl⟩
      · intro j none
        by_cases index : j = key.index
        · rw [index]
          exact vacant
        · have same : (((world.pool.due key.index Option.none).unlink key).discard key).slots j
              = world.pool.slots j := update_of_ne index ..
          have pools : (((world.pool.due key.index Option.none).unlink key).discard key).tryAt j
              = world.pool.tryAt j := by
            unfold Pool.tryAt
            rw [same]
            rfl
          exact pools.trans none

/-- The positions from `index` on are given up one by one. -/
theorem Inv.finishFrom (h : world.Inv bounds) (released : List (Local × A)) (index count : Nat)
    {owners : List (Local × A)}
    (run : finishFrom world.pool world.driver released index count = (owners, pool, driver)) :
    ∃ more, owners = more ++ released ∧
      Inv bounds { world with pool, driver, handed := more ++ world.handed } ∧
      pool.capacity = world.pool.capacity ∧
      (∀ j, index ≤ j → j < index + count → pool.tryAt j = none) ∧
      ∀ j, world.pool.tryAt j = none → pool.tryAt j = none := by
  induction count generalizing world released index with
  | zero =>
    cases run
    refine ⟨[], rfl, h, rfl, ?_, fun _ => id⟩
    intro j low high
    omega
  | succ count ih =>
    rcases one : world.pool.finishAt index world.driver with ⟨owner, pool', driver'⟩
    rcases h.finishAt index one with ⟨inv, capacity, vacant, keep⟩
    rw [OneShot.finishFrom, one] at run
    rcases ih inv (owner.toList ++ released) (index + 1) run with
      ⟨more, same, inv', capacity', all, keep'⟩
    refine ⟨more ++ owner.toList, ?_, ?_, capacity'.trans capacity, ?_, ?_⟩
    · rw [same, List.append_assoc]
    · rw [List.append_assoc]
      exact inv'
    · intro j low high
      by_cases first : j = index
      · rw [first]
        exact keep' index vacant
      · exact all j (by omega) (by omega)
    · intro j none
      exact keep' j (keep j none)

theorem step_finish (h : world.Inv bounds) : Follows bounds world .finish := by
  rcases run : OneShot.finishFrom world.pool world.driver [] 0 world.pool.capacity with
    ⟨owners, pool, driver⟩
  rcases h.finishFrom [] 0 world.pool.capacity run with ⟨more, same, inv, capacity, all, -⟩
  rw [List.append_nil] at same
  subst same
  refine ⟨.released owners, _, ?_, inv, nofun, ?_, ?_, nofun, fun no => absurd trivial no,
    fun _ => nofun⟩
  · simp only [step, run]
  · intro _ no
    exact absurd rfl (no owners)
  · intro other equal
    cases equal
    refine ⟨rfl, ?_⟩
    intro i
    by_cases inside : i < world.pool.capacity
    · exact all i (Nat.zero_le i) (by omega)
    · unfold Pool.tryAt
      exact if_neg (by rw [capacity]; exact inside)

theorem step_follows (h : world.Inv bounds) (input : Input A P) (ok : world.allowed input) :
    Follows bounds world input := by
  cases input with
  | trySend index request vacancy reply => exact step_trySend h index request vacancy reply
  | tryCancel index reply => exact step_tryCancel h index reply
  | cancelNext cursor reply => exact step_cancelNext h cursor reply
  | expireOne now first reply => exact step_expireOne h now first reply
  | socket done reply => exact step_socket h done reply ok
  | connect done now reply => exact step_connect h done now reply
  | send done reply => exact step_send h done reply
  | retryOne stop dial reply => exact step_retryOne h stop dial reply
  | finish => exact step_finish h

theorem start_inv (bounds : Bounds) (capacity last : Nat) :
    Inv bounds (⟨Pool.prepare capacity last, ⟨[], [], []⟩, [], [], fun _ => 0, []⟩ :
      World A P) := by
  refine ⟨?_, ?_⟩
  · intro i
    constructor <;> simp [Pool.prepare]
  · constructor <;> simp [Pool.prepare]

theorem machine_invariant (A P : Type) (bounds : Bounds) (capacity last : Nat) :
    (machine A P bounds capacity last).Invariant (Inv bounds) where
  start := by
    intro world started
    cases started
    exact start_inv bounds capacity last
  step := by
    intro world input h ok
    rcases step_follows h input ok with ⟨output, next, run, after, -⟩
    exact ⟨output, next, run, after⟩

/-! ## Runs -/

/-- Every authority that was accepted comes back once, for its own position in its
epoch, and until then it is with the resident. -/
def Returned (world : World A P) : Prop :=
  (world.accepted.map Prod.fst).Nodup ∧ (world.handed.map Prod.fst).Nodup ∧
  (∀ key a, (key, a) ∈ world.handed → (key, a) ∈ world.accepted) ∧
  ∀ key a, (key, a) ∈ world.accepted → ((key, a) ∉ world.handed ↔
    ∃ cell, world.pool.tryKey key = some cell ∧ cell.authority = some a)

/-- The offset of a resident is what was acknowledged, and what is submitted is the
payload from there on. -/
def Acknowledged (bounds : Bounds) (world : World A P) : Prop :=
  ∀ key cell, world.pool.tryKey key = some cell →
    cell.offset = world.acked key ∧ cell.offset ≤ cell.payload.length ∧
    ∀ flight fd start bytes, ⟨key, flight, .send fd start bytes⟩ ∈ world.driver.outstanding →
      start = cell.offset ∧ 0 < bytes ∧
        bytes = min (cell.payload.length - cell.offset) bounds.transfer

/-- What is outstanding belongs to a resident, and a descriptor is closed once, when
its resident leaves. -/
def Vacated (world : World A P) : Prop :=
  (∀ op ∈ world.driver.outstanding, ∃ cell, world.pool.tryKey op.key = some cell) ∧
  (world.driver.created.map Prod.fst).Nodup ∧ (world.driver.closed.map Prod.fst).Nodup ∧
  (∀ key fd, (key, fd) ∈ world.driver.closed → (key, fd) ∈ world.driver.created) ∧
  ∀ key fd, (key, fd) ∈ world.driver.created → ((key, fd) ∉ world.driver.closed ↔
    ∃ cell, world.pool.tryKey key = some cell ∧ cell.phase.fd? = some fd)

/-- A position has a deadline while its resident has its authority. -/
def Timed (world : World A P) : Prop :=
  ∀ i, world.pool.deadlines i ≠ none ↔
    ∃ key cell, world.pool.tryAt i = some (key, cell) ∧ cell.authority ≠ none

/-- A resident is queued once, while a connect, a send or a cancellation of it waits
for room, and one that is not queued is with the kernel. -/
def Queued (world : World A P) : Prop :=
  world.pool.retries.Nodup ∧
  (∀ key, key ∈ world.pool.retries ↔ ∃ cell, world.pool.tryKey key = some cell ∧
    (cell.phase.waits ∨ key ∈ world.stalled)) ∧
  (∀ key cell, world.pool.tryKey key = some cell → key ∈ world.stalled →
    cell.authority = none ∧ cell.phase.stops) ∧
  ∀ key cell, world.pool.tryKey key = some cell → key ∉ world.pool.retries →
    ∃ op ∈ world.driver.outstanding, op.key = key

/-- A resident that is not waiting for room has an operation in the kernel. -/
theorem Cell.Good.op {cell : Cell A P} (good : cell.Good bounds) (key : Local)
    (quiet : cell.phase.waits = false) : ∃ op, cell.op? key = some op := by
  unfold Cell.op?
  have state := good.2
  cases phase : cell.phase with
  | connectRetry | sendRetry =>
    rw [phase] at quiet
    cases quiet
  | retired =>
    rw [phase] at state
    exact state.elim
  | creating | creatingCancelled | connecting | connectingCancelled | sending =>
    exact ⟨_, rfl⟩

theorem Inv.returned (h : world.Inv bounds) : world.Returned := by
  refine ⟨h.once.accepted, h.once.handed, ?_, ?_⟩
  · intro key a mem
    exact (h.at key.index).handed key.epoch a mem
  · intro key a mem
    refine ((h.at key.index).owed key.epoch a mem).trans ⟨?_, ?_⟩
    · intro held
      rcases held with ⟨epoch, cell, state, held⟩
      exact ⟨cell, h.tryKey_iff.mpr (by rw [epoch, ← state]), held⟩
    · intro held
      rcases held with ⟨cell, found, held⟩
      have slot := tryKey_some found
      exact ⟨by rw [slot], cell, by rw [slot], held⟩

theorem Inv.acknowledged (h : world.Inv bounds) : world.Acknowledged bounds := by
  intro key cell found
  have rest := h.rest (tryKey_some found)
  refine ⟨rest.offset, rest.good.1, ?_⟩
  intro flight fd start bytes mem
  rcases (rest.ops _).mp mem with ⟨-, no⟩ | op
  · exact absurd rfl no
  · have good := rest.good.2
    unfold Cell.op? at op
    cases phase : cell.phase with
    | sending fd' flight' bytes' =>
      rw [phase] at op good
      cases op
      exact ⟨rfl, good.2, good.1⟩
    | creating | creatingCancelled | connecting | connectingCancelled | connectRetry
    | sendRetry | retired =>
      rw [phase] at op
      cases op

theorem Inv.vacated (h : world.Inv bounds) : world.Vacated := by
  refine ⟨?_, h.once.created, h.once.closed, ?_, ?_⟩
  · intro op mem
    rcases ((h.at op.key.index).ops op rfl).mp mem with ⟨epoch, cell, state, -⟩
    exact ⟨cell, h.tryKey_iff.mpr (by rw [epoch, ← state])⟩
  · intro key fd mem
    exact ((h.at key.index).closed key.epoch fd mem).1
  · intro key fd mem
    refine ⟨?_, ?_⟩
    · intro unclosed
      rcases (h.at key.index).unclosed key.epoch fd mem unclosed with ⟨epoch, cell, state, held⟩
      exact ⟨cell, h.tryKey_iff.mpr (by rw [epoch, ← state]), held⟩
    · intro held
      rcases held with ⟨cell, found, -⟩
      exact h.unclosed (tryKey_some found) fd

theorem Inv.timed (h : world.Inv bounds) : world.Timed := by
  intro i
  refine ⟨?_, ?_⟩
  · intro set
    rcases Option.ne_none_iff_exists'.mp set with ⟨due, set⟩
    rcases (h.at i).due due set with ⟨epoch, cell, state, held⟩
    have slot : world.pool.slots i = ⟨due.epoch, .occupied cell⟩ := by rw [epoch, ← state]
    exact ⟨_, cell, @Inv.tryAt _ _ bounds world h ⟨i, due.epoch⟩ cell slot, held⟩
  · intro held
    rcases held with ⟨key, cell, found, held⟩
    rcases tryAt_some found with ⟨-, slot⟩
    exact (h.at i).armed cell (by rw [slot]) held

theorem Inv.queued {world : World A P} (h : world.Inv bounds) : world.Queued := by
  refine ⟨h.once.retries, ?_, ?_, ?_⟩
  · intro key
    refine ((h.at key.index).retries key.epoch).trans ⟨?_, ?_⟩
    · intro waits
      rcases waits with ⟨epoch, cell, state, waits⟩
      exact ⟨cell, h.tryKey_iff.mpr (by rw [epoch, ← state]), waits⟩
    · intro waits
      rcases waits with ⟨cell, found, waits⟩
      have slot := tryKey_some found
      exact ⟨by rw [slot], cell, by rw [slot], waits⟩
  · intro key cell found
    exact (h.rest (tryKey_some found)).stall
  · intro key cell found unqueued
    have rest := h.rest (tryKey_some found)
    have quiet : cell.phase.waits = false := by
      cases waits : cell.phase.waits with
      | true => exact absurd (rest.queued.mpr (.inl waits)) unqueued
      | false => rfl
    rcases Cell.Good.op rest.good key quiet with ⟨op, same⟩
    exact ⟨op, (rest.ops op).mpr (.inr same), Cell.op?_key same⟩

/-- No order of the calls and the completions of a one-shot pool faults. Authorities,
bytes, descriptors, deadlines and retries stay in step with the phases. The first in line
never stays where it is, and a due deadline hands the authority back. -/
theorem reachable_sends {capacity last : Nat} {world : World A P}
    (h : (machine A P bounds capacity last).Reachable world) :
    world.Returned ∧ world.Acknowledged bounds ∧ world.Vacated ∧ world.Timed ∧ world.Queued ∧
      (∀ input, world.allowed input → ∃ output next,
        world.step bounds input = .ok (output, next) ∧ Proper world input output next) ∧
      (∀ key rest stop dial reply, world.pool.retries = key :: rest → ∃ cell output next,
        world.pool.tryKey key = some cell ∧
        world.step bounds (.retryOne stop dial reply) = .ok (output, next) ∧
        Resumed world key rest cell stop dial reply output next) ∧
      ∀ now index due reply, world.pool.deadlines index = some due → due.instant ≤ now →
        ∃ a e next, world.step bounds (.expireOne now (some index) reply) =
            .ok (.progress (.complete a (.error e)), next) ∧
          next.handed = (⟨index, due.epoch⟩, a) :: world.handed ∧
          Told (due.timeout now) reply e := by
  have inv := (machine_invariant A P bounds capacity last).holds h
  refine ⟨inv.returned, inv.acknowledged, inv.vacated, inv.timed, inv.queued, ?_, ?_, ?_⟩
  · intro input ok
    rcases step_follows inv input ok with ⟨output, next, run, -, proper⟩
    exact ⟨output, next, run, proper⟩
  · intro key rest stop dial reply line
    rcases inv.resumes line stop dial reply with ⟨cell, found, output, next, run, -, -, resumed⟩
    exact ⟨cell, output, next, found, run, resumed⟩
  · intro now index due reply set late
    rcases inv.expires set late reply with ⟨a, e, next, run, -, -, handed, told⟩
    exact ⟨a, e, next, run, handed, told⟩

/-- A request whose connect and second send meet a full queue is cancelled with one
byte to go, and the cancellation of another one meets a full queue too. -/
theorem reachable_sends_example :
    ∃ world : World Bool Nat, (machine Bool Nat ⟨2, 100, by decide⟩ 2 9).Reachable world ∧
      world.handed = [(⟨1, 0⟩, false), (⟨0, 0⟩, true)] ∧ world.acked ⟨0, 0⟩ = 2 ∧
      world.driver.closed = [(⟨0, 0⟩, 5)] ∧ world.pool.retries = [⟨1, 0⟩] ∧
      world.Returned ∧ world.Acknowledged ⟨2, 100, by decide⟩ ∧ world.Vacated ∧ world.Timed ∧
      world.Queued := by
  have start : (machine Bool Nat ⟨2, 100, by decide⟩ 2 9).Reachable
      ⟨Pool.prepare 2 9, ⟨[], [], []⟩, [], [], fun _ => 0, []⟩ := .start rfl
  have run := start.call (.trySend 0 ⟨80, true, [1, 2, 3], 50, 20⟩ (.ok 5) (.ok 3)) trivial rfl
  have run := run.call (.socket ⟨⟨0, 0⟩, 3, .created 5⟩ .full) (by
    intro made slot same mem
    cases same
    cases mem with
    | head => rfl
    | tail _ no => cases no) rfl
  have run := run.call (.retryOne .accepted (.ok 4) .full) trivial rfl
  have run := run.call (.connect ⟨⟨0, 0⟩, 4, .ok⟩ 10 (.ok 6)) trivial rfl
  have run := run.call (.send ⟨⟨0, 0⟩, 6, .ok 2⟩ .full) trivial rfl
  have run := run.call (.tryCancel 0 .accepted) trivial rfl
  have run := run.call (.trySend 1 ⟨81, false, [7], 60, 20⟩ (.ok 5) (.ok 8)) trivial rfl
  have run := run.call (.tryCancel 1 .full) trivial rfl
  have result := reachable_sends run
  exact ⟨_, run, rfl, rfl, rfl, rfl, result.1, result.2.1, result.2.2.1, result.2.2.2.1,
    result.2.2.2.2.1⟩

end World

end Dope.OneShot
