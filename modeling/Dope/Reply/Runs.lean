import Dope.Reply.Rings

/-! # Runs of the reply book

Every operation keeps the rings and the accounts together, so that the lane
picked is always one that may take an entry.
-/

namespace Dope.Reply

open Run Tally

variable {credit : FairCredit} {n m : Nat}

/-! ## Rings under the operations -/

namespace Tracks

variable {order : Queues n} {pool pool' : Pool credit n} {lane : Fin n} {held : Nat}

theorem next {N : Fin 2} (tracks : Tracks order pool) : Tracks (order.next N).2 pool where
  nodup := tracks.nodup.next
  reserved other := by rw [Queues.mem_next, Queues.mem_next, tracks.reserved]

theorem deactivate (tracks : Tracks order pool) : Tracks (order.deactivate lane) pool where
  nodup := tracks.nodup.remove.remove
  reserved other := by
    have first : (order.remove 0 lane).Nodup := tracks.nodup.remove
    rw [Queues.deactivate, Queues.mem_remove first, Queues.mem_remove first,
      Queues.mem_remove tracks.nodup, Queues.mem_remove tracks.nodup, tracks.reserved]
    simp
    tauto

/-- A lane outside the reserve ring, once it may use its reserve. -/
theorem reserve (nodup : order.Nodup) (reserved : ∀ other, other ≠ lane →
      (other ∈ order.heads 1 ↔ other ∈ order.heads 0 ∧ pool.held other < pool.reserve other))
    (active : lane ∈ order.heads 0) (below : pool.held lane < pool.reserve lane) :
    Tracks (order.reserve lane) pool where
  nodup := nodup.insert
  reserved other := by
    rw [Queues.reserve, Queues.mem_insert, Queues.mem_insert]
    by_cases same : other = lane
    · subst same
      simp [active, below]
    · simp [same, reserved other same]

/-- A lane that took credit leaves the reserve ring with its reserve. -/
theorem settle (tracks : Tracks order pool) (moves : pool.Moves lane pool' held)
    (more : pool.held lane ≤ held) :
    Tracks (if pool'.hasReserve lane then order else order.remove 1 lane) pool' := by
  have others : ∀ other, other ≠ lane →
      (other ∈ order.heads 1 ↔ other ∈ order.heads 0 ∧ pool'.held other < pool'.reserve other) := by
    intro other ne
    rw [moves.others other ne, moves.reserve, tracks.reserved]
  have own := moves.held
  have kept := moves.reserve lane
  by_cases below : pool'.held lane < pool'.reserve lane
  · rw [if_pos (by simpa [Pool.hasReserve] using below)]
    refine ⟨tracks.nodup, fun other => ?_⟩
    by_cases same : other = lane
    · subst same
      rw [tracks.reserved]
      have before : pool.held other < pool.reserve other := by omega
      simp [below, before]
    · exact others other same
  · rw [if_neg (by simpa [Pool.hasReserve] using below)]
    refine ⟨tracks.nodup.remove, fun other => ?_⟩
    rw [Queues.mem_remove tracks.nodup, Queues.mem_remove tracks.nodup]
    by_cases same : other = lane
    · subst same
      simp [below]
    · simp [same, others other same]

/-- A lane that gave a unit back enters the reserve ring when the unit was its
reserve. -/
theorem release (tracks : Tracks order pool) (moves : pool.Moves lane pool' (pool.held lane - 1))
    (holds : 0 < pool.held lane) :
    Tracks (if pool.held lane = pool.reserve lane ∧ order.contains lane = true then
      order.reserve lane else order) pool' := by
  have others : ∀ other, other ≠ lane →
      (other ∈ order.heads 1 ↔ other ∈ order.heads 0 ∧ pool'.held other < pool'.reserve other) := by
    intro other ne
    rw [moves.others other ne, moves.reserve, tracks.reserved]
  have own := moves.held
  have kept := moves.reserve lane
  have active : order.contains lane = true ↔ lane ∈ order.heads 0 := by
    simp [Queues.contains, Queues.isLinked]
  by_cases returned : pool.held lane = pool.reserve lane ∧ order.contains lane = true
  · rw [if_pos returned]
    exact reserve tracks.nodup others (active.mp returned.2) (by omega)
  · rw [if_neg returned]
    refine ⟨tracks.nodup, fun other => ?_⟩
    by_cases same : other = lane
    · subst same
      rw [tracks.reserved]
      rw [active] at returned
      constructor
      · rintro ⟨mem, below⟩
        exact ⟨mem, by omega⟩
      · rintro ⟨mem, below⟩
        refine ⟨mem, ?_⟩
        have apart : pool.held other ≠ pool.reserve other := fun eq => returned ⟨eq, mem⟩
        omega
    · exact others other same

end Tracks

/-! ## Operations -/

variable {index : Fin m}

namespace Arena

variable {arena : Arena credit n m} {lane : Fin n}

theorem activate_eq (arena : Arena credit n m) (lane : Fin n) : arena.activate lane =
    if (arena.order.insert 0 lane).1 then
      if arena.pool.hasReserve lane then
        { arena with order := (arena.order.insert 0 lane).2.reserve lane }
      else { arena with order := (arena.order.insert 0 lane).2 }
    else arena := rfl

theorem Inv.activate (inv : arena.Inv) : (arena.activate lane).Inv := by
  have tracks := inv.rings
  rw [activate_eq]
  have others : ∀ other, other ≠ lane → (other ∈ (arena.order.insert 0 lane).2.heads 1 ↔
      other ∈ (arena.order.insert 0 lane).2.heads 0 ∧
        arena.pool.held other < arena.pool.reserve other) := by
    intro other ne
    rw [Queues.mem_insert, Queues.mem_insert, tracks.reserved]
    simp [ne]
  by_cases fresh : (arena.order.insert 0 lane).1 = true
  · rw [if_pos fresh]
    by_cases below : arena.pool.hasReserve lane = true
    · rw [if_pos below]
      refine ⟨Tracks.reserve tracks.nodup.insert others (Queues.mem_insert.mpr (.inr ⟨rfl, rfl⟩))
        ?_, inv.counts⟩
      simpa [Pool.hasReserve] using below
    · rw [if_neg below]
      refine ⟨⟨tracks.nodup.insert, fun other => ?_⟩, inv.counts⟩
      by_cases same : other = lane
      · subst same
        have out := Queues.insert_fst.mp fresh
        have above : ¬ arena.pool.held other < arena.pool.reserve other := by
          simpa [Pool.hasReserve] using below
        rw [Queues.mem_insert, tracks.reserved]
        simp [out, above]
      · exact others other same
  · rw [if_neg fresh]
    exact inv

theorem Inv.deactivate (inv : arena.Inv) : (arena.deactivate lane).Inv :=
  ⟨inv.rings.deactivate, inv.counts⟩

theorem pickActive_eq (arena : Arena credit n m) :
    arena.pickActive =
      let N := if arena.pool.shared ≠ 0 then 0 else 1
      ((arena.order.next N).1, { arena with order := (arena.order.next N).2 }) := by
  by_cases shared : arena.pool.shared ≠ 0 <;> simp [pickActive, shared]

theorem Inv.pickActive (inv : arena.Inv) : arena.pickActive.2.Inv := by
  rw [pickActive_eq]
  exact ⟨inv.rings.next, inv.counts⟩

theorem active_activate {other : Fin n} :
    other ∈ (arena.activate lane).order.heads 0 ↔ other ∈ arena.order.heads 0 ∨ other = lane := by
  rw [activate_eq]
  by_cases fresh : (arena.order.insert 0 lane).1 = true
  · rw [if_pos fresh]
    by_cases below : arena.pool.hasReserve lane = true
    · rw [if_pos below]
      simp [Queues.reserve, Queues.mem_insert]
    · rw [if_neg below]
      simp [Queues.mem_insert]
  · rw [if_neg fresh]
    rw [Queues.insert_fst, not_not] at fresh
    constructor
    · exact Or.inl
    · rintro (mem | rfl)
      · exact mem
      · exact fresh

theorem active_deactivate (inv : arena.Inv) {other : Fin n} :
    other ∈ (arena.deactivate lane).order.heads 0 ↔
      other ∈ arena.order.heads 0 ∧ other ≠ lane := by
  have first : (arena.order.remove 0 lane).Nodup := inv.rings.nodup.remove
  rw [Arena.deactivate, Queues.deactivate, Queues.mem_remove first,
    Queues.mem_remove inv.rings.nodup]
  simp

theorem active_pick (other : Fin n) :
    other ∈ arena.pickActive.2.order.heads 0 ↔ other ∈ arena.order.heads 0 := by
  rw [pickActive_eq]
  exact Queues.mem_next

/-- Between a registration and its entries, `owed` of them are missing. -/
structure Owes (arena : Arena credit n m) (lane : Fin n) (owed : Nat) : Prop where
  rings : Tracks arena.order arena.pool
  counts : Counts arena.slots arena.pool lane owed

theorem Owes.inv (owes : arena.Owes lane 0) : arena.Inv :=
  ⟨owes.rings, owes.counts.settled⟩

theorem Inv.settle {pool : Pool credit n} {request : Nat} (inv : arena.Inv)
    (run : arena.pool.register lane request = .ok pool) :
    ({ arena with pool := pool }.settle lane).Owes lane request ∧
      ({ arena with pool := pool }.settle lane).slots = arena.slots ∧
      ∀ other, other ∈ ({ arena with pool := pool }.settle lane).order.heads 0 ↔
        other ∈ arena.order.heads 0 := by
  rcases Pool.register_ok run with ⟨-, moves, entries⟩
  have tracks := inv.rings.settle moves (by omega)
  have counts := (inv.counts lane).register moves entries
  by_cases below : pool.hasReserve lane = true
  · rw [if_pos below] at tracks
    rw [Arena.settle, if_pos below]
    exact ⟨⟨tracks, counts⟩, rfl, fun _ => Iff.rfl⟩
  · rw [if_neg below] at tracks
    rw [Arena.settle, if_neg below]
    refine ⟨⟨tracks, counts⟩, rfl, fun other => ?_⟩
    simp [Queues.mem_remove inv.rings.nodup]

theorem Owes.publish {owed : Nat} {vacant : Fin m} (owes : arena.Owes lane (owed + 1))
    (free : arena.slots vacant = none) :
    ∃ after, arena.publish lane vacant = .ok after ∧ after.Owes lane owed ∧
      after.order = arena.order ∧
      ∀ other, other ≠ vacant → after.slots other = arena.slots other := by
  rw [Arena.publish, free]
  refine ⟨_, rfl, ⟨owes.rings, owes.counts.place free⟩, rfl, ?_⟩
  intro other ne
  exact Function.update_of_ne ne ..

theorem Owes.publishAll {owed : Nat} {storage : List (Fin m)} (nodup : storage.Nodup)
    (free : ∀ vacant ∈ storage, arena.slots vacant = none)
    (owes : arena.Owes lane (owed + storage.length)) :
    ∃ after, Arena.publishAll lane storage arena = .ok after ∧ after.Owes lane owed ∧
      after.order = arena.order ∧
      ∀ other, other ∉ storage → after.slots other = arena.slots other := by
  induction storage generalizing arena with
  | nil => exact ⟨arena, rfl, owes, rfl, fun _ _ => rfl⟩
  | cons vacant rest ih =>
    rcases List.nodup_cons.mp nodup with ⟨fresh, nodup⟩
    rcases owes.publish (free vacant (by simp)) with ⟨mid, first, owes, order, same⟩
    have vacancies : ∀ other ∈ rest, mid.slots other = none := by
      intro other mem
      have ne : other ≠ vacant := fun eq => fresh (eq ▸ mem)
      rw [same other ne]
      exact free other (by simp [mem])
    rcases ih nodup vacancies owes with ⟨after, run, owes, order', kept⟩
    have run : Arena.publishAll lane (vacant :: rest) arena = .ok after := by
      rw [Arena.publishAll, first]
      exact run
    refine ⟨after, run, owes, order'.trans order, ?_⟩
    intro other out
    rw [List.mem_cons, not_or] at out
    rw [kept other out.2, same other out.1]

/-- An operation that leaves the active lanes as they are. -/
structure Keeps (arena after : Arena credit n m) : Prop where
  inv : after.Inv
  active : ∀ lane, lane ∈ after.order.heads 0 ↔ lane ∈ arena.order.heads 0

theorem Inv.keeps (inv : arena.Inv) : arena.Keeps arena := ⟨inv, fun _ => Iff.rfl⟩

theorem Inv.insert {vacancy : Except Vacancy (Fin m)} (inv : arena.Inv)
    (free : ∀ vacant, vacancy = .ok vacant → arena.slots vacant = none) :
    ∃ result after, arena.insert lane vacancy = .ok (result, after) ∧ arena.Keeps after := by
  match vacancy with
  | .error .full => exact ⟨_, arena, rfl, inv.keeps⟩
  | .error .identityExhausted => exact ⟨_, arena, rfl, inv.keeps⟩
  | .ok vacant =>
    cases registered : arena.pool.register lane 1 with
    | error cause =>
      refine ⟨.error (.capacity lane cause), arena, ?_, inv.keeps⟩
      simp only [Arena.insert, registered]
    | ok pool =>
      rcases inv.settle registered with ⟨owes, slots, active⟩
      have vacancy := free vacant rfl
      rw [← slots] at vacancy
      rcases owes.publish vacancy with ⟨after, run, owes, order, -⟩
      refine ⟨.ok vacant, after, ?_, owes.inv, fun other => ?_⟩
      · simp only [Arena.insert, registered, run]
        rfl
      · rw [order]
        exact active other

theorem Inv.groupWith {commands remaining : Nat} {vacancies : List (Fin m)} (inv : arena.Inv)
    (lanes : n ≤ m) (nodup : vacancies.Nodup)
    (free : ∀ vacant ∈ vacancies, arena.slots vacant = none) :
    ∃ result after, arena.groupWith lane commands remaining vacancies = .ok (result, after) ∧
      arena.Keeps after := by
  have limit : Plan.entryLimit m n = .ok (m - n + 1) := by
    rw [Plan.entryLimit, minus_of_le lanes]
    rfl
  unfold Arena.groupWith
  rw [limit, ok_bind]
  by_cases oversized : m - n + 1 < commands + 1
  · exact ⟨_, arena, if_pos oversized, inv.keeps⟩
  by_cases exhausted : remaining < commands + 1
  · exact ⟨_, arena, by simp only [if_neg oversized, if_pos exhausted]; rfl, inv.keeps⟩
  simp only [if_neg oversized, if_neg exhausted]
  cases vacancies with
  | nil => exact ⟨_, arena, rfl, inv.keeps⟩
  | cons terminal rest =>
    by_cases short : (rest.take commands).length < commands
    · exact ⟨_, arena, by simp only [if_pos short]; rfl, inv.keeps⟩
    simp only [if_neg short]
    cases registered : arena.pool.register lane (commands + 1) with
    | error cause => exact ⟨_, arena, rfl, inv.keeps⟩
    | ok pool =>
      rcases inv.settle registered with ⟨owes, slots, active⟩
      rcases List.nodup_cons.mp nodup with ⟨fresh, nodup⟩
      have taken : ∀ vacant ∈ rest.take commands, vacant ∈ rest :=
        fun _ mem => List.mem_of_mem_take mem
      have length : (rest.take commands).length = commands := by
        have le := List.length_take_le commands rest
        omega
      have owed : ({ arena with pool := pool }.settle lane).Owes lane
          (1 + (rest.take commands).length) := by
        rw [length, Nat.add_comm]
        exact owes
      rcases owed.publishAll (nodup.sublist (List.take_sublist ..))
          (fun vacant mem => by
            rw [slots]
            exact free vacant (by simp [taken vacant mem])) with
        ⟨mid, first, owes, order, kept⟩
      have last : mid.slots terminal = none := by
        rw [kept terminal fun mem => fresh (taken terminal mem), slots]
        exact free terminal (by simp)
      rcases owes.publish last with ⟨after, second, owes, order', -⟩
      refine ⟨.ok (rest.take commands, terminal), after, ?_, owes.inv, fun other => ?_⟩
      · simp only [first, ok_bind, second]
        rfl
      · rw [order', order]
        exact active other

/-- The entry of `index` leaves, and its lane gets its unit back. -/
theorem Inv.unbind {body : Body} (inv : arena.Inv) (entry : arena.slots index = some ⟨lane, body⟩) :
    ∃ after, arena.unbind index lane = .ok after ∧ arena.Keeps after := by
  have owes := (inv.counts lane).clear entry
  have holds : 0 < arena.pool.held lane := by
    rw [owes.held]
    simp
  have used : 0 < arena.pool.entries := by
    rw [owes.entries]
    omega
  rcases Pool.releaseSlot_ok holds used with ⟨pool, run, moves, entries⟩
  have tracks := inv.rings.release moves holds
  have counts := owes.release moves entries
  rw [Arena.unbind]
  simp only [run, ok_bind]
  refine ⟨_, rfl, ?_⟩
  by_cases returned : arena.pool.held lane = arena.pool.reserve lane ∧
      arena.order.contains lane = true
  · rw [if_pos returned] at tracks
    rw [Arena.release, if_pos returned.1, if_pos ⟨rfl, returned.2⟩]
    refine ⟨⟨tracks, counts.settled⟩, fun other => ?_⟩
    simp [Queues.reserve, Queues.mem_insert]
  · rw [if_neg returned] at tracks
    have stays : ¬ ((if arena.pool.held lane = arena.pool.reserve lane then Release.reserved
        else .shared) = .reserved ∧ arena.order.contains lane = true) := by
      rintro ⟨reserved, active⟩
      by_cases exact : arena.pool.held lane = arena.pool.reserve lane
      · exact returned ⟨exact, active⟩
      · simp [exact] at reserved
    rw [Arena.release, if_neg stays]
    exact ⟨⟨tracks, counts.settled⟩, fun _ => Iff.rfl⟩

theorem Inv.setBody {body : Body} (body' : Body) (inv : arena.Inv)
    (entry : arena.slots index = some ⟨lane, body⟩) : (arena.setBody index lane body').Inv :=
  ⟨inv.rings, fun other => (inv.counts other).change entry⟩

theorem Inv.retire {dropped isEmpty : Bool} (inv : arena.Inv) (held : arena.slots index ≠ none) :
    ∃ result after, arena.retire index dropped isEmpty = .ok (result, after) ∧
      arena.Keeps after := by
  rcases Option.ne_none_iff_exists'.mp held with ⟨⟨owner, body⟩, entry⟩
  -- Past its last value an entry is drained, and leaves if nothing else holds it.
  have drains : ∃ result after,
      (if dropped then .ok (.draining, arena.setBody index owner .draining)
        else if isEmpty then do
          let after ← (arena.setBody index owner .drained).unbind index owner
          return (.complete (some owner), after)
        else .ok (.complete none, arena.setBody index owner .drained) :
          Except Fault (Advance n × Arena credit n m)) = .ok (result, after) ∧
      arena.Keeps after := by
    cases dropped with
    | true => exact ⟨_, _, rfl, inv.setBody .draining entry, fun _ => Iff.rfl⟩
    | false =>
      have inv := inv.setBody .drained entry
      cases isEmpty with
      | false => exact ⟨_, _, rfl, inv, fun _ => Iff.rfl⟩
      | true =>
        have drained : (arena.setBody index owner .drained).slots index =
            some ⟨owner, .drained⟩ := Function.update_self ..
        rcases inv.unbind drained with ⟨after, run, keeps⟩
        refine ⟨.complete (some owner), after, ?_, keeps.inv, keeps.active⟩
        simp [run]
  rw [Arena.retire, entry]
  cases body with
  | attached | draining => exact drains
  | drained =>
    rcases inv.unbind entry with ⟨after, run, keeps⟩
    exact ⟨.complete (some owner), after, by simp only [run]; rfl, keeps⟩

theorem Inv.retained {isEmpty : Bool} (inv : arena.Inv) (held : arena.slots index ≠ none) :
    ∃ result after, arena.retained index isEmpty = .ok (result, after) ∧
      arena.Keeps after := by
  rcases Option.ne_none_iff_exists'.mp held with ⟨entry, slot⟩
  rw [Arena.retained, slot]
  by_cases stays : entry.body ≠ .drained ∨ isEmpty = false
  · exact ⟨_, _, if_pos stays, inv.keeps⟩
  · rcases inv.unbind slot with ⟨after, run, keeps⟩
    refine ⟨some entry.lane, after, ?_, keeps⟩
    simp only [if_neg stays, run]
    rfl

end Arena

/-! ## Runs -/

/-- The active lanes after an input. -/
def Input.activates (active : Fin n → Bool) : Input n m → Fin n → Bool
  | .activate lane => Function.update active lane true
  | .deactivate lane => Function.update active lane false
  | .pick | .registration .. | .insert .. | .group .. | .retire .. | .retained .. => active

/-- The lanes activated and not deactivated since. -/
def active (events : List (Input n m × Output n m)) : Fin n → Bool :=
  events.foldl (fun active event => event.1.activates active) fun _ => false

theorem active_snoc (events : List (Input n m × Output n m)) (event : Input n m × Output n m) :
    active (events ++ [event]) = event.1.activates (active events) := by
  rw [active, List.foldl_append]
  rfl

theorem start_inv (credit : FairCredit) (n m : Nat) (plan : Plan 1) :
    (Arena.start credit n m plan).Inv where
  rings := ⟨fun _ => List.nodup_nil, fun lane => by simp [Arena.start, Queues.start]⟩
  counts lane := by
    refine ⟨fun other => ?_, ?_⟩
    · simp [Arena.start, Pool.start, Pool.held, credit.new_held, tally_empty]
    · simp [Arena.start, Pool.start, tally_empty]

/-- One operation keeps the invariant, and turns lanes active as its input says. -/
theorem Arena.Inv.step {arena : Arena credit n m} {wanted : Fin n → Bool} (lanes : n ≤ m)
    (inv : arena.Inv) (current : ∀ lane, lane ∈ arena.order.heads 0 ↔ wanted lane = true)
    (input : Input n m) (allowed : arena.Allowed input) :
    ∃ output after, arena.step input = .ok (output, after) ∧ after.Inv ∧
      ∀ lane, lane ∈ after.order.heads 0 ↔ input.activates wanted lane = true := by
  -- What an operation answers is wrapped into an output.
  have wrap : ∀ {α : Type} {run : Except Fault (α × Arena credit n m)} (wrapped : α → Output n m),
      (∃ result after, run = .ok (result, after) ∧ arena.Keeps after) →
      ∃ output after, (do
        let (result, after) ← run
        return (wrapped result, after) : Except Fault (Output n m × Arena credit n m)) =
          .ok (output, after) ∧ after.Inv ∧
        ∀ lane, lane ∈ after.order.heads 0 ↔ wanted lane = true := by
    rintro α run wrapped ⟨result, after, rfl, keeps⟩
    refine ⟨wrapped result, after, rfl, keeps.inv, fun lane => ?_⟩
    exact (keeps.active lane).trans (current lane)
  cases input with
  | activate lane =>
    refine ⟨_, _, rfl, inv.activate, fun other => ?_⟩
    rw [Arena.active_activate, current]
    by_cases same : other = lane
    · subst same
      simp [Input.activates]
    · simp [Input.activates, same]
  | deactivate lane =>
    refine ⟨_, _, rfl, inv.deactivate, fun other => ?_⟩
    rw [Arena.active_deactivate inv, current]
    by_cases same : other = lane
    · subst same
      simp [Input.activates]
    · simp [Input.activates, same]
  | pick =>
    refine ⟨_, _, rfl, inv.pickActive, fun other => ?_⟩
    exact (Arena.active_pick other).trans (current other)
  | registration isFull isExhausted lane => exact ⟨_, _, rfl, inv, current⟩
  | insert lane vacancy => exact wrap _ (inv.insert allowed)
  | group lane commands remaining free =>
    exact wrap _ (inv.groupWith lanes allowed.2.1 allowed.2.2)
  | retire index dropped isEmpty => exact wrap _ (inv.retire allowed)
  | retained index isEmpty => exact wrap _ (inv.retained allowed)

theorem traces_inv {layout : Layout} (accepted : layout.Accepted)
    {events : List (Input layout.lanes layout.entries × Output layout.lanes layout.entries)}
    {arena : Arena credit layout.lanes layout.entries}
    (traces : (machine credit layout).Traces events arena) :
    arena.Inv ∧ ∀ lane, lane ∈ arena.order.heads 0 ↔ active events lane = true := by
  induction traces with
  | start first =>
    rw [first]
    exact ⟨start_inv .., fun lane => by simp [Arena.start, Queues.start, active]⟩
  | next _ allowed run ih =>
    rcases ih.1.step accepted.entries ih.2 _ allowed with ⟨output, after, run', inv, current⟩
    have same := run.symm.trans run'
    cases same
    exact ⟨inv, fun lane => by rw [active_snoc]; exact current lane⟩

/-! ## Picks -/

namespace Arena

/-- The ring that a pick takes from. -/
def candidates (arena : Arena credit n m) : List (Fin n) :=
  if arena.pool.shared ≠ 0 then arena.order.heads 0 else arena.order.heads 1

/-- `k` picks with nothing in between. -/
def afterPicks : Nat → Arena credit n m → Arena credit n m
  | 0, arena => arena
  | k + 1, arena => afterPicks k arena.pickActive.2

variable {arena : Arena credit n m}

theorem pickActive_fst : arena.pickActive.1 = (Cycle.next arena.candidates).1 := by
  rw [pickActive_eq, candidates]
  by_cases shared : arena.pool.shared ≠ 0 <;> simp [shared, Queues.next]

theorem pickActive_candidates :
    arena.pickActive.2.candidates = (Cycle.next arena.candidates).2 := by
  rw [pickActive_eq, candidates, candidates]
  by_cases shared : arena.pool.shared ≠ 0 <;> simp [shared, Queues.next, Queues.setHead]

theorem afterPicks_candidates (k : Nat) (arena : Arena credit n m) :
    (afterPicks k arena).candidates = Cycle.turn k arena.candidates := by
  induction k generalizing arena with
  | zero => rfl
  | succ k ih => rw [afterPicks, ih, pickActive_candidates, Cycle.turn]

theorem afterPicks_pick (k : Nat) (arena : Arena credit n m) :
    (afterPicks k arena).pickActive.1 = arena.candidates[k % arena.candidates.length]? := by
  rw [pickActive_fst, afterPicks_candidates, Cycle.next_turn]

theorem Inv.candidates_nodup (inv : arena.Inv) : arena.candidates.Nodup := by
  unfold candidates
  split
  · exact inv.rings.nodup 0
  · exact inv.rings.nodup 1

/-- The candidates are the active lanes that can be granted one more entry. -/
theorem Inv.mem_candidates (inv : arena.Inv) (small : m < usizeMax) (lane : Fin n) :
    lane ∈ arena.candidates ↔ lane ∈ arena.order.heads 0 ∧ arena.pool.canAdmit lane 1 = true := by
  have bound : arena.pool.held lane ≤ m := by
    rw [(inv.counts lane).held]
    simpa using tally_le
  rw [Pool.canAdmit_iff (by omega), candidates]
  by_cases shared : arena.pool.shared ≠ 0
  · rw [if_pos shared]
    have fits : 1 ≤ (arena.pool.reserve lane - arena.pool.held lane) + arena.pool.shared := by
      omega
    simp [fits]
  · rw [if_neg shared, inv.rings.reserved]
    have spent : arena.pool.shared = 0 := not_not.mp shared
    rw [spent]
    have same : arena.pool.held lane < arena.pool.reserve lane ↔
        1 ≤ arena.pool.reserve lane - arena.pool.held lane + 0 := by omega
    rw [same]

end Arena

theorem Layout.Accepted.small {layout : Layout} (accepted : layout.Accepted) :
    layout.entries < usizeMax := by
  have bound := accepted.bound
  simp only [maximumEntries, u32Max] at bound
  simp only [usizeMax]
  omega

/-- In every run over an accepted layout the reserve ring holds the active lanes
below their reserve. A pick answers with a lane when an active lane can be
granted one more entry, and then with such a lane; picks in a row go around these
lanes. The layout splits its entries exactly, and no layout underflows. -/
theorem reachable_picks (credit : FairCredit) {capacity : Capacity} {wanted : Option Limit}
    {layout : Layout} (accepted : Layout.withLimit capacity wanted = .ok (.ok layout))
    {events : List (Input layout.lanes layout.entries × Output layout.lanes layout.entries)}
    {arena : Arena credit layout.lanes layout.entries}
    (traces : (machine credit layout).Traces events arena) :
    (∀ lane, lane ∈ arena.order.heads 1 ↔
      active events lane = true ∧ arena.pool.held lane < arena.pool.reserve lane) ∧
    ((∃ lane, arena.pickActive.1 = some lane) ↔
      ∃ lane, active events lane = true ∧ arena.pool.canAdmit lane 1 = true) ∧
    (∀ lane, arena.pickActive.1 = some lane →
      active events lane = true ∧ arena.pool.canAdmit lane 1 = true) ∧
    (∃ ring : List (Fin layout.lanes), ring.Nodup ∧
      (∀ lane, lane ∈ ring ↔ active events lane = true ∧ arena.pool.canAdmit lane 1 = true) ∧
      ∀ k, (arena.afterPicks k).pickActive.1 = ring[k % ring.length]?) ∧
    layout.admission.shared 0 + layout.admission.reserve 0 * layout.lanes = layout.entries ∧
    (∀ capacity wanted, ∃ result, Layout.withLimit capacity wanted = .ok result) := by
  have shape := Layout.withLimit_accepted accepted
  rcases traces_inv shape traces with ⟨inv, current⟩
  have ring : ∀ lane, lane ∈ arena.candidates ↔
      active events lane = true ∧ arena.pool.canAdmit lane 1 = true := by
    intro lane
    rw [inv.mem_candidates shape.small, current]
  refine ⟨?_, ?_, ?_, ⟨arena.candidates, inv.candidates_nodup, ring, ?_⟩, shape.total, ?_⟩
  · intro lane
    rw [inv.rings.reserved, current]
  · rw [Arena.pickActive_fst, Cycle.next_isSome]
    exact exists_congr ring
  · intro lane picked
    rw [Arena.pickActive_fst] at picked
    exact (ring lane).mp (Cycle.next_mem picked)
  · intro k
    exact Arena.afterPicks_pick k arena
  · intro capacity wanted
    rcases Layout.withLimit_cases capacity wanted with ⟨result, run, -⟩
    exact ⟨result, run⟩

/-! ## An example -/

/-- Two lanes and three entries: one unit to share. -/
def exampleCapacity : Capacity := ⟨2, 3, 4, 64, 4⟩

def exampleLayout : Layout where
  lanes := 2
  entries := 3
  limit := ⟨3, 48, 3⟩
  admission := ⟨fun _ => 1, fun _ => 1⟩
  payload := ⟨fun
    | 0 | 1 => 2
    | 2 => 32, Plan.payloadReserve (fun
    | 0 | 1 => 4
    | 2 => 64) 2⟩

/-- One lane takes its reserve and the shared unit, and the other is left to pick. -/
theorem reachable_picks_example :
    ∃ (events : List (Input 2 3 × Output 2 3)) (arena : Arena FairCredit.direct 2 3),
      (machine FairCredit.direct exampleLayout).Traces events arena ∧
      arena.order.heads 1 = [1] ∧ arena.pickActive.1 = some 1 ∧
      (active events 1 = true ∧ arena.pool.canAdmit 1 1 = true) := by
  have accepted : Layout.withLimit exampleCapacity none = .ok (.ok exampleLayout) := rfl
  have started : (machine FairCredit.direct exampleLayout).Traces []
      (Arena.start FairCredit.direct 2 3 exampleLayout.admission) := .start rfl
  have left := started.call (.activate (0 : Fin 2)) trivial rfl
  have right := left.call (.activate (1 : Fin 2)) trivial rfl
  have first := right.call (.insert (0 : Fin 2) (.ok (0 : Fin 3)))
    (fun vacant same => by cases same; rfl) rfl
  have second := first.call (.insert (0 : Fin 2) (.ok (1 : Fin 3)))
    (fun vacant same => by cases same; rfl) rfl
  have picks := reachable_picks FairCredit.direct accepted second
  exact ⟨_, _, second, rfl, rfl, picks.2.2.1 (1 : Fin 2) rfl⟩

end Dope.Reply
