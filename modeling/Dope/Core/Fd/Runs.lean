import Mathlib.Algebra.Group.Nat.Defs
import Dope.Core.Fd.Echoes

/-! # Runs of the descriptor domain

The invariant holds from the empty domain on, and no allowed step faults.
-/

namespace Dope.Core.Fd

variable {T : Type}

namespace World

variable {layout : Layout} {world world' : World T}

/-! ## The invariant -/

/-- What is read for a generation is a target that was published for it. -/
theorem Inv.read (h : world.Inv layout) (i generation : Nat) :
    ∃ target, world.domain.resident.target i generation = .ok target ∧
      ∀ found, target = some found → (i, generation, found) ∈ world.published := by
  unfold Store.target
  split
  · next here =>
    simp only [Bool.and_eq_true, decide_eq_true_eq] at here
    rw [← here.2]
    exact Entry.Backed.dispatch (h.held i).targets
  · exact ⟨none, rfl, nofun⟩

theorem Inv.step (h : world.Inv layout) (input : Input T) (ok : world.allowed input) :
    ∃ out world', world.step input = .ok (out, world') ∧ Keeps layout world world' := by
  cases input with
  | assign owner count => exact h.assign
  | reserve => exact h.reserve
  | release slot generation => exact h.release ok
  | acquire owner index => exact h.acquire
  | unopened slot owner index generation => exact ⟨_, _, rfl, h.unopened ok⟩
  | begin slot owner index generation => exact ⟨_, _, rfl, h.begin ok⟩
  | created slot owner index => exact h.created ok
  | failed slot owner index => exact h.failed ok
  | creating slot owner generation => exact ⟨_, _, rfl, h.creating ok⟩
  | discard slot owner => exact ⟨_, _, rfl, h.discard ok⟩
  | activate slot owner generation => exact ⟨_, _, rfl, h.activate ok.1 ok.2⟩
  | retireActive slot owner generation => exact ⟨_, _, rfl, h.retireActive ok⟩
  | retireSolo slot generation => exact ⟨_, _, rfl, h.retireSolo ok⟩
  | retireAccepted slot generation => exact ⟨_, _, rfl, h.retireAccepted ok⟩
  | retireRoute owner => exact ⟨_, _, rfl, h.retireRoute⟩
  | arrive slot => exact ⟨_, _, rfl, h.arrive (h.accept ▸ ok.1) ok.2⟩
  | accepted slot => exact h.accepted ok
  | abandon slot => exact ⟨_, _, rfl, h.abandoned ok⟩
  | publish slot generation target => exact ⟨_, _, rfl, h.publish target⟩
  | target slot generation =>
    rcases h.read slot generation with ⟨target, read, -⟩
    refine ⟨.target target, world, ?_, h, Domain.follows_of_eq rfl⟩
    unfold World.step
    dsimp only
    rw [read]
  | pending => exact ⟨_, _, rfl, h.pending⟩
  | submit => exact h.submit
  | commit => exact h.commit
  | execute slot => exact ⟨_, _, rfl, h.execute ok⟩
  | fail slot => exact ⟨_, _, rfl, h.failClose ok⟩
  | bind raw => exact h.bind ok
  | complete echo expected => exact h.complete ok
  | retry echo expected => exact ⟨_, _, rfl, h.retry ok.1 ok.2⟩

/-- In the empty domain the mapping is the identity behind the accepted slots. -/
theorem tiled_start (accept outbound : Nat) :
    Tiled accept (.tryNew accept outbound) (fun _ => .free) fun _ => false := by
  refine ⟨⟨Nat.le_refl _, Nat.zero_le _⟩, ?_, ?_, nofun, ?_, nofun, nofun, fun _ _ _ => ⟨rfl, rfl⟩,
    ?_⟩
  · intro k live
    unfold Table.Live Table.tryNew at live
    show accept ≤ accept + k ∧ accept + k < accept + outbound
    dsimp only at live
    omega
  · intro j k _ _ same
    exact Nat.add_left_cancel same
  · intro k low
    exact absurd low (Nat.not_lt_zero k)
  · intro i lower upper unnamed
    refine absurd (Nat.add_sub_cancel' lower) (unnamed (i - accept) (.inr ⟨Nat.zero_le _, ?_⟩))
    show i - accept < outbound
    change i < accept + outbound at upper
    omega

theorem Inv.start (layout : Layout) : Inv layout (⟨.tryNew layout.accept layout.outbound
    layout.last, [], fun _ => ⟨false, false, false, false⟩, [], fun _ => 0, fun _ => 0⟩ :
      World T) := by
  have lines : (Store.tryNew (T := T) (layout.accept + layout.outbound) layout.last).Lines
      fun _ => [] := by
    refine ⟨fun _ => rfl, fun _ => List.nodup_nil, (by simp), ?_, fun _ => rfl, (by rintro _ ⟨⟩)⟩
    intro i
    simp [Store.tryNew, Entry.linked, Entry.new]
  refine ⟨⟨rfl, rfl, rfl, rfl, ⟨⟨_, lines⟩, ?_, fun _ _ => rfl, layout.bounded⟩,
    tiled_start layout.accept layout.outbound, ?_, List.nodup_nil, ?_⟩, (by rintro _ _ _ ⟨⟩)⟩
  · unfold Store.flights
    exact (Span.countP_zero.mpr fun _ _ _ => rfl).symm
  · intro i
    refine ⟨⟨Nat.zero_le _, ?_, ?_, ?_, ?_⟩, ?_, fun _ => ⟨⟨rfl, rfl, rfl⟩, rfl⟩, rfl, ?_⟩
    · rintro ⟨⟩
    · rintro ⟨⟩
    · rintro ⟨⟩
    · rintro ⟨⟩
    · refine fun _ => ⟨rfl, ?_, ?_, ?_, ?_, fun _ => ⟨rfl, .inl rfl⟩, ?_, ?_⟩ <;> rintro ⟨⟩
    · simp [Domain.tryNew, Store.tryNew, Entry.new]
  · intro token
    refine iff_of_false (by simp) ?_
    unfold Entry.Owns Entry.Lends
    simp [Domain.tryNew, Store.tryNew, Entry.new]

theorem machine_invariant (T : Type) (layout : Layout) :
    (World.machine T layout).Invariant (Inv layout) := by
  constructor
  · intro world started
    rw [show world = _ from started]
    exact Inv.start layout
  · intro world input h ok
    rcases h.step input ok with ⟨out, world', run, keeps, -⟩
    exact ⟨out, world', run, keeps⟩

end World

namespace Domain

def Leased (domain : Domain T) (i : Nat) : Prop :=
  ∃ owner slot, domain.outbound.slot owner slot = some i

end Domain

namespace World

variable {layout : Layout} {world world' : World T}

end World

namespace Domain

/-- The two sides of the queue hold the slots that are pending and have no retirement in
flight, each of them once, and the slots in flight are counted. -/
structure Retiring (domain : Domain T) : Prop where
  lines : ∃ line : Side → List Nat,
    (∀ side, Links.Stacked (fun i => (domain.resident.entries i).next?)
      (domain.resident.pending.heads side) (line side)) ∧
    (∀ side, (line side).Nodup) ∧ (∀ i side, i ∈ line side → i ∉ line side.other) ∧
    ∀ i, (∃ side, i ∈ line side) ↔ (domain.resident.entries i).phase = .pending ∧
      (domain.resident.entries i).inflight = false
  idle : domain.pending.1 = none → ∀ i, ¬ ((domain.resident.entries i).phase = .pending ∧
    (domain.resident.entries i).inflight = false)
  front : ∀ raw, domain.pending.1 = some raw →
    (domain.resident.entries (unpack raw).index).phase = .pending ∧
    (domain.resident.entries (unpack raw).index).inflight = false ∧
    (domain.resident.entries (unpack raw).index).epoch = some (unpack raw).generation
  counted : domain.resident.inflight = (List.range' 0 domain.resident.capacity).countP fun i =>
    (domain.resident.entries i).inflight
  above : domain.resident.inflight + 1 < 2 ^ 32
  below : ∀ i, (domain.resident.entries i).inflight = true → 0 < domain.resident.inflight

/-- The slot of an echo is as it was, but for the retirement that is over. -/
def Spared (domain domain' : Domain T) (i : Nat) : Prop :=
  (domain'.resident.entries i).phase = (domain.resident.entries i).phase ∧
  (domain'.resident.entries i).lease = (domain.resident.entries i).lease ∧
  (domain'.resident.entries i).generation = (domain.resident.entries i).generation ∧
  (domain'.resident.entries i).state = (domain.resident.entries i).state ∧
  (domain'.resident.entries i).inflight = false

end Domain

namespace World

variable {layout : Layout} {world world' : World T}

theorem Inv.retiring (h : world.Inv layout) : world.domain.Retiring := by
  have linked : ∀ i, (world.entries i).linked = true ↔ (world.entries i).phase = .pending ∧
        (world.entries i).inflight = false := by
    intro i
    unfold Entry.linked
    simp
  rcases h.good.lines with ⟨line, lines⟩
  refine ⟨⟨line, lines.chain, lines.nodup, lines.apart, fun i => (lines.mem i).trans (linked i)⟩,
    ?_, ?_, h.good.flights, ?_, ?_⟩
  · intro none i pending
    rcases h.toBase.next with ⟨store, run, -, -, empty⟩ | ⟨token, store, run, -⟩
    · have no := (linked i).mpr pending
      rw [empty i] at no
      cases no
    · rw [run] at none
      cases none
  · intro raw found
    rcases h.toBase.next with ⟨store, run, -, -, -⟩ | ⟨token, store, run, next⟩
    · rw [run] at found
      cases found
    · rw [run] at found
      cases found
      rw [(next.words _).1]
      exact ⟨next.pending, next.landed, next.epoch⟩
  · have most : world.domain.resident.flights ≤
        (List.range' 0 world.domain.resident.capacity).length := List.countP_le_length
    rw [List.length_range'] at most
    have bounded := h.good.bounded
    rw [h.good.flights]
    omega
  · intro i flying
    rw [h.good.flights]
    exact Store.flights_pos h.good flying

/-- The echo of an earlier generation finds the slot in use, waiting or at rest. -/
theorem Inv.spared (h : world.Inv layout) {echo : Retirement} {expected : Class}
    (mem : .echo echo expected ∈ world.tokens)
    (stale : (world.entries echo.index).phase ≠ .inFlight) :
    (∃ domain, world.domain.completeEcho echo expected = .ok domain ∧
      world.domain.Spared domain echo.index) ∧
    world.domain.Spared (world.domain.retryEcho echo) echo.index := by
  rcases h.echo_mem mem with ⟨flying, -, -, -, class_eq⟩
  have current := h.toBase.echo_current mem
  have low : echo.index < layout.accept := by
    by_cases low : echo.index < layout.accept
    · exact low
    · exact absurd (h.toBase.flying_state (by omega) flying).1 stale
  rcases h.good.stale flying with ⟨-, -, -, next, entries, ⟨word, shape⟩, -⟩
  have mine : ((world.domain.resident.consume echo).promote echo).entries echo.index = next := by
    rw [entries, Function.update_self]
  have spared : ∀ closed, world.domain.Spared { world.domain with
      resident := (world.domain.resident.consume echo).promote echo, closed } echo.index := by
    intro closed
    unfold Domain.Spared
    dsimp only
    rw [mine, shape]
    exact ⟨rfl, rfl, rfl, rfl, rfl⟩
  have close : expected = .close := class_eq.trans (if_pos low)
  refine ⟨⟨_, ?_, spared (some echo)⟩, ?_⟩
  · rw [close]
    unfold Domain.completeEcho
    dsimp only
    rw [if_pos (by rw [h.accept]; exact low),
      Store.finish_stale (by rw [current]; simpa using stale)]
  · unfold Domain.retryEcho
    rw [Store.retry_stale (by rw [current]; simpa using stale)]
    exact spared world.domain.closed

/-- A newer owner does not wait for the echo of an earlier generation. -/
theorem Inv.newer (h : world.Inv layout) {echo : Retirement} {expected : Class}
    (mem : .echo echo expected ∈ world.tokens) (leased : (world.entries echo.index).lease = true)
    (newer : (world.entries echo.index).generation ≠ echo.generation) :
    (world.entries echo.index).phase ≠ .inFlight := by
  intro waits
  have epoch := ((h.held echo.index).sound.flying waits).2
  rw [Entry.epoch_leased leased, (h.echo_mem mem).2.2.1] at epoch
  exact newer (Option.some.inj epoch)

/-- The queue holds what is to be submitted, an echo is bound and consumed once, and it
leaves a newer owner of its slot alone. -/
theorem reachable_retirement (h : (World.machine T layout).Reachable world) :
    world.domain.Retiring ∧
    (∀ i, world.submits i = world.consumes i + (world.domain.resident.entries i).inflight.toNat) ∧
    (world.tokens.Nodup ∧ ∀ echo expected, .echo echo expected ∈ world.tokens ↔
      (world.domain.resident.entries echo.index).inflight = true ∧
      (world.domain.resident.entries echo.index).bound = true ∧
      (world.domain.resident.entries echo.index).submitted = echo.generation ∧
      (world.domain.resident.entries echo.index).side = echo.side ∧
      expected = world.domain.classOf echo.index) ∧
    (∀ echo store, world.domain.resident.bind echo = some store →
      (world.domain.resident.entries echo.index).inflight = true ∧
      (world.domain.resident.entries echo.index).submitted = echo.generation ∧
      (world.domain.resident.entries echo.index).side = echo.side ∧
      (world.domain.resident.entries echo.index).bound = false ∧
      (store.entries echo.index).bound = true) ∧
    (∀ echo expected, .echo echo expected ∈ world.tokens →
      ((world.domain.resident.entries echo.index).lease = true →
        (world.domain.resident.entries echo.index).generation ≠ echo.generation →
          (world.domain.resident.entries echo.index).phase ≠ .inFlight) ∧
      ((world.domain.resident.entries echo.index).phase ≠ .inFlight →
        (∃ domain, world.domain.completeEcho echo expected = .ok domain ∧
          world.domain.Spared domain echo.index) ∧
        world.domain.Spared (world.domain.retryEcho echo) echo.index)) ∧
    (∀ i generation, ∃ target, world.domain.resident.target i generation = .ok target ∧
      ∀ found, target = some found → (i, generation, found) ∈ world.published) ∧
    ∀ input, world.allowed input → ∃ out world', world.step input = .ok (out, world') := by
  have inv := (machine_invariant T layout).holds h
  refine ⟨inv.retiring, fun i => (inv.held i).counts, ⟨inv.nodup, ?_⟩, ?_, ?_, inv.read, ?_⟩
  · intro echo expected
    refine ⟨?_, ?_⟩
    · intro mem
      rw [inv.toBase.classOf_eq]
      exact inv.echo_mem mem
    · intro facts
      rcases facts with ⟨flying, bound, submitted, side, class_eq⟩
      rw [inv.owned]
      refine .inr ⟨flying, bound, ?_⟩
      rw [class_eq, inv.toBase.classOf_eq]
      dsimp only [Token.slot]
      rw [submitted, side]
  · intro echo store bound
    unfold Store.bind at bound
    split at bound
    · dsimp only at bound
      split at bound
      · next facts =>
          cases bound
          simp only [Bool.and_eq_true, decide_eq_true_eq, Bool.not_eq_true'] at facts
          refine ⟨facts.1.1.1, facts.2, facts.1.1.2, facts.1.2, ?_⟩
          rw [Store.put_entries, Function.update_self]
      · cases bound
    · cases bound
  · exact fun echo expected mem => ⟨inv.newer mem, inv.spared mem⟩
  · intro input ok
    rcases inv.step input ok with ⟨out, world', run, -⟩
    exact ⟨out, world', run⟩

theorem reachable_retirement_example :
    ∃ world : World Nat, (World.machine Nat ⟨1, 1, 3, by decide, by decide⟩).Reachable world ∧
      world.tokens = [.accepted 0 1] ∧ (world.domain.resident.entries 0).phase = .ready ∧
      world.consumes 0 = 1 ∧ world.domain.Retiring := by
  have start : (World.machine Nat ⟨1, 1, 3, by decide, by decide⟩).Reachable
      ⟨.tryNew 1 1 3, [], fun _ => ⟨false, false, false, false⟩, [], fun _ => 0, fun _ => 0⟩ :=
    .start rfl
  have run := start.call (.arrive 0) ⟨by decide, rfl⟩ rfl
  have run := run.call (.accepted 0) rfl rfl
  have run := run.call (.retireAccepted 0 0) (.head _) rfl
  have run := run.call .submit trivial rfl
  have run := run.call (.execute 0) rfl rfl
  have run := run.call (.arrive 0) ⟨by decide, rfl⟩ rfl
  have run := run.call (.accepted 0) rfl rfl
  have run := run.call (.bind (pack ⟨0, 0, .zero⟩ .close)) (fun _ => rfl) rfl
  have run := run.call (.complete ⟨0, 0, .zero⟩ .close) (.head _) rfl
  refine ⟨_, run, ?_, ?_, ?_, (reachable_retirement run).1⟩
  · decide +kernel
  · decide +kernel
  · decide +kernel

end World

end Dope.Core.Fd
