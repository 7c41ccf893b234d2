import Dope.Manifold.Side.Steps

/-! # Runs of the side request registry

What holds in every reachable state, whatever order the requesting task, the
transport and the cancellation sweep take.
-/

namespace Dope.Manifold.Side

open Run Tally Function

variable {I P W C : Type} {n : Nat}

/-! ## One step -/

variable {cancel : Key}

namespace World

variable {world : World I P W C n}

theorem endCancel_taken (world : World I P W C n) (cancel : Key) :
    (world.endCancel cancel).taken = world.taken := by
  unfold World.endCancel
  cases world.entry cancel with
  | none => rfl
  | some entry =>
    rcases entry with ⟨p, state⟩
    cases state <;> rfl

theorem endCancel_registry (world : World I P W C n) (cancel : Key) :
    (world.endCancel cancel).registry = (world.registry.endCancel cancel none).2 := rfl

theorem complete_registry (world : World I P W C n) (request : Request (P × Nat))
    (result : Except (Error C) Unit) :
    (world.complete request result).2.registry =
      (world.registry.complete request.ticket result).2 := rfl

/-- The end of a cancellation on the records is the one of the registry. -/
theorem finish_registry (world : World I P W C n) (cancel : Key)
    (request : Option (Request (P × Nat))) :
    (world.finish cancel request).2.registry =
      (world.registry.endCancel cancel (request.map (·.ticket))).2 := by
  cases request with
  | none => rfl
  | some request =>
    unfold World.finish
    by_cases own : request.ticket = cancel
    · simp only [own, if_true]
      simp [World.drops, World.give, endCancel_registry, Registry.endCancel, Option.filter, own]
    · simp only [own, if_false]
      rw [complete_registry, endCancel_registry]
      simp [Registry.endCancel, Option.filter, own]

theorem Inv.finish {request : Option (Request (P × Nat))} (inv : world.Inv)
    (holds : ∀ held, request = some held → held ∈ world.taken) :
    (world.finish cancel request).2.Inv := by
  have ended : (world.endCancel cancel).Inv := inv.endCancel
  cases request with
  | none => exact ended
  | some request =>
    have mem : request ∈ (world.endCancel cancel).taken := by
      rw [endCancel_taken]
      exact holds request rfl
    unfold World.finish
    by_cases own : request.ticket = cancel
    · simp only [own, if_true]
      exact ended.drops mem
    · simp only [own, if_false]
      exact ended.complete mem

theorem Inv.opens (inv : world.Inv) (ready : Option Nat) :
    World.Inv { world with registry := { world.registry with ready := ready } } := by
  refine inv.congr rfl rfl (fun _ => rfl) rfl rfl ?_ ?_
  · exact ⟨inv.ledger.nodup, inv.ledger.yielded, inv.ledger.bound, inv.ledger.lost⟩
  · intro q other held
    have good := inv.good q other held
    exact ⟨good.located, good.waiter, good.settled, good.unsettled, good.abandoned, good.cancels⟩

end World

theorem new_inv (I P W C : Type) (n : Nat) : (World.new I P W C n).Inv where
  filed := Lanes.filed_empty
  good p cell held := by cases held
  values s := by
    simp [World.outside, World.issued, World.new]
    exact tally_empty
  entries s := by
    simp [World.gone, World.issued, World.new]
    exact tally_empty
  ledger := ⟨List.nodup_nil, nofun, nofun, nofun⟩

theorem machine_invariant (W C : Type) (intents : Intent I P) (n : Nat) :
    (machine W C intents n).Invariant World.Inv where
  start world first := by
    rw [first]
    exact new_inv I P W C n
  step world input inv allowed := by
    cases input with
    | start target => exact ⟨_, _, rfl, inv.opens _⟩
    | reserve intent waiter => exact ⟨_, _, rfl, inv.reserve allowed⟩
    | poll target waiter => exact ⟨_, _, rfl, inv.poll⟩
    | abandon target => exact ⟨_, _, rfl, inv.abandon⟩
    | retry => exact ⟨_, _, rfl, inv.retry⟩
    | takeRequest => exact ⟨_, _, rfl, inv.takeRequest⟩
    | defer request => exact ⟨_, _, rfl, inv.defer allowed⟩
    | complete request result => exact ⟨_, _, rfl, inv.complete allowed⟩
    | takeCancel => exact ⟨_, _, rfl, inv.takeCancel⟩
    | endCancel cancel request => exact ⟨_, _, rfl, inv.finish allowed.2⟩
    | failCancel cancel cause => exact ⟨_, _, rfl, inv.failCancel allowed⟩
    | closeIntake => exact ⟨_, _, rfl, inv.opens _⟩
    | reject => exact ⟨_, _, rfl, inv.reject⟩

/-! ## The cancellation sweep -/

namespace World

variable {world : World I P W C n}

/-- The rounds of `Turn::cancel`, with what the transport answers to each. -/
def sweep (world : World I P W C n) : List (Except C (Option (Request (P × Nat)))) →
    World I P W C n
  | [] => world
  | answer :: rest =>
      match world.takeCancel with
      | (none, _) => world
      | (some stop, taken) =>
          match answer with
          | .error cause => (taken.failCancel stop cause).sweep rest
          | .ok request => (taken.finish stop request).2.sweep rest

/-- The transport gives up the requests it holds at that time. -/
def Gives (world : World I P W C n) : List (Except C (Option (Request (P × Nat)))) → Prop
  | [] => True
  | answer :: rest =>
      match world.takeCancel with
      | (none, _) => True
      | (some stop, taken) =>
          match answer with
          | .error cause => (taken.failCancel stop cause).Gives rest
          | .ok request =>
              (∀ held, request = some held → held ∈ taken.taken) ∧
                (taken.finish stop request).2.Gives rest

/-- The ticket of what the transport gives up. -/
def ticket : Except C (Option (Request (P × Nat))) → Except C (Option Key)
  | .error cause => .error cause
  | .ok request => .ok (request.map (·.ticket))

theorem takeCancel_some {stop : Key} {taken : World I P W C n}
    (run : world.takeCancel = (some stop, taken)) :
    world.registry.takeCancel = some (stop, taken.registry) ∧
      taken.cancels = stop :: world.cancels := by
  unfold World.takeCancel at run
  cases took : world.registry.takeCancel with
  | none => simp [took] at run
  | some result =>
    rcases result with ⟨key, registry⟩
    cases front : world.store.front ABANDONED with
    | none => simp [took, front] at run
    | some entry =>
      rcases entry with ⟨p, slot⟩
      simp only [took, front, Prod.mk.injEq, Option.some.injEq] at run
      rcases run with ⟨rfl, rfl⟩
      exact ⟨rfl, rfl⟩

theorem takeCancel_none {after : World I P W C n}
    (run : world.takeCancel = (none, after)) : world.registry.takeCancel = none := by
  unfold World.takeCancel at run
  unfold Registry.takeCancel Store.takeCancel at run ⊢
  cases front : world.store.front ABANDONED with
  | none => rfl
  | some entry => simp [front] at run

theorem finish_cancels (world : World I P W C n) (cancel : Key)
    (request : Option (Request (P × Nat))) :
    (world.finish cancel request).2.cancels = world.cancels.filter (· ≠ cancel) := by
  have ended : (world.endCancel cancel).cancels = world.cancels.filter (· ≠ cancel) := rfl
  cases request with
  | none => exact ended
  | some request =>
    unfold World.finish
    by_cases own : request.ticket = cancel
    · simp only [own, if_true]
      exact ended
    · simp only [own, if_false]
      unfold World.complete
      cases (world.endCancel cancel).entry request.ticket with
      | none => exact ended
      | some entry =>
        rcases entry with ⟨p, state⟩
        cases state <;> exact ended

/-- The sweep is a run, and leaves no cancellation out: no target is reserved while
its cancellation waits for its end. -/
theorem sweep_reachable {intents : Intent I P}
    {answers : List (Except C (Option (Request (P × Nat))))}
    (reached : (machine W C intents n).Reachable world) (idle : world.cancels = [])
    (gives : world.Gives answers) :
    (machine W C intents n).Reachable (world.sweep answers) ∧
      (world.sweep answers).cancels = [] ∧
      (world.sweep answers).registry = Turn.cancel world.registry (answers.map ticket) := by
  induction answers generalizing world with
  | nil => exact ⟨reached, idle, rfl⟩
  | cons answer rest ih =>
    have inv := (machine_invariant W C intents n).holds reached
    rw [World.sweep, List.map_cons, Turn.cancel]
    rw [World.Gives] at gives
    rcases run : world.takeCancel with ⟨stop, taken⟩
    rw [run] at gives
    cases stop with
    | none =>
      rw [takeCancel_none run]
      exact ⟨reached, idle, rfl⟩
    | some stop =>
      rcases takeCancel_some run with ⟨took, out⟩
      rw [idle] at out
      have next : (machine W C intents n).Reachable taken := by
        refine reached.call .takeCancel trivial (o := .cancel (some stop)) ?_
        show Except.ok (Output.cancel world.takeCancel.1, world.takeCancel.2) = _
        rw [run]
      have mem : stop ∈ taken.cancels := by simp [out]
      have ended : taken.cancels.filter (· ≠ stop) = [] := by simp [out]
      rw [took]
      cases answer with
      | error cause =>
        exact ih (next.call (.failCancel stop cause) mem rfl) ended gives
      | ok request =>
        have done : (machine W C intents n).Reachable (taken.finish stop request).2 :=
          next.call (.endCancel stop request) ⟨mem, gives.1⟩ rfl
        have clear : (taken.finish stop request).2.cancels = [] := by
          rw [finish_cancels, ended]
        rcases ih done clear gives.2 with ⟨last, out, same⟩
        rw [finish_registry] at same
        exact ⟨last, out, same⟩

/-- One request is taken and abandoned, and a sweep ends its cancellation. -/
theorem sweep_reachable_example :
    ∃ world : World Unit Unit Unit Unit 1, world.registry.slots.lanes ABANDONED = [0] ∧
      (machine Unit Unit ⟨fun _ => ⟨0, 7⟩, id⟩ 1).Reachable (world.sweep [.ok none]) ∧
      (world.sweep [.ok none]).registry.slots.lanes ABANDONED = [] := by
  have started : (machine Unit Unit (I := Unit) (P := Unit) ⟨fun _ => ⟨0, 7⟩, id⟩ 1).Reachable
      (World.new Unit Unit Unit Unit 1) := .start rfl
  have opened := started.call (.start 0) trivial rfl
  have reserved := opened.call (.reserve () ()) (List.not_mem_nil) rfl
  have taken := reserved.call .takeRequest trivial rfl
  have abandoned := taken.call (.abandon ⟨0, 7⟩) trivial rfl
  have swept := @sweep_reachable _ _ _ _ _ _ _ [.ok none] abandoned rfl (by
    refine ⟨?_, trivial⟩
    rintro held ⟨⟩)
  exact ⟨_, rfl, swept.1, rfl⟩

end World

/-! ## Abandoned entries -/

/-- What an input leaves of an abandoned entry of `key`: nothing when it brings back
its ticket or ends its cancellation, and a result when the cancellation fails. -/
def Input.fate (key : Key) : Input I P W C → Option (State (I × Nat) (P × Nat) W C)
  | .defer request | .complete request _ =>
      if request.ticket = key then none else some .abandoned
  | .endCancel cancel request =>
      if cancel = key ∨ request.map (·.ticket) = some key then none else some .abandoned
  | .failCancel cancel cause =>
      if cancel = key then some (.settled (.error (.route cause))) else some .abandoned
  | .start _ | .reserve .. | .poll .. | .abandon _ | .retry | .takeRequest | .takeCancel
  | .closeIntake | .reject => some .abandoned

variable {intents : Intent I P} {result : Except (Error C) Unit} {request : Request (P × Nat)}
  {waiter : W} {q : Fin n}

namespace World

variable {world : World I P W C n} {p : Fin n} {key target : Key}

/-- The slot of an abandoned entry. -/
def Rests (world : World I P W C n) (p : Fin n) (key : Key) : Prop :=
  world.registry.slots.slots p = some (key, .abandoned)

/-- An operation finds the abandoned entry itself, or another one. -/
theorem Inv.rests_entry (inv : world.Inv) (rests : world.Rests p key) (target : Key) :
    (target = key ∧ world.entry target = some (p, .abandoned)) ∨
      (target ≠ key ∧ ∀ q state, world.entry target = some (q, state) → q ≠ p) := by
  have found : Table.locate n key = some p := (inv.good p _ (cell_of_slot rests)).located
  by_cases same : target = key
  · subst same
    refine .inl ⟨rfl, ?_⟩
    have slot : world.store.slots p = some (target, .abandoned) := rests
    simp [World.entry, Table.entry, found, slot]
  · refine .inr ⟨same, ?_⟩
    rintro q state held rfl
    have slot := (entry_some held).2
    rw [World.Rests] at rests
    rw [rests] at slot
    exact same (congrArg Prod.fst (Option.some.inj slot)).symm

theorem Rests.set {other : Key} {state : State (I × Nat) (P × Nat) W C} (rests : world.Rests p key)
    (ne : q ≠ p) : (world.store.set q other state).slots p = some (key, .abandoned) :=
  (update_of_ne ne.symm ..).trans rests

theorem Rests.remove (rests : world.Rests p key) (ne : q ≠ p) :
    (world.store.remove q).slots p = some (key, .abandoned) :=
  (update_of_ne ne.symm ..).trans rests

section

variable (inv : world.Inv) (rests : world.Rests p key)

include inv rests

theorem Inv.rests_poll :
    (world.poll target waiter).2.Rests p key ∧
      (target = key → (world.poll target waiter).1 = .ready (.error .stale)) := by
  unfold World.poll Registry.poll Store.poll World.Rests World.entry
  rcases inv.rests_entry rests target with ⟨same, held⟩ | ⟨apart, others⟩
  · have found : world.store.entry target = some (p, .abandoned) := held
    simp only [found]
    exact ⟨rests, fun _ => trivial⟩
  · refine ⟨?_, fun same => absurd same apart⟩
    cases held : world.store.entry target with
    | none => exact rests
    | some entry =>
      rcases entry with ⟨q, state⟩
      have ne := others q state held
      cases state with
      | queued | inFlight | deferred => exact rests.set ne
      | settled result => exact rests.remove ne
      | abandoned => exact rests

theorem Inv.rests_abandon : (world.abandon target).Rests p key := by
  unfold World.abandon Registry.abandon Store.abandon World.Rests
  rcases inv.rests_entry rests target with ⟨same, held⟩ | ⟨apart, others⟩
  · have found : world.store.entry target = some (p, .abandoned) := held
    simp only [found]
    exact rests
  · cases held : world.entry target with
    | none =>
      have found : world.store.entry target = none := held
      simp only [found]
      exact rests
    | some entry =>
      rcases entry with ⟨q, state⟩
      have found : world.store.entry target = some (q, state) := held
      have ne := others q state held
      simp only [found]
      cases state with
      | queued | deferred | settled => exact rests.remove ne
      | inFlight old => exact rests.set ne
      | abandoned => exact rests

/-- The first ticket that comes back removes the entry, whatever it brings. -/
theorem Inv.rests_returns (result : Except (Error C) Unit) :
    (world.complete request result).2.registry.slots.slots p =
      (if request.ticket = key then none else some (key, .abandoned)) ∧
    (world.defer request).registry.slots.slots p =
      (if request.ticket = key then none else some (key, .abandoned)) := by
  unfold World.complete Registry.complete Store.complete World.defer Registry.defer Store.defer
    World.entry
  rcases inv.rests_entry rests request.ticket with ⟨same, held⟩ | ⟨apart, others⟩
  · have found : world.store.entry request.ticket = some (p, .abandoned) := held
    simp only [found, if_pos same]
    exact ⟨update_self .., update_self ..⟩
  · rw [if_neg apart]
    cases held : world.store.entry request.ticket with
    | none => exact ⟨rests, rests⟩
    | some entry =>
      rcases entry with ⟨q, state⟩
      have ne := others q state held
      cases state with
      | queued | deferred | settled => exact ⟨rests, rests⟩
      | inFlight old => exact ⟨rests.set ne, rests.set ne⟩
      | abandoned => exact ⟨rests.remove ne, rests.remove ne⟩

/-- What an ended cancellation leaves of the entry, by its result. -/
theorem Inv.rests_ends (result : Except (Error C) Unit) :
    (world.store.endCancel cancel result).slots p =
      if cancel = key then
        match result with
        | .ok () => none
        | .error error => some (key, .settled (.error error))
      else some (key, .abandoned) := by
  unfold Store.endCancel
  rcases inv.rests_entry rests cancel with ⟨same, held⟩ | ⟨apart, others⟩
  · have found : world.store.entry cancel = some (p, .abandoned) := held
    simp only [found, if_pos same]
    cases result with
    | ok done => exact update_self ..
    | error error =>
      rw [← same]
      exact update_self ..
  · rw [if_neg apart]
    cases held : world.store.entry cancel with
    | none => exact rests
    | some entry =>
      rcases entry with ⟨q, state⟩
      have ne := others q state held
      cases state with
      | queued | inFlight | deferred | settled => exact rests
      | abandoned =>
        cases result with
        | ok done => exact rests.remove ne
        | error error => exact rests.set ne

end

theorem complete_vacant (vacant : world.store.slots p = none) :
    (world.complete request result).2.registry.slots.slots p = none := by
  unfold World.complete Registry.complete Store.complete World.entry
  cases held : world.store.entry request.ticket with
  | none => exact vacant
  | some entry =>
    rcases entry with ⟨q, state⟩
    have ne : p ≠ q := by
      rintro rfl
      rw [(entry_some held).2] at vacant
      cases vacant
    cases state with
    | queued | deferred | settled => exact vacant
    | inFlight | abandoned => exact (update_of_ne ne ..).trans vacant

theorem Inv.rests_finish {request : Option (Request (P × Nat))} (inv : world.Inv)
    (rests : world.Rests p key) :
    (world.finish cancel request).2.registry.slots.slots p =
      if cancel = key ∨ request.map (·.ticket) = some key then none
      else some (key, .abandoned) := by
  have ended : (world.endCancel cancel).Inv := inv.endCancel
  have slot : (world.endCancel cancel).registry.slots.slots p =
      if cancel = key then none else some (key, .abandoned) := inv.rests_ends rests (.ok ())
  cases request with
  | none =>
    refine slot.trans ?_
    simp
  | some request =>
    unfold World.finish
    by_cases own : request.ticket = cancel
    · simp only [own, if_true]
      refine slot.trans ?_
      simp [own]
    · simp only [own, if_false]
      by_cases here : cancel = key
      · subst here
        rw [if_pos rfl] at slot
        rw [if_pos (.inl rfl)]
        exact complete_vacant slot
      · rw [if_neg here] at slot
        rw [(ended.rests_returns slot _).1]
        simp [here]

theorem rests_reserve {intent : I} (rests : world.Rests p key) :
    (world.reserve intents intent waiter).2.Rests p key := by
  unfold World.reserve
  cases run : world.registry.tryReserve intents.numbered (intent, world.accepted) waiter with
  | error rejected => exact rests
  | ok registry =>
    rcases tryReserve_ok run with ⟨q, found, vacant, rfl⟩
    have ne : q ≠ p := by
      rintro rfl
      rw [World.Rests, vacant] at rests
      cases rests
    exact rests.set ne

/-- The front of a lane that is no abandoned one is another entry. -/
theorem Inv.rests_front {K : Fin 3} {other : Key} {state : State (I × Nat) (P × Nat) W C}
    (inv : world.Inv) (rests : world.Rests p key)
    (front : world.store.front K = some (q, other, state)) (lane : K ≠ ABANDONED) : q ≠ p := by
  rintro rfl
  rcases inv.front front with ⟨held, here⟩
  have slot := (entry_some held).2
  rw [World.Rests] at rests
  rw [rests] at slot
  cases slot
  simp only [Cell.lane] at here
  split at here
  · cases here
  · exact lane (Option.some.inj here).symm

theorem rests_retry (rests : world.Rests p key) : world.retry.2.Rests p key := by
  unfold World.retry Registry.retry Store.retry
  cases world.store.front DEFERRED with
  | none | some => exact rests

theorem rests_takeCancel (rests : world.Rests p key) : world.takeCancel.2.Rests p key := by
  unfold World.takeCancel Registry.takeCancel Store.takeCancel
  cases world.store.front ABANDONED with
  | none | some => exact rests

theorem Inv.rests_takeRequest (inv : world.Inv) (rests : world.Rests p key) :
    (world.takeRequest intents).2.Rests p key := by
  unfold World.takeRequest
  cases run : world.registry.takeRequest intents.numbered with
  | none => exact rests
  | some result =>
    rcases result with ⟨request, registry⟩
    rcases takeRequest_some run with ⟨q, other, state, source, taken, front, -, -, -, rfl⟩
    exact rests.set (inv.rests_front rests front (by decide))

theorem Inv.rests_reject (inv : world.Inv) (rests : world.Rests p key) :
    world.reject.2.2.Rests p key := by
  unfold World.reject Registry.reject Store.reject
  have lane : world.intake = if world.store.isVacant QUEUED then DEFERRED else QUEUED :=
    rfl
  simp only [← lane]
  cases front : world.store.front world.intake with
  | none => exact rests
  | some entry =>
    rcases entry with ⟨q, other, state⟩
    have apart : world.intake ≠ ABANDONED := by
      rw [lane]
      split <;> decide
    have ne := inv.rests_front rests front apart
    cases state with
    | queued | deferred => exact rests.set ne
    | inFlight | settled | abandoned => exact rests

/-- Every input leaves of an abandoned entry what its fate is. -/
theorem Inv.rests_step {input : Input I P W C} {output : Output I P W C} {after : World I P W C n}
    (inv : world.Inv) (rests : world.Rests p key)
    (run : world.step intents input = .ok (output, after)) :
    after.store.slots p = (input.fate key).map fun state => (key, state) := by
  cases input with
  | start target => cases run; exact rests
  | reserve intent waiter => cases run; exact rests_reserve rests
  | poll target waiter => cases run; exact (inv.rests_poll rests).1
  | abandon target => cases run; exact inv.rests_abandon rests
  | retry => cases run; exact rests_retry rests
  | takeRequest => cases run; exact inv.rests_takeRequest rests
  | takeCancel => cases run; exact rests_takeCancel rests
  | closeIntake => cases run; exact rests
  | reject => cases run; exact inv.rests_reject rests
  | defer request =>
    cases run
    refine (inv.rests_returns rests (.ok ())).2.trans ?_
    rw [Input.fate]
    split <;> rfl
  | complete request result =>
    cases run
    refine (inv.rests_returns rests _).1.trans ?_
    rw [Input.fate]
    split <;> rfl
  | endCancel cancel request =>
    cases run
    refine (inv.rests_finish rests).trans ?_
    rw [Input.fate]
    split <;> rfl
  | failCancel cancel cause =>
    cases run
    refine (inv.rests_ends rests (.error (.route cause))).trans ?_
    rw [Input.fate]
    split <;> rfl

end World

/-! ## Reachable states -/

namespace World

variable {world : World I P W C n} {p : Fin n} {key : Key}

def Queued (world : World I P W C n) (p : Fin n) : Prop :=
  ∃ key pending, world.registry.slots.slots p = some (key, .queued pending)

def Deferred (world : World I P W C n) (p : Fin n) : Prop :=
  ∃ key pending, world.registry.slots.slots p = some (key, .deferred pending)

def Abandoned (world : World I P W C n) (p : Fin n) : Prop := ∃ key, world.Rests p key

/-- How many entries hold the value `s`. -/
def within (world : World I P W C n) (s : Nat) : Nat := tally (Holds s) world.cell

/-- How many entries belong to request `s`. -/
def present (world : World I P W C n) (s : Nat) : Nat := tally (Numbered s) world.cell

theorem lane_iff (world : World I P W C n) (p : Fin n) :
    (laneOf (world.cell p) = some QUEUED ↔
      world.Queued p ∨ world.Deferred p ∧ (world.marks p).retried = true) ∧
    (laneOf (world.cell p) = some DEFERRED ↔
      world.Deferred p ∧ (world.marks p).retried = false) ∧
    (laneOf (world.cell p) = some ABANDONED ↔
      world.Abandoned p ∧ (world.marks p).swept = false) := by
  unfold World.Queued World.Deferred World.Abandoned World.Rests
  cases slot : world.store.slots p with
  | none => simp [World.cell, slot, laneOf]
  | some stored =>
    rcases stored with ⟨key, state⟩
    rw [cell_of_slot slot]
    cases state with
    | queued pending => simp [laneOf, Cell.lane, QUEUED, DEFERRED, ABANDONED]
    | inFlight | settled => simp [laneOf, Cell.lane]
    | deferred pending =>
      cases retried : (world.marks p).retried <;>
        simp [laneOf, Cell.lane, retried, QUEUED, DEFERRED, ABANDONED]
    | abandoned =>
      cases swept : (world.marks p).swept <;>
        simp [laneOf, Cell.lane, swept, QUEUED, DEFERRED, ABANDONED]

theorem Inv.takes_front (inv : world.Inv) (opened : world.registry.ready.isSome = true)
    (occupied : world.store.isVacant QUEUED = false) :
    ∃ request registry, world.registry.takeRequest intents.numbered =
      some (request, registry) := by
  have closed : world.registry.ready.isNone = false := by
    cases ready : world.registry.ready with
    | none => simp [ready] at opened
    | some target => rfl
  rcases inv.front_of_mem occupied with ⟨p, key, state, front⟩
  unfold Registry.takeRequest Store.takeRequest
  rcases lane_queued (inv.front front).2 with ⟨pending, rfl⟩ | ⟨pending, rfl⟩
  · simp only [closed, front]
    exact ⟨_, _, rfl⟩
  · simp only [closed, front]
    exact ⟨_, _, rfl⟩

theorem Inv.rejects_front (inv : world.Inv)
    (occupied : world.store.isVacant QUEUED = false ∨ world.store.isVacant DEFERRED = false) :
    ∃ waiter registry, world.registry.reject = (.settled, waiter, registry) := by
  have lane : world.intake = if world.store.isVacant QUEUED then DEFERRED else QUEUED :=
    rfl
  have some : world.store.isVacant world.intake = false := by
    rw [lane]
    split
    · rename_i vacant
      rcases occupied with queued | deferred
      · rw [queued] at vacant
        cases vacant
      · exact deferred
    · rename_i queued
      simpa using queued
  rcases inv.front_of_mem some with ⟨p, key, state, front⟩
  have waits : (∃ pending, state = .queued pending) ∨ ∃ pending, state = .deferred pending := by
    have here := (inv.front front).2
    rw [lane] at here
    split at here
    · exact .inr (lane_deferred here)
    · exact lane_queued here
  unfold Registry.reject Store.reject
  simp only [← lane]
  rcases waits with ⟨pending, rfl⟩ | ⟨pending, rfl⟩
  · simp only [front]
    exact ⟨_, _, rfl⟩
  · simp only [front]
    exact ⟨_, _, rfl⟩

theorem Inv.retries_front (inv : world.Inv) (occupied : world.store.isVacant DEFERRED = false) :
    ∃ registry, world.registry.retry = some registry := by
  rcases inv.front_of_mem occupied with ⟨p, key, state, front⟩
  simp only [Registry.retry, Store.retry, front]
  exact ⟨_, rfl⟩

theorem Inv.cancels_front (inv : world.Inv) (occupied : world.store.isVacant ABANDONED = false) :
    ∃ cancel registry, world.registry.takeCancel = some (cancel, registry) := by
  rcases inv.front_of_mem occupied with ⟨p, key, state, front⟩
  simp only [Registry.takeCancel, Store.takeCancel, front]
  exact ⟨_, _, rfl⟩

/-- A settled entry gives its result to the next poll, and is gone. -/
theorem Inv.polls_settled (inv : world.Inv)
    (slot : world.store.slots p = some (key, .settled result)) :
    (world.registry.poll key waiter).1 = .ready result ∧
      (world.registry.poll key waiter).2.slots.slots p = none := by
  have located : Table.locate n key = some p := (inv.good p _ (cell_of_slot slot)).located
  have found : world.store.entry key = some (p, .settled result) := by
    simp [Table.entry, located, slot]
  simp only [Registry.poll, Store.poll, found]
  exact ⟨trivial, update_self ..⟩

end World

/-- In every reachable state the lanes are those of the states, so that no lane
stalls; a value is in one place; a request that was not abandoned yields its result
to one poll, and waits with its latest waiter; and an abandoned one rests until its
ticket comes back or its cancellation ends. -/
theorem reachable_yields (W C : Type) (intents : Intent I P) (n : Nat) {world : World I P W C n}
    (reached : (machine W C intents n).Reachable world) :
    ((∀ p, p ∈ world.registry.slots.lanes QUEUED ↔
        world.Queued p ∨ world.Deferred p ∧ (world.marks p).retried = true) ∧
      (∀ p, p ∈ world.registry.slots.lanes DEFERRED ↔
        world.Deferred p ∧ (world.marks p).retried = false) ∧
      (∀ p, p ∈ world.registry.slots.lanes ABANDONED ↔
        world.Abandoned p ∧ (world.marks p).swept = false) ∧
      ∀ K, (world.registry.slots.lanes K).Nodup) ∧
    -- No lane stalls.
    ((world.registry.ready.isSome = true → world.registry.slots.isVacant QUEUED = false →
        ∃ request registry, world.registry.takeRequest intents.numbered =
          some (request, registry)) ∧
      (world.registry.slots.isVacant QUEUED = false ∨
          world.registry.slots.isVacant DEFERRED = false →
        ∃ waiter registry, world.registry.reject = (.settled, waiter, registry)) ∧
      (world.registry.slots.isVacant DEFERRED = false →
        ∃ registry, world.registry.retry = some registry) ∧
      (world.registry.slots.isVacant ABANDONED = false →
        ∃ cancel registry, world.registry.takeCancel = some (cancel, registry))) ∧
    -- An accepted value is in one place.
    (∀ s < world.accepted, world.within s +
      world.taken.countP (fun request => request.payload.2 = s) + world.dropped.count s = 1) ∧
    -- Results are polled once.
    ((∀ s < world.accepted, s ∉ world.abandoned →
        world.present s + (world.yielded.map Prod.fst).count s = 1) ∧
      (∀ entry ∈ world.yielded, entry ∈ world.settled) ∧ (world.settled.map Prod.fst).Nodup ∧
      ∀ p key result waiter,
        world.registry.slots.slots p = some (key, .settled result) →
        ((world.marks p).serial, result) ∈ world.settled ∧
          (world.registry.poll key waiter).1 = .ready result ∧
          (world.registry.poll key waiter).2.slots.slots p = none) ∧
    (∀ p key state waiter, world.registry.slots.slots p = some (key, state) →
      state.waiter = some waiter → waiter = (world.marks p).latest) ∧
    -- An abandoned entry answers no poll, and leaves as its fate says.
    ∀ p key, world.registry.slots.slots p = some (key, .abandoned) →
      (∀ waiter, (world.registry.poll key waiter).1 = .ready (.error .stale)) ∧
      ∀ input output after, world.step intents input = .ok (output, after) →
        after.registry.slots.slots p = (input.fate key).map fun state => (key, state) := by
  have inv := (machine_invariant W C intents n).holds reached
  refine ⟨⟨?_, ?_, ?_, inv.filed.nodup⟩, ⟨inv.takes_front, inv.rejects_front, inv.retries_front,
    inv.cancels_front⟩, ?_, ⟨?_, inv.ledger.yielded, inv.ledger.nodup, ?_⟩, ?_, ?_⟩
  · intro p
    rw [inv.filed.mem, (World.lane_iff world p).1]
  · intro p
    rw [inv.filed.mem, (World.lane_iff world p).2.1]
  · intro p
    rw [inv.filed.mem, (World.lane_iff world p).2.2]
  · intro s accepted
    have count := inv.values s
    rw [World.issued, if_pos accepted, World.outside] at count
    rw [World.within]
    omega
  · intro s accepted kept
    have count := inv.entries s
    have lost : world.lost.count s = 0 :=
      List.count_eq_zero.mpr fun mem => kept (inv.ledger.lost s mem)
    rw [World.issued, if_pos accepted, World.gone, lost] at count
    rw [World.present]
    omega
  · intro p key result waiter slot
    have good := inv.good p _ (World.cell_of_slot slot)
    exact ⟨good.settled result rfl, inv.polls_settled slot⟩
  · intro p key state waiter slot waits
    exact (inv.good p _ (World.cell_of_slot slot)).waiter waiter waits
  · intro p key rests
    exact ⟨fun waiter => (inv.rests_poll rests).2 rfl,
      fun input output after run => inv.rests_step rests run⟩

/-- A request that is taken and abandoned rests, and the end of its cancellation
removes it. -/
theorem reachable_yields_example :
    ∃ world : World Unit Unit Unit Unit 1,
      (machine Unit Unit ⟨fun _ => ⟨0, 7⟩, id⟩ 1).Reachable world ∧
      world.registry.slots.lanes ABANDONED = [0] ∧
      ∀ output after, world.step ⟨fun _ => ⟨0, 7⟩, id⟩ (.endCancel ⟨0, 7⟩ none) =
          .ok (output, after) →
        after.registry.slots.slots 0 = none := by
  have started : (machine Unit Unit (I := Unit) (P := Unit) ⟨fun _ => ⟨0, 7⟩, id⟩ 1).Reachable
      (World.new Unit Unit Unit Unit 1) := .start rfl
  have opened := started.call (.start 0) trivial rfl
  have reserved := opened.call (.reserve () ()) (List.not_mem_nil) rfl
  have taken := reserved.call .takeRequest trivial rfl
  have abandoned := taken.call (.abandon ⟨0, 7⟩) trivial rfl
  have rests := (reachable_yields Unit Unit _ 1 abandoned).2.2.2.2.2 0 ⟨0, 7⟩ rfl
  exact ⟨_, abandoned, rfl, fun output after run => rests.2 _ output after run⟩

end Dope.Manifold.Side
