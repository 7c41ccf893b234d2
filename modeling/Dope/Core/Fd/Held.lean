import Dope.Core.Fd.Domain
import Dope.Core.Fd.Lines
import Dope.Core.Fd.Reclaim

/-! # What is held of a slot

The state of a slot says who owns what of it, and its phase where its last
retirement is. Both follow from what was done to the slot alone.
-/

namespace Dope.Core.Fd

variable {T : Type}

/-! ## Slots -/

namespace Entry

variable (entry : Entry T)

/-- A retirement is queued or in flight. -/
def Closing : Prop :=
  entry.phase = .pending ∧ entry.inflight = false ∨ entry.phase = .inFlight

/-- What every slot keeps to. -/
structure Sound (last : Nat) : Prop where
  bound : entry.generation ≤ last
  leased : entry.lease = true → entry.exhausted = false
  spent : entry.exhausted = true → entry.generation = last
  flying : entry.phase = .inFlight → entry.inflight = true ∧ entry.epoch = some entry.submitted
  queued : entry.phase = .pending → entry.epoch ≠ none

/-- A slot into which the kernel accepts. -/
structure Accepting (native : Native) : Prop where
  state : entry.state = .free
  leased : entry.lease = true → entry.phase = .ready
  done : entry.inflight = true → entry.phase ≠ .inFlight →
    native.executed = true ∧ native.running = false
  running : native.running = true → entry.phase = .inFlight ∧ native.executed = false ∧
    native.occupied = true ∧ native.arrived = false
  echoed : entry.inflight = true → entry.bound = true → native.running = false
  vacant : native.occupied = false ∨ native.arrived = true →
    entry.lease = false ∧
      (entry.phase = .ready ∨ entry.phase = .inFlight ∧ native.executed = true)
  arrived : native.arrived = true → native.occupied = true
  executed : native.executed = true → entry.phase = .inFlight →
    native.occupied = false ∨ native.arrived = true

def Idle : Prop := entry.phase = .ready ∧ entry.lease = false ∧ entry.inflight = false

def InUse : Prop := entry.phase = .ready ∧ entry.lease = true ∧ entry.inflight = false

/-- The word holds no link, and no target but a published one. -/
def Backed (i : Nat) (published : List (Nat × Nat × T)) : Prop :=
  match entry.word with
  | .clear => True
  | .target target => (i, entry.generation, target) ∈ published
  | .link _ => False

section
variable {entry} {i : Nat} {published published' : List (Nat × Nat × T)}

theorem backed_clear (clear : entry.word = .clear) : entry.Backed i published := by
  unfold Backed
  rw [clear]
  trivial

theorem Backed.congr {next : Entry T} (h : entry.Backed i published)
    (word : next.word = entry.word) (generation : next.generation = entry.generation)
    (more : ∀ told, told ∈ published → told ∈ published') : next.Backed i published' := by
  unfold Backed at h ⊢
  rw [word, generation]
  split at h
  · trivial
  · exact more _ h
  · exact h

/-- A target that is read was published. -/
theorem Backed.dispatch (h : entry.phase = .ready → entry.lease = true → entry.Backed i published) :
    ∃ target, entry.dispatch = .ok target ∧
      ∀ found, target = some found → (i, entry.generation, found) ∈ published := by
  unfold Entry.dispatch
  split
  · next here =>
    rw [Bool.and_eq_true, decide_eq_true_eq] at here
    have backed := h here.1 here.2
    unfold Backed at backed
    cases word : entry.word with
    | clear => exact ⟨none, rfl, nofun⟩
    | target target =>
      rw [word] at backed
      refine ⟨_, rfl, ?_⟩
      intro found same
      cases same
      exact backed
    | link next =>
      rw [word] at backed
      exact backed.elim
  · exact ⟨none, rfl, nofun⟩

end

/-- What a state says of a slot behind the accepted ones. -/
abbrev PlacedIn : SlotState → Prop
  | .free | .route .mapped _ => entry.Idle
  | .standalone =>
      entry.phase = .ready ∧ entry.inflight = false ∧
        (entry.lease = true ∨ entry.exhausted = true) ∨
      entry.lease = false ∧ entry.Closing
  | .route .unopenedOne _ | .route .creatingOne _ | .route .failedOne _ | .route .openOne _
  | .route .openTwo _ => entry.InUse
  | .route .creatingZero _ => entry.Idle ∧ entry.retired ≠ none
  | .route .closingOne _ => entry.Closing
  | .route .closingZero _ => entry.lease = false ∧ entry.Closing
  | .route .closedOne _ => entry.inflight = false ∧
      (entry.lease = true ∧ entry.phase = .quiescent ∨ entry.lease = false ∧ entry.phase = .ready)

/-- A slot behind the accepted ones. -/
def Placed : Prop := entry.PlacedIn entry.state

end Entry

/-- What is known of slot `i` from its own history. -/
structure Held (accept last i : Nat) (entry : Entry T) (native : Native) (submits consumes : Nat)
    (published : List (Nat × Nat × T)) : Prop where
  sound : entry.Sound last
  accepting : i < accept → entry.Accepting native
  placed : accept ≤ i → entry.Placed ∧ native.arrived = false
  counts : submits = consumes + entry.inflight.toNat
  targets : entry.phase = .ready → entry.lease = true → entry.Backed i published

/-! ## Owners -/

def Token.slot : Token → Nat
  | .accepted slot _ | .solo slot _ | .unopened slot _ _ _ | .creating slot _ _
  | .active slot _ _ | .made slot _ | .flight slot _ _ => slot
  | .echo token _ => token.index

variable {token : Token}

namespace Entry

variable (entry : Entry T) (accept : Nat) (slots : Nat → Nat → Option Nat) (i : Nat)

def Lends (token : Token) : Prop :=
  match entry.state with
  | .free => i < accept ∧ entry.lease = true ∧ token = .accepted i entry.generation
  | .standalone => entry.lease = true ∧ token = .solo i entry.generation
  | .route .mapped _ | .route .closingZero _ => False
  | .route .unopenedOne o =>
      ∃ l, slots o l = some i ∧ token = .unopened i o l entry.generation
  | .route .creatingOne o => token = .creating i o entry.generation ∨
      ∃ l, slots o l = some i ∧ token = .flight i o l
  | .route .creatingZero o => ∃ l, slots o l = some i ∧ token = .flight i o l
  | .route .openOne o => token = .active i o entry.generation
  | .route .openTwo o => token = .creating i o entry.generation ∨ token = .made i o
  | .route .failedOne o => token = .creating i o entry.generation
  | .route .closingOne o | .route .closedOne o =>
      entry.lease = true ∧ token = .creating i o entry.generation ∨
        entry.lease = false ∧ token = .made i o

def classAt : Class :=
  if i < accept then .close
  else if entry.state.owner.isSome then .close
  else .standalone

/-- The tokens that are out for slot `i`. -/
def Owns (token : Token) : Prop :=
  entry.Lends accept slots i token ∨
    entry.inflight = true ∧ entry.bound = true ∧
      token = .echo ⟨i, entry.submitted, entry.side⟩ (entry.classAt accept i)

variable {entry accept slots i}

theorem owns_congr {slots' : Nat → Nat → Option Nat}
    (same : ∀ o l, slots' o l = some i ↔ slots o l = some i) :
    entry.Owns accept slots' i token ↔ entry.Owns accept slots i token := by
  unfold Owns Lends
  split <;> simp only [same]

end Entry

/-! ## The domain -/

namespace Domain

/-- A retired route counts its slots that are still to settle. -/
def Counted (domain : Domain T) : Prop :=
  ∀ o lease remaining, domain.outbound.routes o = some lease →
    lease.state = .retired remaining →
      remaining = domain.unsettled o lease ∧ 0 < remaining

end Domain

namespace World

structure Base (layout : Layout) (world : World T) : Prop where
  accept : world.domain.accept = layout.accept
  room : world.domain.outbound.capacity = layout.outbound
  capacity : world.domain.resident.capacity = layout.accept + layout.outbound
  last : world.domain.resident.last = layout.last
  good : world.domain.resident.Good
  tiles : world.domain.Tiles
  held : ∀ i, Held layout.accept layout.last i (world.domain.resident.entries i) (world.native i)
    (world.submits i) (world.consumes i) world.published
  nodup : world.tokens.Nodup
  owned : ∀ token, token ∈ world.tokens ↔
    (world.domain.resident.entries token.slot).Owns layout.accept world.domain.outbound.slot
      token.slot token

structure Inv (layout : Layout) (world : World T) : Prop extends Base layout world where
  counted : world.domain.Counted

/-- Two worlds that differ in the slots of `changed` only. -/
structure Turn (world world' : World T) (changed : Nat → Prop) : Prop where
  accept : world'.domain.accept = world.domain.accept
  room : world'.domain.outbound.capacity = world.domain.outbound.capacity
  capacity : world'.domain.resident.capacity = world.domain.resident.capacity
  last : world'.domain.resident.last = world.domain.resident.last
  entries : ∀ i, ¬ changed i → world'.domain.resident.entries i = world.domain.resident.entries i
  native : ∀ i, ¬ changed i → world'.native i = world.native i
  submits : ∀ i, ¬ changed i → world'.submits i = world.submits i
  consumes : ∀ i, ¬ changed i → world'.consumes i = world.consumes i
  slots : ∀ o l i, ¬ changed i →
    (world'.domain.outbound.slot o l = some i ↔ world.domain.outbound.slot o l = some i)
  tokens : ∀ token, ¬ changed token.slot → (token ∈ world'.tokens ↔ token ∈ world.tokens)
  published : ∀ entry, entry ∈ world.published → entry ∈ world'.published

theorem Base.turn {layout : Layout} {world world' : World T} (h : world.Base layout)
    (changed : Nat → Prop) (turn : Turn world world' changed)
    (good : world'.domain.resident.Good) (tiles : world'.domain.Tiles)
    (nodup : world'.tokens.Nodup)
    (held : ∀ i, changed i → Held layout.accept layout.last i
      (world'.domain.resident.entries i) (world'.native i) (world'.submits i)
      (world'.consumes i) world'.published)
    (owned : ∀ token, changed token.slot → (token ∈ world'.tokens ↔
      (world'.domain.resident.entries token.slot).Owns layout.accept
        world'.domain.outbound.slot token.slot token)) : world'.Base layout := by
  constructor
  · rw [turn.accept, h.accept]
  · rw [turn.room, h.room]
  · rw [turn.capacity, h.capacity]
  · rw [turn.last, h.last]
  · exact good
  · exact tiles
  · intro i
    by_cases here : changed i
    · exact held i here
    · have was := h.held i
      rw [turn.entries i here, turn.native i here, turn.submits i here, turn.consumes i here]
      refine { was with targets := ?_ }
      intro ready lease
      exact (was.targets ready lease).congr rfl rfl turn.published
  · exact nodup
  · intro token
    by_cases here : changed token.slot
    · exact owned token here
    · rw [turn.tokens token here, turn.entries _ here, h.owned token]
      exact (Entry.owns_congr fun o l => turn.slots o l _ here).symm

/-! ## One slot -/

/-- One slot has another entry. -/
structure Alters (world world' : World T) (i : Nat) (entry : Entry T) : Prop where
  accept : world'.domain.accept = world.domain.accept
  capacity : world'.domain.resident.capacity = world.domain.resident.capacity
  last : world'.domain.resident.last = world.domain.resident.last
  entries : world'.domain.resident.entries =
    Function.update world.domain.resident.entries i entry
  native : ∀ j, j ≠ i → world'.native j = world.native j
  submits : ∀ j, j ≠ i → world'.submits j = world.submits j
  consumes : ∀ j, j ≠ i → world'.consumes j = world.consumes j
  published : ∀ entry, entry ∈ world.published → entry ∈ world'.published

/-- Tokens of one slot go and others come. -/
structure Trade (world world' : World T) (i : Nat) (gone new : List Token) : Prop where
  tokens : world'.tokens = new ++ gone.foldl List.erase world.tokens
  slots : ∀ token, token ∈ gone ∨ token ∈ new → token.slot = i
  nodup : new.Nodup

theorem nodup_foldl_erase {gone tokens : List Token} (nodup : tokens.Nodup) :
    (gone.foldl List.erase tokens).Nodup := by
  induction gone generalizing tokens with
  | nil => exact nodup
  | cons first gone ih => exact ih (nodup.erase first)

theorem mem_foldl_erase {gone tokens : List Token} (nodup : tokens.Nodup) :
    token ∈ gone.foldl List.erase tokens ↔ token ∉ gone ∧ token ∈ tokens := by
  induction gone generalizing tokens with
  | nil => simp
  | cons first gone ih =>
    have rest := ih (nodup.erase first)
    rw [nodup.mem_erase_iff] at rest
    simp [rest]
    grind

section
variable {layout : Layout} {world world' : World T} {i : Nat} {gone new : List Token}

section

variable (trade : Trade world world' i gone new) (nodup : world.tokens.Nodup)

include trade nodup

theorem Trade.mem (token : Token) :
    token ∈ world'.tokens ↔ token ∈ new ∨ token ∉ gone ∧ token ∈ world.tokens := by
  rw [trade.tokens, List.mem_append, mem_foldl_erase nodup]

theorem Trade.others (out : token.slot ≠ i) : token ∈ world'.tokens ↔ token ∈ world.tokens := by
  rw [trade.mem nodup]
  have unsold : token ∉ gone := fun mem => out (trade.slots token (.inl mem))
  have unbought : token ∉ new := fun mem => out (trade.slots token (.inr mem))
  simp [unsold, unbought]

theorem Trade.once (fresh : ∀ token, token ∈ new → token ∉ world.tokens) : world'.tokens.Nodup := by
  rw [trade.tokens, List.nodup_append]
  refine ⟨trade.nodup, nodup_foldl_erase nodup, ?_⟩
  intro first mem second mem' same
  rw [← same] at mem'
  exact fresh first mem ((mem_foldl_erase nodup).mp mem').2

end

/-- A slot is used, and the table of the leases stays. -/
theorem Base.alter (h : world.Base layout) (entry : Entry T)
    (alters : Alters world world' i entry) (trade : Trade world world' i gone new)
    (outbound : world'.domain.outbound = world.domain.outbound)
    (good : world'.domain.resident.Good)
    (state : entry.state = (world.entries i).state ∨ ∃ phase phase' o,
      (world.entries i).state = .route phase o ∧ entry.state = .route phase' o)
    (spent : layout.accept ≤ i → (world.entries i).state = .free →
      entry.exhausted = (world.entries i).exhausted)
    (held : Held layout.accept layout.last i entry (world'.native i) (world'.submits i)
      (world'.consumes i) world'.published)
    (fresh : ∀ token, token ∈ new → ¬ (world.entries i).Owns layout.accept world.slot i token)
    (owned : ∀ token, entry.Owns layout.accept world.slot i token ↔
      token ∈ new ∨ token ∉ gone ∧ (world.entries i).Owns layout.accept
        world.slot i token) : world'.Base layout := by
  have mine : world'.domain.resident.entries i = entry := by
    rw [alters.entries, Function.update_self]
  have others : ∀ j, j ≠ i → world'.domain.resident.entries j = world.entries j := by
    intro j apart
    rw [alters.entries, Function.update_of_ne apart]
  refine h.turn (· = i) ⟨alters.accept, by rw [outbound], alters.capacity,
    alters.last, others, alters.native, alters.submits, alters.consumes,
    fun _ _ _ _ => by rw [outbound], fun token out => trade.others h.nodup out,
    alters.published⟩ good ?_ (trade.once h.nodup ?_) ?_ ?_
  · have tiles : Tiled world.domain.accept world.domain.outbound
        (fun j => (world'.domain.resident.entries j).state)
        (fun j => (world'.domain.resident.entries j).exhausted) :=
      Tiled.relabel h.tiles world.domain.outbound.routes (fun _ => rfl) (by
        intro j
        by_cases apart : j = i
        · rw [apart, mine]
          exact state
        · rw [others j apart]
          exact .inl rfl) (by
        intro j low free
        by_cases apart : j = i
        · rw [apart, mine]
          rw [apart] at low free
          exact spent (h.accept ▸ low) free
        · rw [others j apart])
    unfold Domain.Tiles
    rw [outbound, alters.accept]
    exact tiles
  · intro token mem old
    rw [h.owned, trade.slots token (.inr mem)] at old
    exact fresh token mem old
  · intro j same
    rw [same, mine]
    exact held
  · intro token same
    rw [trade.mem h.nodup, h.owned, same, mine, outbound]
    exact (owned token).symm

end

end World

end Dope.Core.Fd
