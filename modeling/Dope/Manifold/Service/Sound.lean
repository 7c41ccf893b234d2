import Dope.Base.Tally
import Dope.Manifold.Service.Entries

/-! # Members and the dials that name them

A dial that was submitted or deferred claims the member it was chosen for, and one
that connected still does. What a record says of its owners, of its schedule and of
its probe is what the claims on it say.
-/

namespace Dope.Manifold.Service

open Dope.Round Dope.Tally

/-- What a dial claims, and whether it connected. -/
structure Claim (n : Nat) where
  target : Target n
  connected : Bool
deriving DecidableEq, Repr

variable {I A O : Type} {n m : Nat}

/-- The dials that claim a member. -/
def owned (key : Key n) (claims : Fin m → Option (Claim n)) : Nat :=
  tally (fun claim => claim.target.member = key) claims

/-! ## One record -/

/-- A record rests: its retry, its place in the ring and its owners are those of its
health. -/
structure Rests (authoritative : Bool) (key : Key n) (health : Health) (linked : Prop)
    (retry : Option (Nat × Nat)) (claims : Fin m → Option (Claim n)) : Prop where
  waits : ∀ generation due, retry = some (generation, due) →
    generation = key.generation ∧ health.idle = .backoff
  parked : health.idle = .backoff → retry ≠ none
  scheduled : linked → health.idle = .exhausted
  bound : ∀ d claim, claims d = some claim → claim.target.member = key →
    claim.target.health ≤ health.generation
  unpicked : linked → health.ready = .probe → ∀ d claim, claims d = some claim →
    claim.target ≠ ⟨key, health.generation⟩
  owners : authoritative = false → health.owners = owned key claims
  demand : health.demand = none → authoritative = false ∧ health.owners ≠ 0

/-- A desired member that is probed has one dial of its generation, which did not
connect. -/
def Probed (key : Key n) (health : Health) (claims : Fin m → Option (Claim n)) : Prop :=
  health.demand ≠ none → health.idle = .probing →
    ∃ d, claims d = some ⟨⟨key, health.generation⟩, false⟩ ∧
      ∀ e claim, claims e = some claim → claim.target = ⟨key, health.generation⟩ → e = d

/-! ## One position -/

structure Good (authoritative : Bool) (i : Fin n) (slot : Slot (Record I A)) (linked : Prop)
    (retry : Option (Nat × Nat)) (claims : Fin m → Option (Claim n)) : Prop where
  stale : ∀ d claim, claims d = some claim → claim.target.member.slot = i →
    claim.target.member.generation ≤ slot.generation
  vacant : slot.resident = none → retry = none ∧ ∀ d claim, claims d = some claim →
    claim.target.member ≠ ⟨i, slot.generation⟩
  rests : ∀ record, slot.resident = some record →
    Rests authoritative ⟨i, slot.generation⟩ record.health linked retry claims
  probed : ∀ record, slot.resident = some record →
    Probed ⟨i, slot.generation⟩ record.health claims

/-- Every position is good; and without authority every claimed member is there. -/
structure Sound (authoritative : Bool) (members : Members I A n)
    (claims : Fin m → Option (Claim n)) : Prop where
  good : ∀ i, Good authoritative i (members.records.slots i) (i ∈ members.records.ring)
    (members.retries i) claims
  live : authoritative = false → ∀ d claim, claims d = some claim →
    (members.records.get claim.target.member).isSome

/-- A position ages: its generation grows, and a member that retired stays retired. -/
def Aged (before after : Slot (Record I A)) : Prop :=
  before.generation < after.generation ∨
    before.generation = after.generation ∧ ∀ record, before.resident = some record →
      record.health.demand = none →
      ∃ record', after.resident = some record' ∧ record'.health.demand = none

theorem Aged.refl (slot : Slot (Record I A)) : Aged slot slot :=
  .inr ⟨rfl, fun record resides retired => ⟨record, resides, retired⟩⟩

theorem Aged.trans {first second third : Slot (Record I A)} (h : Aged first second)
    (h' : Aged second third) : Aged first third := by
  rcases h with less | ⟨same, kept⟩
  · rcases h' with less' | ⟨same', -⟩
    · exact .inl (less.trans less')
    · exact .inl (by omega)
  · rcases h' with less' | ⟨same', kept'⟩
    · exact .inl (by omega)
    · refine .inr ⟨same.trans same', ?_⟩
      intro record resides retired
      rcases kept record resides retired with ⟨record', resides', retired'⟩
      exact kept' record' resides' retired'

def AgedAll (before after : Members I A n) : Prop :=
  ∀ i, Aged (before.records.slots i) (after.records.slots i)

theorem AgedAll.refl (members : Members I A n) : AgedAll members members := fun _ => .refl _

theorem AgedAll.trans {first second third : Members I A n} (h : AgedAll first second)
    (h' : AgedAll second third) : AgedAll first third := fun i => (h i).trans (h' i)

/-! ## Claims that concern others -/

/-- Two tables of claims agree on one member. -/
def Agree (key : Key n) (claims claims' : Fin m → Option (Claim n)) : Prop :=
  ∀ d claim, claim.target.member = key → (claims' d = some claim ↔ claims d = some claim)

variable {authoritative : Bool} {key : Key n} {health : Health} {linked : Prop}
  {retry : Option (Nat × Nat)} {claims claims' : Fin m → Option (Claim n)} {d : Fin m}

theorem Agree.owned (agree : Agree key claims claims') : owned key claims' = owned key claims := by
  unfold Service.owned tally
  congr 1
  apply Finset.filter_congr
  intro d _
  constructor
  · rintro ⟨claim, held, names⟩
    exact ⟨claim, (agree d claim names).mp held, names⟩
  · rintro ⟨claim, held, names⟩
    exact ⟨claim, (agree d claim names).mpr held, names⟩

theorem Agree.rests (agree : Agree key claims claims')
    (h : Rests authoritative key health linked retry claims) :
    Rests authoritative key health linked retry claims' where
  waits := h.waits
  parked := h.parked
  scheduled := h.scheduled
  bound d claim held names := h.bound d claim ((agree d claim names).mp held) names
  unpicked link probe d claim held same := by
    have names : claim.target.member = key := by rw [same]
    exact h.unpicked link probe d claim ((agree d claim names).mp held) same
  owners preserve := by rw [agree.owned, h.owners preserve]
  demand := h.demand

theorem Agree.probed (agree : Agree key claims claims') (h : Probed key health claims) :
    Probed key health claims' := by
  intro desired probing
  rcases h desired probing with ⟨d, held, only⟩
  refine ⟨d, (agree d _ rfl).mpr held, ?_⟩
  intro e claim held' same
  have names : claim.target.member = key := by rw [same]
  exact only e claim ((agree e claim names).mp held') same

theorem Agree.update {other : Option (Claim n)}
    (old : ∀ claim, claims d = some claim → claim.target.member ≠ key)
    (new : ∀ claim, other = some claim → claim.target.member ≠ key) :
    Agree key claims (Function.update claims d other) := by
  intro e claim names
  by_cases same : e = d
  · subst same
    rw [Function.update_self]
    constructor
    · exact fun held => absurd names (new claim held)
    · exact fun held => absurd names (old claim held)
  · rw [Function.update_of_ne same]

/-- How many claim a member once one dial claims something else. -/
theorem owned_update (key : Key n) (claims : Fin m → Option (Claim n)) (d : Fin m)
    (other : Option (Claim n)) :
    owned key (Function.update claims d other) +
        unit (fun claim : Claim n => claim.target.member = key) (claims d) =
      owned key claims + unit (fun claim : Claim n => claim.target.member = key) other :=
  tally_update claims d other

/-! ## What a record goes through -/

theorem Probed.of_idle (h : health.idle ≠ .probing) : Probed key health claims :=
  fun _ probing => absurd probing h

theorem Probed.drop {claim : Claim n} (h : Probed key health claims) (held : claims d = some claim)
    (other : claim.target ≠ ⟨key, health.generation⟩) :
    Probed key health (Function.update claims d none) := by
  intro desired probing
  rcases h desired probing with ⟨e, probes, only⟩
  have apart : e ≠ d := by
    rintro rfl
    rw [held] at probes
    cases probes
    exact other rfl
  refine ⟨e, by rwa [Function.update_of_ne apart], ?_⟩
  intro f claim' held' same
  have apart' : f ≠ d := by
    rintro rfl
    simp at held'
  rw [Function.update_of_ne apart'] at held'
  exact only f claim' held' same

variable {health' : Health}

/-- What is probed depends on the demand, the idle state and the generation alone. -/
theorem Probed.congr (h : Probed key health claims)
    (demand : health'.demand ≠ none → health.demand ≠ none) (idle : health'.idle = health.idle)
    (generation : health'.generation = health.generation) : Probed key health' claims := by
  intro desired probing
  rw [generation]
  exact h (demand desired) (idle ▸ probing)

section

variable (h : Rests authoritative key health linked retry claims)

include h

theorem Rests.retry_none (idle : health.idle ≠ .backoff) : retry = none := by
  cases found : retry with
  | none => rfl
  | some entry => exact absurd (h.waits entry.1 entry.2 found).2 idle

theorem Rests.unlinked (idle : health.idle ≠ .exhausted) : ¬linked :=
  fun link => idle (h.scheduled link)

/-- A backed-off record waits for the retry under its own key. -/
theorem Rests.retry_some (idle : health.idle = .backoff) :
    ∃ due, retry = some (key.generation, due) := by
  rcases Option.ne_none_iff_exists'.mp (h.parked idle) with ⟨⟨generation, due⟩, found⟩
  rw [(h.waits generation due found).1] at found
  exact ⟨due, found⟩

/-- A dial gives up its claim, and the owners are one fewer. -/
theorem Rests.settle {claim : Claim n} (held : claims d = some claim)
    (names : claim.target.member = key) (idle : health'.idle = health.idle)
    (ready : health'.ready = health.ready) (generation : health'.generation = health.generation)
    (demand : health'.demand = none → authoritative = false ∧ health'.owners ≠ 0)
    (owners : authoritative = false → health.owners = health'.owners + 1) :
    Rests authoritative key health' linked retry (Function.update claims d none) where
  waits := by simpa [idle] using h.waits
  parked := by simpa [idle] using h.parked
  scheduled := by simpa [idle] using h.scheduled
  bound e claim' held' names' := by
    have apart : e ≠ d := by
      rintro rfl
      simp at held'
    rw [Function.update_of_ne apart] at held'
    rw [generation]
    exact h.bound e claim' held' names'
  unpicked link probe e claim' held' := by
    have apart : e ≠ d := by
      rintro rfl
      simp at held'
    rw [Function.update_of_ne apart] at held'
    rw [generation]
    exact h.unpicked link (ready ▸ probe) e claim' held'
  owners preserve := by
    have count := owned_update key claims d none
    have before := h.owners preserve
    have less := owners preserve
    rw [held, unit_some, if_pos names, unit_none] at count
    omega
  demand := demand

theorem Rests.owners_pos {claim : Claim n} (preserve : authoritative = false)
    (held : claims d = some claim) (names : claim.target.member = key) : 0 < health.owners := by
  rw [h.owners preserve]
  exact tally_pos held names

/-- The health of a record that is not linked changes, and the record stays there. -/
theorem Rests.park {due : Nat} (idle : health'.idle = .backoff)
    (generation : health'.generation = health.generation) (demand : health'.demand = health.demand)
    (owners : health'.owners = health.owners) :
    Rests authoritative key health' False (some (key.generation, due)) claims where
  waits := by
    intro generation' due' same
    cases same
    exact ⟨rfl, idle⟩
  parked := fun _ => by simp
  scheduled := False.elim
  bound := by rw [generation]; exact h.bound
  unpicked := False.elim
  owners := by rw [owners]; exact h.owners
  demand := by rw [owners, demand]; exact h.demand

/-- A record waits for nothing, and is not scheduled. -/
theorem Rests.idle (idle : health'.idle ≠ .backoff)
    (generation : health'.generation = health.generation) (demand : health'.demand = health.demand)
    (owners : health'.owners = health.owners) :
    Rests authoritative key health' False none claims where
  waits := by simp
  parked := fun same => absurd same idle
  scheduled := False.elim
  bound := by rw [generation]; exact h.bound
  unpicked := False.elim
  owners := by rw [owners]; exact h.owners
  demand := by rw [owners, demand]; exact h.demand

/-- A record is scheduled under a generation that no dial has. -/
theorem Rests.schedule (idle : health'.idle = .exhausted)
    (generation : health'.generation = health.generation + 1)
    (demand : health'.demand = health.demand) (owners : health'.owners = health.owners) :
    Rests authoritative key health' True none claims where
  waits := by simp
  parked := by simp [idle]
  scheduled := fun _ => idle
  bound d claim held names := by
    have le := h.bound d claim held names
    omega
  unpicked _ _ d claim held same := by
    have names : claim.target.member = key := by rw [same]
    have le := h.bound d claim held names
    rw [same, generation] at le
    dsimp only at le
    omega
  owners := by rw [owners]; exact h.owners
  demand := by rw [owners, demand]; exact h.demand

/-- A record changes its demand alone, and keeps it if it has one. -/
theorem Rests.demanded (idle : health'.idle = health.idle) (ready : health'.ready = health.ready)
    (generation : health'.generation = health.generation) (owners : health'.owners = health.owners)
    (demand : health'.demand = none → authoritative = false ∧ health.owners ≠ 0) :
    Rests authoritative key health' linked retry claims where
  waits := by simpa [idle] using h.waits
  parked := by simpa [idle] using h.parked
  scheduled := by simpa [idle] using h.scheduled
  bound := by rw [generation]; exact h.bound
  unpicked := by rw [generation, ready]; exact h.unpicked
  owners := by rw [owners]; exact h.owners
  demand := by rw [owners]; exact demand

end

/-- A vacant dial claims a record that is scheduled as healthy, or one that leaves
the schedule for its probe. -/
theorem Rests.claim {linked' : Prop} (h : Rests authoritative key health linked none claims)
    (vacant : claims d = none) (idle : health'.idle ≠ .backoff)
    (scheduled : linked' → health'.idle = .exhausted) (probe : linked' → health'.ready = .healthy)
    (generation : health'.generation = health.generation) (demand : health'.demand = health.demand)
    (owners : health'.owners = if authoritative then health.owners else health.owners + 1) :
    Rests authoritative key health' linked' none
      (Function.update claims d (some ⟨⟨key, health.generation⟩, false⟩)) where
  waits := by simp
  parked := fun same => absurd same idle
  scheduled := scheduled
  bound e claim held names := by
    rw [generation]
    by_cases same : e = d
    · subst same
      rw [Function.update_self] at held
      cases held
      exact Nat.le_refl _
    · rw [Function.update_of_ne same] at held
      exact h.bound e claim held names
  unpicked link unhealthy := by
    rw [probe link] at unhealthy
    cases unhealthy
  owners preserve := by
    have count := owned_update key claims d (some ⟨⟨key, health.generation⟩, false⟩)
    rw [vacant, unit_none, unit_some, if_pos rfl] at count
    rw [owners, preserve, if_neg (by simp), h.owners preserve]
    omega
  demand retired := by
    have rest := h.demand (demand ▸ retired)
    rw [owners, rest.1, if_neg (by simp)]
    exact ⟨rfl, by omega⟩

/-- A dial that connects keeps its claim, for a generation the record has reached. -/
theorem Rests.connect {claim claim' : Claim n}
    (h : Rests authoritative key health linked retry claims) (held : claims d = some claim)
    (names : claim.target.member = key) (names' : claim'.target.member = key)
    (reached : claim'.target.health ≤ health.generation)
    (unpicked : linked → health.ready = .probe → claim'.target ≠ ⟨key, health.generation⟩) :
    Rests authoritative key health linked retry (Function.update claims d (some claim')) where
  waits := h.waits
  parked := h.parked
  scheduled := h.scheduled
  bound e other held' names'' := by
    by_cases same : e = d
    · subst same
      rw [Function.update_self] at held'
      cases held'
      exact reached
    · rw [Function.update_of_ne same] at held'
      exact h.bound e other held' names''
  unpicked link probe e other held' := by
    by_cases same : e = d
    · subst same
      rw [Function.update_self] at held'
      cases held'
      exact unpicked link probe
    · rw [Function.update_of_ne same] at held'
      exact h.unpicked link probe e other held'
  owners preserve := by
    have count := owned_update key claims d (some claim')
    rw [held, unit_some, unit_some, if_pos names, if_pos names'] at count
    rw [h.owners preserve]
    omega
  demand := h.demand

theorem Rests.new (fresh : ∀ d claim, claims d = some claim → claim.target.member ≠ key) :
    Rests authoritative key .new linked none claims where
  waits := by simp
  parked := nofun
  scheduled := fun _ => rfl
  bound d claim held names := absurd names (fresh d claim held)
  unpicked := nofun
  owners _ := by
    rw [owned, tally, Finset.filter_false_of_mem, Finset.card_empty, Health.new]
    rintro d - ⟨claim, held, names⟩
    exact fresh d claim held names
  demand := nofun

end Dope.Manifold.Service
