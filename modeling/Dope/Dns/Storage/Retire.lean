import Dope.Dns.Storage.Tracks

/-! # Retiring a stream

A retirement goes through the branches in order and hands its place on when its
permits run out. Between two of its steps anything may happen except a
submission to the retired server, and so no branch behind its place can begin to
wait on that server.
-/

namespace Dope.Dns.Storage

open Index Run Function

variable {config : Config} {n lanes : Nat}

/-! ## Ordinals -/

/-- Lanes in order, the two families of each. -/
def Place.ordinal (place : Place lanes) : Nat :=
  place.1.val * 2 + if place.2 = .four then 0 else 1

theorem ordinal_placeAt {ordinal : Nat} (inside : ordinal < lanes * 2) :
    Place.ordinal (placeAt ordinal inside) = ordinal := by
  unfold Place.ordinal placeAt
  dsimp only
  split <;> split <;> simp_all <;> omega

theorem ordinal_lt (place : Place lanes) : Place.ordinal place < lanes * 2 := by
  have bound := place.1.isLt
  unfold Place.ordinal
  split <;> omega

theorem ordinal_injective : Injective (Place.ordinal : Place lanes → Nat) := by
  rintro ⟨lane, family⟩ ⟨lane', family'⟩ same
  unfold Place.ordinal at same
  dsimp only at same
  have lanes : lane = lane' := by
    apply Fin.ext
    split at same <;> split at same <;> omega
  subst lanes
  cases family <;> cases family' <;> simp_all

/-! ## One branch -/

/-- What a failure does to an attempt: the next one of its budget, or the end. -/
inductive Spends (attempt : Attempt config) (hard now : Nat) (cause : Error.Kind) :
    Branch config n → Prop where
  | next {attempt' : Attempt config} : cause.isTerminal = false → now < hard →
      attempt'.request.attempt = attempt.request.attempt + 1 →
      attempt'.request.name = attempt.request.name →
      attempt'.request.attempt < config.attempts →
      attempt'.deadline = Retry.deadline config now hard →
      Spends attempt hard now cause (.pending attempt')
  | terminal : cause.isTerminal = true → Spends attempt hard now cause (.failed cause)
  | late : hard ≤ now → Spends attempt hard now cause (.failed .timeout)
  | exhausted : config.attempts ≤ attempt.request.attempt + 1 →
      Spends attempt hard now cause (.failed cause)

/-- What a retirement does to a branch that waits on its server. -/
def Retirement.Ends (attempt : Attempt config) (hard now : Nat) (branch : Branch config n) :
    Retirement → Prop
  | .resume => branch = .pending attempt
  | .expired =>
      if attempt.deadline ≤ now then Spends attempt hard now .timeout branch
      else branch = .pending attempt
  | .fail cause => Spends attempt hard now cause branch

variable {place : Place lanes} {branch : Branch config n}

theorem Attempt.retry_spends {attempt : Attempt config} {hard now : Nat} {cause : Error.Kind}
    {registry registry' : Registry lanes}
    (h : attempt.retry hard now cause registry place = .ok (registry', branch)) :
    Spends attempt hard now cause branch := by
  unfold retry at h
  split at h
  · rename_i terminal
    rw [finish_branch h]
    exact .terminal terminal
  · rename_i transient
    split at h
    · rename_i late
      rw [finish_branch h]
      exact .late late
    · rename_i early
      split at h
      · rename_i spent
        rw [finish_branch h]
        apply Spends.exhausted
        unfold Probe.next at spent
        split at spent
        · have := config.attempts_pos
          omega
        · simp at spent
      · rename_i next budget
        obtain ⟨⟨request, live⟩, moved, h⟩ := bind_ok.mp h
        cases h
        have fields : request.attempt = next ∧ request.name = attempt.request.name := by
          unfold Request.retry at moved
          dsimp only at moved
          split at moved
          · cases moved
            exact ⟨rfl, rfl⟩
          · obtain ⟨transferred, -, moved⟩ := bind_ok.mp moved
            cases moved
            exact ⟨rfl, rfl⟩
        have grown : next = attempt.request.attempt + 1 ∧ next < config.attempts := by
          unfold Probe.next at budget
          split at budget
          · simp at budget
          · cases budget
            omega
        refine .next (by simpa using transient) (by omega) ?_ fields.2 ?_ rfl
        · rw [fields.1, grown.1]
        · dsimp only
          rw [fields.1]
          exact grown.2

namespace Queries

variable {queries next : Queries config n lanes} {server : Tx.Server} {reason : Retirement}
  {now : Nat}

/-- The sweep takes hold of the branch when it comes to its place. -/
def takes (queries : Queries config n lanes) (server : Tx.Server) (place : Place lanes) : Bool :=
  !queries.isCancelled place.1 && (queries.branch place).waitsOn server

theorem branch_query {query : Query config n} (here : queries.inner.slots place.1 = .query query) :
    queries.branch place = query.branches place.2 := by
  unfold branch
  rw [here]

/-- One step of the sweep leaves a branch alone or settles it. -/
theorem retireBranch_cases (h : queries.retireBranch place server reason now = .ok next) :
    (queries.takes server place = false ∧ next = queries) ∨
      (queries.takes server place = true ∧ next.laneSets = queries.laneSets ∧
        ∃ query attempt lease branch, queries.inner.slots place.1 = .query query ∧
          query.branches place.2 = .waiting attempt lease ∧
          reason.Ends attempt query.hardDeadline now branch ∧
          next.inner.slots = update queries.inner.slots place.1
            ((Slot.query (query.set place.2 branch)).complete now)) := by
  unfold retireBranch at h
  split at h
  · rename_i cancelled
    cases h
    exact .inl ⟨by simp [takes, cancelled], rfl⟩
  · rename_i held
    unfold Ledger.claim at h
    rcases Ledger.accept_cases queries.inner place (.stream server) (fun _ _ => some ()) with
      none | ⟨query, attempt, lease, decoded, here, row, passed, -, ran⟩
    · rw [none, ok_bind] at h
      cases h
      refine .inl ⟨?_, rfl⟩
      unfold takes
      cases waits : (queries.branch place).waitsOn server with
      | false => simp
      | true =>
        exfalso
        unfold branch at waits
        unfold Ledger.accept at none
        cases here : queries.inner.slots place.1 with
        | idle completion => simp [here, Branch.waitsOn] at waits
        | query query =>
          rw [here] at waits none
          dsimp only at waits none
          cases row : query.branches place.2 with
          | waiting attempt lease =>
            rw [row] at waits none
            have same : attempt.request.stream = some server := by
              simpa [Branch.waitsOn] using waits
            simp [Filter.matches, same] at none
          | pending | done | empty | failed => simp [row, Branch.waitsOn] at waits
    · rw [ran, ok_bind] at h
      dsimp only at h
      rw [ok_bind] at h
      obtain ⟨ledger, settled, h⟩ := bind_ok.mp h
      cases h
      have same : attempt.request.stream = some server := by
        simpa [Filter.matches] using passed
      refine .inr ⟨?_, rfl, ?_⟩
      · unfold takes
        rw [branch_query here, row]
        simp [Branch.waitsOn, same, held]
      · have emptied := Ledger.put_slot here
          { queries.inner.registry with ids := queries.inner.registry.ids.release lease } .empty
        have ended : ∃ branch, reason.Ends attempt query.hardDeadline now branch ∧
            ledger.slots = update queries.inner.slots place.1
              (.query (query.set place.2 branch)) := by
          have written : ∀ branch, update (queries.inner.put place { queries.inner.registry with
              ids := queries.inner.registry.ids.release lease } .empty).slots place.1
              (.query ((query.set place.2 .empty).set place.2 branch)) =
              update queries.inner.slots place.1 (.query (query.set place.2 branch)) := by
            intro branch
            rw [Ledger.put_query here]
            dsimp only
            rw [Ledger.setSlot_slots, update_idem, Query.set_set]
          unfold Retirement.settle at settled
          split at settled
          · obtain ⟨registry, branch, step, slots⟩ := Active.close_slots settled emptied
            cases step
            exact ⟨_, rfl, slots.trans (written _)⟩
          · split at settled
            · rename_i due
              obtain ⟨registry, branch, step, slots⟩ := Active.close_slots settled emptied
              refine ⟨branch, ?_, slots.trans (written branch)⟩
              unfold Retirement.Ends
              rw [if_pos due]
              exact Attempt.retry_spends step
            · rename_i early
              obtain ⟨registry, branch, step, slots⟩ := Active.close_slots settled emptied
              cases step
              refine ⟨_, ?_, slots.trans (written _)⟩
              unfold Retirement.Ends
              rw [if_neg early]
          · obtain ⟨registry, branch, step, slots⟩ := Active.close_slots settled emptied
            exact ⟨branch, Attempt.retry_spends step, slots.trans (written branch)⟩
        obtain ⟨branch, ends, slots⟩ := ended
        refine ⟨query, attempt, lease, branch, here, row, ends, ?_⟩
        dsimp only [Ledger.complete]
        rw [Ledger.setSlot_slots, slots, update_self, update_idem]

/-! ## Where a branch ends up -/

/-- The branch is in its place, or its finished query has completed. -/
def Lands (queries : Queries config n lanes) (place : Place lanes) (branch : Branch config n) :
    Prop :=
  queries.branch place = branch ∨
    (∃ ready, queries.inner.slots place.1 = .idle (some ready)) ∧ Query.finished branch = true

/-- The hard deadline of the query on a lane. -/
def hard (queries : Queries config n lanes) (lane : Fin lanes) : Nat :=
  match queries.inner.slots lane with
  | .idle _ => 0
  | .query query => query.hardDeadline

theorem complete_cases (query : Query config n) (now : Nat) :
    (Slot.query query).complete now = .query query ∨
      (∃ ready, (Slot.query query).complete now = .idle (some ready)) ∧
        ∀ family, Query.finished (query.branches family) = true := by
  unfold Slot.complete
  dsimp only
  cases done : query.complete now with
  | none => exact .inl rfl
  | some result =>
    refine .inr ⟨⟨_, rfl⟩, ?_⟩
    unfold Query.complete at done
    split at done
    · simp at done
    · rename_i finished
      simp only [Decidable.not_not] at finished
      intro family
      cases family with
      | four => exact finished.1
      | six => exact finished.2

theorem replaced_lands {query : Query config n} (here : queries.inner.slots place.1 = .query query)
    (slots : next.inner.slots = update queries.inner.slots place.1 ((Slot.query (query.set place.2
      branch)).complete now)) :
    Lands next place branch ∧
      ∀ other content, other ≠ place → Lands queries other content → Lands next other content := by
  have mine : next.inner.slots place.1 = (Slot.query (query.set place.2 branch)).complete now := by
    rw [slots, update_self]
  have set_self : (query.set place.2 branch).branches place.2 = branch := by simp [Query.set]
  constructor
  · rcases complete_cases (query.set place.2 branch) now with same | ⟨⟨ready, idle⟩, finished⟩
    · left
      rw [branch_query (mine.trans same), set_self]
    · right
      refine ⟨⟨ready, mine.trans idle⟩, ?_⟩
      rw [← set_self]
      exact finished place.2
  · intro other content apart lands
    by_cases lane : other.1 = place.1
    · have family : other.2 ≠ place.2 := fun same => apart (Prod.ext lane same)
      have kept : (query.set place.2 branch).branches other.2 = query.branches other.2 := by
        simp [Query.set, family]
      have here' : queries.inner.slots other.1 = .query query := by rw [lane, here]
      rcases lands with row | ⟨⟨ready, idle⟩, -⟩
      · rw [branch_query here'] at row
        rcases complete_cases (query.set place.2 branch) now with same | ⟨⟨ready, idle⟩, finished⟩
        · left
          rw [branch_query (by rw [lane, mine, same]), kept, row]
        · right
          refine ⟨⟨ready, by rw [lane, mine, idle]⟩, ?_⟩
          rw [← row, ← kept]
          exact finished other.2
      · rw [here'] at idle
        simp at idle
    · have same : next.inner.slots other.1 = queries.inner.slots other.1 := by
        rw [slots, update_of_ne lane]
      unfold Lands Queries.branch at lands ⊢
      rw [same]
      exact lands

theorem waitsOn_finished (waits : branch.waitsOn server = true) :
    Query.finished branch = false := by
  cases branch with
  | waiting attempt lease => rfl
  | pending | done | empty | failed => simp [Branch.waitsOn] at waits

theorem Lands.unfinished {content : Branch config n} (lands : Lands queries place content)
    (pending : Query.finished content = false) : queries.branch place = content := by
  rcases lands with row | ⟨-, finished⟩
  · exact row
  · rw [pending] at finished
    simp at finished

/-- Landing somewhere, a branch that did not wait does not wait. -/
theorem Lands.waitsOn {content : Branch config n} (lands : Lands queries place content)
    (calm : content.waitsOn server = false) : (queries.branch place).waitsOn server = false := by
  rcases lands with row | ⟨⟨ready, idle⟩, -⟩
  · rw [row]
    exact calm
  · unfold branch
    rw [idle]
    rfl

/-! ## The sweep -/

/-- What a sweep from one ordinal to another has done. -/
structure Swept (server : Tx.Server) (reason : Retirement) (now : Nat)
    (queries next : Queries config n lanes) (first last : Nat) : Prop where
  laneSets : next.laneSets = queries.laneSets
  upto : first ≤ last
  kept : ∀ place content, queries.takes server place = false ∨ place.ordinal < first ∨
    last ≤ place.ordinal → Lands queries place content → Lands next place content
  ended : ∀ place : Place lanes, queries.takes server place = true → first ≤ place.ordinal →
    place.ordinal < last → ∃ attempt lease branch,
      queries.branch place = .waiting attempt lease ∧
      reason.Ends attempt (queries.hard place.1) now branch ∧ Lands next place branch

theorem Swept.refl (queries : Queries config n lanes) (ordinal : Nat) :
    Swept server reason now queries queries ordinal ordinal where
  laneSets := rfl
  upto := Nat.le_refl _
  kept _ _ _ lands := lands
  ended _ _ lower upper := absurd upper (Nat.not_lt.mpr lower)

theorem takes_waits (h : queries.takes server place = true) :
    queries.isCancelled place.1 = false ∧ (queries.branch place).waitsOn server = true := by
  unfold takes at h
  simpa using h

theorem Swept.cons {middle : Queries config n lanes} {first last : Nat}
    (inside : first < lanes * 2)
    (step : queries.retireBranch (placeAt first inside) server reason now = .ok middle)
    (rest : Swept server reason now middle next (first + 1) last) :
    Swept server reason now queries next first last := by
  have mine := ordinal_placeAt inside
  have below : first < last := rest.upto
  have place_eq : ∀ place : Place lanes, place.ordinal = first → place = placeAt first inside :=
    fun place same => ordinal_injective (same.trans mine.symm)
  rcases retireBranch_cases step with ⟨free, rfl⟩ | ⟨taken, sets, query, attempt, lease, branch,
    here, row, ends, slots⟩
  · refine ⟨rest.laneSets, Nat.le_of_lt below, ?_, ?_⟩
    · intro place content outside lands
      refine rest.kept place content ?_ lands
      rcases outside with free' | lower | upper
      · exact .inl free'
      · exact .inr (.inl (Nat.lt_succ_of_lt lower))
      · exact .inr (.inr upper)
    · intro place taken lower upper
      refine rest.ended place taken ?_ upper
      have apart : place.ordinal ≠ first := by
        intro same
        rw [place_eq place same, free] at taken
        simp at taken
      omega
  · obtain ⟨landed, others⟩ := replaced_lands here slots
    have same_hard : ∀ place attempt lease, middle.branch place = .waiting attempt lease →
        middle.hard place.1 = queries.hard place.1 := by
      intro place attempt lease waits
      unfold hard
      by_cases lane : place.1 = (placeAt first inside).1
      · rw [lane, here, slots, update_self]
        rcases complete_cases (query.set (placeAt first inside).2 branch) now with
          same | ⟨⟨ready, idle⟩, -⟩
        · rw [same]
          rfl
        · unfold Queries.branch at waits
          rw [lane, slots, update_self, idle] at waits
          simp at waits
      · rw [slots, update_of_ne lane]
    have back : ∀ place, place ≠ placeAt first inside →
        middle.takes server place = queries.takes server place := by
      intro place apart
      unfold takes isCancelled
      rw [sets]
      have lands := others place (queries.branch place) apart (.inl rfl)
      cases waits : (queries.branch place).waitsOn server with
      | true =>
        rw [lands.unfinished (waitsOn_finished waits), waits]
      | false => rw [lands.waitsOn waits]
    refine ⟨rest.laneSets.trans sets, Nat.le_of_lt below, ?_, ?_⟩
    · intro place content outside lands
      have apart : place ≠ placeAt first inside := by
        rintro rfl
        rw [taken] at outside
        simp only [Bool.true_eq_false, false_or] at outside
        omega
      refine rest.kept place content ?_ (others place content apart lands)
      rcases outside with free | lower | upper
      · exact .inl ((back place apart).trans free)
      · exact .inr (.inl (Nat.lt_succ_of_lt lower))
      · exact .inr (.inr upper)
    · intro place held lower upper
      by_cases same : place = placeAt first inside
      · subst same
        refine ⟨attempt, lease, branch, (branch_query here).trans row, ?_, ?_⟩
        · unfold hard
          rw [here]
          exact ends
        · exact rest.kept _ _ (.inr (.inl (by omega))) landed
      · have later : first + 1 ≤ place.ordinal := by
          have apart : place.ordinal ≠ first := fun eq => same (place_eq place eq)
          omega
        obtain ⟨attempt, lease, branch, waits, ends, lands⟩ :=
          rest.ended place ((back place same).trans held) later upper
        have before : queries.branch place = .waiting attempt lease := by
          have pending := waitsOn_finished (takes_waits held).2
          have lands := others place (queries.branch place) same (.inl rfl)
          rw [← lands.unfinished pending]
          exact waits
        refine ⟨attempt, lease, branch, before, ?_, lands⟩
        rw [same_hard place attempt lease waits] at ends
        exact ends

theorem retireFrom_swept {left permits ordinal last : Nat} {answer : RetireStream}
    (h : retireFrom server reason now left permits ordinal queries = .ok ((answer, last), next))
    (enough : lanes * 2 ≤ ordinal + left) :
    Swept server reason now queries next ordinal last ∧
      (answer = .done → lanes * 2 ≤ last) := by
  induction left generalizing permits ordinal queries with
  | zero =>
    cases h
    exact ⟨.refl _ _, fun _ => enough⟩
  | succ left ih =>
    cases permits with
    | zero =>
      cases h
      exact ⟨.refl _ _, by simp⟩
    | succ permits =>
      unfold retireFrom at h
      split at h
      · rename_i inside
        obtain ⟨middle, step, h⟩ := bind_ok.mp h
        obtain ⟨rest, done⟩ := ih h (by omega)
        exact ⟨rest.cons inside step, done⟩
      · rename_i outside
        cases h
        exact ⟨.refl _ _, fun _ => Nat.le_of_not_lt outside⟩

/-- The reason a retirement acts on: exhausted connections come first. -/
def ending (queries : Queries config n lanes) (reason : Retirement) : Retirement :=
  match queries.inner.registry.streamFailure with
  | some cause => .fail cause
  | none => reason

end Queries

end Dope.Dns.Storage
