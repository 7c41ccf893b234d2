import Dope.Dns.Storage.Courses

/-! # What a call leaves of the attempts

A call that does not start a lane leaves the query of the lane where it is, or
ends it; every attempt that a branch holds afterwards comes from the one that
the branch held before.
-/

namespace Dope.Dns.Storage

open Index Run Function

variable {config : Config} {n lanes : Nat} {R : Nat → Attempt config → Attempt config → Prop}

/-! ## Slots -/

/-- The attempt of a branch comes from the one that the branch held before. -/
structure Query.Moves (R : Nat → Attempt config → Attempt config → Prop)
    (family : Family.Version) (before after : Query config n) : Prop where
  hard : after.hardDeadline = before.hardDeadline
  branch : ∀ attempt', (after.branches family).attempt = some attempt' →
    ∃ attempt, (before.branches family).attempt = some attempt ∧
      R before.hardDeadline attempt attempt'

/-- A query is not begun, and the one that stays moves. -/
structure Slot.Moves (R : Nat → Attempt config → Attempt config → Prop)
    (family : Family.Version) (before after : Slot config n) : Prop where
  query : ∀ query', after = .query query' →
    ∃ query, before = .query query ∧ query.Moves R family query'

/-- An attempt stays as it is. -/
def Stays : Nat → Attempt config → Attempt config → Prop := fun _ before after => after = before

variable {branch : Branch config n} {query : Query config n}

section
variable {family : Family.Version}

namespace Query.Moves

variable {first second third : Query config n}

theorem refl (query : Query config n) : query.Moves Stays family query :=
  ⟨rfl, fun attempt held => ⟨attempt, held, rfl⟩⟩

theorem stays_trans (earlier : first.Moves Stays family second)
    (later : second.Moves R family third) : first.Moves R family third := by
  refine ⟨later.hard.trans earlier.hard, ?_⟩
  intro attempt'' held
  obtain ⟨attempt', held, next⟩ := later.branch attempt'' held
  obtain ⟨attempt, held, rfl⟩ := earlier.branch attempt' held
  rw [earlier.hard] at next
  exact ⟨_, held, next⟩

theorem trans_stays (earlier : first.Moves R family second)
    (later : second.Moves Stays family third) : first.Moves R family third := by
  refine ⟨later.hard.trans earlier.hard, ?_⟩
  intro attempt'' held
  obtain ⟨attempt', held, rfl⟩ := later.branch attempt'' held
  exact earlier.branch _ held

theorem of_stays (refl : ∀ hard attempt, R hard attempt attempt)
    (moves : first.Moves Stays family second) : first.Moves R family second := by
  refine ⟨moves.hard, ?_⟩
  intro attempt' held
  obtain ⟨attempt, held, rfl⟩ := moves.branch attempt' held
  exact ⟨_, held, refl _ _⟩

theorem slot (moves : first.Moves R family second) :
    Slot.Moves R family (.query first) (.query second) := by
  constructor
  intro query same
  cases same
  exact ⟨first, rfl, moves⟩

end Query.Moves

namespace Slot.Moves

variable {first second third : Slot config n}

theorem refl (slot : Slot config n) : Slot.Moves Stays family slot slot :=
  ⟨fun query same => ⟨query, same, .refl query⟩⟩

theorem idle (before : Slot config n) (completion : Option (Ready n)) :
    Slot.Moves R family before (.idle completion) :=
  ⟨fun _ same => by simp at same⟩

theorem stays_trans (earlier : Slot.Moves Stays family first second)
    (later : Slot.Moves R family second third) : Slot.Moves R family first third := by
  constructor
  intro query'' same
  obtain ⟨query', same, next⟩ := later.query query'' same
  obtain ⟨query, same, first⟩ := earlier.query query' same
  exact ⟨query, same, first.stays_trans next⟩

theorem trans_stays (earlier : Slot.Moves R family first second)
    (later : Slot.Moves Stays family second third) : Slot.Moves R family first third := by
  constructor
  intro query'' same
  obtain ⟨query', same, next⟩ := later.query query'' same
  obtain ⟨query, same, first⟩ := earlier.query query' same
  exact ⟨query, same, first.trans_stays next⟩

theorem of_stays (refl : ∀ hard attempt, R hard attempt attempt)
    (moves : Slot.Moves Stays family first second) : Slot.Moves R family first second := by
  constructor
  intro query' same
  obtain ⟨query, same, moves⟩ := moves.query query' same
  exact ⟨query, same, moves.of_stays refl⟩

end Slot.Moves

/-- A branch is replaced by what comes of its attempt. -/
theorem Query.set_moves
    (row : ∀ attempt', branch.attempt = some attempt' → ∃ attempt, (query.branches family).attempt
      = some attempt ∧ R query.hardDeadline attempt attempt') :
    query.Moves R family (query.set family branch) := by
  refine ⟨rfl, ?_⟩
  intro attempt' held
  apply row
  simpa [set] using held

theorem Query.set_stays (query : Query config n) {other : Family.Version} (apart : family ≠ other)
    (branch : Branch config n) : query.Moves Stays family (query.set other branch) := by
  refine ⟨rfl, ?_⟩
  intro attempt' held
  refine ⟨attempt', ?_, rfl⟩
  simpa [set, apart] using held

theorem Query.set_quiet_stays (query : Query config n) (other : Family.Version)
    (quiet : branch.Quiet) : query.Moves Stays family (query.set other branch) := by
  by_cases same : family = other
  · subst same
    apply set_moves
    intro attempt' held
    rw [show branch.attempt = none from quiet] at held
    simp at held
  · exact set_stays query same branch

theorem Slot.complete_stays (slot : Slot config n) (now : Nat) :
    Slot.Moves Stays family slot (slot.complete now) := by
  unfold complete
  split
  · exact .refl _
  · split
    · exact .refl _
    · exact .idle _ _

theorem Slot.answer_stays (slot : Slot config n) : Slot.Moves Stays family slot slot.answer.2 := by
  unfold answer
  split
  · exact .refl _
  · exact .idle _ _
  · exact .idle _ _

end

/-! ## Ledgers -/

variable {attempt : Attempt config} {lane : Fin lanes}

namespace Ledger

/-- A branch of the ledger moves. -/
def Moves (R : Nat → Attempt config → Attempt config → Prop) (place : Place lanes)
    (before after : Ledger config n lanes) : Prop :=
  Slot.Moves R place.2 (before.slots place.1) (after.slots place.1)

variable {ledger ledger' : Ledger config n lanes} {place other : Place lanes}

/-- The attempt of a branch is taken out of its row. -/
structure Takes (ledger : Ledger config n lanes) (place : Place lanes) (query : Query config n)
    (attempt : Attempt config) (after : Ledger config n lanes) : Prop where
  here : ledger.slots place.1 = .query query
  row : (query.branches place.2).attempt = some attempt
  slots : after.slots = update ledger.slots place.1 (.query (query.set place.2 .empty))

theorem accept_takes {α : Type} {filter : Filter}
    {decode : Request config → Tx.Lease → Option α} {active : Active config n lanes}
    {decoded : α} (h : ledger.accept place filter decode = .ok (some (active, decoded))) :
    ∃ query lease, ledger.Takes active.place query active.attempt active.ledger ∧
      active.hard = query.hardDeadline ∧ active.place = place ∧
      decode active.attempt.request lease = some decoded := by
  rcases accept_cases ledger place filter decode with none | ⟨query, attempt, transaction,
    value, here, row, -, read, ran⟩
  · rw [none] at h
    simp at h
  · rw [ran] at h
    cases h
    refine ⟨query, transaction, ⟨here, by rw [row]; rfl, ?_⟩, rfl, rfl, read⟩
    rw [put_query here]
    exact setSlot_slots ..

theorem claim_takes {filter : Filter} {active : Active config n lanes}
    (h : ledger.claim place filter = .ok (some active)) :
    ∃ query, ledger.Takes active.place query active.attempt active.ledger ∧
      active.hard = query.hardDeadline ∧ active.place = place := by
  unfold claim at h
  obtain ⟨accepted, ran, h⟩ := bind_ok.mp h
  cases accepted with
  | none => simp at h
  | some entry =>
    cases h
    obtain ⟨query, lease, takes, hard, same, -⟩ := accept_takes ran
    exact ⟨query, takes, hard, same⟩

theorem Takes.put (takes : ledger.Takes place query attempt ledger') (registry : Registry lanes)
    (branch : Branch config n) :
    (ledger'.put place registry branch).slots =
      update ledger.slots place.1 (.query (query.set place.2 branch)) := by
  have emptied : ledger'.slots place.1 = .query (query.set place.2 .empty) := by
    rw [takes.slots, update_self]
  rw [put_query emptied]
  dsimp only
  rw [setSlot_slots, takes.slots, update_idem, Query.set_set]

theorem Moves.of_slots (same : ledger'.slots = ledger.slots) :
    Moves Stays place ledger ledger' := by
  unfold Moves
  rw [same]
  exact .refl _

theorem Moves.refl (ledger : Ledger config n lanes) : Moves Stays place ledger ledger :=
  .of_slots rfl

theorem Moves.stays_trans {first second third : Ledger config n lanes}
    (earlier : Moves Stays place first second) (later : Moves R place second third) :
    Moves R place first third :=
  Slot.Moves.stays_trans earlier later

theorem Moves.trans_stays {first second third : Ledger config n lanes}
    (earlier : Moves R place first second) (later : Moves Stays place second third) :
    Moves R place first third :=
  Slot.Moves.trans_stays earlier later

theorem Moves.of_stays (refl : ∀ hard attempt, R hard attempt attempt)
    (moves : Moves Stays place ledger ledger') : Moves R place ledger ledger' :=
  Slot.Moves.of_stays refl moves

theorem Moves.still (ledger : Ledger config n lanes) : Moves Goes place ledger ledger :=
  (refl ledger).of_stays Goes.refl

theorem Moves.of_update {slot : Slot config n}
    (slots : ledger'.slots = update ledger.slots lane slot)
    (moves : place.1 = lane → Slot.Moves Stays place.2 (ledger.slots lane) slot) :
    Moves Stays place ledger ledger' := by
  unfold Moves
  rw [slots]
  by_cases same : place.1 = lane
  · rw [same, update_self]
    exact moves same
  · rw [update_of_ne same]
    exact .refl _

theorem complete_stays (ledger : Ledger config n lanes) (lane : Fin lanes) (now : Nat) :
    Moves Stays place ledger (ledger.complete lane now) :=
  .of_update (setSlot_slots ..) fun _ => Slot.complete_stays _ now

section

variable (takes : ledger.Takes place query attempt ledger') (registry : Registry lanes)

include takes registry

/-- The branch is written back with what comes of its attempt. -/
theorem Takes.put_moves (leaves : Leaves (R query.hardDeadline) attempt branch) :
    Moves R place ledger (ledger'.put place registry branch) := by
  unfold Moves
  rw [takes.put, update_self, takes.here]
  apply Query.Moves.slot
  apply Query.set_moves
  intro attempt' held
  exact ⟨attempt, takes.row, leaves attempt' held⟩

theorem Takes.put_stays (branch : Branch config n) (apart : other ≠ place) :
    Moves Stays other ledger (ledger'.put place registry branch) := by
  apply Moves.of_update (takes.put registry branch)
  intro lane
  rw [takes.here]
  have family : other.2 ≠ place.2 := fun same => apart (Prod.ext lane same)
  exact (Query.set_stays query family branch).slot

theorem Takes.put_all (refl : ∀ hard attempt, R hard attempt attempt)
    (leaves : Leaves (R query.hardDeadline) attempt branch) :
    Moves R other ledger (ledger'.put place registry branch) := by
  by_cases same : other = place
  · subst same
    exact takes.put_moves registry leaves
  · exact (takes.put_stays registry branch same).of_stays refl

end

theorem retireLane_stays (h : ledger.retireLane lane = .ok ledger') :
    Moves Stays place ledger ledger' := by
  unfold retireLane at h
  obtain ⟨⟨slot, registry⟩, retired, h⟩ := bind_ok.mp h
  cases h
  apply Moves.of_update (setSlot_slots ..)
  intro _
  unfold Slot.retire at retired
  split at retired
  · cases retired
    exact .idle _ _
  · obtain ⟨⟨query, registry⟩, -, retired⟩ := bind_ok.mp retired
    cases retired
    exact .idle _ _

end Ledger

/-! ## Settling an attempt in hand -/

namespace Active

variable {active : Active config n lanes} {ledger ledger' : Ledger config n lanes}
  {query : Query config n} {other : Place lanes}
  {step : Registry lanes → Place lanes → Except Fault (Registry lanes × Branch config n)}

section

variable (takes : ledger.Takes active.place query active.attempt active.ledger)

include takes

theorem close_moves (h : active.close step = .ok ledger')
    (leaves : ∀ {registry branch}, step active.ledger.registry active.place = .ok (registry,
      branch) → Leaves (R query.hardDeadline) active.attempt branch) :
    Ledger.Moves R active.place ledger ledger' := by
  unfold close at h
  obtain ⟨⟨registry, branch⟩, ran, h⟩ := bind_ok.mp h
  cases h
  exact takes.put_moves registry (leaves ran)

theorem close_stays (h : active.close step = .ok ledger') (apart : other ≠ active.place) :
    Ledger.Moves Stays other ledger ledger' := by
  unfold close at h
  obtain ⟨⟨registry, branch⟩, -, h⟩ := bind_ok.mp h
  cases h
  exact takes.put_stays registry branch apart

theorem drop_stays (h : active.drop = .ok ledger') : Ledger.Moves Stays other ledger ledger' := by
  by_cases same : other = active.place
  · subst same
    apply close_moves takes h
    intro registry branch ran
    cases ran
    exact .pending rfl
  · exact close_stays takes h same

end

end Active

/-! ## Polling -/

variable {cause : Error.Kind}

section
variable {lane : Fin lanes} {query query' : Query config n} {families : List Family.Version}
  {family : Family.Version} {registry registry' : Registry lanes} {now : Nat}

theorem Query.failStreams_stays
    (h : query.failStreams cause lane families registry = .ok (query', registry')) :
    query.Moves Stays family query' := by
  induction families generalizing query registry with
  | nil =>
    cases h
    exact .refl _
  | cons other rest ih =>
    unfold failStreams at h
    split at h
    · obtain ⟨retired, -, h⟩ := bind_ok.mp h
      have quiet : (.failed cause : Branch config n).Quiet := rfl
      exact (set_quiet_stays query other quiet).stays_trans (ih h)
    · exact ih h

theorem Query.failStopped_stays (h : query.failStopped lane registry = .ok (query', registry')) :
    query.Moves Stays family query' := by
  unfold failStopped at h
  split at h
  · cases h
    exact .refl query
  · exact failStreams_stays h

/-- A branch is left alone before its deadline, and its attempt is retried after. -/
theorem Query.expireRow_goes {branch' : Branch config n} {hard : Nat} {place : Place lanes}
    (h : expireRow branch now hard registry place = .ok (registry', branch')) :
    ∀ attempt', branch'.attempt = some attempt' →
      ∃ attempt, branch.attempt = some attempt ∧ Goes hard attempt attempt' := by
  intro attempt' held
  unfold expireRow at h
  split at h
  · cases h
    exact ⟨attempt', held, .refl hard attempt'⟩
  · split at h
    · cases h
      exact ⟨attempt', held, .refl hard attempt'⟩
    · split at h
      · exact ⟨_, rfl, Attempt.retry_goes h attempt' held⟩
      · exact ⟨_, rfl, Attempt.retry_goes h attempt' held⟩
      · cases h
        exact ⟨attempt', held, .refl hard attempt'⟩

theorem Query.expireRows_moves (once : families.Nodup)
    (h : query.expireRows now lane families registry = .ok (query', registry')) :
    (family ∉ families → query.Moves Stays family query') ∧ query.Moves Goes family query' := by
  induction families generalizing query registry with
  | nil =>
    cases h
    exact ⟨fun _ => .refl _, (Moves.refl _).of_stays Goes.refl⟩
  | cons other rest ih =>
    unfold expireRows at h
    obtain ⟨⟨registry', branch⟩, ran, h⟩ := bind_ok.mp h
    obtain ⟨absent, moves⟩ := ih (List.nodup_cons.mp once).2 h
    by_cases same : family = other
    · subst same
      refine ⟨fun outside => absurd List.mem_cons_self outside, ?_⟩
      have first : query.Moves Goes family (query.set family branch) :=
        set_moves (expireRow_goes ran)
      exact first.trans_stays (absent (List.nodup_cons.mp once).1)
    · have first := set_stays query same branch
      refine ⟨?_, first.stays_trans moves⟩
      intro outside
      exact first.stays_trans (absent fun inside => outside (List.mem_cons_of_mem _ inside))

theorem Ledger.pollLane_moves {ledger ledger' : Ledger config n lanes} {place : Place lanes}
    {answer : Poll n} (h : ledger.pollLane lane now = .ok (answer, ledger')) :
    Moves Goes place ledger ledger' := by
  unfold pollLane at h
  obtain ⟨⟨shown, slot, registry⟩, polled, h⟩ := bind_ok.mp h
  cases h
  unfold Moves
  dsimp only
  rw [setSlot_slots]
  by_cases here : place.1 = lane
  · rw [here, update_self]
    unfold Slot.poll at polled
    split at polled
    · cases polled
      exact (Slot.answer_stays _).of_stays Goes.refl
    · rename_i current same
      obtain ⟨⟨failed, registry'⟩, stopped, polled⟩ := bind_ok.mp polled
      obtain ⟨⟨expired, registry''⟩, timed, polled⟩ := bind_ok.mp polled
      cases polled
      rw [same]
      have begun : current.Moves Stays place.2 failed := Query.failStopped_stays stopped
      have moves : current.Moves Goes place.2 expired :=
        begun.stays_trans (Query.expireRows_moves (by decide) timed).2
      exact (moves.slot.trans_stays (Slot.complete_stays _ now)).trans_stays
        (Slot.answer_stays _)
  · rw [update_of_ne here]
    exact (Slot.Moves.refl _).of_stays Goes.refl

end

/-! ## Starting -/

namespace Claim

variable {claim : Claim config n lanes} {ledger : Ledger config n lanes} {place : Place lanes}

theorem take_stays {picker : Picker (Place lanes)} {plane : Plane}
    (h : take picker ledger plane = some claim) : Ledger.Moves Stays place ledger claim.ledger := by
  unfold take at h
  split at h
  · simp at h
  · cases h
    exact .of_slots rfl

/-- A claim that is not ready leaves the branch, and a ready one takes its attempt. -/
theorem ready_stays {now : Nat} {answer : Ledger config n lanes ⊕ Ready config n lanes}
    (h : claim.ready now = .ok answer) :
    (∃ ledger, answer = .inl ledger ∧ Ledger.Moves Stays place claim.ledger ledger) ∨
      ∃ ready query, answer = .inr ready ∧
        claim.ledger.Takes ready.claim.place query ready.attempt ready.claim.ledger := by
  unfold ready at h
  split at h
  · cases h
    exact .inl ⟨_, rfl, .refl _⟩
  · rename_i query here
    split at h
    · rename_i attempt row
      split at h
      · cases h
        exact .inl ⟨_, rfl, .of_slots rfl⟩
      · cases h
        refine .inr ⟨_, query, rfl, here, by rw [row]; rfl, ?_⟩
        dsimp only
        rw [Ledger.put_query here]
        exact Ledger.setSlot_slots ..
    · cases h
      exact .inl ⟨_, rfl, .refl _⟩

variable {ready : Ready config n lanes} {query : Query config n}
  (takes : ledger.Takes ready.claim.place query ready.attempt ready.claim.ledger)
  (ids : Tx.Table (Place lanes))
include takes

theorem commit_stays (lease : Tx.Lease) : Ledger.Moves Stays place ledger (ready.commit ids lease) := by
  apply takes.put_all (R := Stays) _ fun _ _ => rfl
  intro after same
  cases same
  rfl

theorem restore_stays : Ledger.Moves Stays place ledger (ready.restore ids) := by
  have written : Ledger.Moves Stays place ledger
      (ready.write ids (.pending ready.attempt)).ledger :=
    takes.put_all (R := Stays) _ (fun _ _ => rfl) (.pending rfl)
  exact written.trans_stays (.of_slots rfl)

theorem fail_stays {answer : Fin lanes × Ledger config n lanes}
    (h : ready.fail ids cause = .ok answer) : Ledger.Moves Stays place ledger answer.2 := by
  unfold Ready.fail at h
  obtain ⟨live, -, h⟩ := bind_ok.mp h
  cases h
  exact takes.put_all (R := Stays) _ (fun _ _ => rfl) (.quiet rfl)

end Claim

variable {id : Tx.Id} {now : Nat}

section
variable {place : Place lanes}

theorem Finish.apply_stays {α : Type} (finish : Finish α lanes) (ledger : Ledger config n lanes)
    (now : Nat) : Ledger.Moves Stays place ledger (finish.apply ledger now).2 := by
  cases finish with
  | done value => exact .refl ledger
  | complete value lane => exact Ledger.complete_stays ledger lane now

open Claim in
theorem Udp.start_stays {pick : Tx.Id → Picker Tx.Id} {claim : Claim config n lanes}
    {random : Tx.Random} {submit : Submission}
    {answer : Finish Submission lanes × Ledger config n lanes}
    (h : Udp.start pick claim now random submit = .ok answer) :
    Ledger.Moves Stays place claim.ledger answer.2 := by
  unfold Udp.start at h
  obtain ⟨taken, ran, h⟩ := bind_ok.mp h
  rcases @ready_stays _ _ _ claim place _ _ ran with ⟨ledger, rfl, moves⟩ | ⟨ready, query, rfl, takes⟩
  · cases h
    exact moves
  · dsimp only at h
    split at h
    · obtain ⟨failed, ran, h⟩ := bind_ok.mp h
      cases h
      exact fail_stays takes _ ran
    · split at h
      · cases h
        exact commit_stays takes _ _
      · cases h
        exact restore_stays takes _
      · obtain ⟨failed, ran, h⟩ := bind_ok.mp h
        cases h
        exact fail_stays takes _ ran

open Claim in
theorem Tcp.submit_stays {claim : Claim config n lanes} {submit : Stream.Frame → Stream.Admission}
    {answer : Finish Stream.Submission lanes × Ledger config n lanes}
    (h : Tcp.submit claim now id submit = .ok answer) :
    Ledger.Moves Stays place claim.ledger answer.2 := by
  unfold Tcp.submit at h
  obtain ⟨taken, ran, h⟩ := bind_ok.mp h
  rcases @ready_stays _ _ _ claim place _ _ ran with ⟨ledger, rfl, moves⟩ | ⟨ready, query, rfl, takes⟩
  · cases h
    exact moves
  · dsimp only at h
    split at h
    · obtain ⟨failed, ran, h⟩ := bind_ok.mp h
      cases h
      exact fail_stays takes _ ran
    · split at h
      · cases h
        exact commit_stays takes _ _
      · cases h
        exact restore_stays takes _
      · cases h
        exact restore_stays takes _
      · obtain ⟨failed, ran, h⟩ := bind_ok.mp h
        cases h
        exact fail_stays takes _ ran
      · obtain ⟨failed, ran, h⟩ := bind_ok.mp h
        cases h
        exact fail_stays takes _ ran

end

variable {server : Tx.Server} {permits : Nat}

namespace Queries

variable {queries next : Queries config n lanes} {place : Place lanes}

theorem admitUdp_stays {pickBranch : Picker (Place lanes)} {pickId : Tx.Id → Picker Tx.Id}
    {permit : Bool} {random : Tx.Random} {submit : Submission} {admission : Admission}
    (h : queries.admitUdp pickBranch pickId now permit random submit = .ok (admission, next)) :
    Ledger.Moves Stays place queries.inner next.inner := by
  unfold admitUdp at h
  split at h
  · cases h
    exact .refl _
  · rename_i claim taken
    have begun : Ledger.Moves Stays place queries.inner claim.ledger := Claim.take_stays taken
    split at h
    · cases h
      exact begun.stays_trans (.of_slots rfl)
    · obtain ⟨⟨finish, inner⟩, started, h⟩ := bind_ok.mp h
      cases h
      exact (begun.stays_trans (Udp.start_stays started)).stays_trans
        (Finish.apply_stays finish inner now)

theorem submit_stays {pickBranch : Picker (Place lanes)} {frame : Stream.Frame → Stream.Admission}
    {submission : Stream.Submission}
    (h : queries.submit pickBranch now server id frame = .ok (submission, next)) :
    Ledger.Moves Stays place queries.inner next.inner := by
  unfold submit at h
  split at h
  · cases h
    exact .refl _
  · split at h
    · cases h
      exact .refl _
    · rename_i claim taken
      have begun : Ledger.Moves Stays place queries.inner claim.ledger := Claim.take_stays taken
      obtain ⟨⟨finish, inner⟩, started, h⟩ := bind_ok.mp h
      cases h
      exact (begun.stays_trans (Tcp.submit_stays started)).stays_trans
        (Finish.apply_stays finish inner now)

/-! ## Lanes -/

theorem cleanup_stays {picker : Picker (Fin lanes)} {finished : Bool}
    (h : cleanup picker permits queries = .ok (finished, next)) :
    Ledger.Moves Stays place queries.inner next.inner := by
  induction permits generalizing queries with
  | zero =>
    unfold cleanup at h
    split at h
    · cases h
      exact .refl _
    · cases h
      exact .refl _
  | succ permits ih =>
    unfold cleanup at h
    split at h
    · cases h
      exact .refl _
    · obtain ⟨inner, retired, h⟩ := bind_ok.mp h
      have moved := ih h
      exact (Ledger.retireLane_stays retired).stays_trans moved

theorem claim_stays {picker : Picker (Fin lanes)} {lane : Option (Fin lanes)}
    (h : claim picker queries = .ok (lane, next)) :
    Ledger.Moves Stays place queries.inner next.inner := by
  unfold claim at h
  split at h
  · cases h
    exact .refl _
  · split at h
    · cases h
      exact .refl _
    · obtain ⟨inner, retired, h⟩ := bind_ok.mp h
      cases h
      exact Ledger.retireLane_stays retired

theorem undoStream_stays (h : queries.undoStream id = .ok next) :
    Ledger.Moves Stays place queries.inner next.inner := by
  rcases undoStream_cases h with rfl | ⟨_, active, inner, ran, dropped, rfl⟩
  · exact .refl _
  · obtain ⟨query, takes, -, -⟩ := Ledger.claim_takes ran
    exact Active.drop_stays takes dropped

end Queries

/-! ## Failing and receiving -/

namespace Active

variable {active : Active config n lanes} {ledger ledger' : Ledger config n lanes}
  {query : Query config n} {now : Nat}
  (takes : ledger.Takes active.place query active.attempt active.ledger)
include takes

theorem failed_moves (hard : active.hard = query.hardDeadline)
    (h : active.failed now cause = .ok ledger') :
    Ledger.Moves Goes active.place ledger ledger' := by
  apply close_moves takes h
  intro registry branch ran
  rw [← hard]
  exact Attempt.retry_goes ran

theorem apply_moves (hard : active.hard = query.hardDeadline) {reply : Reply n}
    (proper : reply.Proper) (h : active.apply reply now = .ok ledger') :
    Ledger.Moves Goes active.place ledger ledger' := by
  apply close_moves takes h
  intro registry branch ran
  rw [← hard]
  exact Attempt.apply_goes proper ran

theorem stream_moves (h : active.stream = .ok ledger') :
    Ledger.Moves Goes active.place ledger ledger' := by
  apply close_moves takes h
  intro registry branch ran
  exact (Attempt.stream_rebinds ran).mono fun _ => .rebinds

theorem cookie_moves (h : active.cookie = .ok ledger') :
    Ledger.Moves Goes active.place ledger ledger' := by
  apply close_moves takes h
  intro registry branch ran
  exact (Attempt.cookie_rebinds ran).mono fun _ => .rebinds

theorem cache_takes (cookie : Tx.Cookie) (server : Tx.Server) (value : Wire.Cookies.Server) :
    ledger.Takes (active.cache cookie server value).2.place query
      (active.cache cookie server value).2.attempt (active.cache cookie server value).2.ledger :=
  ⟨takes.here, takes.row, takes.slots⟩

end Active

variable {answer : RetireStream × Nat} {reason : Retirement} {ordinal : Nat}

namespace Queries

variable {queries next : Queries config n lanes} {active : Active config n lanes}
  {ledger ledger' : Ledger config n lanes} {query : Query config n} {place : Place lanes}
  {now : Nat}

section
variable (takes : ledger.Takes active.place query active.attempt active.ledger)
include takes

theorem settle_moves (hard : active.hard = query.hardDeadline)
    (h : reason.settle active now = .ok ledger') :
    Ledger.Moves Goes active.place ledger ledger' := by
  unfold Retirement.settle at h
  split at h
  · exact (Active.drop_stays takes h).of_stays Goes.refl
  · split at h
    · exact Active.failed_moves takes hard h
    · exact (Active.drop_stays takes h).of_stays Goes.refl
  · exact Active.failed_moves takes hard h

theorem settle_stays (h : reason.settle active now = .ok ledger') (apart : place ≠ active.place) :
    Ledger.Moves Stays place ledger ledger' := by
  unfold Retirement.settle at h
  split at h
  · exact Active.close_stays takes h apart
  · split at h
    · exact Active.close_stays takes h apart
    · exact Active.close_stays takes h apart
  · exact Active.close_stays takes h apart

theorem settleUdp_moves (hard : active.hard = query.hardDeadline) {data : Wire.Datagram n}
    {cookie : Tx.Cookie} (proper : ∀ reply value, data = .authenticated reply value → reply.Proper)
    (h : settleUdp active data cookie server now = .ok ledger') :
    Ledger.Moves Goes active.place ledger ledger' := by
  unfold settleUdp at h
  cases data with
  | authenticated reply value =>
    have cached := Active.cache_takes takes cookie server value
    have moved := Active.apply_moves cached hard (proper reply value rfl) h
    exact moved
  | badCookie value =>
    have cached := Active.cache_takes takes cookie server value
    have same : (active.cache cookie server value).2.place = active.place := rfl
    dsimp only at h
    generalize active.cache cookie server value = answer at h cached same
    rcases answer with ⟨stored, after⟩
    dsimp only at cached same
    rw [← same]
    cases stored with
    | true => exact Active.cookie_moves cached h
    | false => exact Active.stream_moves cached h
  | streamRequired => exact Active.stream_moves takes h

theorem settleUdp_stays {data : Wire.Datagram n} {cookie : Tx.Cookie}
    (h : settleUdp active data cookie server now = .ok ledger') (apart : place ≠ active.place) :
    Ledger.Moves Stays place ledger ledger' := by
  unfold settleUdp at h
  cases data with
  | authenticated reply value =>
    exact Active.close_stays (Active.cache_takes takes cookie server value) h apart
  | badCookie value =>
    have cached := Active.cache_takes takes cookie server value
    have same : (active.cache cookie server value).2.place = active.place := rfl
    dsimp only at h
    generalize active.cache cookie server value = answer at h cached same
    rcases answer with ⟨stored, after⟩
    dsimp only at cached same
    rw [← same] at apart
    cases stored with
    | true | false => exact Active.close_stays cached h apart
  | streamRequired => exact Active.close_stays takes h apart

end

/-- A branch that is settled moves and the others stay, also when the query then
completes. -/
theorem settled_moves {target : Place lanes} (moves : Ledger.Moves Goes target ledger ledger')
    (stays : place ≠ target → Ledger.Moves Stays place ledger ledger') (lane : Fin lanes) :
    Ledger.Moves Goes place ledger (ledger'.complete lane now) := by
  by_cases same : place = target
  · subst same
    exact moves.trans_stays (Ledger.complete_stays ledger' lane now)
  · exact ((stays same).stays_trans (Ledger.complete_stays ledger' lane now)).of_stays Goes.refl

theorem failUdp_moves {epoch : Tx.Epoch} {server : SocketAddr}
    (h : queries.failUdp id epoch server cause now = .ok next) :
    Ledger.Moves Goes place queries.inner next.inner := by
  rcases failUdp_cases h with rfl | ⟨_, active, inner, ran, failed, rfl⟩
  · exact .still _
  · obtain ⟨query, takes, hard, -⟩ := Ledger.claim_takes ran
    exact settled_moves (Active.failed_moves takes hard failed) (Active.close_stays takes failed) _

theorem receiveUdp_moves {source : SocketAddr} {bytes : Bytes}
    (h : queries.receiveUdp source bytes now = .ok next) :
    Ledger.Moves Goes place queries.inner next.inner := by
  rcases receiveUdp_cases h with
    rfl | ⟨_, _, active, data, _, _, inner, -, -, ran, settled, rfl⟩
  · exact .still _
  · obtain ⟨query, lease, takes, hard, -, read⟩ := Ledger.accept_takes ran
    have proper : ∀ reply value, data = .authenticated reply value → reply.Proper := by
      rintro reply value rfl
      unfold readUdp at read
      split at read
      · simp at read
      · split at read
        · simp at read
        · split at read
          · simp at read
          · rename_i decoded
            cases read
            exact Wire.Decoder.udp_proper decoded
    exact settled_moves (settleUdp_moves takes hard proper settled)
      (settleUdp_stays takes settled) _

theorem receiveStream_moves {message : Wire.Decoder}
    (h : queries.receiveStream server message now = .ok next) :
    Ledger.Moves Goes place queries.inner next.inner := by
  rcases receiveStream_cases h with rfl | ⟨_, active, decoded, inner, ran, settled, rfl⟩
  · exact .still _
  · obtain ⟨query, lease, takes, hard, -, read⟩ := Ledger.accept_takes ran
    unfold settleStream at settled
    cases decoded with
    | error error =>
      exact settled_moves (Active.failed_moves takes hard settled)
        (Active.close_stays takes settled) _
    | ok reply =>
      have proper : reply.Proper := by
        unfold readStream at read
        split at read
        · simp at read
        · split at read
          · simp at read
          · exact Wire.Decoder.decode_proper (Option.some.inj read)
      exact settled_moves (Active.apply_moves takes hard proper settled)
        (Active.close_stays takes settled) _

/-! ## Retiring -/

/-- The sweep settles each branch once, and none before its ordinal. -/
theorem retireFrom_moves {left : Nat}
    (h : retireFrom server reason now left permits ordinal queries = .ok (answer, next)) :
    (Place.ordinal place < ordinal → Ledger.Moves Stays place queries.inner next.inner) ∧
      Ledger.Moves Goes place queries.inner next.inner := by
  have unchanged : ∀ queries : Queries config n lanes,
      (Place.ordinal place < ordinal → Ledger.Moves Stays place queries.inner queries.inner) ∧
        Ledger.Moves Goes place queries.inner queries.inner :=
    fun _ => ⟨fun _ => .refl _, Ledger.Moves.still _⟩
  induction left generalizing permits ordinal queries with
  | zero =>
    cases h
    exact unchanged _
  | succ left ih =>
    cases permits with
    | zero =>
      cases h
      exact unchanged _
    | succ permits =>
      unfold retireFrom at h
      split at h
      · rename_i inside
        obtain ⟨after, retired, h⟩ := bind_ok.mp h
        obtain ⟨before, moves⟩ := ih h
          fun _ => ⟨fun _ => .refl _, Ledger.Moves.still _⟩
        have here := ordinal_placeAt inside
        have kept : after.inner = queries.inner →
            (Place.ordinal place < ordinal →
              Ledger.Moves Stays place queries.inner next.inner) ∧
            Ledger.Moves Goes place queries.inner next.inner := by
          intro same
          rw [same] at before moves
          exact ⟨fun earlier => before (by omega), moves⟩
        unfold retireBranch at retired
        split at retired
        · cases retired
          exact kept rfl
        · obtain ⟨claimed, ran, retired⟩ := bind_ok.mp retired
          cases claimed with
          | none =>
            cases retired
            exact kept rfl
          | some active =>
            obtain ⟨query, takes, hard, same⟩ := Ledger.claim_takes ran
            obtain ⟨inner, settled, retired⟩ := bind_ok.mp retired
            cases retired
            by_cases mine : place = active.place
            · have settles := (settle_moves takes hard settled).trans_stays
                (Ledger.complete_stays inner (placeAt ordinal inside).1 now)
              rw [← mine] at settles
              rw [← mine] at same
              rw [← same] at here
              refine ⟨fun earlier => ?_, settles.trans_stays (before (by omega))⟩
              omega
            · have stays := (settle_stays takes settled mine).stays_trans
                (Ledger.complete_stays inner (placeAt ordinal inside).1 now)
              refine ⟨fun earlier => ?_, stays.stays_trans moves⟩
              exact stays.stays_trans (before (by omega))
      · cases h
        exact unchanged _

/-- A resumed retirement leaves every attempt as it is. -/
theorem retireFrom_stays {left : Nat}
    (h : retireFrom server .resume now left permits ordinal queries = .ok (answer, next)) :
    Ledger.Moves Stays place queries.inner next.inner := by
  induction left generalizing permits ordinal queries with
  | zero =>
    cases h
    exact .refl _
  | succ left ih =>
    cases permits with
    | zero =>
      cases h
      exact .refl _
    | succ permits =>
      unfold retireFrom at h
      split at h
      · obtain ⟨after, retired, h⟩ := bind_ok.mp h
        have rest := ih h
        unfold retireBranch at retired
        split at retired
        · cases retired
          exact rest
        · obtain ⟨claimed, ran, retired⟩ := bind_ok.mp retired
          cases claimed with
          | none =>
            cases retired
            exact rest
          | some active =>
            obtain ⟨query, takes, -, -⟩ := Ledger.claim_takes ran
            obtain ⟨inner, dropped, retired⟩ := bind_ok.mp retired
            cases retired
            exact ((Active.drop_stays takes dropped).stays_trans
              (Ledger.complete_stays inner _ now)).stays_trans rest
      · cases h
        exact .refl _

theorem retire_stays (running : queries.inner.registry.streamFailure = none)
    (h : queries.retire server .resume now permits ordinal = .ok (answer, next)) :
    Ledger.Moves Stays place queries.inner next.inner := by
  unfold retire at h
  dsimp only at h
  split at h
  · cases h
    exact .refl _
  · rw [running] at h
    exact retireFrom_stays h

theorem retire_moves (h : queries.retire server reason now permits ordinal = .ok (answer, next)) :
    Ledger.Moves Goes place queries.inner next.inner := by
  unfold retire at h
  dsimp only at h
  split at h
  · cases h
    exact .still _
  · exact (retireFrom_moves h).2

/-! ## Calls -/

/-- A call that starts no lane moves every branch, each at most once. -/
theorem step_moves {pick : Pickers lanes} {call : Call lanes} {response : Response n lanes}
    (h : queries.step pick call = .ok (response, next)) (idle : call.starts = none) :
    Ledger.Moves Goes place queries.inner next.inner := by
  cases call with
  | claim =>
    obtain ⟨answer, ran⟩ := reply_ok h
    exact (claim_stays ran).of_stays Goes.refl
  | dropLane lane =>
    cases h
    exact .still _
  | start lane reason unix name now => simp [Call.starts] at idle
  | poll lane now =>
    obtain ⟨answer, ran⟩ := reply_ok h
    unfold pollLane at ran
    obtain ⟨⟨shown, inner⟩, polled, ran⟩ := bind_ok.mp ran
    cases ran
    exact Ledger.pollLane_moves polled
  | cleanup permits =>
    obtain ⟨answer, ran⟩ := reply_ok h
    exact (cleanup_stays ran).of_stays Goes.refl
  | admitUdp now permit random submit =>
    obtain ⟨answer, ran⟩ := reply_ok h
    exact (admitUdp_stays ran).of_stays Goes.refl
  | submit now server id egress =>
    obtain ⟨answer, ran⟩ := reply_ok h
    exact (submit_stays ran).of_stays Goes.refl
  | receiveUdp source bytes now => exact receiveUdp_moves (replyDone_ok h)
  | receiveStream server frame now =>
    obtain ⟨answer, ran⟩ := reply_ok h
    unfold tryRecv at ran
    split at ran
    · cases ran
      exact .still _
    · obtain ⟨after, received, ran⟩ := bind_ok.mp ran
      cases ran
      exact receiveStream_moves received
  | failUdp id epoch server cause now => exact failUdp_moves (replyDone_ok h)
  | undoStream id => exact (undoStream_stays (replyDone_ok h)).of_stays Goes.refl
  | retire server reason now permits ordinal =>
    obtain ⟨answer, ran⟩ := reply_ok h
    exact retire_moves ran
  | bindUdp =>
    cases h
    exact (Ledger.Moves.of_slots rfl).of_stays Goes.refl
  | exhaustTcp cause =>
    cases h
    exact (Ledger.Moves.of_slots rfl).of_stays Goes.refl

/-- A start puts two pending branches on its lane, for the hard deadline. -/
theorem startLane_query {reason : Lookup.Reason} {unix : Nat} {name : Host.Name}
    (h : queries.startLane lane reason unix name now = .ok (.ok (), next)) :
    ∃ query : Query config n,
      next.inner.slots = update queries.inner.slots lane (.query query) ∧
      query.hardDeadline = now + config.totalTimeout ∧
      ∀ family, query.branches family = .pending (.initial name
        (Retry.deadline config now query.hardDeadline) (.first config)) := by
  unfold startLane at h
  split at h
  · simp at h
  · rename_i hard added
    obtain ⟨rfl, -⟩ := Core.Clock.tryAdd_ok added
    obtain ⟨inner, started, h⟩ := bind_ok.mp h
    cases h
    unfold Ledger.start Slot.start at started
    obtain ⟨⟨slot, registry⟩, begun, started⟩ := bind_ok.mp started
    obtain ⟨retired, -, begun⟩ := bind_ok.mp begun
    cases begun
    cases started
    exact ⟨_, Ledger.setSlot_slots .., rfl, fun _ => rfl⟩

/-- A branch moves through every call that does not start its lane. -/
theorem step_apart_moves {pick : Pickers lanes} {call : Call lanes}
    {response : Response n lanes} (h : queries.step pick call = .ok (response, next))
    (apart : call.starts ≠ some place.1) : Ledger.Moves Goes place queries.inner next.inner := by
  cases started : call.starts with
  | none => exact step_moves h started
  | some other =>
    cases call with
    | start other' reason unix name now =>
      have different : place.1 ≠ other' := by
        intro same
        exact apart (by rw [same]; rfl)
      obtain ⟨result, ran⟩ := reply_ok h
      rcases startLane_slots ran with ⟨-, ⟨rfl, -⟩ | ⟨attempt, query, -, -, slots⟩⟩
      · exact .still _
      · apply Ledger.Moves.of_stays Goes.refl
        apply Ledger.Moves.of_update slots
        intro same
        exact absurd same different
    | _ => simp [Call.starts] at started

end Queries

end Dope.Dns.Storage
