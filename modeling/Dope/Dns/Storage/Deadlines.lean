import Mathlib.Algebra.GroupWithZero.Nat
import Dope.Dns.Storage.Integrity
import Dope.Dns.Storage.Moves

/-! # Deadlines of a query

No attempt outlives the hard deadline of its query, and a poll at the hard
deadline ends the query and gives back whatever its branches hold. Over the run
of a query each branch keeps a log of the names it has come to: the hops that
led to each, and the attempts made for it there.
-/

namespace Dope.Dns.Storage

open Index Run Function

variable {config : Config} {n lanes : Nat}

/-! ## Attempts within the hard deadline -/

/-- The attempt ends by the hard deadline and is within its budget. -/
structure Attempt.Fits (hard : Nat) (attempt : Attempt config) : Prop where
  due : attempt.deadline ≤ hard
  budget : attempt.request.attempt < config.attempts

variable {hard : Nat}

theorem Goes.fits {before after : Attempt config} (goes : Goes hard before after)
    (fits : before.Fits hard) : after.Fits hard := by
  cases goes with
  | rebinds same =>
    constructor
    · rw [same.deadline]
      exact fits.due
    · rw [same.attempt]
      exact fits.budget
  | retries name hops grown budget due => exact ⟨due, budget⟩
  | follows hops reset due =>
    refine ⟨due, ?_⟩
    rw [reset]
    exact config.attempts_pos

theorem Attempt.initial_fits (name : Host.Name) (now hard : Nat) :
    (initial name (Retry.deadline config now hard) (.first config)).Fits hard :=
  ⟨Retry.deadline_le config now hard, config.attempts_pos⟩

def Query.Fits (query : Query config n) : Prop :=
  ∀ family attempt, (query.branches family).attempt = some attempt →
    attempt.Fits query.hardDeadline

theorem Query.Moves.fits {before after : Query config n}
    (moves : ∀ family, before.Moves Goes family after) (fits : before.Fits) : after.Fits := by
  intro family attempt' held
  obtain ⟨attempt, held, goes⟩ := (moves family).branch attempt' held
  rw [(moves family).hard]
  exact goes.fits (fits family attempt held)

/-! ## A poll at the hard deadline -/

variable {branch : Branch config n}

theorem Branch.Quiet.finished (quiet : branch.Quiet) : Query.finished branch = true := by
  cases branch with
  | pending | waiting => simp [Quiet, Branch.attempt] at quiet
  | done | empty | failed => rfl

variable {place : Place lanes} {now : Nat}

namespace Attempt

theorem retry_late {attempt : Attempt config} {registry registry' : Registry lanes}
    (late : hard ≤ now)
    (h : attempt.retry hard now .timeout registry place = .ok (registry', branch)) :
    branch.Quiet := by
  unfold retry at h
  rw [if_pos late] at h
  split at h
  · exact finish_quiet h
  · exact finish_quiet h

end Attempt

namespace Query

variable {lane : Fin lanes} {now : Nat} {query query' : Query config n}
  {registry registry' : Registry lanes} {families : List Family.Version}

theorem expireRow_quiet {branch' : Branch config n} (late : hard ≤ now)
    (due : ∀ attempt, branch.attempt = some attempt → attempt.deadline ≤ now)
    (h : expireRow branch now hard registry place = .ok (registry', branch')) : branch'.Quiet := by
  unfold expireRow at h
  cases branch with
  | pending attempt =>
    simp only [Branch.deadline, Branch.attempt, Option.map_some, due attempt rfl,
      not_true_eq_false, if_false] at h
    exact Attempt.retry_late late h
  | waiting attempt lease =>
    simp only [Branch.deadline, Branch.attempt, Option.map_some, due attempt rfl,
      not_true_eq_false, if_false] at h
    exact Attempt.retry_late late h
  | done addresses validUntil =>
    cases h
    rfl
  | empty =>
    cases h
    rfl
  | failed error =>
    cases h
    rfl

theorem expireRows_quiet (late : query.hardDeadline ≤ now)
    (due : ∀ family attempt, (query.branches family).attempt = some attempt →
      attempt.deadline ≤ now)
    (h : query.expireRows now lane families registry = .ok (query', registry'))
    {family : Family.Version} (listed : family ∈ families ∨ (query.branches family).Quiet) :
    (query'.branches family).Quiet := by
  induction families generalizing query registry with
  | nil =>
    cases h
    simpa using listed
  | cons other rest ih =>
    unfold expireRows at h
    obtain ⟨⟨registry', branch⟩, ran, h⟩ := bind_ok.mp h
    have quiet : branch.Quiet := expireRow_quiet late (due other) ran
    have due' : ∀ third attempt, ((query.set other branch).branches third).attempt =
        some attempt → attempt.deadline ≤ now := by
      intro third attempt held
      by_cases same : third = other
      · rw [show (query.set other branch).branches third = branch by simp [set, same],
          show branch.attempt = none from quiet] at held
        simp at held
      · apply due third attempt
        simpa [set, same] using held
    have listed' : family ∈ rest ∨ ((query.set other branch).branches family).Quiet := by
      by_cases same : family = other
      · right
        simpa [set, same] using quiet
      · simpa [set, same] using listed
    have late' : (query.set other branch).hardDeadline ≤ now := late
    exact ih late' due' h listed'

theorem count_some (query : Query config n) (now : Nat) (tally : Tally n) (quiet : branch.Quiet) :
    ∃ tally', query.count now tally branch = some tally' := by
  cases branch with
  | pending attempt => simp [Branch.Quiet, Branch.attempt] at quiet
  | waiting attempt lease => simp [Branch.Quiet, Branch.attempt] at quiet
  | done | empty | failed => exact ⟨_, rfl⟩

theorem complete_quiet (quiet : ∀ family, (query.branches family).Quiet) (now : Nat) :
    ∃ result, query.complete now = some result := by
  obtain ⟨first, counted⟩ := query.count_some now ⟨none, none, none⟩ (quiet .four)
  obtain ⟨second, counted'⟩ := query.count_some now first (quiet .six)
  unfold complete
  rw [if_neg (by simp [(quiet .four).finished, (quiet .six).finished])]
  simp only [counted, counted', Option.bind_eq_bind, Option.bind_some]
  split
  · exact ⟨_, rfl⟩
  · exact ⟨_, rfl⟩
  · exact ⟨_, rfl⟩
  · split
    · exact ⟨_, rfl⟩
    · exact ⟨_, rfl⟩

end Query

variable {query : Query config n}

theorem Slot.poll_late {lane : Fin lanes} {registry registry' : Registry lanes} {answer : Poll n}
    {slot : Slot config n} (fits : query.Fits) (late : query.hardDeadline ≤ now)
    (h : (Slot.query query).poll now registry lane = .ok (answer, slot, registry')) :
    (∃ ready, answer = .complete ready) ∧ slot = .idle none := by
  unfold poll at h
  dsimp only at h
  obtain ⟨⟨failed, registry''⟩, stopped, h⟩ := bind_ok.mp h
  obtain ⟨⟨expired, registry'''⟩, timed, h⟩ := bind_ok.mp h
  cases h
  have stays : ∀ family, query.Moves Stays family failed :=
    fun _ => Query.failStopped_stays stopped
  have hard : failed.hardDeadline = query.hardDeadline := (stays .four).hard
  have fits' : failed.Fits := Query.Moves.fits (fun family => (stays family).of_stays Goes.refl) fits
  have quiet : ∀ family, (expired.branches family).Quiet := by
    intro family
    apply Query.expireRows_quiet _ _ timed
    · left
      cases family <;> decide
    · rw [hard]
      exact late
    · intro other attempt held
      have due := (fits' other attempt held).due
      rw [hard] at due
      exact due.trans late
  obtain ⟨result, done⟩ := Query.complete_quiet quiet now
  unfold complete
  dsimp only
  rw [done]
  exact ⟨⟨_, rfl⟩, rfl⟩

namespace Queries

variable {queries next : Queries config n lanes}

/-- Every attempt fits the query it belongs to. -/
def Fits (queries : Queries config n lanes) : Prop :=
  ∀ lane query, queries.inner.slots lane = .query query → query.Fits

theorem step_fits {pick : Pickers lanes} {call : Call lanes} {response : Response n lanes}
    (fits : queries.Fits) (h : queries.step pick call = .ok (response, next)) : next.Fits := by
  intro lane query' here'
  by_cases apart : call.starts = some lane
  · cases call with
    | start other reason unix name now =>
      cases apart
      obtain ⟨result, ran⟩ := reply_ok h
      cases result with
      | error range =>
        rcases startLane_slots ran with ⟨-, ⟨rfl, -⟩ | ⟨attempt, query, -, same, -⟩⟩
        · exact fits lane query' here'
        · simp at same
      | ok begun =>
        obtain ⟨query, slots, -, pending⟩ := startLane_query ran
        rw [slots, update_self] at here'
        cases here'
        intro family attempt held
        rw [pending family] at held
        cases held
        exact Attempt.initial_fits name now _
    | _ => simp [Call.starts] at apart
  · have moves : ∀ family, Ledger.Moves Goes (lane, family) queries.inner next.inner :=
      fun family => step_apart_moves h apart
    obtain ⟨query, here, -⟩ := (moves .four).query query' here'
    apply Query.Moves.fits _ (fits lane query here)
    intro family
    obtain ⟨query'', same, moved⟩ := (moves family).query query' here'
    rw [here] at same
    cases same
    exact moved

theorem reachable_fits (layout : Layout) (pick : Pickers layout.lanes)
    {queries : Queries config n layout.lanes}
    (h : (machine config n layout pick).Reachable queries) : queries.Fits := by
  induction h with
  | start start =>
    rw [show _ = new from start]
    intro lane query here
    simp [new, Ledger.new] at here
  | next _ _ run ih => exact step_fits ih run

/-- What a poll at the hard deadline leaves of its lane. -/
theorem reachable_poll_late (layout : Layout) (pick : Pickers layout.lanes)
    {queries : Queries config n layout.lanes}
    (h : (machine config n layout pick).Reachable queries) {lane : Fin layout.lanes}
    (here : queries.inner.slots lane = .query query) (late : query.hardDeadline ≤ now) :
    ∃ ready registry,
      (queries.inner.slots lane).poll now queries.inner.registry lane =
        .ok (.complete ready, .idle none, registry) ∧
      (∀ plane family, registry.pending plane (lane, family) = false) ∧
      (∀ id family, registry.ids.owners id ≠ some (lane, family) ∧
        registry.ids.streamOwners id ≠ some (lane, family)) ∧
      ∀ server, registry.live.counts server = (Finset.univ.filter fun place =>
        place.1 ≠ lane ∧ (queries.branch place).stream = some server).card := by
  have sound := (sound_invariant layout pick).holds h
  obtain ⟨answer, ledger, polled, sound'⟩ :=
    Ledger.pollLane_sound (Nat.le_of_lt_succ layout.bound) sound lane now
  unfold Ledger.pollLane at polled
  obtain ⟨⟨shown, slot, registry⟩, ran, built⟩ := bind_ok.mp polled
  cases built
  have fits := reachable_fits layout pick h lane query here
  obtain ⟨⟨ready, rfl⟩, rfl⟩ := Slot.poll_late fits late (by rw [← here]; exact ran)
  have view : ∀ place, viewOf (queries.inner.setSlot lane (.idle none)).slots place =
      if place.1 = lane then .empty else queries.branch place := by
    intro place
    rw [Ledger.setSlot_slots]
    by_cases same : place.1 = lane
    · simp [viewOf, same]
    · rw [if_neg same]
      show viewOf _ place = viewOf queries.inner.slots place
      unfold viewOf
      rw [update_of_ne same]
  have quiet : ∀ family, (viewOf (queries.inner.setSlot lane (.idle none)).slots
      (lane, family)).Quiet := by
    intro family
    rw [view, if_pos rfl]
    exact Branch.quiet_empty
  refine ⟨ready, registry, ran, ?_, ?_, ?_⟩
  · intro plane family
    exact (sound'.bits plane (lane, family)).trans ((quiet family).bit plane)
  · intro id family
    exact Held.unowned sound' (quiet family) id
  · intro server
    have counted := sound'.live server
    dsimp only at counted
    rw [counted]
    simp only [holders, view]
    rw [if_neg (by simp), Nat.add_zero]
    congr 1
    ext place
    simp only [Finset.mem_filter, Finset.mem_univ, true_and]
    by_cases same : place.1 = lane
    · rw [if_pos same, Branch.quiet_empty.stream]
      simp [same]
    · rw [if_neg same]
      simp [same]

/-! ## Rebinding -/

/-- The fallbacks of a transport write the same deadline back. -/
theorem rebind_deadline {active : Active config n lanes} {ledger : Ledger config n lanes}
    (h : active.cookie = .ok ledger ∨ active.stream = .ok ledger ∨ active.drop = .ok ledger)
    (here : ledger.slots active.place.1 = .query query) :
    (∃ before, active.ledger.slots active.place.1 = .query before ∧
      query.hardDeadline = before.hardDeadline) ∧
    ∀ attempt, (query.branches active.place.2).attempt = some attempt →
      attempt.deadline = active.attempt.deadline := by
  have settled : ∃ registry branch, ledger = active.ledger.put active.place registry branch ∧
      Leaves Rebinds active.attempt branch := by
    rcases h with h | h | h
    · obtain ⟨⟨registry, branch⟩, ran, h⟩ := bind_ok.mp h
      cases h
      exact ⟨registry, branch, rfl, Attempt.cookie_rebinds ran⟩
    · obtain ⟨⟨registry, branch⟩, ran, h⟩ := bind_ok.mp h
      cases h
      exact ⟨registry, branch, rfl, Attempt.stream_rebinds ran⟩
    · obtain ⟨⟨registry, branch⟩, ran, h⟩ := bind_ok.mp h
      cases h
      cases ran
      exact ⟨_, _, rfl, .pending ⟨rfl, rfl, rfl, rfl⟩⟩
  obtain ⟨registry, branch, rfl, leaves⟩ := settled
  cases before : active.ledger.slots active.place.1 with
  | idle completion =>
    unfold Ledger.put at here
    rw [before] at here
    dsimp only at here
    rw [before] at here
    simp at here
  | query held =>
    rw [Ledger.put_slot before] at here
    cases here
    refine ⟨⟨held, rfl, rfl⟩, ?_⟩
    intro attempt same
    have row : branch.attempt = some attempt := by simpa [Query.set] using same
    exact (leaves attempt row).deadline

theorem resume_attempt {server : Tx.Server} {permits ordinal : Nat} {answer : RetireStream × Nat}
    (running : queries.inner.registry.streamFailure = none)
    (h : queries.retire server .resume now permits ordinal = .ok (answer, next))
    {attempt : Attempt config} (held : (next.branch place).attempt = some attempt) :
    (queries.branch place).attempt = some attempt := by
  have stays : Ledger.Moves Stays place queries.inner next.inner := retire_stays running h
  cases after : next.inner.slots place.1 with
  | idle completion =>
    unfold branch at held
    rw [after] at held
    simp [Branch.attempt] at held
  | query query' =>
    obtain ⟨query, before, moved⟩ := stays.query query' after
    rw [branch_query after] at held
    obtain ⟨attempt', row, rfl⟩ := moved.branch attempt held
    rw [branch_query before]
    exact row

end Queries

/-! ## The log of a branch -/

/-- One name that the branch has come to. -/
structure Visit where
  name : Host.Name
  /-- The alias hops that led here. -/
  hops : Nat
  /-- The attempts that were made here. -/
  attempts : Nat
deriving DecidableEq, Repr

namespace Visit

/-- The newest visit comes first. -/
def note (before after : Attempt config) (log : List Visit) : List Visit :=
  if after.request.hops = before.request.hops then
    log.modifyHead fun visit =>
      { visit with attempts := visit.attempts + (after.request.attempt - before.request.attempt) }
  else
    ⟨after.request.name, after.request.hops.count - before.request.hops.count,
      after.request.attempt + 1⟩ :: log

def hopsOf (log : List Visit) : Nat := (log.map Visit.hops).sum

/-- All attempts made for a name, over every visit of it. -/
def attemptsFor (name : Host.Name) (log : List Visit) : Nat :=
  ((log.filter (·.name = name)).map Visit.attempts).sum

/-- The log tells where an attempt stands. -/
structure Tells (log : List Visit) (attempt : Attempt config) : Prop where
  head : ∃ visit earlier, log = visit :: earlier ∧ visit.name = attempt.request.name ∧
    visit.attempts = attempt.request.attempt + 1
  hops : hopsOf log = attempt.request.hops.count

/-- No more hops than the limit, and no more attempts at a visit than configured. -/
structure Bounded (config : Config) (log : List Visit) : Prop where
  hops : hopsOf log ≤ maxAliasHops
  attempts : ∀ visit ∈ log, visit.attempts ≤ config.attempts
  length : log.length ≤ hopsOf log + 1

variable {hard : Nat} {before after : Attempt config} {log : List Visit}

theorem note_goes (goes : Goes hard before after) (tells : Tells log before)
    (bounded : Bounded config log) :
    Tells (note before after log) after ∧ Bounded config (note before after log) := by
  obtain ⟨visit, earlier, rfl, name, attempts⟩ := tells.head
  have total := tells.hops
  have inHead := bounded.attempts visit List.mem_cons_self
  have inTail : ∀ visit ∈ earlier, visit.attempts ≤ config.attempts :=
    fun visit member => bounded.attempts visit (List.mem_cons_of_mem _ member)
  have length := bounded.length
  unfold note
  cases goes with
  | rebinds same =>
    rw [if_pos same.hops, List.modifyHead_cons, same.attempt, Nat.sub_self, Nat.add_zero]
    refine ⟨⟨⟨visit, earlier, rfl, name.trans same.name.symm, ?_⟩, ?_⟩, bounded⟩
    · rw [same.attempt]
      exact attempts
    · rw [same.hops]
      exact total
  | retries name' hops grown budget due =>
    rw [if_pos hops, List.modifyHead_cons]
    have count : visit.attempts + (after.request.attempt - before.request.attempt) =
        after.request.attempt + 1 := by omega
    refine ⟨⟨⟨_, earlier, rfl, name.trans name'.symm, count⟩, ?_⟩, ?_, ?_, ?_⟩
    · rw [hops]
      exact total
    · exact bounded.hops
    · intro other member
      rcases List.mem_cons.mp member with rfl | member
      · dsimp only
        omega
      · exact inTail other member
    · exact length
  | follows hops reset due =>
    have apart : after.request.hops ≠ before.request.hops := by
      intro same
      rw [same] at hops
      exact Nat.lt_irrefl _ hops
    rw [if_neg apart]
    have sum : hopsOf (⟨after.request.name,
        after.request.hops.count - before.request.hops.count,
        after.request.attempt + 1⟩ :: visit :: earlier) = after.request.hops.count := by
      unfold hopsOf at total ⊢
      rw [List.map_cons, List.sum_cons, total]
      dsimp only
      omega
    refine ⟨⟨⟨_, _, rfl, rfl, rfl⟩, sum⟩, ?_, ?_, ?_⟩
    · rw [sum]
      exact after.request.hops.bound
    · intro other member
      rcases List.mem_cons.mp member with rfl | member
      · dsimp only
        have := config.attempts_pos
        omega
      · exact bounded.attempts other member
    · rw [sum, List.length_cons]
      omega

theorem first_tells (name : Host.Name) (stop : Nat) (server : Selected config) :
    Tells [⟨name, 0, 1⟩] (Attempt.initial name stop server) :=
  ⟨⟨_, [], rfl, rfl, rfl⟩, rfl⟩

theorem first_bounded (name : Host.Name) : Bounded config [⟨name, 0, 1⟩] := by
  refine ⟨Nat.zero_le _, ?_, Nat.le_refl _⟩
  intro visit member
  cases List.mem_singleton.mp member
  exact config.attempts_pos

end Visit

namespace Queries

/-- What one call adds to the log of a branch. -/
def note (place : Place lanes) (before after : Queries config n lanes) (log : List Visit) :
    List Visit :=
  match (before.branch place).attempt, (after.branch place).attempt with
  | some attempt, some attempt' => Visit.note attempt attempt' log
  | _, _ => log

/-- The log of a branch over the run of one query: from the start of its lane,
through calls that do not start the lane again. -/
inductive Logs (layout : Layout) (pick : Pickers layout.lanes) (place : Place layout.lanes)
    (hard : Nat) : List Visit → Queries config n layout.lanes → Prop where
  | start {queries next : Queries config n layout.lanes} {reason : Lookup.Reason}
      {unix now : Nat} {name : Host.Name} :
      (machine config n layout pick).Reachable queries → queries.isHeld place.1 = true →
      queries.startLane place.1 reason unix name now = .ok (.ok (), next) →
      hard = now + config.totalTimeout →
      Logs layout pick place hard [⟨name, 0, 1⟩] next
  | next {log : List Visit} {queries next : Queries config n layout.lanes}
      {call : Call layout.lanes} {response : Response n layout.lanes} :
      Logs layout pick place hard log queries → queries.allowed call →
      call.starts ≠ some place.1 → queries.step pick call = .ok (response, next) →
      Logs layout pick place hard (queries.note place next log) next

theorem Logs.call {layout : Layout} {pick : Pickers layout.lanes} {place : Place layout.lanes}
    {log : List Visit} {queries next : Queries config n layout.lanes}
    {response : Response n layout.lanes} (logs : Logs layout pick place hard log queries)
    (call : Call layout.lanes) (ok : queries.allowed call) (apart : call.starts ≠ some place.1)
    (run : queries.step pick call = .ok (response, next)) :
    Logs layout pick place hard (queries.note place next log) next :=
  .next logs ok apart run

/-- The log is bounded, and tells where the branch stands while its query lasts. -/
structure Keeps (place : Place lanes) (hard : Nat) (log : List Visit)
    (queries : Queries config n lanes) : Prop where
  bounded : Visit.Bounded config log
  hard : ∀ query, queries.inner.slots place.1 = .query query → query.hardDeadline = hard
  tells : ∀ attempt, (queries.branch place).attempt = some attempt → Visit.Tells log attempt

theorem Keeps.step {place : Place lanes} {hard : Nat} {log : List Visit}
    {queries next : Queries config n lanes} (keeps : Keeps place hard log queries)
    (moves : Ledger.Moves Goes place queries.inner next.inner) :
    Keeps place hard (queries.note place next log) next := by
  cases after : next.inner.slots place.1 with
  | idle completion =>
    have empty : next.branch place = .empty := by
      unfold branch
      rw [after]
    have none : (next.branch place).attempt = none := by
      rw [empty]
      rfl
    have same : queries.note place next log = log := by
      unfold note
      rw [none]
      cases (queries.branch place).attempt <;> rfl
    rw [same]
    refine ⟨keeps.bounded, ?_, ?_⟩
    · intro query here
      rw [after] at here
      simp at here
    · intro attempt held
      rw [none] at held
      simp at held
  | query query' =>
    obtain ⟨query, before, moved⟩ := moves.query query' after
    have hard' : query'.hardDeadline = hard := moved.hard.trans (keeps.hard query before)
    have row : next.branch place = query'.branches place.2 := branch_query after
    have row' : queries.branch place = query.branches place.2 := branch_query before
    have timed : ∀ current, next.inner.slots place.1 = .query current →
        current.hardDeadline = hard := by
      intro current here
      rw [after] at here
      cases here
      exact hard'
    cases held : (next.branch place).attempt with
    | none =>
      have same : queries.note place next log = log := by
        unfold note
        rw [held]
        cases (queries.branch place).attempt <;> rfl
      rw [same]
      refine ⟨keeps.bounded, timed, ?_⟩
      intro attempt some
      rw [held] at some
      simp at some
    | some attempt' =>
      rw [row] at held
      obtain ⟨attempt, held', goes⟩ := moved.branch attempt' held
      have noted : queries.note place next log = Visit.note attempt attempt' log := by
        unfold note
        rw [row, row', held, held']
      rw [noted]
      rw [← row'] at held'
      obtain ⟨tells, bounded⟩ :=
        Visit.note_goes goes (keeps.tells attempt held') keeps.bounded
      refine ⟨bounded, timed, ?_⟩
      intro current same
      rw [row, held] at same
      cases same
      exact tells

theorem Logs.keeps {layout : Layout} {pick : Pickers layout.lanes} {place : Place layout.lanes}
    {log : List Visit} {queries : Queries config n layout.lanes}
    (logs : Logs layout pick place hard log queries) : Keeps place hard log queries := by
  induction logs with
  | @start queries next reason unix now name reachable held started hard =>
    obtain ⟨query, slots, timed, pending⟩ := startLane_query started
    have here : next.inner.slots place.1 = .query query := by
      rw [slots, update_self]
    refine ⟨Visit.first_bounded name, ?_, ?_⟩
    · intro query' same
      rw [here] at same
      cases same
      exact timed.trans hard.symm
    · intro attempt same
      rw [branch_query here, pending] at same
      cases same
      exact Visit.first_tells ..
  | next _ _ apart run ih => exact ih.step (step_apart_moves run apart)

/-- The call has a reply for the branch that waits at a place. -/
inductive Brings (queries : Queries config n lanes) (place : Place lanes) (reply : Reply n) :
    Call lanes → Prop where
  | udp {source : SocketAddr} {bytes : Bytes} {now : Nat} {message : Wire.Decoder}
      {active : Active config n lanes} {value : Wire.Cookies.Server} {cookie : Tx.Cookie}
      {server : Tx.Server} : Wire.Decoder.tryNew bytes = .ok message →
      queries.inner.registry.ids.udpOwner (wireId message.transaction) = some place →
      queries.isCancelled place.1 = false →
      queries.inner.accept place (.live (wireId message.transaction) now)
        (readUdp message source place.2) =
          .ok (some (active, .authenticated reply value, cookie, server)) →
      Brings queries place reply (.receiveUdp source bytes now)
  | stream {server : Tx.Server} {frame : Bytes} {now : Nat} {message : Wire.Decoder}
      {active : Active config n lanes} : Wire.Decoder.tryNew frame = .ok message →
      queries.inner.registry.ids.streamOwner (wireId message.transaction) = some place →
      queries.isCancelled place.1 = false →
      queries.inner.accept place (.live (wireId message.transaction) now)
        (readStream message server place.2) = .ok (some (active, .ok reply)) →
      Brings queries place reply (.receiveStream server frame now)

/-- A reply is applied to the attempt that waits, and to no other branch. -/
theorem Brings.replaces {reply : Reply n} {call : Call lanes}
    {queries next : Queries config n lanes} (brings : queries.Brings place reply call)
    {pick : Pickers lanes} {response : Response n lanes}
    (h : queries.step pick call = .ok (response, next)) :
    ∃ attempt branch hard now, (queries.branch place).attempt = some attempt ∧
      queries.Replaces next place branch now ∧ ∃ registry registry' : Registry lanes,
        attempt.apply reply hard now registry place = .ok (registry', branch) := by
  cases brings with
  | @udp source bytes now message active value cookie server opened owner live taken =>
    have h := replyDone_ok h
    unfold receiveUdp at h
    rw [opened] at h
    dsimp only at h
    rw [owner] at h
    dsimp only at h
    rw [live, if_neg Bool.false_ne_true, taken, ok_bind] at h
    obtain ⟨inner, settled, h⟩ := bind_ok.mp h
    cases h
    rcases Ledger.accept_cases queries.inner place _ _ with
      none | ⟨query, attempt, waits, decoded, here, row, -, -, ran⟩
    · rw [none] at taken
      cases taken
    · rw [ran] at taken
      cases taken
      obtain ⟨registry, branch, ran, slots⟩ :=
        Active.close_slots settled (Ledger.put_slot here _ _)
      refine ⟨attempt, branch, query.hardDeadline, now, ?_, .complete here slots now, _, _, ran⟩
      rw [branch_query here, row]
      rfl
  | @stream server frame now message active opened owner live taken =>
    obtain ⟨answer, h⟩ := reply_ok h
    unfold tryRecv at h
    rw [opened] at h
    obtain ⟨after, received, h⟩ := bind_ok.mp h
    cases h
    unfold receiveStream at received
    dsimp only at received
    rw [owner] at received
    dsimp only at received
    rw [live, if_neg Bool.false_ne_true, taken, ok_bind] at received
    obtain ⟨inner, settled, received⟩ := bind_ok.mp received
    cases received
    rcases Ledger.accept_cases queries.inner place _ _ with
      none | ⟨query, attempt, waits, decoded, here, row, -, -, ran⟩
    · rw [none] at taken
      cases taken
    · rw [ran] at taken
      cases taken
      obtain ⟨registry, branch, ran, slots⟩ :=
        Active.close_slots settled (Ledger.put_slot here _ _)
      refine ⟨attempt, branch, query.hardDeadline, now, ?_, .complete here slots now, _, _, ran⟩
      rw [branch_query here, row]
      rfl

/-- In every reachable state a poll at the hard deadline completes its lane and
gives back what the lane holds. No attempt outlives the hard deadline, and no
fallback of a transport moves a deadline. Over a whole query a branch takes no
more alias hops than the limit, with those of the answer that ends it, and each
time the aliases lead to a name, no more attempts than configured. -/
theorem reachable_terminates (layout : Layout) (pick : Pickers layout.lanes)
    {queries : Queries config n layout.lanes}
    (h : (machine config n layout pick).Reachable queries) :
    (∀ lane query now, queries.inner.slots lane = .query query → query.hardDeadline ≤ now →
      ∃ ready registry,
        (queries.inner.slots lane).poll now queries.inner.registry lane =
          .ok (.complete ready, .idle none, registry) ∧
        (∀ plane family, registry.pending plane (lane, family) = false) ∧
        (∀ id family, registry.ids.owners id ≠ some (lane, family) ∧
          registry.ids.streamOwners id ≠ some (lane, family)) ∧
        ∀ server, registry.live.counts server = (Finset.univ.filter fun place =>
          place.1 ≠ lane ∧ (queries.branch place).stream = some server).card) ∧
    (∀ lane query family attempt, queries.inner.slots lane = .query query →
      (query.branches family).attempt = some attempt → attempt.deadline ≤ query.hardDeadline) ∧
    (∀ (active : Active config n layout.lanes) ledger query,
      active.cookie = .ok ledger ∨ active.stream = .ok ledger ∨ active.drop = .ok ledger →
      ledger.slots active.place.1 = .query query →
      (∃ before, active.ledger.slots active.place.1 = .query before ∧
        query.hardDeadline = before.hardDeadline) ∧
      ∀ attempt, (query.branches active.place.2).attempt = some attempt →
        attempt.deadline = active.attempt.deadline) ∧
    (∀ server now permits ordinal answer next, queries.inner.registry.streamFailure = none →
      queries.retire server .resume now permits ordinal = .ok (answer, next) →
      ∀ place attempt, (next.branch place).attempt = some attempt →
        (queries.branch place).attempt = some attempt) ∧
    ∀ place hard log, Logs layout pick place hard log queries →
      (∀ query, queries.inner.slots place.1 = .query query → query.hardDeadline = hard) ∧
      Visit.hopsOf log ≤ maxAliasHops ∧ log.length ≤ maxAliasHops + 1 ∧
      (∀ visit ∈ log, visit.attempts ≤ config.attempts) ∧
      ∀ call response next values ttl hops,
        queries.Brings place (.addresses values ttl hops) call →
        queries.step pick call = .ok (response, next) →
        ∃ branch now, queries.Replaces next place branch now ∧
          if Visit.hopsOf log + hops.count ≤ maxAliasHops then
            (∃ stop, branch = .done values stop) ∨ ∃ cause, branch = .failed (.timing cause)
          else branch = .failed (.malformed
            (.aliasHops (Visit.hopsOf log + hops.count) maxAliasHops)) := by
  refine ⟨?_, ?_, ?_, ?_, ?_⟩
  · intro lane query now here late
    exact reachable_poll_late layout pick h here late
  · intro lane query family attempt here held
    exact (reachable_fits layout pick h lane query here family attempt held).due
  · intro active ledger query settled here
    exact rebind_deadline settled here
  · intro server now permits ordinal answer next running retired place attempt held
    exact resume_attempt running retired held
  · intro place hard log logs
    have keeps := logs.keeps
    have length := keeps.bounded.length
    have hops := keeps.bounded.hops
    refine ⟨keeps.hard, hops, by omega, keeps.bounded.attempts, ?_⟩
    intro call response next values ttl more brings run
    obtain ⟨attempt, branch, _, now, held, replaces, _, _, applied⟩ := brings.replaces run
    have total := Attempt.apply_addresses applied
    rw [← (keeps.tells attempt held).hops] at total
    exact ⟨branch, now, replaces, total⟩

/-- Both branches of the lane end at the deadline, one of them waiting. -/
theorem reachable_terminates_example :
    ∃ queries : Queries Sample.single 2 1, ∃ query ready registry,
      (machine Sample.single 2 Sample.layout Sample.pickers).Reachable queries ∧
      queries.inner.slots 0 = .query query ∧ query.hardDeadline = 30 ∧
      (queries.inner.slots 0).poll 30 queries.inner.registry 0 =
        .ok (.complete ready, .idle none, registry) ∧
      ∀ family, registry.ids.owners 7 ≠ some (0, family) := by
  have new : (machine Sample.single 2 Sample.layout Sample.pickers).Reachable .new := .start rfl
  have claimed := new.call .claim trivial rfl
  have started := claimed.call (.start 0 .startup 0 ⟨[97]⟩ 10) rfl rfl
  have waiting := started.call (.admitUdp 10 true Sample.random .committed) trivial rfl
  obtain ⟨ready, registry, polled, -, owners, -⟩ :=
    (reachable_terminates Sample.layout Sample.pickers waiting).1 0 _ 30 rfl (by decide)
  exact ⟨_, _, ready, registry, waiting, rfl, rfl, polled, fun family => (owners 7 family).1⟩

end Queries

/-! ## A name that is visited again -/

namespace Sample

/-- One attempt for each name. -/
def once : Config := { single with
  attempts := 1
  attempts_pos := Nat.one_pos }

def server : SocketAddr := ⟨.v4 [192, 0, 2, 1], 53, 0, 0⟩

/-- A reply to the question for a name of one letter. -/
def answers (id letter count : UInt8) : Bytes :=
  [0, id, 128, 0, 0, 1, 0, count, 0, 0, 0, 0, 1, letter, 0, 0, 1, 0, 1]

/-- The letter is an alias of another one. -/
def cname (id letter target : UInt8) : Bytes :=
  answers id letter 1 ++ [1, letter, 0, 0, 5, 0, 1, 0, 0, 0, 0, 0, 3, 1, target, 0]

end Sample

/-- Two aliases that lead back to the first name give it a new budget, so that
more attempts than configured are made for it. -/
theorem Queries.visits_again :
    ¬ ∀ (place : Place 1) (hard : Nat) (log : List Visit) (queries : Queries Sample.once 2 1),
      Logs Sample.layout Sample.pickers place hard log queries →
      ∀ name, Visit.attemptsFor name log ≤ Sample.once.attempts := by
  intro bounded
  have new : (machine Sample.once 2 Sample.layout Sample.pickers).Reachable .new := .start rfl
  have claimed := new.call .claim trivial rfl
  have started := @Logs.start Sample.once 2 Sample.layout Sample.pickers (0, .four) 30 _ _
    .startup 0 10 ⟨[97]⟩ claimed rfl rfl rfl
  have asked := started.call (.admitUdp 10 true Sample.random .committed) trivial nofun rfl
  have moved := asked.call (.receiveUdp Sample.server (Sample.answers 7 97 0) 11) trivial nofun rfl
  have first := moved.call (.submit 11 0 8 .ready) trivial nofun rfl
  have away := first.call (.receiveStream 0 (Sample.cname 8 97 98) 12) trivial nofun rfl
  have second := away.call (.submit 12 0 9 .ready) trivial nofun rfl
  have back := second.call (.receiveStream 0 (Sample.cname 9 98 97) 13) trivial nofun rfl
  exact absurd (bounded _ _ _ _ back ⟨[97]⟩) (by decide +kernel)

end Dope.Dns.Storage
