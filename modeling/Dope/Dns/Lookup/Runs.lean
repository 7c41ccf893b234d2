import Dope.Dns.Lookup.Turns
import Dope.Dns.Storage.Integrity
import Dope.Dns.Storage.Sweeps

/-! # Runs of a discovery

A discovery is polled and asked to refresh in any order, while every other user
of the query tables goes on. The history of a run keeps what was published and
withdrawn, the window of the installed snapshot, and the earliest instant at
which the next lookup may start.
-/

namespace Dope.Dns.Lookup

open Core.Clock Run Storage Schedule

variable {config : Config} {n lanes : Nat} {discovery after : Discovery config lanes}
  {action : Action n} {before : Queries config n lanes}

namespace Discovery

/-! ## Polling -/

/-- The lane of the source is idle without a completion. -/
def Rests (discovery : Discovery config lanes) (queries : Queries config n lanes) : Prop :=
  ∀ name lane, discovery.source = .query name lane → queries.inner.slots lane = .idle none

/-- The schedule runs and its wait is over. -/
structure Opens (now : Nat) (discovery : Discovery config lanes) : Prop where
  active : discovery.schedule.isActive = true
  ended : ∀ wait, discovery.schedule.next = some wait → wait ≤ now

/-- What a poll makes of the lane. Either nothing was tried, with the lane at
rest or a lookup still pending, or a lookup came to its end. Otherwise a lookup
was due: it failed to start, it started, or the literal was resolved. -/
inductive Course (now : Nat) (discovery : Discovery config lanes)
    (before after : Queries config n lanes) (action : Action n)
    (next : Discovery config lanes) : Prop where
  | rested : discovery.Rests after → Waits discovery next → action.settles = false →
      Course now discovery before after action next
  | busy : ¬ discovery.Rests before → Waits discovery next → action.settles = false →
      Course now discovery before after action next
  | settled : ¬ discovery.Rests before → discovery.Rests after →
      Course now discovery before after action next
  | failed {error : Failure n} {pollAt : Option Nat} : Opens now discovery →
      discovery.Rests after → action = .failed error pollAt →
      Course now discovery before after action next
  | started {name : Host.Name} {lane : Fin lanes} {query : Query config n} :
      Opens now discovery → discovery.source = .query name lane → now < config.limit →
      discovery.Rests before → after.inner.slots lane = .query query →
      Waits discovery next → action.settles = false →
      Course now discovery before after action next
  | resolved {address : SocketAddr} {snapshot : Snapshot} {metadata : Metadata}
      {pollAt : Option Nat} : Opens now discovery → discovery.source = .literal address →
      now < config.limit → action = .published snapshot metadata pollAt →
      Course now discovery before after action next

variable {queries next : Queries config n lanes} {now : Nat}

theorem pollSource_course (bound : lanes * 2 ≤ 65534) (sound : queries.Sound)
    (discovery : Discovery config lanes) (now : Nat) :
    ∃ polled next, discovery.pollSource queries now = .ok (polled, next) ∧ next.Sound ∧
      (polled = .idle ↔ discovery.Rests queries) ∧
      ((∀ due, polled ≠ .pending due) → discovery.Rests next) := by
  unfold pollSource
  cases source : discovery.source with
  | literal address =>
    have rests : discovery.Rests queries := by
      intro name lane other
      rw [source] at other
      simp at other
    exact ⟨.idle, queries, rfl, sound, iff_of_true rfl rests, fun _ => rests⟩
  | query name lane =>
    obtain ⟨polled, next, ran, after⟩ := Queries.pollLane_safe bound sound lane now
    refine ⟨polled, next, ran, after, ?_, ?_⟩
    · rw [Queries.pollLane_idle ran]
      constructor
      · intro idle name' lane' other
        rw [source] at other
        cases other
        exact idle
      · exact fun rests => rests name lane source
    · intro finished name' lane' other
      rw [source] at other
      cases other
      exact Queries.pollLane_finished ran finished

/-- A turn of the discovery with another request pending is a turn of the
discovery itself. -/
theorem Turn.requested {requested : Option Reason} (quiet : discovery.Quiet →
      (discovery.withSchedule { discovery.schedule with requested := requested }).Quiet)
    (turn : Turn now (discovery.withSchedule { discovery.schedule with requested := requested })
      action after) : Turn now discovery action after := by
  cases turn with
  | pending keeps waits =>
    exact .pending ⟨⟨keeps.fixed.source, keeps.fixed.refresh⟩, keeps.revision, keeps.follows,
      fun calm => keeps.quiet (quiet calm)⟩ ⟨waits.failures, waits.next⟩
  | failed keeps backs ends =>
    exact .failed ⟨⟨keeps.fixed.source, keeps.fixed.refresh⟩, keeps.revision, keeps.follows,
      fun calm => keeps.quiet (quiet calm)⟩ backs ends
  | stale fixed waits revision calm state passed aged =>
    exact .stale ⟨fixed.source, fixed.refresh⟩ ⟨waits.failures, waits.next⟩ revision
      (fun before => calm (quiet before)) state passed aged
  | expired fixed waits next revision calm passed idle =>
    exact .expired ⟨fixed.source, fixed.refresh⟩ ⟨waits.failures, waits.next⟩ next revision
      (fun before => calm (quiet before)) passed idle
  | published fixed resets next revision reserved calm follows =>
    exact .published ⟨fixed.source, fixed.refresh⟩ resets next revision reserved calm follows

theorem Course.requested {requested : Option Reason} (course : Course now
      (discovery.withSchedule { discovery.schedule with requested := requested })
      queries next action after) : Course now discovery queries next action after := by
  cases course with
  | rested rests waits calm => exact .rested rests ⟨waits.failures, waits.next⟩ calm
  | busy tired waits calm => exact .busy tired ⟨waits.failures, waits.next⟩ calm
  | settled tired rests => exact .settled tired rests
  | failed opens rests failed => exact .failed ⟨opens.active, opens.ended⟩ rests failed
  | started opens source early rests slot waits calm =>
    exact .started ⟨opens.active, opens.ended⟩ source early rests slot
      ⟨waits.failures, waits.next⟩ calm
  | resolved opens source early published =>
    exact .resolved ⟨opens.active, opens.ended⟩ source early published

/-- Where a poll left the lane at rest, what comes after it decides. -/
theorem Course.polled (rested : discovery.Rests before) (rests : discovery.Rests queries)
    (course : Course now discovery queries next action after) :
    Course now discovery before next action after := by
  cases course with
  | rested still waits calm => exact .rested still waits calm
  | busy tired => exact absurd rests tired
  | settled tired => exact absurd rests tired
  | failed opens still failed => exact .failed opens still failed
  | started opens source early still slot waits calm =>
    exact .started opens source early rested slot waits calm
  | resolved opens source early published => exact .resolved opens source early published

theorem failed_reports {reason : Reason} {error : Failure n}
    (h : discovery.failed now reason error = (action, after)) :
    ∃ pollAt, action = .failed error pollAt := by
  unfold failed at h
  split at h
  · cases h
    exact ⟨_, rfl⟩
  · split at h
    · cases h
      exact ⟨_, rfl⟩
    · cases h
      exact ⟨_, rfl⟩

theorem resolveFor_settles {ttl : Nat} {reason : Reason} {address : SocketAddr}
    (h : resolveFor ttl discovery now reason address = (action, after)) :
    (∃ error pollAt, action = .failed error pollAt) ∨
      ∃ snapshot metadata pollAt, action = .published snapshot metadata pollAt := by
  unfold resolveFor at h
  split at h
  · exact .inl ⟨_, failed_reports h⟩
  · split at h
    · exact .inl ⟨_, failed_reports h⟩
    · unfold publish at h
      split at h
      · exact .inl ⟨_, failed_reports h⟩
      · split at h
        · exact .inl ⟨_, failed_reports h⟩
        · split at h
          · exact .inl ⟨_, failed_reports h⟩
          · cases h
            exact .inr ⟨_, _, _, rfl⟩

/-- A due lookup that fails to start leaves the lane at rest. -/
theorem failed_course (reason : Reason) (error : Failure n)
    (opens : Opens now discovery) (rests : discovery.Rests queries) :
    ∃ action last, discovery.failed now reason error = (action, last) ∧
      Turn now discovery action last ∧ Covers action.pollAt last ∧
      Course now discovery queries queries action last := by
  cases failed : discovery.failed now reason error with
  | mk action last =>
    obtain ⟨turn, covers⟩ := failed_turn failed
    obtain ⟨pollAt, reported⟩ := failed_reports failed
    exact ⟨action, last, rfl, turn, covers, .failed opens rests reported⟩

theorem launch_course (sound : queries.Sound) (reason : Reason) (opens : Opens now discovery)
    (rests : discovery.Rests queries) :
    ∃ action last next, discovery.launch queries now reason = .ok ((action, last), next) ∧
      next.Sound ∧ Turn now discovery action last ∧ Covers action.pollAt last ∧
      Course now discovery queries next action last := by
  unfold launch
  cases source : discovery.source with
  | literal address =>
    dsimp only
    cases resolved : (discovery.resolve now reason address : Action n × _) with
    | mk action last =>
      obtain ⟨turn, covers⟩ := resolveFor_turn resolved
      refine ⟨action, last, queries, rfl, sound, turn, covers, ?_⟩
      rcases resolveFor_settles resolved with ⟨error, pollAt, rfl⟩ | ⟨_, _, pollAt, rfl⟩
      · exact .failed opens rests rfl
      · refine .resolved opens source ?_ rfl
        cases turn with
        | published fixed resets next revision reserved calm follows =>
          have bound := resets.bound
          have positive := last.refresh.minimum_pos
          omega
  | query name lane =>
    dsimp only
    split
    · rename_i source _
      obtain ⟨action, last, failed, turn, covers, course⟩ :=
        failed_course reason (.clock source) opens rests
      exact ⟨action, last, queries, by rw [failed], sound, turn, covers, course⟩
    · rename_i stamp _
      obtain ⟨result, next, ran, after⟩ :=
        Queries.startLane_safe sound lane reason stamp name now
      rw [ran, ok_bind]
      cases result with
      | error range =>
        dsimp only
        rcases (Queries.startLane_slots ran).2 with ⟨rfl, -⟩ | ⟨_, _, -, same, -⟩
        · obtain ⟨action, last, failed, turn, covers, course⟩ :=
            failed_course reason (.query (.deadline range) (.at stamp)) opens rests
          exact ⟨action, last, next, by rw [failed], sound, turn, covers, course⟩
        · simp at same
      | ok _ =>
        have early : now < config.limit := by
          have bound := Queries.startLane_early ran
          have positive := config.total_pos
          omega
        rcases (Queries.startLane_slots ran).2 with ⟨-, _, same⟩ | ⟨_, query, -, -, slots⟩
        · simp at same
        · exact ⟨_, _, next, rfl, after, .pending (.refl _) ⟨rfl, rfl⟩, nextPoll_covers ..,
            .started opens source early rests (by rw [slots, Function.update_self]) ⟨rfl, rfl⟩
              rfl⟩

theorem consider_course (sound : queries.Sound) (quiet : discovery.Quiet)
    (rests : discovery.Rests queries) (now : Nat) :
    ∃ action last next, discovery.consider queries now = .ok ((action, last), next) ∧
      next.Sound ∧ Turn now discovery action last ∧ Covers action.pollAt last ∧
      Course now discovery queries next action last := by
  obtain ⟨requested, scheduled, calm⟩ : ∃ requested,
      (if (discovery.schedule.requested.isNone &&
          discovery.schedule.refreshAt.any (isDue · now)) = true
        then discovery.withSchedule (discovery.schedule.request .scheduled) else discovery) =
      discovery.withSchedule { discovery.schedule with requested := requested } ∧
      (discovery.withSchedule { discovery.schedule with requested := requested }).Quiet := by
    split
    · obtain ⟨requested, same⟩ := request_requested discovery.schedule .scheduled
      rw [same]
      refine ⟨requested, rfl, ?_⟩
      rw [← same]
      exact (request_keeps discovery .scheduled).quiet quiet
    · exact ⟨discovery.schedule.requested, rfl, quiet⟩
  unfold consider
  dsimp only
  rw [scheduled]
  have kept : Keeps discovery
      (discovery.withSchedule { discovery.schedule with requested := requested }) :=
    .withSchedule (fun _ follows => follows) fun _ => calm
  split
  · exact ⟨_, _, queries, rfl, sound, .pending kept ⟨rfl, rfl⟩, nextPoll_covers ..,
      .rested rests ⟨rfl, rfl⟩ rfl⟩
  · rename_i past
    split
    · exact ⟨_, _, queries, rfl, sound, .pending kept ⟨rfl, rfl⟩, nextPoll_covers ..,
        .rested rests ⟨rfl, rfl⟩ rfl⟩
    · rename_i reason asked
      have opens : Opens now
          (discovery.withSchedule { discovery.schedule with requested := none }) := by
        constructor
        · cases active : discovery.schedule.isActive with
          | true => exact active
          | false =>
            rw [(calm active).1] at asked
            simp at asked
        · intro wait waits
          have same : (discovery.withSchedule
              { discovery.schedule with requested := requested }).schedule.next = some wait := waits
          rw [same] at past
          simpa [isDue] using past
      have still : discovery.Quiet →
          (discovery.withSchedule { discovery.schedule with requested := none }).Quiet :=
        fun before stopped => ⟨rfl, (before stopped).2⟩
      split
      · obtain ⟨action, last, failed, turn, covers, course⟩ :=
          failed_course reason .revision opens rests
        exact ⟨action, last, queries, congrArg (fun result => Except.ok (result, queries)) failed,
          sound, turn.requested still, covers, course.requested⟩
      · obtain ⟨action, last, next, ran, after, turn, covers, course⟩ :=
          launch_course sound reason opens rests
        exact ⟨action, last, next, ran, after, turn.requested still, covers, course.requested⟩

theorem pollAt_course (bound : lanes * 2 ≤ 65534) (sound : queries.Sound)
    (reserved : discovery.Reserved) (quiet : discovery.Quiet) (now : Nat) :
    ∃ action last next, discovery.pollAt queries now = .ok ((action, last), next) ∧
      next.Sound ∧ Turn now discovery action last ∧ Covers action.pollAt last ∧
      Course now discovery queries next action last := by
  obtain ⟨polled, next, ran, after, busy, idle⟩ :=
    pollSource_course bound sound discovery now
  have aging : ∀ (working : Bool) (due : Option Nat),
      (working = false → discovery.Rests queries ∧ discovery.Rests next) →
      (working = true → ¬ discovery.Rests queries) →
      ∃ action last following,
        discovery.afterPoll next now working due = .ok ((action, last), following) ∧
        following.Sound ∧ Turn now discovery action last ∧ Covers action.pollAt last ∧
        Course now discovery queries following action last := by
    intro working due rests tired
    unfold afterPoll
    cases grown : (discovery.grow now working due : Option (Action n) × _) with
    | mk report last =>
      rcases grow_turn reserved grown with ⟨rfl, rfl⟩ | ⟨action, rfl, turn, covers, waits, calm⟩
      · dsimp only
        cases working with
        | true =>
          exact ⟨_, _, next, rfl, after, .pending (.refl _) ⟨rfl, rfl⟩, nextPoll_covers ..,
            .busy (tired rfl) ⟨rfl, rfl⟩ rfl⟩
        | false =>
          obtain ⟨action, last, following, considered, sound, turn, covers, course⟩ :=
            consider_course after quiet (rests rfl).2 now
          exact ⟨action, last, following, considered, sound, turn, covers,
            course.polled (rests rfl).1 (rests rfl).2⟩
      · refine ⟨action, last, next, rfl, after, turn, covers, ?_⟩
        cases working with
        | true => exact .busy (tired rfl) waits calm
        | false => exact .rested (rests rfl).2 waits calm
  unfold pollAt
  rw [ran, ok_bind]
  cases polled with
  | idle => exact aging false none (fun _ => ⟨busy.mp rfl, idle (by simp)⟩) (by simp)
  | pending due =>
    exact aging true due (by simp) fun _ rests => absurd (busy.mpr rests) (by simp)
  | complete ready =>
    cases settled : (discovery.settle now ready : Action n × _) with
    | mk action last =>
      obtain ⟨turn, covers⟩ := settle_turn settled
      exact ⟨action, last, next, congrArg (fun result => Except.ok (result, next)) settled,
        after, turn, covers, .settled (fun rests => absurd (busy.mpr rests) (by simp))
          (idle (by simp))⟩

end Discovery

/-! ## The machine -/

/-- A discovery and the query tables, with the history of its run. -/
structure History (config : Config) (n lanes : Nat) where
  queries : Queries config n lanes
  discovery : Discovery config lanes
  /-- The revisions published and withdrawn, the newest first. -/
  revisions : List Nat
  /-- The window of the snapshot published last, until it is withdrawn. -/
  window : Option Window
  /-- Failures in a row. -/
  failures : Nat
  /-- The next lookup may not start before. -/
  floor : Nat

inductive Move (lanes : Nat) where
  | other (call : Call lanes)
  | refresh (now : Nat) (request : Request)
  | poll (now : Nat)

inductive Report (n lanes : Nat) where
  | answered (response : Response n lanes)
  | requested
  | polled (action : Action n) (started : Bool)

/-- A lookup started: the lane of the source left its rest, or the literal was
resolved. -/
def starts (source : Source lanes) (before after : Queries config n lanes) (action : Action n) :
    Bool :=
  match source with
  | .literal _ =>
      match action with
      | .published _ _ _ => true
      | _ => false
  | .query _ lane =>
      match before.inner.slots lane, after.inner.slots lane with
      | .idle _, .query _ => true
      | _, _ => false

/-- The wait after the `count`-th failure in a row. -/
def Refresh.backoffAfter (refresh : Refresh) (count : Nat) : Nat :=
  min (refresh.backoff.base * 2 ^ min (count - 1) 16) refresh.backoff.max

namespace History

/-- Record what a poll reported. -/
def record (history : History config n lanes) (now : Nat) (action : Action n)
    (started : Bool) (discovery : Discovery config lanes) (queries : Queries config n lanes) :
    History config n lanes :=
  match action with
  | .published snapshot _ _ =>
      { queries := queries, discovery := discovery
        revisions := snapshot.revision.value :: history.revisions
        window := discovery.schedule.window
        failures := 0
        floor := now + history.discovery.refresh.minimum }
  | .expired revision _ =>
      { history with
        queries := queries, discovery := discovery
        revisions := revision.value :: history.revisions
        window := none
        floor := if started then 0 else history.floor }
  | .failed _ _ =>
      { history with
        queries := queries, discovery := discovery
        failures := history.failures + 1
        floor := max history.floor
          (now + history.discovery.refresh.backoffAfter (history.failures + 1)) }
  | _ =>
      { history with
        queries := queries, discovery := discovery
        floor := if started then 0 else history.floor }

def step (pick : Pickers lanes) (policy : Health.Cause → Option Reason)
    (history : History config n lanes) :
    Move lanes → Except Fault (Report n lanes × History config n lanes)
  | .other call => do
      let (response, queries) ← history.queries.step pick call
      .ok (.answered response, { history with queries := queries })
  | .refresh now request =>
      .ok (.requested,
        { history with discovery := history.discovery.refreshAt policy now request })
  | .poll now => do
      let ((action, discovery), queries) ← history.discovery.pollAt history.queries now
      let started := starts history.discovery.source history.queries queries action
      .ok (.polled action started, history.record now action started discovery queries)

/-- The lane of the discovery is its own. -/
def allowed (history : History config n lanes) : Move lanes → Prop
  | .other call => ∀ name lane, history.discovery.source = .query name lane →
      call.lane ≠ some lane
  | _ => True

/-- A discovery begins with a literal, or with a lane it has just claimed from
query tables that were in use before. -/
def Begins (layout : Layout) (pick : Pickers layout.lanes)
    (history : History config n layout.lanes) : Prop :=
  ∃ server source port refresh clock, ∃ sweep : Sweep config n layout.lanes,
    (Sweep.machine config n layout pick server).Reachable sweep ∧
    history.discovery = .new source port refresh clock ∧ history.revisions = [] ∧
    history.window = none ∧ history.failures = 0 ∧ history.floor = 0 ∧
    match source with
    | .literal _ => history.queries = sweep.queries
    | .query _ lane => Queries.claim pick.lane sweep.queries = .ok (some lane, history.queries)

def machine (config : Config) (n : Nat) (layout : Layout) (pick : Pickers layout.lanes)
    (policy : Health.Cause → Option Reason) :
    Machine (History config n layout.lanes) (Move layout.lanes) (Report n layout.lanes)
      Fault where
  start := Begins layout pick
  allowed := allowed
  step := step pick policy

/-! ## Snapshots -/

/-- The schedule follows the published window, and the revision is the newest
one, with a successor for as long as the snapshot is live. -/
structure Ordered (history : History config n lanes) : Prop where
  reserved : history.discovery.Reserved
  quiet : history.discovery.Quiet
  follows : Follows history.window history.discovery.schedule.state
  falling : history.revisions.Pairwise (· > ·)
  newest : ∀ revision ∈ history.revisions, revision ≤ history.discovery.revision.value

variable {history next : History config n lanes} {now : Nat} {action : Action n}
  {queries : Queries config n lanes} {started : Bool}

theorem live_iff {window : Option Window} (follows : Follows window discovery.schedule.state) :
    discovery.Live ↔ ∃ current, window = some current := by
  unfold Discovery.Live Schedule.deadline
  generalize discovery.schedule.state = state at follows
  cases follows <;> simp

theorem Ordered.keeps (ordered : history.Ordered)
    (keeps : Discovery.Keeps history.discovery discovery) (queries : Queries config n lanes)
    (failures floor : Nat) :
    Ordered { history with
      queries := queries, discovery := discovery, failures := failures, floor := floor } where
  reserved live := by
    have follows := keeps.follows _ ordered.follows
    rw [show ({ history with
      queries := queries, discovery := discovery, failures := failures,
      floor := floor } : History config n lanes).discovery.revision = _ from keeps.revision]
    exact ordered.reserved ((live_iff ordered.follows).mpr ((live_iff follows).mp live))
  quiet := keeps.quiet ordered.quiet
  follows := keeps.follows _ ordered.follows
  falling := ordered.falling
  newest revision member := by
    dsimp only
    rw [keeps.revision]
    exact ordered.newest revision member

/-- A revision that goes up by one stays ahead of all before it. -/
theorem Ordered.push (ordered : history.Ordered) {revision : Revision}
    (up : history.discovery.revision.tryNext = some revision) :
    (revision.value :: history.revisions).Pairwise (· > ·) ∧
      ∀ earlier ∈ revision.value :: history.revisions, earlier ≤ revision.value := by
  have successor := Revision.tryNext_some up
  constructor
  · refine List.pairwise_cons.mpr ⟨?_, ordered.falling⟩
    intro earlier member
    have bound := ordered.newest earlier member
    omega
  · intro earlier member
    rcases List.mem_cons.mp member with rfl | member
    · exact Nat.le_refl _
    · have bound := ordered.newest earlier member
      omega

theorem Ordered.record (ordered : history.Ordered)
    (turn : Discovery.Turn now history.discovery action discovery) :
    (history.record now action started discovery queries).Ordered := by
  cases turn with
  | pending keeps waits => exact ordered.keeps keeps queries _ _
  | failed keeps backs => exact ordered.keeps keeps queries _ _
  | stale fixed waits revision calm state passed aged =>
    have window := (state ▸ ordered.follows).ofFresh
    refine ⟨?_, calm ordered.quiet, ?_, ordered.falling, ?_⟩
    · intro _
      dsimp only [History.record]
      rw [revision]
      exact ordered.reserved ((live_iff ordered.follows).mpr ⟨_, window⟩)
    · dsimp only [History.record]
      rw [aged, window]
      exact .stale
    · dsimp only [History.record]
      rw [revision]
      exact ordered.newest
  | expired fixed waits up revision calm passed idle =>
    obtain ⟨falling, newest⟩ := ordered.push up
    refine ⟨?_, calm ordered.quiet, ?_, falling, ?_⟩
    · rintro ⟨due, live⟩
      dsimp only [History.record] at live
      unfold Schedule.deadline at live
      rw [idle] at live
      simp at live
    · dsimp only [History.record]
      rw [idle]
      exact .idle
    · dsimp only [History.record]
      rw [revision]
      exact newest
  | published fixed resets up revision reserved calm follows =>
    obtain ⟨falling, newest⟩ := ordered.push up
    refine ⟨reserved, calm, follows, falling, ?_⟩
    dsimp only [History.record]
    rw [revision]
    exact newest

/-! ## Waiting -/

/-- While the floor is up or the schedule is stopped the lane rests, a running
schedule waits for the floor, and it counts the failures. -/
structure Paced (history : History config n lanes) : Prop where
  rests : history.floor ≠ 0 ∨ history.discovery.schedule.isActive = false →
    history.discovery.Rests history.queries
  waits : history.discovery.schedule.isActive = true → history.floor ≠ 0 →
    ∃ wait, history.discovery.schedule.next = some wait ∧ min history.floor config.limit ≤ wait
  counts : ∀ retry, history.discovery.schedule.failures = some retry →
    retry.count = min history.failures 16

theorem retryDelay_eq {refresh : Refresh} {retry : Retry} {count : Nat}
    (counted : retry.count = min count 16) :
    refresh.retryDelay retry = refresh.backoffAfter (count + 1) := by
  have bound := refresh.max_le
  unfold Refresh.retryDelay Refresh.backoffAfter Retry.factor
  rw [counted, Nat.add_sub_cancel]
  omega

theorem increment_count {retry : Retry} {count : Nat} (counted : retry.count = min count 16) :
    retry.increment.count = min (count + 1) 16 := by
  unfold Retry.increment Retry.limit
  split
  · dsimp only
    omega
  · omega

theorem starts_rests (rests : discovery.Rests queries)
    (quiet : action.settles = false ∨ ∃ error pollAt, action = .failed error pollAt) :
    starts discovery.source before queries action = false := by
  unfold starts
  cases source : discovery.source with
  | literal address =>
    rcases quiet with calm | ⟨error, pollAt, rfl⟩
    · cases action <;> simp_all [Action.settles]
    · rfl
  | query name lane =>
    dsimp only
    rw [rests name lane source]
    cases before.inner.slots lane <;> rfl

/-- A due lookup is past the floor; at the end of the platform's range only the
clamped part of it counts. -/
theorem Paced.passed (paced : history.Paced)
    (opens : Discovery.Opens now history.discovery) : min history.floor config.limit ≤ now := by
  by_cases down : history.floor = 0
  · omega
  · obtain ⟨wait, waits, late⟩ := paced.waits opens.active down
    have ended := opens.ended wait waits
    omega

theorem Paced.backs (paced : history.Paced) (fixed : Discovery.Fixed history.discovery discovery)
    (backs : Discovery.Backs now history.discovery discovery)
    (passed : min history.floor config.limit ≤ now) (rests : history.discovery.Rests queries) :
    Paced { history with
      queries := queries, discovery := discovery
      failures := history.failures + 1
      floor := max history.floor
        (now + history.discovery.refresh.backoffAfter (history.failures + 1)) } where
  rests _ := by
    intro name lane source
    exact rests name lane (fixed.source ▸ source)
  waits active _ := by
    rcases backs with stopped | ⟨retry, counted, -, wait⟩
    · exact absurd (active.symm.trans stopped) (by simp)
    · refine ⟨_, wait, ?_⟩
      rw [retryDelay_eq (paced.counts retry counted)]
      have later := le_clampAdd config.limit now
        (history.discovery.refresh.backoffAfter (history.failures + 1))
      have reached := min_le_clampAdd config.limit now
        (history.discovery.refresh.backoffAfter (history.failures + 1))
      dsimp only
      omega
  counts retry counted := by
    rcases backs with stopped | ⟨earlier, before, after, -⟩
    · have running : discovery.schedule.isActive = true := by
        unfold Schedule.isActive
        rw [counted]
        rfl
      exact absurd (running.symm.trans stopped) (by simp)
    · have same : earlier.increment = retry := Option.some.inj (after.symm.trans counted)
      rw [← same]
      exact increment_count (paced.counts earlier before)

theorem Paced.resets (fixed : Discovery.Fixed history.discovery discovery)
    (resets : Discovery.Resets now discovery) (rests : discovery.Rests queries)
    (revisions : List Nat) (window : Option Window) :
    Paced { queries := queries, discovery := discovery, revisions := revisions
            window := window, failures := 0
            floor := now + history.discovery.refresh.minimum } where
  rests _ := rests
  waits _ _ := by
    refine ⟨_, resets.next, ?_⟩
    rw [fixed.refresh]
    dsimp only
    omega
  counts retry counted := by
    have same : Retry.zero = retry := Option.some.inj (resets.failures.symm.trans counted)
    rw [← same]
    rfl

theorem Paced.carries (paced : history.Paced)
    (fixed : Discovery.Fixed history.discovery discovery)
    (waits : Discovery.Waits history.discovery discovery) {floor : Nat}
    (floors : floor = 0 ∨ floor = history.floor)
    (rests : floor ≠ 0 ∨ history.discovery.schedule.isActive = false →
      history.discovery.Rests queries)
    (revisions : List Nat) (window : Option Window) :
    Paced { history with
      queries := queries, discovery := discovery, revisions := revisions, window := window
      floor := floor } := by
  have active : discovery.schedule.isActive = history.discovery.schedule.isActive := by
    unfold Schedule.isActive
    rw [waits.failures]
  refine ⟨?_, ?_, ?_⟩
  · intro still name lane source
    dsimp only at still
    rw [active] at still
    exact rests still name lane (fixed.source ▸ source)
  · intro running up
    dsimp only at running up ⊢
    rcases floors with rfl | rfl
    · exact absurd rfl up
    · rw [waits.next]
      rw [active] at running
      exact paced.waits running up
  · intro retry counted
    exact paced.counts retry (waits.failures ▸ counted)

/-- Between settlements the floor stays, or a start takes it down. -/
theorem Paced.rolls (paced : history.Paced)
    (fixed : Discovery.Fixed history.discovery discovery)
    (waits : Discovery.Waits history.discovery discovery)
    (rests : (if started then 0 else history.floor) ≠ 0 ∨
        history.discovery.schedule.isActive = false → history.discovery.Rests queries)
    (revisions : List Nat) (window : Option Window) :
    Paced { history with
      queries := queries, discovery := discovery, revisions := revisions, window := window
      floor := if started then 0 else history.floor } := by
  refine paced.carries fixed waits ?_ rests revisions window
  cases started with
  | true => exact .inl rfl
  | false => exact .inr rfl

/-- What a turn records keeps the pace, where an end of a lookup is past the
floor and leaves the lane at rest. -/
theorem Paced.turn (paced : history.Paced)
    (turn : Discovery.Turn now history.discovery action discovery)
    (calm : action.settles = false →
      (if started then 0 else history.floor) ≠ 0 ∨
        history.discovery.schedule.isActive = false → history.discovery.Rests queries)
    (ends : action.settles = true →
      history.discovery.Rests queries ∧ min history.floor config.limit ≤ now) :
    (history.record now action started discovery queries).Paced := by
  cases turn with
  | pending keeps waits => exact paced.rolls keeps.fixed waits (calm rfl) _ _
  | failed keeps backs => exact paced.backs keeps.fixed backs (ends rfl).2 (ends rfl).1
  | stale fixed waits => exact paced.rolls fixed waits (calm rfl) _ _
  | expired fixed waits => exact paced.rolls fixed waits (calm rfl) _ _
  | published fixed resets =>
    refine Paced.resets fixed resets ?_ _ _
    intro name lane source
    exact (ends rfl).1 name lane (fixed.source ▸ source)

theorem starts_query {name : Host.Name} {lane : Fin lanes} {query : Query config n}
    (source : discovery.source = .query name lane) (rests : discovery.Rests before)
    (slot : queries.inner.slots lane = .query query) :
    starts discovery.source before queries action = true := by
  unfold starts
  rw [source]
  dsimp only
  rw [rests name lane source, slot]

theorem Paced.record (paced : history.Paced)
    (turn : Discovery.Turn now history.discovery action discovery)
    (course : Discovery.Course now history.discovery history.queries queries action discovery) :
    (history.record now action (starts history.discovery.source history.queries queries action)
      discovery queries).Paced := by
  apply paced.turn turn
  · intro calm still
    cases course with
    | rested rests => exact rests
    | busy tired =>
      refine absurd (paced.rests ?_) tired
      rcases still with up | stopped
      · refine .inl fun down => up ?_
        rw [down]
        split <;> rfl
      · exact .inr stopped
    | settled tired rests => exact rests
    | failed opens rests => exact rests
    | started opens source early rests slot =>
      rw [starts_query source rests slot] at still
      rcases still with up | stopped
      · exact absurd rfl up
      · exact absurd (opens.active.symm.trans stopped) (by simp)
    | resolved opens source early published =>
      rw [published] at calm
      simp [Action.settles] at calm
  · intro ends
    cases course with
    | rested rests waits calm => exact absurd (calm.symm.trans ends) (by simp)
    | busy tired waits calm => exact absurd (calm.symm.trans ends) (by simp)
    | settled tired rests =>
      have down : history.floor = 0 := by
        by_contra up
        exact tired (paced.rests (.inl up))
      exact ⟨rests, by omega⟩
    | failed opens rests => exact ⟨rests, paced.passed opens⟩
    | started opens source early rests slot waits calm =>
      exact absurd (calm.symm.trans ends) (by simp)
    | resolved opens source early published =>
      refine ⟨?_, paced.passed opens⟩
      intro name lane other
      rw [source] at other
      simp at other

/-! ## The invariant -/

structure Sound (history : History config n lanes) : Prop where
  queries : history.queries.Sound
  ordered : history.Ordered
  paced : history.Paced

theorem Sound.other (bound : lanes * 2 ≤ 65534) (pick : Pickers lanes) (sound : history.Sound)
    {call : Call lanes} (apart : history.allowed (.other call)) :
    ∃ response queries, history.queries.step pick call = .ok (response, queries) ∧
      Sound { history with queries := queries } := by
  obtain ⟨response, queries, ran, after⟩ := Queries.step_safe bound pick sound.queries call
  refine ⟨response, queries, ran, after, ⟨?_, ?_, ?_, ?_, ?_⟩, ⟨?_, ?_, ?_⟩⟩
  · exact sound.ordered.reserved
  · exact sound.ordered.quiet
  · exact sound.ordered.follows
  · exact sound.ordered.falling
  · exact sound.ordered.newest
  · intro still name lane source
    refine Queries.step_rests sound.queries ran ?_ (sound.paced.rests still name lane source)
    intro starts
    refine apart name lane source ?_
    cases call with
    | start other reason unix name now => exact starts
    | _ => simp [Call.starts] at starts
  · exact sound.paced.waits
  · exact sound.paced.counts

theorem Sound.refresh (policy : Health.Cause → Option Reason) (sound : history.Sound) (now : Nat)
    (request : Request) :
    Sound { history with discovery := history.discovery.refreshAt policy now request } := by
  have keeps := Discovery.refreshAt_keeps policy history.discovery now request
  refine ⟨sound.queries, sound.ordered.keeps keeps history.queries _ _, ?_⟩
  unfold Discovery.refreshAt
  split
  · exact sound.paced
  · rename_i reason asked
    have failures : ((history.discovery.schedule.allow now).request reason).failures =
        history.discovery.schedule.failures := by
      rw [request_failures, allow_failures]
    have active : ((history.discovery.schedule.allow now).request reason).isActive =
        history.discovery.schedule.isActive := by
      unfold Schedule.isActive
      rw [failures]
    refine ⟨?_, ?_, ?_⟩
    · intro still
      dsimp only [Discovery.withSchedule] at still
      rw [active] at still
      exact sound.paced.rests still
    · intro running up
      dsimp only [Discovery.withSchedule] at running ⊢
      rw [active] at running
      obtain ⟨wait, waits, late⟩ := sound.paced.waits running up
      refine ⟨wait, ?_, late⟩
      rw [request_next]
      exact allow_next waits now
    · intro retry counted
      dsimp only [Discovery.withSchedule] at counted
      rw [failures] at counted
      exact sound.paced.counts retry counted

theorem Sound.poll (bound : lanes * 2 ≤ 65534) (sound : history.Sound) (now : Nat) :
    ∃ action discovery queries,
      history.discovery.pollAt history.queries now = .ok ((action, discovery), queries) ∧
      Discovery.Turn now history.discovery action discovery ∧
      Discovery.Covers action.pollAt discovery ∧
      Discovery.Course now history.discovery history.queries queries action discovery ∧
      Sound (history.record now action
        (starts history.discovery.source history.queries queries action) discovery queries) := by
  obtain ⟨action, discovery, queries, ran, after, turn, covers, course⟩ :=
    Discovery.pollAt_course bound sound.queries sound.ordered.reserved sound.ordered.quiet now
  refine ⟨action, discovery, queries, ran, turn, covers, course, ?_, sound.ordered.record turn,
    sound.paced.record turn course⟩
  cases action <;> exact after

theorem step_poll (pick : Pickers lanes) (policy : Health.Cause → Option Reason)
    (ran : history.discovery.pollAt history.queries now = .ok ((action, discovery), queries)) :
    history.step pick policy (.poll now) =
      .ok (.polled action (starts history.discovery.source history.queries queries action),
        history.record now action
          (starts history.discovery.source history.queries queries action) discovery queries) := by
  unfold step
  dsimp only
  rw [ran]
  rfl

theorem begins_sound (layout : Layout) (pick : Pickers layout.lanes)
    {history : History config n layout.lanes} (begins : history.Begins layout pick) :
    history.Sound := by
  obtain ⟨server, source, port, refresh, clock, sweep, reached, discovery, revisions, window,
    failures, floor, queries⟩ := begins
  have before := (Sweep.sound_invariant layout pick server).holds reached
  refine ⟨?_, ⟨?_, ?_, ?_, ?_, ?_⟩, ⟨?_, ?_, ?_⟩⟩
  · cases source with
    | literal address =>
      rw [queries]
      exact before.queries
    | query name lane =>
      obtain ⟨response, next, ran, sound⟩ := Queries.claim_safe pick.lane before.queries
      rw [queries] at ran
      cases ran
      exact sound
  · rintro ⟨due, live⟩
    rw [discovery] at live
    simp [Discovery.new, Schedule.new, Schedule.deadline] at live
  · intro stopped
    rw [discovery] at stopped
    simp [Discovery.new, Schedule.new, Schedule.isActive] at stopped
  · rw [discovery, window]
    exact .idle
  · rw [revisions]
    exact .nil
  · rw [revisions]
    simp
  · intro _ name lane mine
    rw [discovery] at mine
    have same : source = .query name lane := mine
    subst same
    rcases Queries.claim_lanes before.tenancy queries with ⟨none, -⟩ | ⟨fresh, same, idle, -⟩
    · simp at none
    · cases same
      exact idle
  · intro _ up
    exact absurd floor up
  · intro retry counted
    rw [discovery] at counted
    have same : Retry.zero = retry := Option.some.inj counted
    rw [← same, failures]
    rfl

theorem sound_invariant (layout : Layout) (pick : Pickers layout.lanes)
    (policy : Health.Cause → Option Reason) :
    (machine config n layout pick policy).Invariant Sound where
  start history begins := begins_sound layout pick begins
  step history move sound ok := by
    have bound := Nat.le_of_lt_succ layout.bound
    cases move with
    | other call =>
      obtain ⟨response, queries, ran, after⟩ := sound.other bound pick ok
      refine ⟨.answered response, _, ?_, after⟩
      change history.step pick policy (.other call) = _
      unfold step
      dsimp only
      rw [ran]
      rfl
    | refresh now request => exact ⟨_, _, rfl, sound.refresh policy now request⟩
    | poll now =>
      obtain ⟨action, discovery, queries, ran, -, -, -, after⟩ := sound.poll bound now
      exact ⟨_, _, step_poll pick policy ran, after⟩

/-- A stopped discovery stays stopped: no poll starts or publishes anything. -/
theorem Sound.stopped {pick : Pickers lanes} {policy : Health.Cause → Option Reason}
    {move : Move lanes} {report : Report n lanes} (bound : lanes * 2 ≤ 65534)
    (sound : history.Sound) (stopped : history.discovery.schedule.isActive = false)
    (h : history.step pick policy move = .ok (report, next)) :
    next.discovery.schedule.isActive = false ∧
      ∀ action started, report = .polled action started →
        started = false ∧ action.settles = false := by
  cases move with
  | other call =>
    unfold step at h
    obtain ⟨⟨response, queries⟩, -, h⟩ := bind_ok.mp h
    cases h
    exact ⟨stopped, by simp⟩
  | refresh now request =>
    cases h
    refine ⟨?_, by simp⟩
    unfold Discovery.refreshAt
    split
    · exact stopped
    · dsimp only [Discovery.withSchedule]
      rw [request_isActive]
      unfold Schedule.isActive at stopped ⊢
      rw [allow_failures]
      exact stopped
  | poll now =>
    obtain ⟨action, discovery, queries, ran, -, -, course, -⟩ := sound.poll bound now
    rw [step_poll pick policy ran] at h
    cases h
    have rests := sound.paced.rests (.inr stopped)
    have idle : ¬ Discovery.Opens now history.discovery :=
      fun opens => absurd (opens.active.symm.trans stopped) (by simp)
    cases course with
    | rested still waits calm =>
      refine ⟨?_, ?_⟩
      · have same : discovery.schedule.isActive = false := by
          unfold Schedule.isActive at stopped ⊢
          rw [waits.failures]
          exact stopped
        cases action <;> exact same
      · rintro action started reported
        cases reported
        exact ⟨starts_rests still (.inl calm), calm⟩
    | busy tired => exact absurd rests tired
    | settled tired => exact absurd rests tired
    | failed opens => exact absurd opens idle
    | started opens => exact absurd opens idle
    | resolved opens => exact absurd opens idle

theorem Sound.begun (sound : history.Sound)
    (course : Discovery.Course now history.discovery history.queries queries action discovery)
    (started : starts history.discovery.source history.queries queries action = true) :
    history.floor ≤ now := by
  have down : ¬ history.discovery.Rests history.queries → history.floor = 0 := by
    intro tired
    by_contra up
    exact tired (sound.paced.rests (.inl up))
  cases course with
  | rested rests waits calm =>
    rw [starts_rests rests (.inl calm)] at started
    simp at started
  | busy tired =>
    have floor := down tired
    omega
  | settled tired =>
    have floor := down tired
    omega
  | failed opens rests failed =>
    rw [starts_rests rests (.inr ⟨_, _, failed⟩)] at started
    simp at started
  | started opens source early =>
    have passed := sound.paced.passed opens
    omega
  | resolved opens source early =>
    have passed := sound.paced.passed opens
    omega

/-- A lookup that was due and failed to start is past the floor too, up to the
end of the platform's range. -/
theorem Sound.tried (sound : history.Sound)
    (course : Discovery.Course now history.discovery history.queries queries action discovery)
    (rests : history.discovery.Rests history.queries) (ends : action.settles = true) :
    min history.floor config.limit ≤ now := by
  cases course with
  | rested still waits calm => exact absurd (calm.symm.trans ends) (by simp)
  | busy tired => exact absurd rests tired
  | settled tired => exact absurd rests tired
  | failed opens => exact sound.paced.passed opens
  | started opens => exact sound.paced.passed opens
  | resolved opens => exact sound.paced.passed opens

/-! ## Discoveries over whole runs -/

/-- In every reachable state a live snapshot has a revision for its withdrawal,
so that it can expire, and the reported revisions go up. A poll reports a next
poll no later than the snapshot changes, reports it stale only after it was
valid and withdraws it only after it was kept. A terminal failure stops a
discovery; once stopped, it stays so and starts nothing. -/
theorem reachable_revised (layout : Layout) (pick : Pickers layout.lanes)
    (policy : Health.Cause → Option Reason) {history : History config n layout.lanes}
    (h : (machine config n layout pick policy).Reachable history) :
    (history.discovery.Live → ∃ revision, history.discovery.revision.tryNext = some revision ∧
      ∀ now, ∃ pollAt after,
        history.discovery.expire (n := n) now = (.expired revision pollAt, after)) ∧
    history.revisions.Pairwise (· > ·) ∧
    (∀ now, ∃ action started next,
      history.step pick policy (.poll now) = .ok (.polled action started, next) ∧
      (∀ due, next.discovery.schedule.deadline = some due →
        ∃ wake, action.pollAt = some wake ∧ wake ≤ due) ∧
      (∀ revision pollAt, action = .stale revision pollAt →
        ∃ window, history.window = some window ∧ window.validUntil ≤ now) ∧
      (∀ revision pollAt, action = .expired revision pollAt →
        ∃ window, history.window = some window ∧ window.staleUntil ≤ now) ∧
      ∀ error pollAt, action = .failed error pollAt → error.isTerminal = true →
        next.discovery.schedule.isActive = false) ∧
    (history.discovery.schedule.isActive = false → ∀ move report next,
      history.step pick policy move = .ok (report, next) →
      next.discovery.schedule.isActive = false ∧
        ∀ action started, report = .polled action started →
          started = false ∧ action.settles = false) := by
  have sound := (sound_invariant layout pick policy).holds h
  have bound := Nat.le_of_lt_succ layout.bound
  refine ⟨?_, sound.ordered.falling, ?_, ?_⟩
  · intro live
    obtain ⟨revision, up⟩ := sound.ordered.reserved live
    exact ⟨revision, up, fun now => ⟨_, _, Discovery.expire_eq up now⟩⟩
  · intro now
    obtain ⟨action, discovery, queries, ran, turn, covers, -, -⟩ := sound.poll bound now
    refine ⟨action, _, _, step_poll pick policy ran, ?_, ?_, ?_, ?_⟩
    · intro due live
      refine covers.due due ?_
      cases action <;> exact live
    · rintro revision pollAt rfl
      cases turn with
      | stale fixed waits same calm state passed aged =>
          exact ⟨_, (state ▸ sound.ordered.follows).ofFresh, passed⟩
    · rintro revision pollAt rfl
      cases turn with
      | expired fixed waits up same calm passed idle =>
          exact passed _ sound.ordered.follows
    · rintro error pollAt rfl terminal
      cases turn with
      | failed keeps backs ends => exact ends terminal
  · intro stopped move report next ran
    exact sound.stopped bound stopped ran

/-- In every reachable state a lookup that starts is past the floor: the minimum
after the last publication, and after each failure in a row the doubled
backoff. One that fails to start is past it too, up to the end of the
platform's range, from where nothing can start. -/
theorem reachable_paced (layout : Layout) (pick : Pickers layout.lanes)
    (policy : Health.Cause → Option Reason) {history : History config n layout.lanes}
    (h : (machine config n layout pick policy).Reachable history) (now : Nat) :
    ∃ action started next,
      history.step pick policy (.poll now) = .ok (.polled action started, next) ∧
      (started = true → history.floor ≤ now) ∧
      (history.discovery.Rests history.queries → action.settles = true →
        min history.floor config.limit ≤ now) := by
  have sound := (sound_invariant layout pick policy).holds h
  obtain ⟨action, discovery, queries, ran, -, -, course, -⟩ :=
    sound.poll (Nat.le_of_lt_succ layout.bound) now
  exact ⟨action, _, _, step_poll pick policy ran, sound.begun course, sound.tried course⟩

end History

/-! ## A lookup that is published -/

namespace Sample

def refresh : Refresh where
  minimum := 5
  backoff := ⟨2, 8⟩
  maximumTtl := 50
  before := 3
  stale := 20
  minimum_pos := Storage.Sample.single.attempt_pos
  base_pos := by decide
  base_le := by decide
  max_le := by decide
  ttl_pos := by decide
  minimum_le := by decide
  before_le := by decide

def clock : Civil.Anchor := ⟨0, 0, fun epoch elapsed => some (epoch + elapsed)⟩

/-- One address for `a`, with the client value of the query. -/
def addresses : Bytes := [0, 7, 129, 128, 0, 1, 0, 1, 0, 0, 0, 1, 1, 97, 0, 0, 1, 0, 1,
  192, 12, 0, 1, 0, 1, 0, 0, 0, 0, 0, 4, 10, 0, 0, 1,
  0, 0, 41, 4, 208, 0, 0, 0, 0, 0, 20,
  0, 10, 0, 16, 0, 0, 0, 0, 0, 0, 0, 4, 1, 2, 3, 4, 5, 6, 7, 8]

/-- No address of the other family. -/
def nothing : Bytes := [0, 8, 129, 128, 0, 1, 0, 0, 0, 0, 0, 1, 1, 97, 0, 0, 28, 0, 1,
  0, 0, 41, 4, 208, 0, 0, 0, 0, 0, 20,
  0, 10, 0, 16, 0, 0, 0, 0, 0, 0, 0, 8, 1, 2, 3, 4, 5, 6, 7, 8]

def second : Tx.Random := ⟨fun _ => 8, fun input => ⟨input⟩⟩

/-- A lookup is requested and started at 10, both families are asked and answer
at 11, and the poll at 12 publishes a snapshot that is no longer valid. -/
theorem published : ∃ history : History Storage.Sample.single 2 1,
    (History.machine Storage.Sample.single 2 Storage.Sample.layout Storage.Sample.pickers
      Policy.availability).Reachable history ∧
    history.floor = 17 ∧ history.discovery.schedule.deadline = some 11 ∧
    history.revisions = [1] := by
  have new : (Sweep.machine Storage.Sample.single 2 Storage.Sample.layout
    Storage.Sample.pickers 0).Reachable _ := .start rfl
  have begun : (History.machine Storage.Sample.single 2 Storage.Sample.layout
      Storage.Sample.pickers Policy.availability).Reachable
      ⟨_, .new (.query ⟨[97]⟩ 0) 80 refresh clock, [], none, 0, 0⟩ :=
    .start ⟨0, _, _, _, _, _, new, rfl, rfl, rfl, rfl, rfl, rfl⟩
  have requested := begun.call (.refresh 10 .startup) trivial rfl
  have started := requested.call (.poll 10) trivial rfl
  have one := started.call (.other (.admitUdp 10 true Storage.Sample.random .committed))
    (fun _ _ _ lane => by simp [Call.lane] at lane) rfl
  have both := one.call (.other (.admitUdp 10 true second .committed))
    (fun _ _ _ lane => by simp [Call.lane] at lane) rfl
  have found := both.call (.other (.receiveUdp Storage.Sample.source addresses 11))
    (fun _ _ _ lane => by simp [Call.lane] at lane) rfl
  have done := found.call (.other (.receiveUdp Storage.Sample.source nothing 11))
    (fun _ _ _ lane => by simp [Call.lane] at lane) rfl
  have polled := done.call (.poll 12) trivial rfl
  exact ⟨_, polled, rfl, rfl, rfl⟩

end Sample

/-- The published snapshot can be withdrawn. -/
theorem History.reachable_revised_example :
    ∃ history : History Storage.Sample.single 2 1, history.revisions = [1] ∧
      ∃ revision, history.discovery.revision.tryNext = some revision := by
  obtain ⟨history, reachable, -, live, revisions⟩ := Sample.published
  obtain ⟨reserved, -⟩ := reachable_revised Storage.Sample.layout Storage.Sample.pickers
    Policy.availability reachable
  obtain ⟨revision, next, -⟩ := reserved ⟨11, live⟩
  exact ⟨history, revisions, revision, next⟩

/-- After the publication at 12 no poll starts a lookup before 17. -/
theorem History.reachable_paced_example :
    ∃ history : History Storage.Sample.single 2 1, history.revisions = [1] ∧
      ∃ action started next, history.step Storage.Sample.pickers Policy.availability (.poll 16) =
        .ok (.polled action started, next) ∧ started = false := by
  obtain ⟨history, reachable, floor, -, revisions⟩ := Sample.published
  obtain ⟨action, started, next, ran, early, -⟩ := reachable_paced Storage.Sample.layout
    Storage.Sample.pickers Policy.availability reachable 16
  refine ⟨history, revisions, action, started, next, ran, ?_⟩
  cases started with
  | false => rfl
  | true =>
      have late := early rfl
      omega

end Dope.Dns.Lookup
