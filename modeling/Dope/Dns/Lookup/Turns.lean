import Dope.Dns.Lookup.Discovery

/-! # Turns of a discovery

What one poll can do to a discovery, said once: it leaves the snapshot as it
is, lets it go stale or expire, or publishes the next one. Whatever it does,
the next poll is due by the time the snapshot changes.
-/

namespace Dope.Dns.Lookup

open Core.Clock Storage Schedule

variable {config : Config} {n lanes : Nat} {discovery after : Discovery config lanes}

/-- The action reports the end of a lookup. -/
def Action.settles : Action n → Bool
  | .pending _ => false
  | .published _ _ _ => true
  | .stale _ _ => false
  | .expired _ _ => false
  | .failed _ _ => true

variable {now : Nat} {schedule : Schedule} {action : Action n} {reason : Reason} {aged : Schedule}

namespace Discovery

/-- A fresh or a stale snapshot is installed. -/
def Live (discovery : Discovery config lanes) : Prop := ∃ due, discovery.schedule.deadline = some due

/-- The withdrawal of an installed snapshot has a revision. -/
def Reserved (discovery : Discovery config lanes) : Prop :=
  discovery.Live → ∃ next, discovery.revision.tryNext = some next

/-- A stopped schedule requests nothing. -/
def Quiet (discovery : Discovery config lanes) : Prop :=
  discovery.schedule.isActive = false →
    discovery.schedule.requested = none ∧ discovery.schedule.refreshAt = none

/-- The reported poll is due no later than the snapshot changes. -/
structure Covers (pollAt : Option Nat) (discovery : Discovery config lanes) : Prop where
  due : ∀ due, discovery.schedule.deadline = some due → ∃ wake, pollAt = some wake ∧ wake ≤ due

/-- The source and the settings are left alone. -/
structure Fixed (before after : Discovery config lanes) : Prop where
  source : after.source = before.source
  refresh : after.refresh = before.refresh

/-- The failure count and the wait for the next lookup are left alone. -/
structure Waits (before after : Discovery config lanes) : Prop where
  failures : after.schedule.failures = before.schedule.failures
  next : after.schedule.next = before.schedule.next

/-- A failure stops the schedule, or it counts and the next lookup waits for the
backoff. -/
def Backs (now : Nat) (before after : Discovery config lanes) : Prop :=
  after.schedule.isActive = false ∨
    ∃ retry, before.schedule.failures = some retry ∧
      after.schedule.failures = some retry.increment ∧
      after.schedule.next =
        some (clampAdd config.limit now (before.refresh.retryDelay retry))

/-- A publication forgets the failures, and the next lookup waits for the
minimum. -/
structure Resets (now : Nat) (after : Discovery config lanes) : Prop where
  failures : after.schedule.failures = some .zero
  next : after.schedule.next = some (now + after.refresh.minimum)
  bound : now + after.refresh.minimum ≤ config.limit

/-- The snapshot, its revision and its source are left alone. -/
structure Keeps (before after : Discovery config lanes) : Prop where
  fixed : Fixed before after
  revision : after.revision = before.revision
  follows : ∀ window, Follows window before.schedule.state → Follows window after.schedule.state
  quiet : before.Quiet → after.Quiet

/-- What a poll reports, and the discovery after it. -/
inductive Turn (now : Nat) (before : Discovery config lanes) :
    Action n → Discovery config lanes → Prop where
  | pending {after : Discovery config lanes} {pollAt : Option Nat} :
      Keeps before after → Waits before after → Turn now before (.pending pollAt) after
  | failed {after : Discovery config lanes} {error : Failure n} {pollAt : Option Nat} :
      Keeps before after → Backs now before after →
      (error.isTerminal = true → after.schedule.isActive = false) →
      Turn now before (.failed error pollAt) after
  | stale {after : Discovery config lanes} {next following validUntil staleUntil : Nat}
      {pollAt : Option Nat} :
      Fixed before after → Waits before after → after.revision = before.revision →
      (before.Quiet → after.Quiet) →
      before.schedule.state = .fresh next validUntil staleUntil → validUntil ≤ now →
      after.schedule.state = .stale following staleUntil →
      Turn now before (.stale before.revision pollAt) after
  | expired {after : Discovery config lanes} {revision : Revision} {next : Option Nat}
      {pollAt : Option Nat} :
      Fixed before after → Waits before after → before.revision.tryNext = some revision →
      after.revision = revision → (before.Quiet → after.Quiet) →
      (∀ window, Follows window before.schedule.state →
        ∃ current, window = some current ∧ current.staleUntil ≤ now) →
      after.schedule.state = .idle next →
      Turn now before (.expired revision pollAt) after
  | published {after : Discovery config lanes} {snapshot : Snapshot} {metadata : Metadata}
      {pollAt : Option Nat} :
      Fixed before after → Resets now after →
      before.revision.tryNext = some snapshot.revision → after.revision = snapshot.revision →
        after.Reserved → after.Quiet →
      Follows after.schedule.window after.schedule.state →
      Turn now before (.published snapshot metadata pollAt) after

/-! ## The next poll -/

theorem nextPoll_covers (discovery : Discovery config lanes) (next : Option Nat) :
    Covers (discovery.nextPoll next) discovery := by
  constructor
  intro due live
  unfold nextPoll
  rw [live]
  cases next with
  | none => exact ⟨due, rfl, Nat.le_refl due⟩
  | some next => exact ⟨min next due, rfl, Nat.min_le_right ..⟩

/-! ## Keeping the snapshot -/

namespace Keeps

variable {first second third : Discovery config lanes}

theorem refl (discovery : Discovery config lanes) : Keeps discovery discovery :=
  ⟨⟨rfl, rfl⟩, rfl, fun _ follows => follows, fun quiet => quiet⟩

theorem trans (earlier : Keeps first second) (later : Keeps second third) :
    Keeps first third where
  fixed := ⟨later.fixed.source.trans earlier.fixed.source,
    later.fixed.refresh.trans earlier.fixed.refresh⟩
  revision := later.revision.trans earlier.revision
  follows window follows := later.follows window (earlier.follows window follows)
  quiet quiet := later.quiet (earlier.quiet quiet)

theorem withSchedule
    (follows : ∀ window, Follows window discovery.schedule.state → Follows window schedule.state)
    (quiet : discovery.Quiet → (discovery.withSchedule schedule).Quiet) :
    Keeps discovery (discovery.withSchedule schedule) := ⟨⟨rfl, rfl⟩, rfl, follows, quiet⟩

end Keeps

theorem stop_keeps (discovery : Discovery config lanes) :
    Keeps discovery (discovery.withSchedule discovery.schedule.stop) :=
  .withSchedule (fun _ follows => follows) fun _ _ => ⟨rfl, rfl⟩

theorem request_keeps (discovery : Discovery config lanes) (reason : Reason) :
    Keeps discovery (discovery.withSchedule (discovery.schedule.request reason)) := by
  apply Keeps.withSchedule
  · intro window follows
    rw [request_state]
    exact follows
  · intro quiet stopped
    dsimp only [withSchedule] at stopped ⊢
    rw [request_isActive] at stopped
    rw [request_stopped stopped]
    exact quiet stopped

theorem refreshAt_keeps (policy : Health.Cause → Option Reason)
    (discovery : Discovery config lanes) (now : Nat) (request : Request) :
    Keeps discovery (discovery.refreshAt policy now request) := by
  unfold refreshAt
  split
  · exact .refl discovery
  · rename_i reason asked
    have allowed : Keeps discovery (discovery.withSchedule (discovery.schedule.allow now)) := by
      apply Keeps.withSchedule
      · intro window follows
        exact follows.allow now
      · intro quiet stopped
        unfold withSchedule Schedule.allow at stopped ⊢
        dsimp only at stopped ⊢
        split at stopped
        · rename_i inactive
          rw [if_pos inactive]
          exact quiet stopped
        · rename_i active
          rw [if_neg active]
          cases state : discovery.schedule.state with
          | idle next =>
            simp only [state] at stopped
            exact quiet stopped
          | fresh next validUntil staleUntil =>
            simp only [state] at stopped
            exact quiet stopped
          | stale next staleUntil =>
            simp only [state] at stopped
            exact quiet stopped
    exact allowed.trans (request_keeps _ reason)

theorem failed_turn {error : Failure n} (h : discovery.failed now reason error = (action, after)) :
    Turn now discovery action after ∧ Covers action.pollAt after := by
  unfold failed at h
  split at h
  · cases h
    exact ⟨.failed (stop_keeps discovery) (.inl rfl) (fun _ => rfl), nextPoll_covers ..⟩
  · rename_i transient
    rcases discovery.schedule.fail_cases with ⟨stopped, failing⟩ | ⟨retry, counted, failing⟩
    · rw [failing] at h
      cases h
      exact ⟨.failed (.refl _) (.inl stopped) (fun _ => stopped), nextPoll_covers ..⟩
    · rw [failing] at h
      cases h
      have active : (Schedule.request { discovery.schedule with
          failures := some retry.increment } reason).isActive = true := by
        rw [request_isActive]
        rfl
      refine ⟨.failed (.withSchedule ?_ ?_) (.inr ⟨retry, counted, ?_, ?_⟩)
        (absurd · transient), nextPoll_covers ..⟩
      · intro window follows
        apply Follows.delay
        rw [request_state]
        exact follows
      · intro quiet stopped
        have running : true = false := active.symm.trans stopped
        simp at running
      · exact request_failures _ reason
      · exact delay_next active _

/-! ## Publishing -/

theorem publication_some {revision : Revision} (h : discovery.publication = some revision) :
    discovery.revision.tryNext = some revision ∧
      (discovery.source.isQuery = true → ∃ next, revision.tryNext = some next) := by
  unfold publication at h
  obtain ⟨next, first, h⟩ := Option.bind_eq_some_iff.mp h
  split at h
  · obtain ⟨second, reserved, h⟩ := Option.bind_eq_some_iff.mp h
    cases h
    exact ⟨first, fun _ => ⟨second, reserved⟩⟩
  · rename_i literal
    cases h
    exact ⟨first, fun query => absurd query literal⟩

theorem timing_next {done stop : Nat} {timing : Timing}
    (h : discovery.timing now done stop = .ok timing) :
    timing.next = now + discovery.refresh.minimum ∧
      now + discovery.refresh.minimum ≤ config.limit := by
  unfold Discovery.timing at h
  obtain ⟨next, added, h⟩ := Run.bind_ok.mp h
  obtain ⟨rfl, bound⟩ := tryAdd_ok added
  refine ⟨?_, bound⟩
  split at h
  · cases h
    rfl
  · obtain ⟨cap, -, h⟩ := Run.bind_ok.mp h
    obtain ⟨stale, -, h⟩ := Run.bind_ok.mp h
    cases h
    rfl

theorem timing_literal {done stop : Nat} {timing : Timing}
    (h : discovery.timing now done stop = .ok timing) (literal : discovery.source.isQuery = false) :
    timing.fresh = none := by
  unfold Discovery.timing at h
  obtain ⟨next, -, h⟩ := Run.bind_ok.mp h
  rw [literal] at h
  cases h
  rfl

theorem publish_turn {answer : Answer n} {times : Times}
    (h : discovery.publish now reason answer times = (action, after)) :
    Turn now discovery action after ∧ Covers action.pollAt after := by
  unfold publish at h
  split at h
  · exact failed_turn h
  · rename_i revision reserved
    obtain ⟨first, second⟩ := publication_some reserved
    split at h
    · exact failed_turn h
    · rename_i timing timed
      split at h
      · exact failed_turn h
      · rename_i metadata built
        cases h
        obtain ⟨waits, bound⟩ := timing_next timed
        refine ⟨.published ⟨rfl, rfl⟩ ⟨rfl, ?_, bound⟩ first rfl ?_ ?_ ?_, ?_⟩
        · rw [← waits]
          unfold Schedule.install Schedule.next
          cases timing.fresh <;> rfl
        · rintro ⟨due, live⟩
          refine second ?_
          cases query : discovery.source.isQuery with
          | true => rfl
          | false =>
            have idle := timing_literal timed query
            unfold Schedule.install Schedule.deadline at live
            simp [idle] at live
        · intro stopped
          simp [Schedule.install, Schedule.isActive] at stopped
        · unfold Schedule.install Schedule.window
          cases timing.fresh with
          | none => exact .idle
          | some pair => exact (Follows.fresh : Follows (some ⟨pair.1, pair.2⟩) _)
        · dsimp only [Action.pollAt]
          split
          · exact nextPoll_covers ..
          · exact nextPoll_covers ..

theorem resolveFor_turn {ttl : Nat} {address : SocketAddr}
    (h : resolveFor ttl discovery now reason address = (action, after)) :
    Turn now discovery action after ∧ Covers action.pollAt after := by
  unfold resolveFor at h
  split at h
  · exact failed_turn h
  · split at h
    · exact failed_turn h
    · exact publish_turn h

theorem settle_turn {ready : Ready n} (h : discovery.settle now ready = (action, after)) :
    Turn now discovery action after ∧ Covers action.pollAt after := by
  unfold settle at h
  split at h
  · split at h
    · exact failed_turn h
    · exact failed_turn h
  · dsimp only at h
    split at h
    · exact publish_turn h
    · exact failed_turn h

/-! ## Aging -/

/-- With a reserved revision the expiry of a snapshot withdraws it. -/
theorem expire_eq {revision : Revision} (next : discovery.revision.tryNext = some revision)
    (now : Nat) : discovery.expire (n := n) now =
      (.expired revision (discovery.schedule.expire now).refreshAt,
        { discovery.withSchedule (discovery.schedule.expire now) with revision := revision }) := by
  have same : (discovery.withSchedule (discovery.schedule.expire now)).revision.tryNext =
      some revision := next
  unfold expire
  dsimp only
  rw [same]
  rfl

theorem advance_fresh (h : schedule.advance now = (.fresh, aged)) : aged = schedule := by
  unfold Schedule.advance at h
  split at h
  · cases h
    rfl
  · split at h
    · simp at h
    · split at h
      · simp at h
      · cases h
        rfl
  · split at h
    · simp at h
    · cases h
      rfl

theorem advance_stale {next : Nat} (h : schedule.advance now = (.stale next, aged)) :
    ∃ validUntil staleUntil, schedule.state = .fresh next validUntil staleUntil ∧
      validUntil ≤ now ∧ aged = { schedule with state := .stale next staleUntil } := by
  unfold Schedule.advance at h
  split at h
  · simp at h
  · rename_i following validUntil staleUntil state
    split at h
    · simp at h
    · split at h
      · rename_i due
        cases h
        exact ⟨validUntil, staleUntil, state, by simpa [isDue] using due, rfl⟩
      · simp at h
  · split at h
    · simp at h
    · simp at h

theorem advance_expired (h : schedule.advance now = (.expired, aged)) :
    aged = schedule ∧ (∃ due, schedule.deadline = some due) ∧
      ∀ window, Follows window schedule.state →
        ∃ current, window = some current ∧ current.staleUntil ≤ now := by
  unfold Schedule.advance at h
  split at h
  · simp at h
  · rename_i next validUntil staleUntil state
    split at h
    · rename_i due
      cases h
      refine ⟨rfl, ⟨validUntil, by unfold Schedule.deadline; rw [state]⟩, ?_⟩
      intro window follows
      rw [state] at follows
      cases follows with
      | fresh => exact ⟨_, rfl, by simpa [isDue] using due⟩
    · split at h
      · simp at h
      · simp at h
  · rename_i next staleUntil state
    split at h
    · rename_i due
      cases h
      refine ⟨rfl, ⟨staleUntil, by unfold Schedule.deadline; rw [state]⟩, ?_⟩
      intro window follows
      rw [state] at follows
      cases follows with
      | stale => exact ⟨_, rfl, by simpa [isDue] using due⟩
    · simp at h

theorem withSchedule_same (discovery : Discovery config lanes) :
    discovery.withSchedule discovery.schedule = discovery := rfl

/-- Aging reports nothing and changes nothing, or it is a turn. -/
theorem grow_turn {busy : Bool} {due : Option Nat} {action : Option (Action n)}
    (reserved : discovery.Reserved) (h : discovery.grow now busy due = (action, after)) :
    (action = none ∧ after = discovery) ∨
      (∃ report, action = some report ∧ Turn now discovery report after ∧
        Covers report.pollAt after ∧
        Waits discovery after ∧ report.settles = false) := by
  unfold grow at h
  split at h
  · rename_i schedule aging
    cases h
    exact .inl ⟨rfl, by rw [advance_fresh aging]; rfl⟩
  · rename_i next schedule aging
    obtain ⟨validUntil, staleUntil, state, passed, rfl⟩ := advance_stale aging
    cases h
    have turned : (if busy then { discovery.schedule with
          refreshAt := none, state := .stale next staleUntil }
        else Schedule.request { discovery.schedule with
          refreshAt := none, state := .stale next staleUntil } .scheduled).state =
        .stale next staleUntil := by
      split
      · rfl
      · rw [request_state]
    have counted : (if busy then { discovery.schedule with
          refreshAt := none, state := .stale next staleUntil }
        else Schedule.request { discovery.schedule with
          refreshAt := none, state := .stale next staleUntil } .scheduled).failures =
        discovery.schedule.failures := by
      split
      · rfl
      · rw [request_failures]
    have waits : Waits discovery (discovery.withSchedule (if busy then { discovery.schedule with
          refreshAt := none, state := .stale next staleUntil }
        else Schedule.request { discovery.schedule with
          refreshAt := none, state := .stale next staleUntil } .scheduled)) := by
      refine ⟨counted, ?_⟩
      unfold withSchedule Schedule.next Schedule.isActive
      dsimp only
      rw [counted, turned, state]
    refine .inr ⟨_, rfl, .stale ⟨rfl, rfl⟩ waits rfl ?_ state passed turned, ?_, waits, rfl⟩
    · intro quiet stopped
      cases busy with
      | true => exact ⟨(quiet stopped).1, rfl⟩
      | false =>
        rw [if_neg (by decide)] at stopped ⊢
        dsimp only [withSchedule] at stopped ⊢
        rw [request_isActive] at stopped
        rw [request_stopped stopped]
        exact ⟨(quiet stopped).1, rfl⟩
    · dsimp only [Action.pollAt]
      split
      · exact nextPoll_covers ..
      · exact nextPoll_covers ..
  · rename_i schedule aging
    obtain ⟨rfl, live, passed⟩ := advance_expired aging
    obtain ⟨revision, next⟩ := reserved live
    rw [withSchedule_same, expire_eq next] at h
    cases h
    have waits : (discovery.schedule.expire now).next = discovery.schedule.next := by
      have same : (discovery.schedule.expire now).isActive = discovery.schedule.isActive := rfl
      unfold Schedule.next
      rw [same]
      split
      · rfl
      · rename_i active
        change discovery.schedule.next = _
        unfold Schedule.next
        rw [if_neg active]
    refine .inr ⟨_, rfl, .expired ⟨rfl, rfl⟩ ⟨rfl, waits⟩ next rfl ?_ passed rfl, ?_,
      ⟨rfl, waits⟩, rfl⟩
    · intro quiet stopped
      have none := quiet stopped
      refine ⟨none.1, ?_⟩
      have inactive : discovery.schedule.isActive = false := stopped
      unfold Schedule.expire
      dsimp only [withSchedule]
      rw [inactive]
      rfl
    · constructor
      intro due live
      simp [withSchedule, Schedule.expire, Schedule.deadline] at live

end Discovery

end Dope.Dns.Lookup
