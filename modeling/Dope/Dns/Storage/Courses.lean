import Dope.Dns.Storage.Retire

/-! # The course of an attempt

What a reply, a failure or a fallback leaves of an attempt: nothing, the same
attempt on another transport, the next attempt of its budget, or the first one
for a name that an alias leads to. Only the last two set a new deadline, and it
does not lie beyond the hard deadline.
-/

namespace Dope.Dns

open Run

/-! ## Alias replies -/

/-- An alias takes a hop. -/
def Reply.Proper {n : Nat} : Reply n → Prop
  | .aliased _ _ hops => 0 < hops.count
  | _ => True

variable {packet : Packet} {name : Host.Name} {chain : Chain} {hops : Hops}

namespace Wire

/-- A name on the wire is reached by a hop. -/
def Chain.Followed.Moved (followed : Chain.Followed) : Prop :=
  followed.owner = .expected ∨ 0 < followed.hops.count

theorem Hops.advance_pos {hops' : Hops} (h : hops.advance = .ok hops') : 0 < hops'.count := by
  unfold Hops.advance Hops.add at h
  split at h
  · cases h
    dsimp only
    omega
  · simp at h

theorem Chain.follow_moved {fuel : Nat} {followed last : Chain.Followed} (moved : followed.Moved)
    (h : chain.follow packet name fuel followed = .ok (.ok last)) : last.Moved := by
  induction fuel generalizing followed with
  | zero => simp [Chain.follow] at h
  | succ fuel ih =>
    unfold Chain.follow at h
    obtain ⟨next, -, h⟩ := bind_ok.mp h
    cases next with
    | none =>
      cases h
      exact moved
    | some edge =>
      dsimp only at h
      split at h
      · simp at h
      · rename_i hops advanced
        exact ih (.inr (Hops.advance_pos advanced)) h

theorem Chain.resolve_proper {n : Nat} {records : Records} {family : Family.Version}
    {reply : Reply n} (h : chain.resolve packet records name family = .ok reply) :
    reply.Proper := by
  unfold Chain.resolve at h
  obtain ⟨result, ran, h⟩ := bind_ok.mp h
  cases result with
  | error error =>
    cases h
    trivial
  | ok followed =>
    have moved := Chain.follow_moved (.inl rfl) ran
    dsimp only at h
    obtain ⟨items, -, h⟩ := bind_ok.mp h
    obtain ⟨gathered, -, h⟩ := bind_ok.mp h
    cases gathered with
    | error actual =>
      cases h
      trivial
    | ok found =>
      dsimp only at h
      split at h
      · cases h
        trivial
      · rcases moved with start | hop
        · rw [start] at h
          cases h
          trivial
        · split at h
          · cases h
            trivial
          · obtain ⟨expanded, -, h⟩ := bind_ok.mp h
            cases h
            exact hop

namespace Decoder

variable {n : Nat} {name : Host.Name} {family : Family.Version} {reply : Reply n}

theorem classify_proper {records : Records} {flags code : Nat}
    (h : classify packet chain records name family flags code = .ok reply) : reply.Proper := by
  unfold classify at h
  split at h
  · cases h
    trivial
  · split at h
    · cases h
      trivial
    · split at h
      · exact Chain.resolve_proper h
      · split at h
        · cases h
          trivial
        · split at h <;> cases h <;> trivial

theorem read_proper {seed : Option Cookies.Client} {body : Envelope n}
    (h : read packet name family seed = .ok body) : body.reply.Proper := by
  unfold read at h
  obtain ⟨⟨flags, position⟩, -, h⟩ := bind_ok.mp h
  dsimp only at h
  split at h
  · simp at h
  · obtain ⟨⟨query, position⟩, -, h⟩ := bind_ok.mp h
    obtain ⟨⟨answer, position⟩, -, h⟩ := bind_ok.mp h
    obtain ⟨⟨auth, position⟩, -, h⟩ := bind_ok.mp h
    obtain ⟨⟨extra, after⟩, -, h⟩ := bind_ok.mp h
    dsimp only at h
    split at h
    · simp at h
    · obtain ⟨position, -, h⟩ := bind_ok.mp h
      obtain ⟨⟨chain, records, position⟩, -, h⟩ := bind_ok.mp h
      obtain ⟨⟨extension, position⟩, -, h⟩ := bind_ok.mp h
      obtain ⟨⟨extension, position⟩, -, h⟩ := bind_ok.mp h
      dsimp only at h
      split at h
      · simp at h
      · obtain ⟨reply, classified, h⟩ := bind_ok.mp h
        cases h
        exact classify_proper classified

theorem decode_proper {decoder : Decoder} (h : decoder.decode name family = .ok reply) :
    reply.Proper := by
  unfold decode at h
  obtain ⟨body, ran, h⟩ := bind_ok.mp h
  cases h
  exact read_proper ran

theorem udp_proper {decoder : Decoder} {seed : Cookies.Client} {cookie : Cookies.Server}
    (h : decoder.udp name family seed = .ok (.authenticated reply cookie)) : reply.Proper := by
  unfold udp at h
  obtain ⟨body, ran, h⟩ := bind_ok.mp h
  split at h
  · simp at h
  · split at h
    · simp at h
    · cases h
      exact read_proper ran

end Decoder

end Wire

namespace Storage

variable {config : Config} {n lanes : Nat}

/-! ## Where an attempt goes -/

/-- The same attempt, perhaps on another transport. -/
structure Rebinds (before after : Attempt config) : Prop where
  name : after.request.name = before.request.name
  hops : after.request.hops = before.request.hops
  attempt : after.request.attempt = before.request.attempt
  deadline : after.deadline = before.deadline

/-- A new deadline is set by the next attempt for the same name, or by the first
attempt for a name that is more hops away. -/
inductive Goes (hard : Nat) (before after : Attempt config) : Prop where
  | rebinds : Rebinds before after → Goes hard before after
  | retries : after.request.name = before.request.name →
      after.request.hops = before.request.hops →
      after.request.attempt = before.request.attempt + 1 →
      after.request.attempt < config.attempts → after.deadline ≤ hard → Goes hard before after
  | follows : before.request.hops.count < after.request.hops.count →
      after.request.attempt = 0 → after.deadline ≤ hard → Goes hard before after

theorem Goes.refl (hard : Nat) (attempt : Attempt config) : Goes hard attempt attempt :=
  .rebinds ⟨rfl, rfl, rfl, rfl⟩

/-- Whatever attempt the branch holds is related to the one before. -/
def Leaves (R : Attempt config → Attempt config → Prop) (before : Attempt config)
    (branch : Branch config n) : Prop :=
  ∀ after, branch.attempt = some after → R before after

section
variable {R : Attempt config → Attempt config → Prop} {attempt : Attempt config}

theorem Leaves.quiet {branch : Branch config n} (quiet : branch.Quiet) :
    Leaves R attempt branch := by
  intro after held
  rw [show branch.attempt = none from quiet] at held
  simp at held

theorem Leaves.pending {after : Attempt config} (related : R attempt after) :
    Leaves R attempt (.pending after : Branch config n) := by
  intro held same
  cases same
  exact related

theorem Leaves.mono {S : Attempt config → Attempt config → Prop} {branch : Branch config n}
    (leaves : Leaves R attempt branch) (weaker : ∀ after, R attempt after → S attempt after) :
    Leaves S attempt branch :=
  fun after held => weaker after (leaves after held)

end

/-! ## The attempt operations -/

theorem Retry.deadline_le (config : Config) (now hard : Nat) :
    Retry.deadline config now hard ≤ hard := by
  unfold Retry.deadline
  split
  · exact Nat.min_le_right ..
  · exact Nat.le_refl hard

namespace Attempt

variable {attempt : Attempt config} {registry registry' : Registry lanes} {place : Place lanes}
  {branch : Branch config n} {hard now : Nat}

theorem finish_quiet {outcome : Outcome n}
    (h : attempt.finish registry outcome = .ok (registry', branch)) : branch.Quiet := by
  rw [finish_branch h]
  exact Branch.quiet_ofOutcome outcome

/-- An answer ends its branch, and its hops count with those that led to the name. -/
theorem apply_addresses {values : Addresses n} {ttl : Nat}
    (h : attempt.apply (.addresses values ttl hops) hard now registry place = .ok (registry',
      branch)) :
    if attempt.request.hops.count + hops.count ≤ maxAliasHops then
      (∃ stop, branch = .done values stop) ∨ ∃ cause, branch = .failed (.timing cause)
    else branch = .failed (.malformed
      (.aliasHops (attempt.request.hops.count + hops.count) maxAliasHops)) := by
  unfold apply Request.addHops Hops.add at h
  dsimp only at h
  by_cases short : attempt.request.hops.count + hops.count ≤ maxAliasHops
  · rw [dif_pos short] at h
    rw [if_pos short]
    dsimp only [Except.mapError] at h
    split at h
    · exact .inr ⟨_, finish_branch h⟩
    · exact .inl ⟨_, finish_branch h⟩
  · rw [dif_neg short] at h
    rw [if_neg short]
    exact finish_branch h

theorem stream_rebinds (h : attempt.stream registry place = .ok (registry', branch)) :
    Leaves Rebinds attempt branch := by
  unfold stream at h
  obtain ⟨started, ran, h⟩ := bind_ok.mp h
  cases started with
  | none => exact .quiet (finish_quiet h)
  | some pair =>
    cases h
    unfold Request.startStream at ran
    split at ran
    · simp at ran
    · obtain ⟨live, -, ran⟩ := bind_ok.mp ran
      cases ran
      exact .pending ⟨rfl, rfl, rfl, rfl⟩

theorem cookie_rebinds (h : attempt.cookie registry place = .ok (registry', branch)) :
    Leaves Rebinds attempt branch := by
  unfold cookie at h
  split at h
  · rename_i request retried
    cases h
    unfold Request.retryCookie at retried
    split at retried
    · simp at retried
    · cases retried
      exact .pending ⟨rfl, rfl, rfl, rfl⟩
  · exact stream_rebinds h

theorem retry_hops {error : Error.Kind}
    (h : attempt.retry hard now error registry place = .ok (registry', branch)) :
    Leaves (fun before after => after.request.hops = before.request.hops) attempt branch := by
  unfold retry at h
  split at h
  · exact .quiet (finish_quiet h)
  · split at h
    · exact .quiet (finish_quiet h)
    · split at h
      · exact .quiet (finish_quiet h)
      · obtain ⟨⟨request, live⟩, moved, h⟩ := bind_ok.mp h
        cases h
        apply Leaves.pending
        unfold Request.retry at moved
        dsimp only at moved
        split at moved
        · cases moved
          rfl
        · obtain ⟨transferred, -, moved⟩ := bind_ok.mp moved
          cases moved
          rfl

theorem retry_goes {error : Error.Kind}
    (h : attempt.retry hard now error registry place = .ok (registry', branch)) :
    Leaves (Goes hard) attempt branch := by
  have hops := retry_hops h
  cases retry_spends h with
  | @next attempt' _ _ grown name budget due =>
    apply Leaves.pending
    apply Goes.retries name (hops attempt' rfl) grown budget
    rw [due]
    exact Retry.deadline_le config now hard
  | terminal | late | exhausted => exact .quiet rfl

theorem follow_goes {ttl : Nat} (taken : 0 < hops.count)
    (h : attempt.follow name ttl hops hard now registry place = .ok (registry', branch)) :
    Leaves (Goes hard) attempt branch := by
  unfold follow at h
  split at h
  · exact .quiet (finish_quiet h)
  · split at h
    · exact .quiet (finish_quiet h)
    · rename_i request moved
      cases h
      unfold Request.tryAlias at moved
      obtain ⟨total, added, moved⟩ := bind_ok.mp moved
      cases moved
      unfold Request.addHops Hops.add at added
      split at added
      · cases added
        apply Leaves.pending
        apply Goes.follows
        · dsimp only
          omega
        · rfl
        · exact Retry.deadline_le config now hard
      · simp [Except.mapError] at added

theorem apply_goes {reply : Reply n} (proper : reply.Proper)
    (h : attempt.apply reply hard now registry place = .ok (registry', branch)) :
    Leaves (Goes hard) attempt branch := by
  unfold apply at h
  cases reply with
  | addresses values ttl hops =>
    dsimp only at h
    split at h
    · exact .quiet (finish_quiet h)
    · split at h
      · exact .quiet (finish_quiet h)
      · exact .quiet (finish_quiet h)
  | aliased name ttl hops =>
    dsimp only at h
    split at h
    · simp at h
    · exact .quiet (finish_quiet h)
    · exact follow_goes proper h
  | noData => exact .quiet (finish_quiet h)
  | truncated => exact (stream_rebinds h).mono fun _ => .rebinds
  | nameError => exact .quiet (finish_quiet h)
  | refused | server => exact retry_goes h
  | capacity | malformed => exact .quiet (finish_quiet h)

end Attempt

end Storage

end Dope.Dns
