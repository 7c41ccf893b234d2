import Dope.Dns.Storage.Runs

/-! # Tracking the slots

A relation between ledgers that holds for every elementary change of the slots
holds for every call that is made of such changes. The changes are: a branch is
written, a finished query completes, and a lane is retired. Which branches may
be written is left open, as long as those that wait for nothing may be.
-/

namespace Dope.Dns.Storage

open Index Run Function

variable {config : Config} {n lanes : Nat}

/-! ## Branches that wait -/

/-- The branch waits on the stream of a server. -/
def Branch.waitsOn (server : Tx.Server) : Branch config n → Bool
  | .waiting attempt _ => attempt.request.stream == some server
  | _ => false

/-- The branch waits for nothing. -/
def Branch.Still (branch : Branch config n) : Prop := ∀ server, branch.waitsOn server = false

variable {name : Host.Name}

section
variable {attempt : Attempt config} {registry registry' : Registry lanes} {place : Place lanes}
  {branch : Branch config n} {hard now : Nat}

theorem Branch.still_ofOutcome (outcome : Outcome n) :
    (Branch.ofOutcome outcome : Branch config n).Still := by
  intro server
  cases outcome <;> rfl

theorem Attempt.finish_branch {outcome : Outcome n}
    (h : attempt.finish registry outcome = .ok (registry', branch)) :
    branch = .ofOutcome outcome := by
  unfold finish at h
  obtain ⟨live, -, h⟩ := bind_ok.mp h
  cases h
  rfl

theorem Attempt.finish_still {outcome : Outcome n}
    (h : attempt.finish registry outcome = .ok (registry', branch)) : branch.Still := by
  rw [finish_branch h]
  exact Branch.still_ofOutcome outcome

theorem Attempt.stream_still (h : attempt.stream registry place = .ok (registry', branch)) :
    branch.Still := by
  unfold stream at h
  obtain ⟨started, -, h⟩ := bind_ok.mp h
  cases started with
  | some pair =>
    cases h
    exact fun _ => rfl
  | none => exact finish_still h

theorem Attempt.cookie_still (h : attempt.cookie registry place = .ok (registry', branch)) :
    branch.Still := by
  unfold cookie at h
  split at h
  · cases h
    exact fun _ => rfl
  · exact stream_still h

theorem Attempt.retry_still {error : Error.Kind}
    (h : attempt.retry hard now error registry place = .ok (registry', branch)) : branch.Still := by
  unfold retry at h
  split at h
  · exact finish_still h
  · split at h
    · exact finish_still h
    · split at h
      · exact finish_still h
      · obtain ⟨moved, -, h⟩ := bind_ok.mp h
        cases h
        exact fun _ => rfl

theorem Attempt.follow_still {ttl : Nat} {hops : Hops}
    (h : attempt.follow name ttl hops hard now registry place = .ok (registry', branch)) :
    branch.Still := by
  unfold follow at h
  split at h
  · exact finish_still h
  · split at h
    · exact finish_still h
    · cases h
      exact fun _ => rfl

theorem Attempt.apply_still {reply : Reply n}
    (h : attempt.apply reply hard now registry place = .ok (registry', branch)) : branch.Still := by
  unfold apply at h
  cases reply with
  | addresses values ttl hops =>
    dsimp only at h
    split at h
    · exact finish_still h
    · split at h
      · exact finish_still h
      · exact finish_still h
  | aliased name ttl hops =>
    dsimp only at h
    split at h
    · simp at h
    · exact finish_still h
    · exact follow_still h
  | noData => exact finish_still h
  | truncated => exact stream_still h
  | nameError => exact finish_still h
  | refused | server => exact retry_still h
  | capacity | malformed => exact finish_still h

end

/-! ## Tracked relations -/

/-- The relation holds for every elementary change that writes branches of the
given kind. -/
structure Tracks (fresh : Branch config n → Prop)
    (R : Ledger config n lanes → Ledger config n lanes → Prop) : Prop where
  still : ∀ branch, branch.Still → fresh branch
  slots : ∀ {before after}, after.slots = before.slots → R before after
  trans : ∀ {first second third}, R first second → R second third → R first third
  put : ∀ ledger place registry branch, fresh branch → R ledger (ledger.put place registry branch)
  complete : ∀ ledger lane now, R ledger (ledger.complete lane now)
  retire : ∀ ledger lane registry,
    R ledger { ledger.setSlot lane (.idle none) with registry := registry }

variable {now : Nat} {target : Tx.Server} {active : Active config n lanes}
  {registry' registry : Registry lanes} {query query' : Query config n} {reason : Retirement}
  {cause : Error.Kind} {attempt : Attempt config} {permits : Nat} {α : Type}

section
variable {fresh : Branch config n → Prop}
  {R : Ledger config n lanes → Ledger config n lanes → Prop} (tracks : Tracks fresh R)
include tracks

theorem Tracks.refl (ledger : Ledger config n lanes) : R ledger ledger := tracks.slots rfl

namespace Ledger

variable {ledger ledger' : Ledger config n lanes} {place : Place lanes}

omit tracks in
theorem setSlot_here (ledger : Ledger config n lanes) (lane : Fin lanes) (slot : Slot config n)
    (registry : Registry lanes) :
    ({ ledger.setSlot lane slot with registry := registry } : Ledger config n lanes).slots lane =
      slot := by
  dsimp only
  rw [setSlot_slots, update_self]

theorem retireLane_tracks {lane : Fin lanes} (h : ledger.retireLane lane = .ok ledger') :
    R ledger ledger' := by
  unfold retireLane at h
  obtain ⟨⟨slot, registry⟩, retired, h⟩ := bind_ok.mp h
  cases h
  have idle : slot = .idle none := by
    unfold Slot.retire at retired
    split at retired
    · cases retired
      rfl
    · obtain ⟨rows, -, retired⟩ := bind_ok.mp retired
      cases retired
      rfl
  rw [idle]
  exact tracks.retire ledger lane registry

theorem accept_tracks {filter : Filter} {decode : Request config → Tx.Lease → Option α}
    {decoded : α} (h : ledger.accept place filter decode = .ok (some (active, decoded))) :
    R ledger active.ledger := by
  rcases accept_cases ledger place filter decode with none | ⟨query, attempt, transaction,
    value, -, -, -, -, ran⟩
  · rw [none] at h
    simp at h
  · rw [ran] at h
    cases h
    exact tracks.put _ _ _ _ (tracks.still _ fun _ => rfl)

theorem claim_tracks {filter : Filter} (h : ledger.claim place filter = .ok (some active)) :
    R ledger active.ledger := by
  unfold claim at h
  obtain ⟨accepted, ran, h⟩ := bind_ok.mp h
  cases accepted with
  | none => simp at h
  | some entry =>
    cases h
    exact accept_tracks tracks ran

theorem setQuery_tracks {lane : Fin lanes} (here : ledger.slots lane = .query query)
    (family : Family.Version) {branch : Branch config n} (still : branch.Still)
    (registry : Registry lanes) :
    R ledger { ledger.setSlot lane (.query (query.set family branch)) with
      registry := registry } := by
  have written := tracks.put ledger (lane, family) registry branch (tracks.still _ still)
  rwa [put_query here] at written

omit tracks in
theorem setSlot_setSlot (ledger : Ledger config n lanes) (lane : Fin lanes)
    (first second : Slot config n) (registry : Registry lanes) :
    ({ ledger.setSlot lane first with registry := registry } : Ledger config n lanes).setSlot
        lane second = { ledger.setSlot lane second with registry := registry } := by
  have slots : (fun l => if l = lane then second else (ledger.setSlot lane first).slots l) =
      (ledger.setSlot lane second).slots := by
    funext other
    simp only [setSlot]
    split <;> rfl
  unfold setSlot at slots ⊢
  dsimp only at slots ⊢
  rw [slots]

theorem failStreams_tracks {lane : Fin lanes} {families : List Family.Version}
    (here : ledger.slots lane = .query query)
    (h : query.failStreams cause lane families registry = .ok (query', registry')) :
    R ledger { ledger.setSlot lane (.query query') with registry := registry' } := by
  induction families generalizing ledger query registry with
  | nil =>
    cases h
    rw [setSlot_same here]
    exact tracks.slots rfl
  | cons family rest ih =>
    unfold Query.failStreams at h
    split at h
    · obtain ⟨retired, -, h⟩ := bind_ok.mp h
      have failed : (Branch.failed cause : Branch config n).Still := fun _ => rfl
      have written := setQuery_tracks tracks here family failed retired
      have later := ih (setSlot_here ledger lane _ retired) h
      rw [setSlot_setSlot] at later
      exact tracks.trans written later
    · exact ih here h

theorem failStopped_tracks {lane : Fin lanes} (here : ledger.slots lane = .query query)
    (h : query.failStopped lane registry = .ok (query', registry')) :
    R ledger { ledger.setSlot lane (.query query') with registry := registry' } := by
  unfold Query.failStopped at h
  split at h
  · cases h
    rw [setSlot_same here]
    exact tracks.slots rfl
  · exact failStreams_tracks tracks here h

omit tracks in
theorem expireRow_still {branch branch' : Branch config n} {hard : Nat}
    (h : Query.expireRow branch now hard registry place = .ok (registry', branch')) :
    branch' = branch ∨ branch'.Still := by
  unfold Query.expireRow at h
  split at h
  · cases h
    exact .inl rfl
  · split at h
    · cases h
      exact .inl rfl
    · split at h
      · exact .inr (Attempt.retry_still h)
      · exact .inr (Attempt.retry_still h)
      · cases h
        exact .inl rfl

theorem expireRows_tracks {lane : Fin lanes} {families : List Family.Version}
    (here : ledger.slots lane = .query query)
    (h : query.expireRows now lane families registry = .ok (query', registry')) :
    R ledger { ledger.setSlot lane (.query query') with registry := registry' } := by
  induction families generalizing ledger query registry with
  | nil =>
    cases h
    rw [setSlot_same here]
    exact tracks.slots rfl
  | cons family rest ih =>
    unfold Query.expireRows at h
    obtain ⟨⟨expired, branch⟩, ran, h⟩ := bind_ok.mp h
    rcases expireRow_still ran with same | still
    · have kept : query.set family branch = query := by
        unfold Query.set
        rw [same]
        congr
        funext other
        split
        · rename_i mine
          rw [mine]
        · rfl
      dsimp only at h
      rw [kept] at h
      exact ih here h
    · have written := setQuery_tracks tracks here family still expired
      have later := ih (setSlot_here ledger lane _ expired) h
      rw [setSlot_setSlot] at later
      exact tracks.trans written later

theorem answer_tracks (ledger : Ledger config n lanes) (lane : Fin lanes) :
    R ledger (ledger.setSlot lane (ledger.slots lane).answer.2) := by
  cases here : ledger.slots lane with
  | query query =>
    rw [show (Slot.query query : Slot config n).answer.2 = .query query from rfl,
      setSlot_same here]
    exact tracks.refl ledger
  | idle completion =>
    have idle : (Slot.idle completion : Slot config n).answer.2 = .idle none := by
      cases completion <;> rfl
    rw [idle]
    exact tracks.retire ledger lane ledger.registry

theorem pollLane_tracks {lane : Fin lanes} {answer : Poll n}
    (h : ledger.pollLane lane now = .ok (answer, ledger')) : R ledger ledger' := by
  unfold pollLane at h
  obtain ⟨⟨shown, slot, registry⟩, polled, built⟩ := bind_ok.mp h
  cases built
  unfold Slot.poll at polled
  cases here : ledger.slots lane with
  | idle completion =>
    rw [here] at polled
    cases polled
    rw [← here]
    exact answer_tracks tracks ledger lane
  | query query =>
    rw [here] at polled
    obtain ⟨⟨stopped, kept⟩, ran, polled⟩ := bind_ok.mp polled
    obtain ⟨⟨expired, left⟩, ran', polled⟩ := bind_ok.mp polled
    cases polled
    have first := failStopped_tracks tracks here ran
    have second := expireRows_tracks tracks (setSlot_here ledger lane _ kept) ran'
    rw [setSlot_setSlot] at second
    have third := tracks.complete
      { ledger.setSlot lane (.query expired) with registry := registry } lane now
    have fourth := answer_tracks tracks (Ledger.complete
      { ledger.setSlot lane (.query expired) with registry := registry } lane now) lane
    refine tracks.trans first (tracks.trans second (tracks.trans third
      (tracks.trans fourth (tracks.slots ?_))))
    dsimp only [complete]
    rw [setSlot_here, setSlot_slots, setSlot_slots, setSlot_slots, setSlot_slots, update_idem,
      update_idem, update_self]

end Ledger

namespace Active

variable {active : Active config n lanes} {ledger : Ledger config n lanes}

theorem close_tracks
    {step : Registry lanes → Place lanes → Except Fault (Registry lanes × Branch config n)}
    (h : active.close step = .ok ledger)
    (still : ∀ {registry branch}, step active.ledger.registry active.place =
      .ok (registry, branch) → branch.Still) : R active.ledger ledger := by
  unfold close at h
  obtain ⟨⟨registry, branch⟩, ran, h⟩ := bind_ok.mp h
  cases h
  exact tracks.put _ _ _ _ (tracks.still _ (still ran))

theorem apply_tracks {reply : Reply n} (h : active.apply reply now = .ok ledger) :
    R active.ledger ledger :=
  close_tracks tracks h fun ran => Attempt.apply_still ran

theorem failed_tracks (h : active.failed now cause = .ok ledger) : R active.ledger ledger :=
  close_tracks tracks h fun ran => Attempt.retry_still ran

theorem stream_tracks (h : active.stream = .ok ledger) : R active.ledger ledger :=
  close_tracks tracks h fun ran => Attempt.stream_still ran

theorem cookie_tracks (h : active.cookie = .ok ledger) : R active.ledger ledger :=
  close_tracks tracks h fun ran => Attempt.cookie_still ran

theorem drop_tracks (h : active.drop = .ok ledger) : R active.ledger ledger := by
  refine close_tracks tracks h ?_
  intro registry branch ran
  cases ran
  exact fun _ => rfl

end Active

namespace Claim

variable {claim : Claim config n lanes} {ledger : Ledger config n lanes}

theorem take_tracks {picker : Picker (Place lanes)} {plane : Plane}
    (h : take picker ledger plane = some claim) : R ledger claim.ledger ∧ claim.plane = plane := by
  unfold take at h
  split at h
  · simp at h
  · cases h
    exact ⟨tracks.slots rfl, rfl⟩

theorem drop_tracks (claim : Claim config n lanes) : R claim.ledger claim.drop :=
  tracks.slots rfl

/-- A claim that is not ready goes back; a ready one is in hand for its plane. -/
theorem ready_tracks (ok : claim.Ok attempt)
    {answer : Ledger config n lanes ⊕ Ready config n lanes} (h : claim.ready now = .ok answer) :
    R claim.ledger (answer.elim id (·.claim.ledger)) ∧
      ∀ ready, answer = .inr ready → planeOf ready.attempt.request.stream = claim.plane := by
  have row := ok.row
  unfold ready at h
  cases here : claim.ledger.slots claim.place.1 with
  | idle completion => simp [viewOf, here] at row
  | query query =>
    have branch : query.branches claim.place.2 = .pending attempt := by
      rw [← row]
      exact (viewOf_query here claim.place.2).symm
    rw [here] at h
    dsimp only at h
    rw [branch] at h
    dsimp only at h
    split at h
    · cases h
      exact ⟨drop_tracks tracks claim, by simp⟩
    · cases h
      refine ⟨tracks.put _ _ _ _ (tracks.still _ fun _ => rfl), ?_⟩
      intro ready same
      cases same
      exact ok.plane.symm

variable {ready : Ready config n lanes} {ids : Tx.Table (Place lanes)}

theorem commit_tracks {lease : Tx.Lease} (new : fresh (.waiting ready.attempt lease)) :
    R ready.claim.ledger (ready.commit ids lease) := tracks.put _ _ _ _ new

theorem restore_tracks : R ready.claim.ledger (ready.restore ids) := by
  have written : R ready.claim.ledger (ready.write ids (.pending ready.attempt)).ledger :=
    tracks.put _ _ _ _ (tracks.still _ fun _ => rfl)
  exact tracks.trans written (drop_tracks tracks _)

theorem fail_tracks {answer : Fin lanes × Ledger config n lanes}
    (h : ready.fail ids cause = .ok answer) : R ready.claim.ledger answer.2 := by
  unfold Ready.fail at h
  obtain ⟨live, -, h⟩ := bind_ok.mp h
  cases h
  exact tracks.put _ _ _ _ (tracks.still _ fun _ => rfl)

end Claim

theorem Finish.apply_tracks (finish : Finish α lanes) (ledger : Ledger config n lanes) (now : Nat) :
    R ledger (finish.apply ledger now).2 := by
  cases finish with
  | done value => exact tracks.refl ledger
  | complete value lane => exact tracks.complete ledger lane now

open Claim in
theorem Udp.start_tracks {pick : Tx.Id → Picker Tx.Id} {claim : Claim config n lanes}
    (ok : claim.Ok attempt) (datagram : claim.plane = planeOf none)
    (udp : ∀ attempt lease, attempt.request.stream = none → fresh (.waiting attempt (.udp lease)))
    {random : Tx.Random} {submit : Submission}
    {answer : Finish Submission lanes × Ledger config n lanes}
    (h : Udp.start pick claim now random submit = .ok answer) : R claim.ledger answer.2 := by
  unfold Udp.start at h
  obtain ⟨taken, ran, h⟩ := bind_ok.mp h
  obtain ⟨begun, plane⟩ := ready_tracks tracks ok ran
  cases taken with
  | inl ledger =>
    cases h
    exact begun
  | inr ready =>
    have none : ready.attempt.request.stream = none :=
      planeOf_injective ((plane ready rfl).trans datagram)
    dsimp only at h
    split at h
    · obtain ⟨failed, ran, h⟩ := bind_ok.mp h
      cases h
      exact tracks.trans begun (fail_tracks tracks ran)
    · split at h
      · cases h
        exact tracks.trans begun (commit_tracks tracks (udp _ _ none))
      · cases h
        exact tracks.trans begun (restore_tracks tracks)
      · obtain ⟨failed, ran, h⟩ := bind_ok.mp h
        cases h
        exact tracks.trans begun (fail_tracks tracks ran)

open Claim in
theorem Tcp.submit_tracks {claim : Claim config n lanes} (ok : claim.Ok attempt)
    {other : Tx.Server} (stream : claim.plane = planeOf (some other))
    (tcp : ∀ attempt id, attempt.request.stream = some other → fresh (.waiting attempt (.tcp id)))
    {id : Tx.Id} {submit : Stream.Frame → Stream.Admission}
    {answer : Finish Stream.Submission lanes × Ledger config n lanes}
    (h : Tcp.submit claim now id submit = .ok answer) : R claim.ledger answer.2 := by
  unfold Tcp.submit at h
  obtain ⟨taken, ran, h⟩ := bind_ok.mp h
  obtain ⟨begun, plane⟩ := ready_tracks tracks ok ran
  cases taken with
  | inl ledger =>
    cases h
    exact begun
  | inr ready =>
    have same : ready.attempt.request.stream = some other :=
      planeOf_injective ((plane ready rfl).trans stream)
    dsimp only at h
    split at h
    · obtain ⟨failed, ran, h⟩ := bind_ok.mp h
      cases h
      exact tracks.trans begun (fail_tracks tracks ran)
    · split at h
      · cases h
        exact tracks.trans begun (commit_tracks tracks (tcp _ _ same))
      · cases h
        exact tracks.trans begun (restore_tracks tracks)
      · cases h
        exact tracks.trans begun (restore_tracks tracks)
      · obtain ⟨failed, ran, h⟩ := bind_ok.mp h
        cases h
        exact tracks.trans begun (fail_tracks tracks ran)
      · obtain ⟨failed, ran, h⟩ := bind_ok.mp h
        cases h
        exact tracks.trans begun (fail_tracks tracks ran)

namespace Queries

variable {queries next : Queries config n lanes}

theorem cleanup_tracks {picker : Picker (Fin lanes)} {finished : Bool}
    (h : cleanup picker permits queries = .ok (finished, next)) : R queries.inner next.inner := by
  induction permits generalizing queries with
  | zero =>
    unfold cleanup at h
    split at h
    · cases h
      exact tracks.refl _
    · cases h
      exact tracks.refl _
  | succ permits ih =>
    unfold cleanup at h
    split at h
    · cases h
      exact tracks.refl _
    · obtain ⟨inner, retired, h⟩ := bind_ok.mp h
      exact tracks.trans (Ledger.retireLane_tracks tracks retired) (ih h)

theorem claim_tracks {picker : Picker (Fin lanes)} {lane : Option (Fin lanes)}
    (h : claim picker queries = .ok (lane, next)) : R queries.inner next.inner := by
  unfold claim at h
  split at h
  · cases h
    exact tracks.refl _
  · split at h
    · cases h
      exact tracks.refl _
    · obtain ⟨inner, retired, h⟩ := bind_ok.mp h
      cases h
      exact Ledger.retireLane_tracks tracks retired

theorem settleUdp_tracks {data : Wire.Datagram n} {cookie : Tx.Cookie}
    {ledger : Ledger config n lanes} (h : settleUdp active data cookie target now = .ok ledger) :
    R active.ledger ledger := by
  have cached : ∀ value, R active.ledger (active.cache cookie target value).2.ledger :=
    fun _ => tracks.slots rfl
  unfold settleUdp at h
  cases data with
  | authenticated reply value =>
    exact tracks.trans (cached value) (Active.apply_tracks tracks h)
  | badCookie value =>
    have pair : active.cache cookie target value =
        ((active.cache cookie target value).1, (active.cache cookie target value).2) := rfl
    dsimp only at h
    rw [pair] at h
    cases flag : (active.cache cookie target value).1 with
    | true =>
      rw [flag] at h
      exact tracks.trans (cached value) (Active.cookie_tracks tracks h)
    | false =>
      rw [flag] at h
      exact tracks.trans (cached value) (Active.stream_tracks tracks h)
  | streamRequired => exact Active.stream_tracks tracks h

theorem receiveUdp_tracks {source : SocketAddr} {bytes : Bytes}
    (h : queries.receiveUdp source bytes now = .ok next) : R queries.inner next.inner := by
  rcases receiveUdp_cases h with rfl | ⟨_, _, active, _, _, _, inner, -, -, ran, settled, rfl⟩
  · exact tracks.refl _
  · exact tracks.trans (Ledger.accept_tracks tracks ran)
      (tracks.trans (settleUdp_tracks tracks settled) (tracks.complete _ _ _))

theorem receiveStream_tracks {message : Wire.Decoder}
    (h : queries.receiveStream target message now = .ok next) : R queries.inner next.inner := by
  rcases receiveStream_cases h with rfl | ⟨_, active, _, inner, ran, settled, rfl⟩
  · exact tracks.refl _
  · refine tracks.trans (Ledger.accept_tracks tracks ran)
      (tracks.trans ?_ (tracks.complete _ _ _))
    unfold settleStream at settled
    split at settled
    · exact Active.apply_tracks tracks settled
    · exact Active.failed_tracks tracks settled

theorem tryRecv_tracks {frame : Bytes} {result : Except Error.Packet StreamStatus}
    (h : queries.tryRecv target frame now = .ok (result, next)) : R queries.inner next.inner := by
  unfold tryRecv at h
  split at h
  · cases h
    exact tracks.refl _
  · obtain ⟨after, received, h⟩ := bind_ok.mp h
    cases h
    exact receiveStream_tracks tracks received

theorem failUdp_tracks {id : Tx.Id} {epoch : Tx.Epoch} {address : SocketAddr}
    (h : queries.failUdp id epoch address cause now = .ok next) : R queries.inner next.inner := by
  rcases failUdp_cases h with rfl | ⟨_, active, inner, ran, failed, rfl⟩
  · exact tracks.refl _
  · exact tracks.trans (Ledger.claim_tracks tracks ran)
      (tracks.trans (Active.failed_tracks tracks failed) (tracks.complete _ _ _))

theorem undoStream_tracks {id : Tx.Id} (h : queries.undoStream id = .ok next) :
    R queries.inner next.inner := by
  rcases undoStream_cases h with rfl | ⟨_, active, inner, ran, dropped, rfl⟩
  · exact tracks.refl _
  · exact tracks.trans (Ledger.claim_tracks tracks ran) (Active.drop_tracks tracks dropped)

theorem settle_tracks {ledger : Ledger config n lanes} (h : reason.settle active now = .ok ledger) :
    R active.ledger ledger := by
  unfold Retirement.settle at h
  split at h
  · exact Active.drop_tracks tracks h
  · split at h
    · exact Active.failed_tracks tracks h
    · exact Active.drop_tracks tracks h
  · exact Active.failed_tracks tracks h

theorem retireBranch_tracks {place : Place lanes}
    (h : queries.retireBranch place target reason now = .ok next) : R queries.inner next.inner := by
  unfold retireBranch at h
  split at h
  · cases h
    exact tracks.refl _
  · obtain ⟨claimed, ran, h⟩ := bind_ok.mp h
    cases claimed with
    | none =>
      cases h
      exact tracks.refl _
    | some active =>
      obtain ⟨inner, settled, h⟩ := bind_ok.mp h
      cases h
      exact tracks.trans (Ledger.claim_tracks tracks ran)
        (tracks.trans (settle_tracks tracks settled) (tracks.complete _ _ _))

theorem retireFrom_tracks {left : Nat} {ordinal : Nat} {answer : RetireStream × Nat}
    (h : retireFrom target reason now left permits ordinal queries = .ok (answer, next)) :
    R queries.inner next.inner := by
  induction left generalizing permits ordinal queries with
  | zero =>
    cases h
    exact tracks.refl _
  | succ left ih =>
    cases permits with
    | zero =>
      cases h
      exact tracks.refl _
    | succ permits =>
      unfold retireFrom at h
      split at h
      · obtain ⟨after, retired, h⟩ := bind_ok.mp h
        exact tracks.trans (retireBranch_tracks tracks retired) (ih h)
      · cases h
        exact tracks.refl _

theorem retire_tracks {ordinal : Nat} {answer : RetireStream × Nat}
    (h : queries.retire target reason now permits ordinal = .ok (answer, next)) :
    R queries.inner next.inner := by
  unfold retire at h
  dsimp only at h
  split at h
  · cases h
    exact tracks.refl _
  · exact retireFrom_tracks tracks h

theorem admitUdp_tracks (sound : queries.Sound)
    (udp : ∀ attempt lease, attempt.request.stream = none → fresh (.waiting attempt (.udp lease)))
    {pickBranch : Picker (Place lanes)} {pickId : Tx.Id → Picker Tx.Id} {permit : Bool}
    {random : Tx.Random} {submit : Submission} {admission : Admission}
    (h : queries.admitUdp pickBranch pickId now permit random submit = .ok (admission, next)) :
    R queries.inner next.inner := by
  unfold admitUdp at h
  split at h
  · cases h
    exact tracks.refl _
  · rename_i claim taken
    obtain ⟨begun, plane⟩ := Claim.take_tracks tracks taken
    obtain ⟨attempt, ok⟩ := Claim.take_ok sound taken
    split at h
    · cases h
      exact tracks.trans begun (Claim.drop_tracks tracks claim)
    · obtain ⟨⟨finish, inner⟩, started, h⟩ := bind_ok.mp h
      cases h
      exact tracks.trans begun (tracks.trans (Udp.start_tracks tracks ok plane udp started)
        (Finish.apply_tracks tracks finish inner now))

theorem submit_tracks (sound : queries.Sound) {pickBranch : Picker (Place lanes)}
    (tcp : ∀ attempt id, attempt.request.stream = some target → fresh (.waiting attempt (.tcp id)))
    {id : Tx.Id} {frame : Stream.Frame → Stream.Admission} {submission : Stream.Submission}
    (h : queries.submit pickBranch now target id frame = .ok (submission, next)) :
    R queries.inner next.inner := by
  unfold submit at h
  split at h
  · cases h
    exact tracks.refl _
  · split at h
    · cases h
      exact tracks.refl _
    · rename_i claim taken
      obtain ⟨begun, plane⟩ := Claim.take_tracks tracks taken
      obtain ⟨attempt, ok⟩ := Claim.take_ok sound taken
      obtain ⟨⟨finish, inner⟩, started, h⟩ := bind_ok.mp h
      cases h
      exact tracks.trans begun (tracks.trans (Tcp.submit_tracks tracks ok plane tcp started)
        (Finish.apply_tracks tracks finish inner now))

end Queries

end

/-! ## Calls -/

/-- The lane whose owner makes the call. -/
def Call.lane : Call lanes → Option (Fin lanes)
  | .dropLane lane => some lane
  | .start lane _ _ _ _ => some lane
  | .poll lane _ => some lane
  | _ => none

/-- The lane a call starts. -/
def Call.starts : Call lanes → Option (Fin lanes)
  | .start lane _ _ _ _ => some lane
  | _ => none

/-- The server a call submits to. -/
def Call.submits : Call lanes → Option Tx.Server
  | .submit _ server _ _ => some server
  | _ => none

variable {next queries : Queries config n lanes} {response : Response n lanes}

namespace Queries

theorem reply_ok {wrap : α → Response n lanes} {run : Except Fault (α × Queries config n lanes)}
    (h : reply wrap run = .ok (response, next)) : ∃ answer, run = .ok (answer, next) := by
  unfold reply at h
  obtain ⟨⟨answer, after⟩, ran, h⟩ := bind_ok.mp h
  cases h
  exact ⟨answer, ran⟩

theorem replyDone_ok {run : Except Fault (Queries config n lanes)}
    (h : replyDone run = .ok (response, next)) : run = .ok next := by
  unfold replyDone at h
  obtain ⟨after, ran, h⟩ := bind_ok.mp h
  cases h
  exact ran

/-- A tracked relation holds across every call that starts no lane and writes
only branches of its kind when it begins to wait. -/
theorem step_tracks {fresh : Branch config n → Prop}
    {R : Ledger config n lanes → Ledger config n lanes → Prop} (tracks : Tracks fresh R)
    {pick : Pickers lanes} (sound : queries.Sound) {call : Call lanes}
    (h : queries.step pick call = .ok (response, next)) (idle : call.starts = none)
    (udp : ∀ attempt lease, attempt.request.stream = none → fresh (.waiting attempt (.udp lease)))
    (tcp : ∀ target attempt id, call.submits = some target → attempt.request.stream = some target
      → fresh (.waiting attempt (.tcp id))) : R queries.inner next.inner := by
  cases call with
  | claim =>
    obtain ⟨answer, ran⟩ := reply_ok h
    exact claim_tracks tracks ran
  | dropLane lane =>
    cases h
    exact tracks.refl _
  | start lane reason unix name now => simp [Call.starts] at idle
  | poll lane now =>
    obtain ⟨answer, ran⟩ := reply_ok h
    unfold pollLane at ran
    obtain ⟨⟨shown, inner⟩, polled, ran⟩ := bind_ok.mp ran
    cases ran
    exact Ledger.pollLane_tracks tracks polled
  | cleanup permits =>
    obtain ⟨answer, ran⟩ := reply_ok h
    exact cleanup_tracks tracks ran
  | admitUdp now permit random submit =>
    obtain ⟨answer, ran⟩ := reply_ok h
    exact admitUdp_tracks tracks sound udp ran
  | submit now target id egress =>
    obtain ⟨answer, ran⟩ := reply_ok h
    exact submit_tracks tracks sound (fun attempt id => tcp target attempt id rfl) ran
  | receiveUdp source bytes now => exact receiveUdp_tracks tracks (replyDone_ok h)
  | receiveStream target frame now =>
    obtain ⟨answer, ran⟩ := reply_ok h
    exact tryRecv_tracks tracks ran
  | failUdp id epoch address cause now => exact failUdp_tracks tracks (replyDone_ok h)
  | undoStream id => exact undoStream_tracks tracks (replyDone_ok h)
  | retire target reason now permits ordinal =>
    obtain ⟨answer, ran⟩ := reply_ok h
    exact retire_tracks tracks ran
  | bindUdp =>
    cases h
    exact tracks.slots rfl
  | exhaustTcp cause =>
    cases h
    exact tracks.slots rfl

/-- A start replaces one slot by a query whose branches are pending. -/
theorem startLane_slots {lane : Fin lanes} {reason : Lookup.Reason} {unix : Nat}
    {result : Except Core.Clock.Range Unit}
    (h : queries.startLane lane reason unix name now = .ok (result, next)) :
    next.laneSets = queries.laneSets ∧
      (next = queries ∧ (∃ range, result = .error range) ∨
        ∃ attempt : Attempt config, ∃ query : Query config n,
          (∀ family, query.branches family = .pending attempt) ∧ result = .ok () ∧
          next.inner.slots = update queries.inner.slots lane (.query query)) := by
  unfold startLane at h
  split at h
  · rename_i range late
    cases h
    exact ⟨rfl, .inl ⟨rfl, range, rfl⟩⟩
  · obtain ⟨inner, started, h⟩ := bind_ok.mp h
    cases h
    unfold Ledger.start Slot.start at started
    obtain ⟨⟨slot, registry⟩, begun, started⟩ := bind_ok.mp started
    obtain ⟨retired, -, begun⟩ := bind_ok.mp begun
    cases begun
    cases started
    exact ⟨rfl, .inr ⟨_, _, fun _ => rfl, rfl, Ledger.setSlot_slots ..⟩⟩

/-- A lookup that starts ends within the platform's range. -/
theorem startLane_early {lane : Fin lanes} {reason : Lookup.Reason} {unix : Nat}
    (h : queries.startLane lane reason unix name now = .ok (.ok (), next)) :
    now + config.totalTimeout ≤ config.limit := by
  unfold startLane at h
  split at h
  · simp at h
  · rename_i hard added
    obtain ⟨rfl, bound⟩ := Core.Clock.tryAdd_ok added
    exact bound

end Queries

/-! ## Idle lanes rest -/

/-- Every idle slot of `before` is idle in `after`. -/
def Rests (before after : Ledger config n lanes) : Prop :=
  ∀ lane, before.slots lane = .idle none → after.slots lane = .idle none

theorem rests_tracks :
    Tracks (fun _ => True) (Rests : Ledger config n lanes → Ledger config n lanes → Prop) where
  still _ _ := trivial
  slots := by
    intro before after same lane idle
    rw [same]
    exact idle
  trans := by
    intro first second third earlier later lane idle
    exact later lane (earlier lane idle)
  put := by
    intro ledger place registry branch _ lane idle
    unfold Ledger.put
    split
    · exact idle
    · rename_i query here
      dsimp only
      rw [Ledger.setSlot_slots, update_of_ne]
      · exact idle
      · rintro rfl
        rw [here] at idle
        simp at idle
  complete := by
    intro ledger other now lane idle
    unfold Ledger.complete
    rw [Ledger.setSlot_slots]
    by_cases same : lane = other
    · rw [← same, update_self, idle]
      rfl
    · rw [update_of_ne same]
      exact idle
  retire := by
    intro ledger other registry lane idle
    dsimp only
    rw [Ledger.setSlot_slots]
    by_cases same : lane = other
    · rw [same, update_self]
    · rw [update_of_ne same]
      exact idle

namespace Queries

variable {queries next : Queries config n lanes} {lane : Fin lanes} {now : Nat} {answer : Poll n}

/-- An idle lane stays idle through every call that does not start it. -/
theorem step_rests {pick : Pickers lanes} (sound : queries.Sound) {call : Call lanes}
    (h : queries.step pick call = .ok (response, next)) (apart : call.starts ≠ some lane)
    (idle : queries.inner.slots lane = .idle none) : next.inner.slots lane = .idle none := by
  cases started : call.starts with
  | some other =>
    cases call with
    | start other' reason unix name now =>
      have different : lane ≠ other' := by
        rintro rfl
        exact apart rfl
      obtain ⟨result, ran⟩ := reply_ok h
      rcases startLane_slots ran with ⟨-, ⟨rfl, -⟩ | ⟨attempt, query, -, -, slots⟩⟩
      · exact idle
      · rw [slots, update_of_ne different]
        exact idle
    | _ => simp [Call.starts] at started
  | none =>
    exact step_tracks rests_tracks sound h started (fun _ _ _ => trivial)
      (fun _ _ _ _ _ => trivial) lane idle

/-- An idle lane answers that it is idle, and no other lane does. -/
theorem pollLane_idle (h : queries.pollLane lane now = .ok (answer, next)) :
    answer = .idle ↔ queries.inner.slots lane = .idle none := by
  unfold pollLane Ledger.pollLane at h
  cases slot : queries.inner.slots lane with
  | idle completion =>
    rw [slot] at h
    cases h
    cases completion <;> simp [Slot.answer]
  | query current =>
    rw [slot] at h
    obtain ⟨⟨reported, inner⟩, ran, built⟩ := bind_ok.mp h
    cases built
    obtain ⟨⟨shown, left, registry⟩, polled, built⟩ := bind_ok.mp ran
    cases built
    unfold Slot.poll at polled
    obtain ⟨⟨current, held⟩, -, polled⟩ := bind_ok.mp polled
    obtain ⟨⟨expired, left⟩, -, polled⟩ := bind_ok.mp polled
    cases polled
    unfold Slot.complete
    dsimp only
    cases expired.complete now <;> simp [Slot.answer]

/-- Unless a lookup is pending on it, a polled lane is idle afterwards. -/
theorem pollLane_finished (h : queries.pollLane lane now = .ok (answer, next))
    (finished : ∀ due, answer ≠ .pending due) : next.inner.slots lane = .idle none := by
  have answered : ∀ slot : Slot config n, (∀ due, slot.answer.1 ≠ .pending due) →
      slot.answer.2 = .idle none := by
    intro slot ended
    unfold Slot.answer at ended ⊢
    split at ended
    · exact absurd rfl (ended _)
    · rfl
    · rfl
  unfold pollLane Ledger.pollLane at h
  obtain ⟨⟨reported, inner⟩, ran, built⟩ := bind_ok.mp h
  cases built
  obtain ⟨⟨shown, slot, registry⟩, polled, built⟩ := bind_ok.mp ran
  cases built
  dsimp only
  rw [Ledger.setSlot_slots, update_self]
  unfold Slot.poll at polled
  split at polled
  · cases polled
    exact answered _ finished
  · obtain ⟨⟨current, held⟩, -, polled⟩ := bind_ok.mp polled
    obtain ⟨⟨expired, left⟩, -, polled⟩ := bind_ok.mp polled
    cases polled
    exact answered _ finished

end Queries

end Dope.Dns.Storage
