import Dope.Dns.Storage.Starts

/-! # Runs of the queries

The driver, the discoveries, the socket and the connection call the queries in
any order. Only lanes are owned: a lane is started, polled and dropped by the
discovery that holds it. Every reachable state is sound and no call faults.
-/

namespace Dope.Dns.Storage

open Index Run Function

variable {config : Config} {n lanes : Nat}

namespace Ledger

variable {ledger : Ledger config n lanes}

theorem accept_spec {α : Type} (sound : ledger.Sound) (place : Place lanes) (filter : Filter)
    (decode : Request config → Tx.Lease → Option α) :
    ledger.accept place filter decode = .ok none ∨
      ∃ active decoded, ledger.accept place filter decode = .ok (some (active, decoded)) ∧
        active.Ok := by
  obtain none | ⟨query, attempt, transaction, decoded, here, row, -, -, ran⟩ :=
    accept_cases ledger place filter decode
  · exact .inl none
  · exact .inr ⟨_, decoded, ran, accept_hand sound here row⟩

theorem claim_spec (sound : ledger.Sound) (place : Place lanes) (filter : Filter) :
    ledger.claim place filter = .ok none ∨
      ∃ active, ledger.claim place filter = .ok (some active) ∧ active.Ok := by
  unfold claim
  obtain none | ⟨active, decoded, ran, ok⟩ := accept_spec sound place filter fun _ _ => some ()
  · left
    rw [none, ok_bind]
  · right
    exact ⟨active, by rw [ran, ok_bind], ok⟩

end Ledger

variable {active : Active config n lanes}

namespace Queries

variable {queries : Queries config n lanes}

def Sound (queries : Queries config n lanes) : Prop := queries.inner.Sound

/-- The call ends without a fault in a sound state. -/
def Safe {α : Type} (run : Except Fault (α × Queries config n lanes)) : Prop :=
  ∃ answer queries', run = .ok (answer, queries') ∧ queries'.Sound

def SafeUnit (run : Except Fault (Queries config n lanes)) : Prop :=
  ∃ queries', run = .ok queries' ∧ queries'.Sound

/-! ## Lanes -/

theorem cleanup_safe (picker : Picker (Fin lanes)) (sound : queries.Sound) (permits : Nat) :
    Safe (cleanup picker permits queries) := by
  induction permits generalizing queries with
  | zero =>
    unfold cleanup
    split
    · exact ⟨_, _, rfl, sound⟩
    · exact ⟨_, _, rfl, sound⟩
  | succ permits ih =>
    unfold cleanup
    split
    · exact ⟨_, _, rfl, sound⟩
    · rename_i lane laneSets _
      obtain ⟨inner, retired, sound, -⟩ := Ledger.retireLane_sound sound lane
      dsimp only
      rw [retired, ok_bind]
      exact ih sound

theorem claim_safe (picker : Picker (Fin lanes)) (sound : queries.Sound) :
    Safe (claim picker queries) := by
  unfold claim
  split
  · exact ⟨_, _, rfl, sound⟩
  · split
    · exact ⟨_, _, rfl, sound⟩
    · rename_i lane laneSets _
      obtain ⟨inner, retired, sound, -⟩ := Ledger.retireLane_sound sound lane
      rw [retired]
      exact ⟨_, _, rfl, sound⟩

theorem startLane_safe (sound : queries.Sound) (lane : Fin lanes) (reason : Lookup.Reason)
    (unix : Nat) (name : Host.Name) (now : Nat) :
    Safe (queries.startLane lane reason unix name now) := by
  unfold startLane
  split
  · exact ⟨_, _, rfl, sound⟩
  · rename_i hard _
    obtain ⟨inner, started, sound⟩ :=
      Ledger.start_sound sound lane (.new config reason unix now hard name)
    rw [started]
    exact ⟨_, _, rfl, sound⟩

section
variable (bound : lanes * 2 ≤ 65534)
include bound

theorem pollLane_safe (sound : queries.Sound) (lane : Fin lanes) (now : Nat) :
    Safe (queries.pollLane lane now) := by
  unfold pollLane
  obtain ⟨answer, inner, polled, sound⟩ := Ledger.pollLane_sound bound sound lane now
  rw [polled]
  exact ⟨_, _, rfl, sound⟩

/-! ## Receiving and failing -/

theorem settleUdp_sound (ok : active.Ok) (data : Wire.Datagram n) (cookie : Tx.Cookie)
    (server : Tx.Server) (now : Nat) :
    ∃ ledger, settleUdp active data cookie server now = .ok ledger ∧ ledger.Sound := by
  unfold settleUdp
  cases data with
  | authenticated reply value =>
    exact Active.apply_sound bound (Active.cache_ok ok cookie server value) reply now
  | badCookie value =>
    have cached := Active.cache_ok ok cookie server value
    dsimp only
    split
    · rename_i answer same
      rw [same] at cached
      exact Active.cookie_sound bound cached
    · rename_i answer same
      rw [same] at cached
      exact Active.stream_sound bound cached
  | streamRequired => exact Active.stream_sound bound ok

theorem receiveUdp_safe (sound : queries.Sound) (source : SocketAddr) (bytes : Bytes)
    (now : Nat) : SafeUnit (queries.receiveUdp source bytes now) := by
  unfold receiveUdp
  split
  · exact ⟨_, rfl, sound⟩
  · rename_i message _
    dsimp only
    split
    · exact ⟨_, rfl, sound⟩
    · rename_i place _
      split
      · exact ⟨_, rfl, sound⟩
      · obtain none | ⟨active, decoded, ran, ok⟩ := Ledger.accept_spec sound place
          (.live (wireId message.transaction) now) (readUdp message source place.2)
        · rw [none]
          exact ⟨_, rfl, sound⟩
        · obtain ⟨data, cookie, server⟩ := decoded
          obtain ⟨ledger, settled, sound⟩ := settleUdp_sound bound ok data cookie server now
          rw [ran, ok_bind]
          dsimp only
          rw [settled]
          exact ⟨_, rfl, Ledger.complete_sound sound _ _⟩

theorem settleStream_sound (ok : active.Ok) (decoded : Except Error.Malformed (Reply n))
    (now : Nat) : ∃ ledger, settleStream active decoded now = .ok ledger ∧ ledger.Sound := by
  unfold settleStream
  cases decoded with
  | ok reply => exact Active.apply_sound bound ok reply now
  | error error => exact Active.failed_sound bound ok now _

theorem receiveStream_safe (sound : queries.Sound) (server : Tx.Server) (message : Wire.Decoder)
    (now : Nat) : SafeUnit (queries.receiveStream server message now) := by
  unfold receiveStream
  dsimp only
  split
  · exact ⟨_, rfl, sound⟩
  · rename_i place _
    split
    · exact ⟨_, rfl, sound⟩
    · obtain none | ⟨active, decoded, ran, ok⟩ := Ledger.accept_spec sound place
        (.live (wireId message.transaction) now) (readStream message server place.2)
      · rw [none]
        exact ⟨_, rfl, sound⟩
      · obtain ⟨ledger, settled, sound⟩ := settleStream_sound bound ok decoded now
        rw [ran, ok_bind]
        dsimp only
        rw [settled]
        exact ⟨_, rfl, Ledger.complete_sound sound _ _⟩

theorem tryRecv_safe (sound : queries.Sound) (server : Tx.Server) (frame : Bytes) (now : Nat) :
    Safe (queries.tryRecv server frame now) := by
  unfold tryRecv
  split
  · exact ⟨_, _, rfl, sound⟩
  · rename_i message _
    obtain ⟨queries', received, sound⟩ := receiveStream_safe bound sound server message now
    rw [received]
    exact ⟨_, _, rfl, sound⟩

theorem failUdp_safe (sound : queries.Sound) (id : Tx.Id) (epoch : Tx.Epoch) (server : SocketAddr)
    (cause : Error.Kind) (now : Nat) : SafeUnit (queries.failUdp id epoch server cause now) := by
  unfold failUdp
  split
  · exact ⟨_, rfl, sound⟩
  · rename_i place _
    split
    · exact ⟨_, rfl, sound⟩
    · obtain none | ⟨active, ran, ok⟩ :=
        Ledger.claim_spec sound place (.datagram id epoch server)
      · rw [none]
        exact ⟨_, rfl, sound⟩
      · obtain ⟨ledger, failed, sound⟩ := Active.failed_sound bound ok now cause
        rw [ran, ok_bind]
        dsimp only
        rw [failed]
        exact ⟨_, rfl, Ledger.complete_sound sound _ _⟩

omit bound in
theorem undoStream_safe (sound : queries.Sound) (id : Tx.Id) :
    SafeUnit (queries.undoStream id) := by
  unfold undoStream
  split
  · exact ⟨_, rfl, sound⟩
  · rename_i place _
    split
    · exact ⟨_, rfl, sound⟩
    · obtain none | ⟨active, ran, ok⟩ := Ledger.claim_spec sound place (.id id)
      · rw [none]
        exact ⟨_, rfl, sound⟩
      · obtain ⟨ledger, dropped, sound⟩ := Active.drop_sound ok
        rw [ran, ok_bind]
        dsimp only
        rw [dropped]
        exact ⟨_, rfl, sound⟩

/-! ## Retiring a stream -/

theorem settle_sound (ok : active.Ok) (reason : Retirement) (now : Nat) :
    ∃ ledger, reason.settle active now = .ok ledger ∧ ledger.Sound := by
  unfold Retirement.settle
  cases reason with
  | resume => exact Active.drop_sound ok
  | expired =>
    dsimp only
    split
    · exact Active.failed_sound bound ok now _
    · exact Active.drop_sound ok
  | fail cause => exact Active.failed_sound bound ok now cause

theorem retireBranch_safe (sound : queries.Sound) (place : Place lanes) (server : Tx.Server)
    (reason : Retirement) (now : Nat) :
    SafeUnit (queries.retireBranch place server reason now) := by
  unfold retireBranch
  split
  · exact ⟨_, rfl, sound⟩
  · obtain none | ⟨active, ran, ok⟩ := Ledger.claim_spec sound place (.stream server)
    · rw [none]
      exact ⟨_, rfl, sound⟩
    · obtain ⟨ledger, settled, sound⟩ := settle_sound bound ok reason now
      rw [ran, ok_bind]
      dsimp only
      rw [settled]
      exact ⟨_, rfl, Ledger.complete_sound sound _ _⟩

theorem retireFrom_safe (sound : queries.Sound) (server : Tx.Server) (reason : Retirement)
    (now left permits ordinal : Nat) :
    Safe (retireFrom server reason now left permits ordinal queries) := by
  induction left generalizing permits ordinal queries with
  | zero => exact ⟨_, _, rfl, sound⟩
  | succ left ih =>
    cases permits with
    | zero => exact ⟨_, _, rfl, sound⟩
    | succ permits =>
      unfold retireFrom
      split
      · rename_i inside
        obtain ⟨queries', retired, sound⟩ :=
          retireBranch_safe bound sound (placeAt ordinal inside) server reason now
        rw [retired, ok_bind]
        exact ih sound permits (ordinal + 1)
      · exact ⟨_, _, rfl, sound⟩

theorem retire_safe (sound : queries.Sound) (server : Tx.Server) (reason : Retirement)
    (now permits ordinal : Nat) : Safe (queries.retire server reason now permits ordinal) := by
  unfold retire
  dsimp only
  split
  · exact ⟨_, _, rfl, sound⟩
  · exact retireFrom_safe bound sound server _ now _ permits ordinal

end

/-! ## Starting -/

theorem admitUdp_safe (pickBranch : Picker (Place lanes)) (pickId : Tx.Id → Picker Tx.Id)
    (sound : queries.Sound) (now : Nat) (permit : Bool) (random : Tx.Random) (submit : Submission) :
    Safe (queries.admitUdp pickBranch pickId now permit random submit) := by
  unfold admitUdp
  split
  · exact ⟨_, _, rfl, sound⟩
  · rename_i claim taken
    obtain ⟨attempt, ok⟩ := Claim.take_ok sound taken
    split
    · exact ⟨_, _, rfl, ok.sound⟩
    · obtain ⟨finish, ledger, started, sound⟩ := Udp.start_sound pickId ok now random submit
      rw [started]
      exact ⟨_, _, rfl, Finish.apply_sound sound finish now⟩

theorem submit_safe (pickBranch : Picker (Place lanes)) (sound : queries.Sound) (now : Nat)
    (server : Tx.Server) (id : Tx.Id) (egress : Stream.Egress) :
    Safe (queries.submit pickBranch now server id (Stream.drain egress)) := by
  unfold submit
  split
  · exact ⟨_, _, rfl, sound⟩
  · split
    · exact ⟨_, _, rfl, sound⟩
    · rename_i claim taken
      obtain ⟨attempt, ok⟩ := Claim.take_ok sound taken
      obtain ⟨finish, ledger, started, sound⟩ := Tcp.submit_sound ok now id egress
      rw [started]
      exact ⟨_, _, rfl, Finish.apply_sound sound finish now⟩

theorem bindUdp_sound (sound : queries.Sound) : queries.bindUdp.Sound :=
  Held.ids sound rfl rfl ⟨sound.valid.split, sound.valid.once, sound.valid.counted⟩

theorem exhaustTcp_sound (sound : queries.Sound) (cause : Error.Kind) :
    (queries.exhaustTcp cause).Sound :=
  Held.streamFailure sound _

end Queries

/-! ## The machine -/

/-- The number of lanes, small enough for the 16-bit ordinals of the branches. -/
structure Layout where
  lanes : Nat
  positive : 0 < lanes
  bound : lanes * 2 < 65535

/-- The choices of the index sets. -/
structure Pickers (lanes : Nat) where
  branch : Picker (Place lanes)
  lane : Picker (Fin lanes)
  id : Tx.Id → Picker Tx.Id

inductive Call (lanes : Nat) where
  | claim
  | dropLane (lane : Fin lanes)
  | start (lane : Fin lanes) (reason : Lookup.Reason) (unix : Nat) (name : Host.Name) (now : Nat)
  | poll (lane : Fin lanes) (now : Nat)
  | cleanup (permits : Nat)
  | admitUdp (now : Nat) (permit : Bool) (random : Tx.Random) (submit : Submission)
  | submit (now : Nat) (server : Tx.Server) (id : Tx.Id) (egress : Stream.Egress)
  | receiveUdp (source : SocketAddr) (bytes : Bytes) (now : Nat)
  | receiveStream (server : Tx.Server) (frame : Bytes) (now : Nat)
  | failUdp (id : Tx.Id) (epoch : Tx.Epoch) (server : SocketAddr) (cause : Error.Kind)
      (now : Nat)
  | undoStream (id : Tx.Id)
  | retire (server : Tx.Server) (reason : Retirement) (now permits ordinal : Nat)
  | bindUdp
  | exhaustTcp (cause : Error.Kind)

inductive Response (n lanes : Nat) where
  | claimed (lane : Option (Fin lanes))
  | started (result : Except Core.Clock.Range Unit)
  | polled (answer : Poll n)
  | cleaned (finished : Bool)
  | admitted (admission : Admission)
  | submitted (submission : Stream.Submission)
  | received (result : Except Error.Packet StreamStatus)
  | retired (progress : RetireStream × Nat)
  | done

namespace Queries

/-- Wrap the answer of an operation. -/
def reply {α : Type} (wrap : α → Response n lanes)
    (run : Except Fault (α × Queries config n lanes)) :
    Except Fault (Response n lanes × Queries config n lanes) := do
  let (answer, queries) ← run
  .ok (wrap answer, queries)

def replyDone (run : Except Fault (Queries config n lanes)) :
    Except Fault (Response n lanes × Queries config n lanes) := do
  let queries ← run
  .ok (.done, queries)

def step (pick : Pickers lanes) (queries : Queries config n lanes) :
    Call lanes → Except Fault (Response n lanes × Queries config n lanes)
  | .claim => reply .claimed (claim pick.lane queries)
  | .dropLane lane => .ok (.done, queries.dropLane lane)
  | .start lane reason unix name now =>
      reply .started (queries.startLane lane reason unix name now)
  | .poll lane now => reply .polled (queries.pollLane lane now)
  | .cleanup permits => reply .cleaned (cleanup pick.lane permits queries)
  | .admitUdp now permit random submit =>
      reply .admitted (queries.admitUdp pick.branch pick.id now permit random submit)
  | .submit now server id egress =>
      reply .submitted (queries.submit pick.branch now server id (Stream.drain egress))
  | .receiveUdp source bytes now => replyDone (queries.receiveUdp source bytes now)
  | .receiveStream server frame now => reply .received (queries.tryRecv server frame now)
  | .failUdp id epoch server cause now =>
      replyDone (queries.failUdp id epoch server cause now)
  | .undoStream id => replyDone (queries.undoStream id)
  | .retire server reason now permits ordinal =>
      reply .retired (queries.retire server reason now permits ordinal)
  | .bindUdp => .ok (.done, queries.bindUdp)
  | .exhaustTcp cause => .ok (.done, queries.exhaustTcp cause)

/-- A lane is used only by the discovery that holds it. -/
def allowed (queries : Queries config n lanes) : Call lanes → Prop
  | .dropLane lane => queries.isHeld lane = true
  | .start lane _ _ _ _ => queries.isHeld lane = true
  | .poll lane _ => queries.isHeld lane = true
  | _ => True

def machine (config : Config) (n : Nat) (layout : Layout) (pick : Pickers layout.lanes) :
    Machine (Queries config n layout.lanes) (Call layout.lanes) (Response n layout.lanes)
      Fault where
  start queries := queries = new
  allowed := allowed
  step := step pick

theorem Safe.reply {α : Type} {wrap : α → Response n lanes}
    {run : Except Fault (α × Queries config n lanes)} (safe : Safe run) :
    Safe (Queries.reply wrap run) := by
  obtain ⟨answer, queries, rfl, sound⟩ := safe
  exact ⟨_, _, rfl, sound⟩

theorem SafeUnit.reply {run : Except Fault (Queries config n lanes)} (safe : SafeUnit run) :
    Safe (replyDone run) := by
  obtain ⟨queries, rfl, sound⟩ := safe
  exact ⟨_, _, rfl, sound⟩

theorem step_safe (bound : lanes * 2 ≤ 65534) (pick : Pickers lanes)
    {queries : Queries config n lanes} (sound : queries.Sound) (call : Call lanes) :
    Safe (queries.step pick call) := by
  cases call with
  | claim => exact (claim_safe _ sound).reply
  | dropLane lane => exact ⟨_, _, rfl, sound⟩
  | start lane reason unix name now => exact (startLane_safe sound _ _ _ _ _).reply
  | poll lane now => exact (pollLane_safe bound sound _ _).reply
  | cleanup permits => exact (cleanup_safe _ sound _).reply
  | admitUdp now permit random submit => exact (admitUdp_safe _ _ sound _ _ _ _).reply
  | submit now server id egress => exact (submit_safe _ sound _ _ _ _).reply
  | receiveUdp source bytes now => exact (receiveUdp_safe bound sound _ _ _).reply
  | receiveStream server frame now => exact (tryRecv_safe bound sound _ _ _).reply
  | failUdp id epoch server cause now => exact (failUdp_safe bound sound _ _ _ _ _).reply
  | undoStream id => exact (undoStream_safe sound _).reply
  | retire server reason now permits ordinal => exact (retire_safe bound sound _ _ _ _ _).reply
  | bindUdp => exact ⟨_, _, rfl, bindUdp_sound sound⟩
  | exhaustTcp cause => exact ⟨_, _, rfl, exhaustTcp_sound sound cause⟩

theorem sound_invariant (layout : Layout) (pick : Pickers layout.lanes) :
    (machine config n layout pick).Invariant Sound where
  start queries start := by
    rw [show queries = new from start]
    exact Ledger.new_sound
  step queries call sound _ :=
    step_safe (Nat.le_of_lt_succ layout.bound) pick sound call

/-- The state of a branch; a lane without a query has no branches. -/
def branch (queries : Queries config n lanes) (place : Place lanes) : Branch config n :=
  match queries.inner.slots place.1 with
  | .idle _ => .empty
  | .query query => query.branches place.2

/-- In every reachable state the pending planes, the two owner tables and the
live counts say exactly what the branches say, and no call faults. -/
theorem reachable_indexed (layout : Layout) (pick : Pickers layout.lanes)
    {queries : Queries config n layout.lanes}
    (h : (machine config n layout pick).Reachable queries) :
    (∀ plane place, queries.inner.registry.pending plane place = true ↔
      ∃ attempt, queries.branch place = .pending attempt ∧
        planeOf attempt.request.stream = plane) ∧
    (∀ id place, queries.inner.registry.ids.owners id = some place ↔
      ∃ attempt lease, queries.branch place = .waiting attempt (.udp lease) ∧ lease.id = id) ∧
    (∀ id place, queries.inner.registry.ids.streamOwners id = some place ↔
      ∃ attempt, queries.branch place = .waiting attempt (.tcp id)) ∧
    (∀ server, queries.inner.registry.live.counts server =
      (Finset.univ.filter fun place => (queries.branch place).stream = some server).card) ∧
    ∀ call, queries.allowed call →
      ∃ response next, queries.step pick call = .ok (response, next) := by
  have sound := (sound_invariant layout pick).holds h
  have seen : ∀ place, queries.branch place = viewOf queries.inner.slots place := fun _ => rfl
  refine ⟨?_, ?_, ?_, ?_, ?_⟩
  · intro plane place
    rw [sound.bits, ← seen]
    cases queries.branch place <;> simp [Branch.bit]
  · intro id place
    rw [sound.udp, ← seen]
    cases queries.branch place with
    | waiting attempt transaction => cases transaction <;> simp [Branch.udpId]
    | pending | done | empty | failed => simp [Branch.udpId]
  · intro id place
    rw [sound.tcp, ← seen]
    cases queries.branch place with
    | waiting attempt transaction => cases transaction <;> simp [Branch.tcpId]
    | pending | done | empty | failed => simp [Branch.tcpId]
  · intro server
    rw [sound.live server]
    simp [holders, seen]
  · intro call ok
    exact (sound_invariant layout pick).progress h ok

end Queries

/-! ## One lane and one server -/

namespace Sample

def single : Config where
  servers := [⟨.v4 [192, 0, 2, 1], 53, 0, 0⟩]
  nonempty := by decide
  bound := by decide
  attempts := 2
  attempts_pos := by decide
  attemptTimeout := 5
  attempt_pos := by decide
  totalTimeout := 20
  total_pos := by decide
  limit := 1000

abbrev layout : Layout := ⟨1, by decide, by decide⟩

def pickers : Pickers 1 where
  branch := .ofList [(0, .four), (0, .six)] (by
    rintro ⟨lane, family⟩
    obtain rfl : lane = 0 := Subsingleton.elim _ _
    cases family <;> simp)
  lane := .startingAt 0
  id := .startingAt

def random : Tx.Random := ⟨fun _ => 7, fun input => ⟨input⟩⟩

end Sample

/-- One branch waits for a datagram and the other is still pending. -/
theorem Queries.reachable_indexed_example :
    ∃ queries : Queries Sample.single 2 1,
      (machine Sample.single 2 Sample.layout Sample.pickers).Reachable queries ∧
      (∃ attempt lease, queries.branch (0, .four) = .waiting attempt (.udp lease) ∧
        lease.id = 7) ∧
      ∃ attempt, queries.branch (0, .six) = .pending attempt ∧
        planeOf attempt.request.stream = 0 := by
  have new : (machine Sample.single 2 Sample.layout Sample.pickers).Reachable .new := .start rfl
  have claimed := new.call .claim trivial rfl
  have started := claimed.call (.start 0 .startup 0 ⟨[97]⟩ 10) rfl rfl
  have waiting := started.call (.admitUdp 10 true Sample.random .committed) trivial rfl
  obtain ⟨bits, owners, -⟩ := reachable_indexed Sample.layout Sample.pickers waiting
  exact ⟨_, waiting, (owners 7 (0, .four)).mp rfl, (bits 0 (0, .six)).mp rfl⟩

end Dope.Dns.Storage
