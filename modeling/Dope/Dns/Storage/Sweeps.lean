import Dope.Dns.Storage.Retire

/-! # Sweeps

One server's stream is retired again and again while everything else goes on.
During a sweep nothing is submitted to that server; between sweeps anything may
happen. The lanes that were handed out are tracked, and so is how often a sweep
took hold of a branch.
-/

namespace Dope.Dns.Storage

open Index Run Function

variable {config : Config} {n lanes : Nat}

/-! ## Branches of a kind -/

/-- No branch turns into one of the given kind. -/
def Spares (kind : Branch config n → Prop) (before after : Ledger config n lanes) : Prop :=
  ∀ place, kind (viewOf after.slots place) → kind (viewOf before.slots place)

theorem viewOf_idle_of_slot {slots : Fin lanes → Slot config n} {place : Place lanes}
    {completion : Option (Ready n)} (here : slots place.1 = .idle completion) :
    viewOf slots place = .empty := by
  unfold viewOf
  rw [here]

theorem spares_tracks {kind : Branch config n → Prop}
    (calm : ∀ branch, branch.Still → ¬ kind branch) :
    Tracks (fun branch => ¬ kind branch)
      (Spares kind : Ledger config n lanes → Ledger config n lanes → Prop) where
  still := calm
  slots := by
    intro before after same place
    rw [same]
    exact id
  trans := by
    intro first second third earlier later place found
    exact earlier place (later place found)
  put := by
    intro ledger place registry branch fresh other found
    cases here : ledger.slots place.1 with
    | idle completion =>
      unfold Ledger.put at found
      rw [here] at found
      exact found
    | query query =>
      rw [Ledger.put_view here] at found
      by_cases same : other = place
      · rw [same, update_self] at found
        exact absurd found fresh
      · rwa [update_of_ne same] at found
  complete := by
    intro ledger lane now place found
    unfold Ledger.complete at found
    rw [Ledger.setSlot_slots] at found
    by_cases same : place.1 = lane
    · cases here : ledger.slots lane with
      | idle completion =>
        rw [here, viewOf_idle_of_slot (by rw [same, update_self]; rfl)] at found
        exact absurd found (calm _ fun _ => rfl)
      | query query =>
        rw [here] at found
        rcases Queries.complete_cases query now with kept | ⟨⟨ready, idle⟩, -⟩
        · rwa [kept, ← here, update_eq_self] at found
        · rw [viewOf_idle_of_slot (by rw [same, update_self, idle])] at found
          exact absurd found (calm _ fun _ => rfl)
    · unfold viewOf at found ⊢
      rwa [update_of_ne same] at found
  retire := by
    intro ledger lane registry place found
    dsimp only at found
    rw [Ledger.setSlot_slots] at found
    by_cases same : place.1 = lane
    · rw [viewOf_idle_of_slot (by rw [same, update_self])] at found
      exact absurd found (calm _ fun _ => rfl)
    · unfold viewOf at found ⊢
      rwa [update_of_ne same] at found

/-- A branch that waits for a datagram has no stream. -/
def Mixed (branch : Branch config n) : Prop :=
  ∃ attempt lease, branch = .waiting attempt (.udp lease) ∧ attempt.request.stream ≠ none

theorem still_not_mixed (branch : Branch config n) (still : branch.Still) : ¬ Mixed branch := by
  rintro ⟨attempt, lease, rfl, streams⟩
  cases stream : attempt.request.stream with
  | none => exact streams stream
  | some server =>
    have waits := still server
    simp [Branch.waitsOn, stream] at waits

variable {response : Response n lanes} {owned : Fin lanes → Bool} {call : Call lanes}
  {picker : Picker (Fin lanes)} {pick : Pickers lanes} {lane : Fin lanes} {permits : Nat}

namespace Queries

variable {queries next : Queries config n lanes} {server : Tx.Server} {reason : Retirement}
  {now : Nat}

/-- No branch turns into one of a kind that a start does not write. -/
theorem step_spares (kind : Branch config n → Prop) (calm : ∀ branch, branch.Still → ¬ kind branch)
    (sound : queries.Sound) (h : queries.step pick call = .ok (response, next))
    (udp : ∀ attempt lease, attempt.request.stream = none → ¬ kind (.waiting attempt (.udp lease)))
    (tcp : ∀ target attempt id, call.submits = some target → attempt.request.stream = some target
      → ¬ kind (.waiting attempt (.tcp id))) (place : Place lanes)
    (found : kind (next.branch place)) : kind (queries.branch place) := by
  cases started : call.starts with
  | none => exact step_tracks (spares_tracks calm) sound h started udp tcp place found
  | some lane =>
    cases call with
    | start lane' reason unix name now =>
      obtain ⟨result, ran⟩ := reply_ok h
      rcases startLane_slots ran with ⟨-, ⟨rfl, -⟩ | ⟨attempt, query, pending, -, slots⟩⟩
      · exact found
      · unfold branch at found ⊢
        by_cases same : place.1 = lane'
        · rw [slots, same, update_self] at found
          dsimp only at found
          rw [pending] at found
          exact absurd found (calm _ fun _ => rfl)
        · rwa [slots, update_of_ne same] at found
    | _ => simp [Call.starts] at started

/-! ## Lanes -/

/-- Every lane is free, cancelled or owned, and a free lane is idle. -/
structure Lanes (queries : Queries config n lanes) (owned : Fin lanes → Bool) : Prop where
  once : ∀ lane, (queries.laneSets 0 lane).toNat + (queries.laneSets 1 lane).toNat +
    (owned lane).toNat = 1
  idle : ∀ lane, queries.laneSets 1 lane = true → queries.inner.slots lane = .idle none

theorem Lanes.unowned (valid : queries.Lanes owned) {plane : Fin 2}
    (member : queries.laneSets plane lane = true) : owned lane = false := by
  have one := valid.once lane
  have planes : plane = 0 ∨ plane = 1 := by omega
  rcases planes with rfl | rfl <;> cases held : owned lane <;> simp_all

/-- A lane that is no longer cancelled has been retired. -/
def Clears (queries next : Queries config n lanes) : Prop :=
  ∀ lane, next.isCancelled lane = false →
    queries.isCancelled lane = false ∨ next.inner.slots lane = .idle none

theorem retireLane_slots {ledger ledger' : Ledger config n lanes}
    (h : ledger.retireLane lane = .ok ledger') :
    ledger'.slots = update ledger.slots lane (.idle none) := by
  unfold Ledger.retireLane at h
  obtain ⟨⟨slot, registry⟩, retired, h⟩ := bind_ok.mp h
  cases h
  have idle : slot = .idle none := by
    unfold Slot.retire at retired
    split at retired
    · cases retired
      rfl
    · obtain ⟨rows, -, retired⟩ := bind_ok.mp retired
      cases retired
      rfl
  rw [idle]
  exact Ledger.setSlot_slots ..

theorem cleanup_lanes {finished : Bool} (valid : queries.Lanes owned)
    (h : cleanup picker permits queries = .ok (finished, next)) :
    next.Lanes owned ∧ Clears queries next := by
  have refl : Clears queries queries := fun _ held => .inl held
  induction permits generalizing queries with
  | zero =>
    unfold cleanup at h
    split at h
    · cases h
      exact ⟨valid, refl⟩
    · rename_i lane laneSets taken
      cases h
      obtain ⟨member, rfl⟩ := Planes.take_some taken
      rw [Planes.insert_clear member]
      exact ⟨valid, refl⟩
  | succ permits ih =>
    unfold cleanup at h
    split at h
    · cases h
      exact ⟨valid, refl⟩
    · rename_i lane laneSets taken
      obtain ⟨member, rfl⟩ := Planes.take_some taken
      obtain ⟨inner, retired, h⟩ := bind_ok.mp h
      have slots := retireLane_slots retired
      have middle : Lanes (⟨inner, (queries.laneSets.clear 0 lane).insert 1 lane⟩ :
          Queries config n lanes) owned := by
        constructor
        · intro other
          have one := valid.once other
          by_cases same : other = lane
          · subst same
            have mine := valid.unowned member
            rw [member, mine] at one
            simp at one
            simp [mine]
          · simpa [same] using one
        · intro other free
          dsimp only at free ⊢
          rw [slots]
          by_cases same : other = lane
          · rw [same, update_self]
          · rw [update_of_ne same]
            exact valid.idle other (by simpa [same] using free)
      obtain ⟨after, cleared⟩ := ih middle h fun _ held => .inl held
      refine ⟨after, ?_⟩
      intro other held
      have rests := cleanup_tracks rests_tracks h
      rcases cleared other held with before | idle
      · by_cases same : other = lane
        · right
          refine rests other ?_
          dsimp only
          rw [slots, same, update_self]
        · left
          simpa [isCancelled, same] using before
      · exact .inr idle

theorem claim_lanes {lane : Option (Fin lanes)} (valid : queries.Lanes owned)
    (h : claim picker queries = .ok (lane, next)) :
    (lane = none ∧ next = queries) ∨
      ∃ fresh, lane = some fresh ∧ next.inner.slots fresh = .idle none ∧
        owned fresh = false ∧ next.Lanes (update owned fresh true) ∧ Clears queries next := by
  unfold claim at h
  split at h
  · rename_i fresh laneSets taken
    obtain ⟨member, rfl⟩ := Planes.take_some taken
    cases h
    have one := valid.once fresh
    rw [member] at one
    have mine := valid.unowned member
    refine .inr ⟨fresh, rfl, valid.idle fresh member, mine, ⟨?_, ?_⟩, ?_⟩
    · intro other
      have once := valid.once other
      by_cases same : other = fresh
      · subst same
        simp [mine] at one
        simp [one]
      · simpa [same] using once
    · intro other free
      by_cases same : other = fresh
      · simp [same] at free
      · exact valid.idle other (by simpa [same] using free)
    · intro other held
      exact .inl (by simpa [isCancelled] using held)
  · split at h
    · cases h
      exact .inl ⟨rfl, rfl⟩
    · rename_i fresh laneSets taken
      obtain ⟨member, rfl⟩ := Planes.take_some taken
      obtain ⟨inner, retired, h⟩ := bind_ok.mp h
      cases h
      have slots := retireLane_slots retired
      have one := valid.once fresh
      rw [member] at one
      have mine := valid.unowned member
      have idle : inner.slots fresh = .idle none := by rw [slots, update_self]
      refine .inr ⟨fresh, rfl, idle, mine, ⟨?_, ?_⟩, ?_⟩
      · intro other
        have once := valid.once other
        by_cases same : other = fresh
        · subst same
          simp [mine] at one
          simp [one]
        · simpa [same] using once
      · intro other free
        dsimp only at free ⊢
        rw [slots]
        by_cases same : other = fresh
        · rw [same, update_self]
        · rw [update_of_ne same]
          exact valid.idle other (by simpa [same] using free)
      · intro other held
        by_cases same : other = fresh
        · right
          rw [same]
          exact idle
        · left
          simpa [isCancelled, same] using held

theorem dropLane_lanes (valid : queries.Lanes owned) (mine : owned lane = true) :
    (queries.dropLane lane).Lanes (update owned lane false) := by
  constructor
  · intro other
    have one := valid.once other
    by_cases same : other = lane
    · subst same
      rw [mine] at one
      simp at one
      simp [dropLane, one]
    · simpa [dropLane, same] using one
  · intro other free
    exact valid.idle other (by simpa [dropLane] using free)

theorem receiveUdp_laneSets {source : SocketAddr} {bytes : Bytes}
    (h : queries.receiveUdp source bytes now = .ok next) : next.laneSets = queries.laneSets := by
  rcases receiveUdp_cases h with same | ⟨_, _, _, _, _, _, _, -, -, -, -, same⟩
  · rw [same]
  · rw [same]

theorem receiveStream_laneSets {message : Wire.Decoder}
    (h : queries.receiveStream server message now = .ok next) :
    next.laneSets = queries.laneSets := by
  rcases receiveStream_cases h with same | ⟨_, _, _, _, -, -, same⟩
  · rw [same]
  · rw [same]

theorem failUdp_laneSets {id : Tx.Id} {epoch : Tx.Epoch} {address : SocketAddr}
    {cause : Error.Kind} (h : queries.failUdp id epoch address cause now = .ok next) :
    next.laneSets = queries.laneSets := by
  rcases failUdp_cases h with same | ⟨_, _, _, -, -, same⟩
  · rw [same]
  · rw [same]

theorem undoStream_laneSets {id : Tx.Id} (h : queries.undoStream id = .ok next) :
    next.laneSets = queries.laneSets := by
  rcases undoStream_cases h with same | ⟨_, _, _, -, -, same⟩
  · rw [same]
  · rw [same]

/-- A retirement is a sweep for the reason it acts on. It is done at the last
branch, or at once when no stream has a transaction. -/
theorem retire_swept {first last : Nat} {answer : RetireStream}
    (h : queries.retire server reason now permits first = .ok ((answer, last), next)) :
    (queries.inner.registry.ids.hasStream = false ∧ next = queries ∧ last = first) ∨
      Swept server (queries.ending reason) now queries next first last ∧
        (answer = .done → lanes * 2 ≤ last) := by
  unfold retire at h
  dsimp only at h
  split at h
  · rename_i idle
    cases h
    exact .inl ⟨by simpa using idle, rfl, rfl⟩
  · right
    have left : lanes * 2 ≤ first + (lanes * 2 - first) := by omega
    unfold ending
    cases failure : queries.inner.registry.streamFailure with
    | none =>
      rw [failure] at h
      exact retireFrom_swept h left
    | some cause =>
      rw [failure] at h
      exact retireFrom_swept h left

theorem retire_laneSets {first last : Nat} {answer : RetireStream}
    (h : queries.retire server reason now permits first = .ok ((answer, last), next)) :
    next.laneSets = queries.laneSets := by
  rcases retire_swept h with ⟨-, rfl, -⟩ | ⟨swept, -⟩
  · rfl
  · exact swept.laneSets

theorem step_laneSets (h : queries.step pick call = .ok (response, next)) (claims : call ≠ .claim)
    (cleans : ∀ permits, call ≠ .cleanup permits) (drops : ∀ lane, call ≠ .dropLane lane) :
    next.laneSets = queries.laneSets := by
  cases call with
  | claim => exact absurd rfl claims
  | cleanup permits => exact absurd rfl (cleans permits)
  | dropLane lane => exact absurd rfl (drops lane)
  | start lane reason unix name now =>
    obtain ⟨answer, ran⟩ := reply_ok h
    exact (startLane_slots ran).1
  | poll lane now =>
    obtain ⟨answer, ran⟩ := reply_ok h
    unfold pollLane at ran
    obtain ⟨polled, -, ran⟩ := bind_ok.mp ran
    cases ran
    rfl
  | admitUdp now permit random submit =>
    obtain ⟨answer, ran⟩ := reply_ok h
    unfold admitUdp at ran
    split at ran
    · cases ran
      rfl
    · split at ran
      · cases ran
        rfl
      · obtain ⟨started, -, ran⟩ := bind_ok.mp ran
        cases ran
        rfl
  | submit now target id egress =>
    obtain ⟨answer, ran⟩ := reply_ok h
    unfold submit at ran
    split at ran
    · cases ran
      rfl
    · split at ran
      · cases ran
        rfl
      · obtain ⟨started, -, ran⟩ := bind_ok.mp ran
        cases ran
        rfl
  | receiveUdp source bytes now => exact receiveUdp_laneSets (replyDone_ok h)
  | receiveStream target frame now =>
    obtain ⟨answer, ran⟩ := reply_ok h
    unfold tryRecv at ran
    split at ran
    · cases ran
      rfl
    · obtain ⟨after, received, ran⟩ := bind_ok.mp ran
      cases ran
      exact receiveStream_laneSets received
  | failUdp id epoch address cause now => exact failUdp_laneSets (replyDone_ok h)
  | undoStream id => exact undoStream_laneSets (replyDone_ok h)
  | retire target reason now permits ordinal =>
    obtain ⟨⟨answer, last⟩, ran⟩ := reply_ok h
    exact retire_laneSets ran
  | bindUdp =>
    cases h
    rfl
  | exhaustTcp cause =>
    cases h
    rfl

/-! ## The invariant of one call -/

theorem reply_wraps {α : Type} {wrap : α → Response n lanes}
    {run : Except Fault (α × Queries config n lanes)} {other : Response n lanes}
    (h : reply wrap run = .ok (response, next)) (apart : ∀ answer, wrap answer ≠ other) :
    response ≠ other := by
  unfold reply at h
  obtain ⟨answer, -, h⟩ := bind_ok.mp h
  cases h
  exact apart _

theorem replyDone_wraps {run : Except Fault (Queries config n lanes)} {other : Response n lanes}
    (h : replyDone run = .ok (response, next)) (apart : .done ≠ other) : response ≠ other := by
  unfold replyDone at h
  obtain ⟨after, -, h⟩ := bind_ok.mp h
  cases h
  exact apart

/-- The lanes owned after a call. -/
def owners (owned : Fin lanes → Bool) (call : Call lanes) (response : Response n lanes) :
    Fin lanes → Bool :=
  match call, response with
  | .dropLane lane, _ => update owned lane false
  | _, .claimed (some lane) => update owned lane true
  | _, _ => owned

theorem owners_claim (valid : queries.Lanes owned)
    (h : reply .claimed (claim picker queries) = .ok (response, next)) :
    next.Lanes (owners owned .claim response) ∧ Clears queries next := by
  unfold reply at h
  obtain ⟨⟨lane, after⟩, ran, h⟩ := bind_ok.mp h
  cases h
  rcases claim_lanes valid ran with ⟨rfl, rfl⟩ | ⟨fresh, rfl, -, -, after, clears⟩
  · exact ⟨valid, fun _ held => .inl held⟩
  · exact ⟨after, clears⟩

theorem owners_other (drops : ∀ lane, call ≠ .dropLane lane)
    (claims : ∀ lane, response ≠ .claimed lane) : owners owned call response = owned := by
  unfold owners
  split
  · exact absurd rfl (drops _)
  · exact absurd rfl (claims _)
  · rfl

/-- Calls keep every lane in one place and free lanes idle. -/
theorem step_lanes (sound : queries.Sound) (valid : queries.Lanes owned)
    (owner : ∀ lane, call.lane = some lane → owned lane = true)
    (h : queries.step pick call = .ok (response, next)) :
    next.Lanes (owners owned call response) ∧ Clears queries next := by
  by_cases claims : call = .claim
  · subst claims
    exact owners_claim valid h
  · by_cases cleans : ∃ permits, call = .cleanup permits
    · obtain ⟨permits, rfl⟩ := cleans
      have plain := h
      unfold step reply at plain
      obtain ⟨⟨finished, after⟩, ran, built⟩ := bind_ok.mp plain
      cases built
      exact cleanup_lanes valid ran
    · by_cases drops : ∃ lane, call = .dropLane lane
      · obtain ⟨lane, rfl⟩ := drops
        cases h
        refine ⟨dropLane_lanes valid (owner lane rfl), ?_⟩
        intro other held
        left
        by_cases same : other = lane
        · simp [isCancelled, dropLane, same] at held
        · simpa [isCancelled, dropLane, same] using held
      · have sets := step_laneSets h claims (fun permits same => cleans ⟨permits, same⟩)
          fun lane same => drops ⟨lane, same⟩
        have quiet : ∀ lane, response ≠ .claimed lane := by
          intro lane
          cases call with
          | claim => exact absurd rfl claims
          | cleanup permits => exact absurd ⟨permits, rfl⟩ cleans
          | dropLane lane => exact absurd ⟨lane, rfl⟩ drops
          | bindUdp =>
            cases h
            simp
          | exhaustTcp cause =>
            cases h
            simp
          | start | poll | admitUdp | submit | receiveStream | retire =>
            exact reply_wraps h (by simp)
          | receiveUdp | failUdp | undoStream => exact replyDone_wraps h (by simp)
        rw [owners_other (fun lane same => drops ⟨lane, same⟩) quiet]
        refine ⟨⟨?_, ?_⟩, ?_⟩
        · intro lane
          rw [sets]
          exact valid.once lane
        · intro lane free
          rw [sets] at free
          refine step_rests sound h ?_ (valid.idle lane free)
          intro starts
          have owns : call.lane = some lane := by
            cases call with
            | start other reason unix name now => exact starts
            | _ => simp [Call.starts] at starts
          have held := owner lane owns
          rw [valid.unowned free] at held
          simp at held
        · intro lane held
          left
          unfold isCancelled at held ⊢
          rwa [sets] at held

/-- Without stream transactions no branch waits on a stream. -/
theorem hasStream_false (sound : queries.Sound) (unmixed : ∀ place, ¬ Mixed (queries.branch place))
    (idle : queries.inner.registry.ids.hasStream = false) (server : Tx.Server)
    (place : Place lanes) : (queries.branch place).waitsOn server = false := by
  cases row : queries.branch place with
  | waiting attempt lease =>
    cases waits : (Branch.waiting attempt lease : Branch config n).waitsOn server with
    | false => rfl
    | true =>
      have streams : attempt.request.stream = some server := by
        simpa [Branch.waitsOn] using waits
      cases lease with
      | udp lease =>
        exact absurd ⟨attempt, lease, row, by simp [streams]⟩ (unmixed place)
      | tcp id =>
        have owner : queries.inner.registry.ids.streamOwners id = some place := by
          rw [sound.tcp]
          change (queries.branch place).tcpId = some id
          rw [row]
          rfl
        have none : queries.inner.registry.ids.occupied.card = 0 := by
          rw [← sound.valid.counted]
          simpa [Tx.Table.hasStream] using idle
        rw [Finset.card_eq_zero] at none
        have member : id ∈ queries.inner.registry.ids.occupied := by
          simp [Tx.Table.occupied, owner]
        rw [none] at member
        simp at member
  | pending | done | empty | failed => rfl

theorem Ends.still {attempt : Attempt config} {hard : Nat} {branch : Branch config n}
    (h : reason.Ends attempt hard now branch) : branch.Still := by
  have spent : ∀ {cause}, Spends attempt hard now cause branch → branch.Still := by
    intro cause spends
    cases spends <;> exact fun _ => rfl
  cases reason with
  | resume =>
    rw [show branch = .pending attempt from h]
    exact fun _ => rfl
  | expired =>
    by_cases due : attempt.deadline ≤ now
    · exact spent (by simpa [Retirement.Ends, due] using h)
    · rw [show branch = .pending attempt by simpa [Retirement.Ends, due] using h]
      exact fun _ => rfl
  | fail cause => exact spent h

end Queries

/-! ## The machine -/

structure Sweep (config : Config) (n lanes : Nat) where
  queries : Queries config n lanes
  owned : Fin lanes → Bool
  /-- The ordinal a sweep goes on from. -/
  place : Option Nat
  /-- How often the sweep took hold of a branch. -/
  times : Place lanes → Nat

inductive Move (lanes : Nat) where
  | call (call : Call lanes)
  | begin
  | retire (reason : Retirement) (now permits : Nat)

inductive Report (n lanes : Nat) where
  | answered (response : Response n lanes)
  | begun
  | swept (answer : RetireStream)

namespace Sweep

def retire (server : Tx.Server) (sweep : Sweep config n lanes) (first : Nat)
    (reason : Retirement) (now permits : Nat) :
    Except Fault (Report n lanes × Sweep config n lanes) := do
  let ((answer, last), queries) ← sweep.queries.retire server reason now permits first
  .ok (.swept answer,
    { sweep with
      queries := queries
      place := if answer = .done then none else some last
      times := fun place => sweep.times place +
        if sweep.queries.takes server place ∧ first ≤ place.ordinal ∧ place.ordinal < last
        then 1 else 0 })

def step (pick : Pickers lanes) (server : Tx.Server) (sweep : Sweep config n lanes) :
    Move lanes → Except Fault (Report n lanes × Sweep config n lanes)
  | .call call => do
      let (response, queries) ← sweep.queries.step pick call
      .ok (.answered response,
        { sweep with queries := queries, owned := Queries.owners sweep.owned call response })
  | .begin => .ok (.begun, { sweep with place := some 0, times := fun _ => 0 })
  | .retire reason now permits =>
      match sweep.place with
      | none => .ok (.swept .done, sweep)
      | some first => sweep.retire server first reason now permits

/-- A lane is used only by its owner, and during a sweep nothing else is
submitted to or retired from the server. -/
def allowed (server : Tx.Server) (sweep : Sweep config n lanes) : Move lanes → Prop
  | .call call => (∀ lane, call.lane = some lane → sweep.owned lane = true) ∧
      (sweep.place ≠ none → call.submits ≠ some server ∧
        ∀ reason now permits ordinal, call ≠ .retire server reason now permits ordinal)
  | .begin => sweep.place = none
  | .retire _ _ _ => sweep.place ≠ none

def machine (config : Config) (n : Nat) (layout : Layout) (pick : Pickers layout.lanes)
    (server : Tx.Server) :
    Machine (Sweep config n layout.lanes) (Move layout.lanes) (Report n layout.lanes) Fault where
  start sweep := sweep = ⟨.new, fun _ => false, none, fun _ => 0⟩
  allowed := allowed server
  step := step pick server

structure Sound (server : Tx.Server) (sweep : Sweep config n lanes) : Prop where
  queries : sweep.queries.Sound
  tenancy : sweep.queries.Lanes sweep.owned
  unmixed : ∀ place, ¬ Mixed (sweep.queries.branch place)
  behind : ∀ first, sweep.place = some first → ∀ place : Place lanes, place.ordinal < first →
    sweep.queries.isCancelled place.1 = true ∨
      (sweep.queries.branch place).waitsOn server = false
  times : ∀ first, sweep.place = some first → ∀ place : Place lanes,
    sweep.times place ≤ if place.ordinal < first then 1 else 0

variable {sweep next : Sweep config n lanes} {server : Tx.Server} {reason : Retirement}
  {now permits first : Nat}

/-- A branch that the sweep can take is not behind it. -/
theorem Sound.ahead (sound : sweep.Sound server) (place : sweep.place = some first)
    {branch : Place lanes} (takes : sweep.queries.takes server branch = true) :
    first ≤ branch.ordinal ∧ sweep.times branch = 0 := by
  obtain ⟨held, waits⟩ := Queries.takes_waits takes
  have lower : first ≤ branch.ordinal := by
    by_contra below
    rcases sound.behind first place branch (by omega) with cancelled | calm
    · rw [held] at cancelled
      simp at cancelled
    · rw [waits] at calm
      simp at calm
  refine ⟨lower, ?_⟩
  have bound := sound.times first place branch
  rw [if_neg (by omega)] at bound
  omega

/-- What a step of the sweep has done, and that nothing behind it waits. -/
theorem Sound.retire (bound : lanes * 2 ≤ 65534) (sound : sweep.Sound server)
    (place : sweep.place = some first) (reason : Retirement) (now permits : Nat) :
    ∃ answer last queries,
      sweep.queries.retire server reason now permits first = .ok ((answer, last), queries) ∧
      queries.Sound ∧ queries.laneSets = sweep.queries.laneSets ∧
      Queries.Swept server (sweep.queries.ending reason) now sweep.queries queries first last ∧
      (∀ place : Place lanes, place.ordinal < last → queries.isCancelled place.1 = true ∨
        (queries.branch place).waitsOn server = false) ∧
      (answer = .done → ∀ place, queries.isCancelled place.1 = true ∨
        (queries.branch place).waitsOn server = false) := by
  obtain ⟨⟨answer, last⟩, queries, ran, after⟩ :=
    Queries.retire_safe bound sound.queries server reason now permits first
  refine ⟨answer, last, queries, ran, after, Queries.retire_laneSets ran, ?_⟩
  rcases Queries.retire_swept ran with ⟨idle, same, rfl⟩ | ⟨swept, done⟩
  · subst same
    have none := Queries.hasStream_false sound.queries sound.unmixed idle server
    exact ⟨.refl _ _, fun place _ => .inr (none place), fun _ place => .inr (none place)⟩
  · have behind : ∀ place : Place lanes, place.ordinal < last →
        queries.isCancelled place.1 = true ∨
          (queries.branch place).waitsOn server = false := by
      intro branch below
      cases takes : sweep.queries.takes server branch with
      | true =>
        obtain ⟨attempt, lease, ended, -, ends, lands⟩ :=
          swept.ended branch takes (sound.ahead place takes).1 below
        exact .inr (lands.waitsOn (Queries.Ends.still ends server))
      | false =>
        have lands := swept.kept branch _ (.inl takes) (.inl rfl)
        unfold Queries.takes at takes
        cases cancelled : sweep.queries.isCancelled branch.1 with
        | true =>
          left
          unfold Queries.isCancelled at cancelled ⊢
          rw [swept.laneSets]
          exact cancelled
        | false =>
          right
          rw [cancelled] at takes
          exact lands.waitsOn (by simpa using takes)
    exact ⟨swept, behind, fun finished place =>
      behind place (Nat.lt_of_lt_of_le (ordinal_lt place) (done finished))⟩

theorem sound_call (bound : lanes * 2 ≤ 65534) (pick : Pickers lanes) (sound : sweep.Sound server)
    (ok : sweep.allowed server (.call call)) :
    ∃ report next, sweep.step pick server (.call call) = .ok (report, next) ∧
      next.Sound server := by
  obtain ⟨owner, apart⟩ := ok
  obtain ⟨response, queries, ran, after⟩ := Queries.step_safe bound pick sound.queries call
  obtain ⟨tenancy, clears⟩ := Queries.step_lanes sound.queries sound.tenancy owner ran
  have stepped : sweep.step pick server (.call call) = .ok (.answered response,
      { sweep with
        queries := queries
        owned := Queries.owners sweep.owned call response }) := by
    unfold step
    dsimp only
    rw [ran]
    rfl
  refine ⟨_, _, stepped, after, tenancy, ?_, ?_, ?_⟩
  · intro place mixed
    refine sound.unmixed place (Queries.step_spares Mixed still_not_mixed sound.queries ran ?_ ?_ place
      mixed)
    · rintro attempt lease plain ⟨attempt', lease', same, streams⟩
      cases same
      exact streams plain
    · rintro target attempt id - - ⟨attempt', lease', same, -⟩
      simp at same
  · intro first place branch below
    have sweeping : sweep.place ≠ none := by
      intro none
      exact absurd (none.symm.trans place) (by simp)
    have spared : (queries.branch branch).waitsOn server = true →
        (sweep.queries.branch branch).waitsOn server = true := by
      refine Queries.step_spares (fun content => content.waitsOn server = true) ?_
        sound.queries ran ?_ ?_ branch
      · intro content still
        rw [still server]
        simp
      · intro attempt lease plain
        simp [Branch.waitsOn, plain]
      · intro target attempt id submits streams
        have other : target ≠ server := by
          rintro rfl
          exact (apart sweeping).1 submits
        simp [Branch.waitsOn, streams, other]
    cases waits : (queries.branch branch).waitsOn server with
    | false => exact .inr rfl
    | true =>
      left
      cases cancelled : queries.isCancelled branch.1 with
      | true => rfl
      | false =>
        exfalso
        rcases clears branch.1 cancelled with held | idle
        · rcases sound.behind first place branch below with before | calm
          · rw [held] at before
            simp at before
          · rw [spared waits] at calm
            simp at calm
        · unfold Queries.branch at waits
          rw [idle] at waits
          simp [Branch.waitsOn] at waits
  · exact sound.times

theorem sound_retire (bound : lanes * 2 ≤ 65534) (pick : Pickers lanes)
    (sound : sweep.Sound server) (place : sweep.place = some first) (reason : Retirement)
    (now permits : Nat) :
    ∃ report next, sweep.step pick server (.retire reason now permits) = .ok (report, next) ∧
      next.Sound server := by
  obtain ⟨answer, last, queries, ran, after, sets, swept, behind, -⟩ :=
    sound.retire bound place reason now permits
  have unwaiting : ∀ kind : Branch config n → Prop, (∀ branch, branch.Still → ¬ kind branch) →
      ∀ branch, kind (queries.branch branch) → kind (sweep.queries.branch branch) := by
    intro kind calm
    exact Queries.retire_tracks (spares_tracks calm) ran
  have stepped : sweep.step pick server (.retire reason now permits) = .ok (.swept answer,
      { sweep with
        queries := queries
        place := if answer = .done then none else some last
        times := fun place => sweep.times place +
          if sweep.queries.takes server place ∧ first ≤ place.ordinal ∧ place.ordinal < last
          then 1 else 0 }) := by
    unfold step
    dsimp only
    rw [place]
    unfold Sweep.retire
    dsimp only
    rw [ran]
    rfl
  refine ⟨_, _, stepped, after, ?_, ?_, ?_, ?_⟩
  · refine ⟨?_, ?_⟩
    · intro lane
      dsimp only
      rw [sets]
      exact sound.tenancy.once lane
    · intro lane free
      dsimp only at free ⊢
      rw [sets] at free
      exact Queries.retire_tracks rests_tracks ran lane (sound.tenancy.idle lane free)
  · intro branch mixed
    exact sound.unmixed branch (unwaiting Mixed still_not_mixed branch mixed)
  · intro resumed resumption branch below
    dsimp only at resumption
    split at resumption
    · simp at resumption
    · cases resumption
      exact behind branch below
  · intro resumed resumption branch
    dsimp only at resumption ⊢
    split at resumption
    · simp at resumption
    · cases resumption
      have before := sound.times first place branch
      have upto := swept.upto
      by_cases takes : sweep.queries.takes server branch = true
      · rw [(sound.ahead place takes).2]
        split <;> split <;> omega
      · rw [if_neg (fun all => takes all.1)]
        split at before <;> split <;> omega

theorem sound_invariant (layout : Layout) (pick : Pickers layout.lanes) (server : Tx.Server) :
    (machine config n layout pick server).Invariant (Sound server) where
  start sweep begun := by
    rw [show sweep = ⟨.new, fun _ => false, none, fun _ => 0⟩ from begun]
    refine ⟨Ledger.new_sound, ⟨?_, fun _ _ => rfl⟩, ?_, by simp, by simp⟩
    · intro lane
      simp [Queries.new]
    · rintro place ⟨attempt, lease, same, -⟩
      simp [Queries.branch, Queries.new, Ledger.new] at same
  step sweep move sound ok := by
    have bound := Nat.le_of_lt_succ layout.bound
    cases move with
    | call call => exact sound_call bound pick sound ok
    | begin =>
      refine ⟨_, _, rfl, sound.queries, sound.tenancy, sound.unmixed, ?_, ?_⟩
      · intro first place branch below
        cases place
        simp at below
      · intro first place branch
        exact Nat.zero_le _
    | retire reason now permits =>
      cases place : sweep.place with
      | none => exact absurd place ok
      | some first => exact sound_retire bound pick sound place reason now permits

/-! ## Retirement over whole runs -/

/-- In every reachable state each lane is free, cancelled or owned, and a claimed
lane is idle without a completion. During a sweep, however its permits split it,
a branch that waits on the server is still ahead and was not taken before. Each
call settles exactly the waiting branches it comes to, and when it is done no
branch of a lane that is not cancelled waits on the server. -/
theorem reachable_retired (layout : Layout) (pick : Pickers layout.lanes) (server : Tx.Server)
    {sweep : Sweep config n layout.lanes}
    (h : (machine config n layout pick server).Reachable sweep) :
    (∀ lane, (sweep.queries.laneSets 0 lane).toNat + (sweep.queries.laneSets 1 lane).toNat +
      (sweep.owned lane).toNat = 1) ∧
    (∀ lane next, Queries.claim pick.lane sweep.queries = .ok (some lane, next) →
      next.inner.slots lane = .idle none) ∧
    ∀ first, sweep.place = some first →
      (∀ place, sweep.queries.takes server place = true →
        first ≤ place.ordinal ∧ sweep.times place = 0) ∧
      (∀ place, sweep.times place ≤ 1) ∧
      ∀ reason now permits, ∃ answer last next,
        sweep.queries.retire server reason now permits first = .ok ((answer, last), next) ∧
        (answer = .done → ∀ place, next.isCancelled place.1 = false →
          (next.branch place).waitsOn server = false) ∧
        ∀ place : Place layout.lanes,
          (sweep.queries.takes server place = true ∧ place.ordinal < last →
            ∃ attempt lease branch, sweep.queries.branch place = .waiting attempt lease ∧
              (sweep.queries.ending reason).Ends attempt (sweep.queries.hard place.1) now branch ∧
              next.Lands place branch) ∧
          (¬ (sweep.queries.takes server place = true ∧ place.ordinal < last) →
            next.Lands place (sweep.queries.branch place)) := by
  have sound := (sound_invariant layout pick server).holds h
  refine ⟨sound.tenancy.once, ?_, ?_⟩
  · intro lane next claimed
    rcases Queries.claim_lanes sound.tenancy claimed with ⟨none, -⟩ | ⟨fresh, same, idle, -⟩
    · simp at none
    · cases same
      exact idle
  · intro first place
    refine ⟨fun branch takes => sound.ahead place takes, ?_, ?_⟩
    · intro branch
      have bound := sound.times first place branch
      split at bound <;> omega
    · intro reason now permits
      obtain ⟨answer, last, next, ran, -, -, swept, -, done⟩ :=
        sound.retire (Nat.le_of_lt_succ layout.bound) place reason now permits
      refine ⟨answer, last, next, ran, ?_, ?_⟩
      · intro finished branch held
        rcases done finished branch with cancelled | calm
        · rw [held] at cancelled
          simp at cancelled
        · exact calm
      · intro branch
        constructor
        · rintro ⟨takes, below⟩
          exact swept.ended branch takes (sound.ahead place takes).1 below
        · intro outside
          refine swept.kept branch _ ?_ (.inl rfl)
          by_cases takes : sweep.queries.takes server branch = true
          · exact .inr (.inr (Nat.le_of_not_lt fun below => outside ⟨takes, below⟩))
          · exact .inl (by simpa using takes)

end Sweep

/-! ## One branch on a stream -/

namespace Sample

/-- A lane is claimed and its lookup started, a bare reply sends one branch to
the stream, it is submitted there, and the retirement begins. -/
theorem streaming : ∃ sweep : Sweep single 2 1,
    (Sweep.machine single 2 layout pickers 0).Reachable sweep ∧ sweep.place = some 0 ∧
    sweep.queries.takes 0 (0, .four) = true ∧
    sweep.queries.inner.registry.streamFailure = none ∧
    ∃ attempt lease, sweep.queries.branch (0, .four) = .waiting attempt lease ∧
      13 < attempt.deadline ∧
      ∃ next, sweep.queries.retire 0 .expired 13 2 0 = .ok ((.done, 2), next) ∧
        next.branch (0, .four) = .pending attempt := by
  have new : (Sweep.machine single 2 layout pickers 0).Reachable _ := .start rfl
  have claimed := new.call (.call .claim)
    ⟨fun lane other => by simp [Call.lane] at other, fun sweeping => absurd rfl sweeping⟩ rfl
  have started := claimed.call (.call (.start 0 .startup 0 ⟨[97]⟩ 10))
    ⟨fun lane mine => by cases mine; rfl, fun sweeping => absurd rfl sweeping⟩ rfl
  have waiting := started.call (.call (.admitUdp 10 true random .committed))
    ⟨fun lane other => by simp [Call.lane] at other, fun sweeping => absurd rfl sweeping⟩ rfl
  have redirected := waiting.call (.call (.receiveUdp ⟨.v4 [192, 0, 2, 1], 53, 0, 0⟩
      [0, 7, 128, 0, 0, 1, 0, 0, 0, 0, 0, 0, 1, 97, 0, 0, 1, 0, 1] 11))
    ⟨fun lane other => by simp [Call.lane] at other, fun sweeping => absurd rfl sweeping⟩ rfl
  have streams := redirected.call (.call (.submit 12 0 9 .ready))
    ⟨fun lane other => by simp [Call.lane] at other, fun sweeping => absurd rfl sweeping⟩ rfl
  have begun := streams.call .begin rfl rfl
  exact ⟨_, begun, rfl, rfl, rfl, _, _, rfl, by decide, _, rfl, rfl⟩

end Sample

/-- An expiry does not spend a retry of a branch whose deadline is ahead: the
branch that waits on the stream goes back with its attempt as it was. -/
theorem Sweep.expired_resumes :
    ∃ sweep : Sweep Sample.single 2 1,
      (machine Sample.single 2 Sample.layout Sample.pickers 0).Reachable sweep ∧
      sweep.place = some 0 ∧ sweep.queries.takes 0 (0, .four) = true ∧
      ∃ attempt lease next, sweep.queries.branch (0, .four) = .waiting attempt lease ∧
        sweep.queries.retire 0 .expired 13 2 0 = .ok ((.done, 2), next) ∧
        next.branch (0, .four) = .pending attempt := by
  obtain ⟨sweep, reachable, place, takes, -, attempt, lease, row, -, next, ran, after⟩ :=
    Sample.streaming
  exact ⟨sweep, reachable, place, takes, attempt, lease, next, row, ran, after⟩

theorem Sweep.reachable_retired_example :
    ∃ sweep : Sweep Sample.single 2 1,
      (machine Sample.single 2 Sample.layout Sample.pickers 0).Reachable sweep ∧
      sweep.queries.takes 0 (0, .four) = true ∧
      ∃ next, sweep.queries.retire 0 .expired 13 2 0 = .ok ((.done, 2), next) ∧
        (next.branch (0, .four)).waitsOn 0 = false := by
  obtain ⟨sweep, reachable, place, takes, -, attempt, lease, row, -, next, ran, after⟩ :=
    Sample.streaming
  obtain ⟨-, -, swept⟩ := reachable_retired Sample.layout Sample.pickers 0 reachable
  obtain ⟨answer, last, next', ran', done, -⟩ := (swept 0 place).2.2 .expired 13 2
  rw [ran] at ran'
  cases ran'
  refine ⟨sweep, reachable, takes, next, ran, done rfl (0, .four) ?_⟩
  have held := (Queries.takes_waits takes).1
  unfold Queries.isCancelled at held ⊢
  rwa [Queries.retire_laneSets ran]

end Dope.Dns.Storage
