import Dope.Dns.Tx.Runs
import Dope.Runtime.Random

/-! # Fresh client cookies

Model of `net/entropy/datagram.rs`, and what a run of the table issues with its
keys. Every request without a cached pair takes the next generation, so no
permutation input comes twice. A rotation or a new socket retires all cookies
issued before it.
-/

namespace Dope.Dns.Tx

open Index Runtime.Random

variable {B : Type}

/-! ## Keys -/

/-- The lane named `transact`. -/
def transactionLane : Word := 0x7472616e73616374

/-- The lane named `cookies`, with a zero byte after it. -/
def cookieLane : Word := 0x636f6f6b69657300

/-- The datagram ids and cookies of a key. -/
def datagram (key : Key) : Random where
  start cursor := Fin.ofNat capacity (key.word transactionLane (BitVec.ofNat 64 cursor)).toNat
  cookie input := ⟨(key.permute cookieLane (BitVec.ofNat 64 input)).toNat⟩

/-- Different inputs of one key give different client values. -/
theorem datagram_cookie_ne (key : Key) {first second : Nat} (small : first < 2 ^ 64)
    (small' : second < 2 ^ 64) (apart : first ≠ second) :
    (datagram key).cookie first ≠ (datagram key).cookie second := by
  intro same
  have words := BitVec.eq_of_toNat_eq (Wire.Cookies.Client.mk.inj same)
  have inputs := congrArg BitVec.toNat ((key.permute_bijective cookieLane).injective words)
  rw [BitVec.toNat_ofNat, BitVec.toNat_ofNat, Nat.mod_eq_of_lt small, Nat.mod_eq_of_lt small']
    at inputs
  exact apart inputs

theorem Epoch.cookie_lt (epoch : Epoch) (server : Server) : epoch.cookie server < 2 ^ 64 := by
  have bound := epoch.bound
  have offset := server.isLt
  unfold Epoch.max at bound
  unfold Epoch.cookie
  unfold maxServers at *
  omega

theorem Epoch.cookie_ne {first second : Epoch} (apart : first.value ≠ second.value)
    (server other : Server) : first.cookie server ≠ second.cookie other := by
  have bound := server.isLt
  have bound' := other.isLt
  unfold Epoch.cookie
  unfold maxServers at *
  omega

/-! ## What the operations issue -/

variable {server : Server} {cookie : Cookie}

/-- A cached cookie is handed out again; otherwise the next generation is. -/
theorem Cookies.issue_ok {cookies after : Cookies} {random : Random}
    (h : cookies.issue server random = .ok (cookie, after)) :
    (∃ pair, cookies.values server = some pair ∧ cookie = pair.cookie ∧ after = cookies) ∨
      ∃ next : Epoch, next.value = cookies.generation.value + 1 ∧
        cookie = ⟨random.cookie (next.cookie server), next⟩ ∧
        after = { cookies with generation := next } := by
  unfold Cookies.issue at h
  split at h
  · rename_i pair cached
    cases h
    exact .inl ⟨pair, cached, rfl, rfl⟩
  · split at h
    · simp at h
    · rename_i next advanced
      cases h
      exact .inr ⟨next, Epoch.tryNext_ok advanced, rfl, rfl⟩

/-- The cookies a grant is made from: those of the table, or the cleared ones
when the epoch goes on. -/
def Table.Based (before after : Table B) (cookies : Cookies) : Prop :=
  (cookies = before.cookies ∧ after.epoch = before.epoch) ∨
    (cookies = before.cookies.clear ∧ after.epoch.value = before.epoch.value + 1)

theorem Table.tryUdp_cookies {pick : Id → Picker Id} {table after : Table B} {owner : B}
    {random : Random} {result : Except Error.Identity Udp}
    (h : table.tryUdp pick owner server random = (result, after)) :
    ∃ cookies, Table.Based table after cookies ∧
      ((∃ error, result = .error error ∧ after.cookies = cookies) ∨
        ∃ lease, result = .ok lease ∧
          cookies.issue server random = .ok (lease.cookie, after.cookies)) := by
  have grants : ∀ {start : Table B} {id : Id} {plane : Fin 2},
      start.grant id plane owner server random = (result, after) →
      after.epoch = start.epoch ∧
      ((∃ error, result = .error error ∧ after.cookies = start.cookies) ∨
        ∃ lease, result = .ok lease ∧
          start.cookies.issue server random = .ok (lease.cookie, after.cookies)) := by
    intro start id plane granted
    unfold Table.grant at granted
    split at granted
    · cases granted
      exact ⟨rfl, .inl ⟨_, rfl, rfl⟩⟩
    · rename_i cookie cookies issued
      cases granted
      exact ⟨rfl, .inr ⟨_, rfl, issued⟩⟩
  unfold Table.tryUdp at h
  dsimp only at h
  split at h
  · obtain ⟨epoch, outcome⟩ := grants h
    exact ⟨_, .inl ⟨rfl, epoch⟩, outcome⟩
  · split at h
    · cases h
      exact ⟨_, .inl ⟨rfl, rfl⟩, .inl ⟨_, rfl, rfl⟩⟩
    · split at h
      · cases h
        exact ⟨_, .inl ⟨rfl, rfl⟩, .inl ⟨_, rfl, rfl⟩⟩
      · rename_i rotated turned
        obtain ⟨next, advanced, rfl⟩ := tryRotate_ok turned
        obtain ⟨epoch, outcome⟩ := grants h
        refine ⟨_, .inr ⟨rfl, ?_⟩, outcome⟩
        rw [epoch]
        exact advanced

/-! ## Runs -/

/-- A client cookie, with the key and the input it was made from. -/
structure Issue where
  key : Key
  input : Nat
  cookie : Cookie
deriving DecidableEq

/-- The table with every cookie it ever issued, the newest first, and those
issued before it was last cleared. -/
structure Issues (B : Type) where
  ids : Ids B
  issued : List Issue
  retired : List Issue

inductive Act (B : Type) where
  | udp (owner : B) (server : Server) (key : Key)
  | tryTcp (owner : B) (id : Id)
  | release (lease : Lease)
  | cancel (id : Id)
  | cache (cookie : Cookie) (server : Server) (value : Wire.Cookies.Server)
  | bindUdp

/-- The call to the table. -/
def Act.call : Act B → Call B
  | .udp owner server key => .tryUdp owner server (datagram key)
  | .tryTcp owner id => .tryTcp owner id
  | .release lease => .release lease
  | .cancel id => .cancel id
  | .cache cookie server value => .cache cookie server value
  | .bindUdp => .bindUdp

namespace Issues

/-- The cookie that a request issued, when the generation went on. -/
def newest (before after : Table B) (server : Server) (key : Key) : Reply → List Issue
  | .udp (.ok lease) =>
      if after.cookies.generation = before.cookies.generation then []
      else [⟨key, after.cookies.generation.cookie server, lease.cookie⟩]
  | _ => []

def record (issues : Issues B) (act : Act B) (reply : Reply) (ids : Ids B) : Issues B :=
  match act with
  | .udp _ server key =>
      { ids := ids
        issued := newest issues.ids.table ids.table server key reply ++ issues.issued
        retired := if ids.table.epoch = issues.ids.table.epoch then issues.retired
          else issues.issued }
  | .bindUdp => { issues with ids := ids, retired := issues.issued }
  | _ => { issues with ids := ids }

def step (pick : Id → Picker Id) (issues : Issues B) (act : Act B) : Reply × Issues B :=
  let (reply, ids) := issues.ids.step pick act.call
  (reply, issues.record act reply ids)

/-- A cookie is a value that only the table makes. -/
def allowed (issues : Issues B) (act : Act B) : Prop :=
  issues.ids.allowed act.call ∧
    ∀ cookie server value, act = .cache cookie server value →
      ∃ issue ∈ issues.issued, issue.cookie = cookie

def machine (pick : Id → Picker Id) : Run.Machine (Issues B) (Act B) Reply Empty where
  start issues := issues = ⟨.new, [], []⟩
  allowed := allowed
  step issues act := .ok (issues.step pick act)

/-! ## The invariant -/

/-- An issue is what its key makes of the input of its generation. -/
def Made (issue : Issue) : Prop :=
  (∃ server, issue.input = issue.cookie.generation.cookie server) ∧
    issue.cookie.client = (datagram issue.key).cookie issue.input

structure Sound (cookies : Cookies) (issued retired : List Issue) : Prop where
  made : ∀ issue ∈ issued, Made issue
  falling : issued.Pairwise fun later earlier =>
    earlier.cookie.generation.value < later.cookie.generation.value
  newest : ∀ issue ∈ issued, issue.cookie.generation.value ≤ cookies.generation.value
  retired : ∀ issue ∈ retired, issue ∈ issued ∧
    issue.cookie.generation.value ≤ cookies.retired.value
  behind : cookies.retired.value ≤ cookies.generation.value
  cached : ∀ server pair, cookies.values server = some pair →
    (∃ issue ∈ issued, issue.cookie = pair.cookie) ∧
      cookies.retired.value < pair.cookie.generation.value

variable {cookies after : Cookies} {issued retired : List Issue}

theorem Sound.clear (sound : Sound cookies issued retired) :
    Sound cookies.clear issued issued where
  made := sound.made
  falling := sound.falling
  newest := sound.newest
  retired issue member := ⟨member, sound.newest issue member⟩
  behind := Nat.le_refl _
  cached server pair cached := by simp [Cookies.clear] at cached

theorem Sound.issue (sound : Sound cookies issued retired) {key : Key}
    (h : cookies.issue server (datagram key) = .ok (cookie, after)) :
    Sound after ((if after.generation = cookies.generation then []
      else [⟨key, after.generation.cookie server, cookie⟩]) ++ issued) retired := by
  rcases Cookies.issue_ok h with ⟨pair, cached, rfl, rfl⟩ | ⟨next, advanced, rfl, rfl⟩
  · simpa using sound
  · have apart : next ≠ cookies.generation := by
      rintro rfl
      omega
    dsimp only
    rw [if_neg apart, List.singleton_append]
    refine ⟨?_, ?_, ?_, ?_, ?_, ?_⟩
    · intro issue member
      rcases List.mem_cons.mp member with rfl | member
      · exact ⟨⟨server, rfl⟩, rfl⟩
      · exact sound.made issue member
    · refine List.pairwise_cons.mpr ⟨?_, sound.falling⟩
      intro earlier member
      have bound := sound.newest earlier member
      dsimp only
      omega
    · intro issue member
      rcases List.mem_cons.mp member with rfl | member
      · exact Nat.le_refl _
      · have bound := sound.newest issue member
        dsimp only
        omega
    · intro issue member
      obtain ⟨known, late⟩ := sound.retired issue member
      exact ⟨List.mem_cons_of_mem _ known, late⟩
    · have bound := sound.behind
      dsimp only
      omega
    · intro other pair cached
      obtain ⟨⟨issue, member, same⟩, late⟩ := sound.cached other pair cached
      exact ⟨⟨issue, List.mem_cons_of_mem _ member, same⟩, late⟩

theorem Sound.cache (sound : Sound cookies issued retired) (server : Server)
    (value : Wire.Cookies.Server) (known : ∃ issue ∈ issued, issue.cookie = cookie) :
    Sound (cookies.cache cookie server value).2 issued retired := by
  unfold Cookies.cache
  split
  · exact sound
  · rename_i late
    refine ⟨sound.made, sound.falling, sound.newest, sound.retired, sound.behind, ?_⟩
    intro other pair cached
    dsimp only at cached ⊢
    split at cached
    · cases cached
      exact ⟨known, Nat.lt_of_not_le late⟩
    · exact sound.cached other pair cached

/-- The cookie was not issued before the last clear, and its client value is
none that its key made before. -/
structure Apart (issued retired : List Issue) (cookie : Cookie) : Prop where
  unissued : ∀ old ∈ retired, old.cookie ≠ cookie
  unseen : ∀ old ∈ retired, ∀ issue ∈ issued, issue.cookie = cookie → issue.key = old.key →
    old.cookie.client ≠ cookie.client

theorem Made.client_ne {first second : Issue} (made : Made first)
    (made' : Made second) (key : first.key = second.key)
    (apart : first.cookie.generation.value ≠ second.cookie.generation.value) :
    first.input ≠ second.input ∧ first.cookie.client ≠ second.cookie.client := by
  obtain ⟨⟨server, input⟩, client⟩ := made
  obtain ⟨⟨other, input'⟩, client'⟩ := made'
  have inputs : first.input ≠ second.input := by
    rw [input, input']
    exact Epoch.cookie_ne apart server other
  refine ⟨inputs, ?_⟩
  rw [client, client', key]
  refine datagram_cookie_ne second.key ?_ ?_ inputs
  · rw [input]
    exact Epoch.cookie_lt _ server
  · rw [input']
    exact Epoch.cookie_lt _ other

theorem Sound.apart (sound : Sound cookies issued retired) {cookie : Cookie}
    (late : cookies.retired.value < cookie.generation.value) : Apart issued retired cookie := by
  constructor
  · rintro old member rfl
    have bound := (sound.retired old member).2
    omega
  · rintro old member issue known rfl key
    obtain ⟨before, bound⟩ := sound.retired old member
    exact ((sound.made old before).client_ne (sound.made issue known) key.symm (by omega)).2

theorem Sound.issue_apart (sound : Sound cookies issued retired) {key : Key}
    (h : cookies.issue server (datagram key) = .ok (cookie, after)) :
    after.retired.value < cookie.generation.value := by
  rcases Cookies.issue_ok h with ⟨pair, cached, rfl, rfl⟩ | ⟨next, advanced, rfl, rfl⟩
  · exact (sound.cached server pair cached).2
  · have bound := sound.behind
    dsimp only
    omega

variable {pick : Id → Picker Id} {issues : Issues B}

/-- The cookies of the table are sound for what was issued and retired. -/
def Holds (issues : Issues B) : Prop :=
  Sound issues.ids.table.cookies issues.issued issues.retired

/-- A request keeps the invariant, and the cookie of a lease is none of those
retired. -/
theorem Holds.udp (holds : issues.Holds) (owner : B) (server : Server) (key : Key) :
    (issues.step pick (.udp owner server key)).2.Holds ∧
      ∀ lease, (issues.step pick (.udp owner server key)).1 = .udp (.ok lease) →
        Apart (issues.step pick (.udp owner server key)).2.issued
          (issues.step pick (.udp owner server key)).2.retired lease.cookie := by
  cases ran : issues.ids.table.tryUdp pick owner server (datagram key) with
  | mk result table =>
    obtain ⟨cookies, based, outcome⟩ := Table.tryUdp_cookies ran
    have begun : Sound cookies issues.issued
        (if table.epoch = issues.ids.table.epoch then issues.retired else issues.issued) := by
      rcases based with ⟨rfl, same⟩ | ⟨rfl, turned⟩
      · rw [if_pos same]
        exact holds
      · rw [if_neg]
        · exact Sound.clear holds
        · intro same
          rw [same] at turned
          omega
    have generation : cookies.generation = issues.ids.table.cookies.generation := by
      rcases based with ⟨rfl, -⟩ | ⟨rfl, -⟩ <;> rfl
    rcases outcome with ⟨error, rfl, kept⟩ | ⟨lease, rfl, issued⟩
    · have stepped : issues.step pick (.udp owner server key) = (.udp (.error error),
          { ids := { issues.ids with table := table }
            issued := issues.issued
            retired := if table.epoch = issues.ids.table.epoch then issues.retired
              else issues.issued }) := by
        simp [step, Act.call, Ids.step, Ids.tryUdp, ran, record, newest]
      rw [stepped]
      refine ⟨?_, by simp⟩
      unfold Holds
      dsimp only
      rw [kept]
      exact begun
    · have stepped : issues.step pick (.udp owner server key) = (.udp (.ok lease),
          { ids := ⟨table, lease :: issues.ids.leases,
              (lease.id, lease.epoch) :: issues.ids.issued⟩
            issued := (if table.cookies.generation = cookies.generation then []
              else [⟨key, table.cookies.generation.cookie server, lease.cookie⟩]) ++
                issues.issued
            retired := if table.epoch = issues.ids.table.epoch then issues.retired
              else issues.issued }) := by
        rw [generation]
        simp [step, Act.call, Ids.step, Ids.tryUdp, ran, record, newest]
      have after := begun.issue issued
      rw [stepped]
      refine ⟨after, ?_⟩
      rintro other same
      cases same
      exact after.apart (begun.issue_apart issued)

theorem Holds.step (holds : issues.Holds) {act : Act B} (ok : issues.allowed act) :
    (issues.step pick act).2.Holds := by
  cases act with
  | udp owner server key => exact (holds.udp owner server key).1
  | tryTcp owner id =>
    unfold Holds Issues.step Act.call Ids.step record Table.tryTcp
    dsimp only
    split <;> exact holds
  | release lease =>
    cases lease with
    | udp lease => exact holds
    | tcp id =>
      unfold Holds Issues.step Act.call Ids.step Ids.release record Table.clearTcp
      dsimp only
      split <;> exact holds
  | cancel id =>
    unfold Holds Issues.step Act.call Ids.step record Table.cancel Table.clearTcp
    dsimp only
    split <;> exact holds
  | cache cookie server value => exact Sound.cache holds server value (ok.2 _ _ _ rfl)
  | bindUdp => exact Sound.clear holds

theorem holds_invariant (pick : Id → Picker Id) : (machine (B := B) pick).Invariant Holds where
  start issues begun := by
    rw [show issues = ⟨.new, [], []⟩ from begun]
    refine ⟨by simp, .nil, by simp, by simp, Nat.le_refl _, ?_⟩
    intro server pair cached
    simp [Ids.new, Table.new, Cookies.new] at cached
  step issues act holds ok := ⟨_, _, rfl, holds.step ok⟩

/-! ## Cookies over whole runs -/

/-- In every reachable state the inputs ever issued fit a word and are all
different, and so are the client values of each key. No cookie issued before the
last clear is cached, handed out or accepted for caching. -/
theorem reachable_fresh (pick : Id → Picker Id) {issues : Issues B}
    (h : (machine pick).Reachable issues) :
    (∀ issue ∈ issues.issued, issue.input < 2 ^ 64 ∧
      issue.cookie.client = (datagram issue.key).cookie issue.input) ∧
    (issues.issued.Pairwise fun later earlier => later.input ≠ earlier.input) ∧
    (issues.issued.Pairwise fun later earlier => later.key = earlier.key →
      later.cookie.client ≠ earlier.cookie.client) ∧
    (∀ server pair, issues.ids.table.cookies.values server = some pair →
      (∃ issue ∈ issues.issued, issue.cookie = pair.cookie) ∧
        Apart issues.issued issues.retired pair.cookie) ∧
    (∀ old ∈ issues.retired, ∀ server value,
      issues.ids.table.cache old.cookie server value = (false, issues.ids.table)) ∧
    ∀ owner server key lease next,
      issues.step pick (.udp owner server key) = (.udp (.ok lease), next) →
      Apart next.issued next.retired lease.cookie := by
  have sound := (holds_invariant pick).holds h
  refine ⟨?_, ?_, ?_, ?_, ?_, ?_⟩
  · intro issue member
    obtain ⟨⟨server, input⟩, client⟩ := sound.made issue member
    refine ⟨?_, client⟩
    rw [input]
    exact Epoch.cookie_lt _ server
  · refine sound.falling.imp_of_mem ?_
    intro later earlier first second order
    obtain ⟨⟨server, input⟩, -⟩ := sound.made later first
    obtain ⟨⟨other, input'⟩, -⟩ := sound.made earlier second
    rw [input, input']
    exact Epoch.cookie_ne (by omega) server other
  · refine sound.falling.imp_of_mem ?_
    intro later earlier first second order key
    exact ((sound.made later first).client_ne (sound.made earlier second) key (by omega)).2
  · intro server pair cached
    obtain ⟨known, late⟩ := sound.cached server pair cached
    exact ⟨known, sound.apart late⟩
  · intro old member server value
    have bound := (sound.retired old member).2
    unfold Table.cache Cookies.cache
    rw [if_pos bound]
  · intro owner server key lease next ran
    have apart := (Holds.udp sound owner server key).2 lease (by rw [ran])
    rw [ran] at apart
    exact apart

/-- Two requests to one server, and then a new socket retires both cookies. -/
theorem reachable_fresh_example :
    ∃ issues : Issues Nat, (machine Picker.startingAt).Reachable issues ∧
      issues.retired.length = 2 ∧
      issues.issued.Pairwise fun later earlier => later.input ≠ earlier.input := by
  have new : (machine Picker.startingAt).Reachable (⟨.new, [], []⟩ : Issues Nat) := .start rfl
  have first := new.call (.udp 7 0 ⟨1, 2⟩) ⟨trivial, by simp⟩ rfl
  have second := first.call (.udp 8 0 ⟨1, 2⟩) ⟨trivial, by simp⟩ rfl
  have bound := second.call .bindUdp ⟨trivial, by simp⟩ rfl
  exact ⟨_, bound, rfl, (reachable_fresh Picker.startingAt bound).2.1⟩

end Issues

end Dope.Dns.Tx
