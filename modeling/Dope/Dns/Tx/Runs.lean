import Mathlib.Algebra.Group.Nat.Defs
import Mathlib.Data.Prod.Basic
import Dope.Base.Run
import Dope.Dns.Tx.Table

/-! # Runs of the transaction table

The callers take, release and cancel leases in any order; a datagram lease is
released only by its holder. Beside the table, a run keeps the leases that are
out and the history of every id and epoch ever issued together.
-/

namespace Dope.Dns.Tx

open Index

variable {B : Type} {table : Table B} {lease : Udp} {table' : Table B} {plane : Fin 2} {owner : B}
  {id : Id}

namespace Table

/-! ## What the operations change -/

/-- The epoch stayed, or it advanced and the planes changed places. -/
def Turned (table table' : Table B) : Prop :=
  (table'.epochs = table.epochs ∧ table'.epoch = table.epoch) ∨
    (table'.epochs = table.epochs.swap ∧ table'.epoch.value = table.epoch.value + 1)

structure Refused (table table' : Table B) : Prop where
  pool : table'.pool = table.pool
  owners : table'.owners = table.owners
  cursor : table'.cursor = table.cursor
  streamOwners : table'.streamOwners = table.streamOwners
  streams : table'.streams = table.streams
  turned : Turned table table'

structure Granted (table table' : Table B) (owner : B) (lease : Udp) : Prop where
  member : ∃ plane, table.pool plane lease.id = true ∧
    table'.pool = table.pool.clear plane lease.id ∧
    ((plane = table.epochs.1 ∧ table'.epochs = table.epochs ∧ table'.epoch = table.epoch) ∨
      (table'.epochs = table.epochs.swap ∧ table'.epoch.value = table.epoch.value + 1))
  owners : table'.owners = fun id => if id = lease.id then some owner else table.owners id
  epoch : lease.epoch = table'.epoch
  streamOwners : table'.streamOwners = table.streamOwners
  streams : table'.streams = table.streams

theorem grant_error {server : Server} {random : Random} {error : Error.Identity}
    (h : table.grant id plane owner server random = (.error error, table')) :
    table' = { table with pool := table.pool.insert plane id } := by
  unfold grant at h
  split at h
  · exact (congrArg Prod.snd h).symm
  · simp at h

theorem grant_ok {server : Server} {random : Random}
    (h : table.grant id plane owner server random = (.ok lease, table')) :
    lease.id = id ∧ lease.epoch = table.epoch ∧ ∃ cookies, table' = { table with
      cookies := cookies
      cursor := (table.cursor + 1) % 2 ^ 64
      owners := fun i => if i = id then some owner else table.owners i } := by
  unfold grant at h
  split at h
  · simp at h
  · cases h
    exact ⟨rfl, rfl, _, rfl⟩

theorem tryRotate_ok (h : table.tryRotate = .ok table') :
    ∃ next, next.value = table.epoch.value + 1 ∧ table' = { table with
      epoch := next
      cookies := table.cookies.clear
      epochs := table.epochs.swap } := by
  unfold tryRotate at h
  split at h
  · simp at h
  · rename_i next advanced
    exact ⟨next, Epoch.tryNext_ok advanced, (Except.ok.inj h).symm⟩

variable {pick : Id → Picker Id} {table table' : Table B} {owner : B} {server : Server}
  {random : Random}

theorem tryUdp_error {error : Error.Identity}
    (h : table.tryUdp pick owner server random = (.error error, table')) :
    Refused table table' := by
  unfold tryUdp at h
  dsimp only at h
  split at h
  · rename_i id pool taken
    obtain ⟨member, rfl⟩ := Planes.take_some taken
    cases grant_error h
    exact ⟨Planes.insert_clear member, rfl, rfl, rfl, rfl, .inl ⟨rfl, rfl⟩⟩
  · split at h
    · cases h
      exact ⟨rfl, rfl, rfl, rfl, rfl, .inl ⟨rfl, rfl⟩⟩
    · rename_i id pool taken
      obtain ⟨member, rfl⟩ := Planes.take_some taken
      split at h
      · cases h
        exact ⟨Planes.insert_clear member, rfl, rfl, rfl, rfl, .inl ⟨rfl, rfl⟩⟩
      · rename_i rotated turned
        obtain ⟨next, advanced, rfl⟩ := tryRotate_ok turned
        cases grant_error h
        exact ⟨Planes.insert_clear member, rfl, rfl, rfl, rfl, .inr ⟨rfl, advanced⟩⟩

theorem tryUdp_ok (h : table.tryUdp pick owner server random = (.ok lease, table')) :
    Granted table table' owner lease := by
  unfold tryUdp at h
  dsimp only at h
  split at h
  · rename_i id pool taken
    obtain ⟨member, rfl⟩ := Planes.take_some taken
    obtain ⟨rfl, epoch, cookies, rfl⟩ := grant_ok h
    exact ⟨⟨_, member, rfl, .inl ⟨rfl, rfl, rfl⟩⟩, rfl, epoch, rfl, rfl⟩
  · split at h
    · simp at h
    · rename_i id pool taken
      obtain ⟨member, rfl⟩ := Planes.take_some taken
      split at h
      · simp at h
      · rename_i rotated turned
        obtain ⟨next, advanced, rfl⟩ := tryRotate_ok turned
        obtain ⟨rfl, epoch, cookies, rfl⟩ := grant_ok h
        exact ⟨⟨_, member, rfl, .inr ⟨rfl, advanced⟩⟩, rfl, epoch, rfl, rfl⟩

/-- The datagram part of the table is untouched. -/
structure Kept (table table' : Table B) : Prop where
  pool : table'.pool = table.pool
  owners : table'.owners = table.owners
  epochs : table'.epochs = table.epochs
  epoch : table'.epoch = table.epoch

theorem Kept.refl (table : Table B) : Kept table table := ⟨rfl, rfl, rfl, rfl⟩

theorem tryTcp_kept (table : Table B) (owner : B) (id : Id) :
    Kept table (table.tryTcp owner id).2 := by
  unfold tryTcp
  split
  · exact .refl table
  · exact ⟨rfl, rfl, rfl, rfl⟩

theorem clearTcp_kept (table : Table B) (id : Id) : Kept table (table.clearTcp id) := by
  unfold clearTcp
  split
  · exact .refl table
  · exact ⟨rfl, rfl, rfl, rfl⟩

/-! ## The table alone -/

def occupied (table : Table B) : Finset Id :=
  Finset.univ.filter fun id => (table.streamOwners id).isSome

/-- Every id is free in one plane or owned, and the stream counter is exact. -/
structure Valid (table : Table B) : Prop where
  split : table.epochs.1 ≠ table.epochs.2
  once : ∀ id, (table.pool 0 id).toNat + (table.pool 1 id).toNat +
    (table.owners id).isSome.toNat = 1
  counted : table.streams = table.occupied.card

theorem new_valid : (new : Table B).Valid where
  split := by simp [new]
  once _ := by simp [new]
  counted := by simp [new, occupied]

theorem Turned.split (turned : Turned table table') (h : table.epochs.1 ≠ table.epochs.2) :
    table'.epochs.1 ≠ table'.epochs.2 := by
  obtain ⟨same, -⟩ | ⟨swapped, -⟩ := turned
  · rw [same]
    exact h
  · rw [swapped]
    exact h.symm

theorem Granted.turned (h : Granted table table' owner lease) : Turned table table' := by
  obtain ⟨-, -, -, ⟨-, same⟩ | swapped⟩ := h.member
  · exact .inl same
  · exact .inr swapped

section

variable (valid : table.Valid)

include valid

theorem Valid.refused (h : Refused table table') : table'.Valid where
  split := h.turned.split valid.split
  once id := by
    rw [h.pool, h.owners]
    exact valid.once id
  counted := by
    rw [h.streams, occupied, h.streamOwners]
    exact valid.counted

theorem Valid.owner_of_free (free : table.pool plane id = true) : table.owners id = none := by
  have once := valid.once id
  cases held : table.owners id with
  | none => rfl
  | some owner =>
    rw [held] at once
    have bound : plane = 0 ∨ plane = 1 := by omega
    obtain rfl | rfl := bound
    · simp [free] at once
    · simp [free] at once

theorem Valid.granted (h : Granted table table' owner lease) :
    table'.Valid where
  split := h.turned.split valid.split
  once id := by
    obtain ⟨plane, free, pool, -⟩ := h.member
    have once := valid.once id
    have bound : plane = 0 ∨ plane = 1 := by omega
    rw [pool, h.owners]
    by_cases same : id = lease.id
    · subst same
      rw [valid.owner_of_free free] at once
      obtain rfl | rfl := bound
      · rw [free] at once
        simp at once ⊢
        omega
      · rw [free] at once
        simp at once ⊢
        omega
    · simpa [same] using once
  counted := by
    rw [h.streams, occupied, h.streamOwners]
    exact valid.counted

/-- Releasing the lease of an owned id keeps the table valid. -/
theorem Valid.releaseUdp (owned : (table.owners lease.id).isSome) :
    (table.releaseUdp lease).Valid where
  split := valid.split
  once id := by
    have once := valid.once id
    unfold Table.releaseUdp
    dsimp only
    generalize (if lease.epoch = table.epoch then table.epochs.2 else table.epochs.1) = plane
    have bound : plane = 0 ∨ plane = 1 := by omega
    by_cases same : id = lease.id
    · subst same
      rw [owned] at once
      obtain rfl | rfl := bound
      · simp at once ⊢
        exact once.2
      · simp at once ⊢
        exact once.1
    · simpa [same] using once
  counted := valid.counted

theorem Valid.tryTcp (owner : B) (id : Id) : (table.tryTcp owner id).2.Valid := by
  unfold Table.tryTcp
  split
  · exact valid
  · rename_i vacant
    refine ⟨valid.split, valid.once, ?_⟩
    have grown : occupied { table with
        streamOwners := fun i => if i = id then some owner else table.streamOwners i
        streams := table.streams + 1 } = insert id table.occupied := by
      ext i
      by_cases same : i = id <;> simp [occupied, same]
    rw [grown, Finset.card_insert_of_notMem (by simp [occupied, vacant]), valid.counted]

theorem Valid.clearTcp (id : Id) : (table.clearTcp id).Valid := by
  unfold Table.clearTcp
  split
  · exact valid
  · rename_i owner held
    refine ⟨valid.split, valid.once, ?_⟩
    have shrunk : occupied { table with
        streamOwners := fun i => if i = id then none else table.streamOwners i
        streams := table.streams - 1 } = table.occupied.erase id := by
      ext i
      by_cases same : i = id <;> simp [occupied, same]
    rw [shrunk, Finset.card_erase_of_mem (by simp [occupied, held]), valid.counted]

end

end Table

/-! ## Runs -/

/-- The table with the datagram leases that are out and all ids ever issued. -/
structure Ids (B : Type) where
  table : Table B
  leases : List Udp
  issued : List (Id × Epoch)

inductive Call (B : Type) where
  | tryUdp (owner : B) (server : Server) (random : Random)
  | tryTcp (owner : B) (id : Id)
  | release (lease : Lease)
  | cancel (id : Id)
  | cache (cookie : Cookie) (server : Server) (value : Wire.Cookies.Server)
  | bindUdp

inductive Reply where
  | udp (result : Except Error.Identity Udp)
  | tcp (result : Except Error.Identity Unit)
  | cached (value : Bool)
  | done

namespace Ids

def new : Ids B := ⟨.new, [], []⟩

def tryUdp (pick : Id → Picker Id) (ids : Ids B) (owner : B) (server : Server)
    (random : Random) : Reply × Ids B :=
  match ids.table.tryUdp pick owner server random with
  | (.ok lease, table) =>
      (.udp (.ok lease), ⟨table, lease :: ids.leases, (lease.id, lease.epoch) :: ids.issued⟩)
  | (.error error, table) => (.udp (.error error), { ids with table := table })

def release (ids : Ids B) (lease : Lease) : Ids B :=
  match lease with
  | .udp lease => { ids with
      table := ids.table.releaseUdp lease
      leases := ids.leases.erase lease }
  | .tcp id => { ids with table := ids.table.clearTcp id }

/-- A datagram lease is a value that only its holder can give back. -/
def allowed (ids : Ids B) : Call B → Prop
  | .release (.udp lease) => lease ∈ ids.leases
  | _ => True

def step (pick : Id → Picker Id) (ids : Ids B) : Call B → Reply × Ids B
  | .tryUdp owner server random => ids.tryUdp pick owner server random
  | .tryTcp owner id =>
      let (result, table) := ids.table.tryTcp owner id
      (.tcp result, { ids with table := table })
  | .release lease => (.done, ids.release lease)
  | .cancel id => (.done, { ids with table := ids.table.cancel id })
  | .cache cookie server value =>
      let (cached, table) := ids.table.cache cookie server value
      (.cached cached, { ids with table := table })
  | .bindUdp => (.done, { ids with table := ids.table.bindUdp })

def machine (pick : Id → Picker Id) : Run.Machine (Ids B) (Call B) Reply Empty where
  start ids := ids = new
  allowed := allowed
  step ids call := .ok (ids.step pick call)

/-! ## The invariant -/

structure Sound (ids : Ids B) : Prop where
  valid : ids.table.Valid
  leased : ∀ id, ids.leases.countP (fun lease => lease.id = id) =
    (ids.table.owners id).isSome.toNat
  past : ∀ entry ∈ ids.issued, entry.2.value ≤ ids.table.epoch.value
  /-- The first plane holds ids that this epoch has not issued yet. -/
  fresh : ∀ id, ids.table.pool ids.table.epochs.1 id = true →
    (id, ids.table.epoch) ∉ ids.issued
  /-- Neither has the epoch issued an id that an older lease still holds. -/
  older : ∀ lease ∈ ids.leases, lease.epoch ≠ ids.table.epoch →
    (lease.id, ids.table.epoch) ∉ ids.issued
  nodup : ids.issued.Nodup

variable {ids : Ids B}

theorem new_sound : (new : Ids B).Sound where
  valid := Table.new_valid
  leased _ := by simp [new, Table.new]
  past _ h := by simp [new] at h
  fresh _ _ := by simp [new]
  older _ h := by simp [new] at h
  nodup := List.nodup_nil

/-- A change of the table that keeps its datagram part keeps the invariant. -/
theorem Sound.keep (sound : ids.Sound) (valid : table.Valid) (kept : Table.Kept ids.table table) :
    Sound { ids with table := table } where
  valid := valid
  leased := by
    rw [kept.owners]
    exact sound.leased
  past := by
    rw [kept.epoch]
    exact sound.past
  fresh := by
    rw [kept.pool, kept.epochs, kept.epoch]
    exact sound.fresh
  older := by
    rw [kept.epoch]
    exact sound.older
  nodup := sound.nodup

/-- Nothing was issued in an epoch that has just begun. -/
theorem Sound.unissued (sound : ids.Sound) {epoch : Epoch}
    (next : epoch.value = ids.table.epoch.value + 1) (id : Id) : (id, epoch) ∉ ids.issued := by
  intro h
  have past := sound.past _ h
  dsimp only at past
  omega

theorem Sound.refused (sound : ids.Sound) (h : Table.Refused ids.table table) :
    Sound { ids with table := table } := by
  obtain ⟨epochs, epoch⟩ | ⟨-, next⟩ := h.turned
  · exact sound.keep (sound.valid.refused h) ⟨h.pool, h.owners, epochs, epoch⟩
  · refine ⟨sound.valid.refused h, ?_, ?_, ?_, ?_, sound.nodup⟩
    · rw [h.owners]
      exact sound.leased
    · intro entry hm
      have past := sound.past entry hm
      dsimp only
      omega
    · intro id _
      exact sound.unissued next id
    · intro lease _ _
      exact sound.unissued next lease.id

theorem Sound.granted (sound : ids.Sound) (h : Table.Granted ids.table table owner lease) :
    Sound ⟨table, lease :: ids.leases, (lease.id, lease.epoch) :: ids.issued⟩ := by
  obtain ⟨plane, free, pool, place⟩ := h.member
  have unowned := sound.valid.owner_of_free free
  have unheld : ids.leases.countP (fun held => held.id = lease.id) = 0 := by
    rw [sound.leased lease.id, unowned]
    rfl
  -- the pair is new: either this epoch still had the id free, or the epoch is new
  have unissued : (lease.id, lease.epoch) ∉ ids.issued := by
    rw [h.epoch]
    obtain ⟨rfl, -, epoch⟩ | ⟨-, next⟩ := place
    · rw [epoch]
      exact sound.fresh lease.id free
    · exact sound.unissued next lease.id
  have newer : ∀ id, id ≠ lease.id →
      (table.pool table.epochs.1 id = true → (id, table.epoch) ∉ ids.issued) ∧
      (∀ held ∈ ids.leases, held.id = id → held.epoch ≠ table.epoch →
        (id, table.epoch) ∉ ids.issued) := by
    intro id other
    obtain ⟨rfl, epochs, epoch⟩ | ⟨-, next⟩ := place
    · rw [pool, epochs, epoch]
      refine ⟨fun hp => sound.fresh id (by simpa [other] using hp), ?_⟩
      rintro held hm rfl
      exact sound.older held hm
    · exact ⟨fun _ => sound.unissued next id, fun _ _ _ _ => sound.unissued next id⟩
  refine ⟨sound.valid.granted h, ?_, ?_, ?_, ?_, List.nodup_cons.mpr ⟨unissued, sound.nodup⟩⟩
  · intro id
    rw [List.countP_cons, h.owners]
    by_cases same : lease.id = id
    · subst same
      simpa using unheld
    · simpa [same, Ne.symm same] using sound.leased id
  · intro entry hm
    obtain rfl | hm := List.mem_cons.mp hm
    · rw [h.epoch]
    · have past := sound.past entry hm
      obtain ⟨-, -, epoch⟩ | ⟨-, next⟩ := place
      · rw [epoch]
        exact past
      · dsimp only
        omega
  · intro id hp
    dsimp only at hp ⊢
    by_cases same : id = lease.id
    · subst same
      have gone := (sound.valid.granted h).owner_of_free hp
      rw [h.owners] at gone
      simp at gone
    · simp only [List.mem_cons, Prod.mk.injEq, same, false_and, false_or]
      exact (newer id same).1 hp
  · intro held hm old
    dsimp only at old ⊢
    obtain rfl | hm := List.mem_cons.mp hm
    · exact absurd h.epoch old
    · have other : held.id ≠ lease.id := by
        intro same
        rw [List.countP_eq_zero] at unheld
        simpa [same] using unheld held hm
      simp only [List.mem_cons, Prod.mk.injEq, other, false_and, false_or]
      exact (newer held.id other).2 held hm rfl old

theorem Sound.releaseUdp (sound : ids.Sound) (held : lease ∈ ids.leases) :
    (ids.release (.udp lease)).Sound := by
  have counts := fun id => (List.perm_cons_erase held).countP_eq
    (fun lease : Udp => decide (lease.id = id))
  have owned : (ids.table.owners lease.id).isSome := by
    have some := sound.leased lease.id
    rw [counts lease.id, List.countP_cons] at some
    cases ho : ids.table.owners lease.id with
    | none => simp [ho] at some
    | some owner => rfl
  refine ⟨sound.valid.releaseUdp owned, ?_, sound.past, ?_, ?_, sound.nodup⟩
  · intro id
    have before := sound.leased id
    rw [counts id, List.countP_cons] at before
    dsimp only [Ids.release, Table.releaseUdp]
    by_cases same : id = lease.id
    · subst same
      simp [owned] at before
      simpa using before
    · simpa [same, Ne.symm same] using before
  · intro id hp
    dsimp only [Ids.release, Table.releaseUdp] at hp ⊢
    by_cases same : id = lease.id
    · subst same
      by_cases current : lease.epoch = ids.table.epoch
      · rw [if_pos current] at hp
        have split := sound.valid.split
        rw [Planes.insert_apply, if_neg (fun h => split h.1)] at hp
        exact sound.fresh lease.id hp
      · exact sound.older lease held current
    · simp only [Planes.insert_apply, same, and_false, if_false] at hp
      exact sound.fresh id hp
  · intro other hm old
    exact sound.older other (List.mem_of_mem_erase hm) old

theorem Sound.step (sound : ids.Sound) (pick : Id → Picker Id) {call : Call B}
    (ok : ids.allowed call) : (ids.step pick call).2.Sound := by
  cases call with
  | tryUdp owner server random =>
    unfold Ids.step Ids.tryUdp
    dsimp only
    split
    · rename_i lease table run
      exact sound.granted (Table.tryUdp_ok run)
    · rename_i error table run
      exact sound.refused (Table.tryUdp_error run)
  | tryTcp owner id =>
    exact sound.keep (sound.valid.tryTcp owner id) (Table.tryTcp_kept ids.table owner id)
  | release lease =>
    cases lease with
    | udp lease => exact sound.releaseUdp ok
    | tcp id =>
      exact sound.keep (sound.valid.clearTcp id) (Table.clearTcp_kept ids.table id)
  | cancel id =>
    exact sound.keep (sound.valid.clearTcp id) (Table.clearTcp_kept ids.table id)
  | cache cookie server value =>
    exact sound.keep ⟨sound.valid.split, sound.valid.once, sound.valid.counted⟩
      ⟨rfl, rfl, rfl, rfl⟩
  | bindUdp =>
    exact sound.keep ⟨sound.valid.split, sound.valid.once, sound.valid.counted⟩
      ⟨rfl, rfl, rfl, rfl⟩

theorem sound_invariant (pick : Id → Picker Id) :
    (machine (B := B) pick).Invariant Sound where
  start ids h := by
    rw [show ids = new from h]
    exact new_sound
  step ids call sound ok := ⟨_, _, rfl, sound.step pick ok⟩

/-- Free ids and outstanding leases partition the ids in every reachable state,
owners name exactly the leased ids, no id is issued twice in one epoch, and a
refused request changes neither the free ids, nor the owners, nor the cursor. -/
theorem reachable_partition (pick : Id → Picker Id) {ids : Ids B}
    (h : (machine pick).Reachable ids) :
    (∀ id, (ids.table.pool ids.table.epochs.1 id).toNat +
      (ids.table.pool ids.table.epochs.2 id).toNat +
      ids.leases.countP (fun lease => lease.id = id) = 1) ∧
    (∀ id, (ids.table.owners id).isSome ↔ ∃ lease ∈ ids.leases, lease.id = id) ∧
    ids.issued.Nodup ∧
    ids.table.streams =
      (Finset.univ.filter fun id => (ids.table.streamOwners id).isSome).card ∧
    ∀ owner server random error table,
      ids.table.tryUdp pick owner server random = (.error error, table) →
      table.pool = ids.table.pool ∧ table.owners = ids.table.owners ∧
        table.cursor = ids.table.cursor := by
  have sound := (sound_invariant pick).holds h
  refine ⟨fun id => ?_, fun id => ?_, sound.nodup, sound.valid.counted, ?_⟩
  · have once := sound.valid.once id
    have split := sound.valid.split
    rw [sound.leased id]
    generalize ids.table.epochs.1 = first at split ⊢
    generalize ids.table.epochs.2 = second at split ⊢
    have places : first = 0 ∧ second = 1 ∨ first = 1 ∧ second = 0 := by omega
    obtain ⟨rfl, rfl⟩ | ⟨rfl, rfl⟩ := places
    · exact once
    · omega
  · have leased := sound.leased id
    cases owner : ids.table.owners id with
    | none =>
        rw [owner] at leased
        have none := List.countP_eq_zero.mp leased
        simpa using none
    | some owned =>
        rw [owner] at leased
        have some : 0 < ids.leases.countP (fun lease => lease.id = id) := by simp [leased]
        simpa using List.countP_pos_iff.mp some
  · intro owner server random error table run
    have refused := Table.tryUdp_error run
    exact ⟨refused.pool, refused.owners, refused.cursor⟩

/-- Random keys that start every search at the cursor. -/
def counting : Random where
  start cursor := ⟨cursor % capacity, Nat.mod_lt _ (by decide)⟩
  cookie input := ⟨input⟩

theorem reachable_partition_example :
    ∃ ids : Ids Nat, (machine Picker.startingAt).Reachable ids ∧ ids.leases.length = 1 ∧
      (ids.table.owners 0).isSome ∧ ids.issued.Nodup := by
  have first : (machine Picker.startingAt).Reachable (new : Ids Nat) := .start rfl
  have ok : (machine Picker.startingAt).allowed (new : Ids Nat) (.tryUdp 7 0 counting) :=
    trivial
  have reached := first.next ok rfl
  obtain ⟨-, owned, nodup, -⟩ := reachable_partition Picker.startingAt reached
  exact ⟨_, reached, rfl, (owned 0).mpr ⟨_, List.mem_singleton.mpr rfl, rfl⟩, nodup⟩

end Ids

end Dope.Dns.Tx
