import Mathlib.Algebra.Group.Nat.Defs
import Dope.Base.Links
import Dope.Base.Span
import Dope.Core.Fd.Retire

/-! # Lines of retirements

The two sides of the queue are two lists, and the number of retirements in flight is
the number of slots that have one. Every change of a slot keeps that up.
-/

namespace Dope.Core.Fd

open Function

variable {T : Type}

/-- A slot that is queued, or should be. -/
def Entry.linked (entry : Entry T) : Bool := entry.phase = .pending && !entry.inflight

def Entry.next? (entry : Entry T) : Option (Option Nat) :=
  match entry.word with
  | .link next => some next
  | .clear | .target _ => none

variable {entry : Entry T}

theorem Entry.link_ok {next : Option Nat} (h : entry.next? = some next) :
    entry.link = .ok next := by
  unfold Entry.next? at h
  unfold Entry.link
  cases word : entry.word with
  | link held =>
    rw [word] at h
    cases h
    rfl
  | clear =>
    rw [word] at h
    cases h
  | target _ =>
    rw [word] at h
    cases h

theorem Side.other_ne (side : Side) : side.other ≠ side := by cases side <;> nofun

theorem Side.other_other (side : Side) : side.other.other = side := by cases side <;> rfl

theorem Side.eq_other {side side' : Side} (apart : side ≠ side') : side = side'.other := by
  cases side <;> cases side' <;> first | rfl | exact absurd rfl apart

variable {i : Nat}

namespace Store

/-- The lists that the two sides of the queue stand for. While one side is drained, the
other one takes what is new. -/
structure Lines (store : Store T) (line : Side → List Nat) : Prop where
  chain : ∀ side, Links.Stacked (fun i => (store.entries i).next?) (store.pending.heads side)
    (line side)
  nodup : ∀ side, (line side).Nodup
  apart : ∀ i side, i ∈ line side → i ∉ line side.other
  mem : ∀ i, (∃ side, i ∈ line side) ↔ (store.entries i).linked = true
  idle : store.pending.draining = none → line store.pending.active.other = []
  drain : ∀ side, store.pending.draining = some side →
    store.pending.active = side.other ∧ line side ≠ []

def flights (store : Store T) : Nat :=
  (List.range' 0 store.capacity).countP fun i => (store.entries i).inflight

structure Good (store : Store T) : Prop where
  lines : ∃ line, store.Lines line
  flights : store.inflight = store.flights
  fresh : ∀ i, store.capacity ≤ i → store.entries i = .new
  bounded : store.capacity ≤ 2 ^ 24

variable {store : Store T}

theorem Good.inside (h : store.Good) (used : store.entries i ≠ .new) : i < store.capacity := by
  by_cases fit : i < store.capacity
  · exact fit
  · exact absurd (h.fresh i (Nat.le_of_not_lt fit)) used

theorem Good.flights_lt (h : store.Good) : store.flights < 2 ^ 32 := by
  have most : store.flights ≤ (List.range' 0 store.capacity).length := List.countP_le_length
  rw [List.length_range'] at most
  have bounded := h.bounded
  omega

theorem put_entries (store : Store T) (i : Nat) (entry : Entry T) :
    (store.put i entry).entries = update store.entries i entry := rfl

theorem put_put (store : Store T) (i : Nat) (first second : Entry T) :
    (store.put i first).put i second = store.put i second := by
  unfold Store.put
  rw [update_idem]

theorem flights_put (store : Store T) (inside : i < store.capacity) (entry : Entry T) :
    (store.put i entry).flights + ((store.entries i).inflight).toNat =
      store.flights + entry.inflight.toNat := by
  have count := @Span.countP_update (fun j => (store.entries j).inflight)
    (fun j => (update store.entries i entry j).inflight) 0 store.capacity i
    (Nat.zero_le i) (by omega) (fun j _ _ apart => by rw [update_of_ne apart])
  rw [update_self] at count
  exact count

/-! ## Changes in place -/

theorem Lines.put {line : Side → List Nat} (h : store.Lines line)
    (same : entry.linked = (store.entries i).linked)
    (next : entry.linked = true → entry.next? = (store.entries i).next?) :
    (store.put i entry).Lines line := by
  refine ⟨?_, h.nodup, h.apart, ?_, h.idle, h.drain⟩
  · intro side
    refine (h.chain side).congr ?_
    intro j mem
    by_cases index : j = i
    · have linked := (h.mem j).mp ⟨side, mem⟩
      rw [index, ← same] at linked
      rw [index, put_entries, update_self]
      exact next linked
    · rw [put_entries, update_of_ne index]
  · intro j
    rw [h.mem j]
    by_cases index : j = i
    · rw [index, put_entries, update_self, same]
    · rw [put_entries, update_of_ne index]

theorem Good.put (h : store.Good) (inside : i < store.capacity)
    (same : entry.linked = (store.entries i).linked)
    (next : entry.linked = true → entry.next? = (store.entries i).next?)
    (inflight : entry.inflight = (store.entries i).inflight) : (store.put i entry).Good := by
  rcases h.lines with ⟨line, lines⟩
  refine ⟨⟨line, lines.put same next⟩, ?_, ?_, h.bounded⟩
  · have count := flights_put store inside entry
    rw [inflight] at count
    have was := h.flights
    show store.inflight = (store.put i entry).flights
    omega
  · intro j out
    have apart : j ≠ i := by
      intro equal
      have : store.capacity ≤ j := out
      omega
    rw [put_entries, update_of_ne apart]
    exact h.fresh j out

/-! ## The queue -/

/-- A slot that was not queued goes to the front of the active side. -/
theorem Good.queue (h : store.Good) (inside : i < store.capacity)
    (unlinked : (store.entries i).linked = false) (pending : entry.phase = .pending)
    (inflight : entry.inflight = (store.entries i).inflight) : (store.queue i entry).Good := by
  cases flying : entry.inflight with
  | true =>
    have unchanged : store.queue i entry = store.put i entry := if_pos flying
    have quiet : entry.linked = false := by
      unfold Entry.linked
      rw [flying]
      simp
    rw [unchanged]
    refine h.put inside (quiet.trans unlinked.symm) ?_ inflight
    rw [quiet]
    nofun
  | false =>
    have pushed : store.queue i entry =
        { store.put i { entry with word := .link (store.pending.heads store.pending.active) } with
          pending := (store.pending.push i).2 } := by
      unfold Store.queue
      rw [if_neg (by rw [flying]; nofun)]
      rfl
    rw [pushed]
    rcases h.lines with ⟨line, lines⟩
    have out : ∀ side, i ∉ line side := by
      intro side mem
      have linked := (lines.mem i).mp ⟨side, mem⟩
      rw [unlinked] at linked
      cases linked
    have active := lines.chain store.pending.active
    refine ⟨⟨update line store.pending.active (i :: line store.pending.active), ?_⟩,
      ?_, ?_, h.bounded⟩
    · constructor
      · intro side
        show Links.Stacked _ (update store.pending.heads store.pending.active (some i)
          side) _
        by_cases here : side = store.pending.active
        · subst here
          rw [update_self, update_self]
          refine active.push (out _) ?_ ?_
          · show Entry.next? (update store.entries i _ i) = _
            rw [update_self]
            rfl
          · intro j apart
            show Entry.next? (update store.entries i _ j) = _
            rw [update_of_ne apart]
        · rw [update_of_ne here, update_of_ne here]
          refine (lines.chain side).congr ?_
          intro j mem
          have apart : j ≠ i := by
            intro equal
            exact out side (equal ▸ mem)
          show Entry.next? (update store.entries i _ j) = _
          rw [update_of_ne apart]
      · intro side
        by_cases here : side = store.pending.active
        · subst here
          rw [update_self]
          exact List.nodup_cons.mpr ⟨out _, lines.nodup _⟩
        · rw [update_of_ne here]
          exact lines.nodup side
      · intro j side mem
        by_cases here : side = store.pending.active
        · rw [here, update_self] at mem
          rw [here, update_of_ne (Side.other_ne _)]
          rcases List.mem_cons.mp mem with new | old
          · rw [new]
            exact out _
          · exact lines.apart j _ old
        · rw [update_of_ne here, Side.eq_other here] at mem
          rw [Side.eq_other here, Side.other_other, update_self, List.mem_cons]
          intro either
          rcases either with new | old
          · rw [new] at mem
            exact out _ mem
          · exact lines.apart j _ old mem
      · intro j
        have was := lines.mem j
        by_cases index : j = i
        · subst index
          refine iff_of_true ⟨store.pending.active, ?_⟩ ?_
          · rw [update_self]
            exact List.mem_cons_self
          · show Entry.linked (update store.entries j _ j) = true
            rw [update_self]
            simp [Entry.linked, pending, flying]
        · have entries : (update store.entries i { entry with
              word := .link (store.pending.heads store.pending.active) } j) =
                store.entries j := update_of_ne index ..
          show _ ↔ Entry.linked (update store.entries i _ j) = true
          rw [entries, ← was]
          refine exists_congr ?_
          intro side
          by_cases here : side = store.pending.active
          · subst here
            rw [update_self, List.mem_cons]
            simp [index]
          · rw [update_of_ne here]
      · intro none
        have idle := lines.idle none
        show update line store.pending.active _ store.pending.active.other = []
        rw [update_of_ne (Side.other_ne _)]
        exact idle
      · intro side draining
        have drain := lines.drain side draining
        refine ⟨drain.1, ?_⟩
        show update line store.pending.active _ side ≠ []
        rw [drain.1, update_of_ne (Side.other_ne _).symm]
        exact drain.2
    · have count := flights_put store inside
        { entry with word := .link (store.pending.heads store.pending.active) }
      rw [← inflight] at count
      have was := h.flights
      show store.inflight = (store.put i _).flights
      dsimp only at count
      omega
    · intro j far
      have apart : j ≠ i := by
        intro equal
        have : store.capacity ≤ j := far
        omega
      show update store.entries i _ j = _
      rw [update_of_ne apart]
      exact h.fresh j far

theorem queue_entries (store : Store T) (i : Nat) (entry : Entry T) :
    ∃ word, (store.queue i entry).entries =
      update store.entries i { entry with word } ∧
      (entry.inflight = true → word = entry.word) := by
  unfold Store.queue
  by_cases flying : entry.inflight = true
  · rw [if_pos flying]
    exact ⟨entry.word, rfl, fun _ => rfl⟩
  · rw [if_neg flying]
    exact ⟨_, rfl, fun yes => absurd yes flying⟩

theorem queue_rest (store : Store T) (i : Nat) (entry : Entry T) :
    (store.queue i entry).capacity = store.capacity ∧
      (store.queue i entry).last = store.last := by
  unfold Store.queue
  split <;> exact ⟨rfl, rfl⟩

end Store

/-! ## The front -/

/-- The generation that a retirement of a slot names. -/
def Entry.epoch (entry : Entry T) : Option Nat :=
  if entry.lease then some entry.generation else entry.retired

namespace Store

variable {store : Store T}

/-- A retirement is at the head of the side that is drained. -/
def Fronted (store : Store T) (token : Retirement) : Prop :=
  ∃ line rest, store.Lines line ∧ line token.side = token.index :: rest ∧
    store.pending.draining = some token.side

theorem Fronted.linked {token : Retirement} (h : store.Fronted token) :
    (store.entries token.index).linked = true := by
  rcases h with ⟨line, rest, lines, head, -⟩
  refine (lines.mem token.index).mp ⟨token.side, ?_⟩
  rw [head]
  exact List.mem_cons_self

theorem Good.pending (h : store.Good)
    (epochs : ∀ i, (store.entries i).phase = .pending → (store.entries i).epoch ≠ none)
    {found : Option Retirement} {store' : Store T}
    (run : store.pendingRetirement = (found, store')) :
    store'.Good ∧ store' = { store with pending := store'.pending } ∧
      (found = none → ∀ i, (store.entries i).linked = false) ∧
      ∀ token, found = some token → store'.Fronted token ∧
        (store.entries token.index).epoch = some token.generation := by
  rcases h.lines with ⟨line, lines⟩
  unfold pendingRetirement Queue.front at run
  dsimp only at run
  cases head : store.pending.heads (store.pending.draining.getD store.pending.active) with
  | none =>
    rw [head] at run
    cases run
    refine ⟨h, rfl, ?_, nofun⟩
    intro _ i
    have empty := (lines.chain (store.pending.draining.getD store.pending.active))
    rw [head] at empty
    have empty := empty.head_none
    have none : store.pending.draining = none := by
      cases draining : store.pending.draining with
      | none => rfl
      | some side =>
        rw [draining] at empty
        exact absurd empty (lines.drain side draining).2
    rw [none] at empty
    have idle := lines.idle none
    cases linked : (store.entries i).linked with
    | false => rfl
    | true =>
      rcases (lines.mem i).mpr linked with ⟨side, mem⟩
      by_cases here : side = store.pending.active
      · rw [here] at mem
        rw [show line store.pending.active = [] from empty] at mem
        cases mem
      · rw [Side.eq_other here, idle] at mem
        cases mem
  | some i =>
    rw [head] at run
    have chain := lines.chain (store.pending.draining.getD store.pending.active)
    rw [head] at chain
    rcases chain.head_some with ⟨next, rest, same, -⟩
    have linked := (lines.mem i).mp ⟨_, by rw [same]; exact List.mem_cons_self⟩
    have pending : (store.entries i).phase = .pending := by
      have := linked
      unfold Entry.linked at this
      simp at this
      exact this.1
    have inside := h.inside (show store.entries i ≠ .new by
      intro new
      rw [new] at pending
      cases pending)
    rcases Option.ne_none_iff_exists'.mp (epochs i pending) with ⟨epoch, here⟩
    have queue : ∀ pending' : Queue, pending'.heads = store.pending.heads →
        (pending' = store.pending ∨ store.pending.draining = none ∧
          pending' = { store.pending with
            active := store.pending.active.other
            draining := some store.pending.active }) →
        ({ store with pending := pending' } : Store T).Lines line := by
      intro pending' heads either
      refine ⟨?_, lines.nodup, lines.apart, lines.mem, ?_, ?_⟩
      · intro side
        show Links.Stacked _ (pending'.heads side) _
        rw [heads]
        exact lines.chain side
      · rcases either with unchanged | ⟨-, switched⟩
        · rw [unchanged]
          exact lines.idle
        · rw [switched]
          nofun
      · rcases either with unchanged | ⟨none, switched⟩
        · rw [unchanged]
          exact lines.drain
        · rw [switched]
          intro side equal
          cases equal
          refine ⟨rfl, ?_⟩
          rw [none] at same
          change line store.pending.active = i :: rest at same
          show line store.pending.active ≠ []
          rw [same]
          nofun
    dsimp only at run
    rw [if_pos inside, if_pos pending] at run
    rw [show (if (store.entries i).lease = true then some (store.entries i).generation
      else (store.entries i).retired) = some epoch from here] at run
    cases draining : store.pending.draining with
    | none =>
      rw [draining] at run same
      cases run
      have lines' := queue { store.pending with
        active := store.pending.active.other
        draining := some store.pending.active } rfl (.inr ⟨draining, rfl⟩)
      refine ⟨⟨⟨line, lines'⟩, h.flights, h.fresh, h.bounded⟩, rfl, nofun, ?_⟩
      intro token equal
      cases equal
      exact ⟨⟨line, rest, lines', same, rfl⟩, here⟩
    | some side =>
      rw [draining] at run same
      cases run
      have lines' := queue _ rfl (.inl rfl)
      refine ⟨⟨⟨line, lines'⟩, h.flights, h.fresh, h.bounded⟩, rfl, nofun, ?_⟩
      intro token equal
      cases equal
      exact ⟨⟨line, rest, lines', same, draining⟩, here⟩

theorem Good.pop (h : store.Good) {token : Retirement} (front : store.Fronted token)
    (quiet : entry.linked = false) {inflight : Nat}
    (count : inflight = (store.put token.index entry).flights) :
    ∃ next, (store.entries token.index).next? = some next ∧
      Good { store.put token.index entry with
        pending := store.pending.commit token.side next, inflight } := by
  have linked := front.linked
  have inside := h.inside (show store.entries token.index ≠ .new by
    intro new
    rw [new] at linked
    cases linked)
  rcases front with ⟨line, rest, lines, head, draining⟩
  have chain := lines.chain token.side
  rw [head] at chain
  rcases chain with ⟨first, next, link, chain⟩
  have once := lines.nodup token.side
  rw [head] at once
  rcases List.nodup_cons.mp once with ⟨out, nodup⟩
  have mine : token.index ∈ line token.side := by
    rw [head]
    exact List.mem_cons_self
  have off : token.index ∉ line token.side.other := lines.apart _ _ mine
  have entries : ∀ j, j ≠ token.index →
      (store.put token.index entry).entries j = store.entries j :=
    fun j apart => update_of_ne apart ..
  refine ⟨next, link, ⟨update line token.side rest, ?_⟩, count, ?_, h.bounded⟩
  · constructor
    · intro side
      show Links.Stacked _ (update store.pending.heads token.side next side) _
      by_cases here : side = token.side
      · rw [here, update_self, update_self]
        refine chain.congr ?_
        intro j mem
        show Entry.next? ((store.put token.index entry).entries j) = _
        rw [entries j (fun equal => out (equal ▸ mem))]
      · rw [update_of_ne here, update_of_ne here]
        refine (lines.chain side).congr ?_
        intro j mem
        rw [Side.eq_other here] at mem
        show Entry.next? ((store.put token.index entry).entries j) = _
        rw [entries j (fun equal => off (equal ▸ mem))]
    · intro side
      by_cases here : side = token.side
      · rw [here, update_self]
        exact nodup
      · rw [update_of_ne here]
        exact lines.nodup side
    · intro j side mem
      have kept : ∀ k, k ∈ rest → k ∈ line token.side := by
        intro k mem
        rw [head]
        exact List.mem_cons_of_mem _ mem
      by_cases here : side = token.side
      · rw [here, update_self] at mem
        rw [here, update_of_ne (Side.other_ne _)]
        exact lines.apart j _ (kept j mem)
      · rw [update_of_ne here, Side.eq_other here] at mem
        rw [Side.eq_other here, Side.other_other, update_self]
        exact fun no => lines.apart j _ (kept j no) mem
    · intro j
      have was := lines.mem j
      by_cases index : j = token.index
      · refine iff_of_false ?_ ?_
        · intro mem
          rcases mem with ⟨side, mem⟩
          by_cases here : side = token.side
          · rw [here, update_self, index] at mem
            exact out mem
          · rw [update_of_ne here, Side.eq_other here, index] at mem
            exact off mem
        · show ¬ Entry.linked ((store.put token.index entry).entries j) = true
          rw [index, put_entries, update_self, quiet]
          nofun
      · show _ ↔ Entry.linked ((store.put token.index entry).entries j) = true
        rw [entries j index, ← was]
        refine exists_congr ?_
        intro side
        by_cases here : side = token.side
        · rw [here, update_self, head, List.mem_cons]
          simp [index]
        · rw [update_of_ne here]
    · intro none
      show update line token.side rest store.pending.active.other = []
      have side := (lines.drain token.side draining).1
      rw [side, Side.other_other, update_self]
      cases next with
      | none => exact chain.head_none
      | some next =>
        change store.pending.draining = Option.none at none
        rw [draining] at none
        cases none
    · intro side found
      cases next with
      | none => cases found
      | some next =>
        change store.pending.draining = some side at found
        rw [draining] at found
        cases found
        refine ⟨(lines.drain _ draining).1, ?_⟩
        show update line token.side rest token.side ≠ []
        rw [update_self]
        rcases chain.head_some with ⟨-, rest', same, -⟩
        rw [same]
        nofun
  · intro j far
    have apart : j ≠ token.index := by
      intro equal
      have : store.capacity ≤ j := far
      omega
    show (store.put token.index entry).entries j = _
    rw [entries j apart]
    exact h.fresh j far

/-! ## Echoes -/

theorem flights_pos (h : store.Good) (flying : (store.entries i).inflight = true) :
    0 < store.flights := by
  have inside := h.inside (show store.entries i ≠ .new by
    intro new
    rw [new] at flying
    cases flying)
  unfold flights
  rw [List.countP_pos_iff]
  exact ⟨i, List.mem_range'_1.mpr ⟨Nat.zero_le i, by omega⟩, flying⟩

/-- A retirement in flight is over, and its slot is not queued. -/
theorem Good.land (h : store.Good) (flying : (store.entries i).inflight = true)
    (landed : entry.inflight = false) (quiet : entry.phase ≠ .pending) :
    Good { store.put i entry with inflight := (store.inflight + (2 ^ 32 - 1)) % 2 ^ 32 } := by
  have inside := h.inside (show store.entries i ≠ .new by
    intro new
    rw [new] at flying
    cases flying)
  rcases h.lines with ⟨line, lines⟩
  have unlinked : (store.entries i).linked = false := by
    unfold Entry.linked
    rw [flying]
    simp
  have unlinked' : entry.linked = false := by
    unfold Entry.linked
    simp [quiet]
  have lines' := lines.put (i := i) (unlinked'.trans unlinked.symm) (by rw [unlinked']; nofun)
  have count := flights_put store inside entry
  rw [flying, landed] at count
  have fewer : (store.inflight + (2 ^ 32 - 1)) % 2 ^ 32 = (store.put i entry).flights := by
    have least := flights_pos h flying
    have most := h.flights_lt
    rw [h.flights]
    simp only [Bool.toNat_true, Bool.toNat_false] at count
    omega
  rw [fewer]
  refine ⟨⟨line, lines'.chain, lines'.nodup, lines'.apart, lines'.mem, lines'.idle,
    lines'.drain⟩, ?_, ?_, h.bounded⟩
  · rfl
  · intro j far
    have apart : j ≠ i := by
      intro equal
      have : store.capacity ≤ j := far
      omega
    show (store.put i entry).entries j = _
    rw [put_entries, update_of_ne apart]
    exact h.fresh j far

end Store

end Dope.Core.Fd
