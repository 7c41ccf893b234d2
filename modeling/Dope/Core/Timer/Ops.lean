import Dope.Core.Timer.Rep

/-! # Operations on a timer store

Each operation succeeds on planes that describe a map, and leaves planes that
describe the map it should.
-/

namespace Dope.Core.Timer

open Run Function

variable {P R : Type} {core next : Core P R} {entries rest : List (Nat × P)}
  {before : Nat × P → Nat × P → Prop} {Ordered : List (Nat × P) → Prop}
  {engine : Hole.Engine (Nat × P)} {map : Nat → Alarm P R} {chain : List Nat} {slot : Nat}
  {item : R} {word : Nat}

theorem Alarm.due_of_word {alarm : Alarm P R} (h : alarm.word = some word) : alarm.due = none := by
  cases alarm with
  | armed item due => cases h
  | free | idle | fired => rfl

/-- The heap does not see what happens to a slot that is not in it. -/
theorem Heaped.restate (h : Heaped Ordered core entries)
    (absent : ∀ entry ∈ entries, entry.1 ≠ slot) (word free : Nat) (residents : Nat → Resident R) :
    Heaped Ordered { core with
      states := update core.states slot word, residents := residents, free := free }
      entries where
  lays := by
    refine ⟨h.lays.fits, ?_⟩
    intro position other due at_ away
    obtain ⟨slots, priorities, within, stands⟩ := h.lays.entry at_ away
    have apart : other ≠ slot := absent _ (List.mem_iff_getElem?.mpr ⟨position, at_⟩)
    exact ⟨slots, priorities, within, (update_of_ne apart _ _).trans stands⟩
  len := h.len
  ordered := h.ordered

variable {count : Nat}

namespace Describes

section

variable (h : Describes Ordered core map entries chain)

include h

theorem leased (has : (map slot).item = some item) : slot ∉ chain := by
  intro member
  rw [((h.vacant slot).mp member).2] at has
  cases has

/-- What holds of the other slots when one slot changes. -/
theorem other_words (moved : Moved { core with len := count } next (· ∈ rest))
    (members : ∀ {other due}, (other, due) ∈ rest → other ≠ slot → (other, due) ∈ entries)
    {other : Nat} (away : other ≠ slot) (bound : other < core.capacity.count)
    (has : (map other).word = some word) : next.states other = word := by
  rw [moved.states other]
  · exact h.word other word bound has
  · intro due member
    have armed := (h.armed other due).mp (members member away)
    rw [Alarm.due_of_word has] at armed
    cases armed

theorem arm {due : P} (heaped : Heaped Ordered next rest)
    (members : ∀ entry, entry ∈ rest ↔ entry = (slot, due) ∨ entry ∈ entries ∧ entry.1 ≠ slot)
    (moved : Moved { core with len := count } next (· ∈ rest)) (has : (map slot).item = some item) :
    Describes Ordered next (update map slot (.armed item due)) rest chain where
  heaped := heaped
  armed := by
    intro other due'
    rw [members]
    by_cases here : other = slot
    · subst here
      simp [Alarm.due, eq_comm]
    · rw [update_of_ne here, ← h.armed]
      simp [here]
  word := by
    intro other word bound has'
    by_cases here : other = slot
    · subst here
      rw [update_self] at has'
      cases has'
    · rw [update_of_ne here] at has'
      rw [moved.capacity] at bound
      refine h.other_words moved ?_ here bound has'
      intro other due' member away
      rcases (members _).mp member with same | ⟨member, -⟩
      · exact absurd (congrArg Prod.fst same) away
      · exact member
  item := by
    intro other item' has'
    rw [moved.capacity, moved.residents]
    by_cases here : other = slot
    · subst here
      rw [update_self] at has'
      cases has'
      exact h.item _ _ has
    · rw [update_of_ne here] at has'
      exact h.item other item' has'
  linked := by
    rw [moved.residents, moved.free]
    exact h.linked
  nodup := h.nodup
  vacant := by
    intro other
    rw [h.vacant, moved.capacity]
    by_cases here : other = slot
    · subst here
      rw [update_self]
      refine and_congr_right (fun _ => ?_)
      constructor
      · intro free
        rw [free] at has
        cases has
      · intro armed
        cases armed
    · rw [update_of_ne here]

/-- Give a slot that is in no heap entry the word of an alarm that is not
armed. -/
theorem settle {alarm : Alarm P R} (heaped : Heaped Ordered next rest)
    (members : ∀ entry, entry ∈ rest ↔ entry ∈ entries ∧ entry.1 ≠ slot)
    (moved : Moved { core with len := count } next (· ∈ rest)) (has : (map slot).item = some item)
    (keeps : alarm.item = some item) (shown : alarm.word = some word) :
    ∃ last, next.writeState slot word = .ok last ∧ last.capacity = core.capacity ∧
      Describes Ordered last (update map slot alarm) rest chain := by
  obtain ⟨bound, resident⟩ := h.item slot item has
  have still : alarm.due = none := Alarm.due_of_word shown
  have run : next.writeState slot word = .ok
      { next with states := update next.states slot word } := by
    unfold Core.writeState
    rw [if_pos (by rw [moved.capacity]; exact bound)]
  refine ⟨_, run, moved.capacity,
    ⟨heaped.restate (fun entry member => ((members entry).mp member).2) _ _ _,
    ?_, ?_, ?_, ?_, h.nodup, ?_⟩⟩
  · intro other due
    rw [members]
    by_cases here : other = slot
    · subst here
      simp [still]
    · rw [update_of_ne here, ← h.armed]
      simp [here]
  · intro other word' within has'
    by_cases here : other = slot
    · subst here
      rw [update_self, shown] at has'
      cases has'
      exact update_self ..
    · rw [update_of_ne here] at has'
      dsimp only at within ⊢
      rw [update_of_ne here]
      rw [moved.capacity] at within
      exact h.other_words moved (fun member _ => ((members _).mp member).1) here within has'
  · intro other item' has'
    dsimp only
    rw [moved.capacity, moved.residents]
    by_cases here : other = slot
    · subst here
      rw [update_self, keeps] at has'
      cases has'
      exact ⟨bound, resident⟩
    · rw [update_of_ne here] at has'
      exact h.item other item' has'
  · dsimp only
    rw [moved.residents, moved.free]
    exact h.linked
  · intro other
    dsimp only
    rw [h.vacant, moved.capacity]
    by_cases here : other = slot
    · subst here
      rw [update_self]
      refine and_congr_right (fun _ => ?_)
      constructor
      · intro free
        rw [free] at has
        cases has
      · intro free
        rw [free] at keeps
        cases keeps
    · rw [update_of_ne here]

/-! ## Operations -/

theorem absent (still : (map slot).due = none) (entry : Nat × P) :
    entry ∈ entries ↔ entry ∈ entries ∧ entry.1 ≠ slot := by
  constructor
  · intro member
    refine ⟨member, ?_⟩
    rintro rfl
    have armed := (h.armed entry.1 entry.2).mp member
    rw [still] at armed
    cases armed
  · exact And.left

theorem room (still : (map slot).due = none) (bound : slot < core.capacity.count) :
    entries.length < core.capacity.count := by
  have inside : ∀ entry ∈ entries, entry.1 < core.capacity.count := by
    intro entry member
    exact (h.stands ((h.armed entry.1 entry.2).mp member)).2.1
  have distinct : (slot :: entries.map Prod.fst).Nodup := by
    refine List.nodup_cons.mpr ⟨?_, ?_⟩
    · intro member
      obtain ⟨entry, held, rfl⟩ := List.mem_map.mp member
      exact ((h.absent still entry).mp held).2 rfl
    · refine List.pairwise_map.mpr (List.pairwise_iff_getElem.mpr ?_)
      intro first second left right order same
      have at_ : entries[second]? = some (entries[first].1, entries[second].2) := by
        rw [same]
        exact List.getElem?_eq_getElem right
      have stood := h.heaped.lays.unique (List.getElem?_eq_getElem left) at_ (by omega) (by omega)
      omega
  have within : (slot :: entries.map Prod.fst) ⊆ List.range core.capacity.count := by
    intro other member
    rw [List.mem_range]
    rcases List.mem_cons.mp member with rfl | member
    · exact bound
    · obtain ⟨entry, held, rfl⟩ := List.mem_map.mp member
      exact inside entry held
  have fits := (List.subperm_of_subset distinct within).length_le
  rw [List.length_cons, List.length_map, List.length_range] at fits
  exact fits

end

section

variable (lawful : engine.Lawful before Ordered) (h : Describes Ordered core map entries chain)
  (has : (map slot).item = some item)

include lawful h has

theorem disarm :
    ∃ phase next rest count, core.phase slot = .ok phase ∧ core.disarm engine phase = .ok next ∧
      Heaped Ordered next rest ∧ (∀ entry, entry ∈ rest ↔ entry ∈ entries ∧ entry.1 ≠ slot) ∧
      Moved { core with len := count } next (· ∈ rest) := by
  cases alarm : map slot with
  | free =>
    rw [alarm] at has
    cases has
  | idle other =>
    exact ⟨_, core, entries, core.len, h.phase_idle alarm, rfl, h.heaped,
      h.absent (by rw [alarm]; rfl), .refl core _⟩
  | fired other =>
    exact ⟨_, core, entries, core.len, h.phase_fired alarm, rfl, h.heaped,
      h.absent (by rw [alarm]; rfl), .refl core _⟩
  | armed other due =>
    have armed : (map slot).due = some due := by rw [alarm]; rfl
    obtain ⟨found, -, -⟩ := h.stands armed
    obtain ⟨next, rest, run, heaped, members, moved⟩ := h.heaped.removeAt lawful found
    refine ⟨_, next, rest, _, h.phase_armed armed, ?_, heaped, members, moved⟩
    unfold Core.disarm
    dsimp only
    rw [run, ok_bind]

theorem set (due : P) :
    ∃ next edited, core.set engine slot due = .ok next ∧ next.capacity = core.capacity ∧
      Describes Ordered next (update map slot (.armed item due)) edited chain := by
  have bound := (h.item slot item has).1
  have store : (map slot).due = none → ∃ next edited, core.insert engine slot due = .ok next ∧
      next.capacity = core.capacity ∧
        Describes Ordered next (update map slot (.armed item due)) edited chain := by
    intro still
    have fresh : ∀ other, (slot, other) ∉ entries := by
      intro other member
      exact ((h.absent still _).mp member).2 rfl
    obtain ⟨next, grown, run, heaped, members, moved⟩ := h.heaped.insert lawful due bound
      (h.room still bound) fresh
    refine ⟨next, grown, run, moved.capacity, h.arm heaped ?_ moved has⟩
    intro entry
    rw [members, ← h.absent still]
  unfold Core.set
  cases alarm : map slot with
  | free =>
    rw [alarm] at has
    cases has
  | idle other =>
    rw [h.phase_idle alarm, ok_bind]
    exact store (by rw [alarm]; rfl)
  | fired other =>
    rw [h.phase_fired alarm, ok_bind]
    exact store (by rw [alarm]; rfl)
  | armed other old =>
    have armed : (map slot).due = some old := by rw [alarm]; rfl
    obtain ⟨found, -, -⟩ := h.stands armed
    obtain ⟨next, edited, run, heaped, members, moved⟩ := h.heaped.setAt lawful found due
    rw [h.phase_armed armed, ok_bind]
    exact ⟨next, edited, run, moved.capacity, h.arm heaped members
      (moved : Moved { core with len := core.len } next _) has⟩

theorem clear :
    ∃ next rest, core.clear engine slot = .ok next ∧ next.capacity = core.capacity ∧
      Describes Ordered next (update map slot (.idle item)) rest chain := by
  obtain ⟨phase, middle, rest, count, read, run, heaped, members, moved⟩ := h.disarm lawful has
  have alarm : (Alarm.idle item : Alarm P R).word = some idleWord := rfl
  obtain ⟨next, wrote, same, describes⟩ := h.settle heaped members moved has rfl alarm
  refine ⟨next, rest, ?_, same, describes⟩
  unfold Core.clear
  rw [read, ok_bind, run, ok_bind]
  exact wrote

theorem release :
    ∃ next rest, core.release engine slot = .ok (item, next) ∧ next.capacity = core.capacity ∧
      Describes Ordered next (update map slot .free) rest (slot :: chain) := by
  obtain ⟨bound, resident⟩ := h.item slot item has
  obtain ⟨phase, middle, rest, count, read, run, heaped, members, moved⟩ := h.disarm lawful has
  have final : core.release engine slot = .ok (item,
      { middle with
        residents := update middle.residents slot (.next middle.free)
        free := slot
        states := update middle.states slot freeWord }) := by
    unfold Core.release
    rw [read, ok_bind, run, ok_bind, moved.residents, resident]
    dsimp only
    unfold Core.writeState
    rw [if_pos (by dsimp only; rw [moved.capacity]; exact bound), ok_bind]
  refine ⟨_, rest, final, moved.capacity,
    ⟨heaped.restate (fun entry member => ((members entry).mp member).2) _ _ _,
    ?_, ?_, ?_, ?_, ?_, ?_⟩⟩
  · intro other due
    rw [members]
    by_cases here : other = slot
    · subst here
      simp [Alarm.due]
    · rw [update_of_ne here, ← h.armed]
      simp [here]
  · intro other word within has'
    by_cases here : other = slot
    · subst here
      rw [update_self] at has'
      cases has'
      exact update_self ..
    · rw [update_of_ne here] at has'
      dsimp only at within ⊢
      rw [update_of_ne here]
      rw [moved.capacity] at within
      exact h.other_words moved (fun member _ => ((members _).mp member).1) here within has'
  · intro other item' has'
    have here : other ≠ slot := by
      rintro rfl
      rw [update_self] at has'
      cases has'
    rw [update_of_ne here] at has'
    dsimp only
    rw [update_of_ne here, moved.capacity, moved.residents]
    exact h.item other item' has'
  · refine ⟨rfl, middle.free, update_self .., ?_⟩
    rw [moved.free]
    refine h.linked.congr ?_
    intro other member
    have here : other ≠ slot := by
      rintro rfl
      exact h.leased has member
    dsimp only
    rw [update_of_ne here, moved.residents]
  · exact List.nodup_cons.mpr ⟨h.leased has, h.nodup⟩
  · intro other
    dsimp only
    rw [List.mem_cons, h.vacant, moved.capacity]
    by_cases here : other = slot
    · subst here
      rw [update_self]
      simp [bound]
    · rw [update_of_ne here]
      simp [here]

end

theorem lease (h : Describes Ordered core map entries chain) (item : R) :
    (chain = [] ∧ core.vacancy = false) ∨
      ∃ slot rest next, chain = slot :: rest ∧ core.vacancy = true ∧
        core.lease item = .ok (slot, next) ∧ next.capacity = core.capacity ∧
        Describes Ordered next (update map slot (.idle item)) entries rest := by
  have linked := h.linked
  cases chain with
  | nil =>
    refine .inl ⟨rfl, ?_⟩
    unfold Core.vacancy
    rw [linked]
    rfl
  | cons slot rest =>
    obtain ⟨head, next, link, linked⟩ := linked
    obtain ⟨bound, free⟩ := (h.vacant slot).mp List.mem_cons_self
    obtain ⟨fresh, nodup⟩ := List.nodup_cons.mp h.nodup
    have limit := core.capacity.bound
    have absent : ∀ entry ∈ entries, entry.1 ≠ slot := by
      intro entry member
      exact ((h.absent (by rw [free]; rfl) entry).mp member).2
    have run : core.lease item = .ok (slot,
        { core with
          residents := update core.residents slot (.value item)
          free := next
          states := update core.states slot idleWord }) := by
      unfold Core.lease
      rw [head, if_pos bound, link]
      dsimp only
      unfold Core.writeState
      rw [if_pos bound, ok_bind]
    refine .inr ⟨slot, rest, _, rfl, ?_, run, rfl, ⟨h.heaped.restate absent _ _ _, ?_, ?_, ?_, ?_,
      nodup, ?_⟩⟩
    · unfold Core.vacancy
      rw [head]
      simp only [bne_iff_ne, ne_eq]
      unfold freeWord
      omega
    · intro other due
      rw [h.armed]
      by_cases here : other = slot
      · subst here
        rw [update_self, free]
        rfl
      · rw [update_of_ne here]
    · intro other word within has
      by_cases here : other = slot
      · subst here
        rw [update_self] at has
        cases has
        exact update_self ..
      · rw [update_of_ne here] at has
        dsimp only
        rw [update_of_ne here]
        exact h.word other word within has
    · intro other item' has
      dsimp only
      by_cases here : other = slot
      · subst here
        rw [update_self] at has ⊢
        cases has
        exact ⟨bound, rfl⟩
      · rw [update_of_ne here] at has ⊢
        exact h.item other item' has
    · refine linked.congr ?_
      intro other member
      have here : other ≠ slot := by
        rintro rfl
        exact fresh member
      exact update_of_ne here _ _
    · intro other
      dsimp only
      by_cases here : other = slot
      · subst here
        rw [update_self]
        simp [fresh]
      · rw [update_of_ne here, ← h.vacant, List.mem_cons]
        simp [here]

theorem fire (lawful : engine.Lawful before Ordered)
    (h : Describes Ordered core map entries chain) :
    (entries = [] ∧ core.root = false) ∨
      ∃ slot item due others next rest, entries = (slot, due) :: others ∧ core.root = true ∧
        core.entryAt 0 = .ok (slot, due) ∧ map slot = .armed item due ∧
        (∀ entry ∈ others, before (slot, due) entry) ∧ core.fire engine = .ok (slot, next) ∧
        next.capacity = core.capacity ∧
        Describes Ordered next (update map slot (.fired item)) rest chain := by
  cases entries with
  | nil =>
    refine .inl ⟨rfl, ?_⟩
    unfold Core.root
    rw [h.heaped.len]
    rfl
  | cons entry others =>
    obtain ⟨slot, due⟩ := entry
    have armed := (h.armed slot due).mp List.mem_cons_self
    obtain ⟨item, alarm⟩ : ∃ item, map slot = .armed item due := by
      cases alarm : map slot with
      | armed item other =>
        rw [alarm] at armed
        cases armed
        exact ⟨item, rfl⟩
      | free | idle item | fired item =>
        rw [alarm] at armed
        cases armed
    have has : (map slot).item = some item := by rw [alarm]; rfl
    have top : ((slot, due) :: others)[0]? = some (slot, due) := rfl
    obtain ⟨middle, rest, run, heaped, members, moved⟩ := h.heaped.removeAt lawful top
    have shown : (Alarm.fired item : Alarm P R).word = some firedWord := rfl
    obtain ⟨next, wrote, same, describes⟩ := h.settle heaped members moved has rfl shown
    have first : core.entryAt 0 = .ok (slot, due) :=
      h.heaped.lays.entryAt top (Nat.succ_ne_zero _).symm
    refine .inr ⟨slot, item, due, others, next, rest, rfl, ?_, first, alarm,
      lawful.root h.heaped.ordered, ?_, same, describes⟩
    · unfold Core.root
      rw [h.heaped.len]
      rfl
    · unfold Core.fire
      rw [first, ok_bind]
      dsimp only
      rw [run, ok_bind]
      dsimp only
      rw [wrote, ok_bind]

theorem looks (h : Describes Ordered core map entries chain) (has : (map slot).item = some item) :
    ∃ state, core.state slot = .ok state ∧ (map slot).state = some state ∧
      core.priority slot = .ok (map slot).due ∧ core.resident slot = .ok item := by
  have resident := h.item slot item has
  have shown : core.resident slot = .ok item := by
    unfold Core.resident
    rw [if_pos resident.1, resident.2]
  unfold Core.state Core.priority
  cases alarm : map slot with
  | free =>
    rw [alarm] at has
    cases has
  | idle other =>
    rw [h.phase_idle alarm]
    exact ⟨.idle, rfl, rfl, rfl, shown⟩
  | fired other =>
    rw [h.phase_fired alarm]
    exact ⟨.fired, rfl, rfl, rfl, shown⟩
  | armed other due =>
    have armed : (map slot).due = some due := by rw [alarm]; rfl
    rcases h.stands armed with ⟨found, -, -⟩
    have inside := (List.getElem?_eq_some_iff.mp found).1
    rw [h.phase_armed armed, ok_bind]
    refine ⟨.armed, rfl, rfl, ?_, shown⟩
    rw [ok_bind]
    dsimp only
    rw [h.heaped.lays.entryAt found (by omega), ok_bind]
    rfl

end Describes

end Dope.Core.Timer
