import Mathlib.Algebra.Group.Nat.Defs
import Mathlib.Data.List.Perm.Subperm
import Dope.Core.Ready.Arena.Owners

/-! # Free slots are filed

Every free slot is in one chain, of the pool or of a domain. The heads, tails and
counts that are kept describe the chains.
-/

namespace Dope.Core.Ready.Arena

open Links Function

variable {G : Type}

/-- The pool over its chain. -/
def poolOf : List Nat → Pool
  | [] => none
  | head :: rest => some ⟨head, rest.length + 1⟩

/-- A domain over its chain. -/
def chainOf : List Nat → Chain
  | [] => ⟨none⟩
  | head :: rest => ⟨some ⟨head, (head :: rest).getLast (List.cons_ne_nil _ _), rest.length + 1⟩⟩

/-- The chains of the free slots: that of the pool, and those of the domains. -/
structure Homes (layout : Layout) (slots : Slots G) (home : Option Nat → List Nat) : Prop where
  linked : ∀ c, Linked slots.next (home c)
  nodup : ∀ c, (home c).Nodup
  disjoint : ∀ c c' i, i ∈ home c → i ∈ home c' → c' = c
  inside : ∀ c, ∀ i ∈ home c, layout.Inside i
  free : ∀ i, layout.Inside i → ((slots i).kind = .free ↔ ∃ c, i ∈ home c)

variable {before : List Nat} {tail next id : Nat} {c : Option Nat}

namespace Homes

variable {layout : Layout} {slots slots' : Slots G} {home : Option Nat → List Nat}

theorem length_le {xs : List Nat} (nodup : xs.Nodup) (inside : ∀ i ∈ xs, layout.Inside i) :
    xs.length ≤ maxCount := by
  have among : xs ⊆ List.range' layout.descriptors layout.dynamic := by
    intro i mem
    have bounds := inside i mem
    exact List.mem_range'_1.mpr bounds
  have total := (List.subperm_of_subset nodup among).length_le
  have bound := layout.bound
  rw [List.length_range'] at total
  unfold maxCount
  omega

theorem kind_of_mem (h : Homes layout slots home) {i : Nat} (mem : i ∈ home c) :
    (slots i).kind = .free := (h.free i (h.inside c i mem)).mpr ⟨c, mem⟩

theorem congr (h : Homes layout slots home)
    (kind : ∀ i, layout.Inside i → ((slots' i).kind = .free ↔ (slots i).kind = .free))
    (word : ∀ i, (slots i).kind = .free → (slots' i).word0 = (slots i).word0) :
    Homes layout slots' home where
  linked c := (h.linked c).congr fun i mem => congrArg reserveWord (word i (h.kind_of_mem mem))
  nodup := h.nodup
  disjoint := h.disjoint
  inside := h.inside
  free i inside := (kind i inside).trans (h.free i inside)

theorem quiet (h : Homes layout slots home) (quiet : Quiet slots slots') :
    Homes layout slots' home := by
  refine h.congr (fun i _ => by rw [quiet.kind]) ?_
  intro i free
  rw [quiet.others i (by rw [free]; decide) (by rw [free]; decide)]

/-- A slot that is not free before and after does not matter. -/
theorem other (h : Homes layout slots home) {index : Nat} {kind : Kind}
    (turn : Becomes slots slots' index kind) (before : (slots index).kind ≠ .free)
    (after : kind ≠ .free) : Homes layout slots' home := by
  refine h.congr ?_ ?_
  · intro i _
    by_cases here : i = index
    · rw [here, turn.kind]
      exact iff_of_false after before
    · rw [turn.others i here]
  · intro i free
    have apart : i ≠ index := by
      intro here
      rw [here] at free
      exact before free
    rw [turn.others i apart]

theorem link_kind (slots : Slots G) (index next i : Nat) :
    (slots.link index next i).kind = (slots i).kind := by
  unfold Slots.link
  by_cases here : i = index
  · rw [here, Slots.modify_self]
    rfl
  · rw [Slots.modify_other _ _ here]

theorem link_next (slots : Slots G) (index : Nat) (fits : next + 1 < 2 ^ 16) (i : Nat) :
    (slots.link index next).next i = if i = index then next else slots.next i := by
  unfold Slots.next Slots.link
  by_cases here : i = index
  · rw [if_pos here, here, Slots.modify_self]
    exact reserve_free fits
  · rw [if_neg here, Slots.modify_other _ _ here]

theorem fits (layout : Layout) {i : Nat} (inside : layout.Inside i) : i + 1 < 2 ^ 16 := by
  have bound := layout.bound
  have under : i < layout.descriptors + layout.dynamic := inside.2
  omega

theorem claim (h : Homes layout slots home) {index : Nat} {rest : List Nat}
    (chain : home c = index :: rest) {kind : Kind} (turn : Becomes slots slots' index kind)
    (after : kind ≠ .free) : Homes layout slots' (update home c rest) := by
  have nodup := h.nodup c
  have linked := h.linked c
  rw [chain] at nodup linked
  have sub : ∀ c', ∀ i ∈ update home c rest c', i ∈ home c' ∧ i ≠ index := by
    intro c' i mem
    by_cases same : c' = c
    · subst same
      rw [update_self] at mem
      rw [chain]
      refine ⟨List.mem_cons_of_mem _ mem, ?_⟩
      rintro rfl
      exact (List.nodup_cons.mp nodup).1 mem
    · rw [update_of_ne same] at mem
      refine ⟨mem, ?_⟩
      rintro rfl
      exact same (h.disjoint c c' i (chain ▸ List.mem_cons_self) mem)
  refine ⟨?_, ?_, ?_, fun c' i mem => h.inside c' i (sub c' i mem).1, ?_⟩
  · intro c'
    have old : Linked slots.next (update home c rest c') := by
      by_cases same : c' = c
      · subst same
        rw [update_self]
        exact linked.tail
      · rw [update_of_ne same]
        exact h.linked c'
    refine old.congr (fun i mem => ?_)
    unfold Slots.next
    rw [turn.others i (sub c' i mem).2]
  · intro c'
    by_cases same : c' = c
    · subst same
      rw [update_self]
      exact (List.nodup_cons.mp nodup).2
    · rw [update_of_ne same]
      exact h.nodup c'
  · intro c' c'' i mem mem'
    exact h.disjoint c' c'' i (sub c' i mem).1 (sub c'' i mem').1
  · intro i inside
    by_cases here : i = index
    · subst here
      rw [turn.kind]
      refine iff_of_false after ?_
      rintro ⟨c', mem⟩
      exact (sub c' i mem).2 rfl
    · rw [turn.others i here, h.free i inside]
      constructor
      · rintro ⟨c', mem⟩
        refine ⟨c', ?_⟩
        by_cases same : c' = c
        · subst same
          rw [update_self]
          rw [chain] at mem
          rcases List.mem_cons.mp mem with equal | later
          · exact absurd equal here
          · exact later
        · rw [update_of_ne same]
          exact mem
      · rintro ⟨c', mem⟩
        exact ⟨c', (sub c' i mem).1⟩

theorem publish (h : Homes layout slots home) (c : Option Nat) {key : Key G}
    (inside : layout.Inside key.index) (taken : (slots key.index).kind ≠ .free)
    (first : next = (home c).headD key.index) :
    Homes layout (slots.publish key next) (update home c (key.index :: home c)) := by
  have out : ∀ c', key.index ∉ home c' := fun c' mem => taken (h.kind_of_mem mem)
  have same : ∀ i, i ≠ key.index → slots.publish key next i = slots i := fun i apart =>
    Slots.modify_other _ _ apart
  have self : (slots.publish key next).next key.index = next := by
    unfold Slots.next Slots.publish
    rw [Slots.modify_self]
    refine reserve_free (fits layout ?_)
    rw [first]
    cases list : home c with
    | nil => exact inside
    | cons x rest => exact h.inside c x (list ▸ List.mem_cons_self)
  have old : ∀ c', Linked (slots.publish key next).next (home c') := fun c' =>
    (h.linked c').congr fun i mem => by
      unfold Slots.next
      rw [same i (fun equal => out c' (equal ▸ mem))]
  refine ⟨?_, ?_, ?_, ?_, ?_⟩
  · intro c'
    by_cases here : c' = c
    · subst here
      rw [update_self]
      exact (old c').cons (self.trans first)
    · rw [update_of_ne here]
      exact old c'
  · intro c'
    by_cases here : c' = c
    · subst here
      rw [update_self]
      exact List.nodup_cons.mpr ⟨out c', h.nodup c'⟩
    · rw [update_of_ne here]
      exact h.nodup c'
  · intro c' c'' i mem mem'
    by_cases here : c' = c <;> by_cases here' : c'' = c
    · rw [here, here']
    · subst here
      rw [update_self] at mem
      rw [update_of_ne here'] at mem'
      rcases List.mem_cons.mp mem with rfl | later
      · exact absurd mem' (out c'')
      · exact h.disjoint c' c'' i later mem'
    · subst here'
      rw [update_self] at mem'
      rw [update_of_ne here] at mem
      rcases List.mem_cons.mp mem' with rfl | later
      · exact absurd mem (out c')
      · exact h.disjoint c' c'' i mem later
    · rw [update_of_ne here] at mem
      rw [update_of_ne here'] at mem'
      exact h.disjoint c' c'' i mem mem'
  · intro c' i mem
    by_cases here : c' = c
    · subst here
      rw [update_self] at mem
      rcases List.mem_cons.mp mem with rfl | later
      · exact inside
      · exact h.inside c' i later
    · rw [update_of_ne here] at mem
      exact h.inside c' i mem
  · intro i inside'
    by_cases here : i = key.index
    · subst here
      refine iff_of_true ?_ ⟨c, by rw [update_self]; exact List.mem_cons_self⟩
      unfold Slots.publish
      rw [Slots.modify_self]
      rfl
    · rw [same i here, h.free i inside']
      constructor
      · rintro ⟨c', mem⟩
        refine ⟨c', ?_⟩
        by_cases equal : c' = c
        · subst equal
          rw [update_self]
          exact List.mem_cons_of_mem _ mem
        · rw [update_of_ne equal]
          exact mem
      · rintro ⟨c', mem⟩
        refine ⟨c', ?_⟩
        by_cases equal : c' = c
        · subst equal
          rw [update_self] at mem
          rcases List.mem_cons.mp mem with equal' | later
          · exact absurd equal' here
          · exact later
        · rw [update_of_ne equal] at mem
          exact mem

/-- The chain of the pool and that of a domain share their slots anew. -/
def share (home : Option Nat → List Nat) (id : Nat) (first second : List Nat) :
    Option Nat → List Nat :=
  update (update home none first) (some id) second

section
variable (home : Option Nat → List Nat) (id : Nat) (first second : List Nat)

@[simp] theorem share_none : share home id first second none = first := by
  unfold share
  rw [update_of_ne (by simp), update_self]

@[simp] theorem share_some : share home id first second (some id) = second :=
  update_self ..

theorem share_other (pool : c ≠ none) (domain : c ≠ some id) :
    share home id first second c = home c := by
  unfold share
  rw [update_of_ne domain, update_of_ne pool]

end

theorem rehome (h : Homes layout slots home) {first second : List Nat}
    (kind : ∀ i, (slots' i).kind = (slots i).kind)
    (perm : (first ++ second).Perm (home none ++ home (some id)))
    (linked : Linked slots'.next first) (linked' : Linked slots'.next second)
    (others : ∀ i, i ∉ home none → i ∉ home (some id) → slots'.next i = slots.next i) :
    Homes layout slots' (share home id first second) := by
  have both : (home none ++ home (some id)).Nodup := by
    refine List.nodup_append.mpr ⟨h.nodup none, h.nodup (some id), ?_⟩
    intro i mem i' mem' equal
    cases h.disjoint none (some id) i mem (equal ▸ mem')
  have nodup := perm.nodup_iff.mpr both
  rcases List.nodup_append.mp nodup with ⟨nodup1, nodup2, apart⟩
  have whole : ∀ i, i ∈ first ∨ i ∈ second ↔ i ∈ home none ∨ i ∈ home (some id) := by
    intro i
    rw [← List.mem_append, ← List.mem_append]
    exact perm.mem_iff
  have cases_ : ∀ c : Option Nat, c = none ∨ c = some id ∨ (c ≠ none ∧ c ≠ some id) := by
    intro c
    by_cases pool : c = none
    · exact .inl pool
    · by_cases domain : c = some id
      · exact .inr (.inl domain)
      · exact .inr (.inr ⟨pool, domain⟩)
  -- which of the three a slot is in stays the same
  have back : ∀ c i, i ∈ share home id first second c →
      i ∈ home none ∨ i ∈ home (some id) ∨ (c ≠ none ∧ c ≠ some id ∧ i ∈ home c) := by
    intro c i mem
    rcases cases_ c with rfl | rfl | ⟨pool, domain⟩
    · rw [share_none] at mem
      rcases (whole i).mp (.inl mem) with old | old
      · exact .inl old
      · exact .inr (.inl old)
    · rw [share_some] at mem
      rcases (whole i).mp (.inr mem) with old | old
      · exact .inl old
      · exact .inr (.inl old)
    · rw [share_other _ _ _ _ pool domain] at mem
      exact .inr (.inr ⟨pool, domain, mem⟩)
  refine ⟨?_, ?_, ?_, ?_, ?_⟩
  · intro c
    rcases cases_ c with rfl | rfl | ⟨pool, domain⟩
    · rw [share_none]
      exact linked
    · rw [share_some]
      exact linked'
    · rw [share_other _ _ _ _ pool domain]
      refine (h.linked c).congr (fun i mem => others i ?_ ?_)
      · exact fun there => pool (h.disjoint none c i there mem)
      · exact fun there => domain (h.disjoint (some id) c i there mem)
  · intro c
    rcases cases_ c with rfl | rfl | ⟨pool, domain⟩
    · rw [share_none]
      exact nodup1
    · rw [share_some]
      exact nodup2
    · rw [share_other _ _ _ _ pool domain]
      exact h.nodup c
  · intro c c' i mem mem'
    have clash : ∀ c, c ≠ none → c ≠ some id → i ∈ share home id first second c →
        ¬ (i ∈ home none ∨ i ∈ home (some id)) := by
      intro c pool domain here there
      rw [share_other _ _ _ _ pool domain] at here
      rcases there with old | old
      · exact pool (h.disjoint none c i old here)
      · exact domain (h.disjoint (some id) c i old here)
    rcases cases_ c with rfl | rfl | ⟨pool, domain⟩ <;>
      rcases cases_ c' with rfl | rfl | ⟨pool', domain'⟩
    · rfl
    · rw [share_none] at mem
      rw [share_some] at mem'
      exact absurd rfl (apart i mem i mem')
    · rw [share_none] at mem
      exact absurd ((whole i).mp (.inl mem)) (clash c' pool' domain' mem')
    · rw [share_some] at mem
      rw [share_none] at mem'
      exact absurd rfl (apart i mem' i mem)
    · rfl
    · rw [share_some] at mem
      exact absurd ((whole i).mp (.inr mem)) (clash c' pool' domain' mem')
    · rw [share_none] at mem'
      exact absurd ((whole i).mp (.inl mem')) (clash c pool domain mem)
    · rw [share_some] at mem'
      exact absurd ((whole i).mp (.inr mem')) (clash c pool domain mem)
    · rw [share_other _ _ _ _ pool domain] at mem
      rw [share_other _ _ _ _ pool' domain'] at mem'
      exact h.disjoint c c' i mem mem'
  · intro c i mem
    rcases back c i mem with old | old | ⟨-, -, old⟩
    · exact h.inside none i old
    · exact h.inside (some id) i old
    · exact h.inside c i old
  · intro i inside
    rw [kind, h.free i inside]
    constructor
    · rintro ⟨c, mem⟩
      rcases cases_ c with rfl | rfl | ⟨pool, domain⟩
      · rcases (whole i).mpr (.inl mem) with new | new
        · exact ⟨none, by rw [share_none]; exact new⟩
        · exact ⟨some id, by rw [share_some]; exact new⟩
      · rcases (whole i).mpr (.inr mem) with new | new
        · exact ⟨none, by rw [share_none]; exact new⟩
        · exact ⟨some id, by rw [share_some]; exact new⟩
      · exact ⟨c, by rw [share_other _ _ _ _ pool domain]; exact mem⟩
    · rintro ⟨c, mem⟩
      rcases back c i mem with old | old | ⟨-, -, old⟩
      · exact ⟨none, old⟩
      · exact ⟨some id, old⟩
      · exact ⟨c, old⟩

theorem split (h : Homes layout slots home) {after : List Nat}
    (chain : home none = before ++ tail :: after) (empty : home (some id) = []) :
    Homes layout (slots.link tail tail) (share home id after (before ++ [tail])) := by
  have linked := h.linked none
  have nodup := h.nodup none
  rw [chain] at linked nodup
  have mem : tail ∈ home none := by
    rw [chain]
    exact List.mem_append.mpr (.inr List.mem_cons_self)
  have fits' := fits layout (h.inside none tail mem)
  have next := link_next slots tail fits'
  rcases linked.split with ⟨rest, taken⟩
  rcases List.nodup_append.mp nodup with ⟨-, later, apart⟩
  refine h.rehome (link_kind slots tail tail) ?_ ?_ ?_ ?_
  · rw [chain, empty, List.append_nil]
    have swap : (after ++ (before ++ [tail])).Perm ((before ++ [tail]) ++ after) :=
      List.perm_append_comm
    rw [List.append_assoc] at swap
    exact swap
  · refine rest.congr (fun i there => ?_)
    rw [next, if_neg]
    rintro rfl
    exact (List.nodup_cons.mp later).1 there
  · refine taken _ ?_ (fun i there => ?_)
    · rw [next, if_pos rfl]
    · rw [next, if_neg]
      exact fun equal => apart i there tail List.mem_cons_self equal
  · intro i out _
    rw [next, if_neg]
    rintro rfl
    exact out mem

/-- A domain gives its slots back in front of the pool. -/
theorem join (h : Homes layout slots home) (chain : home (some id) = before ++ [tail])
    (first : next = (home none).headD tail) :
    Homes layout (slots.link tail next) (share home id (before ++ tail :: home none) []) := by
  have linked := h.linked (some id)
  have nodup := h.nodup (some id)
  rw [chain] at linked nodup
  have mem : tail ∈ home (some id) := by
    rw [chain]
    exact List.mem_append.mpr (.inr List.mem_cons_self)
  have inside : layout.Inside next := by
    rw [first]
    cases list : home none with
    | nil => exact h.inside (some id) tail mem
    | cons x rest => exact h.inside none x (list ▸ List.mem_cons_self)
  have step := link_next slots tail (fits layout inside)
  rcases List.nodup_append.mp nodup with ⟨-, -, apart⟩
  refine h.rehome (link_kind slots tail next) ?_ ?_ trivial ?_
  · rw [List.append_nil, chain]
    have swap : (home none ++ (before ++ [tail])).Perm ((before ++ [tail]) ++ home none) :=
      List.perm_append_comm
    rw [List.append_assoc] at swap
    exact swap.symm
  · refine linked.join ?_ ?_ ?_
    · refine (h.linked none).congr (fun i there => ?_)
      rw [step, if_neg]
      rintro rfl
      cases h.disjoint none (some id) i there mem
    · rw [step, if_pos rfl]
      exact first
    · intro i there
      rw [step, if_neg]
      exact fun equal => apart i there tail List.mem_cons_self equal
  · intro i _ out
    rw [step, if_neg]
    rintro rfl
    exact out mem

end Homes

/-! ## What is kept of a chain -/

section
variable {slots : Slots G} {index : Nat} {xs : List Nat}

theorem claim_cons (linked : Linked slots.next (index :: xs)) :
    (poolOf (index :: xs)).claim slots =
      some (⟨index, (slots index).generation⟩, poolOf xs,
        slots.modify index (·.setKind .reserved)) := by
  cases xs with
  | nil => rfl
  | cons y ys =>
    have step : slots.next index = y := linked.head_next
    unfold poolOf Pool.claim
    dsimp only
    rw [if_neg (by rw [List.length_cons]; omega), step]
    rfl

theorem tryClaim_cons (linked : Linked slots.next (index :: xs)) :
    (chainOf (index :: xs)).tryClaim slots =
      some (⟨index, (slots index).generation⟩, chainOf xs,
        slots.modify index (·.setKind .reserved)) := by
  cases xs with
  | nil => rfl
  | cons y ys =>
    have step : slots.next index = y := linked.head_next
    unfold chainOf Chain.tryClaim
    dsimp only
    rw [if_neg (by rw [List.length_cons]; omega), step]
    rfl

theorem prepend_eq {count : Nat} (room : xs.length + count ≤ maxCount) (before : List Nat)
    (length : before.length + 1 = count) :
    (poolOf xs).prepend index count = poolOf (index :: (before ++ xs)) := by
  cases xs with
  | nil =>
    rw [List.append_nil]
    show some (Available.mk index count) = some (Available.mk index (before.length + 1))
    rw [length]
  | cons y ys =>
    show some (Available.mk index (min (ys.length + 1 + count) maxCount)) =
      some (Available.mk index ((before ++ y :: ys).length + 1))
    rw [List.length_append]
    rw [List.length_cons] at room ⊢
    congr 2
    omega

theorem link_eq (tail : Nat) : (poolOf xs).link tail = xs.headD tail := by cases xs <;> rfl

theorem restore_key (slots : Slots G) (key : Key G) (room : xs.length + 1 ≤ maxCount) :
    (chainOf xs).restore slots key =
      (chainOf (key.index :: xs), slots.publish key (xs.headD key.index)) := by
  cases xs with
  | nil => rfl
  | cons y ys =>
    rw [List.length_cons] at room
    unfold chainOf Chain.restore
    dsimp only
    rw [Nat.min_eq_left room]
    rfl

theorem chainOf_append (before : List Nat) (tail : Nat) :
    chainOf (before ++ [tail]) =
      ⟨some ⟨(before ++ [tail]).headD tail, tail, before.length + 1⟩⟩ := by
  cases before with
  | nil => rfl
  | cons y ys =>
    show Chain.mk (some ⟨y, (y :: (ys ++ [tail])).getLast _, (ys ++ [tail]).length + 1⟩) = _
    have last : (y :: (ys ++ [tail])).getLast (List.cons_ne_nil _ _) = tail := by
      have whole : y :: (ys ++ [tail]) = (y :: ys) ++ [tail] := rfl
      simp only [whole, List.getLast_append_singleton]
    rw [last, List.length_append]
    rfl

theorem tryTake_append {after : List Nat} (linked : Linked slots.next (before ++ tail :: after)) :
    (poolOf (before ++ tail :: after)).tryTake slots (before.length + 1) =
      .ok (chainOf (before ++ [tail]), poolOf after, slots.link tail tail) := by
  have kept : poolOf (before ++ tail :: after) =
      some ⟨(before ++ [tail]).headD tail, before.length + (after.length + 1)⟩ := by
    cases before with
    | nil =>
      show some _ = some _
      rw [List.length_nil, Nat.zero_add]
      rfl
    | cons y ys =>
      show some (Available.mk y ((ys ++ tail :: after).length + 1)) =
        some (Available.mk y ((y :: ys).length + (after.length + 1)))
      rw [List.length_append, List.length_cons, List.length_cons]
      congr 2
      omega
  have reach := walk_eq linked
  unfold Pool.tryTake
  rw [kept, Option.filter_some, if_pos (by simp)]
  dsimp only
  rw [Nat.add_sub_cancel, reach, chainOf_append]
  have rest : before.length + (after.length + 1) - (before.length + 1) = after.length := by omega
  rw [rest]
  cases after with
  | nil => rfl
  | cons y ys =>
    have step : slots.next tail = y := by
      have second : Linked slots.next (tail :: y :: ys) := by
        clear kept reach rest
        induction before with
        | nil => exact linked
        | cons z zs ih => exact ih linked.tail
      exact second.head_next
    rw [if_neg (by rw [List.length_cons]; omega), step]
    rfl

theorem tryTake_error {count : Nat} (few : xs.length < count) :
    ∃ available, (poolOf xs).tryTake slots count = .error available := by
  refine ⟨(poolOf xs).available, ?_⟩
  unfold Pool.tryTake
  cases xs with
  | nil => rfl
  | cons y ys =>
    rw [List.length_cons] at few
    have none : (poolOf (y :: ys)).filter (fun state => decide (count ≤ state.count)) = none := by
      show Option.filter _ (some (⟨y, ys.length + 1⟩ : Available)) = none
      rw [Option.filter_some, if_neg]
      simpa using few
    rw [none]

theorem restore_nil (slots : Slots G) : (poolOf xs).restore slots (chainOf []) = (poolOf xs, slots) :=
  rfl

theorem restore_append (slots : Slots G) (room : xs.length + (before.length + 1) ≤ maxCount) :
    (poolOf xs).restore slots (chainOf (before ++ [tail])) =
      (poolOf (before ++ tail :: xs), slots.link tail (xs.headD tail)) := by
  rw [chainOf_append]
  unfold Pool.restore
  dsimp only
  rw [link_eq]
  have joined : (poolOf xs).prepend ((before ++ [tail]).headD tail) (before.length + 1) =
      poolOf (before ++ tail :: xs) := by
    cases before with
    | nil => exact prepend_eq room [] rfl
    | cons y ys =>
      have whole := @prepend_eq y xs _ room (ys ++ [tail]) (by simp)
      rw [List.append_assoc] at whole
      exact whole
  rw [joined]

end

end Dope.Core.Ready.Arena
