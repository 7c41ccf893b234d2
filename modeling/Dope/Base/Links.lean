import Mathlib.Data.List.Nodup
import Mathlib.Logic.Function.Basic

/-! # Lists threaded through cells

A list without duplicates can be kept as links from each of its elements. A
doubly linked list stores the neighbours of every element. A counted chain
stores a successor, and its last element is its own.
-/

namespace Dope.Links

variable {α : Type} [DecidableEq α]

/-! ## Neighbours -/

/-- The element after `x`. -/
def after (x : α) : List α → Option α
  | [] => none
  | y :: ys => if y = x then ys.head? else after x ys

/-- The element before `x`. -/
def before (x : α) : List α → Option α
  | [] => none
  | y :: ys => if ys.head? = some x then some y else before x ys

variable {xs : List α} {x y : α}

theorem after_mem (h : after x xs = some y) : y ∈ xs := by
  induction xs with
  | nil => cases h
  | cons z zs ih =>
    unfold after at h
    split at h
    · exact List.mem_cons_of_mem _ (List.mem_of_mem_head? h)
    · exact List.mem_cons_of_mem _ (ih h)

theorem before_mem (h : before x xs = some y) : y ∈ xs := by
  induction xs with
  | nil => cases h
  | cons z zs ih =>
    unfold before at h
    split at h
    · cases h
      exact List.mem_cons_self
    · exact List.mem_cons_of_mem _ (ih h)

theorem before_of_not_mem (h : x ∉ xs) : before x xs = none := by
  induction xs with
  | nil => rfl
  | cons y ys ih =>
    have apart : ys.head? ≠ some x := fun first =>
      h (List.mem_cons_of_mem _ (List.mem_of_mem_head? first))
    unfold before
    rw [if_neg apart]
    exact ih (fun mem => h (List.mem_cons_of_mem _ mem))

theorem before_head (nodup : (x :: xs).Nodup) : before x (x :: xs) = none := by
  have out := (List.nodup_cons.mp nodup).1
  have apart : xs.head? ≠ some x := fun first => out (List.mem_of_mem_head? first)
  unfold before
  rw [if_neg apart]
  exact before_of_not_mem out

/-- Whatever follows `x` has `x` before it. -/
theorem before_iff_after (nodup : xs.Nodup) : before y xs = some x ↔ after x xs = some y := by
  induction xs with
  | nil => exact iff_of_false (nomatch ·) (nomatch ·)
  | cons z zs ih =>
    rcases List.nodup_cons.mp nodup with ⟨out, rest⟩
    unfold before after
    by_cases first : zs.head? = some y
    · rw [if_pos first]
      by_cases same : z = x
      · rw [if_pos same, same, first]
        exact iff_of_true rfl rfl
      · rw [if_neg same]
        refine iff_of_false (fun equal => same (Option.some.inj equal)) ?_
        intro later
        -- the head of the rest has nothing before it there
        have none : before y zs = none := by
          cases zs with
          | nil => rfl
          | cons w ws =>
            cases first
            exact before_head rest
        rw [(ih rest).mpr later] at none
        cases none
    · rw [if_neg first]
      by_cases same : z = x
      · rw [if_pos same]
        refine iff_of_false ?_ first
        intro found
        exact out (same ▸ before_mem found)
      · rw [if_neg same]
        exact ih rest

theorem after_ne (nodup : xs.Nodup) (h : after x xs = some y) : y ≠ x := by
  induction xs with
  | nil => cases h
  | cons z zs ih =>
    rcases List.nodup_cons.mp nodup with ⟨out, rest⟩
    unfold after at h
    split at h
    · rename_i same
      rintro rfl
      exact out (same ▸ List.mem_of_mem_head? h)
    · exact ih rest h

/-- The element after `x` has the next position. -/
theorem idxOf_after (nodup : xs.Nodup) (h : after x xs = some y) : xs.idxOf y = xs.idxOf x + 1 := by
  induction xs with
  | nil => cases h
  | cons z zs ih =>
    rcases List.nodup_cons.mp nodup with ⟨out, rest⟩
    unfold after at h
    split at h
    · rename_i same
      subst same
      have mem := List.mem_of_mem_head? h
      have apart : z ≠ y := fun equal => out (equal ▸ mem)
      have first : zs.idxOf y = 0 := by
        cases zs with
        | nil => cases h
        | cons w ws =>
          cases h
          exact List.idxOf_cons_self
      rw [List.idxOf_cons_self, List.idxOf_cons_ne zs apart, first]
    · rename_i other
      have apart : z ≠ y := fun equal => out (equal ▸ after_mem h)
      rw [List.idxOf_cons_ne zs other, List.idxOf_cons_ne zs apart, ih rest h]

/-- No element stands both before and after another. -/
theorem before_ne_after {z : α} (nodup : xs.Nodup) (prev : before x xs = some y)
    (next : after x xs = some z) : y ≠ z := by
  rintro rfl
  have first := idxOf_after nodup next
  have second := idxOf_after nodup ((before_iff_after nodup).mp prev)
  omega

theorem before_ne (nodup : xs.Nodup) (h : before x xs = some y) :
    y ≠ x := fun same => after_ne nodup ((before_iff_after nodup).mp h) same.symm

theorem before_eq_none (nodup : xs.Nodup) (mem : x ∈ xs) :
    before x xs = none ↔ xs.head? = some x := by
  cases xs with
  | nil => cases mem
  | cons y ys =>
    rcases List.nodup_cons.mp nodup with ⟨out, rest⟩
    by_cases same : y = x
    · subst same
      exact iff_of_true (before_head nodup) rfl
    · refine iff_of_false ?_ (fun equal => same (Option.some.inj equal))
      rcases List.mem_cons.mp mem with equal | later
      · exact absurd equal.symm same
      · clear mem out nodup
        induction ys generalizing y with
        | nil => cases later
        | cons z zs ih =>
          unfold before
          by_cases first : (z :: zs).head? = some x
          · rw [if_pos first]
            exact (nomatch ·)
          · rw [if_neg first]
            have other : z ≠ x := fun equal => first (congrArg some equal)
            rcases List.mem_cons.mp later with equal | later'
            · exact absurd equal.symm other
            · exact ih z (List.nodup_cons.mp rest).2 other later'

/-! ## Appending -/

section
variable {x y : α} {xs : List α}

theorem after_append (nodup : xs.Nodup) (mem : x ∈ xs) :
    after x (xs ++ [y]) = if xs.getLast? = some x then some y else after x xs := by
  induction xs with
  | nil => cases mem
  | cons z zs ih =>
    rcases List.nodup_cons.mp nodup with ⟨out, rest⟩
    show (if z = x then (zs ++ [y]).head? else after x (zs ++ [y])) =
      if (z :: zs).getLast? = some x then some y else if z = x then zs.head? else after x zs
    by_cases same : z = x
    · rw [if_pos same, if_pos same]
      cases zs with
      | nil => simp [same]
      | cons w ws =>
        have later : (z :: w :: ws).getLast? ≠ some x := by
          rw [List.getLast?_cons_cons]
          intro last
          exact out (same ▸ List.mem_of_getLast? last)
        rw [if_neg later]
        rfl
    · rw [if_neg same, if_neg same]
      rcases List.mem_cons.mp mem with equal | later
      · exact absurd equal.symm same
      · rw [ih rest later]
        cases zs with
        | nil => cases later
        | cons w ws => rw [List.getLast?_cons_cons]

theorem after_last (out : y ∉ xs) : after y (xs ++ [y]) = none := by
  induction xs with
  | nil => simp [after]
  | cons z zs ih =>
    have apart : z ≠ y := fun same => out (same ▸ List.mem_cons_self)
    show (if z = y then _ else after y (zs ++ [y])) = none
    rw [if_neg apart]
    exact ih (fun mem => out (List.mem_cons_of_mem _ mem))

theorem before_append (apart : x ≠ y) : before x (xs ++ [y]) = before x xs := by
  induction xs with
  | nil =>
    show (if ([] : List α).head? = some x then some y else none) = none
    simp
  | cons z zs ih =>
    show (if (zs ++ [y]).head? = some x then some z else before x (zs ++ [y])) =
      if zs.head? = some x then some z else before x zs
    rw [ih]
    cases zs with
    | nil =>
      have other : ([] ++ [y]).head? ≠ some x := fun same => apart (Option.some.inj same).symm
      rw [if_neg other, if_neg (nomatch ·)]
    | cons w ws => rfl

theorem before_last (out : y ∉ xs) : before y (xs ++ [y]) = xs.getLast? := by
  induction xs with
  | nil => simp [before]
  | cons z zs ih =>
    have out' : y ∉ zs := fun mem => out (List.mem_cons_of_mem _ mem)
    show (if (zs ++ [y]).head? = some y then some z else before y (zs ++ [y])) = _
    cases zs with
    | nil => simp
    | cons w ws =>
      have other : (w :: ws ++ [y]).head? ≠ some y := by
        intro same
        exact out' (Option.some.inj same ▸ List.mem_cons_self)
      rw [if_neg other, ih out', List.getLast?_cons_cons]

end

/-! ## Erasing -/

section
variable {x y : α} {xs : List α}

theorem head?_erase (nodup : xs.Nodup) (mem : y ∈ xs) :
    (xs.erase y).head? = if before y xs = none then after y xs else xs.head? := by
  cases xs with
  | nil => cases mem
  | cons z zs =>
    by_cases same : z = y
    · subst same
      rw [if_pos (before_head nodup), List.erase_cons_head]
      show zs.head? = if z = z then zs.head? else _
      rw [if_pos rfl]
    · have some : before y (z :: zs) ≠ none := by
        rw [Ne, before_eq_none nodup mem]
        exact fun equal => same (Option.some.inj equal)
      rw [if_neg some, List.erase_cons_tail (by simpa using same)]
      rfl

/-- The element after the end of a first part heads the rest. -/
theorem after_append_cons {ys : List α} (nodup : (xs ++ x :: ys).Nodup) :
    after x (xs ++ x :: ys) = ys.head? := by
  induction xs with
  | nil => exact if_pos rfl
  | cons z zs ih =>
    rw [List.cons_append, List.nodup_cons] at nodup
    have apart : z ≠ x := fun same => nodup.1 (by simp [same])
    show (if z = x then _ else after x (zs ++ x :: ys)) = _
    rw [if_neg apart, ih nodup.2]

theorem after_erase (nodup : xs.Nodup) (mem : y ∈ xs) (apart : x ≠ y) :
    after x (xs.erase y) = if before y xs = some x then after y xs else after x xs := by
  induction xs with
  | nil => cases mem
  | cons z zs ih =>
    rcases List.nodup_cons.mp nodup with ⟨out, rest⟩
    by_cases same : z = y
    · subst same
      have none : before z (z :: zs) ≠ some x := by
        rw [before_head nodup]
        exact (nomatch ·)
      rw [if_neg none, List.erase_cons_head]
      show after x zs = if z = x then _ else after x zs
      rw [if_neg apart.symm]
    · rw [List.erase_cons_tail (by simpa using same)]
      have later : y ∈ zs := by
        rcases List.mem_cons.mp mem with equal | later
        · exact absurd equal.symm same
        · exact later
      show (if z = x then (zs.erase y).head? else after x (zs.erase y)) =
        if (if zs.head? = some y then some z else before y zs) = some x then
          (if z = y then zs.head? else after y zs) else if z = x then zs.head? else after x zs
      rw [if_neg same, head?_erase rest later, ih rest later]
      have first := before_eq_none rest later
      by_cases here : z = x
      · rw [if_pos here, if_pos here]
        by_cases head : zs.head? = some y
        · rw [if_pos head, if_pos (first.mpr head), if_pos (congrArg some here)]
        · rw [if_neg head, if_neg (fun none => head (first.mp none))]
          have other : before y zs ≠ some x := fun found => out (here ▸ before_mem found)
          rw [if_neg other]
      · rw [if_neg here, if_neg here]
        by_cases head : zs.head? = some y
        · rw [if_pos head, if_neg (fun equal => here (Option.some.inj equal)),
            first.mpr head, if_neg (nomatch ·)]
        · rw [if_neg head]

theorem after_of_not_mem (out : x ∉ xs) : after x xs = none := by
  induction xs with
  | nil => rfl
  | cons z zs ih =>
    have apart : z ≠ x := fun same => out (same ▸ List.mem_cons_self)
    show (if z = x then _ else after x zs) = none
    rw [if_neg apart]
    exact ih (fun mem => out (List.mem_cons_of_mem _ mem))

theorem before_erase (nodup : xs.Nodup) (mem : y ∈ xs) (apart : x ≠ y) :
    before x (xs.erase y) = if after y xs = some x then before y xs else before x xs := by
  -- an element is before `x` when `x` is after it
  apply Option.ext
  intro p
  rw [before_iff_after (nodup.erase y)]
  by_cases same : p = y
  · subst same
    have gone : p ∉ xs.erase p := fun mem' => (nodup.mem_erase_iff.mp mem').1 rfl
    rw [after_of_not_mem gone]
    refine iff_of_false (nomatch ·) ?_
    by_cases next : after p xs = some x
    · rw [if_pos next]
      exact fun found => before_ne nodup found rfl
    · rw [if_neg next, before_iff_after nodup]
      exact next
  · rw [after_erase nodup mem same]
    by_cases prev : before y xs = some p
    · rw [if_pos prev]
      by_cases next : after y xs = some x
      · rw [if_pos next]
        exact iff_of_true next prev
      · rw [if_neg next, before_iff_after nodup, (before_iff_after nodup).mp prev]
        exact iff_of_false next (fun equal => apart (Option.some.inj equal).symm)
    · rw [if_neg prev, ← before_iff_after nodup]
      by_cases next : after y xs = some x
      · rw [if_pos next, (before_iff_after nodup).mpr next]
        exact iff_of_false (fun equal => same (Option.some.inj equal).symm) prev
      · rw [if_neg next]

theorem after_eq_none (nodup : xs.Nodup) (mem : x ∈ xs) :
    after x xs = none ↔ xs.getLast? = some x := by
  induction xs with
  | nil => cases mem
  | cons z zs ih =>
    rcases List.nodup_cons.mp nodup with ⟨out, rest⟩
    show (if z = x then zs.head? else after x zs) = none ↔ _
    cases zs with
    | nil =>
      have same : x = z := by simpa using mem
      simp [same]
    | cons w ws =>
      rw [List.getLast?_cons_cons]
      by_cases same : z = x
      · rw [if_pos same]
        refine iff_of_false (nomatch ·) ?_
        intro last
        exact out (same ▸ List.mem_of_getLast? last)
      · rw [if_neg same]
        rcases List.mem_cons.mp mem with equal | later
        · exact absurd equal.symm same
        · exact ih rest later

theorem getLast?_erase (nodup : xs.Nodup) (mem : y ∈ xs) :
    (xs.erase y).getLast? = if after y xs = none then before y xs else xs.getLast? := by
  have last : ∀ z, xs.getLast? = some z ↔ z ∈ xs ∧ after z xs = none := by
    intro z
    constructor
    · intro found
      have here := List.mem_of_getLast? found
      exact ⟨here, (after_eq_none nodup here).mpr found⟩
    · rintro ⟨here, none⟩
      exact (after_eq_none nodup here).mp none
  apply Option.ext
  intro z
  have kept : (xs.erase y).getLast? = some z ↔ z ∈ xs.erase y ∧ after z (xs.erase y) = none := by
    constructor
    · intro found
      have here := List.mem_of_getLast? found
      exact ⟨here, (after_eq_none (nodup.erase y) here).mpr found⟩
    · rintro ⟨here, none⟩
      exact (after_eq_none (nodup.erase y) here).mp none
  rw [kept, nodup.mem_erase_iff]
  by_cases end_ : after y xs = none
  · rw [if_pos end_]
    constructor
    · rintro ⟨⟨apart, here⟩, stop⟩
      rw [after_erase nodup mem apart] at stop
      by_cases prev : before y xs = some z
      · exact prev
      · rw [if_neg prev] at stop
        -- two last elements are one
        have one := (last z).mpr ⟨here, stop⟩
        rw [(last y).mpr ⟨mem, end_⟩] at one
        exact absurd (Option.some.inj one).symm apart
    · intro prev
      have apart := before_ne nodup prev
      refine ⟨⟨apart, before_mem prev⟩, ?_⟩
      rw [after_erase nodup mem apart, if_pos prev]
      exact end_
  · rw [if_neg end_, last]
    constructor
    · rintro ⟨⟨apart, here⟩, stop⟩
      rw [after_erase nodup mem apart] at stop
      by_cases prev : before y xs = some z
      · rw [if_pos prev] at stop
        exact absurd stop end_
      · rw [if_neg prev] at stop
        exact ⟨here, stop⟩
    · rintro ⟨here, stop⟩
      have apart : z ≠ y := fun same => end_ (same ▸ stop)
      refine ⟨⟨apart, here⟩, ?_⟩
      rw [after_erase nodup mem apart]
      by_cases prev : before y xs = some z
      · rw [(before_iff_after nodup).mp prev] at stop
        cases stop
      · rw [if_neg prev]
        exact stop

end

/-! ## Counted chains -/

/-- Every element names the next one, and the last one itself. -/
def Linked (next : α → α) : List α → Prop
  | [] => True
  | [x] => next x = x
  | x :: y :: rest => next x = y ∧ Linked next (y :: rest)

/-- `n` steps along the chain. -/
def walk (next : α → α) (x : α) : Nat → α
  | 0 => x
  | n + 1 => walk next (next x) n

section
omit [DecidableEq α]
variable {next next' : α → α} {x : α} {xs ys : List α}

theorem Linked.tail (h : Linked next (x :: xs)) : Linked next xs := by
  cases xs with
  | nil => exact trivial
  | cons y ys => exact h.2

theorem Linked.congr (h : Linked next xs) (same : ∀ x ∈ xs, next' x = next x) :
    Linked next' xs := by
  induction xs with
  | nil => exact trivial
  | cons x xs ih =>
    cases xs with
    | nil => exact (same x List.mem_cons_self).trans h
    | cons y ys =>
      have rest := ih h.2 (fun z mem => same z (List.mem_cons_of_mem _ mem))
      exact ⟨(same x List.mem_cons_self).trans h.1, rest⟩

theorem Linked.head_next (h : Linked next (x :: y :: ys)) : next x = y := h.1

/-- A new first element names the old one. -/
theorem Linked.cons (h : Linked next xs) (first : next x = xs.headD x) : Linked next (x :: xs) := by
  cases xs with
  | nil => exact first
  | cons y ys => exact ⟨first, h⟩

/-- A chain splits after an element that then names itself. -/
theorem Linked.split (h : Linked next (xs ++ x :: ys)) :
    Linked next ys ∧ ∀ next' : α → α, next' x = x → (∀ z ∈ xs, next' z = next z) →
      Linked next' (xs ++ [x]) := by
  induction xs with
  | nil => exact ⟨h.tail, fun next' self _ => self⟩
  | cons y xs ih =>
    rcases ih h.tail with ⟨rest, split⟩
    refine ⟨rest, ?_⟩
    intro next' self same
    have later := split next' self (fun z mem => same z (List.mem_cons_of_mem _ mem))
    refine later.cons ?_
    rw [same y List.mem_cons_self]
    cases xs with
    | nil | cons => exact h.1

/-- Two chains join when the last element of the first names the second. -/
theorem Linked.join (h : Linked next (xs ++ [x])) (h' : Linked next' ys)
    (first : next' x = ys.headD x) (same : ∀ z ∈ xs, next' z = next z) :
    Linked next' (xs ++ x :: ys) := by
  induction xs with
  | nil => exact h'.cons first
  | cons y xs ih =>
    have later := ih h.tail (fun z mem => same z (List.mem_cons_of_mem _ mem))
    refine later.cons ?_
    rw [same y List.mem_cons_self]
    cases xs with
    | nil | cons => exact h.1

theorem walk_eq (h : Linked next (xs ++ x :: ys)) : walk next ((xs ++ [x]).headD x) xs.length = x := by
  induction xs with
  | nil => rfl
  | cons y xs ih =>
    have step : next y = (xs ++ [x]).headD x := by
      cases xs with
      | nil | cons => exact h.1
    show walk next (next y) xs.length = x
    rw [step]
    exact ih h.tail

end

/-! ## Stacks -/

/-- Every element links to the next one, and the head is the first. -/
def Stacked (link : α → Option (Option α)) (head : Option α) : List α → Prop
  | [] => head = none
  | x :: xs => head = some x ∧ ∃ next, link x = some next ∧ Stacked link next xs

section
omit [DecidableEq α]
variable {link link' : α → Option (Option α)} {head : Option α} {xs : List α}

theorem Stacked.congr (h : Stacked link head xs) (same : ∀ x ∈ xs, link' x = link x) :
    Stacked link' head xs := by
  induction xs generalizing head with
  | nil => exact h
  | cons x xs ih =>
    rcases h with ⟨first, next, here, rest⟩
    refine ⟨first, next, (same x List.mem_cons_self).trans here, ?_⟩
    exact ih rest (fun y mem => same y (List.mem_cons_of_mem _ mem))

theorem Stacked.push {x : α} (h : Stacked link head xs) (out : x ∉ xs) (here : link' x = some head)
    (same : ∀ y, y ≠ x → link' y = link y) : Stacked link' (some x) (x :: xs) := by
  refine ⟨rfl, head, here, h.congr ?_⟩
  intro y mem
  exact same y (fun equal => out (equal ▸ mem))

theorem Stacked.head_none (h : Stacked link none xs) : xs = [] := by
  cases xs with
  | nil => rfl
  | cons x xs =>
    rcases h with ⟨no, -⟩
    cases no

theorem Stacked.head_some (h : Stacked link (some x) xs) :
    ∃ next rest, xs = x :: rest ∧ link x = some next ∧ Stacked link next rest := by
  cases xs with
  | nil => cases h
  | cons y ys =>
    rcases h with ⟨same, next, here, rest⟩
    cases same
    exact ⟨next, ys, rfl, here, rest⟩

end

end Dope.Links
