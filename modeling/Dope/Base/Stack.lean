import Mathlib.Data.List.Nodup
import Mathlib.Logic.Function.Basic

/-! # Lists threaded through one link

Every element of the list keeps a link to the next one, and whoever owns the
list keeps its top. A stack is pushed and popped at the top; a queue is also
extended at its end, where its owner keeps the last element.
-/

namespace Dope.Stack

open Function

variable {α : Type}

/-- The links lead from `top` through `xs` and end. -/
def Threads (link : α → Option α) : Option α → List α → Prop
  | top, [] => top = none
  | top, x :: xs => top = some x ∧ Threads link (link x) xs

variable {link link' : α → Option α} {top : Option α} {x : α} {xs ys : List α}

theorem Threads.nil (link : α → Option α) : Threads link none [] := rfl

theorem Threads.eq_nil (h : Threads link none xs) : xs = [] := by
  cases xs with
  | nil => rfl
  | cons x xs => cases h.1

theorem Threads.pop (h : Threads link (some x) xs) :
    ∃ rest, xs = x :: rest ∧ Threads link (link x) rest := by
  cases xs with
  | nil => cases h
  | cons y rest =>
    rcases h with ⟨same, rest'⟩
    cases same
    exact ⟨rest, rfl, rest'⟩

/-- The links of other elements may change. -/
theorem Threads.frame (h : Threads link top xs) (same : ∀ y ∈ xs, link' y = link y) :
    Threads link' top xs := by
  induction xs generalizing top with
  | nil => exact h
  | cons x xs ih =>
    rcases h with ⟨rfl, rest⟩
    refine ⟨rfl, ?_⟩
    rw [same x List.mem_cons_self]
    exact ih rest fun y member => same y (List.mem_cons_of_mem x member)

section
variable [DecidableEq α]

theorem Threads.update (h : Threads link top xs) (out : x ∉ xs) (value : Option α) :
    Threads (update link x value) top xs := by
  apply h.frame
  intro y member
  rw [update_of_ne]
  rintro rfl
  exact out member

theorem Threads.push (h : Threads link top xs) (out : x ∉ xs) :
    Threads (Function.update link x top) (some x) (x :: xs) := by
  refine ⟨rfl, ?_⟩
  rw [update_self]
  exact h.update out top

/-- Two lists are joined by the link of the last element of the first. -/
theorem Threads.splice {last : α} {next : Option α} (h : Threads link top xs)
    (nodup : xs.Nodup) (end_ : xs.getLast? = some last) (apart : ∀ y ∈ ys, y ∉ xs)
    (h' : Threads link next ys) : Threads (Function.update link last next) top (xs ++ ys) := by
  induction xs generalizing top with
  | nil => cases end_
  | cons x xs ih =>
    rcases h with ⟨rfl, rest⟩
    rcases List.nodup_cons.mp nodup with ⟨out, nodup⟩
    refine ⟨rfl, ?_⟩
    cases xs with
    | nil =>
      have same : x = last := by simpa using end_
      subst same
      rw [update_self]
      exact h'.update (fun member => apart x member List.mem_cons_self) next
    | cons y zs =>
      have end' : (y :: zs).getLast? = some last := by
        rw [← end_, List.getLast?_cons_cons]
      have differ : x ≠ last := by
        rintro rfl
        exact out (List.mem_of_getLast? end')
      rw [update_of_ne differ]
      exact ih rest nodup end' fun z member inside =>
        apart z member (List.mem_cons_of_mem x inside)

end

end Dope.Stack
