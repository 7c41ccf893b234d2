import Mathlib.Logic.Function.Basic

/-! # Feistel networks

A round passes one half on and mixes a function of it into the other. Whatever
the functions are, a network loses nothing as long as mixing can be undone.
-/

namespace Dope.Feistel

universe u

variable {α : Type u} {mix : α → α → α}

def round (mix : α → α → α) (scramble : α → α) (halves : α × α) : α × α :=
  (halves.2, mix halves.1 (scramble halves.2))

def network (mix : α → α → α) : List (α → α) → α × α → α × α
  | [], halves => halves
  | scramble :: rest, halves => network mix rest (round mix scramble halves)

theorem round_injective (cancels : ∀ b, Function.Injective fun a => mix a b)
    (scramble : α → α) : Function.Injective (round mix scramble) := by
  rintro ⟨left, right⟩ ⟨left', right'⟩ same
  simp only [round, Prod.mk.injEq] at same
  obtain ⟨rfl, mixed⟩ := same
  rw [cancels _ mixed]

theorem network_injective (cancels : ∀ b, Function.Injective fun a => mix a b) :
    ∀ rounds : List (α → α), Function.Injective (network mix rounds) := by
  intro rounds
  induction rounds with
  | nil => exact fun _ _ same => same
  | cons scramble rest ih => exact ih.comp (round_injective cancels scramble)

/-! ## Undoing a network -/

/-- Mix the same function of the half passed on into the other half again. -/
def unround (mix : α → α → α) (scramble : α → α) (halves : α × α) : α × α :=
  (mix halves.2 (scramble halves.1), halves.1)

/-- The rounds undone, the last one first. -/
def unnetwork (mix : α → α → α) : List (α → α) → α × α → α × α
  | [], halves => halves
  | scramble :: rest, halves => unround mix scramble (unnetwork mix rest halves)

section Undo

variable (undoes : ∀ a b, mix (mix a b) b = a)
include undoes

theorem unround_round (scramble : α → α) (halves : α × α) :
    unround mix scramble (round mix scramble halves) = halves := by
  simp only [unround, round, undoes]

theorem round_unround (scramble : α → α) (halves : α × α) :
    round mix scramble (unround mix scramble halves) = halves := by
  simp only [unround, round, undoes]

theorem unnetwork_network (rounds : List (α → α)) (halves : α × α) :
    unnetwork mix rounds (network mix rounds halves) = halves := by
  induction rounds generalizing halves with
  | nil => rfl
  | cons scramble rest ih =>
    rw [network, unnetwork, ih]
    exact unround_round undoes scramble halves

theorem network_unnetwork (rounds : List (α → α)) (halves : α × α) :
    network mix rounds (unnetwork mix rounds halves) = halves := by
  induction rounds with
  | nil => rfl
  | cons scramble rest ih =>
    rw [network, unnetwork, round_unround undoes]
    exact ih

end Undo

end Dope.Feistel
