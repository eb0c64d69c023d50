import Mathlib.Data.List.Basic

/-!
# Machines that answer each input

A transducer has an answer for each input and goes to the next state. An input is silent in a state
that it leaves as it is. Silent inputs can be dropped from a list of inputs: the others are answered
as before, and the last state is the same (`run_marked`).
-/

namespace FlowManager.Lib

/-- A machine that answers each input. -/
structure Transducer (ι σ ο : Type) where
  step : ι → σ → ο × σ

/-- The elements that are marked. -/
def marked {α : Type} (zs : List (α × Bool)) : List α := (zs.filter Prod.snd).map Prod.fst

section marked

variable {α : Type} (a : α) (zs : List (α × Bool))

/-- Nothing is marked in an empty list. -/
@[simp] theorem marked_nil : marked ([] : List (α × Bool)) = [] := rfl

/-- A marked input is kept. -/
@[simp] theorem marked_cons_true : marked ((a, true) :: zs) = a :: marked zs := rfl

/-- An input that is not marked is dropped. -/
@[simp] theorem marked_cons_false : marked ((a, false) :: zs) = marked zs := rfl

/-- What is kept was an input. -/
theorem mem_of_mem_marked {zs : List (α × Bool)} {a : α} (h : a ∈ marked zs) :
    a ∈ zs.map Prod.fst :=
  (List.filter_sublist.map Prod.fst).subset h

end marked

namespace Transducer

variable {ι σ ο : Type} (M : Transducer ι σ ο)

/-- The answers to a list of inputs, and the state after them. -/
def run : List ι → σ → List ο × σ
  | [], s => ([], s)
  | i :: is, s =>
      ((M.step i s).1 :: (run is (M.step i s).2).1, (run is (M.step i s).2).2)

/-- A run on no input. -/
@[simp] theorem run_nil (s : σ) : M.run [] s = ([], s) := rfl

/-- A run: the first step, and then the others. -/
@[simp] theorem run_cons (i : ι) (is : List ι) (s : σ) : M.run (i :: is) s =
    ((M.step i s).1 :: (M.run is (M.step i s).2).1, (M.run is (M.step i s).2).2) := rfl

/-- A run on one list of inputs after another. -/
theorem run_append (is js : List ι) (s : σ) : M.run (is ++ js) s =
    ((M.run is s).1 ++ (M.run js (M.run is s).2).1, (M.run js (M.run is s).2).2) := by
  induction is generalizing s with
  | nil => rfl
  | cons i is ih =>
      rw [List.cons_append, run_cons, ih, run_cons]
      rfl

variable {M}

/-- **Silent inputs can be dropped.** `quiet` recognises from an input and its answer that the state
has stayed the same; inputs that are not marked are quiet. -/
theorem run_marked {quiet : ι → ο → Prop}
    (hquiet : ∀ i s, quiet i (M.step i s).1 → (M.step i s).2 = s) (zs : List (ι × Bool)) (s : σ)
    (h : ∀ x ∈ zs.zip (M.run (zs.map Prod.fst) s).1, x.1.2 = false → quiet x.1.1 x.2) :
    M.run (marked zs) s =
      (marked ((M.run (zs.map Prod.fst) s).1.zip (zs.map Prod.snd)),
        (M.run (zs.map Prod.fst) s).2) := by
  induction zs generalizing s with
  | nil => rfl
  | cons z zs ih =>
      obtain ⟨i, keep⟩ := z
      have hrest := ih (M.step i s).2 fun x hx => h x (List.mem_cons_of_mem _ hx)
      cases keep with
      | true =>
          rw [marked_cons_true, run_cons, hrest]
          rfl
      | false =>
          have hstay := hquiet i s (h _ List.mem_cons_self rfl)
          rw [hstay] at hrest
          rw [marked_cons_false, hrest, List.map_cons, run_cons, hstay]
          rfl

end Transducer

end FlowManager.Lib
