import Mathlib.Data.Nat.Init
import Mathlib.Logic.Function.Iterate
import Mathlib.Logic.Relation
import Mathlib.Order.Monotone.Basic
import Mathlib.Order.WellFounded

/-!
# Runs that get there

Rules for what an endless run reaches. A rank in a well-founded order that becomes smaller again and
again until something holds makes it hold (`exists_of_rank`). In a fair run it is enough that what
fairness changes makes the rank smaller (`exists_of_fair`): `key` is the part of the state that
the scheduler must not leave as it is for ever, and no step makes the rank bigger.

An endless run is put together from finite ones by `exists_run_of_segments`: it passes through the
milestones one after the other.
-/

namespace FlowManager.Lib

variable {ρ κ : Type} [Preorder ρ]

/-- **The rank rule.** -/
theorem exists_of_rank [WellFoundedLT ρ] (goal : ℕ → Prop) (rank : ℕ → ρ)
    (h : ∀ n, ∃ m, n ≤ m ∧ (goal m ∨ rank m < rank n)) (n : ℕ) :
    ∃ m, n ≤ m ∧ goal m := by
  induction hr : rank n using WellFoundedLT.induction generalizing n with
  | ind r ih =>
      obtain ⟨m, hnm, hgoal | hlt⟩ := h n
      · exact ⟨m, hnm, hgoal⟩
      · obtain ⟨m', hmm', hgoal⟩ := ih (rank m) (hr ▸ hlt) m rfl
        exact ⟨m', hnm.trans hmm', hgoal⟩

/-- Until the goal, the steps of a run keep the key or make the rank smaller. -/
theorem key_or_rank {goal : ℕ → Prop} {rank : ℕ → ρ} {key : ℕ → κ}
    (hstep : ∀ n, goal n ∨
      (rank (n + 1) ≤ rank n ∧ (key (n + 1) = key n ∨ rank (n + 1) < rank n)))
    {n m : ℕ} (hnm : n ≤ m) : (∃ k, n ≤ k ∧ goal k) ∨
      (rank m ≤ rank n ∧ (key m = key n ∨ rank m < rank n)) := by
  induction m, hnm using Nat.le_induction with
  | base => exact Or.inr ⟨le_rfl, Or.inl rfl⟩
  | succ m hnm ih =>
      rcases ih with hgoal | ⟨hle, hkey⟩
      · exact Or.inl hgoal
      · rcases hstep m with hgoal | ⟨hle', hkey'⟩
        · exact Or.inl ⟨m, hnm, hgoal⟩
        · refine Or.inr ⟨hle'.trans hle, ?_⟩
          rcases hkey' with hkey' | hlt
          · rw [hkey']
            exact hkey.imp_right fun hlt => hle'.trans_lt hlt
          · exact Or.inr (hlt.trans_le hle)

/-- **The rule for fair runs.** Until the goal, every step keeps the key or makes the rank smaller,
and the key does not stay as it is. -/
theorem exists_of_fair [WellFoundedLT ρ] (goal : ℕ → Prop) (rank : ℕ → ρ) (key : ℕ → κ)
    (hstep : ∀ n, goal n ∨
      (rank (n + 1) ≤ rank n ∧ (key (n + 1) = key n ∨ rank (n + 1) < rank n)))
    (hfair : ∀ n, ¬goal n → ∃ m, n ≤ m ∧ key m ≠ key n) (n : ℕ) : ∃ m, n ≤ m ∧ goal m := by
  refine exists_of_rank goal rank (fun n => ?_) n
  by_cases hgoal : goal n
  · exact ⟨n, le_rfl, Or.inl hgoal⟩
  · obtain ⟨m, hnm, hkey⟩ := hfair n hgoal
    rcases key_or_rank hstep hnm with ⟨k, hnk, hk⟩ | ⟨-, hsame | hlt⟩
    · exact ⟨k, hnk, Or.inl hk⟩
    · exact absurd hsame hkey
    · exact ⟨m, hnm, Or.inr hlt⟩

/-! ## Runs put together -/

section segments

variable {α : Type} {R : α → α → Prop} {P : ℕ → α → Prop}

/-- So many steps lead from one state to the other. -/
def StepsTo (R : α → α → Prop) : ℕ → α → α → Prop
  | 0, x, y => x = y
  | n + 1, x, y => ∃ z, R x z ∧ StepsTo R n z y

/-- What a chain of steps reaches is reached in some number of them. -/
theorem exists_stepsTo {x y : α} (h : Relation.ReflTransGen R x y) : ∃ n, StepsTo R n x y := by
  induction h using Relation.ReflTransGen.head_induction_on with
  | refl => exact ⟨0, rfl⟩
  | head hstep _ ih =>
      obtain ⟨n, hn⟩ := ih
      exact ⟨n + 1, _, hstep, hn⟩

/-- On the way: the number of the next milestone, the steps to it, and the state. -/
def OnTheWay (R : α → α → Prop) (P : ℕ → α → Prop) (p : ℕ × ℕ × α) : Prop :=
  ∃ y, P p.1 y ∧ StepsTo R p.2.1 p.2.2 y

/-- There is always a step to go on with: towards the next milestone, or away from one. -/
theorem OnTheWay.exists_next (hseg : ∀ k x, P k x → ∃ y, P (k + 1) y ∧ Relation.TransGen R x y)
    {p : ℕ × ℕ × α} (h : OnTheWay R P p) : ∃ p', OnTheWay R P p' ∧ R p.2.2 p'.2.2 ∧
      (p.2.1 = 0 ∧ p'.1 = p.1 + 1 ∨ p.2.1 = p'.2.1 + 1 ∧ p'.1 = p.1) := by
  obtain ⟨k, n, x⟩ := p
  obtain ⟨y, hy, hsteps⟩ := h
  cases n with
  | zero =>
      obtain rfl : x = y := hsteps
      obtain ⟨y', hy', hpath⟩ := hseg k x hy
      obtain ⟨x', hstep, hrest⟩ := Relation.TransGen.head'_iff.mp hpath
      obtain ⟨n', hn'⟩ := exists_stepsTo hrest
      exact ⟨(k + 1, n', x'), ⟨y', hy', hn'⟩, hstep, Or.inl ⟨rfl, rfl⟩⟩
  | succ n =>
      obtain ⟨x', hstep, hrest⟩ := hsteps
      exact ⟨(k, n, x'), ⟨y, hy, hrest⟩, hstep, Or.inr ⟨rfl, rfl⟩⟩

/-- **Finite runs from milestone to milestone make an endless run** through all of them, one after the
other. -/
theorem exists_run_of_segments
    (hseg : ∀ k x, P k x → ∃ y, P (k + 1) y ∧ Relation.TransGen R x y) {x : α} (hx : P 0 x) :
    ∃ ω : ℕ → α, ω 0 = x ∧ (∀ n, R (ω n) (ω (n + 1))) ∧
      ∃ t : ℕ → ℕ, StrictMono t ∧ ∀ k, P k (ω (t k)) := by
  have hnext : ∀ p : {p // OnTheWay R P p}, ∃ p' : {p // OnTheWay R P p}, R p.1.2.2 p'.1.2.2 ∧
      (p.1.2.1 = 0 ∧ p'.1.1 = p.1.1 + 1 ∨ p.1.2.1 = p'.1.2.1 + 1 ∧ p'.1.1 = p.1.1) := by
    rintro ⟨p, hp⟩
    obtain ⟨p', hp', hstep⟩ := hp.exists_next hseg
    exact ⟨⟨p', hp'⟩, hstep⟩
  choose next hstep using hnext
  obtain ⟨run, hrun₀, hrun⟩ : ∃ run : ℕ → {p // OnTheWay R P p},
      (run 0).1 = (0, 0, x) ∧ ∀ n, run (n + 1) = next (run n) :=
    ⟨fun n => next^[n] ⟨(0, 0, x), x, hx, rfl⟩, rfl, fun n => Function.iterate_succ_apply' next n _⟩
  -- from any state on the way the milestone is reached
  have hreach : ∀ d n, (run n).1.2.1 = d → (run (n + d)).1.2.1 = 0 ∧
      (run (n + d)).1.1 = (run n).1.1 := by
    intro d
    induction d with
    | zero => exact fun n hn => ⟨hn, rfl⟩
    | succ d ih =>
        intro n hn
        rcases (hstep (run n)).2 with ⟨hzero, -⟩ | ⟨hless, hsame⟩
        · omega
        · rw [← hrun] at hless hsame
          obtain ⟨hend, hk⟩ := ih (n + 1) (by omega)
          rw [show n + (d + 1) = n + 1 + d by omega]
          exact ⟨hend, hk.trans hsame⟩
  have hmilestone : ∀ k, ∃ n, (run n).1.1 = k ∧ (run n).1.2.1 = 0 := by
    intro k
    induction k with
    | zero => exact ⟨0, by rw [hrun₀], by rw [hrun₀]⟩
    | succ k ih =>
        obtain ⟨n, hk, hzero⟩ := ih
        rcases (hstep (run n)).2 with ⟨-, hsucc⟩ | ⟨hless, -⟩
        · rw [← hrun] at hsucc
          obtain ⟨hend, hsame⟩ := hreach _ (n + 1) rfl
          exact ⟨_, by omega, hend⟩
        · omega
  -- the number of the next milestone never goes back
  have hmono : Monotone fun n => (run n).1.1 := by
    refine monotone_nat_of_le_succ fun n => ?_
    rw [hrun]
    rcases (hstep (run n)).2 with ⟨-, hsucc⟩ | ⟨-, hsame⟩ <;> omega
  choose t ht hzero using hmilestone
  refine ⟨fun n => (run n).1.2.2, congrArg (fun p => p.2.2) hrun₀, fun n => ?_, t,
    strictMono_nat_of_lt_succ fun k => ?_, fun k => ?_⟩
  · dsimp only
    rw [hrun]
    exact (hstep (run n)).1
  · by_contra hle
    have hback : (run (t (k + 1))).1.1 ≤ (run (t k)).1.1 := hmono (not_lt.mp hle)
    rw [ht, ht] at hback
    omega
  · obtain ⟨y, hy, hsteps⟩ := (run (t k)).2
    rw [hzero] at hsteps
    rw [ht] at hy
    obtain rfl : (run (t k)).1.2.2 = y := hsteps
    exact hy

end segments

end FlowManager.Lib
