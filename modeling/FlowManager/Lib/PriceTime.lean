import Mathlib.Data.List.Basic
import Mathlib.Data.List.Sort
import Mathlib.Algebra.Order.Group.Nat
import Mathlib.Algebra.BigOperators.Group.List.Basic
import Mathlib.Algebra.GroupWithZero.Nat
import Mathlib.Tactic.Common

/-!
# Matching two queues front to front

The general part of a continuous double auction. Two queues of resting quantities face each
other, each in priority order; `crosses b a` says that the terms of a bid and an ask allow a
trade. One step (`crossStep`) trades the two fronts for the smaller of their quantities and drops
whatever is exhausted; `Runs` is a sequence of steps with its fills.

* `Runs.unique`: steps are deterministic, so two runs that cannot go on are the same run.
* `sweep` is the one-sided view: one incoming quantity goes down the opposite queue. When the
  incoming order is the only one on its side that can trade, sweeping is what the two-sided
  matching does (`sweep_runs_bid`; `Runs.swap` is the other side).
* `sweep_of_left` and `sweep_of_exhausted` say exactly what a sweep did: which resting orders it
  emptied, which one it cut, and what is left on both sides.

Terms are an arbitrary type `α`; quantities are natural numbers and may be zero, in which case a
step trades a quantity of zero and still exhausts the order.
-/

namespace FlowManager.Lib.PriceTime

variable {α : Type}

/-- A resting order: its terms and the quantity that is still open. -/
structure Resting (α : Type) where
  terms : α
  qty : ℕ
  deriving DecidableEq

/-- A trade between a bid and an ask. -/
structure Fill (α : Type) where
  bid : α
  ask : α
  qty : ℕ
  deriving DecidableEq

/-- Two facing queues, each in priority order. -/
structure Sides (α : Type) where
  bids : List (Resting α)
  asks : List (Resting α)
  deriving DecidableEq

/-- What trading `q` with the front order leaves of its queue. -/
def settle (q : ℕ) (r : Resting α) (rest : List (Resting α)) : List (Resting α) :=
  if r.qty - q = 0 then rest else ⟨r.terms, r.qty - q⟩ :: rest

/-- An order that is filled up leaves the queue. -/
theorem settle_of_le {q : ℕ} {r : Resting α} {rest : List (Resting α)} (h : r.qty ≤ q) :
    settle q r rest = rest := by
  simp [settle, Nat.sub_eq_zero_of_le h]

/-- An order that is not filled up keeps the rest. -/
theorem settle_of_lt {q : ℕ} {r : Resting α} {rest : List (Resting α)} (h : q < r.qty) :
    settle q r rest = ⟨r.terms, r.qty - q⟩ :: rest := by
  simp only [settle, if_neg (Nat.sub_ne_zero_of_lt h)]

/-! ## Two-sided matching -/

section cross

variable (crosses : α → α → Prop) [DecidableRel crosses]

/-- Trade the two fronts, if they cross. -/
def crossStep (s : Sides α) : Option (Fill α × Sides α) :=
  match s.bids, s.asks with
  | b :: bs, a :: as =>
      if crosses b.terms a.terms then
        some (⟨b.terms, a.terms, min b.qty a.qty⟩,
          ⟨settle (min b.qty a.qty) b bs, settle (min b.qty a.qty) a as⟩)
      else none
  | _, _ => none

/-- A sequence of steps and its fills. -/
inductive Runs : Sides α → List (Fill α) → Sides α → Prop
  | nil (s : Sides α) : Runs s [] s
  | cons {s s' s'' : Sides α} {f : Fill α} {fs : List (Fill α)} :
      crossStep crosses s = some (f, s') → Runs s' fs s'' → Runs s (f :: fs) s''

variable {crosses}

/-- One run after another is a run. -/
theorem Runs.append {s s' s'' : Sides α} {fs gs : List (Fill α)}
    (h₁ : Runs crosses s fs s') (h₂ : Runs crosses s' gs s'') : Runs crosses s (fs ++ gs) s'' := by
  induction h₁ with
  | nil s => exact h₂
  | cons hstep _ ih => exact .cons hstep (ih h₂)

/-- **Matching is deterministic**: two runs from one state that cannot go on are the same. -/
theorem Runs.unique {s t t' : Sides α} {fs fs' : List (Fill α)} (h : Runs crosses s fs t)
    (ht : crossStep crosses t = none) (h' : Runs crosses s fs' t')
    (ht' : crossStep crosses t' = none) : fs = fs' ∧ t = t' := by
  induction h generalizing fs' with
  | nil s =>
      cases h' with
      | nil => exact ⟨rfl, rfl⟩
      | cons hstep _ => rw [ht] at hstep; cases hstep
  | cons hstep _ ih =>
      cases h' with
      | nil => rw [ht'] at hstep; cases hstep
      | cons hstep' hrest =>
          rw [hstep] at hstep'
          cases hstep'
          obtain ⟨rfl, rfl⟩ := ih ht hrest
          exact ⟨rfl, rfl⟩

end cross

/-! ## Seen from the other side -/

/-- Exchange bids and asks. -/
def Sides.swap (s : Sides α) : Sides α := ⟨s.asks, s.bids⟩

/-- Exchange the two parties of a fill. -/
def Fill.swap (f : Fill α) : Fill α := ⟨f.ask, f.bid, f.qty⟩

section swap

variable {crosses : α → α → Prop} [DecidableRel crosses]

/-- A step of matching, with the sides swapped. -/
theorem crossStep_swap {s s' : Sides α} {f : Fill α} (h : crossStep crosses s = some (f, s')) :
    crossStep (fun x y => crosses y x) s.swap = some (f.swap, s'.swap) := by
  obtain ⟨bids, asks⟩ := s
  cases bids with
  | nil => simp [crossStep] at h
  | cons b bs =>
      cases asks with
      | nil => simp [crossStep] at h
      | cons a as =>
          simp only [crossStep] at h
          split_ifs at h with hc
          cases h
          simp [crossStep, Sides.swap, Fill.swap, hc, Nat.min_comm]

/-- A run of matching, with the sides swapped. -/
theorem Runs.swap {s t : Sides α} {fs : List (Fill α)} (h : Runs crosses s fs t) :
    Runs (fun x y => crosses y x) s.swap (fs.map Fill.swap) t.swap := by
  induction h with
  | nil s => exact .nil _
  | cons hstep _ ih => exact .cons (crossStep_swap hstep) ih

end swap

/-! ## One-sided sweep -/

/-- The result of a sweep: the fills, what is left of the incoming quantity (`none` once it is
exhausted), and the opposite queue afterwards. -/
structure Swept (α : Type) where
  fills : List (α × ℕ)
  left : Option ℕ
  queue : List (Resting α)
  deriving DecidableEq

section sweep

variable (hits : α → Prop) [DecidablePred hits]

/-- Send the quantity `q` down a queue, front first, while it hits the front order. The first
trade happens whatever `q` is; after it the sweep goes on only with quantity left. -/
def sweep : ℕ → List (Resting α) → Swept α
  | q, [] => ⟨[], some q, []⟩
  | q, r :: rs =>
      if hits r.terms then
        if q - min q r.qty = 0 then ⟨[(r.terms, min q r.qty)], none, settle (min q r.qty) r rs⟩
        else
          ⟨(r.terms, min q r.qty) :: (sweep (q - min q r.qty) rs).fills,
            (sweep (q - min q r.qty) rs).left, (sweep (q - min q r.qty) rs).queue⟩
      else ⟨[], some q, r :: rs⟩

variable {hits}

/-- The front order takes all that is coming in. -/
theorem sweep_cons_of_le {q : ℕ} {r : Resting α} {rs : List (Resting α)} (hhit : hits r.terms)
    (h : q ≤ r.qty) : sweep hits q (r :: rs) = ⟨[(r.terms, q)], none, settle q r rs⟩ := by
  simp [sweep, hhit, Nat.min_eq_left h]

/-- The front order is emptied and the sweep goes on. -/
theorem sweep_cons_of_lt {q : ℕ} {r : Resting α} {rs : List (Resting α)} (hhit : hits r.terms)
    (h : r.qty < q) :
    sweep hits q (r :: rs) =
      ⟨(r.terms, r.qty) :: (sweep hits (q - r.qty) rs).fills, (sweep hits (q - r.qty) rs).left,
        (sweep hits (q - r.qty) rs).queue⟩ := by
  simp [sweep, hhit, Nat.min_eq_right h.le, Nat.sub_ne_zero_of_lt h]

/-- A sweep of a queue whose front it does not hit does nothing. -/
theorem sweep_of_not_hits {q : ℕ} {rs : List (Resting α)} (h : ∀ r ∈ rs.head?, ¬ hits r.terms) :
    sweep hits q rs = ⟨[], some q, rs⟩ := by
  cases rs with
  | nil => rfl
  | cons r rs =>
      have hr : ¬ hits r.terms := h r (by simp)
      simp [sweep, hr]

/-- **A sweep that leaves something** emptied a front part of the queue and stopped at an order
it does not hit. -/
theorem sweep_of_left {q q' : ℕ} {rs : List (Resting α)} (h : (sweep hits q rs).left = some q') :
    ∃ pre rest, rs = pre ++ rest ∧
      (sweep hits q rs).fills = pre.map (fun r => (r.terms, r.qty)) ∧
      (sweep hits q rs).queue = rest ∧ (pre.map Resting.qty).sum + q' = q ∧
      (∀ r ∈ pre, hits r.terms) ∧ (∀ r ∈ rest.head?, ¬ hits r.terms) ∧ (pre ≠ [] → 0 < q') := by
  induction rs generalizing q with
  | nil =>
      simp only [sweep, Option.some.injEq] at h
      exact ⟨[], [], rfl, rfl, rfl, by simpa using h.symm, by simp, by simp, by simp⟩
  | cons r rs ih =>
      by_cases hhit : hits r.terms
      · rcases Nat.lt_or_ge r.qty q with hlt | hle
        · rw [sweep_cons_of_lt hhit hlt] at h ⊢
          obtain ⟨pre, rest, rfl, hfills, hqueue, hsum, hpre, hrest, hpos⟩ := ih h
          refine ⟨r :: pre, rest, rfl, by simp [hfills], hqueue, ?_, by simpa [hhit] using hpre,
            hrest, ?_⟩
          · simp only [List.map_cons, List.sum_cons]
            omega
          · intro _
            cases pre with
            | nil =>
                simp only [List.map_nil, List.sum_nil] at hsum
                omega
            | cons _ _ => exact hpos (by simp)
        · rw [sweep_cons_of_le hhit hle] at h
          cases h
      · have hstop : ∀ r' ∈ (r :: rs).head?, ¬ hits r'.terms := by simpa using hhit
        rw [sweep_of_not_hits hstop] at h ⊢
        cases h
        exact ⟨[], r :: rs, rfl, rfl, rfl, by simp, by simp, hstop, by simp⟩

/-- **A sweep that is exhausted** emptied a front part of the queue and ended inside the next
order. -/
theorem sweep_of_exhausted {q : ℕ} {rs : List (Resting α)} (h : (sweep hits q rs).left = none) :
    ∃ pre last rest t, rs = pre ++ last :: rest ∧
      (sweep hits q rs).fills = pre.map (fun r => (r.terms, r.qty)) ++ [(last.terms, t)] ∧
      (sweep hits q rs).queue = settle t last rest ∧ t ≤ last.qty ∧
      (pre.map Resting.qty).sum + t = q ∧ (∀ r ∈ pre, hits r.terms) ∧ hits last.terms ∧
      (0 < q → 0 < t) := by
  induction rs generalizing q with
  | nil => simp [sweep] at h
  | cons r rs ih =>
      by_cases hhit : hits r.terms
      · rcases Nat.lt_or_ge r.qty q with hlt | hle
        · rw [sweep_cons_of_lt hhit hlt] at h ⊢
          obtain ⟨pre, last, rest, t, rfl, hfills, hqueue, ht, hsum, hpre, hlast, hpos⟩ := ih h
          refine ⟨r :: pre, last, rest, t, rfl, by simp [hfills], hqueue, ht, ?_,
            by simpa [hhit] using hpre, hlast, fun _ => hpos (by omega)⟩
          simp only [List.map_cons, List.sum_cons]
          omega
        · rw [sweep_cons_of_le hhit hle]
          exact ⟨[], r, rs, q, rfl, rfl, rfl, hle, by simp, by simp, hhit, id⟩
      · rw [sweep_of_not_hits (by simpa using hhit)] at h
        cases h

/-- The orders of the queue after a sweep were in it before, with at least their quantity. -/
theorem mem_sweep_queue {q : ℕ} {rs : List (Resting α)} {r : Resting α}
    (h : r ∈ (sweep hits q rs).queue) : ∃ r' ∈ rs, r'.terms = r.terms ∧ r.qty ≤ r'.qty := by
  cases hleft : (sweep hits q rs).left with
  | some q' =>
      obtain ⟨pre, rest, rfl, -, hqueue, -⟩ := sweep_of_left hleft
      rw [hqueue] at h
      exact ⟨r, List.mem_append_right _ h, rfl, le_rfl⟩
  | none =>
      obtain ⟨pre, last, rest, t, rfl, -, hqueue, -⟩ := sweep_of_exhausted hleft
      rw [hqueue] at h
      unfold settle at h
      split_ifs at h
      · exact ⟨r, by simp [h], rfl, le_rfl⟩
      · rcases List.mem_cons.mp h with rfl | h
        · exact ⟨last, by simp, rfl, by simp⟩
        · exact ⟨r, by simp [h], rfl, le_rfl⟩

/-- A sweep keeps the order of the queue. -/
theorem sweep_queue_pairwise {R : α → α → Prop} {q : ℕ} {rs : List (Resting α)}
    (h : rs.Pairwise fun r r' => R r.terms r'.terms) :
    (sweep hits q rs).queue.Pairwise fun r r' => R r.terms r'.terms := by
  rcases hleft : (sweep hits q rs).left with _ | q'
  · obtain ⟨pre, last, rest, t, rfl, -, hqueue, -⟩ := sweep_of_exhausted hleft
    have hrest := (List.pairwise_append.mp h).2.1
    rw [hqueue]
    unfold settle
    split_ifs
    · exact (List.pairwise_cons.mp hrest).2
    · exact List.pairwise_cons.mpr (List.pairwise_cons.mp hrest)
  · obtain ⟨pre, rest, rfl, -, hqueue, -⟩ := sweep_of_left hleft
    rw [hqueue]
    exact (List.pairwise_append.mp h).2.1

/-- What is left of a positive quantity is positive. -/
theorem left_pos {q q' : ℕ} {rs : List (Resting α)} (hq : 0 < q)
    (h : (sweep hits q rs).left = some q') : 0 < q' := by
  obtain ⟨pre, rest, -, -, -, hsum, -, -, hpos⟩ := sweep_of_left h
  rcases pre with _ | ⟨r, pre⟩
  · simp only [List.map_nil, List.sum_nil, Nat.zero_add] at hsum
    omega
  · exact hpos (List.cons_ne_nil _ _)

/-- The front of the queue does not hit, or the incoming quantity is exhausted. -/
theorem sweep_stops {q q' : ℕ} {rs : List (Resting α)} (h : (sweep hits q rs).left = some q') :
    ∀ r ∈ (sweep hits q rs).queue.head?, ¬ hits r.terms := by
  obtain ⟨pre, rest, -, -, hqueue, -, -, hrest, -⟩ := sweep_of_left h
  rwa [hqueue]

/-- A sweep depends on whom it hits and on nothing else. -/
theorem sweep_congr {hits' : α → Prop} [DecidablePred hits'] (h : ∀ x, hits x ↔ hits' x) (q : ℕ)
    (rs : List (Resting α)) : sweep hits q rs = sweep hits' q rs := by
  obtain rfl : hits = hits' := funext fun x => propext (h x)
  congr

/-- Forget a part of the terms. -/
def Resting.map {β : Type} (f : α → β) (r : Resting α) : Resting β := ⟨f r.terms, r.qty⟩

/-- Mapping the terms of an order maps its terms. -/
@[simp] theorem Resting.map_terms {β : Type} (f : α → β) (r : Resting α) :
    (r.map f).terms = f r.terms := rfl

/-- Mapping the terms of an order leaves its quantity. -/
@[simp] theorem Resting.map_qty {β : Type} (f : α → β) (r : Resting α) :
    (r.map f).qty = r.qty := rfl

/-- Settling and mapping the terms change places. -/
theorem settle_map {β : Type} (f : α → β) (q : ℕ) (r : Resting α) (rest : List (Resting α)) :
    settle q (r.map f) (rest.map (Resting.map f)) =
      (settle q r rest).map (Resting.map f) := by
  unfold settle
  rw [Resting.map_qty]
  split_ifs <;> rfl

/-- A sweep reads only the part of the terms that decides what it hits. -/
theorem sweep_map {β : Type} (f : α → β) (hits : β → Prop) [DecidablePred hits] (q : ℕ)
    (rs : List (Resting α)) :
    sweep hits q (rs.map (Resting.map f)) =
      ⟨(sweep (fun x => hits (f x)) q rs).fills.map fun p => (f p.1, p.2),
        (sweep (fun x => hits (f x)) q rs).left,
        (sweep (fun x => hits (f x)) q rs).queue.map (Resting.map f)⟩ := by
  induction rs generalizing q with
  | nil => rfl
  | cons r rs ih =>
      by_cases hhit : hits (f r.terms)
      · rcases Nat.lt_or_ge r.qty q with hlt | hle
        · rw [List.map_cons, sweep_cons_of_lt (r := r.map f) hhit hlt,
            @sweep_cons_of_lt α (fun x => hits (f x)) _ q r rs hhit hlt, Resting.map_qty, ih]
          rfl
        · rw [List.map_cons, sweep_cons_of_le (r := r.map f) hhit hle,
            @sweep_cons_of_le α (fun x => hits (f x)) _ q r rs hhit hle, settle_map]
          rfl
      · rw [sweep_of_not_hits (by simpa using hhit), sweep_of_not_hits (by simpa using hhit)]
        rfl

end sweep

/-! ## Sweeping is two-sided matching with one order in front -/

section runs

variable {crosses : α → α → Prop} [DecidableRel crosses]

/-- An incoming bid at the front of its queue sweeps the asks. -/
theorem sweep_runs_bid (x : α) (bs : List (Resting α)) (q : ℕ) (as : List (Resting α)) :
    Runs crosses ⟨⟨x, q⟩ :: bs, as⟩
      ((sweep (crosses x) q as).fills.map fun p => ⟨x, p.1, p.2⟩)
      ⟨(sweep (crosses x) q as).left.toList.map (Resting.mk x) ++ bs,
        (sweep (crosses x) q as).queue⟩ := by
  induction as generalizing q with
  | nil => exact .nil _
  | cons a as ih =>
      by_cases hhit : crosses x a.terms
      · rcases Nat.lt_or_ge a.qty q with hlt | hle
        · rw [sweep_cons_of_lt hhit hlt]
          have hstep : crossStep crosses ⟨⟨x, q⟩ :: bs, a :: as⟩ =
              some (⟨x, a.terms, a.qty⟩, ⟨⟨x, q - a.qty⟩ :: bs, as⟩) := by
            simp only [crossStep, hhit, if_true, Nat.min_eq_right hlt.le, settle_of_le le_rfl]
            rw [settle_of_lt (r := ⟨x, q⟩) hlt]
          exact .cons hstep (ih _)
        · rw [sweep_cons_of_le hhit hle]
          have hstep : crossStep crosses ⟨⟨x, q⟩ :: bs, a :: as⟩ =
              some (⟨x, a.terms, q⟩, ⟨bs, settle q a as⟩) := by
            simp only [crossStep, hhit, if_true, Nat.min_eq_left hle]
            rw [settle_of_le (r := ⟨x, q⟩) le_rfl]
          exact .cons hstep (.nil _)
      · rw [sweep_of_not_hits (by simpa using hhit)]
        exact .nil _

end runs

/-! ## Placing an order between two uncrossed queues -/

section place

variable (before : α → α → Prop) [DecidableRel before]

/-- File what is left of an incoming order into its own queue: behind every order that it does
not precede. -/
def file (x : α) (left : Option ℕ) (own : List (Resting α)) : List (Resting α) :=
  match left with
  | none => own
  | some q => own.orderedInsert (fun r r' => before r.terms r'.terms) ⟨x, q⟩

/-- The result of placing an order: its fills, what is left of it, and the two queues. -/
structure Placement (α : Type) where
  fills : List (α × ℕ)
  left : Option ℕ
  own : List (Resting α)
  opposite : List (Resting α)
  deriving DecidableEq

/-- Sweep the opposite queue and file the rest. -/
def place (hits : α → Prop) [DecidablePred hits] (x : α) (q : ℕ)
    (own opposite : List (Resting α)) : Placement α where
  fills := (sweep hits q opposite).fills
  left := (sweep hits q opposite).left
  own := file before x (sweep hits q opposite).left own
  opposite := (sweep hits q opposite).queue

variable {before} {crosses : α → α → Prop} [DecidableRel crosses]

/-- An order that comes before all others goes to the front. -/
theorem orderedInsert_of_forall_before {x : α} {q : ℕ} {own : List (Resting α)}
    (h : ∀ r ∈ own, before x r.terms) :
    own.orderedInsert (fun r r' => before r.terms r'.terms) ⟨x, q⟩ = ⟨x, q⟩ :: own := by
  cases own with
  | nil => rfl
  | cons r own => exact List.orderedInsert_cons_of_le _ _ (h r List.mem_cons_self)

/-- Two queues stop at once when no bid crosses the first ask. -/
theorem crossStep_eq_none {s : Sides α}
    (h : ∀ b ∈ s.bids.head?, ∀ a ∈ s.asks.head?, ¬ crosses b.terms a.terms) :
    crossStep crosses s = none := by
  obtain ⟨bids, asks⟩ := s
  rcases bids with _ | ⟨b, bs⟩
  · rfl
  rcases asks with _ | ⟨a, as⟩
  · rfl
  exact if_neg (h b rfl a rfl)

/-- Who is first after an insertion is the new order or was there. -/
theorem mem_head?_orderedInsert {x : α} {q : ℕ} {own : List (Resting α)} {r : Resting α}
    (h : r ∈ (own.orderedInsert (fun r r' => before r.terms r'.terms) ⟨x, q⟩).head?) :
    r = ⟨x, q⟩ ∨ r ∈ own := by
  have hmem := List.mem_of_mem_head? h
  exact (List.mem_orderedInsert _).mp hmem

/-- **Matching after filing a bid is placing it**, when nothing crossed before and a bid that
crosses any ask precedes every bid. -/
theorem place_runs_bid {x : α} {q : ℕ} {bids asks : List (Resting α)}
    (huncrossed : ∀ b ∈ bids, ∀ a ∈ asks, ¬ crosses b.terms a.terms)
    (hfront : ∀ b ∈ bids, ∀ a ∈ asks, crosses x a.terms → before x b.terms) :
    Runs crosses ⟨file before x (some q) bids, asks⟩
        ((place before (crosses x) x q bids asks).fills.map fun p => ⟨x, p.1, p.2⟩)
        ⟨(place before (crosses x) x q bids asks).own,
          (place before (crosses x) x q bids asks).opposite⟩ ∧
      crossStep crosses ⟨(place before (crosses x) x q bids asks).own,
          (place before (crosses x) x q bids asks).opposite⟩ = none := by
  unfold place
  by_cases hhit : ∃ a ∈ asks.head?, crosses x a.terms
  · -- the order precedes its whole queue, before and after
    obtain ⟨a, ha, hxa⟩ := hhit
    have hall : ∀ b ∈ bids, before x b.terms := fun b hb =>
      hfront b hb a (List.mem_of_mem_head? ha) hxa
    have hfile : ∀ left, file before x left bids = left.toList.map (Resting.mk x) ++ bids := by
      intro left
      rcases left with _ | q'
      · rfl
      · exact orderedInsert_of_forall_before hall
    refine ⟨?_, ?_⟩
    · rw [hfile, hfile]
      exact sweep_runs_bid x bids q asks
    · apply crossStep_eq_none
      rw [hfile]
      intro b hb a' ha'
      rcases hleft : (sweep (crosses x) q asks).left with _ | q'
      · rw [hleft] at hb
        obtain ⟨a'', ha'', hterms, -⟩ := mem_sweep_queue (List.mem_of_mem_head? ha')
        rw [← hterms]
        exact huncrossed b (List.mem_of_mem_head? hb) a'' ha''
      · rw [hleft] at hb
        obtain rfl : b = ⟨x, q'⟩ := by simpa using hb.symm
        exact sweep_stops hleft a' ha'
  · have hnot : ∀ a ∈ asks.head?, ¬ crosses x a.terms := fun a ha hxa => hhit ⟨a, ha, hxa⟩
    rw [sweep_of_not_hits hnot]
    refine ⟨.nil _, ?_⟩
    apply crossStep_eq_none
    intro b hb a ha
    rcases mem_head?_orderedInsert hb with rfl | hb
    · exact hnot a ha
    · exact huncrossed b hb a (List.mem_of_mem_head? ha)

/-- Sides that do not match when swapped do not match. -/
theorem crossStep_swap_eq_none {s : Sides α}
    (h : crossStep (fun x y => crosses y x) s.swap = none) : crossStep crosses s = none := by
  rcases hs : crossStep crosses s with _ | ⟨f, s'⟩
  · rfl
  · rw [crossStep_swap hs] at h
    cases h

/-- The same for an ask, seen from the other side. -/
theorem place_runs_ask {x : α} {q : ℕ} {bids asks : List (Resting α)}
    (huncrossed : ∀ b ∈ bids, ∀ a ∈ asks, ¬ crosses b.terms a.terms)
    (hfront : ∀ a ∈ asks, ∀ b ∈ bids, crosses b.terms x → before x a.terms) :
    Runs crosses ⟨bids, file before x (some q) asks⟩
        ((place before (fun b => crosses b x) x q asks bids).fills.map fun p => ⟨p.1, x, p.2⟩)
        ⟨(place before (fun b => crosses b x) x q asks bids).opposite,
          (place before (fun b => crosses b x) x q asks bids).own⟩ ∧
      crossStep crosses ⟨(place before (fun b => crosses b x) x q asks bids).opposite,
          (place before (fun b => crosses b x) x q asks bids).own⟩ = none := by
  obtain ⟨hruns, hstop⟩ := @place_runs_bid α before _ (fun y z => crosses z y) _ x q asks bids
    (fun a ha b hb => huncrossed b hb a ha) hfront
  refine ⟨?_, crossStep_swap_eq_none hstop⟩
  simpa [Sides.swap, Fill.swap, Function.comp_def] using hruns.swap

end place

end FlowManager.Lib.PriceTime
