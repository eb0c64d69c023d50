import FlowManager.Lib.PriceTime

/-!
# A queue and a part of it

What a sweep does to a part of its queue, when the queue is in priority order: an order that is
hit has only orders ahead of it that are hit as well. `Reached` says from the quantities ahead of
an order that the sweep gets to it; these are the orders that trade (`exists_reached_of_mem_fills`,
`Reached.exists_mem_fills`).

* `sweep_filter`: if everything that is reached lies in the part, the sweep of the part alone
  makes the same fills and leaves the same rest.
* `filter_sweep_queue`: if nothing that is reached lies in the part, the part is as it was.
* `file_filter`, `filter_file_of_not`: the same for filing an order, in the part or outside of it.
-/

namespace FlowManager.Lib.PriceTime

variable {α : Type} {hits : α → Prop} {q : ℕ} {r x : Resting α} {rs : List (Resting α)}

/-- An incoming quantity gets to an order that it hits: the order is the first, or less is open
ahead of it than comes in. -/
def Reached (hits : α → Prop) (q : ℕ) (rs : List (Resting α)) (x : Resting α) : Prop :=
  hits x.terms ∧ ∃ pre post, rs = pre ++ x :: post ∧ (pre = [] ∨ (pre.map Resting.qty).sum < q)

/-- Who is hit has only orders ahead that are hit. -/
def InPriority (hits : α → Prop) (rs : List (Resting α)) : Prop :=
  rs.Pairwise fun r r' => hits r'.terms → hits r.terms

/-- Who is reached is in the queue. -/
theorem Reached.mem (h : Reached hits q rs x) : x ∈ rs := by
  obtain ⟨-, pre, post, rfl, -⟩ := h
  simp

/-- Nobody is reached in an empty queue. -/
theorem not_reached_nil : ¬ Reached hits q [] x := fun h => List.not_mem_nil h.mem

/-- The first order is reached if it is hit. -/
theorem reached_head (h : hits r.terms) : Reached hits q (r :: rs) r :=
  ⟨h, [], rs, rfl, Or.inl rfl⟩

/-- Behind the first order are reached those that what is left of the quantity reaches. -/
theorem reached_cons_of_lt (hlt : r.qty < q) (h : Reached hits (q - r.qty) rs x) :
    Reached hits q (r :: rs) x := by
  obtain ⟨hhit, pre, post, rfl, hahead⟩ := h
  refine ⟨hhit, r :: pre, post, rfl, Or.inr ?_⟩
  rw [List.map_cons, List.sum_cons]
  rcases hahead with rfl | hahead
  · simpa using hlt
  · omega

/-- Who is reached is first, or is reached behind the first. -/
theorem reached_cons (h : Reached hits q (r :: rs) x) :
    x = r ∨ (r.qty < q ∧ Reached hits (q - r.qty) rs x) := by
  obtain ⟨hhit, pre, post, heq, hahead⟩ := h
  cases pre with
  | nil =>
      left
      exact (List.cons.inj heq).1.symm
  | cons r' pre =>
      right
      obtain ⟨rfl, rfl⟩ := List.cons.inj heq
      rcases hahead with hnil | hahead
      · cases hnil
      · rw [List.map_cons, List.sum_cons] at hahead
        exact ⟨by omega, hhit, pre, post, rfl, Or.inr (by omega)⟩

/-- Where the first order is not hit, nothing is. -/
theorem InPriority.not_hits (h : InPriority hits (r :: rs)) (hr : ¬ hits r.terms) :
    ∀ y ∈ r :: rs, ¬ hits y.terms := by
  intro y hy hhit
  rcases List.mem_cons.mp hy with rfl | hy
  · exact hr hhit
  · exact hr ((List.pairwise_cons.mp h).1 y hy hhit)

/-- Behind the first the order of priority is the same. -/
theorem InPriority.tail (h : InPriority hits (r :: rs)) : InPriority hits rs :=
  (List.pairwise_cons.mp h).2

section sweep

variable [DecidablePred hits]

/-- A sweep of a queue in which nothing is hit does nothing. -/
theorem sweep_of_forall_not_hits (h : ∀ y ∈ rs, ¬ hits y.terms) :
    sweep hits q rs = ⟨[], some q, rs⟩ :=
  sweep_of_not_hits fun y hy => h y (List.mem_of_mem_head? hy)

/-- **A sweep trades with the orders that it reaches**, and a fill is for nothing where one of the
two has nothing. -/
theorem exists_reached_of_mem_fills (hsorted : InPriority hits rs) {t : α} {n : ℕ}
    (h : (t, n) ∈ (sweep hits q rs).fills) :
    ∃ x, Reached hits q rs x ∧ x.terms = t ∧ (n = 0 ↔ q = 0 ∨ x.qty = 0) := by
  induction rs generalizing q with
  | nil => exact absurd h List.not_mem_nil
  | cons r rs ih =>
      by_cases hhit : hits r.terms
      · rcases Nat.lt_or_ge r.qty q with hlt | hle
        · rw [sweep_cons_of_lt hhit hlt] at h
          rcases List.mem_cons.mp h with heq | h
          · obtain ⟨rfl, rfl⟩ := Prod.mk.inj heq
            exact ⟨r, reached_head hhit, rfl, by omega⟩
          · obtain ⟨x, hx, hterms, hzero⟩ := ih hsorted.tail h
            exact ⟨x, reached_cons_of_lt hlt hx, hterms, by omega⟩
        · rw [sweep_cons_of_le hhit hle] at h
          obtain ⟨rfl, rfl⟩ := Prod.mk.inj (List.mem_singleton.mp h)
          exact ⟨r, reached_head hhit, rfl, by omega⟩
      · rw [sweep_of_forall_not_hits (hsorted.not_hits hhit)] at h
        exact absurd h List.not_mem_nil

/-- **It trades with all of them.** -/
theorem Reached.exists_mem_fills (h : Reached hits q rs x) (hsorted : InPriority hits rs) :
    ∃ n, (x.terms, n) ∈ (sweep hits q rs).fills ∧ (n = 0 ↔ q = 0 ∨ x.qty = 0) := by
  induction rs generalizing q with
  | nil => exact absurd h not_reached_nil
  | cons r rs ih =>
      have hhit : hits r.terms := by
        by_contra hnot
        exact hsorted.not_hits hnot x h.mem h.1
      rcases Nat.lt_or_ge r.qty q with hlt | hle
      · rw [sweep_cons_of_lt hhit hlt]
        rcases reached_cons h with rfl | ⟨-, h⟩
        · exact ⟨_, List.mem_cons_self, by omega⟩
        · obtain ⟨n, hn, hzero⟩ := ih h hsorted.tail
          exact ⟨n, List.mem_cons_of_mem _ hn, by omega⟩
      · rw [sweep_cons_of_le hhit hle]
        rcases reached_cons h with rfl | ⟨hlt, -⟩
        · exact ⟨q, List.mem_singleton_self _, by omega⟩
        · omega

section part

variable {p : Resting α → Bool}

/-- The part does not tell the quantities of an order apart. -/
def OnTerms (p : Resting α → Bool) : Prop := ∀ t q q', p ⟨t, q⟩ = p ⟨t, q'⟩

/-- Settling an order that is kept and filtering change places. -/
theorem OnTerms.filter_settle (hp : OnTerms p) (hr : p r = true) :
    (settle q r rs).filter p = settle q r (rs.filter p) := by
  unfold settle
  split_ifs
  · rfl
  · have hr' : p ⟨r.terms, r.qty - q⟩ = true := (hp r.terms _ r.qty).trans hr
    rw [List.filter_cons_of_pos hr']

/-- Settling an order that is filtered out does not show. -/
theorem OnTerms.filter_settle_of_not (hp : OnTerms p) (hr : p r = false) :
    (settle q r rs).filter p = rs.filter p := by
  unfold settle
  split_ifs
  · rfl
  · have hr' : p ⟨r.terms, r.qty - q⟩ = false := (hp r.terms _ r.qty).trans hr
    rw [List.filter_cons_of_neg (by rw [hr']; decide)]

/-- **A sweep that reaches only orders of a part** is the sweep of the part. -/
theorem sweep_filter (hp : OnTerms p) (hsorted : InPriority hits rs)
    (hreach : ∀ x, Reached hits q rs x → p x = true) :
    sweep hits q (rs.filter p) =
      ⟨(sweep hits q rs).fills, (sweep hits q rs).left, (sweep hits q rs).queue.filter p⟩ := by
  induction rs generalizing q with
  | nil => rfl
  | cons r rs ih =>
      by_cases hhit : hits r.terms
      · have hr : p r = true := hreach r (reached_head hhit)
        rw [List.filter_cons_of_pos hr]
        rcases Nat.lt_or_ge r.qty q with hlt | hle
        · rw [sweep_cons_of_lt hhit hlt, sweep_cons_of_lt hhit hlt,
            ih hsorted.tail fun x hx => hreach x (reached_cons_of_lt hlt hx)]
        · rw [sweep_cons_of_le hhit hle, sweep_cons_of_le hhit hle, hp.filter_settle hr]
      · -- nothing is hit, in the queue or in the part
        have hnone := hsorted.not_hits hhit
        have hpart : ∀ y ∈ (r :: rs).filter p, ¬ hits y.terms := fun y hy =>
          hnone y (List.mem_of_mem_filter hy)
        rw [sweep_of_forall_not_hits hnone, sweep_of_forall_not_hits hpart]

/-- **A sweep that reaches no order of a part** leaves the part as it was. -/
theorem filter_sweep_queue (hp : OnTerms p) (hsorted : InPriority hits rs)
    (hreach : ∀ x, Reached hits q rs x → p x = false) :
    (sweep hits q rs).queue.filter p = rs.filter p := by
  induction rs generalizing q with
  | nil => rfl
  | cons r rs ih =>
      by_cases hhit : hits r.terms
      · have hr : p r = false := hreach r (reached_head hhit)
        rw [List.filter_cons_of_neg (by rw [hr]; decide)]
        rcases Nat.lt_or_ge r.qty q with hlt | hle
        · rw [sweep_cons_of_lt hhit hlt]
          exact ih hsorted.tail fun x hx => hreach x (reached_cons_of_lt hlt hx)
        · rw [sweep_cons_of_le hhit hle]
          exact hp.filter_settle_of_not hr
      · rw [sweep_of_forall_not_hits (hsorted.not_hits hhit)]

end part

end sweep

section file

variable {p : Resting α → Bool} {before : α → α → Prop} [DecidableRel before] {t : α}
  {left : Option ℕ}

/-- **Filing an order of the part** commutes with taking the part, where the orders that it
precedes stand behind those that it does not precede. -/
theorem file_filter (hpart : ∀ q, p ⟨t, q⟩ = true)
    (hsorted : rs.Pairwise fun r r' => before t r.terms → before t r'.terms) :
    (file before t left rs).filter p = file before t left (rs.filter p) := by
  cases left with
  | none => rfl
  | some q =>
      unfold file
      dsimp only
      induction rs with
      | nil => simp [hpart q]
      | cons r rs ih =>
          obtain ⟨hhead, htail⟩ := List.pairwise_cons.mp hsorted
          by_cases hbefore : before t r.terms
          · rw [List.orderedInsert_cons, if_pos hbefore, List.filter_cons_of_pos (hpart q)]
            symm
            apply orderedInsert_of_forall_before
            intro y hy
            rcases List.mem_cons.mp (List.mem_of_mem_filter hy) with rfl | hy
            · exact hbefore
            · exact hhead y hy hbefore
          · rw [List.orderedInsert_cons, if_neg hbefore]
            by_cases hr : p r = true
            · rw [List.filter_cons_of_pos hr, List.filter_cons_of_pos hr, ih htail,
                List.orderedInsert_cons, if_neg hbefore]
            · rw [List.filter_cons_of_neg hr, List.filter_cons_of_neg hr, ih htail]

/-- **Filing an order outside of the part** does not show in it. -/
theorem filter_file_of_not (hpart : ∀ q, p ⟨t, q⟩ = false) :
    (file before t left rs).filter p = rs.filter p := by
  cases left with
  | none => rfl
  | some q =>
      have hneg : ¬ p ⟨t, q⟩ = true := by
        rw [hpart q]
        decide
      show (List.orderedInsert _ _ _).filter p = rs.filter p
      rw [List.orderedInsert_eq_take_drop, List.filter_append, List.filter_cons_of_neg hneg,
        ← List.filter_append, List.takeWhile_append_dropWhile]

end file

end FlowManager.Lib.PriceTime
