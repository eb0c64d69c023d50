import FlowManager.Lib.Reach

/-!
# Queues grouped by a key

`aggregate key` groups the neighbours of a queue that have one key into one order, with their
quantities added up: a queue of orders becomes a queue of price levels. Matching does not tell the
two apart. If what an order hits depends on the key alone and every order of the queue has
something open, then a sweep of the groups is the sweep of the orders, grouped
(`sweep_aggregate`), filing an order is adding it to its group (`aggregate_orderedInsert`), and
taking one out is taking its quantity from its group (`aggregate_remove`). `sum_sweep_fills` says
how much a sweep trades: all that comes in, or all that it hits.
-/

namespace FlowManager.Lib.PriceTime

variable {α κ : Type} [DecidableEq κ]

/-- Put a quantity in front, into the first group if that has the key. -/
def push (k : κ) (q : ℕ) : List (Resting κ) → List (Resting κ)
  | [] => [⟨k, q⟩]
  | l :: ls => if l.terms = k then ⟨k, q + l.qty⟩ :: ls else ⟨k, q⟩ :: l :: ls

/-- Group neighbours with one key. -/
def aggregate (key : α → κ) : List (Resting α) → List (Resting κ)
  | [] => []
  | r :: rs => push (key r.terms) r.qty (aggregate key rs)

/-- Every order of the queue has something open. -/
def Positive (rs : List (Resting α)) : Prop := ∀ r ∈ rs, 0 < r.qty

section push

variable {k : κ} {q n : ℕ} {ls : List (Resting κ)}

/-- Pushing onto the level in front adds to it. -/
theorem push_self (k : κ) (a b : ℕ) (ls : List (Resting κ)) :
    push k a (⟨k, b⟩ :: ls) = ⟨k, a + b⟩ :: ls := if_pos rfl

/-- What a push does: it enlarges the first group, or puts one in front. -/
theorem push_cases (k : κ) (q : ℕ) (ls : List (Resting κ)) :
    (∃ b ls', ls = ⟨k, b⟩ :: ls' ∧ push k q ls = ⟨k, q + b⟩ :: ls') ∨
      ((∀ l ∈ ls.head?, l.terms ≠ k) ∧ push k q ls = ⟨k, q⟩ :: ls) := by
  cases ls with
  | nil => exact Or.inr ⟨by simp, rfl⟩
  | cons l ls =>
      by_cases h : l.terms = k
      · obtain rfl := h
        exact Or.inl ⟨l.qty, ls, rfl, if_pos rfl⟩
      · refine Or.inr ⟨?_, if_neg h⟩
        rintro _ ⟨⟩
        exact h

/-- A group with another key stays as it is. -/
theorem push_of_head (h : ∀ l ∈ ls.head?, l.terms ≠ k) : push k q ls = ⟨k, q⟩ :: ls := by
  rcases push_cases k q ls with ⟨b, ls', rfl, -⟩ | ⟨-, hpush⟩
  · exact absurd rfl (h _ rfl)
  · exact hpush

/-- Pushing something open keeps every level open. -/
theorem Positive.push (h : Positive ls) (hq : 0 < q) : Positive (push k q ls) := by
  intro r hr
  rcases push_cases k q ls with ⟨b, ls', rfl, hpush⟩ | ⟨-, hpush⟩
  · rw [hpush] at hr
    rcases List.mem_cons.mp hr with rfl | hr
    · exact Nat.add_pos_left hq b
    · exact h r (List.mem_cons_of_mem _ hr)
  · rw [hpush] at hr
    rcases List.mem_cons.mp hr with rfl | hr
    · exact hq
    · exact h r hr

end push

section aggregate

variable {key : α → κ} {r : Resting α} {rs : List (Resting α)}

/-- Open orders make open levels. -/
theorem Positive.aggregate (key : α → κ) : ∀ {rs : List (Resting α)}, Positive rs →
    Positive (aggregate key rs)
  | [], _ => fun _ h => absurd h List.not_mem_nil
  | r :: rs, h => by
      have hrest : Positive (PriceTime.aggregate key rs) :=
        Positive.aggregate key fun x hx => h x (List.mem_cons_of_mem _ hx)
      exact hrest.push (h r List.mem_cons_self)

/-- A group comes from an order. -/
theorem exists_of_mem_aggregate {l : Resting κ} : ∀ {rs : List (Resting α)},
    l ∈ aggregate key rs → ∃ r ∈ rs, key r.terms = l.terms
  | [], h => absurd h List.not_mem_nil
  | r :: rs, h => by
      have hrest : l ∈ aggregate key rs → ∃ r' ∈ r :: rs, key r'.terms = l.terms := by
        intro hl
        obtain ⟨r', hr', hkey⟩ := exists_of_mem_aggregate hl
        exact ⟨r', List.mem_cons_of_mem _ hr', hkey⟩
      rw [aggregate] at h
      rcases push_cases (key r.terms) r.qty (aggregate key rs) with ⟨b, ls, hls, hpush⟩ | ⟨-, hpush⟩
      · rw [hpush] at h
        rcases List.mem_cons.mp h with rfl | hl
        · exact ⟨r, List.mem_cons_self, rfl⟩
        · exact hrest (hls ▸ List.mem_cons_of_mem _ hl)
      · rw [hpush] at h
        rcases List.mem_cons.mp h with rfl | hl
        · exact ⟨r, List.mem_cons_self, rfl⟩
        · exact hrest hl

/-- The groups are in the order of the queue. -/
theorem aggregate_pairwise {R : κ → κ → Prop} : ∀ {rs : List (Resting α)},
    (rs.Pairwise fun r r' => R (key r.terms) (key r'.terms)) →
    (aggregate key rs).Pairwise fun l l' => R l.terms l'.terms
  | [], _ => List.Pairwise.nil
  | r :: rs, h => by
      obtain ⟨hr, hrs⟩ := List.pairwise_cons.mp h
      have ih := aggregate_pairwise hrs
      rw [aggregate]
      rcases push_cases (key r.terms) r.qty (aggregate key rs) with
        ⟨b, ls, hls, hpush⟩ | ⟨-, hpush⟩
      · rw [hls] at ih
        rw [hpush]
        exact List.pairwise_cons.mpr (List.pairwise_cons.mp ih)
      · rw [hpush]
        refine List.pairwise_cons.mpr ⟨?_, ih⟩
        intro l hl
        obtain ⟨r', hr', hkey⟩ := exists_of_mem_aggregate hl
        rw [← hkey]
        exact hr r' hr'

/-- Orders of one key in front of a group with another key. -/
theorem aggregate_append {k : κ} {rest : List (Resting α)}
    (hhead : ∀ l ∈ (aggregate key rest).head?, l.terms ≠ k) : ∀ {rs : List (Resting α)}, rs ≠ [] →
    (∀ r ∈ rs, key r.terms = k) →
    aggregate key (rs ++ rest) = ⟨k, (rs.map Resting.qty).sum⟩ :: aggregate key rest
  | [r], _, hkey => by
      rw [List.singleton_append, aggregate, hkey r List.mem_cons_self, push_of_head hhead]
      rfl
  | r :: r' :: rs, _, hkey => by
      rw [List.cons_append, aggregate, aggregate_append hhead (List.cons_ne_nil r' rs)
        (fun x hx => hkey x (List.mem_cons_of_mem _ hx)), hkey r List.mem_cons_self, push_self]
      rfl

end aggregate

/-! ## Sweeping groups -/

/-- Fills, as a queue of what they are for. -/
def filled (fills : List (α × ℕ)) : List (Resting α) := fills.map fun p => ⟨p.1, p.2⟩

section sweep

variable {hits : κ → Prop} [DecidablePred hits] {k : κ} {q n : ℕ} {ls : List (Resting κ)}

omit [DecidableEq κ] in
/-- The first fill is with the first order. -/
theorem sweep_fills_of_hits (hhit : hits k) (b : ℕ) (ls : List (Resting κ)) :
    ∃ fills, (sweep hits q (⟨k, b⟩ :: ls)).fills = (k, min q b) :: fills := by
  rcases Nat.lt_or_ge b q with h | h
  · rw [sweep_cons_of_lt (r := ⟨k, b⟩) hhit h, Nat.min_eq_right h.le]
    exact ⟨_, rfl⟩
  · rw [sweep_cons_of_le (r := ⟨k, b⟩) hhit h, Nat.min_eq_left h]
    exact ⟨[], rfl⟩

omit [DecidableEq κ] in
/-- A sweep fills no level of `k` first if none is in front. -/
theorem sweep_fills_head (h : ∀ l ∈ ls.head?, l.terms ≠ k) :
    ∀ l ∈ (filled (sweep hits q ls).fills).head?, l.terms ≠ k := by
  cases ls with
  | nil => exact fun l hl => by cases hl
  | cons l ls =>
      by_cases hhit : hits l.terms
      · obtain ⟨fills, hfills⟩ := sweep_fills_of_hits (q := q) hhit l.qty ls
        rw [hfills]
        rintro _ ⟨⟩
        exact h l rfl
      · rw [sweep_of_not_hits fun x hx => by cases hx; exact hhit]
        exact fun l hl => by cases hl

omit [DecidableEq κ] in
/-- A group of which a part has been taken. -/
theorem sweep_add {a b : ℕ} (hhit : hits k) (hlt : a < q) {fills : List (κ × ℕ)}
    (hfills : (sweep hits (q - a) (⟨k, b⟩ :: ls)).fills = (k, min (q - a) b) :: fills) :
    sweep hits q (⟨k, a + b⟩ :: ls) =
      ⟨(k, a + min (q - a) b) :: fills, (sweep hits (q - a) (⟨k, b⟩ :: ls)).left,
        (sweep hits (q - a) (⟨k, b⟩ :: ls)).queue⟩ := by
  rcases Nat.lt_or_ge b (q - a) with h | h
  · rw [sweep_cons_of_lt (r := ⟨k, b⟩) hhit h] at hfills ⊢
    rw [← (List.cons.inj hfills).2, sweep_cons_of_lt (r := ⟨k, a + b⟩) hhit (by dsimp only; omega),
      Nat.sub_add_eq, Nat.min_eq_right h.le]
  · rw [sweep_cons_of_le (r := ⟨k, b⟩) hhit h] at hfills ⊢
    rw [← (List.cons.inj hfills).2,
      sweep_cons_of_le (r := ⟨k, a + b⟩) hhit (by dsimp only; omega),
      Nat.min_eq_left h, Nat.add_sub_cancel' hlt.le]
    have hsub : a + b - q = b - (q - a) := by omega
    unfold settle
    rw [hsub]

/-- Trading with the first group what its first order has. -/
theorem settle_push (hle : q ≤ n) (hpos : Positive ls) {b : ℕ} {rest : List (Resting κ)}
    (hpush : push k n ls = ⟨k, b⟩ :: rest) :
    settle q ⟨k, b⟩ rest = if n - q = 0 then ls else push k (n - q) ls := by
  rcases push_cases k n ls with ⟨c, ls', rfl, h⟩ | ⟨hhead, h⟩
  · obtain ⟨hb, rfl⟩ := List.cons.inj (h.symm.trans hpush)
    obtain rfl : n + c = b := congrArg Resting.qty hb
    have hc : 0 < c := hpos _ List.mem_cons_self
    rw [settle_of_lt (r := ⟨k, n + c⟩) (by dsimp only; omega)]
    split_ifs with hzero
    · rw [show n + c - q = c by omega]
    · rw [push_self, show n + c - q = n - q + c by omega]
  · obtain ⟨hb, rfl⟩ := List.cons.inj (h.symm.trans hpush)
    obtain rfl : n = b := congrArg Resting.qty hb
    unfold settle
    split_ifs with hzero
    · rfl
    · rw [push_of_head hhead]

/-- Settling the first order takes its fill off its level, or the order out. -/
theorem aggregate_settle (key : α → κ) (q : ℕ) (r : Resting α) (rs : List (Resting α)) :
    aggregate key (settle q r rs) = if r.qty - q = 0 then aggregate key rs
      else push (key r.terms) (r.qty - q) (aggregate key rs) := by
  unfold settle
  split_ifs <;> rfl

variable (hits) in
/-- **Sweeping the groups is sweeping the orders, grouped**: what is left and what stays, and what
has been traded with each group. -/
theorem sweep_aggregate (key : α → κ) : ∀ (q : ℕ) {rs : List (Resting α)}, Positive rs →
    (sweep hits q (aggregate key rs)).left = (sweep (fun x => hits (key x)) q rs).left ∧
      (sweep hits q (aggregate key rs)).queue =
        aggregate key (sweep (fun x => hits (key x)) q rs).queue ∧
      filled (sweep hits q (aggregate key rs)).fills =
        aggregate key (filled (sweep (fun x => hits (key x)) q rs).fills)
  | q, [], _ => ⟨rfl, rfl, rfl⟩
  | q, r :: rs, hpos => by
      have hrest : Positive rs := fun x hx => hpos x (List.mem_cons_of_mem _ hx)
      by_cases hhit : hits (key r.terms)
      · rcases Nat.lt_or_ge r.qty q with hlt | hle
        · obtain ⟨ihleft, ihqueue, ihfills⟩ := sweep_aggregate key (q - r.qty) hrest
          have hsweep : sweep (fun x => hits (key x)) q (r :: rs) = _ := sweep_cons_of_lt hhit hlt
          rw [hsweep, aggregate]
          rcases push_cases (key r.terms) r.qty (aggregate key rs) with
            ⟨b, ls, hls, hpush⟩ | ⟨hhead, hpush⟩
          · obtain ⟨fills, hfills⟩ := sweep_fills_of_hits (q := q - r.qty) hhit b ls
            rw [hls] at ihleft ihqueue ihfills
            rw [hpush, sweep_add hhit hlt hfills]
            refine ⟨ihleft, ihqueue, ?_⟩
            rw [hfills] at ihfills
            show _ = push (key r.terms) r.qty (aggregate key (filled _))
            rw [← ihfills]
            exact (push_self _ _ _ _).symm
          · rw [hpush, sweep_cons_of_lt (r := ⟨key r.terms, r.qty⟩) hhit hlt]
            refine ⟨ihleft, ihqueue, ?_⟩
            show _ = push (key r.terms) r.qty (aggregate key (filled _))
            rw [← ihfills, push_of_head (sweep_fills_head hhead)]
            rfl
        · obtain ⟨b, rest, hpush⟩ : ∃ b rest, push (key r.terms) r.qty (aggregate key rs) =
              ⟨key r.terms, b⟩ :: rest ∧ r.qty ≤ b := by
            rcases push_cases (key r.terms) r.qty (aggregate key rs) with
              ⟨b, ls, -, hpush⟩ | ⟨-, hpush⟩
            · exact ⟨_, _, hpush, Nat.le_add_right _ _⟩
            · exact ⟨_, _, hpush, le_rfl⟩
          have hsweep : sweep (fun x => hits (key x)) q (r :: rs) = _ := sweep_cons_of_le hhit hle
          rw [hsweep, aggregate, hpush.1,
            sweep_cons_of_le (r := ⟨key r.terms, b⟩) hhit (hle.trans hpush.2)]
          refine ⟨rfl, ?_, rfl⟩
          rw [aggregate_settle]
          exact settle_push hle (hrest.aggregate key) hpush.1
      · have hstop : ∀ x ∈ (r :: rs).head?, ¬ hits (key x.terms) := by
          rintro _ ⟨⟩
          exact hhit
        have hsweep : sweep (fun x => hits (key x)) q (r :: rs) = _ := sweep_of_not_hits hstop
        have hstop' : ∀ x ∈ (aggregate key (r :: rs)).head?, ¬ hits x.terms := by
          rw [aggregate]
          rcases push_cases (key r.terms) r.qty (aggregate key rs) with
            ⟨b, ls, -, hpush⟩ | ⟨-, hpush⟩
          all_goals
            rw [hpush]
            rintro _ ⟨⟩
            exact hhit
        rw [hsweep, sweep_of_not_hits hstop']
        exact ⟨rfl, rfl, rfl⟩

end sweep

/-! ## How much a sweep trades -/

section liquidity

variable {hits : α → Prop} [DecidablePred hits]

/-- What is open in the orders that are hit. -/
def hitQty (hits : α → Prop) [DecidablePred hits] (rs : List (Resting α)) : ℕ :=
  ((rs.filter fun r => decide (hits r.terms)).map Resting.qty).sum

/-- **A sweep trades all there is**: the incoming quantity, or everything that it hits. -/
theorem sum_sweep_fills : ∀ (q : ℕ) {rs : List (Resting α)}, InPriority hits rs →
    ((sweep hits q rs).fills.map Prod.snd).sum = min q (hitQty hits rs)
  | q, [], _ => (Nat.min_zero q).symm
  | q, r :: rs, hsorted => by
      by_cases hhit : hits r.terms
      · have hqty : hitQty hits (r :: rs) = r.qty + hitQty hits rs := by
          simp [hitQty, hhit]
        rw [hqty]
        rcases Nat.lt_or_ge r.qty q with hlt | hle
        · rw [sweep_cons_of_lt hhit hlt, List.map_cons, List.sum_cons,
            sum_sweep_fills (q - r.qty) hsorted.tail]
          omega
        · rw [sweep_cons_of_le hhit hle, List.map_singleton, List.sum_singleton]
          omega
      · have hnone : hitQty hits (r :: rs) = 0 := by
          unfold hitQty
          rw [List.filter_eq_nil_iff.mpr fun x hx => by simpa using hsorted.not_hits hhit x hx]
          rfl
        rw [sweep_of_forall_not_hits (hsorted.not_hits hhit), hnone, Nat.min_zero]
        rfl

variable (hits) in
/-- What is left of it is the rest. -/
theorem sweep_left_add (q : ℕ) (rs : List (Resting α)) :
    ((sweep hits q rs).fills.map Prod.snd).sum + (sweep hits q rs).left.getD 0 = q := by
  rcases hleft : (sweep hits q rs).left with _ | q'
  · obtain ⟨pre, last, rest, t, -, hfills, -, -, hsum, -⟩ := sweep_of_exhausted hleft
    rw [hfills]
    simpa [List.map_map, Function.comp_def] using hsum
  · obtain ⟨pre, rest, -, hfills, -, hsum, -⟩ := sweep_of_left hleft
    rw [hfills]
    simpa [List.map_map, Function.comp_def] using hsum

end liquidity

/-! ## Filing into groups -/

section file

variable {before : κ → κ → Prop} [DecidableRel before]

/-- Add a quantity to the group of a key, which may be a new one, behind every group that the key
does not precede. -/
def deepen (before : κ → κ → Prop) [DecidableRel before] (k : κ) (q : ℕ) :
    List (Resting κ) → List (Resting κ)
  | [] => [⟨k, q⟩]
  | l :: ls =>
      if before k l.terms then ⟨k, q⟩ :: l :: ls
      else if l.terms = k then ⟨k, l.qty + q⟩ :: ls
      else l :: deepen before k q ls

/-- The first group after adding to one. -/
theorem deepen_head {k k' : κ} {q : ℕ} (hne : k ≠ k') : ∀ {ls : List (Resting κ)},
    (∀ l ∈ ls.head?, l.terms ≠ k') → ∀ l ∈ (deepen before k q ls).head?, l.terms ≠ k'
  | [], _ => by
      rintro _ ⟨⟩
      exact hne
  | l :: ls, h => by
      unfold deepen
      split_ifs
      · rintro _ ⟨⟩
        exact hne
      · rintro _ ⟨⟩
        exact hne
      · exact fun x hx => h x hx

/-- Adding to a group behind the first one. -/
theorem deepen_push {k k' : κ} {q n : ℕ} (hbefore : ¬ before k k') (hne : k ≠ k')
    (ls : List (Resting κ)) :
    deepen before k q (push k' n ls) = push k' n (deepen before k q ls) := by
  have hcons : ∀ b ls', deepen before k q (⟨k', b⟩ :: ls') = ⟨k', b⟩ :: deepen before k q ls' := by
    intro b ls'
    rw [deepen, if_neg hbefore, if_neg (Ne.symm hne)]
  rcases push_cases k' n ls with ⟨b, ls', rfl, hpush⟩ | ⟨hhead, hpush⟩
  · rw [hpush, hcons, hcons, push_self]
  · rw [hpush, hcons, push_of_head (deepen_head hne hhead)]

/-- A key that precedes the first group gets a group of its own. -/
theorem deepen_of_before {k : κ} {q : ℕ} {ls : List (Resting κ)}
    (h : ∀ l ∈ ls.head?, before k l.terms) : deepen before k q ls = ⟨k, q⟩ :: ls := by
  cases ls with
  | nil => rfl
  | cons l ls => exact if_pos (h l rfl)

/-- Adding to the first group. -/
theorem deepen_push_self {k : κ} {q n : ℕ} {ls : List (Resting κ)} (hirrefl : ¬ before k k)
    (hhead : ∀ l ∈ ls.head?, l.terms = k ∨ before k l.terms) :
    deepen before k q (push k n ls) = push k n (deepen before k q ls) := by
  have hcons : ∀ b ls', deepen before k q (⟨k, b⟩ :: ls') = ⟨k, b + q⟩ :: ls' := by
    intro b ls'
    rw [deepen, if_neg hirrefl, if_pos rfl]
  rcases push_cases k n ls with ⟨b, ls', rfl, hpush⟩ | ⟨hne, hpush⟩
  · rw [hpush, hcons, hcons, push_self, Nat.add_assoc]
  · have hbefore : ∀ l ∈ ls.head?, before k l.terms := fun l hl =>
      (hhead l hl).resolve_left (hne l hl)
    rw [hpush, hcons, deepen_of_before hbefore, push_self]

/-- **Filing an order is adding it to its group**, in a queue in which no order stands behind one
that it precedes. -/
theorem aggregate_orderedInsert (key : α → κ) (hirrefl : ∀ k, ¬ before k k)
    (htotal : ∀ k k', ¬ before k k' → k = k' ∨ before k' k) {x : α} {q : ℕ} :
    ∀ {own : List (Resting α)},
      (own.Pairwise fun r r' => ¬ before (key r'.terms) (key r.terms)) →
      aggregate key (own.orderedInsert (fun r r' => before (key r.terms) (key r'.terms)) ⟨x, q⟩) =
        deepen before (key x) q (aggregate key own)
  | [], _ => rfl
  | r :: own, hsorted => by
      obtain ⟨hr, hown⟩ := List.pairwise_cons.mp hsorted
      rw [List.orderedInsert_cons]
      split_ifs with hbefore
      · have hne : key r.terms ≠ key x := fun heq => hirrefl _ (heq ▸ hbefore)
        rw [aggregate, aggregate]
        rcases push_cases (key r.terms) r.qty (aggregate key own) with
          ⟨b, ls, -, hpush⟩ | ⟨-, hpush⟩
        all_goals
          rw [hpush, push_of_head (by rintro _ ⟨⟩; exact hne),
            deepen_of_before (by rintro _ ⟨⟩; exact hbefore)]
      · rw [aggregate, aggregate, aggregate_orderedInsert key hirrefl htotal hown]
        by_cases heq : key x = key r.terms
        · rw [← heq]
          refine (deepen_push_self (hirrefl _) ?_).symm
          intro l hl
          obtain ⟨r', hr', hkey⟩ := exists_of_mem_aggregate (List.mem_of_mem_head? hl)
          rw [← hkey, heq]
          exact htotal _ _ (hr r' hr')
        · exact (deepen_push hbefore heq _).symm

end file

/-! ## Taking an order out of its group -/

section thin

/-- Take a quantity out of the group of a key. A group with nothing open is dropped. -/
def thin (k : κ) (q : ℕ) : List (Resting κ) → List (Resting κ)
  | [] => []
  | l :: ls => if l.terms = k then settle q l ls else l :: thin k q ls

variable {k k' : κ} {q n : ℕ}

/-- A level that is thinned out has the terms of one that was there. -/
theorem mem_thin {l : Resting κ} : ∀ {ls : List (Resting κ)}, l ∈ thin k q ls →
    ∃ l' ∈ ls, l'.terms = l.terms
  | l' :: ls, h => by
      unfold thin settle at h
      split_ifs at h
      · exact ⟨l, List.mem_cons_of_mem _ h, rfl⟩
      · rcases List.mem_cons.mp h with rfl | h
        · exact ⟨l', List.mem_cons_self, rfl⟩
        · exact ⟨l, List.mem_cons_of_mem _ h, rfl⟩
      · rcases List.mem_cons.mp h with rfl | h
        · exact ⟨l, List.mem_cons_self, rfl⟩
        · obtain ⟨l', hl', hterms⟩ := mem_thin h
          exact ⟨l', List.mem_cons_of_mem _ hl', hterms⟩

/-- Taking out what has just been pushed. -/
theorem thin_push_same {ls : List (Resting κ)} (hpos : Positive ls) :
    thin k q (push k q ls) = ls := by
  rcases push_cases k q ls with ⟨b, ls', rfl, hpush⟩ | ⟨-, hpush⟩
  · have hb : 0 < b := hpos _ List.mem_cons_self
    rw [hpush, thin, if_pos rfl, settle_of_lt (r := ⟨k, q + b⟩) (by dsimp only; omega),
      Nat.add_sub_cancel_left]
  · rw [hpush, thin, if_pos rfl]
    exact settle_of_le (r := ⟨k, q⟩) le_rfl

/-- Another group is pushed. -/
theorem thin_push_of_ne (hne : k' ≠ k) {ls : List (Resting κ)} (honce : ∀ l ∈ ls.tail, l.terms ≠ k') :
    thin k q (push k' n ls) = push k' n (thin k q ls) := by
  have hcons : ∀ b ls', thin k q (⟨k', b⟩ :: ls') = ⟨k', b⟩ :: thin k q ls' := fun b ls' =>
    if_neg hne
  rcases push_cases k' n ls with ⟨b, ls', rfl, hpush⟩ | ⟨hhead, hpush⟩
  · rw [hpush, hcons, hcons, push_self]
  · have hall : ∀ l ∈ ls, l.terms ≠ k' := by
      intro l hl
      cases ls with
      | nil => cases hl
      | cons l' ls =>
          rcases List.mem_cons.mp hl with rfl | hl
          · exact hhead l rfl
          · exact honce l hl
    rw [hpush, hcons, push_of_head]
    intro l hl
    obtain ⟨l', hl', hterms⟩ := mem_thin (List.mem_of_mem_head? hl)
    rw [← hterms]
    exact hall l' hl'

/-- The group itself is pushed, and holds at least what is taken out. -/
theorem thin_push_of_le {b : ℕ} {ls : List (Resting κ)} (hle : q ≤ b) (hn : 0 < n)
    (honce : ∀ l ∈ ls, l.terms ≠ k) :
    thin k q (push k n (⟨k, b⟩ :: ls)) = push k n (thin k q (⟨k, b⟩ :: ls)) := by
  rw [push_self, thin, if_pos rfl, thin, if_pos rfl, settle_of_lt (by dsimp only; omega)]
  unfold settle
  dsimp only
  split_ifs with hzero
  · rw [push_of_head fun l hl => honce l (List.mem_of_mem_head? hl),
      show n + b - q = n by omega]
  · rw [push_self, show n + b - q = n + (b - q) by omega]

section sorted

variable {key : α → κ} {before : κ → κ → Prop}

/-- A key that comes no later than any other has at most the first group. -/
theorem aggregate_tail_ne (htotal : ∀ k k', ¬ before k k' → k = k' ∨ before k' k) :
    ∀ {rs : List (Resting α)}, (rs.Pairwise fun r r' => ¬ before (key r'.terms) (key r.terms)) →
      (∀ r ∈ rs, ¬ before (key r.terms) k') → ∀ l ∈ (aggregate key rs).tail, l.terms ≠ k'
  | [], _, _ => fun _ h => absurd h List.not_mem_nil
  | r :: rs, hsorted, hlast => by
      obtain ⟨hr, hrs⟩ := List.pairwise_cons.mp hsorted
      have ih := aggregate_tail_ne htotal hrs fun x hx => hlast x (List.mem_cons_of_mem _ hx)
      rw [aggregate]
      rcases push_cases (key r.terms) r.qty (aggregate key rs) with
        ⟨b, ls, hls, hpush⟩ | ⟨hhead, hpush⟩
      · rw [hls] at ih
        rw [hpush]
        exact ih
      · rw [hpush, List.tail_cons]
        intro l hl heq
        obtain ⟨r', hr', hkey⟩ := exists_of_mem_aggregate hl
        -- the key is that of the first order, which then begins the groups
        have hfirst : key r.terms = k' := by
          rcases htotal _ _ (hlast r List.mem_cons_self) with h | h
          · exact h
          · exact absurd (hkey.trans heq ▸ h) (hr r' hr')
        cases hls : aggregate key rs with
        | nil =>
            rw [hls] at hl
            cases hl
        | cons l' ls =>
            rw [hls] at hl ih hhead
            rcases List.mem_cons.mp hl with rfl | hl
            · exact hhead l rfl (heq.trans hfirst.symm)
            · exact ih l hl heq

/-- Orders of one key, and what comes behind the last of them. -/
theorem aggregate_same {x : Resting α} (rest : List (Resting α)) :
    ∀ {pre : List (Resting α)}, (∀ r ∈ pre, key r.terms = key x.terms) →
      ∃ b ls, aggregate key (pre ++ x :: rest) = ⟨key x.terms, b⟩ :: ls ∧ x.qty ≤ b
  | [], _ => by
      rw [List.nil_append, aggregate]
      rcases push_cases (key x.terms) x.qty (aggregate key rest) with ⟨b, ls, -, hpush⟩ | ⟨-, hpush⟩
      · exact ⟨_, _, hpush, Nat.le_add_right _ _⟩
      · exact ⟨_, _, hpush, le_rfl⟩
  | r :: pre, hkey => by
      obtain ⟨b, ls, hagg, hle⟩ :=
        aggregate_same rest fun y hy => hkey y (List.mem_cons_of_mem _ hy)
      rw [List.cons_append, aggregate, hagg, hkey r List.mem_cons_self, push_self]
      exact ⟨_, _, rfl, hle.trans (Nat.le_add_left _ _)⟩

/-- **Taking an order out is taking its quantity from its group.** -/
theorem aggregate_remove (htotal : ∀ k k', ¬ before k k' → k = k' ∨ before k' k)
    {x : Resting α} {rest : List (Resting α)} : ∀ {pre : List (Resting α)},
      ((pre ++ x :: rest).Pairwise fun r r' => ¬ before (key r'.terms) (key r.terms)) →
      Positive (pre ++ x :: rest) →
      aggregate key (pre ++ rest) =
        thin (key x.terms) x.qty (aggregate key (pre ++ x :: rest))
  | [], _, hpos => by
      have hrest : Positive rest := fun r hr => hpos r (List.mem_cons_of_mem _ hr)
      exact (thin_push_same (hrest.aggregate key)).symm
  | r :: pre, hsorted, hpos => by
      obtain ⟨hr, hrs⟩ := List.pairwise_cons.mp hsorted
      have ih := aggregate_remove htotal hrs fun y hy => hpos y (List.mem_cons_of_mem _ hy)
      rw [List.cons_append, List.cons_append, aggregate, aggregate, ih]
      by_cases heq : key r.terms = key x.terms
      · -- everything between the two has the key
        have hsame : ∀ y ∈ pre, key y.terms = key x.terms := by
          intro y hy
          have hyx : ¬ before (key x.terms) (key y.terms) :=
            (List.pairwise_append.mp hrs).2.2 y hy x List.mem_cons_self
          have hry := hr y (List.mem_append_left _ hy)
          rw [heq] at hry
          exact (htotal _ _ hry).resolve_right hyx
        obtain ⟨b, ls, hagg, hle⟩ := aggregate_same rest hsame
        have honce : ∀ l ∈ (aggregate key (pre ++ x :: rest)).tail, l.terms ≠ key r.terms :=
          aggregate_tail_ne htotal hrs hr
        rw [hagg, heq] at honce
        rw [hagg, heq]
        exact (thin_push_of_le hle (hpos r List.mem_cons_self) honce).symm
      · exact (thin_push_of_ne heq (aggregate_tail_ne htotal hrs hr)).symm

end sorted

end thin

end FlowManager.Lib.PriceTime
