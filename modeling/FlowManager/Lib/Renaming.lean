import FlowManager.Lib.Aggregate

/-!
# Queues under other names

Matching reads of the terms of an order only whom it hits, and filing only whom it precedes. So a
change of the terms that keeps these two, for the orders that are there, changes nothing else:
sweeping, filing and grouping commute with it.
-/

namespace FlowManager.Lib.PriceTime

variable {α β : Type} {f : α → β} {q : ℕ} {rs : List (Resting α)}

section sweep

variable {hits hits' : α → Prop} [DecidablePred hits] [DecidablePred hits']

/-- A sweep asks of the orders that are there whether it hits them. -/
theorem sweep_congr_mem (h : ∀ r ∈ rs, hits r.terms ↔ hits' r.terms) :
    sweep hits q rs = sweep hits' q rs := by
  induction rs generalizing q with
  | nil => rfl
  | cons r rs ih =>
      obtain ⟨hr, hrs⟩ := List.forall_mem_cons.mp h
      unfold sweep
      rw [ih hrs]
      simp only [hr]

/-- **A sweep under other names.** -/
theorem sweep_rename {hits' : β → Prop} [DecidablePred hits']
    (h : ∀ r ∈ rs, hits' (f r.terms) ↔ hits r.terms) :
    sweep hits' q (rs.map (Resting.map f)) =
      ⟨(sweep hits q rs).fills.map fun p => (f p.1, p.2), (sweep hits q rs).left,
        (sweep hits q rs).queue.map (Resting.map f)⟩ := by
  rw [sweep_map, sweep_congr_mem h]

end sweep

/-- **Filing under other names.** -/
theorem file_rename {before : α → α → Prop} {before' : β → β → Prop} [DecidableRel before]
    [DecidableRel before'] {x : α} {left : Option ℕ}
    (h : ∀ r ∈ rs, before' (f x) (f r.terms) ↔ before x r.terms) :
    file before' (f x) left (rs.map (Resting.map f)) =
      (file before x left rs).map (Resting.map f) := by
  cases left with
  | none => rfl
  | some q =>
      unfold file
      dsimp only
      induction rs with
      | nil => rfl
      | cons r rs ih =>
          obtain ⟨hr, hrs⟩ := List.forall_mem_cons.mp h
          rw [List.map_cons, List.orderedInsert_cons, List.orderedInsert_cons, ih hrs]
          simp only [Resting.map_terms, hr]
          split_ifs <;> rfl

section aggregate

variable {κ κ' : Type} [DecidableEq κ] [DecidableEq κ'] {key : α → κ} {key' : β → κ'} {g : κ → κ'}

/-- **Grouping under other names**, where the keys that are there keep different names. -/
theorem aggregate_rename (hkey : ∀ r ∈ rs, key' (f r.terms) = g (key r.terms))
    (hinj : ∀ r ∈ rs, ∀ r' ∈ rs, g (key r.terms) = g (key r'.terms) → key r.terms = key r'.terms) :
    aggregate key' (rs.map (Resting.map f)) = (aggregate key rs).map (Resting.map g) := by
  induction rs with
  | nil => rfl
  | cons r rs ih =>
      obtain ⟨hr, hrs⟩ := List.forall_mem_cons.mp hkey
      have hrest := ih hrs fun r₁ h₁ r₂ h₂ =>
        hinj r₁ (List.mem_cons_of_mem _ h₁) r₂ (List.mem_cons_of_mem _ h₂)
      rw [List.map_cons, aggregate, aggregate, hrest, Resting.map_terms, hr, Resting.map_qty]
      rcases push_cases (key r.terms) r.qty (aggregate key rs) with
        ⟨b, ls, hls, hpush⟩ | ⟨hhead, hpush⟩
      · rw [hpush, hls, List.map_cons]
        exact push_self _ _ _ _
      · rw [hpush, List.map_cons]
        refine push_of_head fun l hl heq => ?_
        rw [List.head?_map, Option.mem_def, Option.map_eq_some_iff] at hl
        obtain ⟨l', hl', rfl⟩ := hl
        obtain ⟨r', hr', hterms⟩ := exists_of_mem_aggregate (List.mem_of_mem_head? hl')
        refine hhead l' hl' ?_
        rw [← hterms]
        refine hinj r' (List.mem_cons_of_mem _ hr') r List.mem_cons_self ?_
        rw [hterms]
        exact heq

end aggregate

end FlowManager.Lib.PriceTime
