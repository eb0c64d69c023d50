import FlowManager.Lib.Renaming

/-!
# Orders that are sent in parts

Two parts of an order, one behind the other, are the order, once neighbours with one key are
grouped. A quantity that comes in trades the same whether it comes at once or in two parts
(`sweep_parts`), and what rests of the parts rests where the order would (`file_parts`). Grouping
commutes with filing an order of another key (`file_aggregate`) and with taking keys out
(`filter_aggregate`), so the parts may stay parts.
-/

namespace FlowManager.Lib.PriceTime

section aggregate

variable {α β κ κ' : Type} [DecidableEq κ] [DecidableEq κ'] {key key' : α → κ} {rs : List (Resting α)}

/-- Two pushes of one key are one push of the sum. -/
theorem push_push (k : κ) (a b : ℕ) (ls : List (Resting κ)) :
    push k a (push k b ls) = push k (a + b) ls := by
  rcases push_cases k b ls with ⟨c, ls', rfl, hpush⟩ | ⟨hhead, hpush⟩
  · rw [hpush, push_self, push_self, Nat.add_assoc]
  · rw [hpush, push_self, push_of_head hhead]

/-- A push, seen under a coarser key, is a push. -/
theorem aggregate_push (g : κ → κ') (k : κ) (q : ℕ) (ls : List (Resting κ)) :
    aggregate g (push k q ls) = push (g k) q (aggregate g ls) := by
  rcases push_cases k q ls with ⟨b, ls', rfl, hpush⟩ | ⟨-, hpush⟩
  · rw [hpush, aggregate, aggregate, push_push]
  · rw [hpush, aggregate]

/-- **Grouping groups.** -/
theorem aggregate_aggregate (g : κ → κ') (key : α → κ) : ∀ rs : List (Resting α),
    aggregate g (aggregate key rs) = aggregate (fun x => g (key x)) rs
  | [] => rfl
  | r :: rs => by rw [aggregate, aggregate_push, aggregate_aggregate g key rs, aggregate]

/-- Aggregating mapped orders is aggregating them by what they map to. -/
theorem aggregate_map (f : β → α) (key : α → κ) : ∀ rs : List (Resting β),
    aggregate key (rs.map (Resting.map f)) = aggregate (fun x => key (f x)) rs
  | [] => rfl
  | r :: rs => by
      rw [List.map_cons, aggregate, aggregate, aggregate_map f key rs, Resting.map_terms,
        Resting.map_qty]

/-- Keys that agree on the orders of a list give it the same levels. -/
theorem aggregate_congr_mem : ∀ {rs : List (Resting α)},
    (∀ r ∈ rs, key r.terms = key' r.terms) → aggregate key rs = aggregate key' rs
  | [], _ => rfl
  | r :: rs, h => by
      obtain ⟨hr, hrs⟩ := List.forall_mem_cons.mp h
      rw [aggregate, aggregate, hr, aggregate_congr_mem hrs]

/-- Every order is in a group. -/
theorem exists_mem_aggregate (key : α → κ) {r : Resting α} : ∀ {rs : List (Resting α)}, r ∈ rs →
    ∃ l ∈ aggregate key rs, l.terms = key r.terms
  | r' :: rs, h => by
      have hrest : r ∈ rs → ∃ l ∈ aggregate key rs, l.terms = key r.terms := exists_mem_aggregate key
      rw [aggregate]
      rcases push_cases (key r'.terms) r'.qty (aggregate key rs) with
        ⟨b, ls, hls, hpush⟩ | ⟨-, hpush⟩
      · rw [hpush]
        rcases List.mem_cons.mp h with rfl | hr
        · exact ⟨_, List.mem_cons_self, rfl⟩
        · obtain ⟨l, hl, hterms⟩ := hrest hr
          rw [hls] at hl
          rcases List.mem_cons.mp hl with rfl | hl
          · exact ⟨_, List.mem_cons_self, hterms⟩
          · exact ⟨l, List.mem_cons_of_mem _ hl, hterms⟩
      · rw [hpush]
        rcases List.mem_cons.mp h with rfl | hr
        · exact ⟨_, List.mem_cons_self, rfl⟩
        · obtain ⟨l, hl, hterms⟩ := hrest hr
          exact ⟨l, List.mem_cons_of_mem _ hl, hterms⟩

/-- Orders of different keys are groups already. -/
theorem aggregate_id_of_nodup : ∀ {ls : List (Resting κ)}, (ls.map Resting.terms).Nodup →
    aggregate id ls = ls
  | [], _ => rfl
  | l :: ls, h => by
      rw [List.map_cons, List.nodup_cons] at h
      rw [aggregate, aggregate_id_of_nodup h.2]
      refine push_of_head fun l' hl' heq => h.1 ?_
      have hmem := List.mem_map_of_mem (f := Resting.terms) (List.mem_of_mem_head? hl')
      rwa [heq] at hmem

/-- **Taking keys out commutes with grouping**, where no key has two groups. -/
theorem filter_aggregate {p : α → Prop} {p' : κ → Prop} [DecidablePred p] [DecidablePred p'] :
    ∀ {rs : List (Resting α)}, ((aggregate key rs).map Resting.terms).Nodup →
    (∀ r ∈ rs, p' (key r.terms) ↔ p r.terms) →
    (aggregate key rs).filter (fun l => decide (p' l.terms)) =
      aggregate key (rs.filter fun r => decide (p r.terms))
  | [], _, _ => rfl
  | r :: rs, hnodup, h => by
      obtain ⟨hr, hrs⟩ := List.forall_mem_cons.mp h
      rw [aggregate] at hnodup
      have hgroup : ∀ (q : ℕ) (ls : List (Resting κ)),
          (⟨key r.terms, q⟩ :: ls).filter (fun l => decide (p' l.terms)) =
            if p r.terms then ⟨key r.terms, q⟩ :: ls.filter (fun l => decide (p' l.terms))
            else ls.filter fun l => decide (p' l.terms) := by
        intro q ls
        simp only [List.filter_cons, decide_eq_true_iff, hr]
      rw [aggregate, List.filter_cons]
      simp only [decide_eq_true_iff]
      rcases push_cases (key r.terms) r.qty (aggregate key rs) with
        ⟨b, ls, hls, hpush⟩ | ⟨hhead, hpush⟩
      · rw [hpush, List.map_cons] at hnodup
        have hterms : ((aggregate key rs).map Resting.terms).Nodup := by
          rw [hls, List.map_cons]
          exact hnodup
        have ih := filter_aggregate hterms hrs
        rw [hls, hgroup] at ih
        rw [hpush, hgroup]
        split_ifs at ih ⊢
        · rw [aggregate, ← ih, push_self]
        · exact ih
      · rw [hpush, List.map_cons, List.nodup_cons] at hnodup
        have ih := filter_aggregate hnodup.2 hrs
        rw [hpush, hgroup]
        split_ifs
        · rw [aggregate, ← ih, push_of_head]
          intro l hl heq
          have hmem := List.mem_of_mem_filter (List.mem_of_mem_head? hl)
          exact hnodup.1 (List.mem_map.mpr ⟨l, hmem, heq⟩)
        · exact ih

end aggregate

/-! ## Filing -/

section file

variable {α κ : Type} [DecidableEq κ] {key : α → κ} {before : α → α → Prop}
  {before' : κ → κ → Prop} [DecidableRel before] [DecidableRel before']

/-- What is left of an order goes to its place in the queue. -/
theorem file_some (x : α) (q : ℕ) (own : List (Resting α)) : file before x (some q) own =
    own.orderedInsert (fun r r' => before r.terms r'.terms) ⟨x, q⟩ := rfl

/-- Filing behind the first group. -/
theorem file_push {k x : κ} {q n : ℕ} {ls : List (Resting κ)} (hafter : ¬ before' x k)
    (hne : x ≠ k) :
    file before' x (some q) (push k n ls) = push k n (file before' x (some q) ls) := by
  rcases push_cases k n ls with ⟨b, ls', rfl, hpush⟩ | ⟨hhead, hpush⟩
  · rw [hpush, file_some, file_some, List.orderedInsert_cons, if_neg hafter,
      List.orderedInsert_cons, if_neg hafter, push_self]
  · rw [hpush, file_some, List.orderedInsert_cons, if_neg hafter, ← file_some]
    refine (push_of_head fun l hl heq => ?_).symm
    cases ls with
    | nil =>
        cases hl
        exact hne heq
    | cons l' ls =>
        rw [file_some, List.orderedInsert_cons] at hl
        split_ifs at hl
        · cases hl
          exact hne heq
        · cases hl
          exact hhead _ rfl heq

/-- **Filing an order of a new key commutes with grouping.** -/
theorem file_aggregate {x : α} : ∀ {left : Option ℕ} {own : List (Resting α)},
    (∀ r ∈ own, before' (key x) (key r.terms) ↔ before x r.terms) →
    (∀ r ∈ own, key x ≠ key r.terms) →
    file before' (key x) left (aggregate key own) = aggregate key (file before x left own)
  | none, _, _, _ => rfl
  | some _, [], _, _ => rfl
  | some q, r :: own, hbefore, hnew => by
      obtain ⟨hr, hown⟩ := List.forall_mem_cons.mp hbefore
      obtain ⟨hne, hnew⟩ := List.forall_mem_cons.mp hnew
      rw [file_some x, List.orderedInsert_cons]
      split_ifs with hx
      · rw [aggregate, aggregate, aggregate]
        rcases push_cases (key r.terms) r.qty (aggregate key own) with
          ⟨b, ls, -, hpush⟩ | ⟨-, hpush⟩
        · rw [hpush, file_some, List.orderedInsert_cons, if_pos (hr.mpr hx), push_of_head]
          rintro _ ⟨⟩
          exact hne.symm
        · rw [hpush, file_some, List.orderedInsert_cons, if_pos (hr.mpr hx), push_of_head]
          rintro _ ⟨⟩
          exact hne.symm
      · rw [aggregate, aggregate, file_push (mt hr.mp hx) hne, file_aggregate hown hnew, file_some]

/-- **What rests of two parts rests where the order would.** -/
theorem file_parts {x y : α} {a b : ℕ} (hxy : key x = key y) (hself : ¬ before y x) :
    ∀ {own : List (Resting α)},
    (∀ r ∈ own, before' (key x) (key r.terms) ↔ before x r.terms) →
    (∀ r ∈ own, before y r.terms ↔ before x r.terms) → (∀ r ∈ own, key x ≠ key r.terms) →
    file before' (key x) (some (a + b)) (aggregate key own) =
      aggregate key (file before y (some b) (file before x (some a) own))
  | [], _, _, _ => by
      rw [file_some x, List.orderedInsert_nil, file_some y, List.orderedInsert_cons, if_neg hself,
        List.orderedInsert_nil, aggregate, aggregate, aggregate, ← hxy, push_push]
      rfl
  | r :: own, hbefore, hsame, hnew => by
      have hfile : file before' (key x) (some (a + b)) (aggregate key (r :: own)) =
          aggregate key (file before x (some (a + b)) (r :: own)) := file_aggregate hbefore hnew
      obtain ⟨hr, hown⟩ := List.forall_mem_cons.mp hbefore
      obtain ⟨hry, hsame⟩ := List.forall_mem_cons.mp hsame
      obtain ⟨hne, hnew⟩ := List.forall_mem_cons.mp hnew
      rw [file_some x, List.orderedInsert_cons]
      split_ifs with hx
      · rw [hfile, file_some x, List.orderedInsert_cons, if_pos hx, file_some y,
          List.orderedInsert_cons, if_neg hself, List.orderedInsert_cons, if_pos (hry.mpr hx),
          aggregate, aggregate, aggregate, aggregate, aggregate, ← hxy, push_push]
      · rw [file_some y, List.orderedInsert_cons, if_neg (mt hry.mp hx), aggregate, aggregate,
          file_push (mt hr.mp hx) hne, file_parts hxy hself hown hsame hnew]
        rfl

end file

/-! ## Sweeping -/

section sweep

variable {α : Type} {hits : α → Prop} [DecidablePred hits] {b : ℕ}

variable (hits) in
/-- **A quantity in two parts**: the second part goes on where the first has stopped, and together
they have traded with everyone what the whole would have. -/
theorem sweep_parts [DecidableEq α] (hb : 0 < b) : ∀ (a : ℕ) (rs : List (Resting α)),
    (sweep hits (a + b) rs).queue = (sweep hits b (sweep hits a rs).queue).queue ∧
      (sweep hits (a + b) rs).left = (sweep hits a rs).left.elim
        (sweep hits b (sweep hits a rs).queue).left (fun a' => some (a' + b)) ∧
      aggregate id (filled (sweep hits (a + b) rs).fills) =
        aggregate id (filled ((sweep hits a rs).fills ++
          (sweep hits b (sweep hits a rs).queue).fills))
  | a, [] => ⟨rfl, rfl, rfl⟩
  | a, r :: rs => by
      by_cases hhit : hits r.terms
      · rcases Nat.lt_or_ge r.qty a with hlt | hle
        · have hsub : a + b - r.qty = a - r.qty + b := by omega
          obtain ⟨hqueue, hleft, hfills⟩ := sweep_parts hb (a - r.qty) rs
          rw [sweep_cons_of_lt hhit (Nat.lt_add_right b hlt), sweep_cons_of_lt hhit hlt, hsub]
          exact ⟨hqueue, hleft, congrArg (push r.terms r.qty) hfills⟩
        · rw [sweep_cons_of_le hhit hle]
          rcases hle.eq_or_lt with rfl | hlt
          · rw [settle_of_le le_rfl, sweep_cons_of_lt hhit (Nat.lt_add_of_pos_right hb),
              Nat.add_sub_cancel_left]
            exact ⟨rfl, rfl, rfl⟩
          · rw [settle_of_lt hlt]
            rcases Nat.lt_or_ge (r.qty - a) b with hmore | hdone
            · have hsub : a + b - r.qty = b - (r.qty - a) := by omega
              rw [sweep_cons_of_lt (r := ⟨r.terms, r.qty - a⟩) hhit hmore,
                sweep_cons_of_lt hhit (by omega), hsub]
              refine ⟨rfl, rfl, ?_⟩
              show push _ _ _ = push _ _ (push _ _ _)
              rw [push_push]
              show push r.terms r.qty _ = push r.terms (a + (r.qty - a)) _
              rw [Nat.add_sub_cancel' hlt.le]
            · rw [sweep_cons_of_le (r := ⟨r.terms, r.qty - a⟩) hhit hdone,
                sweep_cons_of_le hhit (by omega)]
              refine ⟨?_, rfl, ?_⟩
              · unfold settle
                rw [Nat.sub_sub]
              · show push _ _ _ = push _ _ (push _ _ _)
                rw [push_push]
      · have hstop : ∀ r' ∈ (r :: rs).head?, ¬ hits r'.terms := by simpa using hhit
        rw [sweep_of_not_hits hstop, sweep_of_not_hits hstop]
        dsimp only
        rw [sweep_of_not_hits hstop]
        exact ⟨rfl, rfl, rfl⟩

/-- Where the first part has something left, the second trades nothing. -/
theorem sweep_second_of_left {a a' : ℕ} {rs : List (Resting α)}
    (h : (sweep hits a rs).left = some a') :
    sweep hits b (sweep hits a rs).queue = ⟨[], some b, (sweep hits a rs).queue⟩ :=
  sweep_of_not_hits (sweep_stops h)

end sweep

end FlowManager.Lib.PriceTime
