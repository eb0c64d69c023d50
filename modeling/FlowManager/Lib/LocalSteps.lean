import Mathlib.Data.List.Basic

/-!
# Steps that change one view of the state

A state is seen through one view for each key. A step for a key is local if it changes the view of
its own key, by a function of that view, and no other view. A sequence of local steps for different
keys then changes the view of each of its keys once (`Steps.view_eq`), so the order of the steps
makes no difference to any view (`Steps.view_congr`).
-/

namespace FlowManager.Lib

variable {κ σ ν : Type} [DecidableEq κ] {view : κ → σ → ν} {change : κ → ν → ν}
  {Step : κ → σ → σ → Prop}

/-- From the one state to the other the view of the key has changed, and no other. -/
def ChangesOnly (view : κ → σ → ν) (change : κ → ν → ν) (k : κ) (s s' : σ) : Prop :=
  ∀ k', view k' s' = if k' = k then change k (view k s) else view k' s

/-- Nothing changed is nothing changed elsewhere. -/
theorem ChangesOnly.refl (k : κ) (s : σ) : ChangesOnly view (fun _ v => v) k s s := by
  intro k'
  split_ifs with hk
  · rw [hk]
  · rfl

/-- One change at a key after another. -/
theorem ChangesOnly.trans {change' : κ → ν → ν} {k : κ} {s mid s' : σ}
    (h : ChangesOnly view change k s mid) (h' : ChangesOnly view change' k mid s') :
    ChangesOnly view (fun k v => change' k (change k v)) k s s' := by
  intro k'
  rw [h' k', h k, if_pos rfl]
  split_ifs with hk
  · rfl
  · rw [h k', if_neg hk]

/-- A sequence of steps, one for each key of a list. -/
inductive Steps (Step : κ → σ → σ → Prop) : List κ → σ → σ → Prop
  | nil (s : σ) : Steps Step [] s s
  | cons {k : κ} {ks : List κ} {s mid s' : σ} :
      Step k s mid → Steps Step ks mid s' → Steps Step (k :: ks) s s'

omit [DecidableEq κ] in
/-- One list of steps after another. -/
theorem Steps.append {ks ks' : List κ} {s mid s' : σ} (h : Steps Step ks s mid)
    (h' : Steps Step ks' mid s') : Steps Step (ks ++ ks') s s' := by
  induction h with
  | nil _ => exact h'
  | cons hstep _ ih => exact .cons hstep (ih h')

/-- **Each view changes once**, if its key is among those of the steps. -/
theorem Steps.view_eq (hlocal : ∀ k s s', Step k s s' → ChangesOnly view change k s s')
    {ks : List κ} {s s' : σ} (h : Steps Step ks s s') (hnodup : ks.Nodup) (k : κ) :
    view k s' = if k ∈ ks then change k (view k s) else view k s := by
  induction h with
  | nil s => simp
  | @cons k₁ ks s mid s' hstep _ ih =>
      obtain ⟨hnot, hrest⟩ := List.nodup_cons.mp hnodup
      rw [ih hrest, hlocal k₁ s mid hstep k]
      by_cases hk : k = k₁
      · subst hk
        simp [hnot]
      · simp [hk]

/-- **The order makes no difference**: steps for the same keys leave the same views. -/
theorem Steps.view_congr (hlocal : ∀ k s s', Step k s s' → ChangesOnly view change k s s')
    {ks ks' : List κ} {s s₁ s₂ : σ} (h : Steps Step ks s s₁) (h' : Steps Step ks' s s₂)
    (hnodup : ks.Nodup) (hnodup' : ks'.Nodup) (hmem : ∀ k, k ∈ ks ↔ k ∈ ks') (k : κ) :
    view k s₁ = view k s₂ := by
  rw [h.view_eq hlocal hnodup, h'.view_eq hlocal hnodup']
  simp only [hmem]

end FlowManager.Lib
