import Mathlib.Algebra.BigOperators.Group.List.Basic
import Mathlib.Algebra.GroupWithZero.Nat
import Mathlib.Algebra.Ring.Int.Defs
import Mathlib.Data.List.Forall2

/-!
# Objects that are written to in place

A list of objects, each reached by its place. `List.Forall₂ R l l'` says how the objects have
changed where none has come or gone: what `R` keeps of each object, a sum over the list keeps too.
`sum_map_modify` is the sum after one object has changed; a measure that the change makes smaller
has a smaller sum (`sum_map_modify_lt`).
-/

namespace FlowManager.Lib

variable {α β : Type} {R : α → α → Prop}

/-- The object at a place, before the change. -/
theorem exists_of_forall₂ {S : α → β → Prop} {l : List α} {l' : List β}
    (h : List.Forall₂ S l l') {i : ℕ} {b : β} (hb : l'[i]? = some b) :
    ∃ a, l[i]? = some a ∧ S a b := by
  induction h generalizing i with
  | nil => simp at hb
  | @cons a b l l' hab _ ih =>
      cases i with
      | zero =>
          obtain rfl := Option.some.inj hb
          exact ⟨a, rfl, hab⟩
      | succ i => exact ih hb

/-- Every element of the second list has a partner in the first. -/
theorem exists_mem_of_forall₂ {S : α → β → Prop} {l : List α} {l' : List β}
    (h : List.Forall₂ S l l') {b : β} (hb : b ∈ l') : ∃ a ∈ l, S a b := by
  obtain ⟨i, hi⟩ := List.mem_iff_getElem?.mp hb
  obtain ⟨a, ha, hab⟩ := exists_of_forall₂ h hi
  exact ⟨a, List.mem_of_getElem? ha, hab⟩

/-- What related elements have in common, related lists have in common. -/
theorem map_eq_of_forall₂ {l l' : List α} (h : List.Forall₂ R l l') {g : α → β}
    (hg : ∀ a a', R a a' → g a' = g a) : l'.map g = l.map g := by
  induction h with
  | nil => rfl
  | cons hab _ ih => rw [List.map_cons, List.map_cons, hg _ _ hab, ih]

/-- A map that relates each element to its image relates the lists. -/
theorem forall₂_map (l : List α) {f : α → α} (h : ∀ a ∈ l, R a (f a)) :
    List.Forall₂ R l (l.map f) := by
  rw [List.forall₂_map_right_iff, List.forall₂_same]
  exact h

/-- A write that relates the element to what it becomes relates the lists. -/
theorem forall₂_modify (hrefl : ∀ a, R a a) (f : α → α) : ∀ (l : List α) (i : ℕ),
    (∀ a, l[i]? = some a → R a (f a)) → List.Forall₂ R l (l.modify i f)
  | [], _, _ => by simp
  | a :: l, 0, h => .cons (h a rfl) (List.forall₂_same.mpr fun a _ => hrefl a)
  | a :: l, i + 1, h => .cons (hrefl a) (forall₂_modify hrefl f l i h)

/-- The same where `R` holds only of the objects that are there. -/
theorem forall₂_modify_of_ne (f : α → α) : ∀ (l : List α) (i : ℕ),
    (∀ j a, l[j]? = some a → j ≠ i → R a a) → (∀ a, l[i]? = some a → R a (f a)) →
    List.Forall₂ R l (l.modify i f)
  | [], _, _, _ => by simp
  | a :: l, 0, hother, h => by
      refine .cons (h a rfl) (List.forall₂_same.mpr fun a' ha' => ?_)
      obtain ⟨j, hj⟩ := List.mem_iff_getElem?.mp ha'
      exact hother (j + 1) a' hj (Nat.succ_ne_zero j)
  | a :: l, i + 1, hother, h => by
      refine .cons (hother 0 a rfl (Nat.succ_ne_zero i).symm) (forall₂_modify_of_ne f l i ?_ h)
      intro j a' ha' hj
      exact hother (j + 1) a' ha' fun heq => hj (Nat.succ_injective heq)

/-- The object at a place once one has been written to. -/
theorem getElem?_modify_cases {l : List α} {f : α → α} {i j : ℕ} {a' : α}
    (h : (l.modify i f)[j]? = some a') :
    (j = i ∧ ∃ a, l[i]? = some a ∧ a' = f a) ∨ (j ≠ i ∧ l[j]? = some a') := by
  by_cases hj : j = i
  · subst hj
    rw [List.getElem?_modify_eq] at h
    obtain ⟨a, ha, rfl⟩ := Option.map_eq_some_iff.mp h
    exact Or.inl ⟨rfl, a, ha, rfl⟩
  · rw [List.getElem?_modify_ne _ _ (Ne.symm hj)] at h
    exact Or.inr ⟨hj, h⟩

/-- A write at an index that is there is what is found there. -/
theorem getElem?_modify_of_some {l : List α} (f : α → α) {i : ℕ} {a : α} (h : l[i]? = some a) :
    (l.modify i f)[i]? = some (f a) := by
  rw [List.getElem?_modify_eq, h]
  rfl

/-- A write at the middle of a list. -/
theorem modify_length_append (f : α → α) (a : α) (after : List α) : ∀ before : List α,
    (before ++ a :: after).modify before.length f = before ++ f a :: after
  | [] => rfl
  | b :: before => by
      rw [List.cons_append, List.length_cons, List.modify_succ_cons,
        modify_length_append f a after before]
      rfl

/-- What the objects hold once one of them has been replaced. -/
theorem perm_flatMap_set (f : α → List β) (b : α) : ∀ {l : List α} {i : ℕ} {a : α},
    l[i]? = some a → ((l.set i b).flatMap f ++ f a).Perm (l.flatMap f ++ f b)
  | [], _, _, h => by simp at h
  | c :: l, 0, a, h => by
      obtain rfl := Option.some.inj h
      rw [List.set_cons_zero, List.flatMap_cons, List.flatMap_cons]
      calc (f b ++ l.flatMap f ++ f c).Perm (f c ++ (f b ++ l.flatMap f)) := List.perm_append_comm
        (f c ++ (f b ++ l.flatMap f)).Perm (f c ++ (l.flatMap f ++ f b)) :=
          List.perm_append_comm.append_left _
        (f c ++ (l.flatMap f ++ f b)).Perm (f c ++ l.flatMap f ++ f b) :=
          .of_eq (List.append_assoc _ _ _).symm
  | c :: l, i + 1, a, h => by
      rw [List.set_cons_succ, List.flatMap_cons, List.flatMap_cons, List.append_assoc,
        List.append_assoc]
      exact (perm_flatMap_set f b (l := l) h).append_left _

/-- One object, and the others. -/
theorem perm_cons_eraseIdx {l : List α} {i : ℕ} {a : α} (h : l[i]? = some a) :
    l.Perm (a :: l.eraseIdx i) := by
  obtain ⟨hlt, rfl⟩ := List.getElem?_eq_some_iff.mp h
  exact (List.getElem_cons_eraseIdx_perm hlt).symm

/-- Counting once one object has been written to. -/
theorem countP_modify (p : α → Bool) (f : α → α) : ∀ {l : List α} {i : ℕ} {a : α},
    l[i]? = some a → (l.modify i f).countP p + (if p a then 1 else 0) =
      l.countP p + (if p (f a) then 1 else 0)
  | [], _, _, h => by simp at h
  | b :: l, 0, a, h => by
      obtain rfl := Option.some.inj h
      rw [List.modify_zero_cons, List.countP_cons, List.countP_cons]
      omega
  | b :: l, i + 1, a, h => by
      have ih := countP_modify p f (l := l) h
      rw [List.modify_succ_cons, List.countP_cons, List.countP_cons]
      omega

/-- What is found first is the same once an object has been written to, if it is the same of that
object. -/
theorem map_find?_modify (p : α → Bool) (g : α → β) (f : α → α) : ∀ {l : List α} {i : ℕ},
    (∀ a, l[i]? = some a → p (f a) = p a ∧ (p a = true → g (f a) = g a)) →
    ((l.modify i f).find? p).map g = (l.find? p).map g
  | [], _, _ => by simp
  | b :: l, 0, h => by
      obtain ⟨hp, hg⟩ := h b rfl
      rw [List.modify_zero_cons, List.find?_cons, List.find?_cons, hp]
      cases hb : p b with
      | true => exact congrArg some (hg hb)
      | false => rfl
  | b :: l, i + 1, h => by
      rw [List.modify_succ_cons, List.find?_cons, List.find?_cons]
      cases p b with
      | true => rfl
      | false => exact map_find?_modify p g f h

/-- The only object of a kind is the one that is found. -/
theorem find?_eq_some_of_unique {p : α → Bool} {l : List α} {i : ℕ} {a : α}
    (hi : l[i]? = some a) (ha : p a = true)
    (h : ∀ (j : ℕ) (b : α), l[j]? = some b → p b = true → j = i) : l.find? p = some a := by
  have hmem : a ∈ l := List.mem_of_getElem? hi
  cases hfind : l.find? p with
  | none => exact absurd ha (List.find?_eq_none.mp hfind a hmem)
  | some b =>
      obtain ⟨j, hj⟩ := List.mem_iff_getElem?.mp (List.mem_of_find?_eq_some hfind)
      obtain rfl := h j b hj (List.find?_some hfind)
      exact hj.symm.trans hi

/-- A write changes a sum by what it changes in one place. -/
theorem sum_map_modify (g : α → ℤ) (f : α → α) : ∀ (l : List α) (i : ℕ) {a : α},
    l[i]? = some a → ((l.modify i f).map g).sum = (l.map g).sum - g a + g (f a)
  | [], _, a, h => by simp at h
  | b :: l, 0, a, h => by
      obtain rfl := Option.some.inj h
      simp only [List.modify_zero_cons, List.map_cons, List.sum_cons]
      omega
  | b :: l, i + 1, a, h => by
      simp only [List.modify_succ_cons, List.map_cons, List.sum_cons,
        sum_map_modify g f l i h]
      omega

/-- A write that makes one value smaller makes the sum smaller. -/
theorem sum_map_modify_lt {g : α → ℕ} {f : α → α} : ∀ {l : List α} {i : ℕ} {a : α},
    l[i]? = some a → g (f a) < g a → ((l.modify i f).map g).sum < (l.map g).sum
  | [], _, a, h, _ => by simp at h
  | b :: l, 0, a, h, hlt => by
      obtain rfl := Option.some.inj h
      simp only [List.modify_zero_cons, List.map_cons, List.sum_cons]
      omega
  | b :: l, i + 1, a, h, hlt => by
      have ih := sum_map_modify_lt (l := l) h hlt
      simp only [List.modify_succ_cons, List.map_cons, List.sum_cons]
      omega

end FlowManager.Lib
