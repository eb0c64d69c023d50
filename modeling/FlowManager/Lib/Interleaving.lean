import Mathlib.Data.List.Basic

/-!
# Interleavings of commuting steps

Each element of a list has a key. `strand key k l` is what the list says about one key, and two
lists are interleavings of the same family if they have the same strands. Where steps of different
keys commute, a fold over a list depends on its strands only (`foldl_eq_of_strands`): an element
can be moved in front of everything that has another key.
-/

namespace FlowManager.Lib

variable {α κ σ : Type} [DecidableEq κ] {key : α → κ}

/-- The elements of a key, in their order. -/
def strand (key : α → κ) (k : κ) (l : List α) : List α := l.filter fun a => decide (key a = k)

/-- The list is an interleaving of a family of lists, one for each key. -/
def Interleaves (key : α → κ) (family : κ → List α) (l : List α) : Prop :=
  ∀ k, strand key k l = family k

/-- Steps of different keys commute. -/
def KeysCommute (key : α → κ) (f : σ → α → σ) : Prop :=
  ∀ a b s, key a ≠ key b → f (f s a) b = f (f s b) a

/-- The strand of an empty list. -/
@[simp] theorem strand_nil (k : κ) : strand key k [] = [] := rfl

/-- An element is in front of its own strand. -/
theorem strand_cons_self (a : α) (l : List α) :
    strand key (key a) (a :: l) = a :: strand key (key a) l := by
  simp [strand]

/-- An element is not in the strand of another key. -/
theorem strand_cons_of_ne {a : α} {k : κ} (h : key a ≠ k) (l : List α) :
    strand key k (a :: l) = strand key k l := by
  simp [strand, h]

/-- The strand of a list in two parts. -/
theorem strand_append (k : κ) (l l' : List α) :
    strand key k (l ++ l') = strand key k l ++ strand key k l' := by
  simp [strand]

/-- A key that nothing has is without a strand. -/
theorem strand_eq_nil {k : κ} {l : List α} (h : ∀ a ∈ l, key a ≠ k) : strand key k l = [] := by
  simpa [strand] using h

/-- The first element of a key stands behind elements of other keys only. -/
theorem exists_split_of_strand {a : α} {l l' : List α} (h : strand key (key a) l = a :: l') :
    ∃ pre post, l = pre ++ a :: post ∧ (∀ b ∈ pre, key b ≠ key a) ∧
      strand key (key a) post = l' := by
  induction l with
  | nil => simp at h
  | cons b l ih =>
      by_cases hb : key b = key a
      · rw [← hb, strand_cons_self, hb, List.cons.injEq] at h
        obtain ⟨rfl, hrest⟩ := h
        exact ⟨[], l, rfl, by simp, hrest⟩
      · rw [strand_cons_of_ne hb] at h
        obtain ⟨pre, post, rfl, hpre, hpost⟩ := ih h
        refine ⟨b :: pre, post, rfl, ?_, hpost⟩
        simp only [List.mem_cons, forall_eq_or_imp]
        exact ⟨hb, hpre⟩

omit [DecidableEq κ] in
/-- An element moves in front of what has another key. -/
theorem foldl_move {f : σ → α → σ} (hf : KeysCommute key f) {a : α} {pre : List α}
    (hpre : ∀ b ∈ pre, key b ≠ key a) (post : List α) (s : σ) :
    (pre ++ a :: post).foldl f s = (a :: (pre ++ post)).foldl f s := by
  induction pre generalizing s with
  | nil => rfl
  | cons b pre ih =>
      have hb : key b ≠ key a := hpre b List.mem_cons_self
      have hrest : ∀ c ∈ pre, key c ≠ key a := fun c hc => hpre c (List.mem_cons_of_mem _ hc)
      simp only [List.cons_append, List.foldl_cons, ih hrest]
      rw [hf b a s hb]

/-- **A fold of commuting steps depends on the strands of its list only.** -/
theorem foldl_eq_of_strands {f : σ → α → σ} (hf : KeysCommute key f) {l l' : List α}
    (h : ∀ k, strand key k l = strand key k l') (s : σ) : l.foldl f s = l'.foldl f s := by
  induction l generalizing l' s with
  | nil =>
      rcases l' with _ | ⟨b, l'⟩
      · rfl
      · have hb := h (key b)
        rw [strand_cons_self] at hb
        simp at hb
  | cons a l ih =>
      have ha := h (key a)
      rw [strand_cons_self] at ha
      obtain ⟨pre, post, rfl, hpre, hpost⟩ := exists_split_of_strand ha.symm
      rw [foldl_move hf hpre, List.foldl_cons, List.foldl_cons]
      apply ih
      intro k
      by_cases hk : key a = k
      · subst hk
        rw [strand_append, strand_eq_nil hpre, List.nil_append, hpost]
      · have hk' := h k
        rw [strand_cons_of_ne hk, strand_append, strand_cons_of_ne hk] at hk'
        rw [hk', strand_append]

/-- Two interleavings of one family fold to the same state. -/
theorem Interleaves.foldl_eq {f : σ → α → σ} (hf : KeysCommute key f) {family : κ → List α}
    {l l' : List α} (h : Interleaves key family l) (h' : Interleaves key family l') (s : σ) :
    l.foldl f s = l'.foldl f s :=
  foldl_eq_of_strands hf (fun k => (h k).trans (h' k).symm) s

end FlowManager.Lib
