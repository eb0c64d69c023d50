import Mathlib.Data.List.Sort
import Mathlib.Order.Defs.Unbundled
import Mathlib.Tactic.Common

/-!
# Ordered maps of lists

`OrderedMap κ ν r` is C++'s `std::map<κ, ν, r>`: a finite map whose entries are kept strictly
sorted by the comparison `r`, so that `begin()` is the least key. The order is a field of the
structure, and an unsorted map cannot be built.

* `splitAt` is the one fact the proofs use about lookups: a key that is present cuts the entries
  in two, and `insert` and `erase` at that key act on the middle entry only
  (`entries_insert_of_split`, `entries_erase_of_split`).
* For maps of lists, `flat` reads all lists in key order. `flat_push` says that appending to
  the list at a key is, on `flat`, `List.orderedInsert`: the new element goes after every element
  whose key is not later. This is what makes a map of queues a priority queue that is first in,
  first out among equals.
-/

namespace FlowManager.Lib

/-- A map with its entries strictly sorted by `r` on the keys. -/
structure OrderedMap (κ ν : Type) (r : κ → κ → Prop) where
  /-- The entries in iteration order. -/
  entries : List (κ × ν)
  /-- Iteration is in the order of the comparison. -/
  sorted : entries.Pairwise fun x y => r x.1 y.1

namespace OrderedMap

variable {κ ν : Type} {r : κ → κ → Prop}

/-- The empty map. -/
def empty : OrderedMap κ ν r := ⟨[], List.Pairwise.nil⟩

/-- The first entry, if any: `begin()` when the map is not empty. -/
def begin? (m : OrderedMap κ ν r) : Option (κ × ν) := m.entries.head?

/-- The keys on either side of an entry are not its key. -/
theorem ne_of_split [IsStrictTotalOrder κ r] {m : OrderedMap κ ν r} {k : κ} {v : ν}
    {l₁ l₂ : List (κ × ν)} (hm : m.entries = l₁ ++ (k, v) :: l₂) :
    (∀ e ∈ l₁, e.1 ≠ k) ∧ ∀ e ∈ l₂, e.1 ≠ k := by
  have hs := m.sorted
  rw [hm, List.pairwise_append, List.pairwise_cons] at hs
  obtain ⟨-, ⟨h₂, -⟩, h₁⟩ := hs
  constructor
  · intro e he heq
    have := h₁ e he (k, v) List.mem_cons_self
    rw [heq] at this
    exact irrefl_of r k this
  · intro e he heq
    have := h₂ e he
    rw [heq] at this
    exact irrefl_of r k this

/-! ## Maps of lists, read as one list -/

section flat

variable {α : Type} {m : OrderedMap κ (List α) r}

/-- All elements of all lists, in key order. -/
def flat (m : OrderedMap κ (List α) r) : List α := m.entries.flatMap Prod.snd

/-- An element is in the map's list exactly if it is in one of the map's values. -/
theorem mem_flat {a : α} : a ∈ m.flat ↔ ∃ e ∈ m.entries, a ∈ e.2 := by
  simp [flat]

/-- The list of a map, split at an entry. -/
theorem flat_of_split {k : κ} {l : List α} {l₁ l₂ : List (κ × List α)}
    (hm : m.entries = l₁ ++ (k, l) :: l₂) :
    m.flat = l₁.flatMap Prod.snd ++ (l ++ l₂.flatMap Prod.snd) := by
  simp [flat, hm]

/-- `key` gives every element the key it is filed under. -/
def Keyed (key : α → κ) (m : OrderedMap κ (List α) r) : Prop :=
  ∀ e ∈ m.entries, ∀ a ∈ e.2, key a = e.1

/-- Elements filed under their keys are read in key order. -/
theorem pairwise_flatMap_of_keyed [IsStrictTotalOrder κ r] {key : α → κ} :
    ∀ l : List (κ × List α), l.Pairwise (fun x y => r x.1 y.1) →
      (∀ e ∈ l, ∀ a ∈ e.2, key a = e.1) →
      (l.flatMap Prod.snd).Pairwise fun a b => ¬ r (key b) (key a)
  | [], _, _ => List.Pairwise.nil
  | e :: l, hs, hk => by
      obtain ⟨hhead, htail⟩ := List.pairwise_cons.mp hs
      have hke := hk e List.mem_cons_self
      have hkl := fun e' he' => hk e' (List.mem_cons_of_mem e he')
      rw [List.flatMap_cons, List.pairwise_append]
      refine ⟨List.pairwise_of_forall_mem_list ?_, pairwise_flatMap_of_keyed l htail hkl, ?_⟩
      · intro a ha b hb hr
        rw [hke a ha, hke b hb] at hr
        exact irrefl_of r _ hr
      · intro a ha b hb hr
        obtain ⟨e', he', hb'⟩ := List.mem_flatMap.mp hb
        rw [hke a ha, hkl e' he' b hb'] at hr
        exact asymm_of r hr (hhead e' he')

/-- The list of a map is in the order of the keys. -/
theorem flat_pairwise [IsStrictTotalOrder κ r] {key : α → κ} (hk : m.Keyed key) :
    m.flat.Pairwise fun a b => ¬ r (key b) (key a) :=
  pairwise_flatMap_of_keyed m.entries m.sorted hk

/-- The list at a key is what is filed under the key. -/
theorem filter_flat_of_mem [IsStrictTotalOrder κ r] [DecidableEq κ] {key : α → κ}
    (hk : m.Keyed key) {k : κ} {l : List α} (h : (k, l) ∈ m.entries) :
    m.flat.filter (fun a => decide (key a = k)) = l := by
  obtain ⟨l₁, l₂, hm⟩ := List.append_of_mem h
  obtain ⟨h₁, h₂⟩ := ne_of_split hm
  have hnone : ∀ l' : List (κ × List α), (∀ e ∈ l', e ∈ m.entries ∧ e.1 ≠ k) →
      (l'.flatMap Prod.snd).filter (fun a => decide (key a = k)) = [] := by
    intro l' hl'
    rw [List.filter_eq_nil_iff]
    intro a ha
    obtain ⟨e, he, hae⟩ := List.mem_flatMap.mp ha
    rw [hk e (hl' e he).1 a hae]
    simpa using (hl' e he).2
  have hself : l.filter (fun a => decide (key a = k)) = l := by
    rw [List.filter_eq_self]
    intro a ha
    simpa using hk (k, l) h a ha
  rw [flat_of_split hm, List.filter_append, List.filter_append, hself, hnone l₁, hnone l₂,
    List.append_nil, List.nil_append]
  · intro e he
    refine ⟨?_, h₂ e he⟩
    rw [hm]
    exact List.mem_append_right _ (List.mem_cons_of_mem _ he)
  · intro e he
    refine ⟨?_, h₁ e he⟩
    rw [hm]
    exact List.mem_append_left _ he

/-- Where no list is empty, an entry is what is filed under its key. -/
theorem mem_entries_iff [IsStrictTotalOrder κ r] [DecidableEq κ] {key : α → κ}
    (hk : m.Keyed key) (hne : ∀ e ∈ m.entries, e.2 ≠ []) {k : κ} {l : List α} :
    (k, l) ∈ m.entries ↔ l ≠ [] ∧ m.flat.filter (fun a => decide (key a = k)) = l := by
  constructor
  · intro h
    exact ⟨hne _ h, filter_flat_of_mem hk h⟩
  · rintro ⟨hl, hfilter⟩
    obtain ⟨a, ha⟩ := List.exists_mem_of_ne_nil l hl
    rw [← hfilter, List.mem_filter] at ha
    obtain ⟨⟨k', l'⟩, he, ha'⟩ := mem_flat.mp ha.1
    have hkey : k' = k := (hk _ he a ha').symm.trans (of_decide_eq_true ha.2)
    subst hkey
    rw [← hfilter, filter_flat_of_mem hk he]
    exact he

section view

variable {α' β : Type} {m' : OrderedMap κ (List α') r} {f : α → β} {f' : α' → β}

/-- The entries, with the elements seen through a function. -/
def view (f : α → β) (m : OrderedMap κ (List α) r) : List (κ × List β) :=
  m.entries.map fun e => (e.1, e.2.map f)

/-- **The lists tell the levels apart**: two maps whose elements look alike in key order have the
same entries, where the key shows in the look and no list is empty. -/
theorem view_eq_of_flat [IsStrictTotalOrder κ r] [DecidableEq κ] (key : β → κ)
    (hk : m.Keyed fun a => key (f a)) (hk' : m'.Keyed fun a => key (f' a))
    (hne : ∀ e ∈ m.entries, e.2 ≠ []) (hne' : ∀ e ∈ m'.entries, e.2 ≠ [])
    (hflat : m.flat.map f = m'.flat.map f') : m.view f = m'.view f' := by
  have hfilter : ∀ k, (m.flat.filter fun a => decide (key (f a) = k)).map f =
      (m'.flat.filter fun a => decide (key (f' a) = k)).map f' := by
    intro k
    have hboth := congrArg (List.filter fun b => decide (key b = k)) hflat
    rw [List.filter_map, List.filter_map] at hboth
    exact hboth
  have : Std.Irrefl fun x y : κ × List β => r x.1 y.1 := ⟨fun x => irrefl_of r x.1⟩
  have : Std.Antisymm fun x y : κ × List β => r x.1 y.1 :=
    ⟨fun _ _ hxy hyx => absurd hyx (asymm_of r hxy)⟩
  have hs : (m.view f).Pairwise fun x y => r x.1 y.1 := List.pairwise_map.mpr m.sorted
  have hs' : (m'.view f').Pairwise fun x y => r x.1 y.1 := List.pairwise_map.mpr m'.sorted
  apply hs.eq_of_mem_iff hs'
  rintro ⟨k, l⟩
  unfold view
  rw [List.mem_map, List.mem_map]
  constructor
  · rintro ⟨⟨k', l'⟩, he, heq⟩
    obtain ⟨rfl, rfl⟩ := Prod.mk.inj heq
    obtain ⟨hl', rfl⟩ := (mem_entries_iff hk hne).mp he
    refine ⟨(k', m'.flat.filter fun a => decide (key (f' a) = k')), ?_, by rw [hfilter]⟩
    apply (mem_entries_iff hk' hne').mpr
    refine ⟨fun hnil => hl' ?_, rfl⟩
    apply List.map_eq_nil_iff.mp
    rw [hfilter, hnil, List.map_nil]
  · rintro ⟨⟨k', l'⟩, he, heq⟩
    obtain ⟨rfl, rfl⟩ := Prod.mk.inj heq
    obtain ⟨hl', rfl⟩ := (mem_entries_iff hk' hne').mp he
    refine ⟨(k', m.flat.filter fun a => decide (key (f a) = k')), ?_, by rw [hfilter]⟩
    apply (mem_entries_iff hk hne).mpr
    refine ⟨fun hnil => hl' ?_, rfl⟩
    apply List.map_eq_nil_iff.mp
    rw [← hfilter, hnil, List.map_nil]

end view

/-! ### Keeping some of the elements -/

section keep

variable {p : α → Bool}

/-- The elements that are kept, without the lists that are empty then. -/
def keep (p : α → Bool) (m : OrderedMap κ (List α) r) : OrderedMap κ (List α) r where
  entries := (m.entries.map fun e => (e.1, e.2.filter p)).filter fun e => !e.2.isEmpty
  sorted := by
    have hmap : (m.entries.map fun e => (e.1, e.2.filter p)).Pairwise fun x y => r x.1 y.1 :=
      List.pairwise_map.mpr m.sorted
    exact hmap.sublist List.filter_sublist

/-- The entries of a filtered map: those of which the filter leaves something. -/
theorem mem_keep_entries {e : κ × List α} : e ∈ (m.keep p).entries ↔
    e.2 ≠ [] ∧ ∃ e' ∈ m.entries, (e'.1, e'.2.filter p) = e := by
  simp only [keep, List.mem_filter, List.mem_map, Bool.not_eq_true', List.isEmpty_eq_false_iff]
  exact And.comm

/-- A filtered map has no empty value. -/
theorem keep_ne_nil : ∀ e ∈ (m.keep p).entries, e.2 ≠ [] := fun _ he => (mem_keep_entries.mp he).1

/-- Filtering leaves every element under its key. -/
theorem Keyed.keep {key : α → κ} (hk : m.Keyed key) : (m.keep p).Keyed key := by
  intro e he a ha
  obtain ⟨-, e', he', rfl⟩ := mem_keep_entries.mp he
  exact hk e' he' a (List.mem_filter.mp ha).1

/-- Keeping is filtering the flat list. -/
theorem flat_keep : (m.keep p).flat = m.flat.filter p := by
  have hcut : ∀ l : List (κ × List α),
      ((l.map fun e => (e.1, e.2.filter p)).filter fun e => !e.2.isEmpty).flatMap Prod.snd =
        (l.flatMap Prod.snd).filter p := by
    intro l
    induction l with
    | nil => rfl
    | cons e l ih =>
        rw [List.map_cons, List.filter_cons, List.flatMap_cons, List.filter_append]
        split_ifs with hempty
        · rw [List.flatMap_cons, ih]
        · have hnil : e.2.filter p = [] := by simpa using hempty
          rw [ih, hnil, List.nil_append]
  exact hcut m.entries

end keep

end flat

section lookup

variable [DecidableEq κ]

/-- The value at a key. -/
def find? (m : OrderedMap κ ν r) (k : κ) : Option ν :=
  (m.entries.find? fun e => decide (e.1 = k)).map Prod.snd

/-- Remove the entry at a key. -/
def erase (m : OrderedMap κ ν r) (k : κ) : OrderedMap κ ν r where
  entries := m.entries.filter fun e => decide (e.1 ≠ k)
  sorted := m.sorted.sublist List.filter_sublist

/-- What is found under a key is an entry. -/
theorem find?_eq_some_imp_mem {m : OrderedMap κ ν r} {k : κ} {v : ν} (h : m.find? k = some v) :
    (k, v) ∈ m.entries := by
  unfold find? at h
  rw [Option.map_eq_some_iff] at h
  obtain ⟨⟨k', v'⟩, hfind, rfl⟩ := h
  have hk : k' = k := by simpa using List.find?_some hfind
  subst hk
  exact List.mem_of_find?_eq_some hfind

/-- A key under which nothing is found is the key of no entry. -/
theorem find?_eq_none_iff {m : OrderedMap κ ν r} {k : κ} :
    m.find? k = none ↔ ∀ e ∈ m.entries, e.1 ≠ k := by
  simp [find?]

/-- The value of an entry is what is found under its key. -/
theorem find?_of_split [IsStrictTotalOrder κ r] {m : OrderedMap κ ν r} {k : κ} {v : ν}
    {l₁ l₂ : List (κ × ν)} (hm : m.entries = l₁ ++ (k, v) :: l₂) :
    m.find? k = some v := by
  have h₁ : l₁.find? (fun e => decide (e.1 = k)) = none := by
    simpa using (ne_of_split hm).1
  simp [find?, hm, List.find?_append, h₁]

/-- A key that is found cuts the entries in two. -/
theorem exists_split_of_find? {m : OrderedMap κ ν r} {k : κ} {v : ν} (h : m.find? k = some v) :
    ∃ l₁ l₂, m.entries = l₁ ++ (k, v) :: l₂ :=
  List.append_of_mem (find?_eq_some_imp_mem h)

/-- Erasing a present key removes that entry only. -/
theorem entries_erase_of_split [IsStrictTotalOrder κ r] {m : OrderedMap κ ν r} {k : κ}
    {v : ν} {l₁ l₂ : List (κ × ν)} (hm : m.entries = l₁ ++ (k, v) :: l₂) :
    (m.erase k).entries = l₁ ++ l₂ := by
  obtain ⟨h₁, h₂⟩ := ne_of_split hm
  have f₁ : l₁.filter (fun e => decide (e.1 ≠ k)) = l₁ :=
    List.filter_eq_self.mpr fun e he => by simpa using h₁ e he
  have f₂ : l₂.filter (fun e => decide (e.1 ≠ k)) = l₂ :=
    List.filter_eq_self.mpr fun e he => by simpa using h₂ e he
  show m.entries.filter _ = _
  rw [hm, List.filter_append, List.filter_cons_of_neg (by simp), f₁, f₂]

end lookup

variable [DecidableEq κ] [DecidableRel r]

/-- Insert into sorted entries, overwriting an entry with the same key. -/
def insertEntries (k : κ) (v : ν) : List (κ × ν) → List (κ × ν)
  | [] => [(k, v)]
  | e :: l =>
      if e.1 = k then (k, v) :: l
      else if r k e.1 then (k, v) :: e :: l
      else e :: insertEntries k v l

/-- An entry after an insertion is the new one or was there. -/
theorem mem_insertEntries_imp {k : κ} {v : ν} {x : κ × ν} :
    ∀ {l : List (κ × ν)}, x ∈ insertEntries (r := r) k v l → x = (k, v) ∨ x ∈ l
  | [], h => by simpa [insertEntries] using h
  | e :: l, h => by
      unfold insertEntries at h
      split_ifs at h with he hr
      · rcases List.mem_cons.mp h with h | h
        · exact Or.inl h
        · exact Or.inr (List.mem_cons_of_mem _ h)
      · rcases List.mem_cons.mp h with h | h
        · exact Or.inl h
        · exact Or.inr h
      · rcases List.mem_cons.mp h with h | h
        · exact Or.inr (h ▸ List.mem_cons_self)
        · rcases mem_insertEntries_imp h with h | h
          · exact Or.inl h
          · exact Or.inr (List.mem_cons_of_mem _ h)

/-- An insertion keeps the order of the keys. -/
theorem insertEntries_sorted [IsStrictTotalOrder κ r] (k : κ) (v : ν) :
    ∀ l : List (κ × ν), l.Pairwise (fun x y => r x.1 y.1) →
      (insertEntries (r := r) k v l).Pairwise fun x y => r x.1 y.1
  | [], _ => by simp [insertEntries]
  | e :: l, h => by
      obtain ⟨hhead, htail⟩ := List.pairwise_cons.mp h
      unfold insertEntries
      split_ifs with he hr
      · subst he
        exact List.pairwise_cons.mpr ⟨hhead, htail⟩
      · refine List.pairwise_cons.mpr ⟨?_, h⟩
        intro y hy
        rcases List.mem_cons.mp hy with rfl | hy
        · exact hr
        · exact trans_of r hr (hhead y hy)
      · have hek : r e.1 k := by
          rcases trichotomous_of r e.1 k with h1 | h1 | h1
          · exact h1
          · exact absurd h1 he
          · exact absurd h1 hr
        refine List.pairwise_cons.mpr ⟨?_, insertEntries_sorted k v l htail⟩
        intro y hy
        rcases mem_insertEntries_imp hy with rfl | hy
        · exact hek
        · exact hhead y hy

/-- Set the value at a key. -/
def insert [IsStrictTotalOrder κ r] (m : OrderedMap κ ν r) (k : κ) (v : ν) :
    OrderedMap κ ν r where
  entries := insertEntries (r := r) k v m.entries
  sorted := insertEntries_sorted k v m.entries m.sorted

/-! ## A present key cuts the entries in two -/

section split

variable {m : OrderedMap κ ν r} {k : κ} {v w : ν} {l₁ l₂ : List (κ × ν)}

/-- Overwriting the value at a present key changes that entry only. -/
theorem entries_insert_of_split [IsStrictTotalOrder κ r]
    (hm : m.entries = l₁ ++ (k, v) :: l₂) :
    (m.insert k w).entries = l₁ ++ (k, w) :: l₂ := by
  have hcut : ∀ l : List (κ × ν), (∀ e ∈ l, r e.1 k) →
      insertEntries (r := r) k w (l ++ (k, v) :: l₂) = l ++ (k, w) :: l₂ := by
    intro l
    induction l with
    | nil => intro _; simp [insertEntries]
    | cons e l ih =>
        intro hl
        have he := hl e List.mem_cons_self
        have hne : e.1 ≠ k := fun heq => irrefl_of r k (heq ▸ he)
        have hnr : ¬ r k e.1 := fun hr => asymm_of r he hr
        rw [List.cons_append, insertEntries, if_neg hne, if_neg hnr,
          ih fun e' he' => hl e' (List.mem_cons_of_mem _ he')]
        rfl
  have hs := m.sorted
  rw [hm, List.pairwise_append] at hs
  show insertEntries k w m.entries = _
  rw [hm]
  exact hcut l₁ fun e he => hs.2.2 e he (k, v) List.mem_cons_self

end split

/-! ## Appending to the list at a key -/

section push

variable {α : Type} {m : OrderedMap κ (List α) r}

/-- Append to the list at a key, starting an empty one if there is none: `m[k].push_back(a)`. -/
def push [IsStrictTotalOrder κ r] (m : OrderedMap κ (List α) r) (k : κ) (a : α) :
    OrderedMap κ (List α) r :=
  m.insert k ((m.find? k).getD [] ++ [a])

/-- What is filed after an append was filed before, or is the new element. -/
theorem mem_push_imp [IsStrictTotalOrder κ r] {k : κ} {a b : α} {e : κ × List α}
    (he : e ∈ (m.push k a).entries) (hb : b ∈ e.2) :
    (e.1 = k ∧ b = a) ∨ ∃ e' ∈ m.entries, e'.1 = e.1 ∧ b ∈ e'.2 := by
  rcases mem_insertEntries_imp he with rfl | he
  · rcases List.mem_append.mp hb with hb | hb
    · cases hf : m.find? k with
      | none => simp [hf] at hb
      | some l =>
          rw [hf] at hb
          exact Or.inr ⟨(k, l), find?_eq_some_imp_mem hf, rfl, hb⟩
    · exact Or.inl ⟨rfl, List.mem_singleton.mp hb⟩
  · exact Or.inr ⟨e, he, rfl, hb⟩

/-- Appending leaves no list empty. -/
theorem push_ne_nil [IsStrictTotalOrder κ r] {k : κ} {a : α}
    (hm : ∀ e ∈ m.entries, e.2 ≠ []) : ∀ e ∈ (m.push k a).entries, e.2 ≠ [] := by
  intro e he
  rcases mem_insertEntries_imp he with rfl | he
  · simp
  · exact hm e he

/-- `List.orderedInsert` passes over a front part that the new element does not precede. -/
theorem orderedInsert_append_of_forall_not {s : α → α → Prop} [DecidableRel s] {a : α} :
    ∀ {l l' : List α}, (∀ b ∈ l, ¬ s a b) →
      (l ++ l').orderedInsert s a = l ++ l'.orderedInsert s a
  | [], _, _ => rfl
  | b :: l, l', h => by
      have hb := h b List.mem_cons_self
      have hl := fun c hc => h c (List.mem_cons_of_mem b hc)
      simp [hb, orderedInsert_append_of_forall_not hl]

/-- `List.orderedInsert` puts an element that precedes all others in front. -/
theorem orderedInsert_of_forall {s : α → α → Prop} [DecidableRel s] {a : α} {l : List α}
    (h : ∀ b ∈ l, s a b) : l.orderedInsert s a = a :: l := by
  cases l with
  | nil => rfl
  | cons b l => simp [h b List.mem_cons_self]

/-- **Appending at a key is an ordered insertion into the flat list.** -/
theorem flat_push [IsStrictTotalOrder κ r] {key : α → κ} (hk : m.Keyed key) (a : α) :
    (m.push (key a) a).flat = m.flat.orderedInsert (fun x y => r (key x) (key y)) a := by
  have hcut : ∀ l : List (κ × List α), l.Pairwise (fun x y => r x.1 y.1) →
      (∀ e ∈ l, ∀ b ∈ e.2, key b = e.1) → (∀ e ∈ l, e.1 ≠ key a) →
      (insertEntries (r := r) (key a) [a] l).flatMap Prod.snd =
        (l.flatMap Prod.snd).orderedInsert (fun x y => r (key x) (key y)) a := by
    intro l
    induction l with
    | nil => intro _ _ _; simp [insertEntries]
    | cons e l ih =>
        intro hs hkl hne
        obtain ⟨hhead, htail⟩ := List.pairwise_cons.mp hs
        rw [insertEntries, if_neg (hne e List.mem_cons_self)]
        split_ifs with hr
        · -- every element already there is filed under a later key
          symm
          rw [List.flatMap_cons]
          apply orderedInsert_of_forall
          intro b hb
          obtain ⟨e', he', hb'⟩ := List.mem_flatMap.mp (List.flatMap_cons ▸ hb)
          rw [hkl e' he' b hb']
          rcases List.mem_cons.mp he' with rfl | he'
          · exact hr
          · exact trans_of r hr (hhead e' he')
        · rw [List.flatMap_cons, List.flatMap_cons, orderedInsert_append_of_forall_not,
            ih htail (fun e' he' => hkl e' (List.mem_cons_of_mem _ he'))
              (fun e' he' => hne e' (List.mem_cons_of_mem _ he'))]
          intro b hb
          rwa [hkl e List.mem_cons_self b hb]
  unfold push
  cases hf : m.find? (key a) with
  | none =>
      exact hcut m.entries m.sorted hk (find?_eq_none_iff.mp hf)
  | some l =>
      obtain ⟨l₁, l₂, hm⟩ := exists_split_of_find? hf
      have hs := m.sorted
      rw [hm, List.pairwise_append, List.pairwise_cons] at hs
      obtain ⟨-, ⟨h₂, -⟩, h₁⟩ := hs
      have hkeyed : ∀ e ∈ l₁ ++ (key a, l) :: l₂, ∀ b ∈ e.2, key b = e.1 := hm ▸ hk
      rw [flat_of_split (entries_insert_of_split hm), flat_of_split hm,
        orderedInsert_append_of_forall_not, orderedInsert_append_of_forall_not,
        orderedInsert_of_forall]
      · simp
      · intro b hb
        obtain ⟨e, he, hb⟩ := List.mem_flatMap.mp hb
        rw [hkeyed e (by simp [he]) b hb]
        exact h₂ e he
      · intro b hb
        rw [hkeyed (key a, l) (by simp) b hb]
        exact irrefl_of r _
      · intro b hb
        obtain ⟨e, he, hb⟩ := List.mem_flatMap.mp hb
        rw [hkeyed e (by simp [he]) b hb]
        exact asymm_of r (h₁ e he (key a, l) List.mem_cons_self)

end push

end OrderedMap

end FlowManager.Lib
