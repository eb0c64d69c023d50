import Mathlib.Data.Finmap

/-!
# Hash maps and dictionaries

`Dict κ ν` is a finite map without an order: C++'s `std::unordered_map` and, where the iteration
order is not read, Python's `dict`. It is Mathlib's `Finmap` at a constant family, so two
dictionaries with the same lookups are equal. The lemmas here put `lookup` after an update into
one `if`, which is the form the case analyses below use.
-/

namespace FlowManager.Lib

/-- A finite map from `κ` to `ν`. -/
abbrev Dict (κ ν : Type) : Type := Finmap fun _ : κ => ν

namespace Dict

variable {κ ν : Type} [DecidableEq κ]

/-- The value at a key, or `default` if the key is absent. -/
def getD (d : Dict κ ν) (k : κ) (fallback : ν) : ν := (d.lookup k).getD fallback

/-- A look-up after an insertion. -/
theorem lookup_insert_ite (d : Dict κ ν) (k k' : κ) (v : ν) :
    (d.insert k v).lookup k' = if k' = k then some v else d.lookup k' := by
  split_ifs with h
  · subst h
    exact Finmap.lookup_insert d
  · exact Finmap.lookup_insert_of_ne d h

/-- A look-up after an erasure. -/
theorem lookup_erase_ite (d : Dict κ ν) (k k' : κ) :
    (d.erase k).lookup k' = if k' = k then none else d.lookup k' := by
  split_ifs with h
  · subst h
    exact Finmap.lookup_erase k' d
  · exact Finmap.lookup_erase_ne h

/-- An entry that is written and erased again. -/
theorem lookup_erase_insert {d : Dict κ ν} {k : κ} (hnone : d.lookup k = none) (v : ν) (k' : κ) :
    ((d.insert k v).erase k).lookup k' = d.lookup k' := by
  rw [lookup_erase_ite, lookup_insert_ite]
  split_ifs with hk
  · rw [hk, hnone]
  · rfl

/-- A value or the fallback, after an insertion. -/
theorem getD_insert_ite (d : Dict κ ν) (k k' : κ) (v fallback : ν) :
    getD (d.insert k v) k' fallback = if k' = k then v else getD d k' fallback := by
  unfold getD
  rw [lookup_insert_ite]
  split_ifs <;> rfl

end Dict

end FlowManager.Lib
