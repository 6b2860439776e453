import PennCloud.Kv.Contents

/-!
# Counters below the largest `int`

The byte counters of the cache are `int`s and the lengths they are compared with are `size_t`s. While
a counter is not negative and no sum leaves the range of `int`, conversions change nothing and the two
tests of `put_helper` are the comparisons one reads.
-/

namespace PennCloud

theorem toSize_of_nonneg {x : Int} (hlow : 0 ≤ x) (hhigh : x ≤ intMax) : toSize x = x.toNat := by
  simp only [intMax] at hhigh
  rw [toSize, Int.emod_eq_of_lt hlow (by omega)]

theorem sizeAdd_of_nonneg {x : Int} {n : Nat} (hlow : 0 ≤ x) (hhigh : x ≤ intMax)
    (hn : n < 2 ^ 63) : sizeAdd x n = x.toNat + n := by
  rw [sizeAdd, toSize_of_nonneg hlow hhigh, Nat.mod_eq_of_lt]
  simp only [intMax] at hhigh
  omega

theorem toInt32_toInt32 (x : Int) : toInt32 (toInt32 x) = toInt32 x := by rw [toInt32, toInt32, Int.bmod_bmod]

theorem toInt32_add_toInt32 (x y : Int) : toInt32 (toInt32 x + y) = toInt32 (x + y) := by
  rw [toInt32, toInt32, toInt32, Int.bmod_add_bmod]

theorem toInt32_sub_toInt32 (x y : Int) : toInt32 (toInt32 x - y) = toInt32 (x - y) := by
  rw [sub_eq_add_neg, toInt32_add_toInt32, sub_eq_add_neg]

theorem toInt32_sub_toInt32_right (x y : Int) : toInt32 (x - toInt32 y) = toInt32 (x - y) := by
  rw [toInt32, toInt32, toInt32, Int.sub_bmod_bmod]

namespace LRUCache

variable {s : LRUCache} {value : Str}

theorem fits_iff (hmem : 0 ≤ s.memoryUsed) (hmemMax : s.memoryUsed ≤ intMax) (hcap : 0 ≤ s.capacity)
    (hcapMax : s.capacity ≤ intMax) (hvalue : value.length ≤ toSize s.capacity) :
    s.fits value = true ↔ s.memoryUsed + value.length ≤ s.capacity := by
  rw [toSize_of_nonneg hcap hcapMax] at hvalue
  have hlen : value.length < 2 ^ 63 := by
    simp only [intMax] at hcapMax
    omega
  rw [fits, decide_eq_true_eq, sizeAdd_of_nonneg hmem hmemMax hlen, toSize_of_nonneg hcap hcapMax]
  omega

end LRUCache

end PennCloud
