import Mathlib.Tactic

/-!
# Reference counts of a fixed width

A shared object counts its holders in an unsigned word and is freed by the one who
drops the last reference. `Counts` says that the word is the number of holders and
that the object has been freed if there is none; taking and dropping references
keep it, as long as the word does not overflow.
-/

namespace ScyllaDriver

/-- The counter of an object, and how often it was freed. -/
structure RefCount where
  count : Nat := 1
  frees : Nat := 0
deriving DecidableEq

namespace RefCount

/-- `atomic_fetch_add` of one. -/
def addref (width : Nat) (c : RefCount) : RefCount :=
  { c with count := (c.count + 1) % 2 ^ width }

/-- `atomic_fetch_sub` of one. -/
def drop (width : Nat) (c : RefCount) : RefCount :=
  { c with count := (c.count + (2 ^ width - 1)) % 2 ^ width }

/-- `atomic_fetch_sub` of one, and the object is freed if the count was one. -/
def unref (width : Nat) (c : RefCount) : RefCount :=
  if c.count = 1 then { c.drop width with frees := c.frees + 1 } else c.drop width

/-- The object is freed once it has no holder, and only then. -/
structure Counts (c : RefCount) (holders : Nat) : Prop where
  count_eq : c.count = holders
  frees_eq : c.frees = if holders = 0 then 1 else 0

variable {width holders : Nat} {c : RefCount}

theorem counts_new : Counts {} 1 :=
  ⟨rfl, rfl⟩

theorem count_drop (hcount : c.count = holders + 1) (hfits : holders + 1 < 2 ^ width) :
    (c.drop width).count = holders := by
  have hsum : c.count + (2 ^ width - 1) = holders + 2 ^ width := by omega
  rw [drop, hsum, Nat.add_mod_right, Nat.mod_eq_of_lt (by omega)]

theorem Counts.addref (h : Counts c holders) (hlive : holders ≠ 0)
    (hfits : holders + 1 < 2 ^ width) :
    Counts (c.addref width) (holders + 1) where
  count_eq := by rw [RefCount.addref, h.count_eq, Nat.mod_eq_of_lt hfits]
  frees_eq := by rw [RefCount.addref, h.frees_eq, if_neg hlive, if_neg (Nat.succ_ne_zero _)]

theorem Counts.drop (h : Counts c (holders + 1)) (hmore : holders ≠ 0)
    (hfits : holders + 1 < 2 ^ width) :
    Counts (c.drop width) holders where
  count_eq := count_drop h.count_eq hfits
  frees_eq := by rw [RefCount.drop, h.frees_eq, if_neg hmore, if_neg (Nat.succ_ne_zero _)]

theorem Counts.unref (h : Counts c (holders + 1)) (hfits : holders + 1 < 2 ^ width) :
    Counts (c.unref width) holders := by
  unfold RefCount.unref
  by_cases hlast : c.count = 1
  · obtain rfl : holders = 0 := by
      have hcount := h.count_eq
      omega
    rw [if_pos hlast]
    exact ⟨count_drop h.count_eq hfits, by rw [h.frees_eq]; rfl⟩
  · rw [if_neg hlast]
    refine h.drop (fun hzero => hlast ?_) hfits
    rw [h.count_eq, hzero]

theorem Counts.frees_eq_zero (h : Counts c holders) (hlive : holders ≠ 0) : c.frees = 0 := by
  rw [h.frees_eq, if_neg hlive]

end RefCount
end ScyllaDriver
