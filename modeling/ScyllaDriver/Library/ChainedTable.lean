import Mathlib.Tactic

/-!
# A hash table with chained buckets that keeps the order of insertion

The table of uthash. An entry is filed in the bucket of its hash, at the front
of the bucket's chain, and is also the last of a list of all entries. A search
walks the chain of the key's bucket and compares keys only. When a chain gets
long the number of buckets is doubled and the entries are filed again; when
this has helped little twice in a row it is given up.

`hash` and `same` are the hash function and the comparison of keys. Entries are
known by their addresses.
-/

namespace ScyllaDriver
namespace ChainedTable

/-- An entry, with what `UT_hash_handle` adds to it. -/
structure Handle (κ ν : Type) where
  address : Nat
  key : κ
  value : ν
  hashv : UInt32

/-- `UT_hash_table`, with the list of the entries and, for each bucket, its
chain. A bucket's `count` is the length of its chain. -/
structure Table (κ ν : Type) where
  items : List (Handle κ ν)
  numItems : Nat
  numBuckets : UInt32
  log2NumBuckets : Nat
  chains : UInt32 → List Nat
  expandMult : UInt32 → Nat
  ineffExpands : Nat
  noexpand : Bool
  /-- The address of the next entry. -/
  fresh : Nat

variable {κ ν : Type}

/-- No entries: the table is made with the first one, and freed with the last. -/
def Table.empty (fresh : Nat) : Table κ ν where
  items := []
  numItems := 0
  numBuckets := 32
  log2NumBuckets := 5
  chains := fun _ => []
  expandMult := fun _ => 0
  ineffExpands := 0
  noexpand := false
  fresh := fresh

/-- `HASH_TO_BKT`. -/
def bucketOf (numBuckets hashv : UInt32) : UInt32 :=
  hashv &&& (numBuckets - 1)

namespace Table

def deref (t : Table κ ν) (address : Nat) : Option (Handle κ ν) :=
  t.items.find? fun h => h.address = address

/-- `HASH_EXPAND_BUCKETS`. Each new bucket gets its entries from one old
bucket, and its chain is turned around. -/
def expand (t : Table κ ν) : Table κ ν :=
  let numBuckets := t.numBuckets * 2
  let chains := fun b =>
    ((t.chains (bucketOf t.numBuckets b)).filter fun a =>
      (t.deref a).any fun h => bucketOf numBuckets h.hashv = b).reverse
  let idealChainMaxlen :=
    t.numItems >>> (t.log2NumBuckets + 1) +
      if t.numItems &&& (2 * t.numBuckets.toNat - 1) = 0 then 0 else 1
  let nonidealItems :=
    ((List.range numBuckets.toNat).map fun b =>
      (chains (UInt32.ofNat b)).length - idealChainMaxlen).sum
  let ineffExpands := if nonidealItems > t.numItems / 2 then t.ineffExpands + 1 else 0
  { t with
    numBuckets := numBuckets
    log2NumBuckets := t.log2NumBuckets + 1
    chains := chains
    expandMult := fun b =>
      if (chains b).length > idealChainMaxlen then (chains b).length / idealChainMaxlen else 0
    ineffExpands := ineffExpands
    noexpand := t.noexpand || ineffExpands > 1 }

section

variable (hash : κ → UInt32) (same : κ → κ → Bool)

/-- `HASH_FIND`. -/
def find (t : Table κ ν) (key : κ) : Option (Handle κ ν) :=
  ((t.chains (bucketOf t.numBuckets (hash key))).filterMap t.deref).find? fun h =>
    same h.key key

/-- An entry is appended and filed. -/
def insert (t : Table κ ν) (key : κ) (value : ν) : Table κ ν :=
  { t with
    items := t.items ++ [⟨t.fresh, key, value, hash key⟩]
    numItems := t.numItems + 1
    chains := fun b =>
      if bucketOf t.numBuckets (hash key) = b then t.fresh :: t.chains b else t.chains b
    fresh := t.fresh + 1 }

/-- `HASH_ADD_KEYPTR`: the buckets are doubled if the chain has reached the next
multiple of its threshold. -/
def add (t : Table κ ν) (key : κ) (value : ν) : Table κ ν :=
  let b := bucketOf t.numBuckets (hash key)
  let t := t.insert hash key value
  if (t.chains b).length ≥ (t.expandMult b + 1) * 10 && !t.noexpand then t.expand else t

end

def setValue (t : Table κ ν) (address : Nat) (value : ν) : Table κ ν :=
  { t with items := t.items.map fun h => if h.address = address then { h with value } else h }

/-- The list and the chain without an entry. -/
def unlink (t : Table κ ν) (removed : Handle κ ν) : Table κ ν :=
  { t with
    items := t.items.filter fun h => h.address ≠ removed.address
    numItems := t.numItems - 1
    chains := fun b =>
      if bucketOf t.numBuckets removed.hashv = b then (t.chains b).erase removed.address
      else t.chains b }

/-- `HASH_DELETE`. -/
def delete (t : Table κ ν) (removed : Handle κ ν) : Table κ ν :=
  if t.items.length = 1 then .empty t.fresh else t.unlink removed

end Table

/-- Every chain has the entries of its bucket. -/
structure Valid (hash : κ → UInt32) (t : Table κ ν) : Prop where
  distinct : (t.items.map Handle.address).Nodup
  below : ∀ h ∈ t.items, h.address < t.fresh
  filed : ∀ h ∈ t.items, h.hashv = hash h.key
  chains : ∀ b, (t.chains b).Perm
    ((t.items.filter fun h => bucketOf t.numBuckets h.hashv = b).map Handle.address)
  counted : t.numItems = t.items.length
  power : t.numBuckets = UInt32.ofNat (2 ^ t.log2NumBuckets)

section

variable {hash : κ → UInt32} {same : κ → κ → Bool} {t : Table κ ν} {h : Handle κ ν} {key : κ}

theorem valid_empty (fresh : Nat) : Valid hash (Table.empty fresh : Table κ ν) where
  distinct := List.nodup_nil
  below := fun _ hmem => (List.not_mem_nil hmem).elim
  filed := fun _ hmem => (List.not_mem_nil hmem).elim
  chains := fun _ => .nil
  counted := rfl
  power := rfl

theorem deref_of_mem (hdistinct : (t.items.map Handle.address).Nodup) (hmem : h ∈ t.items) :
    t.deref h.address = some h := by
  cases hfind : t.deref h.address with
  | none =>
    have hnone := List.find?_eq_none.mp hfind h hmem
    simp at hnone
  | some h' =>
    have hmem' := List.mem_of_find?_eq_some hfind
    have haddress : h'.address = h.address := by simpa using List.find?_some hfind
    rw [List.inj_on_of_nodup_map hdistinct hmem' hmem haddress]

theorem mem_of_deref {a : Nat} (hderef : t.deref a = some h) : h ∈ t.items ∧ h.address = a :=
  ⟨List.mem_of_find?_eq_some hderef, by simpa using List.find?_some hderef⟩

theorem mem_of_find (hfind : t.find hash same key = some h) : h ∈ t.items ∧ same h.key key := by
  unfold Table.find at hfind
  refine ⟨?_, by simpa using List.find?_some hfind⟩
  obtain ⟨a, -, hderef⟩ := List.mem_filterMap.mp (List.mem_of_find?_eq_some hfind)
  exact (mem_of_deref hderef).1

/-- If keys that are the same have the same hash, nothing is overlooked. -/
theorem Valid.find_eq_none_iff (hvalid : Valid hash t)
    (hhash : ∀ h ∈ t.items, same h.key key → hash h.key = hash key) :
    t.find hash same key = none ↔ ∀ h ∈ t.items, ¬ same h.key key := by
  constructor
  · intro hnone h hmem hsame
    have hin : h.address ∈ t.chains (bucketOf t.numBuckets (hash key)) := by
      rw [(hvalid.chains _).mem_iff]
      refine List.mem_map_of_mem (List.mem_filter.mpr ⟨hmem, ?_⟩)
      rw [hvalid.filed h hmem, hhash h hmem hsame]
      exact decide_eq_true rfl
    have hseen : h ∈ (t.chains (bucketOf t.numBuckets (hash key))).filterMap t.deref :=
      List.mem_filterMap.mpr ⟨h.address, hin, deref_of_mem hvalid.distinct hmem⟩
    exact List.find?_eq_none.mp hnone h hseen hsame
  · intro hnone
    cases hfind : t.find hash same key with
    | none => rfl
    | some h =>
      obtain ⟨hmem, hsame⟩ := mem_of_find hfind
      exact absurd hsame (hnone h hmem)

theorem ofNat_two_pow_of_le {k : Nat} (hk : 32 ≤ k) : UInt32.ofNat (2 ^ k) = 0 := by
  obtain ⟨j, rfl⟩ := Nat.exists_eq_add_of_le hk
  rw [← UInt32.toNat_inj, UInt32.toNat_ofNat', pow_add]
  exact Nat.mul_mod_right _ _

theorem mask_double (k : Nat) :
    (UInt32.ofNat (2 ^ k) * 2 - 1) &&& (UInt32.ofNat (2 ^ k) - 1) = UInt32.ofNat (2 ^ k) - 1 := by
  rcases Nat.lt_or_ge k 32 with hlt | hge
  · have hall : ∀ k < 32, (UInt32.ofNat (2 ^ k) * 2 - 1) &&& (UInt32.ofNat (2 ^ k) - 1) =
        UInt32.ofNat (2 ^ k) - 1 := by
      decide
    exact hall k hlt
  · rw [ofNat_two_pow_of_le hge]
    rfl

theorem bucketOf_bucketOf_double (k : Nat) (hashv : UInt32) :
    bucketOf (UInt32.ofNat (2 ^ k)) (bucketOf (UInt32.ofNat (2 ^ k) * 2) hashv) =
      bucketOf (UInt32.ofNat (2 ^ k)) hashv := by
  unfold bucketOf
  rw [UInt32.and_assoc, mask_double]

theorem ofNat_two_pow_succ (k : Nat) : UInt32.ofNat (2 ^ k) * 2 = UInt32.ofNat (2 ^ (k + 1)) := by
  rw [pow_succ, UInt32.ofNat_mul]
  rfl

theorem Valid.expand (hvalid : Valid hash t) : Valid hash t.expand where
  __ := hvalid
  power := by
    show t.numBuckets * 2 = UInt32.ofNat (2 ^ (t.log2NumBuckets + 1))
    rw [hvalid.power, ofNat_two_pow_succ]
  chains := by
    intro b
    refine (List.reverse_perm _).trans (((hvalid.chains _).filter _).trans ?_)
    rw [List.filter_map, List.filter_filter]
    refine List.Perm.of_eq (congrArg (List.map Handle.address) (List.filter_congr ?_))
    intro h hmem
    -- an entry of the new bucket was in the old one
    have hderef := deref_of_mem hvalid.distinct hmem
    have hold : bucketOf (t.numBuckets * 2) h.hashv = b →
        bucketOf t.numBuckets h.hashv = bucketOf t.numBuckets b := by
      rintro rfl
      rw [hvalid.power]
      exact (bucketOf_bucketOf_double _ _).symm
    simp only [Function.comp_apply, hderef, Option.any_some]
    by_cases hb : bucketOf (t.numBuckets * 2) h.hashv = b
    · simp [Table.expand, hb, hold hb]
    · simp [Table.expand, hb]

@[simp] theorem items_add (key : κ) (value : ν) :
    (t.add hash key value).items = t.items ++ [⟨t.fresh, key, value, hash key⟩] := by
  unfold Table.add
  dsimp only
  split
  · rfl
  · rfl

theorem Valid.insert (hvalid : Valid hash t) (key : κ) (value : ν) :
    Valid hash (t.insert hash key value) where
  distinct := by
    have hnew : t.fresh ∉ t.items.map Handle.address := by
      intro hmem
      obtain ⟨h, hmem, haddress⟩ := List.mem_map.mp hmem
      exact absurd (hvalid.below h hmem) (by omega)
    simp only [Table.insert, List.map_append, List.map_cons, List.map_nil]
    exact List.nodup_append.mpr ⟨hvalid.distinct, List.nodup_singleton _, by
      intro a ha b hb
      obtain rfl := List.mem_singleton.mp hb
      exact fun heq => hnew (heq ▸ ha)⟩
  below := by
    intro h hmem
    rcases List.mem_append.mp hmem with hmem | hmem
    · exact (hvalid.below h hmem).trans (Nat.lt_succ_self _)
    · rw [List.mem_singleton.mp hmem]
      exact Nat.lt_succ_self _
  filed := by
    intro h hmem
    rcases List.mem_append.mp hmem with hmem | hmem
    · exact hvalid.filed h hmem
    · rw [List.mem_singleton.mp hmem]
  counted := by
    simp [Table.insert, hvalid.counted]
  power := hvalid.power
  chains := by
    intro b
    simp only [Table.insert, List.filter_append, List.map_append]
    by_cases hb : bucketOf t.numBuckets (hash key) = b
    · simp only [hb, if_true, decide_true, List.filter_cons_of_pos, List.filter_nil, List.map_cons,
        List.map_nil]
      exact ((hvalid.chains b).cons _).trans (List.perm_append_singleton _ _).symm
    · rw [if_neg hb, List.filter_cons_of_neg (by simp [hb]), List.filter_nil, List.map_nil,
        List.append_nil]
      exact hvalid.chains b

theorem Valid.add (hvalid : Valid hash t) (key : κ) (value : ν) :
    Valid hash (t.add hash key value) := by
  unfold Table.add
  dsimp only
  split
  · exact (hvalid.insert key value).expand
  · exact hvalid.insert key value

theorem Valid.setValue (hvalid : Valid hash t) (address : Nat) (value : ν) :
    Valid hash (t.setValue address value) := by
  have haddress : ∀ h : Handle κ ν,
      (if h.address = address then { h with value } else h).address = h.address := by
    intro h
    split <;> rfl
  have hhashv : ∀ h : Handle κ ν,
      (if h.address = address then { h with value } else h).hashv = h.hashv := by
    intro h
    split <;> rfl
  have hkey : ∀ h : Handle κ ν,
      (if h.address = address then { h with value } else h).key = h.key := by
    intro h
    split <;> rfl
  refine ⟨?_, ?_, ?_, ?_, ?_, hvalid.power⟩
  · simp only [Table.setValue, List.map_map, Function.comp_def, haddress]
    exact hvalid.distinct
  · intro h hmem
    obtain ⟨h', hmem', rfl⟩ := List.mem_map.mp hmem
    rw [haddress]
    exact hvalid.below h' hmem'
  · intro h hmem
    obtain ⟨h', hmem', rfl⟩ := List.mem_map.mp hmem
    rw [hhashv, hkey]
    exact hvalid.filed h' hmem'
  · intro b
    simp only [Table.setValue, List.filter_map, List.map_map, Function.comp_def, haddress, hhashv]
    exact hvalid.chains b
  · simp [Table.setValue, hvalid.counted]

theorem items_delete (hmem : h ∈ t.items) :
    (t.delete h).items = t.items.filter fun h' => h'.address ≠ h.address := by
  unfold Table.delete
  split
  · rename_i hone
    obtain ⟨h', hitems⟩ := List.length_eq_one_iff.mp hone
    rw [hitems] at hmem ⊢
    rw [List.mem_singleton.mp hmem]
    simp [Table.empty]
  · rfl

/-- A chain names an entry once, and only the chain of its bucket does. -/
theorem Valid.mem_chain_iff (hvalid : Valid hash t) (hmem : h ∈ t.items) (b : UInt32) :
    h.address ∈ t.chains b ↔ bucketOf t.numBuckets h.hashv = b := by
  rw [(hvalid.chains b).mem_iff, List.mem_map]
  constructor
  · rintro ⟨h', hmem', haddress⟩
    obtain ⟨hmem', hbucket⟩ := List.mem_filter.mp hmem'
    rw [List.inj_on_of_nodup_map hvalid.distinct hmem' hmem haddress] at hbucket
    exact of_decide_eq_true hbucket
  · intro hbucket
    exact ⟨h, List.mem_filter.mpr ⟨hmem, decide_eq_true hbucket⟩, rfl⟩

theorem Valid.chain_nodup (hvalid : Valid hash t) (b : UInt32) : (t.chains b).Nodup := by
  rw [(hvalid.chains b).nodup_iff]
  exact hvalid.distinct.sublist (List.filter_sublist.map _)

theorem Valid.chains_unlink (hvalid : Valid hash t) (hmem : h ∈ t.items) (b : UInt32) :
    (t.unlink h).chains b = (t.chains b).filter fun a => a ≠ h.address := by
  by_cases hb : bucketOf t.numBuckets h.hashv = b
  · rw [show (t.unlink h).chains b = (t.chains b).erase h.address from if_pos hb,
      (hvalid.chain_nodup b).erase_eq_filter]
    exact List.filter_congr fun a _ => Bool.eq_iff_iff.mpr (by simp)
  · rw [show (t.unlink h).chains b = t.chains b from if_neg hb]
    refine (List.filter_eq_self.mpr fun a ha => ?_).symm
    refine decide_eq_true fun heq => hb ((hvalid.mem_chain_iff hmem b).mp ?_)
    rw [← heq]
    exact ha

theorem Valid.unlink (hvalid : Valid hash t) (hmem : h ∈ t.items) : Valid hash (t.unlink h) where
  distinct := hvalid.distinct.sublist (List.filter_sublist.map _)
  below := fun h' hmem' => hvalid.below h' (List.mem_filter.mp hmem').1
  filed := fun h' hmem' => hvalid.filed h' (List.mem_filter.mp hmem').1
  power := hvalid.power
  counted := by
    have hone := List.length_erase_of_mem (List.mem_map_of_mem (f := Handle.address) hmem)
    rw [hvalid.distinct.erase_eq_filter, List.filter_map, List.length_map, List.length_map] at hone
    rw [show (t.unlink h).numItems = t.numItems - 1 from rfl, hvalid.counted, ← hone]
    exact congrArg List.length (List.filter_congr fun h' _ => Bool.eq_iff_iff.mpr (by simp))
  chains := by
    intro b
    rw [hvalid.chains_unlink hmem b]
    refine ((hvalid.chains b).filter _).trans (List.Perm.of_eq ?_)
    rw [List.filter_map]
    refine congrArg (List.map Handle.address) ?_
    simp only [Table.unlink, List.filter_filter, Function.comp_def]
    exact List.filter_congr fun h' _ => Bool.and_comm _ _

theorem Valid.delete (hvalid : Valid hash t) (hmem : h ∈ t.items) : Valid hash (t.delete h) := by
  unfold Table.delete
  split
  · exact valid_empty _
  · exact hvalid.unlink hmem

end

end ChainedTable
end ScyllaDriver
