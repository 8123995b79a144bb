import ScyllaDriver.Inet.AddressLaw

/-!
# Printing an address

`php_scylladb_format_address` prints four decimal bytes with dots between them, or
eight groups in hexadecimal with colons between them. It writes every group, also
where a `::` would do, and no leading zeros.

The text denotes the address it was printed from, so the parser gives the address
back.
-/

namespace ScyllaDriver
namespace Inet

open CString Positional

/-- The `i`-th group of sixteen bits, as `address[2 * i] * 256 + address[2 * i + 1]`. -/
def addressGroup (address : Bytes) (i : Nat) : Nat :=
  (byteAt address (2 * i)).toNat * 256 + (byteAt address (2 * i + 1)).toNat

/-- `php_scylladb_format_address`. -/
def formatAddress (inet : CassInet) : Bytes :=
  if inet.addressLength > 4 then
    List.intercalate [chr ':'] ((List.range 8).map fun i => hexText (addressGroup inet.address i))
  else
    List.intercalate [chr '.']
      ((List.range 4).map fun i => decimalText (byteAt inet.address i).toNat)

/-- An address of one of the two families, with all its bytes. -/
structure Address where
  inet : CassInet
  family : inet.addressLength = v4Length ∨ inet.addressLength = v6Length
  complete : inet.address.length = inet.addressLength

theorem isGroup_hexText {n : Nat} (h : n < 65536) : IsGroup (hexText n) where
  nonempty := hexText_ne_nil n
  short := hexText_length_le (by decide) (by omega)
  digits := fun _ hc => isxdigit_of_mem_hexText hc

/-- Groups in hexadecimal, one after the other. -/
def Piece.ofGroups : (groups : List Nat) → (∀ n ∈ groups, n < 65536) → Piece
  | [], _ => .empty
  | n :: groups, h =>
    .group (hexText n) (isGroup_hexText (h n List.mem_cons_self))
      (ofGroups groups fun m hm => h m (List.mem_cons_of_mem n hm))

section

variable {groups : List Nat}

theorem Piece.ofGroups_texts (h : ∀ n ∈ groups, n < 65536) :
    (Piece.ofGroups groups h).texts = groups.map hexText := by
  induction groups with
  | nil => rfl
  | cons n groups ih =>
    rw [ofGroups, texts, ih, List.map_cons]

theorem Piece.ofGroups_size (h : ∀ n ∈ groups, n < 65536) :
    (Piece.ofGroups groups h).size = groups.length := by
  induction groups with
  | nil => rfl
  | cons n groups ih =>
    rw [ofGroups, size, ih, List.length_cons]

theorem Piece.ofGroups_bytes (h : ∀ n ∈ groups, n < 65536) :
    (Piece.ofGroups groups h).bytes =
      groups.flatMap fun n => [UInt8.ofNat (n / 256), UInt8.ofNat n] := by
  induction groups with
  | nil => rfl
  | cons n groups ih =>
    rw [ofGroups, bytes, ih, groupBytes, groupValue, value_hexText, List.flatMap_cons]

end

theorem addressGroup_lt (address : Bytes) (i : Nat) : addressGroup address i < 65536 := by
  have hhigh := (byteAt address (2 * i)).toNat_lt
  have hlow := (byteAt address (2 * i + 1)).toNat_lt
  unfold addressGroup
  omega

theorem addressGroup_bytes (address : Bytes) (i : Nat) :
    [UInt8.ofNat (addressGroup address i / 256), UInt8.ofNat (addressGroup address i)] =
      [byteAt address (2 * i), byteAt address (2 * i + 1)] := by
  have hlow := (byteAt address (2 * i + 1)).toNat_lt
  have hdiv : addressGroup address i / 256 = (byteAt address (2 * i)).toNat := by
    unfold addressGroup
    omega
  have hmod : addressGroup address i % 256 = (byteAt address (2 * i + 1)).toNat := by
    unfold addressGroup
    omega
  rw [hdiv, UInt8.ofNat_toNat]
  congr 2
  rw [← UInt8.toNat_inj, UInt8.toNat_ofNat', ← hmod]

theorem map_byteAt (bytes : Bytes) : (List.range bytes.length).map (byteAt bytes) = bytes := by
  induction bytes with
  | nil => rfl
  | cons b bytes ih =>
    rw [List.length_cons, List.range_succ_eq_map, List.map_cons, List.map_map]
    exact congrArg (b :: ·) ih

theorem flatMap_byteAt {bytes : Bytes} {k : Nat} (h : bytes.length = 2 * k) :
    ((List.range k).flatMap fun i => [byteAt bytes (2 * i), byteAt bytes (2 * i + 1)]) = bytes := by
  induction k generalizing bytes with
  | zero => exact (List.length_eq_zero_iff.mp h).symm
  | succ k ih =>
    match bytes with
    | [] => simp at h
    | [_] => simp at h; omega
    | x :: y :: bytes =>
      have hrest : bytes.length = 2 * k := by
        simp only [List.length_cons] at h
        omega
      rw [List.range_succ_eq_map, List.flatMap_cons, List.flatMap_map]
      exact congrArg (x :: y :: ·) (ih hrest)

theorem denotes_format_v4 {bytes : Bytes} (h : bytes.length = 4) :
    Denotes (formatAddress ⟨4, bytes⟩) ⟨4, bytes⟩ := by
  have htext : formatAddress ⟨4, bytes⟩ = dottedText bytes := by
    have hbytes := congrArg (List.map fun b => decimalText b.toNat) (map_byteAt bytes)
    rw [h, List.map_map] at hbytes
    exact congrArg (List.intercalate [chr '.']) hbytes
  rw [htext]
  exact .ipv4 ⟨bytes, h⟩

theorem denotes_format_v6 {bytes : Bytes} (h : bytes.length = 16) :
    Denotes (formatAddress ⟨16, bytes⟩) ⟨16, bytes⟩ := by
  have hgroups : ∀ n ∈ (List.range 8).map (addressGroup bytes), n < 65536 := by
    intro n hn
    obtain ⟨i, -, rfl⟩ := List.mem_map.mp hn
    exact addressGroup_lt bytes i
  have htext : formatAddress ⟨16, bytes⟩ = (Piece.ofGroups _ hgroups).text := by
    rw [Piece.text, Piece.ofGroups_texts, List.map_map]
    rfl
  have hbytes : (Piece.ofGroups _ hgroups).bytes = bytes := by
    rw [Piece.ofGroups_bytes, List.flatMap_map]
    simp only [addressGroup_bytes]
    exact flatMap_byteAt h
  have hdenotes := Denotes.ipv6 (Piece.ofGroups _ hgroups) (Piece.ofGroups_size hgroups)
  rwa [← htext, hbytes] at hdenotes

/-- The printed text denotes the address. -/
theorem denotes_formatAddress (a : Address) : Denotes (formatAddress a.inet) a.inet := by
  obtain ⟨⟨length, bytes⟩, hfamily, hcomplete⟩ := a
  rcases hfamily with hlength | hlength
  · obtain rfl : length = 4 := hlength
    exact denotes_format_v4 hcomplete
  · obtain rfl : length = 16 := hlength
    exact denotes_format_v6 hcomplete

/-- An address can be rebuilt from its text. -/
theorem parseIpAddress_formatAddress
    (a : Address) :
    parseIpAddress (formatAddress a.inet) = some (.ok a.inet) :=
  (parseIpAddress_eq_ok_iff _ _).mpr (denotes_formatAddress a)

end Inet
end ScyllaDriver
