import ScyllaDriver.Cluster.Sessions

/-!
# Who shares an entry of the persistent list

Clusters, sessions and prepared statements live in one table under fingerprints of byte
streams. The stream of a session is its cluster's key, a mark and the keyspace; that of a
prepared statement its session's key, the text, a mark and the keyspace.

The text of a statement may contain any bytes, so the stream of a prepared statement is read
from its end. A keyspace is mixed in as a C string: of a null keyspace, or one with a zero
byte, the stream shows no more than the part before the first zero byte.
-/

namespace ScyllaDriver
namespace Cluster

open CString PrefixCode

/-- A call that looks for an entry: `build`, `connect` or `connectAsync`, `prepare`. -/
inductive Lookup where
  | cluster (b : Builder)
  | session (clusterKey : UInt64) (keyspace : Option Bytes)
  | prepared (self : SessionObject) (cql : Bytes)

namespace Lookup

section

variable (thousandths : UInt64 → Int32)

def key : Lookup → UInt64
  | .cluster b => Cluster.cacheKey thousandths b
  | .session clusterKey keyspace => sessionKey clusterKey keyspace
  | .prepared self cql => preparedKey self cql

def stream : Lookup → Bytes
  | .cluster b => keyStream thousandths b
  | .session clusterKey keyspace =>
    littleEndian clusterKey ++ (ascii ":session:" ++ 0 :: (safeZendString keyspace ++ [0]))
  | .prepared self cql =>
    littleEndian self.cacheKey ++
      (cql ++ ascii ":prepared_statement:" ++ 0 :: (safeZendString self.keyspace ++ [0]))

theorem cacheKeyMixBytes_cons (h : UInt64) (c : UInt8) (buf : Bytes) :
    cacheKeyMixBytes h (c :: buf) = cacheKeyMixBytes (cacheKeyMixByte h c) buf :=
  rfl

theorem key_eq (lookup : Lookup) :
    lookup.key thousandths = cacheKeyMixBytes cacheKeyInit (lookup.stream thousandths) := by
  cases lookup with
  | cluster b => exact cacheKey_eq thousandths b
  | session clusterKey keyspace =>
    simp only [key, stream, sessionKey, cacheKeyMixUlong, cacheKeyMixCstr,
      cacheKeyMixBytes_append, cacheKeyMixBytes_cons]
    rfl
  | prepared self cql =>
    simp only [key, stream, preparedKey, cacheKeyMixUlong, cacheKeyMixCstr,
      cacheKeyMixBytes_append, cacheKeyMixBytes_cons]
    rfl

end

/-- The calls may use one entry: they are of one kind, sessions have the same cluster key and
keyspace, and prepared statements the same session key and text. -/
def MayShare : Lookup → Lookup → Prop
  | .cluster _, .cluster _ => True
  | .session clusterKey₁ keyspace₁, .session clusterKey₂ keyspace₂ =>
    clusterKey₁ = clusterKey₂ ∧ keyspace₁ = keyspace₂
  | .prepared self₁ cql₁, .prepared self₂ cql₂ =>
    self₁.cacheKey = self₂.cacheKey ∧ cql₁ = cql₂
  | _, _ => False

section

variable (thousandths : UInt64 → Int32)

/-- Calls that look under one key may share what they find. -/
def SharesRightly (a b : Lookup) : Prop :=
  a.key thousandths = b.key thousandths → MayShare a b

/-- The text of a statement and its keyspace spell the rest of a cluster's stream, and the
session's key its first eight bytes. -/
def Disguised (b : Builder) (self : SessionObject) (cql : Bytes) : Prop :=
  littleEndian self.cacheKey = ascii "cassandr" ∧
    cql ++ ascii ":prepared_statement:" ++ 0 :: (safeZendString self.keyspace ++ [0]) =
      (keyStream thousandths b).drop 8

/-- The pairs of calls that share an entry and should not. -/
def Confused : Lookup → Lookup → Prop
  | .session clusterKey₁ keyspace₁, .session clusterKey₂ keyspace₂ =>
    clusterKey₁ = clusterKey₂ ∧ safeZendString keyspace₁ = safeZendString keyspace₂ ∧
      keyspace₁ ≠ keyspace₂
  | .cluster b, .prepared self cql => Disguised thousandths b self cql
  | .prepared self cql, .cluster b => Disguised thousandths b self cql
  | _, _ => False

end

end Lookup

theorem zero_notMem_safeZendString (s : Option Bytes) : (0 : UInt8) ∉ safeZendString s := by
  intro hmem
  simpa using List.mem_takeWhile_imp hmem

theorem littleEndian_append_inj {v w : UInt64} {r s : Bytes}
    (h : littleEndian v ++ r = littleEndian w ++ s) : v = w ∧ r = s := by
  have hlength : (littleEndian v).length = (littleEndian w).length := by
    rw [littleEndian_length, littleEndian_length]
  obtain ⟨hword, hrest⟩ := List.append_inj h hlength
  exact ⟨littleEndian_injective hword, hrest⟩

/-- A keyspace at the end of a stream: it begins after the last zero byte but one. -/
theorem append_keyspace_inj {r s : Bytes} {keyspace₁ keyspace₂ : Option Bytes}
    (h : r ++ 0 :: (safeZendString keyspace₁ ++ [0]) =
      s ++ 0 :: (safeZendString keyspace₂ ++ [0])) :
    r = s ∧ safeZendString keyspace₁ = safeZendString keyspace₂ := by
  have hreverse := congrArg List.reverse h
  simp only [List.reverse_append, List.reverse_cons, List.reverse_nil, List.nil_append,
    List.append_assoc, List.cons_append, List.cons.injEq, true_and] at hreverse
  obtain ⟨hkeyspace, hrest⟩ := append_mark_inj (by simpa using zero_notMem_safeZendString keyspace₁)
    (by simpa using zero_notMem_safeZendString keyspace₂) hreverse
  exact ⟨List.reverse_injective hrest, List.reverse_injective hkeyspace⟩

theorem keyStream_eq_append (thousandths : UInt64 → Int32) (b : Builder) :
    ∃ rest, keyStream thousandths b = ascii "cassandr" ++ (97 :: 0 :: rest) := by
  obtain ⟨fields, hfields⟩ : ∃ fields,
      fixedFields b = .zstr (some (ascii "cassandra")) :: fields := ⟨_, rfl⟩
  rw [keyStream, keyFields, hfields]
  exact ⟨streamOf (fields ++ _), rfl⟩

theorem drop_keyStream (thousandths : UInt64 → Int32) (b : Builder) :
    keyStream thousandths b = ascii "cassandr" ++ (keyStream thousandths b).drop 8 := by
  obtain ⟨rest, hstream⟩ := keyStream_eq_append thousandths b
  rw [hstream]
  rfl

namespace Lookup

variable {thousandths : UInt64 → Int32}

/-- The stream of a cluster is that of a prepared statement only in disguise. -/
theorem keyStream_eq_prepared_iff (b : Builder) (self : SessionObject) (cql : Bytes) :
    keyStream thousandths b = (prepared self cql).stream thousandths ↔
      Disguised thousandths b self cql := by
  have hlength : (ascii "cassandr").length = (littleEndian self.cacheKey).length := by
    rw [littleEndian_length]
    rfl
  unfold Disguised
  constructor
  · intro h
    rw [drop_keyStream] at h
    obtain ⟨hword, hrest⟩ := List.append_inj h hlength
    exact ⟨hword.symm, hrest.symm⟩
  · rintro ⟨hword, hrest⟩
    rw [drop_keyStream, stream, hword, hrest]

/-- The ninth byte tells a cluster from a session. -/
theorem keyStream_ne_session (b : Builder) (clusterKey : UInt64) (keyspace : Option Bytes) :
    keyStream thousandths b ≠ (session clusterKey keyspace).stream thousandths := by
  intro h
  obtain ⟨rest, hstream⟩ := keyStream_eq_append thousandths b
  rw [hstream, stream] at h
  have hlength : (ascii "cassandr").length = (littleEndian clusterKey).length := by
    rw [littleEndian_length]
    rfl
  have hrest := (List.append_inj h hlength).2
  exact absurd (List.cons.inj hrest).1 (by decide)

theorem session_ne_prepared (clusterKey : UInt64) (keyspace : Option Bytes) (self : SessionObject)
    (cql : Bytes) :
    (session clusterKey keyspace).stream thousandths ≠ (prepared self cql).stream thousandths := by
  intro h
  obtain ⟨-, hrest⟩ := littleEndian_append_inj h
  obtain ⟨hmark, -⟩ := append_keyspace_inj hrest
  have hlength := congrArg List.length hmark
  rw [List.length_append] at hlength
  have hsession : (ascii ":session:").length = 9 := rfl
  have hprepared : (ascii ":prepared_statement:").length = 20 := rfl
  omega

/-- Calls that share an entry may do so, but for sessions whose keyspaces differ in what a C
string does not show, and a statement in the disguise of a cluster. -/
theorem sharesRightly_iff
    {a b : Lookup}
    (hfree : CollisionFree [a.stream thousandths, b.stream thousandths]) :
    SharesRightly thousandths a b ↔ ¬ Confused thousandths a b := by
  have hkey : a.key thousandths = b.key thousandths ↔
      a.stream thousandths = b.stream thousandths := by
    rw [key_eq, key_eq]
    refine ⟨fun h => hfree _ List.mem_cons_self _ (.tail _ List.mem_cons_self) h, fun h => ?_⟩
    rw [h]
  unfold SharesRightly
  rw [hkey]
  cases a with
  | cluster b₁ =>
    cases b with
    | cluster b₂ => exact iff_of_true (fun _ => trivial) not_false
    | session clusterKey keyspace =>
      exact iff_of_true (fun h => absurd h (keyStream_ne_session _ _ _)) not_false
    | prepared self cql =>
      change (keyStream thousandths b₁ = _ → False) ↔ _
      rw [keyStream_eq_prepared_iff]
      rfl
  | session clusterKey₁ keyspace₁ =>
    cases b with
    | cluster b₂ =>
      exact iff_of_true (fun h => absurd h.symm (keyStream_ne_session _ _ _)) not_false
    | session clusterKey₂ keyspace₂ =>
      have hstream : (session clusterKey₁ keyspace₁).stream thousandths =
            (session clusterKey₂ keyspace₂).stream thousandths ↔
          clusterKey₁ = clusterKey₂ ∧ safeZendString keyspace₁ = safeZendString keyspace₂ := by
        constructor
        · intro h
          obtain ⟨hclusters, hrest⟩ := littleEndian_append_inj h
          exact ⟨hclusters, (append_keyspace_inj hrest).2⟩
        · rintro ⟨rfl, hkeyspaces⟩
          rw [stream, stream, hkeyspaces]
      rw [hstream]
      constructor
      · rintro hshare ⟨hclusters, hkeyspaces, hne⟩
        exact hne (hshare ⟨hclusters, hkeyspaces⟩).2
      · intro hconfused ⟨hclusters, hkeyspaces⟩
        exact ⟨hclusters, by_contra fun hne => hconfused ⟨hclusters, hkeyspaces, hne⟩⟩
    | prepared self cql =>
      exact iff_of_true (fun h => absurd h (session_ne_prepared _ _ _ _)) not_false
  | prepared self₁ cql₁ =>
    cases b with
    | cluster b₂ =>
      change (_ = keyStream thousandths b₂ → False) ↔ _
      rw [eq_comm, keyStream_eq_prepared_iff]
      rfl
    | session clusterKey keyspace =>
      exact iff_of_true (fun h => absurd h.symm (session_ne_prepared _ _ _ _)) not_false
    | prepared self₂ cql₂ =>
      refine iff_of_true (fun h => ?_) not_false
      obtain ⟨hsessions, hrest⟩ := littleEndian_append_inj h
      exact ⟨hsessions, List.append_cancel_right (append_keyspace_inj hrest).1⟩

theorem sessionKey_congr (clusterKey : UInt64) {keyspace₁ keyspace₂ : Option Bytes}
    (h : safeZendString keyspace₁ = safeZendString keyspace₂) :
    sessionKey clusterKey keyspace₁ = sessionKey clusterKey keyspace₂ := by
  rw [sessionKey, sessionKey, h]

theorem sharesRightly_two_clusters :
    SharesRightly (fun _ => 0) (.session 1 none) (.session 2 none) :=
  (sharesRightly_iff (by decide +kernel)).mpr fun hconfused => absurd hconfused.1 (by decide)

/-- A connect without a keyspace and one with an empty name share a session, as do two with
names that differ after a zero byte. -/
theorem keyspaces_share_session :
    ¬ SharesRightly (fun _ => 0) (.session 1 none) (.session 1 (some [])) ∧
      ¬ SharesRightly (fun _ => 0) (.session 1 (some (ascii "ks" ++ 0 :: ascii "a")))
        (.session 1 (some (ascii "ks" ++ 0 :: ascii "b"))) := by
  refine ⟨fun h => ?_, fun h => ?_⟩
  · exact absurd (h (sessionKey_congr 1 rfl)).2 (by decide)
  · exact absurd (h (sessionKey_congr 1 (by decide))).2 (by decide)

end Lookup

end Cluster
end ScyllaDriver
