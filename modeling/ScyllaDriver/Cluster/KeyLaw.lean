import ScyllaDriver.Cluster.Builder

/-!
# What the cache key tells of a builder

Of builders whose strings have no zero bytes, the key's stream shows every
number, every string up to the difference between null and empty, and every
profile call up to its truncated arguments. TLS options, retry policy and
timestamp generator do not enter it. `Unmixed` collects what is missing: two
builders with one key configure their clusters alike exactly if they agree in
it.
-/

namespace ScyllaDriver
namespace Cluster

open CString PrefixCode

/-- The settings `build()` applies that do not enter the cache key. -/
structure Unmixed where
  sslOptions : Option UInt64
  retryPolicy : Option UInt64
  timestampGen : Option UInt64
  /-- Which of the strings applied conditionally are set. -/
  stringsSet : List Bool
  /-- For each profile and each call on it, the arguments cut short. -/
  truncatedArgs : List (List (List UInt64))
  deriving DecidableEq

namespace Builder

/-- Strings the driver gets only if they are set. -/
def conditionalStrings (b : Builder) : List (Option Bytes) :=
  [ b.blacklistHosts, b.whitelistHosts, b.blacklistDcs, b.whitelistDcs, b.localAddress,
    b.applicationName, b.applicationVersion ]

def unmixed (b : Builder) : Unmixed where
  sslOptions := b.sslOptions
  retryPolicy := b.retryPolicy
  timestampGen := b.timestampGen
  stringsSet := b.credentials.isSome :: b.conditionalStrings.map Option.isSome
  truncatedArgs := b.executionProfiles.map fun profile => profile.2.map ProfileCall.truncatedArgs

/-- Every string the key is made from. -/
def strings (b : Builder) : List Bytes :=
  [ b.contactPoints, (b.credentials.map Prod.fst).getD [], (b.credentials.map Prod.snd).getD [],
    b.localDc.getD [], b.localRack.getD [] ] ++
  b.conditionalStrings.map (Option.getD · []) ++
  b.executionProfiles.map Prod.fst

structure Clean (b : Builder) : Prop where
  strings : ∀ s ∈ b.strings, (0 : UInt8) ∉ s
  calls : ∀ profile ∈ b.executionProfiles, ∀ call ∈ profile.2, call.Clean

end Builder

@[simp] theorem Mixed.zstr_content (s : Option Bytes) :
    (Mixed.zstr s).content = .text (s.getD []) :=
  rfl

@[simp] theorem Mixed.int_content_inj {v w : Int64} :
    (Mixed.int v).content = (Mixed.int w).content ↔ v = w := by
  constructor
  · intro h
    exact Function.LeftInverse.injective Int64.toInt64_toUInt64 (Content.word.inj h)
  · rintro rfl
    rfl

@[simp] theorem Mixed.uint32_content_inj {v w : UInt32} :
    (Mixed.uint32 v).content = (Mixed.uint32 w).content ↔ v = w := by
  rw [Mixed.uint32, Mixed.uint32, Mixed.int_content_inj]
  constructor
  · intro h
    have hlong : v.toUInt64 = w.toUInt64 := by
      simpa using congrArg Int64.toUInt64 h
    simpa using congrArg UInt64.toUInt32 hlong
  · rintro rfl
    rfl

@[simp] theorem Mixed.uint16_content_inj {v w : UInt16} :
    (Mixed.uint16 v).content = (Mixed.uint16 w).content ↔ v = w := by
  rw [Mixed.uint16, Mixed.uint16, Mixed.int_content_inj]
  constructor
  · intro h
    have hlong : v.toUInt64 = w.toUInt64 := by
      simpa using congrArg Int64.toUInt64 h
    simpa using congrArg UInt64.toUInt16 hlong
  · rintro rfl
    rfl

@[simp] theorem Mixed.int32_content_inj {v w : Int32} :
    (Mixed.int32 v).content = (Mixed.int32 w).content ↔ v = w :=
  mixInt32_content_inj

@[simp] theorem Mixed.bool_content_inj {a b : Bool} :
    (Mixed.bool a).content = (Mixed.bool b).content ↔ a = b := by
  rw [Mixed.bool, Mixed.bool, Mixed.int_content_inj]
  cases a <;> cases b <;> decide

@[simp] theorem LoadBalancing.code_inj {a b : LoadBalancing} : a.code = b.code ↔ a = b := by
  cases a <;> cases b <;> decide

@[simp] theorem ReconnectPolicy.code_inj {a b : ReconnectPolicy} : a.code = b.code ↔ a = b := by
  cases a <;> cases b <;> decide

variable {b₁ b₂ : Builder}

theorem alike_fixedFields (hclean₁ : b₁.Clean) (hclean₂ : b₂.Clean) :
    List.Forall₂ Content.Alike ((fixedFields b₁).map Mixed.content)
      ((fixedFields b₂).map Mixed.content) := by
  have h₁ := hclean₁.strings
  have h₂ := hclean₂.strings
  simp only [Builder.strings, Builder.conditionalStrings, List.cons_append, List.nil_append,
    List.map_cons, List.map_nil, List.forall_mem_cons] at h₁ h₂
  simp only [fixedFields, List.map_cons, List.map_nil, List.forall₂_cons, Content.Alike,
    Mixed.content, Mixed.uint32, Mixed.uint16, Mixed.int32, Mixed.bool, Option.getD_some,
    List.Forall₂.nil, h₁, h₂, not_false_eq_true, and_self, and_true]
  decide

theorem eq_of_isSome_eq_of_getD_eq {s t : Option Bytes} (hset : s.isSome = t.isSome)
    (hbytes : s.getD [] = t.getD []) : s = t := by
  cases s <;> cases t <;> simp_all

theorem credentials_eq {s t : Option (Bytes × Bytes)} (hset : s.isSome = t.isSome)
    (husername : (s.map Prod.fst).getD [] = (t.map Prod.fst).getD [])
    (hpassword : (s.map Prod.snd).getD [] = (t.map Prod.snd).getD []) : s = t := by
  cases s <;> cases t <;> simp_all [Prod.ext_iff]

/-- The fixed part of the stream, the unmixed settings and the profiles are all
that `build()` applies. -/
theorem applied_eq_of_fields_eq (backend : Backend)
    (hfields : (fixedFields b₁).map Mixed.content = (fixedFields b₂).map Mixed.content)
    (hunmixed : b₁.unmixed = b₂.unmixed) (hprofiles : b₁.executionProfiles = b₂.executionProfiles) :
    applied backend b₁ = applied backend b₂ := by
  simp only [fixedFields, List.map_cons, List.map_nil, List.cons.injEq, Mixed.zstr_content,
    Content.text.injEq, Option.getD_some, Mixed.int_content_inj, Mixed.uint32_content_inj,
    Mixed.uint16_content_inj, Mixed.int32_content_inj, Mixed.bool_content_inj,
    LoadBalancing.code_inj, ReconnectPolicy.code_inj, true_and, and_true] at hfields
  simp only [Builder.unmixed, Builder.conditionalStrings, List.map_cons, List.map_nil,
    Unmixed.mk.injEq, List.cons.injEq, and_true] at hunmixed
  obtain ⟨hssl, hretry, hgen, ⟨hcredentials, hblackHosts, hwhiteHosts, hblackDcs, hwhiteDcs,
    haddress, hname, hversion⟩, -⟩ := hunmixed
  have hcredentials' : b₁.credentials = b₂.credentials :=
    credentials_eq hcredentials (by simp only [hfields]) (by simp only [hfields])
  have hblackHosts' := eq_of_isSome_eq_of_getD_eq hblackHosts (by simp only [hfields])
  have hwhiteHosts' := eq_of_isSome_eq_of_getD_eq hwhiteHosts (by simp only [hfields])
  have hblackDcs' := eq_of_isSome_eq_of_getD_eq hblackDcs (by simp only [hfields])
  have hwhiteDcs' := eq_of_isSome_eq_of_getD_eq hwhiteDcs (by simp only [hfields])
  have haddress' := eq_of_isSome_eq_of_getD_eq haddress (by simp only [hfields])
  have hname' := eq_of_isSome_eq_of_getD_eq hname (by simp only [hfields])
  have hversion' := eq_of_isSome_eq_of_getD_eq hversion (by simp only [hfields])
  simp only [applied, balancingCall, reconnectCall, cppSettings, safeZendString, hfields, hssl,
    hretry, hgen, hcredentials', hblackHosts', hwhiteHosts', hblackDcs', hwhiteDcs', haddress',
    hname', hversion', hprofiles]

section

variable {thousandths : UInt64 → Int32}

def profileSeen (thousandths : UInt64 → Int32) (profile : Bytes × List ProfileCall) :
    List Content :=
  (profileFields thousandths profile).map Mixed.content

variable {p q : Bytes × List ProfileCall}

theorem alike_profileSeen (hp : (0 : UInt8) ∉ p.1) (hq : (0 : UInt8) ∉ q.1) :
    List.Forall₂ Content.Alike (profileSeen thousandths p) (profileSeen thousandths q) := by
  simp [profileSeen, profileFields, Mixed.content, Content.Alike, hp, hq]

theorem keyStream_eq (b : Builder) :
    keyStream thousandths b = ((fixedFields b).map Mixed.content).flatMap Content.bytes ++
      (b.executionProfiles.map (profileSeen thousandths)).flatMap
        (fun contents => contents.flatMap Content.bytes) := by
  simp only [keyStream, streamOf, keyFields, List.map_append, List.flatMap_append,
    List.map_flatMap, List.flatMap_assoc, List.flatMap_map, profileSeen]

theorem Builder.Clean.profile_name {b : Builder} (h : b.Clean) {profile : Bytes × List ProfileCall}
    (hprofile : profile ∈ b.executionProfiles) : (0 : UInt8) ∉ profile.1 :=
  h.strings profile.1 (List.mem_append_right _ (List.mem_map_of_mem hprofile))

/-- Equal streams show the same fixed fields, and the same names and
fingerprints of profiles. -/
theorem seen_eq_of_keyStream_eq (hclean₁ : b₁.Clean) (hclean₂ : b₂.Clean)
    (h : keyStream thousandths b₁ = keyStream thousandths b₂) :
    (fixedFields b₁).map Mixed.content = (fixedFields b₂).map Mixed.content ∧
      b₁.executionProfiles.map (profileSeen thousandths) =
        b₂.executionProfiles.map (profileSeen thousandths) := by
  rw [keyStream_eq, keyStream_eq] at h
  obtain ⟨hfields, hrest⟩ := separable_content.flatMap (alike_fixedFields hclean₁ hclean₂) h
  refine ⟨hfields, ?_⟩
  have hseparable : Separable (fun contents : List Content => contents.flatMap Content.bytes)
      (List.Forall₂ Content.Alike) :=
    fun _ _ halike _ _ htext => separable_content.flatMap halike htext
  have hnonempty : ∀ profiles : List (Bytes × List ProfileCall),
      ∀ x ∈ profiles.map (profileSeen thousandths), x.flatMap Content.bytes ≠ [] := by
    intro profiles x hx
    obtain ⟨profile, _, rfl⟩ := List.mem_map.mp hx
    simp [profileSeen, profileFields, Mixed.content, Content.bytes]
  refine hseparable.flatMap_inj (hnonempty _) (hnonempty _) ?_ hrest
  intro x hx y hy
  obtain ⟨p, hp, rfl⟩ := List.mem_map.mp hx
  obtain ⟨q, hq, rfl⟩ := List.mem_map.mp hy
  exact alike_profileSeen (hclean₁.profile_name hp) (hclean₂.profile_name hq)

theorem profile_eq_of_seen_eq (hp : ∀ call ∈ p.2, call.Clean) (hq : ∀ call ∈ q.2, call.Clean)
    (hfree : configHash thousandths p.2 = configHash thousandths q.2 →
      profileStream thousandths p.2 = profileStream thousandths q.2)
    (hseen : profileSeen thousandths p = profileSeen thousandths q)
    (htruncated : p.2.map ProfileCall.truncatedArgs = q.2.map ProfileCall.truncatedArgs) :
    p = q := by
  simp only [profileSeen, profileFields, List.map_cons, List.map_nil, Mixed.content,
    List.cons.injEq, Content.text.injEq, Content.word.injEq, Option.getD_some, and_true] at hseen
  have hcalls := eq_of_views_eq (fun _ _ _ _ => eq_of_seen_eq)
    (map_seen_eq_of_profileStream_eq hp hq (hfree hseen.2)) htruncated
  exact Prod.ext hseen.1 hcalls

theorem CollisionFree.keyStream_eq
    (hfree : CollisionFree (fingerprinted thousandths b₁ ++ fingerprinted thousandths b₂))
    (hkey : cacheKey thousandths b₁ = cacheKey thousandths b₂) :
    keyStream thousandths b₁ = keyStream thousandths b₂ := by
  rw [cacheKey_eq, cacheKey_eq] at hkey
  exact hfree _ (List.mem_append_left _ List.mem_cons_self) _
    (List.mem_append_right _ List.mem_cons_self) hkey

theorem CollisionFree.profileStream_eq
    (hfree : CollisionFree (fingerprinted thousandths b₁ ++ fingerprinted thousandths b₂))
    (hp : p ∈ b₁.executionProfiles) (hq : q ∈ b₂.executionProfiles)
    (hhash : configHash thousandths p.2 = configHash thousandths q.2) :
    profileStream thousandths p.2 = profileStream thousandths q.2 := by
  rw [configHash_eq, configHash_eq] at hhash
  refine hfree _ (List.mem_append_left _ (List.mem_cons_of_mem _ ?_)) _
    (List.mem_append_right _ (List.mem_cons_of_mem _ ?_)) hhash
  · exact List.mem_map_of_mem hp
  · exact List.mem_map_of_mem hq

/-- Builders with one key that agree in the unmixed settings have the same
profiles. -/
theorem executionProfiles_eq (hclean₁ : b₁.Clean) (hclean₂ : b₂.Clean)
    (hfree : CollisionFree (fingerprinted thousandths b₁ ++ fingerprinted thousandths b₂))
    (hseen : b₁.executionProfiles.map (profileSeen thousandths) =
      b₂.executionProfiles.map (profileSeen thousandths))
    (hunmixed : b₁.unmixed = b₂.unmixed) :
    b₁.executionProfiles = b₂.executionProfiles := by
  refine eq_of_views_eq ?_ hseen (congrArg Unmixed.truncatedArgs hunmixed)
  intro p hp q hq
  exact profile_eq_of_seen_eq (hclean₁.calls p hp) (hclean₂.calls q hq)
    (hfree.profileStream_eq hp hq)

end

@[simp] theorem ProfileCall.truncatedArgs_handed (call : ProfileCall) :
    call.handed.truncatedArgs = call.truncatedArgs := by
  cases call <;> rfl

theorem unmixed_eq_of_applied_eq {backend : Backend} (h : applied backend b₁ = applied backend b₂) :
    b₁.unmixed = b₂.unmixed := by
  have hprofiles : ∀ b : Builder, b.unmixed.truncatedArgs =
      (applied backend b).executionProfiles.map
        fun profile => profile.2.map ProfileCall.truncatedArgs := by
    intro b
    simp [Builder.unmixed, applied, Function.comp_def]
  have htruncated : b₁.unmixed.truncatedArgs = b₂.unmixed.truncatedArgs := by
    rw [hprofiles, hprofiles, h]
  simp only [applied, ClusterSettings.mk.injEq] at h
  simp only [Builder.unmixed, Builder.conditionalStrings, Unmixed.mk.injEq, h, true_and]
  exact htruncated

theorem applied_eq_of_unmixed_eq {thousandths : UInt64 → Int32} (backend : Backend)
    (hclean₁ : b₁.Clean) (hclean₂ : b₂.Clean)
    (hfree : CollisionFree (fingerprinted thousandths b₁ ++ fingerprinted thousandths b₂))
    (hkey : cacheKey thousandths b₁ = cacheKey thousandths b₂)
    (hunmixed : b₁.unmixed = b₂.unmixed) : applied backend b₁ = applied backend b₂ := by
  obtain ⟨hfields, hprofiles⟩ := seen_eq_of_keyStream_eq hclean₁ hclean₂ (hfree.keyStream_eq hkey)
  exact applied_eq_of_fields_eq backend hfields hunmixed
    (executionProfiles_eq hclean₁ hclean₂ hfree hprofiles hunmixed)

/-- Two builders with one cache key configure their clusters alike exactly if
they agree in the settings that do not enter the key. -/
theorem applied_eq_iff_unmixed_eq
    (thousandths : UInt64 → Int32)
    (backend : Backend)
    {b₁ b₂ : Builder}
    (hclean₁ : b₁.Clean)
    (hclean₂ : b₂.Clean)
    (hfree : CollisionFree (fingerprinted thousandths b₁ ++ fingerprinted thousandths b₂))
    (hkey : cacheKey thousandths b₁ = cacheKey thousandths b₂) :
    applied backend b₁ = applied backend b₂ ↔ b₁.unmixed = b₂.unmixed := by
  constructor
  · exact unmixed_eq_of_applied_eq
  · exact applied_eq_of_unmixed_eq backend hclean₁ hclean₂ hfree hkey

theorem clean_initial : Builder.initial.Clean where
  strings := by decide
  calls := by
    intro profile hprofile
    cases hprofile

theorem collisionFree_of_forall_eq {streams : List Bytes} {s : Bytes} (h : ∀ t ∈ streams, t = s) :
    CollisionFree streams := by
  intro a ha b hb _
  rw [h a ha, h b hb]

/-- A local datacenter that is null or empty makes no difference. -/
theorem applied_eq_iff_unmixed_eq_localDc :
    applied .scylla { Builder.initial with localDc := some [] } =
        applied .scylla Builder.initial ↔
      ({ Builder.initial with localDc := some [] } : Builder).unmixed =
        Builder.initial.unmixed := by
  have hstream : keyStream (fun _ => 0) { Builder.initial with localDc := some [] } =
      keyStream (fun _ => 0) Builder.initial := by decide +kernel
  refine applied_eq_iff_unmixed_eq (fun _ => 0) .scylla ⟨by decide, clean_initial.calls⟩
    clean_initial (collisionFree_of_forall_eq (s := keyStream (fun _ => 0) Builder.initial) ?_) ?_
  · intro t ht
    have hpair : t = keyStream (fun _ => 0) { Builder.initial with localDc := some [] } ∨
        t = keyStream (fun _ => 0) Builder.initial := by
      simpa [fingerprinted, Builder.initial] using ht
    rcases hpair with rfl | rfl
    · exact hstream
    · rfl
  · rw [cacheKey_eq, cacheKey_eq, hstream]

/-- A builder with TLS options has the key of one without, so either may get
the other's cluster; and a zero byte moves the border between user name and
password. -/
theorem key_misses_tls_and_zero_bytes :
    (cacheKey (fun _ => 0) { Builder.initial with sslOptions := some 4096 } =
        cacheKey (fun _ => 0) Builder.initial ∧
      applied .scylla { Builder.initial with sslOptions := some 4096 } ≠
        applied .scylla Builder.initial) ∧
    (cacheKey (fun _ => 0) { Builder.initial with credentials := some ([97, 0, 98], [99]) } =
        cacheKey (fun _ => 0) { Builder.initial with credentials := some ([97], [98, 0, 99]) } ∧
      applied .scylla { Builder.initial with credentials := some ([97, 0, 98], [99]) } ≠
        applied .scylla { Builder.initial with credentials := some ([97], [98, 0, 99]) }) := by
  refine ⟨⟨rfl, by decide⟩, ?_, by decide⟩
  have hstream :
      keyStream (fun _ => 0) { Builder.initial with credentials := some ([97, 0, 98], [99]) } =
        keyStream (fun _ => 0)
          { Builder.initial with credentials := some ([97], [98, 0, 99]) } := by
    decide +kernel
  rw [cacheKey_eq, cacheKey_eq, hstream]

end Cluster
end ScyllaDriver
