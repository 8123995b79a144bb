import ScyllaDriver.Cluster.CacheKey

/-!
# Execution profiles and their fingerprint

A `Cassandra\ExecutionProfile` hands every setting to the driver at once and
keeps a running fingerprint of the calls, because the driver's profile cannot
be read back. Each setter mixes in a tag and its arguments.

Integer arguments go through a cast to `int` on their way into the
fingerprint, so it sees 32 bits of a timeout in milliseconds, of a retry
policy's address and of the minimum number of measurements. Of the exclusion
threshold, a double, it sees the whole part of its thousandfold; that C
expression is the parameter `thousandths`.
-/

namespace ScyllaDriver
namespace Cluster

open CString PrefixCode

/-- The setters that mix something in. -/
inductive ProfileSetter where
  | consistency
  | serialConsistency
  | requestTimeout
  | retryPolicy
  | roundRobin
  | dcAware
  | tokenAware
  | shuffleReplicas
  | latencyAware
  | latencyAwareSettings
  | speculative
  | noSpeculative
  | whitelistHosts
  | blacklistHosts
  | whitelistDcs
  | blacklistDcs
  deriving DecidableEq

def ProfileSetter.tag : ProfileSetter → String
  | .consistency => "consistency"
  | .serialConsistency => "serial_consistency"
  | .requestTimeout => "request_timeout"
  | .retryPolicy => "retry_policy"
  | .roundRobin => "lb_round_robin"
  | .dcAware => "lb_dc_aware"
  | .tokenAware => "token_aware"
  | .shuffleReplicas => "shuffle_replicas"
  | .latencyAware => "latency_aware"
  | .latencyAwareSettings => "latency_aware_settings"
  | .speculative => "speculative"
  | .noSpeculative => "no_speculative"
  | .whitelistHosts => "whitelist_hosts"
  | .blacklistHosts => "blacklist_hosts"
  | .whitelistDcs => "whitelist_dcs"
  | .blacklistDcs => "blacklist_dcs"

inductive ProfileCall where
  | consistency (level : Int32)
  | serialConsistency (level : Int32)
  | requestTimeout (timeoutMs : UInt64)
  | retryPolicy (policy : UInt64)
  | roundRobin
  | dcAware (localDc : Bytes) (hostsPerRemoteDc : UInt32) (allowRemoteForLocal : Bool)
  | tokenAware (enabled : Bool)
  | shuffleReplicas (enabled : Bool)
  | latencyAware (enabled : Bool)
  | latencyAwareSettings (exclusionThreshold : UInt64)
      (scaleMs retryPeriodMs updateRateMs minMeasured : UInt64)
  | speculative (delayMs : Int64) (maxExecutions : Int32)
  | noSpeculative
  | whitelistHosts (joined : Bytes)
  | blacklistHosts (joined : Bytes)
  | whitelistDcs (joined : Bytes)
  | blacklistDcs (joined : Bytes)
  deriving DecidableEq

/-- `PHP_SCYLLADB_PROFILE_MIX_INT`: the argument as an `int`. -/
def mixInt32 (v : Int32) : Mixed :=
  .int v.toInt64

/-- The low 32 bits of an argument as an `int`. -/
def mixTruncated (v : UInt64) : Mixed :=
  mixInt32 v.toUInt32.toInt32

def mixBool (b : Bool) : Mixed :=
  mixInt32 (if b then 1 else 0)

namespace ProfileCall

def setter : ProfileCall → ProfileSetter
  | .consistency _ => .consistency
  | .serialConsistency _ => .serialConsistency
  | .requestTimeout _ => .requestTimeout
  | .retryPolicy _ => .retryPolicy
  | .roundRobin => .roundRobin
  | .dcAware _ _ _ => .dcAware
  | .tokenAware _ => .tokenAware
  | .shuffleReplicas _ => .shuffleReplicas
  | .latencyAware _ => .latencyAware
  | .latencyAwareSettings _ _ _ _ _ => .latencyAwareSettings
  | .speculative _ _ => .speculative
  | .noSpeculative => .noSpeculative
  | .whitelistHosts _ => .whitelistHosts
  | .blacklistHosts _ => .blacklistHosts
  | .whitelistDcs _ => .whitelistDcs
  | .blacklistDcs _ => .blacklistDcs

section

variable (thousandths : UInt64 → Int32)

def mixedArgs : ProfileCall → List Mixed
  | .consistency level => [mixInt32 level]
  | .serialConsistency level => [mixInt32 level]
  | .requestTimeout timeoutMs => [mixTruncated timeoutMs]
  | .retryPolicy policy => [mixTruncated policy]
  | .roundRobin => []
  | .dcAware localDc hostsPerRemoteDc allowRemoteForLocal =>
    [.zstr (some localDc), mixInt32 hostsPerRemoteDc.toInt32, mixBool allowRemoteForLocal]
  | .tokenAware enabled => [mixBool enabled]
  | .shuffleReplicas enabled => [mixBool enabled]
  | .latencyAware enabled => [mixBool enabled]
  | .latencyAwareSettings exclusionThreshold scaleMs retryPeriodMs updateRateMs minMeasured =>
    [mixInt32 (thousandths exclusionThreshold), mixTruncated scaleMs,
      mixTruncated retryPeriodMs, mixTruncated updateRateMs, mixTruncated minMeasured]
  | .speculative delayMs maxExecutions =>
    [mixTruncated delayMs.toUInt64, mixInt32 maxExecutions]
  | .noSpeculative => []
  | .whitelistHosts joined => [.zstr (some joined)]
  | .blacklistHosts joined => [.zstr (some joined)]
  | .whitelistDcs joined => [.zstr (some joined)]
  | .blacklistDcs joined => [.zstr (some joined)]

def mixed (call : ProfileCall) : List Mixed :=
  .zstr (some (ascii call.setter.tag)) :: call.mixedArgs thousandths

/-- The arguments of which the fingerprint sees a part only. -/
def truncatedArgs : ProfileCall → List UInt64
  | .requestTimeout timeoutMs => [timeoutMs]
  | .retryPolicy policy => [policy]
  | .latencyAwareSettings exclusionThreshold scaleMs retryPeriodMs updateRateMs minMeasured =>
    [exclusionThreshold, scaleMs, retryPeriodMs, updateRateMs, minMeasured]
  | .speculative delayMs _ => [delayMs.toUInt64]
  | _ => []

/-- What the driver makes of the call: a filter is handed over as a C string,
which ends at the first zero byte. -/
def handed : ProfileCall → ProfileCall
  | .whitelistHosts joined => .whitelistHosts (joined.takeWhile (· ≠ 0))
  | .blacklistHosts joined => .blacklistHosts (joined.takeWhile (· ≠ 0))
  | .whitelistDcs joined => .whitelistDcs (joined.takeWhile (· ≠ 0))
  | .blacklistDcs joined => .blacklistDcs (joined.takeWhile (· ≠ 0))
  | call => call

/-- No string argument contains a zero byte. -/
def Clean : ProfileCall → Prop
  | .dcAware localDc _ _ => (0 : UInt8) ∉ localDc
  | .whitelistHosts joined => (0 : UInt8) ∉ joined
  | .blacklistHosts joined => (0 : UInt8) ∉ joined
  | .whitelistDcs joined => (0 : UInt8) ∉ joined
  | .blacklistDcs joined => (0 : UInt8) ∉ joined
  | _ => True

end

end ProfileCall

/-- `config_hash`: the fingerprint of the calls so far. -/
def configHash (thousandths : UInt64 → Int32) (calls : List ProfileCall) : UInt64 :=
  (calls.flatMap (ProfileCall.mixed thousandths)).foldl Mixed.mix cacheKeyInit

def profileStream (thousandths : UInt64 → Int32) (calls : List ProfileCall) : Bytes :=
  streamOf (calls.flatMap (ProfileCall.mixed thousandths))

theorem configHash_eq (thousandths : UInt64 → Int32) (calls : List ProfileCall) :
    configHash thousandths calls =
      cacheKeyMixBytes cacheKeyInit (profileStream thousandths calls) :=
  foldl_mix _ _

section

variable (thousandths : UInt64 → Int32)

theorem mixInt32_content_inj {v w : Int32} :
    (mixInt32 v).content = (mixInt32 w).content ↔ v = w := by
  constructor
  · intro h
    have hword : v.toInt64.toUInt64 = w.toInt64.toUInt64 := Content.word.inj h
    have hlong : v.toInt64 = w.toInt64 := by
      simpa using congrArg UInt64.toInt64 hword
    simpa using congrArg Int64.toInt32 hlong
  · rintro rfl
    rfl

theorem zstr_content (s : Bytes) : (Mixed.zstr (some s)).content = .text s :=
  rfl

theorem mixBool_content_inj {a b : Bool} : (mixBool a).content = (mixBool b).content ↔ a = b := by
  rw [mixBool, mixBool, mixInt32_content_inj]
  cases a <;> cases b <;> decide

def ProfileCall.seen (call : ProfileCall) : List Content :=
  (call.mixed thousandths).map Mixed.content

variable {thousandths}

theorem zero_notMem_tag (setter : ProfileSetter) : (0 : UInt8) ∉ ascii setter.tag := by
  cases setter <;> decide

theorem setter_eq_of_tag_eq {setter₁ setter₂ : ProfileSetter}
    (h : ascii setter₁.tag = ascii setter₂.tag) : setter₁ = setter₂ := by
  cases setter₁ <;> cases setter₂ <;> first | rfl | exact absurd h (by decide)

theorem alike_of_setter_eq {a b : ProfileCall} (ha : a.Clean) (hb : b.Clean)
    (hsetter : a.setter = b.setter) :
    List.Forall₂ Content.Alike ((a.mixedArgs thousandths).map Mixed.content)
      ((b.mixedArgs thousandths).map Mixed.content) := by
  cases a <;> cases b <;> cases hsetter <;>
    simp_all [ProfileCall.mixedArgs, ProfileCall.Clean, Mixed.content, Content.Alike,
      mixInt32, mixTruncated, mixBool]

/-- The front of a stream shows one call and where it ends. -/
theorem separable_seen (thousandths : UInt64 → Int32) :
    Separable (fun contents : List Content => contents.flatMap Content.bytes)
      (fun x y => ∃ a b : ProfileCall, a.Clean ∧ b.Clean ∧
        x = a.seen thousandths ∧ y = b.seen thousandths) := by
  rintro _ _ ⟨a, b, ha, hb, rfl, rfl⟩ r s h
  -- the tag first: it tells of which sorts the arguments are
  have htext : ascii a.setter.tag ++ 0 :: (((a.mixedArgs thousandths).map
        Mixed.content).flatMap Content.bytes ++ r) =
      ascii b.setter.tag ++ 0 :: (((b.mixedArgs thousandths).map
        Mixed.content).flatMap Content.bytes ++ s) := by
    simpa [ProfileCall.seen, ProfileCall.mixed, Mixed.content, Content.bytes] using h
  obtain ⟨htag, hargs⟩ := append_mark_inj (zero_notMem_tag _) (zero_notMem_tag _) htext
  have hsetter := setter_eq_of_tag_eq htag
  obtain ⟨hcontents, hrest⟩ := separable_content.flatMap (alike_of_setter_eq ha hb hsetter) hargs
  refine ⟨?_, hrest⟩
  simp only [ProfileCall.seen, ProfileCall.mixed, List.map_cons, hcontents, hsetter]

theorem profileStream_eq (calls : List ProfileCall) :
    profileStream thousandths calls =
      (calls.map (ProfileCall.seen thousandths)).flatMap
        (fun contents => contents.flatMap Content.bytes) := by
  simp [profileStream, streamOf, List.map_flatMap, List.flatMap_assoc, List.flatMap_map,
    ProfileCall.seen]

theorem map_seen_eq_of_profileStream_eq {calls₁ calls₂ : List ProfileCall}
    (hclean₁ : ∀ call ∈ calls₁, call.Clean) (hclean₂ : ∀ call ∈ calls₂, call.Clean)
    (h : profileStream thousandths calls₁ = profileStream thousandths calls₂) :
    calls₁.map (ProfileCall.seen thousandths) = calls₂.map (ProfileCall.seen thousandths) := by
  rw [profileStream_eq, profileStream_eq] at h
  have hnonempty : ∀ calls : List ProfileCall,
      ∀ x ∈ calls.map (ProfileCall.seen thousandths), x.flatMap Content.bytes ≠ [] := by
    intro calls x hx
    obtain ⟨call, _, rfl⟩ := List.mem_map.mp hx
    simp [ProfileCall.seen, ProfileCall.mixed, Mixed.content, Content.bytes]
  refine (separable_seen thousandths).flatMap_inj (hnonempty _) (hnonempty _) ?_ h
  intro x hx y hy
  obtain ⟨a, ha, rfl⟩ := List.mem_map.mp hx
  obtain ⟨b, hb, rfl⟩ := List.mem_map.mp hy
  exact ⟨a, b, hclean₁ a ha, hclean₂ b hb, rfl, rfl⟩

theorem eq_of_seen_eq {a b : ProfileCall} (hseen : a.seen thousandths = b.seen thousandths)
    (htruncated : a.truncatedArgs = b.truncatedArgs) : a = b := by
  obtain ⟨htag, hargs⟩ := List.cons.inj hseen
  have hsetter := setter_eq_of_tag_eq (Content.text.inj htag)
  clear htag hseen
  cases a <;> cases b <;> cases hsetter <;>
    simp_all [ProfileCall.mixedArgs, ProfileCall.truncatedArgs, mixInt32_content_inj,
      mixBool_content_inj, zstr_content,
      (Function.LeftInverse.injective UInt32.toUInt32_toInt32).eq_iff]
  case speculative.speculative.refl =>
    exact Function.LeftInverse.injective Int64.toInt64_toUInt64 htruncated

end

end Cluster
end ScyllaDriver
