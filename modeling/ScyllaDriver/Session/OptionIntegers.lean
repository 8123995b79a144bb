import ScyllaDriver.Session.ExecuteLaw

/-!
# The integers of the options

A consistency, a serial consistency and a page size are integers of 64 bits. A request uses
them as they were given exactly if the first two are levels, the third has at most 31 bits,
and the last two are not given with a batch.
-/

namespace ScyllaDriver
namespace Session

open Cluster ExecutionOptions

variable {α β ρ : Type} {options : String → Option (OptionValue α)}

/-- An option that is not there leaves the field alone; one that is there passed the check and
is kept as `keep` says. -/
def Read {γ : Type} (option : Option (OptionValue α)) (passes : Int64 → Prop) (keep : Int64 → γ)
    (unset field : γ) : Prop :=
  option = none ∧ field = unset ∨ ∃ n, option = some (.long n) ∧ passes n ∧ field = keep n

variable {opts self : ExecutionOptions α}

theorem readField_cases
    {field : String × (ExecutionOptions α → OptionValue α → Except Thrown (ExecutionOptions α))}
    (h : readField options self field = .ok opts) :
    options field.1 = none ∧ opts = self ∨
      ∃ value, options field.1 = some value ∧ field.2 self value = .ok opts := by
  unfold readField at h
  split at h
  · next hnone => exact .inl ⟨hnone, (Except.ok.inj h).symm⟩
  · next value hsome => exact .inr ⟨value, hsome, h⟩

theorem readField_consistency
    (h : readField options self ("consistency", setConsistency) = .ok opts) :
    Read (options "consistency")
        (fun n => toCassConsistency n ∈ Consistency.levels.map Consistency.code) id
        self.consistency opts.consistency ∧
      opts.serialConsistency = self.serialConsistency ∧ opts.pageSize = self.pageSize := by
  obtain ⟨hnone, rfl⟩ | ⟨value, hsome, h⟩ := readField_cases h
  · exact ⟨.inl ⟨hnone, rfl⟩, rfl, rfl⟩
  · cases value <;> try cases h
    rename_i n
    dsimp only [setConsistency] at h
    split at h
    · cases h
    · rename_i hvalid
      cases h
      exact ⟨.inr ⟨n, hsome, not_not.mp (mt (validateConsistency_eq_iff _).mpr hvalid), rfl⟩, rfl,
        rfl⟩

theorem readField_serialConsistency
    (h : readField options self ("serial_consistency", setSerialConsistency) = .ok opts) :
    Read (options "serial_consistency")
        (fun n => toCassConsistency n ∈ Consistency.serialLevels.map Consistency.code) id
        self.serialConsistency opts.serialConsistency ∧
      opts.consistency = self.consistency ∧ opts.pageSize = self.pageSize := by
  obtain ⟨hnone, rfl⟩ | ⟨value, hsome, h⟩ := readField_cases h
  · exact ⟨.inl ⟨hnone, rfl⟩, rfl, rfl⟩
  · cases value <;> try cases h
    rename_i n
    dsimp only [setSerialConsistency] at h
    split at h
    · cases h
    · rename_i hvalid
      cases h
      exact ⟨.inr ⟨n, hsome, not_not.mp (mt (validateSerialConsistency_eq_iff _).mpr hvalid), rfl⟩,
        rfl, rfl⟩

theorem readField_pageSize (h : readField options self ("page_size", setPageSize) = .ok opts) :
    Read (options "page_size") (fun n => 0 < n.toInt) Int64.toInt32 self.pageSize opts.pageSize ∧
      opts.consistency = self.consistency ∧ opts.serialConsistency = self.serialConsistency := by
  obtain ⟨hnone, rfl⟩ | ⟨value, hsome, h⟩ := readField_cases h
  · exact ⟨.inl ⟨hnone, rfl⟩, rfl, rfl⟩
  · cases value <;> try cases h
    rename_i n
    dsimp only [setPageSize] at h
    split at h
    · cases h
    · rename_i hpositive
      cases h
      refine ⟨.inr ⟨n, hsome, ?_, rfl⟩, rfl, rfl⟩
      rw [Int64.le_iff_toInt_le, not_le] at hpositive
      exact hpositive

def integers (opts : ExecutionOptions α) : Int64 × Int64 × Int32 :=
  (opts.consistency, opts.serialConsistency, opts.pageSize)

theorem integers_of_later
    {fields : List (String ×
      (ExecutionOptions α → OptionValue α → Except Thrown (ExecutionOptions α)))}
    (hfields : ∀ field ∈ fields, ∀ self value opts, field.2 self value = .ok opts →
      integers opts = integers self)
    (h : fields.foldlM (readField options) self = .ok opts) : integers opts = integers self := by
  induction fields generalizing self with
  | nil =>
    cases h
    rfl
  | cons field fields ih =>
    rw [List.foldlM_cons] at h
    obtain ⟨next, hnext, h⟩ := bind_eq_ok_iff.mp h
    rw [ih (fun f hf => hfields f (.tail _ hf)) h]
    obtain ⟨-, rfl⟩ | ⟨value, -, hset⟩ := readField_cases hnext
    · rfl
    · exact hfields field (.head _) _ _ _ hset

theorem integers_setTimeout {value : OptionValue α} (h : self.setTimeout value = .ok opts) :
    integers opts = integers self := by
  unfold setTimeout at h
  split at h
  · cases h
    rfl
  · cases h

theorem integers_setParsed {parsed : Except Numbers.Thrown Int}
    (h : self.setParsed parsed = .ok opts) : integers opts = integers self := by
  cases parsed with
  | error e => cases h
  | ok n =>
    cases h
    rfl

theorem integers_setTimestamp {value : OptionValue α} (h : self.setTimestamp value = .ok opts) :
    integers opts = integers self := by
  cases value with
  | long n =>
    cases h
    rfl
  | string s =>
    rw [setTimestamp] at h
    exact integers_setParsed h
  | _ => cases h

theorem buildFromArray_eq_ok (h : ExecutionOptions.init.buildFromArray options = .ok opts) :
    Read (options "consistency")
        (fun n => toCassConsistency n ∈ Consistency.levels.map Consistency.code) id (-1)
        opts.consistency ∧
      Read (options "serial_consistency")
        (fun n => toCassConsistency n ∈ Consistency.serialLevels.map Consistency.code) id (-1)
        opts.serialConsistency ∧
      Read (options "page_size") (fun n => 0 < n.toInt) Int64.toInt32 (-1) opts.pageSize := by
  unfold buildFromArray fields at h
  rw [List.foldlM_cons] at h
  obtain ⟨o₁, h₁, h⟩ := bind_eq_ok_iff.mp h
  rw [List.foldlM_cons] at h
  obtain ⟨o₂, h₂, h⟩ := bind_eq_ok_iff.mp h
  rw [List.foldlM_cons] at h
  obtain ⟨o₃, h₃, h⟩ := bind_eq_ok_iff.mp h
  obtain ⟨hconsistency, hserial₁, hsize₁⟩ := readField_consistency h₁
  obtain ⟨hserial, hconsistency₂, hsize₂⟩ := readField_serialConsistency h₂
  obtain ⟨hsize, hconsistency₃, hserial₃⟩ := readField_pageSize h₃
  have hlater : integers opts = integers o₃ := by
    refine integers_of_later ?_ h
    simp only [List.forall_mem_cons, List.not_mem_nil, false_implies, implies_true, and_true]
    refine ⟨?_, fun _ _ _ => integers_setTimeout, ?_, ?_, fun _ _ _ => integers_setTimestamp, ?_⟩
    all_goals
      intro self value opts h
      cases value <;> cases h
      rfl
  obtain ⟨hc, hrest⟩ := Prod.mk.inj hlater
  obtain ⟨hs, hp⟩ := Prod.mk.inj hrest
  rw [hc, hconsistency₃, hconsistency₂, hs, hserial₃, hp]
  rw [hserial₁] at hserial
  rw [hsize₂, hsize₁] at hsize
  exact ⟨hconsistency, hserial, hsize⟩

theorem toNat_toCassConsistency (n : Int64) :
    ((toCassConsistency n).toNat : Int) = n.toInt % 2 ^ 32 := by
  have hbits : n.toUInt64.toBitVec = n.toBitVec := rfl
  rw [toCassConsistency, UInt64.toNat_toUInt32, ← UInt64.toNat_toBitVec, hbits, Int64.toInt]
  have hcond := BitVec.toInt_eq_toNat_cond n.toBitVec
  have hlt := n.toBitVec.isLt
  split at hcond <;> omega

theorem zero_le_iff (n : Int64) : 0 ≤ n ↔ 0 ≤ n.toInt := by
  rw [Int64.le_iff_toInt_le]
  rfl

/-- The integer is the number of one of the levels. -/
def IsLevel (levels : List Consistency) (n : Int64) : Prop :=
  ∃ level ∈ levels, n.toInt = level.code.toNat

/-- A code that comes out of the low 32 bits is the integer itself exactly if that is a
level. -/
theorem isLevel_iff {levels : List Consistency} {n : Int64}
    (h : toCassConsistency n ∈ levels.map Consistency.code) :
    IsLevel levels n ↔ 0 ≤ n ∧ ((toCassConsistency n).toNat : Int) = n.toInt := by
  obtain ⟨level, hlevel, hcode⟩ := List.mem_map.mp h
  rw [zero_le_iff]
  constructor
  · rintro ⟨level', -, hn⟩
    have hsmall : level'.code.toNat < 2 ^ 32 := level'.code.toNat_lt
    rw [toNat_toCassConsistency]
    omega
  · rintro ⟨-, hn⟩
    exact ⟨level, hlevel, by rw [← hn, hcode]⟩

theorem Read.of_some {γ : Type} {option : Option (OptionValue α)} {passes : Int64 → Prop}
    {keep : Int64 → γ} {unset field : γ} (h : Read option passes keep unset field) {n : Int64}
    (hn : option = some (.long n)) : passes n ∧ field = keep n := by
  obtain ⟨hnone, -⟩ | ⟨n', hn', hpasses, hfield⟩ := h
  · cases hnone.symm.trans hn
  · cases hn'.symm.trans hn
    exact ⟨hpasses, hfield⟩

section Fields

variable {self : DefaultSession} {opts : ExecutionOptions α} {n : Int64}

theorem consistencyOf_eq_iff
    (hpasses : toCassConsistency n ∈ Consistency.levels.map Consistency.code)
    (hfield : opts.consistency = n) :
    [((consistencyOf self (some opts)).toNat : Int)] = [n.toInt] ↔
      IsLevel Consistency.levels n := by
  rw [isLevel_iff hpasses, consistencyOf, hfield, List.singleton_inj]
  by_cases hneg : 0 ≤ n
  · rw [if_pos hneg, and_iff_right hneg]
  · rw [if_neg hneg]
    refine iff_of_false ?_ fun h => hneg h.1
    rw [zero_le_iff] at hneg
    omega

theorem serialConsistencyOf_eq_iff
    (hpasses : toCassConsistency n ∈ Consistency.serialLevels.map Consistency.code)
    (hfield : opts.serialConsistency = n) :
    (if 0 ≤ serialConsistencyOf (some opts) then
        [((toCassConsistency (serialConsistencyOf (some opts))).toNat : Int)] else []) =
        [n.toInt] ↔ IsLevel Consistency.serialLevels n := by
  rw [isLevel_iff hpasses, serialConsistencyOf, hfield]
  by_cases hneg : 0 ≤ n
  · rw [if_pos hneg, if_pos hneg, List.singleton_inj, and_iff_right hneg]
  · rw [if_neg hneg, if_neg (by decide)]
    exact iff_of_false (List.cons_ne_nil _ _).symm fun h => hneg h.1

theorem pageSizeOf_eq_iff (hpositive : 0 < n.toInt) (hfield : opts.pageSize = n.toInt32) :
    (if 0 ≤ pageSizeOf self (some opts) then [(pageSizeOf self (some opts)).toInt] else []) =
        [n.toInt] ↔ n.toInt < 2 ^ 31 := by
  constructor
  · intro h
    split at h
    · have hlt := (pageSizeOf self (some opts)).toInt_lt
      rw [List.singleton_inj] at h
      omega
    · cases h
  · intro hsmall
    have hkept : n.toInt32.toInt = n.toInt := by
      rw [Int64.toInt_toInt32, Int.bmod_eq_of_le] <;> omega
    have hnonneg : 0 ≤ n.toInt32 := by
      rw [Int32.le_iff_toInt_le, hkept]
      exact hpositive.le
    rw [pageSizeOf, hfield, if_pos hnonneg, if_pos hnonneg, hkept]

end Fields

/-- The options of a call: the array, or an object made of it. -/
inductive OptionsArgument.Holds (options : String → Option (OptionValue α)) :
    OptionsArgument α → Prop
  | array : Holds options (.array options)
  | object {opts : ExecutionOptions α}
      (h : ExecutionOptions.init.buildFromArray options = .ok opts) : Holds options (.object opts)

theorem OptionsArgument.Holds.read {given : OptionsArgument α} {read : Option (ExecutionOptions α)}
    (hholds : given.Holds options) (h : readOptions given = .ok read) :
    ∃ opts, read = some opts ∧ ExecutionOptions.init.buildFromArray options = .ok opts := by
  cases hholds with
  | array =>
    rw [readOptions] at h
    cases hbuild : ExecutionOptions.init.buildFromArray options with
    | error e =>
      rw [hbuild] at h
      cases h
    | ok opts =>
      rw [hbuild] at h
      cases h
      exact ⟨opts, rfl, rfl⟩
  | object hbuild =>
    cases h
    exact ⟨_, rfl, hbuild⟩

/-- `execute` or `executeAsync` hands the request to the driver. -/
def Hands (ρ : Type) (driver : Driver α β) (self : DefaultSession)
    (statement : StatementArgument α) (given : OptionsArgument α) (profile : ProfileArgument)
    (request : Request β) : Prop :=
  (∃ finish, execute (ρ := ρ) driver self statement given profile = .ok (request, finish)) ∨
    ∃ future, executeAsync (ρ := ρ) driver self statement given profile = .ok (request, future)

theorem Hands.requestOf {driver : Driver α β} {self : DefaultSession}
    {statement : StatementArgument α} {given : OptionsArgument α} {profile : ProfileArgument}
    {request : Request β} (h : Hands ρ driver self statement given profile request) :
    Session.requestOf driver self statement given profile = .ok request := by
  obtain ⟨finish, h⟩ | ⟨future, h⟩ := h
  · rw [execute_executeAsync_eq.1] at h
    cases hrequest : Session.requestOf driver self statement given profile <;>
      rw [hrequest] at h <;> cases h
    rfl
  · rw [execute_executeAsync_eq.2] at h
    cases hrequest : Session.requestOf driver self statement given profile <;>
      rw [hrequest] at h <;> cases h
    rfl

/-- The request is made with the integers that were given, and with no others. -/
structure UsesGiven (options : String → Option (OptionValue α)) (request : Request β) : Prop where
  consistency : ∀ n, options "consistency" = some (.long n) → request.integers.1 = [n.toInt]
  serialConsistency : ∀ n, options "serial_consistency" = some (.long n) →
    request.integers.2.1 = [n.toInt]
  pageSize : ∀ n, options "page_size" = some (.long n) → request.integers.2.2 = [n.toInt]

/-- The integers are levels and a size of 31 bits; a batch has only a consistency. -/
structure Fitting (options : String → Option (OptionValue α)) (statement : StatementArgument α) :
    Prop where
  consistency : ∀ n, options "consistency" = some (.long n) → IsLevel Consistency.levels n
  serialConsistency : ∀ n, options "serial_consistency" = some (.long n) →
    IsLevel Consistency.serialLevels n ∧ ¬ statement.IsBatch
  pageSize : ∀ n, options "page_size" = some (.long n) → n.toInt < 2 ^ 31 ∧ ¬ statement.IsBatch

/-- A request of either method uses the integers of the options exactly if they are levels
and a page size of 31 bits, and no batch is given the last two. -/
theorem usesGiven_iff
    {driver : Driver α β}
    {self : DefaultSession}
    {statement : StatementArgument α}
    {given : OptionsArgument α}
    {profile : ProfileArgument}
    {request : Request β}
    (hholds : given.Holds options)
    (hhands : Hands ρ driver self statement given profile request) :
    UsesGiven options request ↔ Fitting options statement := by
  obtain ⟨read, hread, hrequest⟩ := requestOf_eq_ok hhands.requestOf
  obtain ⟨opts, rfl, hbuild⟩ := hholds.read hread
  obtain ⟨hconsistency, hserial, hsize⟩ := buildFromArray_eq_ok hbuild
  have hlevel : (∀ n, options "consistency" = some (.long n) → request.integers.1 = [n.toInt]) ↔
      ∀ n, options "consistency" = some (.long n) → IsLevel Consistency.levels n := by
    have hfirst : request.integers.1 = [((consistencyOf self (some opts)).toNat : Int)] := by
      obtain ⟨single, -, -, heq⟩ | ⟨batch, -, -, heq⟩ := hrequest <;> rw [heq]
    refine forall₂_congr fun n hn => ?_
    obtain ⟨hpasses, hfield⟩ := hconsistency.of_some hn
    rw [hfirst, consistencyOf_eq_iff hpasses hfield]
  obtain ⟨single, -, hno, heq⟩ | ⟨batch, -, hbatch, heq⟩ := hrequest
  · have hserial' : (∀ n, options "serial_consistency" = some (.long n) →
        request.integers.2.1 = [n.toInt]) ↔ ∀ n, options "serial_consistency" = some (.long n) →
          IsLevel Consistency.serialLevels n ∧ ¬ statement.IsBatch := by
      refine forall₂_congr fun n hn => ?_
      obtain ⟨hpasses, hfield⟩ := hserial.of_some hn
      rw [heq, serialConsistencyOf_eq_iff hpasses hfield, and_iff_left hno]
    have hsize' : (∀ n, options "page_size" = some (.long n) →
        request.integers.2.2 = [n.toInt]) ↔ ∀ n, options "page_size" = some (.long n) →
          n.toInt < 2 ^ 31 ∧ ¬ statement.IsBatch := by
      refine forall₂_congr fun n hn => ?_
      obtain ⟨hpositive, hfield⟩ := hsize.of_some hn
      rw [heq, pageSizeOf_eq_iff hpositive hfield, and_iff_left hno]
    constructor
    · exact fun h => ⟨hlevel.mp h.1, hserial'.mp h.2, hsize'.mp h.3⟩
    · exact fun h => ⟨hlevel.mpr h.1, hserial'.mpr h.2, hsize'.mpr h.3⟩
  · -- nothing but the consistency is set on a batch
    constructor
    · intro h
      refine ⟨hlevel.mp h.consistency, fun n hn => ?_, fun n hn => ?_⟩
      · have hset := h.serialConsistency n hn
        rw [heq] at hset
        cases hset
      · have hset := h.pageSize n hn
        rw [heq] at hset
        cases hset
    · intro h
      exact ⟨hlevel.mpr h.consistency, fun n hn => absurd hbatch (h.serialConsistency n hn).2,
        fun n hn => absurd hbatch (h.pageSize n hn).2⟩

def onlyLong (name : String) (n : Int64) : String → Option (OptionValue Nat) :=
  fun key => if key = name then some (.long n) else none

theorem usesGiven_quorum :
    UsesGiven (onlyLong "consistency" 4)
      (.single (β := Nat) ⟨.cql [] 0, [], [.consistency 4, .pagingSize 5000]⟩) := by
  have hhands : Hands Unit willing ⟨0, 1, 5000⟩ (.string []) (.array (onlyLong "consistency" 4))
      .null (.single ⟨.cql [] 0, [], [.consistency 4, .pagingSize 5000]⟩) :=
    .inl ⟨_, rfl⟩
  refine (usesGiven_iff .array hhands).mpr ?_
  refine ⟨?_, fun n hn => (nomatch hn), fun n hn => (nomatch hn)⟩
  rintro n ⟨⟩
  exact ⟨.quorum, by decide, rfl⟩

/-- The consistency `2 ^ 32 + 1` is taken for 1, the page size `2 ^ 32` switches paging off,
and the page size `2 ^ 31` gives way to the session's. -/
theorem integers_are_cut :
    Hands Unit willing ⟨0, 1, 5000⟩ (.string []) (.array (onlyLong "consistency" 4294967297)) .null
        (.single ⟨.cql [] 0, [], [.consistency 1, .pagingSize 5000]⟩) ∧
      Hands Unit willing ⟨0, 1, 5000⟩ (.string []) (.array (onlyLong "page_size" 4294967296)) .null
        (.single ⟨.cql [] 0, [], [.consistency 1, .pagingSize 0]⟩) ∧
      Hands Unit willing ⟨0, 1, 5000⟩ (.string []) (.array (onlyLong "page_size" 2147483648)) .null
        (.single ⟨.cql [] 0, [], [.consistency 1, .pagingSize 5000]⟩) ∧
      ¬ UsesGiven (onlyLong "consistency" 4294967297)
        (.single (β := Nat) ⟨.cql [] 0, [], [.consistency 1, .pagingSize 5000]⟩) := by
  refine ⟨.inl ⟨_, rfl⟩, .inl ⟨_, rfl⟩, .inl ⟨_, rfl⟩, fun h => ?_⟩
  exact absurd (h.consistency 4294967297 rfl) (by decide)

end Session
end ScyllaDriver
