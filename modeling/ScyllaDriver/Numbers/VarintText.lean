import ScyllaDriver.Numbers.BigintText

/-!
# Integer text as Varint and as Bigint

`php_scylladb_parse_varint` and `php_scylladb_parse_bigint` look for the sign and the
mark `0b` with the same code. What follows goes to `mpz_set_str` in the one and to
`strtoull` in the other.

`mpz_set_str` reads more: it skips white space between the digits and behind them, it
knows the mark `0B`, and it takes a mark `0x` without digits for zero. All it reads
besides has the same value for both, so the two parsers part on exactly those texts.
-/

namespace ScyllaDriver
namespace Numbers

open Positional CString

/-- Digits of a base, with white space anywhere among them. -/
def SpacedDigits (b : Nat) (ds : Bytes) : Prop :=
  ∀ c ∈ ds, isspace c = true ∨ digitValue c < b

/-- The number that spaced digits write. -/
def spacedValue (b : Nat) (ds : Bytes) : Nat :=
  value b ((ds.filter fun c => !isspace c).map digitValue)

/-- An integer as `mpz_set_str` takes it after the scan for sign and `0b`. -/
inductive SpacedLiteral : Bytes → Nat → Prop
  | binary {d : UInt8} {ds : Bytes} :
      digitValue d < 2 →
      SpacedDigits 2 ds →
      SpacedLiteral (chr '0' :: chr 'b' :: d :: ds) (spacedValue 2 (d :: ds))
  | capitalBinary {ds : Bytes} :
      SpacedDigits 2 ds →
      SpacedLiteral (chr '0' :: chr 'B' :: ds) (spacedValue 2 ds)
  | hexadecimal {x : UInt8} {ds : Bytes} :
      x = chr 'x' ∨ x = chr 'X' →
      SpacedDigits 16 ds →
      SpacedLiteral (chr '0' :: x :: ds) (spacedValue 16 ds)
  | octal {ds : Bytes} :
      SpacedDigits 8 ds →
      SpacedLiteral (chr '0' :: ds) (spacedValue 8 ds)
  | decimal {c : UInt8} {ds : Bytes} :
      c ≠ chr '0' →
      digitValue c < 10 →
      SpacedDigits 10 ds →
      SpacedLiteral (c :: ds) (spacedValue 10 (c :: ds))

section Reading

variable {b n : Nat} {d : UInt8} {ds body : Bytes}

theorem mpzReadDigits_eq_some_iff :
    mpzReadDigits b ds = some n ↔ SpacedDigits b ds ∧ n = spacedValue b ds := by
  have hall : (∀ d ∈ (ds.filter fun c => !isspace c).map digitValue, d < b) ↔
      SpacedDigits b ds := by
    simp only [List.forall_mem_map, List.mem_filter, SpacedDigits]
    refine forall_congr' fun c => ?_
    cases isspace c <;> simp
  simp only [mpzReadDigits]
  split_ifs with h
  · rw [Option.some.injEq, and_iff_right (hall.mp h)]
    exact eq_comm
  · exact iff_of_false (by simp) fun hds => h (hall.mpr hds.1)

theorem spacedDigits_cons :
    SpacedDigits b (d :: ds) ↔ (isspace d = true ∨ digitValue d < b) ∧ SpacedDigits b ds :=
  List.forall_mem_cons

theorem not_spacedDigits_mark (hb : b ≤ 10)
    (hd : d = chr 'x' ∨ d = chr 'X' ∨ d = chr 'b' ∨ d = chr 'B') : ¬ SpacedDigits b (d :: ds) := by
  intro h
  have hmark : isspace d = false ∧ 10 ≤ digitValue d := by
    rcases hd with rfl | rfl | rfl | rfl <;> decide
  rcases (spacedDigits_cons.mp h).1 with hspace | hdigit
  · simp [hmark.1] at hspace
  · omega

theorem mpzBaseAndDigits_octal (h : SpacedDigits 8 ds) :
    mpzBaseAndDigits (chr '0') ds 0 = (8, ds) := by
  cases ds with
  | nil => rfl
  | cons x ds =>
    have hmark := fun hx => not_spacedDigits_mark (by decide) hx h
    have hhex : ¬ (x = chr 'x' ∨ x = chr 'X') := fun hx =>
      hmark (hx.imp id .inl)
    have hbinary : ¬ (x = chr 'b' ∨ x = chr 'B') := fun hx => hmark (.inr (.inr hx))
    simp only [mpzBaseAndDigits, ne_eq, not_true_eq_false, if_false, if_true, if_neg hhex,
      if_neg hbinary]

theorem mpzBaseAndDigits_decimal {c : UInt8} (hc : c ≠ chr '0') :
    mpzBaseAndDigits c ds 0 = (10, c :: ds) := by
  simp only [mpzBaseAndDigits, ne_eq, not_true_eq_false, if_false, if_neg hc]

theorem mpzSetDigits_two_cons :
    mpzSetDigits (d :: ds) 2 = if digitValue d < 2 then mpzReadDigits 2 (d :: ds) else none :=
  rfl

theorem mpzSetDigits_zero_cons {c : UInt8} (hc : digitValue c < 10) :
    mpzSetDigits (c :: ds) 0 =
      mpzReadDigits (mpzBaseAndDigits c ds 0).1 (mpzBaseAndDigits c ds 0).2 :=
  if_pos hc

theorem spacedLiteral_binary_iff :
    SpacedLiteral (chr '0' :: chr 'b' :: ds) n ↔
      isdigit (byteAt ds 0) = true ∧ mpzSetDigits ds 2 = some n := by
  constructor
  · intro h
    cases h with
    | binary hd hds =>
      refine ⟨digit_of_lt (Nat.lt_trans hd (by decide)), ?_⟩
      rw [mpzSetDigits_two_cons, if_pos hd]
      exact mpzReadDigits_eq_some_iff.mpr ⟨spacedDigits_cons.mpr ⟨.inr hd, hds⟩, rfl⟩
    | hexadecimal hx => exact absurd hx (by decide)
    | octal hds => exact absurd hds (not_spacedDigits_mark (by decide) (by simp))
    | decimal hc => exact absurd rfl hc
  · rintro ⟨hdigit, hset⟩
    cases ds with
    | nil => exact absurd hdigit (by decide)
    | cons d ds =>
      rw [mpzSetDigits_two_cons] at hset
      split_ifs at hset with hd
      obtain ⟨hds, rfl⟩ := mpzReadDigits_eq_some_iff.mp hset
      exact .binary hd (spacedDigits_cons.mp hds).2

/-- Without the mark `0b`, the number is what `mpz_set_str` reads in base 0. -/
theorem spacedLiteral_iff (hbinary : ¬ BinaryMark body) :
    SpacedLiteral body n ↔ isdigit (byteAt body 0) = true ∧ mpzSetDigits body 0 = some n := by
  have hzero : digitValue (chr '0') < 10 := by decide
  constructor
  · intro h
    cases h with
    | binary => exact absurd ⟨rfl, rfl⟩ hbinary
    | capitalBinary hds =>
      refine ⟨rfl, ?_⟩
      rw [mpzSetDigits_zero_cons hzero]
      exact mpzReadDigits_eq_some_iff.mpr ⟨hds, rfl⟩
    | hexadecimal hx hds =>
      refine ⟨rfl, ?_⟩
      rw [mpzSetDigits_zero_cons hzero]
      rcases hx with rfl | rfl
      · exact mpzReadDigits_eq_some_iff.mpr ⟨hds, rfl⟩
      · exact mpzReadDigits_eq_some_iff.mpr ⟨hds, rfl⟩
    | octal hds =>
      refine ⟨rfl, ?_⟩
      rw [mpzSetDigits_zero_cons hzero, mpzBaseAndDigits_octal hds]
      exact mpzReadDigits_eq_some_iff.mpr ⟨hds, rfl⟩
    | decimal hc hlt hds =>
      refine ⟨digit_of_lt hlt, ?_⟩
      rw [mpzSetDigits_zero_cons hlt, mpzBaseAndDigits_decimal hc]
      exact mpzReadDigits_eq_some_iff.mpr ⟨spacedDigits_cons.mpr ⟨.inr hlt, hds⟩, rfl⟩
  · rintro ⟨hdigit, hset⟩
    cases body with
    | nil => exact absurd hdigit (by decide)
    | cons c ds =>
      have hlt : digitValue c < 10 := (isdigit_digitValue hdigit).2
      rw [mpzSetDigits_zero_cons hlt] at hset
      by_cases hc : c = chr '0'
      · subst hc
        cases ds with
        | nil =>
          obtain ⟨hds, rfl⟩ := mpzReadDigits_eq_some_iff.mp hset
          exact .octal hds
        | cons x ds =>
          simp only [mpzBaseAndDigits, ne_eq, not_true_eq_false, if_false, if_true] at hset
          split_ifs at hset with hx hb
          · obtain ⟨hds, rfl⟩ := mpzReadDigits_eq_some_iff.mp hset
            exact .hexadecimal hx hds
          · obtain ⟨hds, rfl⟩ := mpzReadDigits_eq_some_iff.mp hset
            rcases hb with rfl | rfl
            · exact absurd ⟨rfl, rfl⟩ hbinary
            · exact .capitalBinary hds
          · obtain ⟨hds, rfl⟩ := mpzReadDigits_eq_some_iff.mp hset
            exact .octal hds
      · rw [mpzBaseAndDigits_decimal hc] at hset
        obtain ⟨hds, rfl⟩ := mpzReadDigits_eq_some_iff.mp hset
        exact .decimal hc hlt (spacedDigits_cons.mp hds).2

theorem SpacedLiteral.isdigit_head (h : SpacedLiteral body n) : isdigit (byteAt body 0) = true := by
  cases h with
  | binary | capitalBinary | hexadecimal | octal => rfl
  | decimal _ hlt => exact digit_of_lt hlt

theorem spacedLiteral_read_iff :
    SpacedLiteral body n ↔
      isdigit (byteAt body (binarySkip body)) = true ∧
        mpzSetDigits (body.drop (binarySkip body)) (binarySkip body) = some n := by
  by_cases hmark : BinaryMark body
  · obtain ⟨ds, rfl⟩ := hmark.exists_cons
    rw [binarySkip, if_pos hmark]
    exact spacedLiteral_binary_iff
  · rw [binarySkip, if_neg hmark]
    exact spacedLiteral_iff hmark

end Reading

/-- The part of `php_scylladb_parse_varint` after the preparation. -/
def convertVarint (s : Bytes) (p : Prepared) : Except Thrown Int :=
  match mpzSetStr (s.drop p.pos) p.base with
  | none => .error (.invalidArgument "Invalid integer value: '%.*s'")
  | some number => .ok (if p.negative then -number else number)

theorem parseVarint_eq :
    parseVarint = fun s => thenConvert (convertVarint s) (prepareStringConversion s) := by
  -- unfolding the applied `parseVarint` would make the kernel evaluate the preparation
  delta parseVarint
  funext s
  generalize prepareStringConversion s = prepared
  rcases prepared with e | (_ | p)
  · rfl
  · rfl
  · rfl

theorem mpzSetStr_of_digit {t : Bytes} (base : Nat) (hdigit : isdigit (byteAt (seen t) 0) = true) :
    mpzSetStr t base = (mpzSetDigits (seen t) base).map fun n : Nat => (n : Int) := by
  have hblanks : ([] ++ seen t).takeWhile isspace = [] :=
    takeWhile_blanks (by simp) (isdigit_not_isspace hdigit)
  rw [List.nil_append] at hblanks
  have hbody := List.takeWhile_append_dropWhile (p := isspace) (l := seen t)
  rw [hblanks, List.nil_append] at hbody
  have hminus : ¬ (seen t).headD 0 = chr '-' := by
    have hne := (isdigit_ne hdigit).2.2.2.1
    cases hcase : seen t with
    | nil => decide
    | cons c ds =>
      rw [hcase] at hne
      exact hne
  unfold mpzSetStr
  rw [seen] at hbody hminus
  simp only [hbody, if_neg hminus]
  rfl

theorem convertVarint_eq_ok_iff {s : Bytes} {pos base : Nat} {negative : Bool} {z : Int}
    (hdigit : isdigit (byteAt ((seen s).drop pos) 0) = true) :
    convertVarint s ⟨pos, negative, base⟩ = .ok z ↔
      ∃ n, mpzSetDigits ((seen s).drop pos) base = some n ∧ z = signed negative n ∧ True := by
  have hpos : pos ≤ (seen s).length := by
    by_contra hlt
    rw [List.drop_eq_nil_of_le (by omega)] at hdigit
    exact absurd hdigit (by decide)
  rw [← seen_drop s hpos] at hdigit ⊢
  unfold convertVarint
  dsimp only
  rw [mpzSetStr_of_digit base hdigit]
  cases mpzSetDigits (seen (s.drop pos)) base with
  | none => simp
  | some n =>
    simp only [Option.map_some, Except.ok.injEq, Option.some.injEq, and_true, exists_eq_left']
    exact eq_comm

theorem parseVarint_eq_ok_iff {s : Bytes} {z : Int} :
    parseVarint s = .ok z ↔ inLen s = strlen s ∧ Written SpacedLiteral (seen s) z := by
  rw [parseVarint_eq, thenConvert_eq_ok_iff
    (R := fun base t n => mpzSetDigits t base = some n) (P := fun _ => True)
    (fun _ _ h => h.isdigit_head) (fun _ _ => spacedLiteral_read_iff)
    fun _ _ _ _ => convertVarint_eq_ok_iff, and_true]

/-- What only `mpz_set_str` takes: white space after the first digit, the mark `0B`,
and a hexadecimal mark without digits. -/
def Lax (body : Bytes) : Prop :=
  (∃ c ∈ body, isspace c = true) ∨ (∃ ds, body = chr '0' :: chr 'B' :: ds) ∨
    body = [chr '0', chr 'x'] ∨ body = [chr '0', chr 'X']

section Literals

variable {b n : Nat} {ds body : Bytes}

theorem not_isspace_of_digitValue {c : UInt8} (hc : digitValue c < 36) : isspace c = false := by
  rw [Bool.eq_false_iff]
  intro hspace
  simp only [isspace, Bool.or_eq_true, Bool.and_eq_true, decide_eq_true_eq] at hspace
  unfold digitValue at hc
  split_ifs at hc
  · omega
  · omega
  · omega
  · omega

theorem spacedDigits_of_digits (hall : ∀ c ∈ ds, digitValue c < b) : SpacedDigits b ds :=
  fun c hc => .inr (hall c hc)

theorem spacedValue_of_digits (hall : ∀ c ∈ ds, isspace c = false) :
    spacedValue b ds = value b (ds.map digitValue) := by
  have hfilter : (ds.filter fun c => !isspace c) = ds :=
    List.filter_eq_self.mpr fun c hc => by rw [hall c hc]; rfl
  rw [spacedValue, hfilter]

theorem digits_of_spacedDigits (h : SpacedDigits b ds) (hall : ∀ c ∈ ds, isspace c = false) :
    ∀ c ∈ ds, digitValue c < b := by
  intro c hc
  refine (h c hc).resolve_left ?_
  rw [hall c hc]
  exact Bool.false_ne_true

theorem Accepted.not_isspace (h : Accepted body n) : ∀ c ∈ body, isspace c = false :=
  fun c hc => not_isspace_of_digitValue (h.digitValue_lt c hc)

theorem Accepted.spacedLiteral (h : Accepted body n) : SpacedLiteral body n := by
  have hspace := h.not_isspace
  rcases h with h | h
  · cases h with
    | @binary ds hne hall =>
      rw [← spacedValue_of_digits fun c hc =>
        hspace c (List.mem_cons_of_mem _ (List.mem_cons_of_mem _ hc))]
      obtain ⟨d, ds, rfl⟩ := List.exists_cons_of_ne_nil hne
      rw [List.forall_mem_cons] at hall
      exact .binary hall.1 (spacedDigits_of_digits hall.2)
    | hexadecimal _ hall =>
      rw [← spacedValue_of_digits fun c hc =>
        hspace c (List.mem_cons_of_mem _ (List.mem_cons_of_mem _ hc))]
      exact .hexadecimal (.inl rfl) (spacedDigits_of_digits hall)
    | octal hall =>
      rw [← spacedValue_of_digits fun c hc => hspace c (List.mem_cons_of_mem _ hc)]
      exact .octal (spacedDigits_of_digits hall)
    | decimal hc hall =>
      rw [← spacedValue_of_digits hspace]
      rw [List.forall_mem_cons] at hall
      exact .decimal hc hall.1 (spacedDigits_of_digits hall.2)
  · cases h with
    | intro _ hall =>
      rw [← spacedValue_of_digits fun c hc =>
        hspace c (List.mem_cons_of_mem _ (List.mem_cons_of_mem _ hc))]
      exact .hexadecimal (.inr rfl) (spacedDigits_of_digits hall)

theorem Accepted.not_lax (h : Accepted body n) : ¬ Lax body := by
  rintro (⟨c, hc, hspace⟩ | ⟨ds, rfl⟩ | rfl | rfl)
  · rw [h.not_isspace c hc] at hspace
    exact Bool.false_ne_true hspace
  · rcases h with h | h
    · cases h with
      | octal hall => exact absurd (hall (chr 'B') List.mem_cons_self) (by decide)
      | decimal hne => exact absurd rfl hne
    · nomatch h
  · rcases h with h | h
    · cases h with
      | hexadecimal hne => exact hne rfl
      | octal hall => exact absurd (hall (chr 'x') List.mem_cons_self) (by decide)
      | decimal hne => exact absurd rfl hne
    · nomatch h
  · rcases h with h | h
    · cases h with
      | octal hall => exact absurd (hall (chr 'X') List.mem_cons_self) (by decide)
      | decimal hne => exact absurd rfl hne
    · cases h with
      | intro hne => exact hne rfl

/-- Without the liberties of `mpz_set_str` both parsers find the same number. -/
theorem SpacedLiteral.accepted (h : SpacedLiteral body n) (hlax : ¬ Lax body) :
    Accepted body n := by
  have hspace : ∀ c ∈ body, isspace c = false := fun c hc =>
    Bool.eq_false_iff.mpr fun hblank => hlax (.inl ⟨c, hc, hblank⟩)
  have htail : ∀ {c ds}, body = c :: ds → ∀ x ∈ ds, isspace x = false := by
    rintro c ds rfl x hx
    exact hspace x (List.mem_cons_of_mem _ hx)
  cases h with
  | @binary d ds hd hds =>
    have hnone : ∀ x ∈ d :: ds, isspace x = false := fun x hx =>
      htail rfl x (List.mem_cons_of_mem _ hx)
    rw [spacedValue_of_digits hnone]
    exact .inl (.binary (by simp)
      (digits_of_spacedDigits (spacedDigits_cons.mpr ⟨.inr hd, hds⟩) hnone))
  | @capitalBinary ds => exact absurd (.inr (.inl ⟨ds, rfl⟩)) hlax
  | @hexadecimal x ds hx hds =>
    have hnone : ∀ x ∈ ds, isspace x = false := fun x hx =>
      htail rfl x (List.mem_cons_of_mem _ hx)
    rw [spacedValue_of_digits hnone]
    have hdigits := digits_of_spacedDigits hds hnone
    rcases hx with rfl | rfl
    · refine .inl (.hexadecimal ?_ hdigits)
      rintro rfl
      exact hlax (.inr (.inr (.inl rfl)))
    · refine .inr (.intro ?_ hdigits)
      rintro rfl
      exact hlax (.inr (.inr (.inr rfl)))
  | octal hds =>
    rw [spacedValue_of_digits (htail rfl)]
    exact .inl (.octal (digits_of_spacedDigits hds (htail rfl)))
  | decimal hc hlt hds =>
    rw [spacedValue_of_digits hspace]
    exact .inl (.decimal hc (digits_of_spacedDigits (spacedDigits_cons.mpr ⟨.inr hlt, hds⟩) hspace))

theorem SpacedLiteral.unique {m : Nat} (h : SpacedLiteral body n) (h' : SpacedLiteral body m) :
    n = m := by
  rw [spacedLiteral_read_iff] at h h'
  exact Option.some.inj (h.2.symm.trans h'.2)

end Literals

/-- The text is a number to `php_scylladb_parse_bigint`, and all it finds wrong is the
range. -/
def OnlyOutOfRange (s : Bytes) : Prop :=
  inLen s = strlen s ∧ (∃ z, Written Accepted (seen s) z) ∧
    parseBigint s = .error (.range "value must be between %ld and %ld, %s given")

theorem parseBigint_out_of_range {s : Bytes} {z : Int} (hlen : inLen s = strlen s)
    (h : Written Accepted (seen s) z) (hrange : ¬ InRange z) :
    parseBigint s = .error (.range "value must be between %ld and %ld, %s given") := by
  obtain ⟨pos, negative, base, n, hprepared, hpos, hdigit, hread, rfl⟩ := exists_prepared hlen h
  have hseen : seen ((seen s).drop pos) = (seen s).drop pos :=
    List.takeWhile_eq_self_iff.mpr fun _ hc =>
      decide_eq_true (ne_zero_of_mem_seen (List.mem_of_mem_drop hc))
  have hne : ((seen s).drop pos).length ≠ 0 := by
    intro hzero
    rw [List.length_eq_zero_iff.mp hzero] at hdigit
    exact absurd hdigit (by decide)
  rw [parseBigint, hprepared, thenConvert]
  unfold convertBigint
  dsimp only
  rw [← strtoull_seen, seen_drop s hpos, strtoull_of_digit hseen hdigit, hread, if_neg hne]
  by_cases hmax : ullongMax < n
  · rw [if_pos hmax, if_pos (.inl rfl)]
  · rw [if_neg hmax, if_pos (.inr (bigintOf_of_not_inRange hrange))]

/-- Both parsers read the text in the same way. -/
def ReadAlike (s : Bytes) : Prop :=
  ((∃ z, parseVarint s = .ok z) ↔ (∃ z, parseBigint s = .ok z) ∨ OnlyOutOfRange s) ∧
    ∀ z z', parseVarint s = .ok z → parseBigint s = .ok z' → z = z'

theorem bigint_reads_iff (s : Bytes) :
    (∃ z, parseBigint s = .ok z) ∨ OnlyOutOfRange s ↔
      inLen s = strlen s ∧ ∃ z, Written Accepted (seen s) z := by
  constructor
  · rintro (⟨z, hz⟩ | ⟨hlen, hwritten, -⟩)
    · obtain ⟨hlen, hwritten, -⟩ := parseBigint_eq_ok_iff.mp hz
      exact ⟨hlen, z, hwritten⟩
    · exact ⟨hlen, hwritten⟩
  · rintro ⟨hlen, z, hwritten⟩
    by_cases hrange : InRange z
    · exact .inl ⟨z, parseBigint_eq_ok_iff.mpr ⟨hlen, hwritten, hrange⟩⟩
    · exact .inr ⟨hlen, ⟨z, hwritten⟩, parseBigint_out_of_range hlen hwritten hrange⟩

/-- A literal that only `mpz_set_str` reads. -/
def LaxLiteral (body : Bytes) (n : Nat) : Prop :=
  SpacedLiteral body n ∧ Lax body

/-- Varint and Bigint read the text alike unless a number in it takes the liberties of
`mpz_set_str`. -/
theorem varint_reads_as_bigint_iff
    (s : Bytes) :
    ReadAlike s ↔ ¬ (inLen s = strlen s ∧ ∃ z, Written LaxLiteral (seen s) z) := by
  have hwritten : ∀ {L : Bytes → Nat → Prop},
      (∀ body n, L body n → isdigit (byteAt body 0) = true) →
        ((∃ z, Written L (seen s) z) ↔ ∃ n, L (unsigned (seen s)) n) := by
    intro L hL
    simp only [written_iff hL]
    exact ⟨fun ⟨_, n, hn, _⟩ => ⟨n, hn⟩, fun ⟨n, hn⟩ => ⟨_, n, hn, rfl⟩⟩
  rw [ReadAlike, bigint_reads_iff, hwritten fun _ _ h => h.isdigit_head,
    hwritten fun _ _ (h : LaxLiteral _ _) => h.1.isdigit_head]
  simp only [parseVarint_eq_ok_iff, exists_and_left, hwritten fun _ _ => SpacedLiteral.isdigit_head]
  constructor
  · rintro ⟨haccepts, -⟩ ⟨hlen, n, hspaced, hlax⟩
    obtain ⟨-, m, hm⟩ := haccepts.mp ⟨hlen, n, hspaced⟩
    exact hm.not_lax hlax
  · intro hstrict
    refine ⟨and_congr_right fun hlen => ⟨?_, ?_⟩, ?_⟩
    · rintro ⟨n, hspaced⟩
      exact ⟨n, hspaced.accepted fun hlax => hstrict ⟨hlen, n, hspaced, hlax⟩⟩
    · rintro ⟨n, haccepted⟩
      exact ⟨n, haccepted.spacedLiteral⟩
    · rintro z z' ⟨-, hz⟩ hz'
      obtain ⟨-, hz', -⟩ := parseBigint_eq_ok_iff.mp hz'
      obtain ⟨n, hn, rfl⟩ := (written_iff (fun _ _ h => h.isdigit_head) _ _).mp hz
      obtain ⟨m, hm, rfl⟩ := (written_iff (fun _ _ h => h.isdigit_head) _ _).mp hz'
      rw [hn.unique hm.spacedLiteral]

theorem not_readAlike {s : Bytes} {z : Int} {message : String} (hvarint : parseVarint s = .ok z)
    (hbigint : parseBigint s = .error (.invalidArgument message)) : ¬ ReadAlike s := by
  rintro ⟨haccepts, -⟩
  rcases haccepts.mp ⟨z, hvarint⟩ with ⟨z', hz'⟩ | ⟨-, -, hrange⟩
  · simp [hbigint] at hz'
  · simp [hbigint] at hrange

/-- `1 2` and `0B11` are the numbers 12 and 3 to Varint and no numbers to Bigint. -/
theorem spaced_and_capital_only_varint :
    parseVarint (ascii "1 2") = .ok 12 ∧
      parseBigint (ascii "1 2") =
        .error (.invalidArgument "Invalid characters were found in value: '%.*s'") ∧
      ¬ ReadAlike (ascii "1 2") ∧
      parseVarint (ascii "0B11") = .ok 3 ∧
      parseBigint (ascii "0B11") =
        .error (.invalidArgument "Invalid characters were found in value: '%.*s'") ∧
      ¬ ReadAlike (ascii "0B11") := by
  have hspaced : parseVarint (ascii "1 2") = .ok 12 := by decide
  have hcut : parseBigint (ascii "1 2") =
      .error (.invalidArgument "Invalid characters were found in value: '%.*s'") := by decide
  have hcapital : parseVarint (ascii "0B11") = .ok 3 := by decide
  have hzero : parseBigint (ascii "0B11") =
      .error (.invalidArgument "Invalid characters were found in value: '%.*s'") := by decide
  exact ⟨hspaced, hcut, not_readAlike hspaced hcut, hcapital, hzero, not_readAlike hcapital hzero⟩

end Numbers
end ScyllaDriver
