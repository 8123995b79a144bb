import ScyllaDriver.Numbers.NumberParser

/-!
# The texts that `php_scylladb_parse_bigint` accepts

A number is written as white space, a sign and a literal: `0b` and binary digits,
`0x` and hexadecimal digits, `0` and octal digits, or decimal digits. The parser
finds sign and binary mark itself and leaves the rest to `strtoull`, which settles
the base, clamps the value and stops at the first byte that is no digit.

It goes wrong in two ways: `strtoull` also takes `0X`, and the length that is
compared with the end of the number has only 32 bits.
-/

namespace ScyllaDriver
namespace Numbers

open Positional CString

/-- A complete integer literal and its value. -/
inductive Literal : Bytes → Nat → Prop
  | binary {ds : Bytes} :
      ds ≠ [] →
      (∀ c ∈ ds, digitValue c < 2) →
      Literal (chr '0' :: chr 'b' :: ds) (value 2 (ds.map digitValue))
  | hexadecimal {ds : Bytes} :
      ds ≠ [] →
      (∀ c ∈ ds, digitValue c < 16) →
      Literal (chr '0' :: chr 'x' :: ds) (value 16 (ds.map digitValue))
  | octal {ds : Bytes} :
      (∀ c ∈ ds, digitValue c < 8) →
      Literal (chr '0' :: ds) (value 8 (ds.map digitValue))
  | decimal {c : UInt8} {ds : Bytes} :
      c ≠ chr '0' →
      (∀ d ∈ c :: ds, digitValue d < 10) →
      Literal (c :: ds) (value 10 ((c :: ds).map digitValue))

/-- A hexadecimal literal with a capital mark. -/
inductive CapitalHex : Bytes → Nat → Prop
  | intro {ds : Bytes} :
      ds ≠ [] →
      (∀ c ∈ ds, digitValue c < 16) →
      CapitalHex (chr '0' :: chr 'X' :: ds) (value 16 (ds.map digitValue))

inductive SignText : Bytes → Bool → Prop
  | plain : SignText [] false
  | plus : SignText [chr '+'] false
  | minus : SignText [chr '-'] true

def signed (negative : Bool) (n : Nat) : Int :=
  if negative then -n else n

/-- White space, a sign, and a text of the form `L`. -/
def Written (L : Bytes → Nat → Prop) (s : Bytes) (z : Int) : Prop :=
  ∃ blanks sign body negative n,
    s = blanks ++ (sign ++ body) ∧ (∀ c ∈ blanks, isspace c = true) ∧
      SignText sign negative ∧ L body n ∧ z = signed negative n

def InRange (z : Int) : Prop :=
  -2 ^ 63 ≤ z ∧ z < 2 ^ 63

/-- What the parser takes for a literal. -/
def Accepted (body : Bytes) (n : Nat) : Prop :=
  Literal body n ∨ CapitalHex body n

def afterSign (s : Bytes) : Nat :=
  let point := (s.takeWhile isspace).length
  if byteAt s point = chr '+' ∨ byteAt s point = chr '-' then point + 1 else point

def isNegative (s : Bytes) : Bool :=
  byteAt s (s.takeWhile isspace).length = chr '-'

def unsigned (s : Bytes) : Bytes :=
  s.drop (afterSign s)

theorem byteAt_drop (s : Bytes) (k i : Nat) : byteAt (s.drop k) i = byteAt s (k + i) := by
  rw [byteAt, byteAt, List.drop_drop]

theorem takeWhile_blanks {blanks rest : Bytes} (hblanks : ∀ c ∈ blanks, isspace c = true)
    (hrest : isspace (byteAt rest 0) = false) : (blanks ++ rest).takeWhile isspace = blanks := by
  refine takeWhile_append_stop hblanks fun c hc => ?_
  rwa [byteAt, List.drop_zero, List.headD_eq_head?_getD, Option.mem_def.mp hc] at hrest

variable {body t ds s : Bytes} {negative : Bool} {L : Bytes → Nat → Prop} {base n : Nat} {z : Int}

theorem unsigned_written {blanks sign : Bytes} (hblanks : ∀ c ∈ blanks, isspace c = true)
    (hsign : SignText sign negative) (hbody : isdigit (byteAt body 0) = true) :
    unsigned (blanks ++ (sign ++ body)) = body ∧
      isNegative (blanks ++ (sign ++ body)) = negative := by
  have hhead : ∀ rest : Bytes, byteAt (blanks ++ rest) blanks.length = byteAt rest 0 := by
    intro rest
    rw [← Nat.add_zero blanks.length, ← byteAt_drop, List.drop_left]
  obtain ⟨-, -, -, hminus, hplus, -⟩ := isdigit_ne hbody
  have hmark : ∀ c : UInt8, isspace c = false →
      (blanks ++ (c :: body)).takeWhile isspace = blanks := by
    intro c hc
    exact takeWhile_blanks hblanks hc
  have hafter : ∀ c : UInt8, (blanks ++ (c :: body)).drop (blanks.length + 1) = body := by
    intro c
    rw [← List.drop_drop, List.drop_left, List.drop_one, List.tail_cons]
  cases hsign with
  | plain =>
    have hpoint : (blanks ++ ([] ++ body)).takeWhile isspace = blanks :=
      takeWhile_blanks hblanks (isdigit_not_isspace hbody)
    refine ⟨?_, ?_⟩
    · rw [unsigned, afterSign, hpoint, hhead, if_neg (by simp [hplus, hminus]), List.drop_left,
        List.nil_append]
    · rw [isNegative, hpoint, hhead]
      exact decide_eq_false hminus
  | plus =>
    have hpoint := hmark (chr '+') (by decide)
    refine ⟨?_, ?_⟩
    · rw [List.singleton_append, unsigned, afterSign, hpoint, hhead, if_pos (.inl rfl), hafter]
    · rw [List.singleton_append, isNegative, hpoint, hhead]
      rfl
  | minus =>
    have hpoint := hmark (chr '-') (by decide)
    refine ⟨?_, ?_⟩
    · rw [List.singleton_append, unsigned, afterSign, hpoint, hhead, if_pos (.inr rfl), hafter]
    · rw [List.singleton_append, isNegative, hpoint, hhead]
      rfl

theorem exists_parts (s : Bytes) :
    ∃ blanks sign,
      s = blanks ++ (sign ++ unsigned s) ∧ (∀ c ∈ blanks, isspace c = true) ∧
        SignText sign (isNegative s) := by
  have hsplit : s.takeWhile isspace ++ s.drop (s.takeWhile isspace).length = s :=
    List.prefix_iff_eq_append.mp (List.takeWhile_prefix isspace)
  have hblanks : ∀ c ∈ s.takeWhile isspace, isspace c = true := fun _ hc =>
    List.mem_takeWhile_imp hc
  have hrest : ∀ c : UInt8, byteAt s (s.takeWhile isspace).length = c → c ≠ 0 →
      s.drop (s.takeWhile isspace).length = [c] ++ s.drop ((s.takeWhile isspace).length + 1) :=
    fun _ hc hzero => drop_of_byteAt hc hzero
  by_cases hplus : byteAt s (s.takeWhile isspace).length = chr '+'
  · refine ⟨_, [chr '+'], ?_, hblanks, ?_⟩
    · rw [unsigned, afterSign, if_pos (.inl hplus), ← hrest _ hplus (by decide), hsplit]
    · rw [isNegative, hplus]
      exact .plus
  · by_cases hminus : byteAt s (s.takeWhile isspace).length = chr '-'
    · refine ⟨_, [chr '-'], ?_, hblanks, ?_⟩
      · rw [unsigned, afterSign, if_pos (.inr hminus), ← hrest _ hminus (by decide), hsplit]
      · rw [isNegative, hminus]
        exact .minus
    · refine ⟨_, [], ?_, hblanks, ?_⟩
      · rw [unsigned, afterSign, if_neg (by simp [hplus, hminus]), List.nil_append, hsplit]
      · rw [isNegative, decide_eq_false hminus]
        exact .plain

theorem written_iff (hL : ∀ body n, L body n → isdigit (byteAt body 0) = true) (s : Bytes)
    (z : Int) : Written L s z ↔ ∃ n, L (unsigned s) n ∧ z = signed (isNegative s) n := by
  constructor
  · rintro ⟨blanks, sign, body, negative, n, rfl, hblanks, hsign, hbody, rfl⟩
    obtain ⟨hunsigned, hnegative⟩ := unsigned_written hblanks hsign (hL body n hbody)
    exact ⟨n, hunsigned.symm ▸ hbody, by rw [hnegative]⟩
  · rintro ⟨n, hbody, rfl⟩
    obtain ⟨blanks, sign, hs, hblanks, hsign⟩ := exists_parts s
    exact ⟨blanks, sign, unsigned s, isNegative s, n, hs, hblanks, hsign, hbody, rfl⟩

theorem readInteger_eq_iff {b mark : Nat} (hsettle : settleBase t base = (b, mark))
    (hmark : mark < t.length) :
    readInteger t base = (n, t.length) ↔
      (∀ c ∈ t.drop mark, digitValue c < b) ∧ n = value b ((t.drop mark).map digitValue) := by
  have hlength : (t.drop mark).length = t.length - mark := List.length_drop
  simp only [readInteger, hsettle]
  constructor
  · intro h
    split_ifs at h with hnil
    · have hzero := (Prod.mk.inj h).2
      omega
    · obtain ⟨rfl, hused⟩ := Prod.mk.inj h
      have hall : (t.drop mark).takeWhile (digitValue · < b) = t.drop mark :=
        (List.takeWhile_prefix _).eq_of_length (by omega)
      refine ⟨fun c hc => ?_, by rw [hall]⟩
      rw [← hall] at hc
      simpa using List.mem_takeWhile_imp hc
  · rintro ⟨hall, rfl⟩
    have hrun : (t.drop mark).takeWhile (digitValue · < b) = t.drop mark :=
      List.takeWhile_eq_self_iff.mpr fun c hc => by simpa using hall c hc
    rw [hrun, if_neg (List.ne_nil_of_length_pos (by omega)), hlength]
    exact congrArg _ (by omega)

theorem digit_of_lt {c : UInt8} (h : digitValue c < 10) : isdigit c = true := by
  unfold digitValue at h
  unfold isdigit
  split_ifs at h with hdigit
  · simpa using hdigit
  · omega
  · omega
  · omega

theorem Accepted.isdigit_head (h : Accepted body n) : isdigit (byteAt body 0) = true := by
  rcases h with h | h
  · cases h with
    | binary | hexadecimal | octal => rfl
    | decimal _ hall => exact digit_of_lt (hall _ List.mem_cons_self)
  · cases h
    rfl

/-- `0b` marks a binary number. -/
def BinaryMark (body : Bytes) : Prop :=
  byteAt body 0 = chr '0' ∧ byteAt body 1 = chr 'b'

instance (body : Bytes) : Decidable (BinaryMark body) :=
  inferInstanceAs (Decidable (_ ∧ _))

theorem BinaryMark.exists_cons (h : BinaryMark body) : ∃ ds, body = chr '0' :: chr 'b' :: ds := by
  match body with
  | [] => exact absurd h (by decide)
  | [_] => exact absurd (show 0 = chr 'b' from h.2) (by decide)
  | c :: d :: ds =>
    obtain ⟨rfl, rfl⟩ : c = chr '0' ∧ d = chr 'b' := h
    exact ⟨ds, rfl⟩

theorem accepted_binary_iff {n : Nat} :
    Accepted (chr '0' :: chr 'b' :: ds) n ↔
      isdigit (byteAt ds 0) = true ∧ readInteger ds 2 = (n, ds.length) := by
  have hsettle : settleBase ds 2 = (2, 0) := by
    simp [settleBase]
  constructor
  · rintro (h | h)
    · cases h with
      | binary hne hall =>
        obtain ⟨c, ds, rfl⟩ := List.exists_cons_of_ne_nil hne
        have hhead := hall c List.mem_cons_self
        refine ⟨digit_of_lt (by change digitValue c < 10; omega), ?_⟩
        rw [readInteger_eq_iff hsettle (by simp)]
        exact ⟨hall, rfl⟩
      | octal hall => exact absurd (hall (chr 'b') List.mem_cons_self) (by decide)
      | decimal hne => exact absurd rfl hne
    · nomatch h
  · rintro ⟨hdigit, hread⟩
    cases ds with
    | nil => exact absurd hdigit (by decide)
    | cons c ds =>
      rw [readInteger_eq_iff hsettle (by simp)] at hread
      obtain ⟨hall, rfl⟩ := hread
      exact .inl (.binary (by simp) hall)

/-- A hexadecimal mark, small or capital, and a digit after it. -/
def HexMark (ds : Bytes) : Prop :=
  (byteAt ds 0 = chr 'x' ∨ byteAt ds 0 = chr 'X') ∧ digitValue (byteAt ds 1) < 16

theorem HexMark.exists_cons (h : HexMark ds) : ∃ x d rest, ds = x :: d :: rest := by
  match ds with
  | [] => exact absurd h.2 (by decide)
  | [_] => exact absurd (show digitValue 0 < 16 from h.2) (by decide)
  | x :: d :: rest => exact ⟨x, d, rest, rfl⟩

theorem value_leading_zero (b : Nat) (ds : Bytes) :
    value b ((chr '0' :: ds).map digitValue) = value b (ds.map digitValue) := by
  have hzero : digitValue (chr '0') = 0 := by decide
  rw [List.map_cons, value_cons, hzero, Nat.zero_mul, Nat.zero_add]

theorem settleBase_hex (hmark : HexMark ds) : settleBase (chr '0' :: ds) 0 = (16, 2) := by
  rw [settleBase, if_pos ⟨.inl rfl, rfl, hmark⟩]

theorem settleBase_octal (hmark : ¬ HexMark ds) : settleBase (chr '0' :: ds) 0 = (8, 0) := by
  rw [settleBase, if_neg fun h => hmark h.2.2, if_pos rfl]
  rfl

theorem settleBase_decimal {c : UInt8} (hc : c ≠ chr '0') : settleBase (c :: ds) 0 = (10, 0) := by
  rw [settleBase, if_neg fun h => hc h.2.1, if_pos rfl]
  exact congrArg (·, 0) (if_neg hc)

theorem readInteger_hex {x : UInt8} (hx : x = chr 'x' ∨ x = chr 'X') (hne : ds ≠ [])
    (hall : ∀ c ∈ ds, digitValue c < 16) :
    readInteger (chr '0' :: x :: ds) 0 =
      (value 16 (ds.map digitValue), (chr '0' :: x :: ds).length) := by
  obtain ⟨c, ds, rfl⟩ := List.exists_cons_of_ne_nil hne
  have hmark : HexMark (x :: c :: ds) := ⟨hx, hall c List.mem_cons_self⟩
  rw [readInteger_eq_iff (settleBase_hex hmark) (by simp)]
  exact ⟨hall, rfl⟩

theorem accepted_iff (hbinary : ¬ BinaryMark body) :
    Accepted body n ↔ isdigit (byteAt body 0) = true ∧ readInteger body 0 = (n, body.length) := by
  constructor
  · intro h
    refine ⟨h.isdigit_head, ?_⟩
    rcases h with h | h
    · cases h with
      | binary => exact absurd ⟨rfl, rfl⟩ hbinary
      | hexadecimal hne hall => exact readInteger_hex (.inl rfl) hne hall
      | @octal ds hall =>
        have hmark : ¬ HexMark ds := by
          rintro ⟨hx, -⟩
          cases ds with
          | nil => exact absurd hx (by decide)
          | cons x ds =>
            have hlt := hall x List.mem_cons_self
            rcases hx with hx | hx
            · rw [show x = chr 'x' from hx] at hlt
              exact absurd hlt (by decide)
            · rw [show x = chr 'X' from hx] at hlt
              exact absurd hlt (by decide)
        rw [readInteger_eq_iff (settleBase_octal hmark) (by simp)]
        refine ⟨?_, (value_leading_zero 8 ds).symm⟩
        intro c hc
        rcases List.mem_cons.mp hc with rfl | hc
        · decide
        · exact hall c hc
      | decimal hc hall =>
        rw [readInteger_eq_iff (settleBase_decimal hc) (by simp)]
        exact ⟨hall, rfl⟩
    · cases h with
      | intro hne hall => exact readInteger_hex (.inr rfl) hne hall
  · rintro ⟨hdigit, hread⟩
    cases body with
    | nil => exact absurd hdigit (by decide)
    | cons c ds =>
      by_cases hc : c = chr '0'
      · subst hc
        by_cases hmark : HexMark ds
        · obtain ⟨x, d, ds, rfl⟩ := hmark.exists_cons
          rw [readInteger_eq_iff (settleBase_hex hmark) (by simp)] at hread
          obtain ⟨hall, rfl⟩ := hread
          rcases hmark.1 with hx | hx
          · obtain rfl : x = chr 'x' := hx
            exact .inl (.hexadecimal (by simp) hall)
          · obtain rfl : x = chr 'X' := hx
            exact .inr (.intro (by simp) hall)
        · rw [readInteger_eq_iff (settleBase_octal hmark) (by simp)] at hread
          obtain ⟨hall, rfl⟩ := hread
          rw [List.drop_zero, value_leading_zero]
          exact .inl (.octal fun d hd => hall d (List.mem_cons_of_mem _ hd))
      · rw [readInteger_eq_iff (settleBase_decimal hc) (by simp)] at hread
        obtain ⟨hall, rfl⟩ := hread
        exact .inl (.decimal hc hall)

/-- How many bytes the binary mark takes; this is also the base that `strtoull` is
given. -/
def binarySkip (body : Bytes) : Nat :=
  if BinaryMark body then 2 else 0

theorem accepted_read_iff {n : Nat} :
    Accepted body n ↔
      isdigit (byteAt body (binarySkip body)) = true ∧
        readInteger (body.drop (binarySkip body)) (binarySkip body) =
          (n, (body.drop (binarySkip body)).length) := by
  by_cases hmark : BinaryMark body
  · obtain ⟨ds, rfl⟩ := hmark.exists_cons
    rw [binarySkip, if_pos hmark]
    exact accepted_binary_iff
  · rw [binarySkip, if_neg hmark]
    exact accepted_iff hmark

theorem prepareStringConversion_eq (hlen : inLen s = strlen s) :
    prepareStringConversion s =
      if isdigit (byteAt (unsigned (seen s)) (binarySkip (unsigned (seen s)))) then
        .ok (some ⟨afterSign (seen s) + binarySkip (unsigned (seen s)), isNegative (seen s),
          binarySkip (unsigned (seen s))⟩)
      else .ok none := by
  have htext : s.take (inLen s).toNat = seen s := by
    rw [hlen, Int.toNat_natCast, strlen, seen]
    exact (List.prefix_iff_eq_take.mp (List.takeWhile_prefix _)).symm
  have hbinary : BinaryMark (unsigned (seen s)) ↔
      byteAt (seen s) (afterSign (seen s)) = chr '0' ∧
        byteAt (seen s) (afterSign (seen s) + 1) = chr 'b' := by
    rw [BinaryMark, unsigned, byteAt_drop, byteAt_drop, Nat.add_zero]
  rw [prepareStringConversion, if_neg (by omega), htext, unsigned, byteAt_drop, ← unsigned]
  unfold binarySkip
  by_cases hmark : BinaryMark (unsigned (seen s))
  · have hcond := hbinary.mp hmark
    simp only [if_pos hmark]
    simp only [afterSign] at hcond ⊢
    simp only [if_pos hcond]
    rfl
  · have hcond := fun h => hmark (hbinary.mpr h)
    simp only [if_neg hmark, Nat.add_zero]
    simp only [afterSign] at hcond ⊢
    simp only [if_neg hcond]
    rfl

theorem exists_prepared (hlen : inLen s = strlen s) (h : Written Accepted (seen s) z) :
    ∃ pos negative base n,
      prepareStringConversion s = .ok (some ⟨pos, negative, base⟩) ∧ pos ≤ (seen s).length ∧
        isdigit (byteAt ((seen s).drop pos) 0) = true ∧
        readInteger ((seen s).drop pos) base = (n, ((seen s).drop pos).length) ∧
        z = signed negative n := by
  obtain ⟨n, hbody, hz⟩ := (written_iff (fun _ _ h => h.isdigit_head) _ z).mp h
  obtain ⟨hdigit, hread⟩ := accepted_read_iff.mp hbody
  have hprepared := prepareStringConversion_eq hlen
  rw [if_pos hdigit] at hprepared
  have hdrop : (seen s).drop (afterSign (seen s) + binarySkip (unsigned (seen s))) =
      (unsigned (seen s)).drop (binarySkip (unsigned (seen s))) := by
    rw [unsigned, List.drop_drop]
  have hstart : isdigit (byteAt ((seen s).drop
      (afterSign (seen s) + binarySkip (unsigned (seen s)))) 0) = true := by
    rw [hdrop, byteAt_drop, Nat.add_zero]
    exact hdigit
  have hpos : afterSign (seen s) + binarySkip (unsigned (seen s)) ≤ (seen s).length := by
    by_contra hlt
    rw [List.drop_eq_nil_of_le (by omega)] at hstart
    exact absurd hstart (by decide)
  refine ⟨_, _, _, n, hprepared, hpos, hstart, ?_, hz⟩
  rw [hdrop]
  exact hread

theorem strtoull_of_digit (hseen : seen t = t) (hdigit : isdigit (byteAt t 0) = true) :
    strtoull t base =
      if (readInteger t base).2 = 0 then ⟨0, 0, false⟩
      else if ullongMax < (readInteger t base).1 then ⟨ullongMax, (readInteger t base).2, true⟩
      else ⟨(readInteger t base).1, (readInteger t base).2, false⟩ := by
  have hblanks : ([] ++ t).takeWhile isspace = [] :=
    takeWhile_blanks (by simp) (isdigit_not_isspace hdigit)
  rw [List.nil_append] at hblanks
  have hbody := List.takeWhile_append_dropWhile (p := isspace) (l := t)
  rw [hblanks, List.nil_append] at hbody
  obtain ⟨-, -, -, hminus, hplus, -⟩ := isdigit_ne hdigit
  have hsign : ¬ (byteAt t 0 = chr '-' ∨ byteAt t 0 = chr '+') := by
    simp [hminus, hplus]
  rw [seen] at hseen
  simp only [strtoull, hseen, hblanks, hbody, if_neg hsign, if_neg hminus, List.length_nil,
    List.drop_zero, Nat.zero_add]

theorem bigintOf_of_inRange (h : InRange (signed negative n)) :
    bigintOf negative n = (signed negative n, false) := by
  obtain ⟨hlow, hhigh⟩ := h
  cases negative with
  | true =>
    simp only [signed, if_true] at hlow hhigh ⊢
    simp only [bigintOf, if_true]
    split_ifs with habove hlast
    · omega
    · rw [hlast]
      rfl
    · rfl
  | false =>
    simp only [signed, Bool.false_eq_true, if_false] at hlow hhigh ⊢
    simp only [bigintOf, Bool.false_eq_true, if_false]
    split_ifs with habove
    · omega
    · rfl

theorem bigintOf_of_not_inRange (h : ¬ InRange (signed negative n)) :
    (bigintOf negative n).2 = true := by
  unfold InRange at h
  cases negative with
  | true =>
    simp only [signed, if_true] at h
    simp only [bigintOf, if_true]
    rw [if_pos (by omega)]
  | false =>
    simp only [signed, Bool.false_eq_true, if_false] at h
    simp only [bigintOf, Bool.false_eq_true, if_false]
    rw [if_pos (by omega)]

theorem strtoull_complete (hseen : seen t = t) (hdigit : isdigit (byteAt t 0) = true) :
    (¬ ((strtoull t base).erange = true ∨ (bigintOf negative (strtoull t base).value).2 = true) ∧
        (strtoull t base).used = t.length ∧
        (bigintOf negative (strtoull t base).value).1 = z) ↔
      ∃ n, readInteger t base = (n, t.length) ∧ z = signed negative n ∧ InRange z := by
  have hne : t.length ≠ 0 := by
    rintro hzero
    rw [List.length_eq_zero_iff.mp hzero] at hdigit
    exact absurd hdigit (by decide)
  rw [strtoull_of_digit hseen hdigit]
  obtain ⟨m, used⟩ := readInteger t base
  dsimp only
  split_ifs with hused hmax
  · constructor
    · rintro ⟨-, hlength, -⟩
      exact absurd hlength.symm hne
    · rintro ⟨n, hread, -⟩
      exact absurd ((Prod.mk.inj hread).2.symm.trans hused) hne
  · constructor
    · rintro ⟨hfine, -⟩
      exact absurd (.inl rfl) hfine
    · rintro ⟨n, hread, rfl, hlow, hhigh⟩
      obtain ⟨rfl, -⟩ := Prod.mk.inj hread
      unfold ullongMax at hmax
      unfold signed at hlow hhigh
      split_ifs at hlow hhigh
      · omega
      · omega
  · by_cases hrange : InRange (signed negative m)
    · rw [bigintOf_of_inRange hrange]
      constructor
      · rintro ⟨-, rfl, rfl⟩
        exact ⟨m, rfl, rfl, hrange⟩
      · rintro ⟨n, hread, rfl, -⟩
        obtain ⟨rfl, rfl⟩ := Prod.mk.inj hread
        exact ⟨by simp, rfl, rfl⟩
    · constructor
      · rintro ⟨hfine, -⟩
        exact absurd (.inr (bigintOf_of_not_inRange hrange)) hfine
      · rintro ⟨n, hread, rfl, hin⟩
        obtain ⟨rfl, -⟩ := Prod.mk.inj hread
        exact absurd hin hrange

theorem strtoull_seen (s : Bytes) (base : Nat) : strtoull (seen s) base = strtoull s base := by
  have hseen : (seen s).takeWhile (· ≠ 0) = s.takeWhile (· ≠ 0) :=
    List.takeWhile_eq_self_iff.mpr fun _ hc => decide_eq_true (ne_zero_of_mem_seen hc)
  unfold strtoull
  rw [hseen]

theorem convertBigint_eq_ok_iff {pos : Nat} (hlen : inLen s = (seen s).length)
    (hdigit : isdigit (byteAt ((seen s).drop pos) 0) = true) :
    convertBigint s ⟨pos, negative, base⟩ = .ok z ↔
      ∃ n, readInteger ((seen s).drop pos) base = (n, ((seen s).drop pos).length) ∧
        z = signed negative n ∧ InRange z := by
  have hpos : pos < (seen s).length := by
    by_contra hle
    rw [List.drop_eq_nil_of_le (Nat.le_of_not_lt hle)] at hdigit
    exact absurd hdigit (by decide)
  have hseen : seen ((seen s).drop pos) = (seen s).drop pos :=
    List.takeWhile_eq_self_iff.mpr fun _ hc =>
      decide_eq_true (ne_zero_of_mem_seen (List.mem_of_mem_drop hc))
  rw [← strtoull_complete hseen hdigit]
  unfold convertBigint
  rw [← strtoull_seen, seen_drop s hpos.le, hlen, List.length_drop]
  generalize strtoull ((seen s).drop pos) base = temp
  dsimp only
  split_ifs with hrange hused hend
  · exact iff_of_false (by simp) fun h => h.1 hrange
  · refine iff_of_false (by simp) fun h => ?_
    omega
  · refine iff_of_false (by simp) fun h => hend ?_
    omega
  · simp only [Except.ok.injEq]
    constructor
    · intro heq
      exact ⟨hrange, by omega, heq⟩
    · exact fun h => h.2.2

theorem thenConvert_eq_ok_iff {convert : Prepared → Except Thrown Int}
    {R : Nat → Bytes → Nat → Prop} {P : Int → Prop}
    (hhead : ∀ body n, L body n → isdigit (byteAt body 0) = true)
    (hL : ∀ body n, L body n ↔ isdigit (byteAt body (binarySkip body)) = true ∧
      R (binarySkip body) (body.drop (binarySkip body)) n)
    (hconvert : ∀ pos negative base, inLen s = (seen s).length →
      isdigit (byteAt ((seen s).drop pos) 0) = true →
      (convert ⟨pos, negative, base⟩ = .ok z ↔
        ∃ n, R base ((seen s).drop pos) n ∧ z = signed negative n ∧ P z)) :
    thenConvert convert (prepareStringConversion s) = .ok z ↔
      inLen s = strlen s ∧ Written L (seen s) z ∧ P z := by
  rw [written_iff hhead]
  by_cases hlen : inLen s = strlen s
  · rw [prepareStringConversion_eq hlen]
    by_cases hdigit : isdigit (byteAt (unsigned (seen s)) (binarySkip (unsigned (seen s)))) = true
    · have hdrop : (seen s).drop (afterSign (seen s) + binarySkip (unsigned (seen s))) =
          (unsigned (seen s)).drop (binarySkip (unsigned (seen s))) := by
        rw [unsigned, List.drop_drop]
      have hstart : isdigit (byteAt ((seen s).drop
          (afterSign (seen s) + binarySkip (unsigned (seen s)))) 0) = true := by
        rw [hdrop, byteAt_drop, Nat.add_zero]
        exact hdigit
      rw [if_pos hdigit, thenConvert, hconvert _ _ _ (hlen.trans strlen_eq) hstart, hdrop]
      simp only [hL, hdigit, hlen, true_and]
      constructor
      · rintro ⟨n, hread, rfl, hrange⟩
        exact ⟨⟨n, hread, rfl⟩, hrange⟩
      · rintro ⟨⟨n, hread, rfl⟩, hrange⟩
        exact ⟨n, hread, rfl, hrange⟩
    · rw [if_neg hdigit, thenConvert]
      refine iff_of_false (by simp) ?_
      rintro ⟨-, ⟨n, hbody, -⟩, -⟩
      exact hdigit ((hL _ _).mp hbody).1
  · rw [prepareStringConversion, if_pos (.inr hlen), thenConvert]
    exact iff_of_false (by simp) fun h => hlen h.1

theorem parseBigint_eq_ok_iff {z : Int} :
    parseBigint s = .ok z ↔ inLen s = strlen s ∧ Written Accepted (seen s) z ∧ InRange z :=
  thenConvert_eq_ok_iff (R := fun base t n => readInteger t base = (n, t.length))
    (fun _ _ h => h.isdigit_head) (fun _ _ => accepted_read_iff)
    fun _ _ _ => convertBigint_eq_ok_iff

theorem parseBigint_ne_fatal {message : String} : parseBigint s ≠ .error (.fatal message) := by
  have hconvert : ∀ p, convertBigint s p ≠ .error (.fatal message) := by
    intro p
    unfold convertBigint
    dsimp only
    split_ifs <;> simp
  rw [parseBigint]
  by_cases hlen : inLen s = strlen s
  · rw [prepareStringConversion_eq hlen]
    by_cases hdigit : isdigit (byteAt (unsigned (seen s)) (binarySkip (unsigned (seen s)))) = true
    · rw [if_pos hdigit, thenConvert]
      exact hconvert _
    · rw [if_neg hdigit, thenConvert]
      simp
  · rw [prepareStringConversion, if_pos (.inr hlen), thenConvert]
    simp

theorem Accepted.digitValue_lt (h : Accepted body n) : ∀ c ∈ body, digitValue c < 36 := by
  have hdigits : ∀ (b : Nat) (ds : Bytes), b ≤ 16 → (∀ c ∈ ds, digitValue c < b) →
      ∀ c ∈ ds, digitValue c < 36 := by
    intro b ds hb hall c hc
    have hlt := hall c hc
    omega
  have hmarked : ∀ (b : Nat) (x : UInt8) (ds : Bytes), b ≤ 16 → digitValue x < 36 →
      (∀ c ∈ ds, digitValue c < b) → ∀ c ∈ chr '0' :: x :: ds, digitValue c < 36 := by
    intro b x ds hb hx hall
    rw [List.forall_mem_cons, List.forall_mem_cons]
    exact ⟨by decide, hx, hdigits b ds hb hall⟩
  rcases h with h | h
  · cases h with
    | binary _ hall => exact hmarked 2 _ _ (by decide) (by decide) hall
    | hexadecimal _ hall => exact hmarked 16 _ _ (by decide) (by decide) hall
    | octal hall =>
      rw [List.forall_mem_cons]
      exact ⟨by decide, hdigits 8 _ (by decide) hall⟩
    | decimal _ hall => exact hdigits 10 _ (by decide) hall
  · cases h with
    | intro _ hall => exact hmarked 16 _ _ (by decide) (by decide) hall

theorem Accepted.ne_zero (h : Accepted body n) : ∀ c ∈ body, c ≠ 0 := by
  rintro c hc rfl
  exact absurd (h.digitValue_lt 0 hc) (by decide)

theorem Written.seen_eq (h : Written Accepted s z) : seen s = s := by
  obtain ⟨blanks, sign, body, negative, n, rfl, hblanks, hsign, hbody, -⟩ := h
  refine List.takeWhile_eq_self_iff.mpr fun c hc => decide_eq_true ?_
  rcases List.mem_append.mp hc with hc | hc
  · rintro rfl
    exact absurd (hblanks 0 hc) (by decide)
  · rcases List.mem_append.mp hc with hc | hc
    · cases hsign with
      | plain => simp at hc
      | plus | minus =>
        rw [List.mem_singleton.mp hc]
        decide
    · exact hbody.ne_zero c hc

theorem Written.mono {L' : Bytes → Nat → Prop} (hweaker : ∀ body n, L body n → L' body n)
    (h : Written L s z) : Written L' s z := by
  obtain ⟨blanks, sign, body, negative, n, hs, hblanks, hsign, hbody, hz⟩ := h
  exact ⟨blanks, sign, body, negative, n, hs, hblanks, hsign, hweaker body n hbody, hz⟩

theorem written_accepted_iff {z : Int} :
    Written Accepted s z ↔ Written Literal s z ∨ Written CapitalHex s z := by
  constructor
  · rintro ⟨blanks, sign, body, negative, n, hs, hblanks, hsign, hbody | hbody, hz⟩
    · exact .inl ⟨blanks, sign, body, negative, n, hs, hblanks, hsign, hbody, hz⟩
    · exact .inr ⟨blanks, sign, body, negative, n, hs, hblanks, hsign, hbody, hz⟩
  · rintro (h | h)
    · exact h.mono fun _ _ => .inl
    · exact h.mono fun _ _ => .inr

theorem CapitalHex.not_literal {m : Nat} (h : CapitalHex body n) : ¬ Literal body m := by
  intro hliteral
  cases h with
  | intro =>
    cases hliteral with
    | octal hall => exact absurd (hall (chr 'X') List.mem_cons_self) (by decide)
    | decimal hne => exact absurd rfl hne

theorem not_literal_of_capitalHex {z' : Int} (h : Written CapitalHex s z) :
    ¬ Written Literal s z' := by
  intro hliteral
  rw [written_iff fun _ _ h => Accepted.isdigit_head (.inr h)] at h
  rw [written_iff fun _ _ h => Accepted.isdigit_head (.inl h)] at hliteral
  obtain ⟨n, hhex, -⟩ := h
  obtain ⟨m, hbody, -⟩ := hliteral
  exact hhex.not_literal hbody

theorem parseBigint_short_iff (hshort : s.length < 2 ^ 31) :
    parseBigint s = .ok z ↔ Written Accepted s z ∧ InRange z := by
  have hin : inLen s = s.length := toInt32_of_lt hshort
  rw [parseBigint_eq_ok_iff]
  constructor
  · rintro ⟨hlen, hwritten, hrange⟩
    rw [hin, strlen_eq] at hlen
    have hwhole : seen s = s := (List.takeWhile_prefix _).eq_of_length (Int.ofNat_inj.mp hlen.symm)
    exact ⟨hwhole ▸ hwritten, hrange⟩
  · rintro ⟨hwritten, hrange⟩
    rw [hin, strlen_eq, hwritten.seen_eq]
    exact ⟨rfl, hwritten, hrange⟩

theorem parseBigint_long_ne {z' : Int} (hlong : 2 ^ 31 ≤ s.length)
    (hwritten : Written Accepted s z) : parseBigint s ≠ .ok z' := by
  intro h
  obtain ⟨hlen, -⟩ := parseBigint_eq_ok_iff.mp h
  rw [strlen_eq, hwritten.seen_eq] at hlen
  have hconverted : inLen s < 2 ^ 31 := (toInt32_ne hlong).1
  omega

/-- The parser accepts exactly the literals in range, with their value; otherwise
it throws. -/
def BigintRight (s : Bytes) : Prop :=
  (∀ z, parseBigint s = .ok z ↔ Written Literal s z ∧ InRange z) ∧
    ∀ message, parseBigint s ≠ .error (.fatal message)

/--
The texts that are misread: a number with the mark `0X`; a number of `2 ^ 31` bytes
or more; and a text so long that its length, cut to 32 bits, is the offset of a NUL
behind a number.
-/
def Misread (s : Bytes) : Prop :=
  if s.length < 2 ^ 31 then
    ∃ z, Written CapitalHex s z ∧ InRange z
  else
    (∃ z, Written Literal s z ∧ InRange z) ∨
      inLen s = strlen s ∧ ∃ z, Written Accepted (seen s) z ∧ InRange z

/-- Where `php_scylladb_parse_bigint` follows the grammar. -/
theorem bigint_right_iff
    (s : Bytes) :
    BigintRight s ↔ ¬ Misread s := by
  rw [BigintRight, and_iff_left fun message => parseBigint_ne_fatal, Misread]
  split_ifs with hshort
  · constructor
    · rintro hright ⟨z, hhex, hrange⟩
      have hok : parseBigint s = .ok z :=
        (parseBigint_short_iff hshort).mpr ⟨written_accepted_iff.mpr (.inr hhex), hrange⟩
      exact not_literal_of_capitalHex hhex ((hright z).mp hok).1
    · intro hfine z
      rw [parseBigint_short_iff hshort, written_accepted_iff]
      constructor
      · rintro ⟨hliteral | hhex, hrange⟩
        · exact ⟨hliteral, hrange⟩
        · exact absurd ⟨z, hhex, hrange⟩ hfine
      · rintro ⟨hliteral, hrange⟩
        exact ⟨.inl hliteral, hrange⟩
  · have hlong : 2 ^ 31 ≤ s.length := Nat.le_of_not_lt hshort
    constructor
    · rintro hright (⟨z, hliteral, hrange⟩ | ⟨hlen, z, hwritten, hrange⟩)
      · exact parseBigint_long_ne hlong (written_accepted_iff.mpr (.inl hliteral))
          ((hright z).mpr ⟨hliteral, hrange⟩)
      · have hok := parseBigint_eq_ok_iff.mpr ⟨hlen, hwritten, hrange⟩
        obtain ⟨hliteral, -⟩ := (hright z).mp hok
        exact parseBigint_long_ne hlong (written_accepted_iff.mpr (.inl hliteral)) hok
    · intro hfine z
      refine iff_of_false ?_ ?_
      · intro hok
        obtain ⟨hlen, hwritten, hrange⟩ := parseBigint_eq_ok_iff.mp hok
        exact hfine (.inr ⟨hlen, z, hwritten, hrange⟩)
      · rintro ⟨hliteral, hrange⟩
        exact hfine (.inl ⟨z, hliteral, hrange⟩)

theorem literal_zeros (k : Nat) : Literal (List.replicate (k + 1) (chr '0')) 0 := by
  have hzero : digitValue (chr '0') = 0 := by decide
  have hvalue : value 8 ((List.replicate k (chr '0')).map digitValue) = 0 := by
    rw [List.map_replicate, hzero, value_replicate_zero]
  rw [List.replicate_succ, ← hvalue]
  refine .octal fun c hc => ?_
  rw [List.eq_of_mem_replicate hc, hzero]
  decide

/-- `0X1F` is accepted as 31; and `2 ^ 31` zeros, which write 0, are rejected. -/
theorem capital_accepted_long_rejected :
    parseBigint (ascii "0X1F") = .ok 31 ∧ ¬ BigintRight (ascii "0X1F") ∧
      Written Literal (List.replicate (2 ^ 31) (chr '0')) 0 ∧
      parseBigint (List.replicate (2 ^ 31) (chr '0')) ≠ .ok 0 ∧
      ¬ BigintRight (List.replicate (2 ^ 31) (chr '0')) := by
  have hdigits : ∀ c ∈ [chr '1', chr 'F'], digitValue c < 16 := by
    rw [List.forall_mem_cons, List.forall_mem_singleton]
    exact ⟨by decide, by decide⟩
  have hhex : Written CapitalHex (ascii "0X1F") 31 :=
    ⟨[], [], _, false, 31, rfl, by simp, .plain, .intro (by simp) hdigits, rfl⟩
  have hok : parseBigint (ascii "0X1F") = .ok 31 :=
    (parseBigint_short_iff (by decide)).mpr
      ⟨written_accepted_iff.mpr (.inr hhex), by decide, by decide⟩
  have hzeros : Written Literal (List.replicate (2 ^ 31) (chr '0')) 0 := by
    refine ⟨[], [], _, false, 0, rfl, by simp, .plain, ?_, rfl⟩
    exact literal_zeros (2 ^ 31 - 1)
  have hlong : 2 ^ 31 ≤ (List.replicate (2 ^ 31) (chr '0')).length := by
    rw [List.length_replicate]
  have hrejected : parseBigint (List.replicate (2 ^ 31) (chr '0')) ≠ .ok 0 :=
    parseBigint_long_ne hlong (written_accepted_iff.mpr (.inl hzeros))
  refine ⟨hok, fun hright => ?_, hzeros, hrejected, fun hright => ?_⟩
  · exact not_literal_of_capitalHex hhex ((hright.1 31).mp hok).1
  · exact hrejected ((hright.1 0).mpr ⟨hzeros, by decide, by decide⟩)

end Numbers
end ScyllaDriver
