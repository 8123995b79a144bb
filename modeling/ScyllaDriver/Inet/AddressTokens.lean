import ScyllaDriver.Inet.AddressGrammar

/-!
# What the tokenizer sees

A text is empty, starts with a mark, or starts with a field. The token of a
field is the group the grammar has at that place, because a group is never
followed by another hex digit. A decimal token passes the checks on an IPv4
byte exactly when it is the decimal text of a byte.
-/

namespace ScyllaDriver
namespace Inet

open CString Positional

variable {c : UInt8}

theorem tolower_of_isxdigit (h : isxdigit c = true) :
    isxdigit (tolower c) = true ∧ digitValue (tolower c) = digitValue c := by
  unfold tolower
  split_ifs with hupper
  · have hnat : (c + 32).toNat = c.toNat + 32 := by
      rw [UInt8.toNat_add]
      simp
      omega
    simp only [isxdigit, isdigit, Bool.or_eq_true, Bool.and_eq_true, decide_eq_true_eq] at h
    constructor
    · simp only [isxdigit, isdigit, hnat, Bool.or_eq_true, Bool.and_eq_true, decide_eq_true_eq]
      omega
    · simp only [digitValue, hnat]
      split_ifs <;> omega
  · exact ⟨h, rfl⟩

theorem tolower_of_isdigit (h : isdigit c = true) : tolower c = c := by
  simp only [isdigit, Bool.and_eq_true, decide_eq_true_eq] at h
  unfold tolower
  rw [if_neg (by omega)]

variable {t : Bytes}

theorem map_tolower_of_digits (ht : ∀ c ∈ t, isdigit c = true) : t.map tolower = t := by
  conv_rhs =>
    rw [← List.map_id t]
  refine List.map_congr_left ?_
  intro c hc
  exact tolower_of_isdigit (ht c hc)

theorem isxdigit_marks :
    isxdigit (chr ':') = false ∧ isxdigit (chr '.') = false ∧ isxdigit 0 = false := by
  decide

theorem strtoulHex_map_tolower (ht : IsGroup t) :
    strtoulHex (t.map tolower) = groupValue t := by
  have hdigits : ∀ c ∈ t.map tolower, isxdigit c = true := by
    intro c hc
    obtain ⟨x, hx, rfl⟩ := List.mem_map.mp hc
    exact (tolower_of_isxdigit (ht.digits x hx)).1
  have hvalues : (t.map tolower).map digitValue = t.map digitValue := by
    rw [List.map_map]
    refine List.map_congr_left ?_
    intro x hx
    exact (tolower_of_isxdigit (ht.digits x hx)).2
  rw [strtoulHex, List.takeWhile_eq_self_iff.mpr hdigits, hvalues, groupValue]

/-- A text that does not start with a hex digit. -/
def NoField (t : Bytes) : Prop :=
  ∀ c ∈ t.head?, isxdigit c = false

@[simp] theorem noField_nil : NoField [] := by
  simp [NoField]

@[simp] theorem noField_cons (c : UInt8) (t : Bytes) : NoField (c :: t) ↔ isxdigit c = false := by
  simp [NoField]

theorem fieldText_append {rest : Bytes} (ht : IsGroup t) (hrest : NoField rest) :
    fieldText (t ++ rest) = t := by
  have htake : (t ++ rest).take tokenMaxLen = t ++ rest.take (tokenMaxLen - t.length) := by
    have hshort : t.take tokenMaxLen = t := List.take_of_length_le ht.short
    rw [List.take_append, hshort]
  have hend : (rest.take (tokenMaxLen - t.length)).takeWhile isxdigit = [] := by
    cases rest with
    | nil =>
      simp
    | cons c rest =>
      rw [noField_cons] at hrest
      cases tokenMaxLen - t.length with
      | zero =>
        simp
      | succ k =>
        simp [hrest]
  rw [fieldText, htake, List.takeWhile_append_of_pos ht.digits, hend, List.append_nil]

theorem field_unique {t' rest rest' : Bytes} (hfield : fieldText (t ++ rest) = t)
    (ht' : IsGroup t') (hrest' : NoField rest') (h : t ++ rest = t' ++ rest') :
    t = t' ∧ rest = rest' := by
  have heq := fieldText_append ht' hrest'
  rw [← h, hfield] at heq
  subst heq
  exact ⟨rfl, List.append_cancel_left h⟩

theorem fieldText_isGroup {rest : Bytes} (hc : isxdigit c = true) :
    IsGroup (fieldText (c :: rest)) where
  nonempty := by
    simp [fieldText, tokenMaxLen, hc]
  short := by
    refine le_trans (List.takeWhile_prefix _).length_le ?_
    simp [tokenMaxLen]
  digits := by
    intro x hx
    exact List.all_eq_true.mp List.all_takeWhile x hx

theorem fieldText_append_drop (text : Bytes) :
    fieldText text ++ text.drop (fieldText text).length = text := by
  have hprefix : fieldText text <+: text := (List.takeWhile_prefix _).trans (List.take_prefix _ _)
  exact List.prefix_iff_eq_append.mp hprefix

@[simp] theorem tokenize_nil : ipAddressTokenize [] = ⟨.endOfAddress, [0]⟩ := by
  decide

theorem tokenize_mark (hc : isxdigit c = false) (rest : Bytes) :
    ipAddressTokenize (c :: rest) = ⟨markType c, [c]⟩ := by
  simp [ipAddressTokenize, byteAt, hc]

theorem tokenize_field {text : Bytes} (ht : IsGroup t) (hfield : fieldText text = t) :
    ipAddressTokenize text = ⟨if t.all isdigit then .dec else .hex, t.map tolower⟩ := by
  have hhead : isxdigit (byteAt text 0) = true := by
    obtain ⟨c, cs, rfl⟩ := List.exists_cons_of_ne_nil ht.nonempty
    have h := fieldText_append_drop text
    rw [hfield] at h
    rw [← h]
    exact ht.digits c (by simp)
  simp [ipAddressTokenize, hhead, hfield]

/-- What a text can start with, and the token of it. -/
inductive Start : Bytes → Token → Prop
  | ended :
      Start [] ⟨.endOfAddress, [0]⟩
  | colon (rest : Bytes) :
      Start (chr ':' :: rest) ⟨.colon, [chr ':']⟩
  | dot (rest : Bytes) :
      Start (chr '.' :: rest) ⟨.dot, [chr '.']⟩
  | illegal (c : UInt8) (rest : Bytes) :
      isxdigit c = false → c ≠ chr ':' → c ≠ chr '.' →
      Start (c :: rest) ⟨.illegal, [c]⟩
  | dec (t rest : Bytes) :
      IsGroup t → fieldText (t ++ rest) = t →
      (∀ c ∈ t, isdigit c = true) →
      Start (t ++ rest) ⟨.dec, t⟩
  | hex (t rest : Bytes) :
      IsGroup t → fieldText (t ++ rest) = t →
      (∃ c ∈ t, isdigit c = false) →
      Start (t ++ rest) ⟨.hex, t.map tolower⟩

theorem exists_start {text : Bytes} (hnul : 0 ∉ text) :
    ∃ token, ipAddressTokenize text = token ∧ Start text token := by
  cases text with
  | nil =>
    exact ⟨_, tokenize_nil, .ended⟩
  | cons c rest =>
    have hc0 : c ≠ 0 := by
      rintro rfl
      simp at hnul
    cases hx : isxdigit c with
    | true =>
      have hgroup : IsGroup (fieldText (c :: rest)) := fieldText_isGroup hx
      have hsplit := fieldText_append_drop (c :: rest)
      refine ⟨_, tokenize_field hgroup rfl, ?_⟩
      by_cases hall : ∀ x ∈ fieldText (c :: rest), isdigit x = true
      · have hstart := Start.dec _ _ hgroup (congrArg fieldText hsplit) hall
        rw [hsplit] at hstart
        rwa [if_pos (List.all_eq_true.mpr hall), map_tolower_of_digits hall]
      · have hhex : ∃ x ∈ fieldText (c :: rest), isdigit x = false := by
          simpa using hall
        have hstart := Start.hex _ _ hgroup (congrArg fieldText hsplit) hhex
        rw [hsplit] at hstart
        rwa [if_neg (by rwa [List.all_eq_true])]
    | false =>
      refine ⟨_, tokenize_mark hx rest, ?_⟩
      by_cases hcolon : c = chr ':'
      · subst hcolon
        exact .colon rest
      · by_cases hdot : c = chr '.'
        · subst hdot
          exact .dot rest
        · rw [markType, if_neg hc0, if_neg hcolon, if_neg hdot]
          exact .illegal c rest hx hcolon hdot

theorem strlen_eq_length_iff (input : Bytes) : strlen input = input.length ↔ 0 ∉ input := by
  induction input with
  | nil =>
    simp [strlen]
  | cons c input ih =>
    by_cases hc : c = 0
    · simp [strlen, hc]
    · have hne : ¬(0 : UInt8) = c := fun h => hc h.symm
      have hlen : strlen (c :: input) = strlen input + 1 := by
        simp [strlen, hc]
      simp [hlen, ih, hne]

/-- What the parser checks of a decimal token that is to be an IPv4 byte. -/
def IsByteToken (t : Bytes) : Prop :=
  ¬(t.length > 1 ∧ byteAt t 0 = chr '0') ∧ value 10 (t.map digitValue) ≤ 255

theorem strtol10_digitToken (ht : IsGroup t) (hdigits : ∀ c ∈ t, isdigit c = true) :
    (strtol10 t).value = value 10 (t.map digitValue) := by
  have hlt : ∀ d ∈ t.map digitValue, d < 10 := by
    intro d hd
    obtain ⟨c, hc, rfl⟩ := List.mem_map.mp hd
    exact (isdigit_digitValue (hdigits c hc)).2
  have hbound : value 10 (t.map digitValue) < 10 ^ 4 := by
    calc value 10 (t.map digitValue) < 10 ^ (t.map digitValue).length := value_lt (by decide) hlt
      _ ≤ 10 ^ 4 := by
          apply Nat.pow_le_pow_right (by decide)
          simpa using ht.short
  have h := strtol10_digits false ht.nonempty hdigits rfl
    (by simp only [longMin, Bool.false_eq_true, if_false]; omega)
    (by simp only [longMax, Bool.false_eq_true, if_false]; omega)
  simp only [Bool.false_eq_true, if_false, List.nil_append] at h
  rw [h]

/-- The checks accept exactly the decimal texts of the bytes. -/
theorem isByteToken_iff (ht : t ≠ []) (hdigits : ∀ c ∈ t, isdigit c = true) :
    IsByteToken t ↔ ∃ b : UInt8, t = decimalText b.toNat := by
  constructor
  · rintro ⟨hzero, hvalue⟩
    obtain ⟨c, cs, rfl⟩ := List.exists_cons_of_ne_nil ht
    refine ⟨UInt8.ofNat (value 10 ((c :: cs).map digitValue)), ?_⟩
    have hhead : cs = [] ∨ c ≠ chr '0' := by
      by_cases hcs : cs = []
      · exact .inl hcs
      · refine .inr ?_
        intro hc
        apply hzero
        have := List.length_pos_iff.mpr hcs
        refine ⟨by simp only [List.length_cons]; omega, ?_⟩
        simpa [byteAt] using hc
    rw [UInt8.toNat_ofNat', Nat.mod_eq_of_lt (by omega), decimalText_value hdigits hhead]
  · rintro ⟨b, rfl⟩
    have hb := b.toNat_lt
    refine ⟨?_, ?_⟩
    · rintro ⟨hlength, hzero⟩
      by_cases hb0 : b.toNat = 0
      · simp [hb0, decimalText] at hlength
      · obtain ⟨c, cs, htext, hc⟩ := decimalText_head_ne_zero hb0
        rw [htext] at hzero
        exact hc (by simpa [byteAt] using hzero)
    · rw [value_decimalText]
      omega

@[simp] theorem dottedText_singleton (b : UInt8) : dottedText [b] = decimalText b.toNat := by
  simp [dottedText]

theorem dottedText_cons (b : UInt8) {bs : Bytes} (hbs : bs ≠ []) :
    dottedText (b :: bs) = decimalText b.toNat ++ chr '.' :: dottedText bs := by
  have hne : bs.map (fun b => decimalText b.toNat) ≠ [] := by
    simpa using hbs
  simp [dottedText, List.intercalate_cons_of_ne_nil hne]

theorem isGroup_decimalText (b : UInt8) : IsGroup (decimalText b.toNat) where
  nonempty := decimalText_ne_nil _
  short := by
    have hb := b.toNat_lt
    have := decimalText_length_le (n := b.toNat) (k := 3) (by decide) (by omega)
    omega
  digits := by
    intro c hc
    exact isdigit_isxdigit (isdigit_of_mem_decimalText hc)

end Inet
end ScyllaDriver
