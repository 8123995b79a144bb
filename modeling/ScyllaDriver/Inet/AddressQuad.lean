import ScyllaDriver.Inet.AddressRun

/-!
# The states of an IPv4 address

From the state in which an IPv4 byte is expected, the parser accepts exactly
the remaining bytes of a dotted quad. The induction is on the number of bytes
that are left; one round reads a byte, the next one its dot.
-/

namespace ScyllaDriver
namespace Inet

open CString Positional

@[simp] theorem advance_state (p : Parser) (n : Nat) : (p.advance n).state = p.state :=
  rfl

section

variable {input : Bytes} {p : Parser} {v4 : Bool} {block : Option Nat}
  {w rest : Bytes} {inet : CassInet}

theorem accepts_ended (h : Reading input p v4 block w rest) (hstate : p.state = .ended)
    (hfour : v4 = true → w.length = 4) :
    Accepts input p inet ↔ rest = [] ∧ Concludes v4 block w inet := by
  obtain ⟨token, htoken, hstart⟩ := exists_start h.noNul
  by_cases hend : token.type = .endOfAddress
  · have hrest : rest = [] := by
      cases hstart <;> first | rfl | cases hend
    subst hrest
    have hround : step input p = Outcome.done (p.advance token.text.length) := by
      rw [h.step_eq htoken (by simp [hend])]
      simp [Parser.onToken, hstate, Parser.atEnd, hend]
    rw [accepts_done hround, conclude_iff (h.advance _) hfour]
    simp
  · have hrest : rest ≠ [] := by
      rintro rfl
      rw [tokenize_nil] at htoken
      exact hend (by rw [← htoken])
    have hrefused : ¬Accepts input p inet := by
      refine h.not_accepts htoken fun _ => ?_
      simp only [Parser.onToken, advance_state, hstate, Parser.atEnd, hend, if_false]
      exact refuses_expecting _ _ _
    simp [hrefused, hrest]

/-- What the bytes amount to when the last byte of a dotted quad was read. -/
def FinishesIpv4 (block : Option Nat) (w : Bytes) (inet : CassInet) : Prop :=
  Completes block w inet ∨ (block = none ∧ w.length = 4 ∧ inet = ⟨4, w⟩)

theorem concludes_iff_finishesIpv4 (block : Option Nat) (w : Bytes) (inet : CassInet) :
    Concludes (decide (block = none ∧ w.length = 4)) block w inet ↔ FinishesIpv4 block w inet := by
  by_cases h : block = none ∧ w.length = 4
  · obtain ⟨rfl, hfour⟩ := h
    simp [Concludes, FinishesIpv4, Completes, hfour]
  · have hnot : ¬(block = none ∧ w.length = 4 ∧ inet = ⟨4, w⟩) := fun h' => h ⟨h'.1, h'.2.1⟩
    simp [Concludes, FinishesIpv4, h, hnot]

theorem FinishesIpv4.length_le {block : Option Nat} {w : Bytes} {inet : CassInet}
    (h : FinishesIpv4 block w inet) : w.length ≤ 16 := by
  rcases h with h | ⟨-, h, -⟩
  · exact h.length_le
  · omega

theorem accepts_ipv4Dot (h : Reading input p v4 block w rest) (hstate : p.state = .ipv4Dot) :
    Accepts input p inet ↔
      ∃ z, rest = chr '.' :: z ∧ Accepts input { p.advance 1 with state := .ipv4Byte } inet := by
  obtain ⟨token, htoken, hstart⟩ := exists_start h.noNul
  by_cases hdot : token.type = .dot
  · obtain ⟨z, hrest, htext⟩ : ∃ z, rest = chr '.' :: z ∧ token.text = [chr '.'] := by
      cases hstart with
      | dot z =>
        exact ⟨z, rfl, rfl⟩
      | _ =>
        cases hdot
    have hround : step input p = .next { p.advance 1 with state := .ipv4Byte } := by
      rw [h.step_eq htoken (by simp [hdot])]
      simp [Parser.onToken, hstate, Parser.atIpv4Dot, hdot, htext]
    rw [accepts_next hround]
    simp [hrest]
  · have hrest : ∀ z, rest ≠ chr '.' :: z := by
      rintro z rfl
      rw [tokenize_mark isxdigit_marks.2.1] at htoken
      exact hdot (by rw [← htoken]; decide)
    have hrefused : ¬Accepts input p inet := by
      refine h.not_accepts htoken fun _ => ?_
      simp only [Parser.onToken, advance_state, hstate, Parser.atIpv4Dot, hdot, if_false]
      exact refuses_expecting _ _ _
    simp [hrefused, hrest]

theorem exists_byte_of_accepts (h : Reading input p v4 block w rest) (hstate : p.state = .ipv4Byte)
    (haccepts : Accepts input p inet) :
    ∃ (b : UInt8) (z : Bytes), rest = decimalText b.toNat ++ z ∧
      fieldText rest = decimalText b.toNat := by
  obtain ⟨token, htoken, hstart⟩ := exists_start h.noNul
  by_contra hnot
  refine h.not_accepts htoken (fun _ => ?_) haccepts
  cases hstart with
  | dec t z ht hfield hdigits =>
    have hbad : ¬IsByteToken t := by
      intro hbyte
      obtain ⟨b, rfl⟩ := (isByteToken_iff ht.nonempty hdigits).mp hbyte
      exact hnot ⟨b, z, rfl, hfield⟩
    simp only [Parser.onToken, advance_state, hstate, Parser.atIpv4Byte,
      if_true, strtol10_digitToken ht hdigits]
    by_cases hzero : t.length > 1 ∧ byteAt t 0 = chr '0'
    · rw [if_pos hzero]
      exact ⟨_, rfl⟩
    · have hlarge : value 10 (t.map digitValue) > 255 := by
        by_contra hsmall
        exact hbad ⟨hzero, by omega⟩
      rw [if_neg hzero, if_pos (by omega)]
      exact ⟨_, rfl⟩
  | _ =>
    simp only [Parser.onToken, advance_state, hstate, Parser.atIpv4Byte, reduceCtorEq, if_false]
    exact refuses_expecting _ _ _

def Parser.afterByte (p : Parser) (b : UInt8) : Parser :=
  { (p.advance (decimalText b.toNat).length).push b with
    ipv4Pos := p.ipv4Pos + 1 }

theorem Reading.afterByte {b : UInt8} {z : Bytes}
    (h : Reading input p v4 block w (decimalText b.toNat ++ z)) (hroom : w.length < 16) :
    Reading input (p.afterByte b) v4 block (w ++ [b]) z := by
  have hread := (h.advance (decimalText b.toNat).length).push hroom b
  rw [List.drop_left] at hread
  exact { hread with }

theorem step_ipv4Byte {b : UInt8} (h : Reading input p v4 block w rest)
    (hstate : p.state = .ipv4Byte) (hfield : fieldText rest = decimalText b.toNat) :
    step input p = (p.advance (decimalText b.toNat).length).addByte b.toNat := by
  have hgroup := isGroup_decimalText b
  have hdigits : ∀ c ∈ decimalText b.toNat, isdigit c = true :=
    fun c hc => isdigit_of_mem_decimalText hc
  have htoken := tokenize_field hgroup hfield
  rw [if_pos (List.all_eq_true.mpr hdigits), map_tolower_of_digits hdigits] at htoken
  obtain ⟨hzero, -⟩ := (isByteToken_iff hgroup.nonempty hdigits).mpr ⟨b, rfl⟩
  have hlt := b.toNat_lt
  rw [h.step_eq htoken (by simp)]
  simp only [Parser.onToken, advance_state, hstate, Parser.atIpv4Byte, if_true,
    strtol10_digitToken hgroup hdigits, value_decimalText]
  rw [if_neg hzero, if_neg (by omega)]

theorem addByte_eq (b : UInt8) (hlow : ¬p.pos + 2 > (v6Length : Int)) :
    (p.advance (decimalText b.toNat).length).addByte b.toNat =
      if p.ipv4Pos + 1 = (v4Length : Int) then
        .next { p.afterByte b with
          isIpv4 := p.isIpv4 || decide (p.compressPos = -1 ∧ p.pos + 1 + 1 = (v4Length : Int))
          state := .ended }
      else
        .next { p.afterByte b with state := .ipv4Dot } := by
  have hlow' : ¬(p.advance (decimalText b.toNat).length).pos + 2 > (v6Length : Int) := hlow
  simp only [Parser.addByte, if_neg hlow', Int.toNat_natCast, UInt8.ofNat_toNat]
  rfl

theorem accepts_byte_next {b : UInt8} {z : Bytes}
    (h : Reading input p v4 block w (decimalText b.toNat ++ z)) (hstate : p.state = .ipv4Byte)
    (hfield : fieldText (decimalText b.toNat ++ z) = decimalText b.toNat) (hroom : w.length < 16)
    (hcount : p.ipv4Pos + 1 ≠ 4) :
    Accepts input p inet ↔
      ∃ y, z = chr '.' :: y ∧
        Accepts input { (p.afterByte b).advance 1 with state := .ipv4Byte } inet := by
  have hlow : ¬p.pos + 2 > (v6Length : Int) := by
    have := h.pos
    simp only [v6Length]
    omega
  have hround : step input p = .next { p.afterByte b with state := .ipv4Dot } := by
    have hmore : ¬p.ipv4Pos + 1 = (v4Length : Int) := hcount
    rw [step_ipv4Byte h hstate hfield, addByte_eq b hlow, if_neg hmore]
  rw [accepts_next hround, accepts_ipv4Dot ((h.afterByte hroom).toState .ipv4Dot) rfl]
  rfl

theorem accepts_byte_last {b : UInt8} {z : Bytes}
    (h : Reading input p false block w (decimalText b.toNat ++ z)) (hstate : p.state = .ipv4Byte)
    (hfield : fieldText (decimalText b.toNat ++ z) = decimalText b.toNat) (hroom : w.length < 16)
    (hcount : p.ipv4Pos + 1 = 4) :
    Accepts input p inet ↔ z = [] ∧ FinishesIpv4 block (w ++ [b]) inet := by
  have hlow : ¬p.pos + 2 > (v6Length : Int) := by
    have := h.pos
    simp only [v6Length]
    omega
  have hflag :
      (p.isIpv4 || decide (p.compressPos = -1 ∧ p.pos + 1 + 1 = (v4Length : Int))) =
        decide (block = none ∧ (w ++ [b]).length = 4) := by
    have hblock : p.compressPos = -1 ↔ block = none := by
      rw [h.place]
      cases block with
      | none | some k =>
        simp [blockPos]
    have hlength : p.pos + 1 + 1 = (v4Length : Int) ↔ (w ++ [b]).length = 4 := by
      rw [h.pos_add_one]
      simp only [v4Length, List.length_append, List.length_singleton]
      omega
    simp only [h.domain, Bool.false_or, hblock, hlength]
  have hround :
      step input p =
        .next { p.afterByte b with
          isIpv4 := decide (block = none ∧ (w ++ [b]).length = 4)
          state := .ended } := by
    have hlast : p.ipv4Pos + 1 = (v4Length : Int) := hcount
    rw [step_ipv4Byte h hstate hfield, addByte_eq b hlow, if_pos hlast, hflag]
  have hread := h.afterByte hroom
  have hended : Reading input
      { p.afterByte b with
        isIpv4 := decide (block = none ∧ (w ++ [b]).length = 4)
        state := .ended }
      (decide (block = none ∧ (w ++ [b]).length = 4)) block (w ++ [b]) z :=
    { hread with
      domain := rfl }
  rw [accepts_next hround, accepts_ended hended rfl, concludes_iff_finishesIpv4]
  intro hfour
  exact (of_decide_eq_true hfour).2

theorem not_accepts_byte_full {b : UInt8} (h : Reading input p false block w rest)
    (hstate : p.state = .ipv4Byte) (hfield : fieldText rest = decimalText b.toNat)
    (hfull : ¬w.length < 16) : ¬Accepts input p inet := by
  have hpos := h.pos
  have hhigh : (p.advance (decimalText b.toNat).length).pos + 2 > (v6Length : Int) := by
    simp only [Parser.advance, v6Length]
    omega
  have hround := step_ipv4Byte h hstate hfield
  rw [Parser.addByte, if_pos hhigh] at hround
  rw [accepts_done hround]
  refine conclude_overflow h.domain ?_
  simp only [Parser.advance]
  omega

/-- From an expected IPv4 byte on, the rest of a dotted quad is accepted. -/
theorem accepts_ipv4Byte (left : Nat) (h : Reading input p false block w rest)
    (hstate : p.state = .ipv4Byte) (hcount : p.ipv4Pos + left = 3) :
    Accepts input p inet ↔
      ∃ bs : Bytes, bs.length = left + 1 ∧ rest = dottedText bs ∧
        FinishesIpv4 block (w ++ bs) inet := by
  induction left generalizing p w rest with
  | zero =>
    constructor
    · intro haccepts
      obtain ⟨b, z, rfl, hfield⟩ := exists_byte_of_accepts h hstate haccepts
      have hroom : w.length < 16 := by
        by_contra hfull
        exact not_accepts_byte_full h hstate hfield hfull haccepts
      obtain ⟨rfl, hfinish⟩ := (accepts_byte_last h hstate hfield hroom (by omega)).mp haccepts
      exact ⟨[b], rfl, by simp, hfinish⟩
    · rintro ⟨bs, hlength, rfl, hfinish⟩
      obtain ⟨b, rfl⟩ := List.length_eq_one_iff.mp hlength
      have hroom := hfinish.length_le
      rw [dottedText_singleton, ← List.append_nil (decimalText _)] at h
      refine (accepts_byte_last h hstate ?_ ?_ (by omega)).mpr ⟨rfl, hfinish⟩
      · exact fieldText_append (isGroup_decimalText b) noField_nil
      · simpa using hroom
  | succ left ih =>
    constructor
    · intro haccepts
      obtain ⟨b, z, rfl, hfield⟩ := exists_byte_of_accepts h hstate haccepts
      have hroom : w.length < 16 := by
        by_contra hfull
        exact not_accepts_byte_full h hstate hfield hfull haccepts
      obtain ⟨y, rfl, haccepts'⟩ := (accepts_byte_next h hstate hfield hroom (by omega)).mp haccepts
      have hnext := ((h.afterByte hroom).advance 1).toState .ipv4Byte
      obtain ⟨bs, hlength, hy, hfinish⟩ :=
        (ih hnext rfl (by simp [Parser.advance, Parser.afterByte]; omega)).mp haccepts'
      refine ⟨b :: bs, by simp [hlength], ?_, by simpa using hfinish⟩
      rw [dottedText_cons b (by rintro rfl; simp at hlength)]
      simpa using hy
    · rintro ⟨bs, hlength, rfl, hfinish⟩
      obtain ⟨b, bs, rfl⟩ := List.exists_cons_of_length_eq_add_one hlength
      have hne : bs ≠ [] := by
        rintro rfl
        simp at hlength
      have hroom := hfinish.length_le
      simp only [List.length_append, List.length_cons] at hroom hlength
      rw [dottedText_cons b hne] at h
      refine (accepts_byte_next h hstate ?_ (by omega) (by omega)).mpr ⟨_, rfl, ?_⟩
      · exact fieldText_append (isGroup_decimalText b) ((noField_cons _ _).mpr isxdigit_marks.2.1)
      · have hnext := ((h.afterByte (by omega)).advance 1).toState .ipv4Byte
        refine
          (ih hnext rfl (by simp [Parser.advance, Parser.afterByte]; omega)).mpr
            ⟨bs, by omega, by simp, by simpa using hfinish⟩

end

end Inet
end ScyllaDriver
