import ScyllaDriver.Inet.AddressQuad

/-!
# The states of an IPv6 address

From a state in which a field is expected, the parser accepts exactly what
`Reads` allows to follow. The proof is an induction on the text that is
left, with one lemma for each state of the parser; the roll-back is the case
of a dot after a decimal field, where the text left is the field's again.
-/

namespace ScyllaDriver
namespace Inet

open CString Positional

theorem Quad.exists_text (q : Quad) :
    ∃ (b : UInt8) (z : Bytes), q.text = decimalText b.toNat ++ chr '.' :: z := by
  obtain ⟨b, bs, hbytes⟩ := List.exists_cons_of_length_eq_add_one q.four
  have hne : bs ≠ [] := by
    rintro rfl
    have := q.four
    simp [hbytes] at this
  exact ⟨b, dottedText bs, by rw [Quad.text, hbytes, dottedText_cons b hne]⟩

variable {block : Option Nat} {inet : CassInet} {w t y : Bytes}

theorem Reads.head {c : UInt8} {z : Bytes} (h : Reads block w (c :: z) inet) :
    isxdigit c = true := by
  have hgroup : ∀ {t y : Bytes}, IsGroup t → t ++ y = c :: z → isxdigit c = true := by
    intro t y ht heq
    obtain ⟨c', cs, rfl⟩ := List.exists_cons_of_ne_nil ht.nonempty
    cases heq
    exact ht.digits _ (by simp)
  generalize htext : c :: z = text at h
  cases h with
  | stop _ =>
    cases htext
  | last ht _ =>
    exact hgroup ht (by rw [List.append_nil, htext])
  | quad q _ | ipv4 q =>
    obtain ⟨b, y, hq⟩ := q.exists_text
    exact hgroup (isGroup_decimalText b) (by rw [← hq, htext])
  | group ht _ =>
    exact hgroup ht htext.symm
  | block ht _ =>
    exact hgroup ht htext.symm

theorem reads_append_iff (ht : IsGroup t) (hfield : fieldText (t ++ y) = t) :
    Reads block w (t ++ y) inet ↔
      (y = [] ∧ Completes block (w ++ groupBytes t) inet) ∨
      (∃ z, y = chr ':' :: z ∧
        (Reads block (w ++ groupBytes t) z inet ∨
          ∃ z', z = chr ':' :: z' ∧ block = none ∧
            Reads (some (w.length + 2)) (w ++ groupBytes t) z' inet)) ∨
      ∃ q : Quad, t ++ y = q.text ∧
        (Completes block (w ++ q.bytes) inet ∨ (block = none ∧ w = [] ∧ inet = ⟨4, q.bytes⟩)) := by
  constructor
  · intro h
    generalize htext : t ++ y = text at h
    cases h with
    | stop _ =>
      exact absurd (List.append_eq_nil_iff.mp htext).1 ht.nonempty
    | last ht' hc =>
      rw [← List.append_nil text] at htext
      obtain ⟨rfl, rfl⟩ := field_unique hfield ht' noField_nil htext
      exact .inl ⟨rfl, hc⟩
    | quad q hc =>
      exact .inr (.inr ⟨q, rfl, .inl hc⟩)
    | ipv4 q =>
      exact .inr (.inr ⟨q, rfl, .inr ⟨rfl, rfl, rfl⟩⟩)
    | group ht' hreads =>
      obtain ⟨rfl, rfl⟩ := field_unique hfield ht' ((noField_cons _ _).mpr isxdigit_marks.1) htext
      exact .inr (.inl ⟨_, rfl, .inl hreads⟩)
    | block ht' hreads =>
      obtain ⟨rfl, rfl⟩ := field_unique hfield ht' ((noField_cons _ _).mpr isxdigit_marks.1) htext
      exact .inr (.inl ⟨_, rfl, .inr ⟨_, rfl, rfl, hreads⟩⟩)
  · rintro (⟨rfl, hc⟩ | ⟨z, rfl, hreads | ⟨z', rfl, rfl, hreads⟩⟩ | ⟨q, hq, hc | ⟨rfl, rfl, rfl⟩⟩)
    · rw [List.append_nil]
      exact .last ht hc
    · exact .group ht hreads
    · exact .block ht hreads
    · rw [hq]
      exact .quad q hc
    · rw [hq]
      exact .ipv4 q

/-- After a group only a dot can belong to a dotted quad. -/
theorem quad_text_eq {q : Quad} (hfield : fieldText (t ++ y) = t) (h : t ++ y = q.text) :
    (∀ c ∈ t, isdigit c = true) ∧ ∃ z, y = chr '.' :: z := by
  obtain ⟨b, z, hq⟩ := q.exists_text
  obtain ⟨rfl, rfl⟩ := field_unique hfield (isGroup_decimalText b)
    ((noField_cons _ _).mpr isxdigit_marks.2.1) (h.trans hq)
  exact ⟨fun c hc => isdigit_of_mem_decimalText hc, z, rfl⟩

theorem reads_nil_iff {inet : CassInet} :
    Reads block w [] inet ↔ block = some w.length ∧ Completes block w inet := by
  constructor
  · intro h
    generalize htext : ([] : Bytes) = text at h
    cases h with
    | stop hc =>
      exact ⟨rfl, hc⟩
    | last ht _ =>
      exact absurd htext.symm ht.nonempty
    | quad q _ | ipv4 q =>
      obtain ⟨b, z, hq⟩ := q.exists_text
      simp [hq] at htext
    | group _ _ =>
      simp at htext
    | block _ _ =>
      simp at htext
  · rintro ⟨rfl, hc⟩
    exact .stop hc

theorem Reads.room (h : Reads block w (t ++ y) inet) (ht : IsGroup t)
    (hfield : fieldText (t ++ y) = t) : w.length + 2 ≤ 16 := by
  have hgroup : (w ++ groupBytes t).length = w.length + 2 := by
    simp
  rcases (reads_append_iff ht hfield).mp h with ⟨-, hc⟩ |
    ⟨z, -, hreads | ⟨z', -, -, hreads⟩⟩ | ⟨q, -, hc | ⟨-, rfl, -⟩⟩
  · have := hc.length_le
    omega
  · have := hreads.length_le
    omega
  · have := hreads.length_le
    omega
  · have := hc.length_le
    simp only [List.length_append, q.four] at this
    omega
  · simp

/-- The variables after a field was read. -/
def Parser.afterField (p : Parser) (t : Bytes) (state : ParserState) : Parser :=
  { ((p.advance t.length).push (UInt8.ofNat (groupValue t / 256))).push
      (UInt8.ofNat (groupValue t)) with
    state := state }

section

variable {input : Bytes} {p : Parser} {block : Option Nat} {w t y rest : Bytes} {inet : CassInet}

/-- The loop stands after a field it has taken for a hex field. -/
structure AfterField (input : Bytes) (p : Parser) (block : Option Nat)
    (w t y : Bytes) : Prop where
  reading : Reading input p false block (w ++ groupBytes t) y
  blockLe : ∀ k ∈ block, k ≤ w.length
  tokenLen : p.tokenLen = t.length
  ptr : (t.length : Int) ≤ p.inPtr
  text : input.drop (p.inPtr - t.length).toNat = t ++ y
  noNul : 0 ∉ t ++ y

theorem Reading.afterField (h : Reading input p false block w (t ++ y)) (hroom : w.length + 2 ≤ 16)
    (state : ParserState) : AfterField input (p.afterField t state) block w t y := by
  have hptr := h.ptr
  have hread := h.advance t.length
  rw [List.drop_left] at hread
  have hfirst := hread.push (by omega) (UInt8.ofNat (groupValue t / 256))
  have hsecond := hfirst.push (by simp only [List.length_append, List.length_singleton]; omega)
    (UInt8.ofNat (groupValue t))
  have hbytes :
      w ++ [UInt8.ofNat (groupValue t / 256)] ++ [UInt8.ofNat (groupValue t)] =
        w ++ groupBytes t := by
    simp [groupBytes]
  rw [hbytes] at hsecond
  have hback : (p.afterField t state).inPtr - t.length = p.inPtr := by
    simp [Parser.afterField, Parser.push, Parser.write, Parser.advance]
  exact
    { reading := hsecond.toState state
      blockLe := h.blockLe
      tokenLen := rfl
      ptr := by omega
      text := by rw [hback, h.text]
      noNul := h.noNul }

/-- A dot after a decimal field: the two bytes are taken back and the same
text is read again as an IPv4 address. -/
theorem AfterField.rollback (h : AfterField input p block w t y) :
    Reading input
      { (p.advance 1).pop.pop with
        inPtr := (p.advance 1).inPtr - ((p.advance 1).prevTokenLen + 1)
        state := .ipv4Byte
        ipv4Pos := 0 }
      false block w (t ++ y) := by
  have hbytes :
      w ++ groupBytes t =
        w ++ [UInt8.ofNat (groupValue t / 256)] ++ [UInt8.ofNat (groupValue t)] := by
    simp [groupBytes]
  have hread := h.reading.advance 1
  rw [hbytes] at hread
  have hblock : ∀ k ∈ block, k ≤ (w ++ [UInt8.ofNat (groupValue t / 256)]).length := by
    intro k hk
    have := h.blockLe k hk
    simp only [List.length_append]
    omega
  have hpopped := (hread.pop hblock).pop h.blockLe
  have hback :
      (p.advance 1).inPtr - ((p.advance 1).prevTokenLen + 1) = p.inPtr - t.length := by
    have hlen := h.tokenLen
    simp only [Parser.advance, hlen]
    rw [if_pos (by omega)]
    omega
  have hptr := h.ptr
  exact
    { hpopped with
      ptr := by simp only [hback]; omega
      text := by simp only [hback]; exact h.text
      noNul := h.noNul
      blockLe := h.blockLe }

theorem atField_state (p : Parser) (state : ParserState) (token : Token) :
    ({ p with state := state } : Parser).atField token = p.atField token := by
  simp only [Parser.atField, Parser.addField, Parser.expecting, Parser.push, Parser.write]
  rfl

/-- The second colon of a `::` fixes the place of the missing zeros. -/
theorem Reading.compress (h : Reading input p false none w rest) :
    Reading input
      { p.advance 1 with
        compressPos := if p.pos = -1 then 0 else p.pos + 1
        state := .field }
      false (some w.length) w (rest.drop 1) := by
  have hread := h.advance 1
  have hplace : (if p.pos = -1 then 0 else p.pos + 1) = (w.length : Int) := by
    have := h.pos
    split_ifs <;> omega
  exact
    { hread with
      place := hplace
      blockLe := by simp }

theorem accepts_afterColon (h : Reading input p false block w rest) (hstate : p.state = .afterColon)
    (ih : ∀ {p' : Parser} {block' : Option Nat} {w' rest' : Bytes},
      rest'.length ≤ rest.length →
      p'.state = .field →
      Reading input p' false block' w' rest' →
      (Accepts input p' inet ↔ Reads block' w' rest' inet)) :
    Accepts input p inet ↔
      Reads block w rest inet ∨
        ∃ z, rest = chr ':' :: z ∧ block = none ∧ Reads (some w.length) w z inet := by
  obtain ⟨token, htoken, hstart⟩ := exists_start h.noNul
  by_cases hcolon : token.type = .colon
  · obtain ⟨z, rfl, htext⟩ : ∃ z, rest = chr ':' :: z ∧ token.text = [chr ':'] := by
      cases hstart with
      | colon z =>
        exact ⟨z, rfl, rfl⟩
      | _ =>
        cases hcolon
    have hnot : ¬Reads block w (chr ':' :: z) inet := by
      intro hreads
      have := hreads.head
      rw [isxdigit_marks.1] at this
      cases this
    have hstep := h.step_eq htoken (by simp [hcolon])
    simp only [Parser.onToken, advance_state, hstate, hcolon, if_true, htext,
      Parser.atCompressed, List.length_singleton] at hstep
    cases block with
    | none =>
      have hplace : (p.advance 1).compressPos = -1 := h.place
      rw [if_neg (by simpa using hplace)] at hstep
      refine (accepts_next hstep).trans ((ih (by simp) rfl h.compress).trans ?_)
      simp [hnot]
    | some k =>
      have hplace : (p.advance 1).compressPos ≠ -1 := by
        have : (p.advance 1).compressPos = k := h.place
        omega
      rw [if_pos hplace] at hstep
      simp [not_accepts_refused hstep, hnot]
  · have hrest : ∀ z, rest ≠ chr ':' :: z := by
      rintro z rfl
      rw [tokenize_mark isxdigit_marks.1] at htoken
      exact hcolon (by rw [← htoken]; decide)
    -- any other token is handled as where a field is expected
    have hsame : step input p = step input { p with state := .field } := by
      by_cases hillegal : token.type = .illegal
      · have hread : p.token input = token := by
          rw [Parser.token, h.text, htoken]
        have hread' : ({ p with state := .field } : Parser).token input = token := hread
        simp [step, hread, hread', hillegal, Parser.advance]
      · rw [h.step_eq htoken hillegal, (h.toState .field).step_eq htoken hillegal]
        simp only [Parser.onToken, advance_state, hstate, hcolon, if_false]
        exact (atField_state _ .field token).symm
    rw [accepts_congr hsame, ih le_rfl rfl (h.toState .field)]
    simp [hrest]

theorem finishesIpv4_quad (q : Quad) :
    FinishesIpv4 block (w ++ q.bytes) inet ↔
      Completes block (w ++ q.bytes) inet ∨ (block = none ∧ w = [] ∧ inet = ⟨4, q.bytes⟩) := by
  have hlength : (w ++ q.bytes).length = 4 ↔ w = [] := by
    rw [List.length_append, q.four, ← List.length_eq_zero_iff]
    omega
  rw [FinishesIpv4, hlength]
  refine or_congr Iff.rfl (and_congr_right fun _ => and_congr_right ?_)
  rintro rfl
  simp

theorem not_reads_of_head {c : UInt8} {z : Bytes} (ht : IsGroup t)
    (hfield : fieldText (t ++ c :: z) = t) (hcolon : c ≠ chr ':') (hdot : c ≠ chr '.') :
    ¬Reads block w (t ++ c :: z) inet := by
  rw [reads_append_iff ht hfield]
  rintro (⟨h, -⟩ | ⟨z', h, -⟩ | ⟨q, h, -⟩)
  · cases h
  · exact hcolon (List.cons.inj h).1
  · obtain ⟨-, z', h'⟩ := quad_text_eq hfield h
    exact hdot (List.cons.inj h').1

theorem IsGroup.exists_cons (ht : IsGroup t) : ∃ c cs, t = c :: cs ∧ c ≠ chr ':' ∧ c ≠ chr '.' := by
  obtain ⟨c, cs, rfl⟩ := List.exists_cons_of_ne_nil ht.nonempty
  have hc := ht.digits c (by simp)
  refine ⟨c, cs, rfl, ?_, ?_⟩
  · rintro rfl
    rw [isxdigit_marks.1] at hc
    cases hc
  · rintro rfl
    rw [isxdigit_marks.2.1] at hc
    cases hc

theorem accepts_afterField (h : AfterField input p block w t y) (ht : IsGroup t)
    (hfield : fieldText (t ++ y) = t)
    (hstate : (p.state = .afterDec ∧ ∀ c ∈ t, isdigit c = true) ∨
      (p.state = .afterHex ∧ ∃ c ∈ t, isdigit c = false))
    (ih : ∀ {p' : Parser} {block' : Option Nat} {w' rest' : Bytes},
      rest'.length < y.length →
      p'.state = .field →
      Reading input p' false block' w' rest' →
      (Accepts input p' inet ↔ Reads block' w' rest' inet)) :
    Accepts input p inet ↔ Reads block w (t ++ y) inet := by
  obtain ⟨token, htoken, hstart⟩ := exists_start h.reading.noNul
  have hnoQuad : (∀ z, y ≠ chr '.' :: z) → ∀ q : Quad, t ++ y ≠ q.text := by
    intro hy q hq
    obtain ⟨-, z, rfl⟩ := quad_text_eq hfield hq
    exact hy z rfl
  -- two fields in a row, when the first has its four digits
  have hfieldAgain : token.type = .dec ∨ token.type = .hex → ¬Accepts input p inet := by
    intro htype
    refine h.reading.not_accepts htoken fun _ => ?_
    rcases hstate with ⟨hstate, -⟩ | ⟨hstate, -⟩ <;>
      rcases htype with htype | htype <;>
      simp only [Parser.onToken, advance_state, hstate, Parser.atAfterDec,
        Parser.atAfterHex, htype] <;>
      exact refuses_expecting _ _ _
  cases hstart with
  | ended =>
    have hround : step input p = Outcome.done (p.advance 1) := by
      rw [h.reading.step_eq htoken (by simp)]
      rcases hstate with ⟨hstate, -⟩ | ⟨hstate, -⟩ <;>
        simp [Parser.onToken, hstate, Parser.atAfterDec, Parser.atAfterHex]
    rw [accepts_done hround, conclude_iff (h.reading.advance 1) (by simp),
      reads_append_iff ht hfield]
    have := hnoQuad (by simp)
    simp only [List.append_nil] at this
    simp [Concludes, this]
  | colon z =>
    have hround : step input p = .next { p.advance 1 with state := .afterColon } := by
      rw [h.reading.step_eq htoken (by simp)]
      rcases hstate with ⟨hstate, -⟩ | ⟨hstate, -⟩ <;>
        simp [Parser.onToken, hstate, Parser.atAfterDec, Parser.atAfterHex]
    have hcolon := (h.reading.advance 1).toState .afterColon
    rw [accepts_next hround, accepts_afterColon hcolon rfl (fun hlt => ih (by simpa using hlt)),
      reads_append_iff ht hfield]
    have := hnoQuad (by simp [chr])
    simp [this]
  | dot z =>
    rw [reads_append_iff ht hfield]
    rcases hstate with ⟨hstate, -⟩ | ⟨hstate, c, hc, hhex⟩
    · have hstep := h.reading.step_eq htoken (by simp)
      have hpos : ¬(p.advance 1).pos < 1 := by
        have := h.reading.pos
        simp only [List.length_append, groupBytes_length] at this
        simp only [Parser.advance]
        omega
      simp only [Parser.onToken, advance_state, hstate, Parser.atAfterDec,
        List.length_singleton, if_neg hpos] at hstep
      refine (accepts_next hstep).trans ((accepts_ipv4Byte 3 h.rollback rfl rfl).trans ?_)
      constructor
      · rintro ⟨bs, hlength, htext, hfinish⟩
        exact .inr (.inr ⟨⟨bs, hlength⟩, htext, (finishesIpv4_quad ⟨bs, hlength⟩).mp hfinish⟩)
      · rintro (⟨h, -⟩ | ⟨z', h, -⟩ | ⟨q, htext, hfinish⟩)
        · cases h
        · exact absurd (List.cons.inj h).1 (by decide)
        · exact ⟨q.bytes, q.four, htext, (finishesIpv4_quad q).mpr hfinish⟩
    · refine iff_of_false (h.reading.not_accepts htoken fun _ => ?_) ?_
      · simp only [Parser.onToken, advance_state, hstate, Parser.atAfterHex]
        exact refuses_expecting _ _ _
      · rintro (⟨h, -⟩ | ⟨z', h, -⟩ | ⟨q, htext, -⟩)
        · cases h
        · exact absurd (List.cons.inj h).1 (by decide)
        · have := (quad_text_eq hfield htext).1 c hc
          rw [hhex] at this
          cases this
  | illegal c z hx hcolon hdot =>
    refine iff_of_false (h.reading.not_accepts htoken fun hlegal => ?_)
      (not_reads_of_head ht hfield hcolon hdot)
    exact absurd rfl hlegal
  | dec t' z ht' hfield' hdigits =>
    obtain ⟨c, cs, rfl, hcolon, hdot⟩ := ht'.exists_cons
    exact iff_of_false (hfieldAgain (.inl rfl)) (not_reads_of_head ht hfield hcolon hdot)
  | hex t' z ht' hfield' hhex =>
    obtain ⟨c, cs, rfl, hcolon, hdot⟩ := ht'.exists_cons
    exact iff_of_false (hfieldAgain (.inr rfl)) (not_reads_of_head ht hfield hcolon hdot)

/-- The token of a field, and the state the parser goes to after it. -/
def FieldToken (t : Bytes) (token : Token) (state : ParserState) : Prop :=
  (token = ⟨.dec, t⟩ ∧ state = .afterDec ∧ ∀ c ∈ t, isdigit c = true) ∨
    (token = ⟨.hex, t.map tolower⟩ ∧ state = .afterHex ∧ ∃ c ∈ t, isdigit c = false)

variable {state : ParserState} {token : Token}

theorem FieldToken.atField_eq (h : FieldToken t token state) :
    token.type ≠ .illegal ∧ p.atField token = p.addField token state := by
  rcases h with ⟨rfl, rfl, -⟩ | ⟨rfl, rfl, -⟩ <;> simp [Parser.atField]

theorem FieldToken.length_eq (h : FieldToken t token state) : token.text.length = t.length := by
  rcases h with ⟨rfl, -, -⟩ | ⟨rfl, -, -⟩ <;> simp

theorem FieldToken.value_eq (h : FieldToken t token state) (ht : IsGroup t) :
    strtoulHex token.text = groupValue t := by
  rcases h with ⟨rfl, -, -⟩ | ⟨rfl, -, -⟩
  · rw [strtoulHex, List.takeWhile_eq_self_iff.mpr ht.digits, groupValue]
  · exact strtoulHex_map_tolower ht

theorem accepts_number (h : Reading input p false block w (t ++ y)) (hstate : p.state = .field)
    (htoken : ipAddressTokenize (t ++ y) = token) (ht : IsGroup t) (hfield : fieldText (t ++ y) = t)
    (hkind : FieldToken t token state)
    (ih : ∀ {p' : Parser} {block' : Option Nat} {w' rest' : Bytes},
      rest'.length < y.length →
      p'.state = .field →
      Reading input p' false block' w' rest' →
      (Accepts input p' inet ↔ Reads block' w' rest' inet)) :
    Accepts input p inet ↔ Reads block w (t ++ y) inet := by
  have hpos := h.pos
  have hstep := h.step_eq htoken (hkind.atField_eq (p := p)).1
  rw [hkind.length_eq, Parser.onToken] at hstep
  simp only [advance_state, hstate] at hstep
  rw [hkind.atField_eq.2, Parser.addField] at hstep
  by_cases hroom : w.length + 2 ≤ 16
  · have hlow : ¬(p.advance t.length).pos + 3 > (v6Length : Int) := by
      simp only [Parser.advance, v6Length]
      omega
    have hround : step input p = .next (p.afterField t state) := by
      rw [hstep, if_neg hlow, hkind.value_eq ht]
      rfl
    rw [accepts_next hround]
    refine accepts_afterField (h.afterField hroom state) ht hfield ?_ ih
    rcases hkind with ⟨-, rfl, hdigits⟩ | ⟨-, rfl, hhex⟩
    · exact .inl ⟨rfl, hdigits⟩
    · exact .inr ⟨rfl, hhex⟩
  · have hhigh : (p.advance t.length).pos + 3 > (v6Length : Int) := by
      simp only [Parser.advance, v6Length]
      omega
    rw [if_pos hhigh] at hstep
    refine iff_of_false ?_ (fun hreads => hroom (hreads.room ht hfield))
    rw [accepts_done hstep]
    refine conclude_overflow h.domain ?_
    simp only [Parser.advance]
    omega

theorem accepts_field_nil (h : Reading input p false block w []) (hstate : p.state = .field) :
    Accepts input p inet ↔ Reads block w [] inet := by
  have hstep := h.step_eq tokenize_nil (by simp)
  simp only [Parser.onToken, advance_state, hstate, Parser.atField,
    List.length_singleton, true_and] at hstep
  have hplace :
      (p.advance 1).pos + 1 = (p.advance 1).compressPos ↔ block = some w.length := by
    have hpos : (p.advance 1).pos + 1 = w.length := h.pos_add_one
    have hblock : (p.advance 1).compressPos = blockPos block := h.place
    rw [hpos, hblock]
    cases block with
    | none =>
      simp only [blockPos, reduceCtorEq]
    | some k =>
      simp only [blockPos, Option.some.injEq]
      omega
  rw [reads_nil_iff]
  by_cases hblock : block = some w.length
  · rw [if_pos (hplace.mpr hblock)] at hstep
    rw [accepts_done hstep, conclude_iff ((h.advance 1).toState .field) (by simp)]
    simp [Concludes, hblock]
  · rw [if_neg (fun h => hblock (hplace.mp h))] at hstep
    simp [not_accepts_refused hstep, hblock]

/-- From an expected field on, the parser accepts what may follow there. -/
theorem accepts_field (h : Reading input p false block w rest) (hstate : p.state = .field) :
    Accepts input p inet ↔ Reads block w rest inet := by
  induction hn : rest.length using Nat.strong_induction_on generalizing p block w rest with
  | _ n ih =>
    subst hn
    obtain ⟨token, htoken, hstart⟩ := exists_start h.noNul
    have hmark : ∀ {c : UInt8} {z : Bytes}, isxdigit c = false → ¬Reads block w (c :: z) inet := by
      intro c z hc hreads
      rw [hreads.head] at hc
      cases hc
    cases hstart with
    | ended =>
      exact accepts_field_nil h hstate
    | colon z =>
      refine iff_of_false (h.not_accepts htoken fun _ => ?_) (hmark isxdigit_marks.1)
      simp only [Parser.onToken, advance_state, hstate, Parser.atField,
        reduceCtorEq, false_and, if_false]
      exact refuses_expecting _ _ _
    | dot z =>
      refine iff_of_false (h.not_accepts htoken fun _ => ?_) (hmark isxdigit_marks.2.1)
      simp only [Parser.onToken, advance_state, hstate, Parser.atField,
        reduceCtorEq, false_and, if_false]
      exact refuses_expecting _ _ _
    | illegal c z hx hcolon hdot =>
      exact iff_of_false (h.not_accepts htoken fun hlegal => absurd rfl hlegal) (hmark hx)
    | dec t y ht hfield hdigits =>
      refine accepts_number h hstate htoken ht hfield (.inl ⟨rfl, rfl, hdigits⟩) ?_
      intro p' block' w' rest' hlt hstate' h'
      exact ih _ (by simp only [List.length_append]; omega) h' hstate' rfl
    | hex t y ht hfield hhex =>
      refine accepts_number h hstate htoken ht hfield (.inr ⟨rfl, rfl, hhex⟩) ?_
      intro p' block' w' rest' hlt hstate' h'
      exact ih _ (by simp only [List.length_append]; omega) h' hstate' rfl

end

end Inet
end ScyllaDriver
