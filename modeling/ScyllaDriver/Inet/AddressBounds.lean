import ScyllaDriver.Inet.AddressTokens

/-!
# The parser's positions stay in bounds

The read pointer goes back by the length of a remembered token, and the write
position is taken back with it or moved past the end when the address is full.
`Goes` says what one round may do to these variables; from it follow the bounds
of all positions, the end of the loop, and that the loop moving the bytes after
a `::` never leaves the address.
-/

namespace ScyllaDriver
namespace Inet

open CString

/-- The states of an IPv4 address, which the parser never leaves. -/
def ParserState.isQuad : ParserState → Bool
  | .ipv4Byte | .ipv4Dot | .ended => true
  | _ => false

/-- The positions in the address, up to a last one, and all writes inside it. -/
structure Within (last : Int) (p : Parser) : Prop where
  pos : -1 ≤ p.pos ∧ p.pos ≤ last
  block : -1 ≤ p.compressPos ∧ p.compressPos ≤ p.pos + 1
  writes : p.inBounds = true

/-- The round goes on reading behind the token. -/
structure ReadsOn (p q : Parser) : Prop where
  ptr : q.inPtr = p.inPtr
  length : q.tokenLen = p.tokenLen
  quad : q.state.isQuad = p.state.isQuad
  field : q.state = .afterDec → q.compressPos ≤ q.pos - 1

/-- The round goes back to the decimal field that was read before the dot. -/
structure GoesBack (p q : Parser) : Prop where
  dot : p.state = .afterDec
  byte : q.state = .ipv4Byte
  ptr : q.inPtr = p.inPtr - (p.prevTokenLen + 1)

/-- What a round may make of the variables it has after reading the token. -/
def Goes (p : Parser) (token : Token) : Outcome → Prop
  | .next q =>
    token.type ≠ .endOfAddress ∧ Within 15 q ∧
      (ReadsOn p q ∨ GoesBack p q ∧ token.type = .dot)
  | .stop (.ok q) => Within 17 q ∧ q.inPtr = p.inPtr
  | .stop (.error r) => ∀ srcPos dstPos, r ≠ .indexOutOfBounds srcPos dstPos

section

variable {p : Parser} {token : Token}

theorem Within.push (h : Within 15 p) (hroom : p.pos ≤ 14) (x : UInt8) : Within 15 (p.push x) := by
  obtain ⟨hpos, hblock, hwrites⟩ := h
  constructor <;> grind [Parser.push, Parser.write, v6Length]

theorem Within.pop (h : Within 15 p) (hlow : 0 ≤ p.pos) (hblock : p.compressPos ≤ p.pos) :
    Within 15 p.pop := by
  obtain ⟨hpos, hlast, hwrites⟩ := h
  constructor <;> grind [Parser.pop, Parser.write, v6Length]

theorem goes_full (h : Within 15 p) {n : Int} (hlow : 0 ≤ n) (hhigh : n ≤ 2)
    (state : ParserState) : Goes p token (.done { p with state := state, pos := p.pos + n }) := by
  obtain ⟨hpos, hblock, hwrites⟩ := h
  exact ⟨⟨by simp only; omega, by simp only; omega, hwrites⟩, rfl⟩

theorem goes_done (h : Within 15 p) (state : ParserState) :
    Goes p token (.done { p with state := state }) := by
  simpa using goes_full h le_rfl (by decide) state

theorem goes_toState (h : Within 15 p) {state : ParserState} (hend : token.type ≠ .endOfAddress)
    (hquad : state.isQuad = p.state.isQuad) (hstate : state ≠ .afterDec) :
    Goes p token (.next { p with state := state }) :=
  ⟨hend, ⟨h.pos, h.block, h.writes⟩, .inl ⟨rfl, rfl, hquad, fun hdec => absurd hdec hstate⟩⟩

theorem addField_goes (h : Within 15 p) {state : ParserState} (hstate : state.isQuad = false)
    (hquad : p.state.isQuad = false) (hend : token.type ≠ .endOfAddress) :
    Goes p token (p.addField token state) := by
  unfold Parser.addField
  split_ifs with hfull
  · exact goes_full h (by decide) le_rfl state
  · simp only [v6Length] at hfull
    have hfirst := h.push (by omega) (UInt8.ofNat (strtoulHex token.text / 256))
    have hsecond := hfirst.push (by simp only [Parser.push]; omega)
      (UInt8.ofNat (strtoulHex token.text))
    refine ⟨hend, { hsecond with }, .inl ⟨rfl, rfl, hstate.trans hquad.symm, fun _ => ?_⟩⟩
    have := h.block
    simp only [Parser.push, Parser.write]
    omega

theorem atField_goes (h : Within 15 p) (hquad : p.state.isQuad = false) :
    Goes p token (p.atField token) := by
  unfold Parser.atField
  split_ifs with hend
  · exact goes_done h .field
  · split
    · next htype => exact addField_goes h rfl hquad (by simp [htype])
    · next htype => exact addField_goes h rfl hquad (by simp [htype])
    · exact nofun

theorem atCompressed_goes (h : Within 15 p) (hquad : p.state.isQuad = false) :
    Goes p token (p.atCompressed token) := by
  unfold Parser.atCompressed
  split
  · next hcolon =>
      split
      · exact nofun
      · refine ⟨by simp [hcolon], ⟨h.pos, ?_, h.writes⟩, .inl ⟨rfl, rfl, hquad.symm, by simp⟩⟩
        have := h.pos
        dsimp only
        split_ifs <;> omega
  · exact nofun

theorem atAfterDec_goes (h : Within 15 p) (hstate : p.state = .afterDec)
    (hfield : p.compressPos ≤ p.pos - 1) : Goes p token (p.atAfterDec token) := by
  unfold Parser.atAfterDec
  split
  · exact goes_done h p.state
  · next htype => exact goes_toState h (by simp [htype]) (by rw [hstate]; rfl) (by simp)
  · next htype =>
      split_ifs with hlow
      · exact nofun
      · have hfirst := h.pop (by omega) (by omega)
        have hsecond := hfirst.pop (by simp only [Parser.pop]; omega)
          (by simp only [Parser.pop, Parser.write]; omega)
        exact ⟨by simp [htype], { hsecond with }, .inr ⟨⟨hstate, rfl, rfl⟩, htype⟩⟩
  · exact nofun

theorem atIpv4Byte_goes (h : Within 15 p) (hquad : p.state.isQuad = true) :
    Goes p token (p.atIpv4Byte token) := by
  unfold Parser.atIpv4Byte
  split
  · next hdec =>
      split
      · exact nofun
      · dsimp only
        split
        · exact nofun
        · unfold Parser.addByte
          split
          · exact goes_full h (by decide) (by decide) p.state
          · next hfull =>
              simp only [v6Length] at hfull
              have hpush := h.push (by omega) (UInt8.ofNat (strtol10 token.text).value.toNat)
              dsimp only
              split <;> exact ⟨by simp [hdec], { hpush with }, .inl ⟨rfl, rfl, hquad.symm, by simp⟩⟩
  · exact nofun

theorem onToken_goes (h : Within 15 p) (hfield : p.state = .afterDec → p.compressPos ≤ p.pos - 1) :
    Goes p token (p.onToken token) := by
  unfold Parser.onToken
  split
  · next hstate =>
      split_ifs with hcolon hnumber
      · exact goes_toState h (by simp [hcolon]) (by rw [hstate]; rfl) (by simp)
      · exact nofun
      · exact atField_goes h (by rw [hstate]; rfl)
  · next hstate =>
      split_ifs
      · exact atCompressed_goes h (by rw [hstate]; rfl)
      · exact atField_goes h (by rw [hstate]; rfl)
  · next hstate => exact atCompressed_goes h (by rw [hstate]; rfl)
  · next hstate => exact atField_goes h (by rw [hstate]; rfl)
  · next hstate =>
      unfold Parser.atAfterHex
      split
      · exact goes_done h p.state
      · next htype => exact goes_toState h (by simp [htype]) (by rw [hstate]; rfl) (by simp)
      · exact nofun
  · next hstate => exact atAfterDec_goes h hstate (hfield hstate)
  · next hstate => exact atIpv4Byte_goes h (by rw [hstate]; rfl)
  · next hstate =>
      unfold Parser.atIpv4Dot
      split_ifs with hdot
      · exact goes_toState h (by simp [hdot]) (by rw [hstate]; rfl) (by simp)
      · exact nofun
  · unfold Parser.atEnd
    split_ifs
    · exact goes_done h p.state
    · exact nofun

end

/-- The bounds at the start of a round. The field just read can be taken back,
in the text and in the address. -/
structure Bounded (input : Bytes) (p : Parser) : Prop extends Within 15 p where
  ptr : 0 ≤ p.inPtr ∧ p.inPtr ≤ input.length
  token : p.state = .afterDec → 0 ≤ p.tokenLen ∧ p.tokenLen ≤ p.inPtr
  field : p.state = .afterDec → p.compressPos ≤ p.pos - 1

theorem bounded_start (input : Bytes) : Bounded input {} where
  pos := by decide
  block := by decide
  writes := rfl
  ptr := by simp
  token := by simp
  field := by simp

theorem token_length_pos (text : Bytes) : 1 ≤ (ipAddressTokenize text).text.length := by
  cases text with
  | nil => simp
  | cons c rest =>
    cases hx : isxdigit c with
    | true =>
      have hgroup : IsGroup (fieldText (c :: rest)) := fieldText_isGroup hx
      rw [tokenize_field hgroup rfl, List.length_map]
      exact List.length_pos_iff.mpr hgroup.nonempty
    | false =>
      rw [tokenize_mark hx]
      simp

theorem token_length_le {text : Bytes} (h : (ipAddressTokenize text).type ≠ .endOfAddress) :
    (ipAddressTokenize text).text.length ≤ text.length := by
  cases text with
  | nil => simp at h
  | cons c rest =>
    cases hx : isxdigit c with
    | true =>
      have hle := congrArg List.length (fieldText_append_drop (c :: rest))
      rw [tokenize_field (fieldText_isGroup hx) rfl, List.length_map]
      rw [List.length_append] at hle
      omega
    | false => simp [tokenize_mark hx]

section

variable {input : Bytes} {p q : Parser}

/-- The terminator is inside the string's bytes, and so is every other token. -/
theorem Bounded.token_end (h : Bounded input p) :
    p.inPtr + (p.token input).text.length ≤
      input.length + if (p.token input).type = .endOfAddress then 1 else 0 := by
  obtain ⟨hlow, hhigh⟩ := h.ptr
  split_ifs with hend
  · have hone : (p.token input).text.length = 1 := by
      unfold Parser.token ipAddressTokenize at hend ⊢
      dsimp only at hend ⊢
      split at hend
      · dsimp only at hend
        split_ifs at hend
      · next hmark => simp [hmark]
    rw [hone]
    omega
  · have hle := token_length_le hend
    rw [List.length_drop] at hle
    rw [Parser.token] at *
    omega

theorem Bounded.stop_ptr (h : Bounded input p)
    (hptr : q.inPtr = (p.advance (p.token input).text.length).inPtr) :
    0 ≤ q.inPtr ∧ q.inPtr ≤ input.length + 1 := by
  have hlow := h.ptr
  have htoken := h.token_end
  simp only [Parser.advance] at hptr
  split_ifs at htoken <;> omega

theorem Bounded.goes (h : Bounded input p) :
    Goes (p.advance (p.token input).text.length) (p.token input) (step input p) := by
  unfold step
  dsimp only
  split
  · exact nofun
  · exact onToken_goes { h with } h.field

/-- Every round reads on, and the parser goes back once at most. -/
def roundsLeft (input : Bytes) (p : Parser) : Nat :=
  (if p.state.isQuad then 0 else input.length + 2) + (input.length + 1 - p.inPtr.toNat)

theorem Bounded.next (h : Bounded input p) (hstep : step input p = .next q) :
    Bounded input q ∧ roundsLeft input q < roundsLeft input p := by
  have hgoes := h.goes
  rw [hstep] at hgoes
  obtain ⟨hend, hwithin, hon | ⟨hback, -⟩⟩ := hgoes
  all_goals
    have hptr := h.ptr
    have hlength : 1 ≤ (p.token input).text.length := token_length_pos _
    have htoken := h.token_end
    rw [if_neg hend] at htoken
    generalize (p.token input).text.length = n at *
  · obtain ⟨hptr', hlen', hquad, hfield⟩ := hon
    simp only [Parser.advance] at hptr' hlen' hquad
    refine ⟨⟨hwithin, by omega, fun _ => by omega, hfield⟩, ?_⟩
    rw [roundsLeft, roundsLeft, hquad]
    omega
  · obtain ⟨hstate, hstate', hptr'⟩ := hback
    have hstate : p.state = .afterDec := hstate
    obtain ⟨hlow, hhigh⟩ := h.token hstate
    simp only [Parser.advance, if_pos (show p.tokenLen > -1 by omega)] at hptr'
    refine ⟨⟨hwithin, by omega, by simp [hstate'], by simp [hstate']⟩, ?_⟩
    rw [roundsLeft, roundsLeft, hstate, hstate']
    simp only [ParserState.isQuad, if_true, Bool.false_eq_true, if_false]
    omega

end

theorem roundsLeft_start (input : Bytes) : roundsLeft input {} < roundsFor input.length := by
  simp only [roundsLeft, ParserState.isQuad, Bool.false_eq_true, if_false,
    roundsFor, Int.toNat_zero]
  omega

/-- The branch of `STATE_AFTERDEC` that takes the last field back. -/
def rollsBack (input : Bytes) (p : Parser) : Bool :=
  decide (p.state = .afterDec ∧ (p.token input).type = .dot ∧ ¬ p.pos < 1)

section

variable {input : Bytes} {p q : Parser}

theorem rollsBack_state (h : rollsBack input p = true) : p.state.isQuad = false := by
  rw [(of_decide_eq_true h).1]
  rfl

/-- Going back ends in an IPv4 address, and an IPv4 address does not end. -/
theorem rollsBack_next (h : Bounded input p) (hstep : step input p = .next q)
    (hback : rollsBack input p = true ∨ p.state.isQuad = true) : q.state.isQuad = true := by
  have hgoes := h.goes
  rw [hstep] at hgoes
  obtain ⟨-, -, hon | ⟨hquad, -⟩⟩ := hgoes
  · rcases hback with hback | hback
    · obtain ⟨hstate, hdot, hpos⟩ := of_decide_eq_true hback
      unfold step at hstep
      simp [hdot, Parser.onToken, Parser.advance, hstate, Parser.atAfterDec, hpos] at hstep
      subst hstep
      rfl
    · exact hon.quad.trans hback
  · rw [hquad.byte]
    rfl

theorem exists_inflate {start moveLen : Int} (hstart : 0 ≤ start) (hroom : start + moveLen ≤ 16)
    {left i : Nat} (hleft : (left + i : Int) ≤ moveLen) (address : Bytes) :
    ∃ moved, inflate start moveLen left i address = .ok moved := by
  induction left generalizing i address with
  | zero => exact ⟨address, rfl⟩
  | succ left ih =>
    rw [inflate, if_pos (by simp only [v6Length]; omega)]
    exact ih (by omega) _

theorem Within.conclude_ne (h : Within 17 p) (srcPos dstPos : Int) :
    conclude p ≠ .error (.indexOutOfBounds srcPos dstPos) := by
  obtain ⟨hpos, hblock, -⟩ := h
  unfold conclude
  split_ifs with hcompressed hfull hmove
  · simp
  · obtain ⟨moved, hmoved⟩ : ∃ moved, inflate p.compressPos (p.pos + 1 - p.compressPos)
        (p.pos + 1 - p.compressPos).toNat 0 p.address = .ok moved :=
      exists_inflate (by omega) (by simp only [v6Length] at hfull; omega) (by omega) p.address
    simp [hmoved, Except.map]
  all_goals simp

end

/--
On every text the parser stays in bounds and ends.

A round starts with a write position from -1 to 15 and with the read pointer on
a byte of the text or on its terminator; the token it reads ends inside the
text, or is the terminator, after which the loop ends. The loop leaves with a
write position of at most 17 and a read pointer at most one past the
terminator. Every write was inside the sixteen bytes, at most one round took a
field back, and the moving loop never meets an index out of bounds.
-/
theorem parseIpAddress_in_bounds
    (input : Bytes) :
    (∃ result, Loop.run (step input) (roundsFor input.length) {} = some result ∧
      ∀ p, result = .ok p →
        -1 ≤ p.pos ∧ p.pos ≤ 17 ∧ p.inBounds = true ∧ 0 ≤ p.inPtr ∧ p.inPtr ≤ input.length + 1) ∧
      (∀ p ∈ Loop.visited (step input) (roundsFor input.length) {},
        -1 ≤ p.pos ∧ p.pos ≤ 15 ∧ p.inBounds = true ∧ 0 ≤ p.inPtr ∧ p.inPtr ≤ input.length ∧
          ((p.token input).type ≠ .endOfAddress →
            p.inPtr + (p.token input).text.length ≤ input.length) ∧
          ((p.token input).type = .endOfAddress → ∀ q, step input p ≠ .next q)) ∧
      (Loop.visited (step input) (roundsFor input.length) {}).countP (rollsBack input) ≤ 1 ∧
      ∀ srcPos dstPos, parseIpAddress input ≠ some (.error (.indexOutOfBounds srcPos dstPos)) := by
  have hstart := bounded_start input
  have hnext : ∀ p q, Bounded input p → step input p = .next q → Bounded input q :=
    fun _ _ h hstep => (h.next hstep).1
  obtain ⟨result, hrun⟩ := Loop.exists_run (roundsLeft input) (fun _ _ => Bounded.next) hstart
    (roundsLeft_start input)
  obtain ⟨p, h, hstop⟩ : ∃ p, Bounded input p ∧ step input p = .stop result :=
    (Loop.ends_of_run hrun).last hnext hstart
  have hgoes := h.goes
  rw [hstop] at hgoes
  refine ⟨⟨result, hrun, fun p hp => ?_⟩, fun p hp => ?_, ?_, fun srcPos dstPos herror => ?_⟩
  · subst hp
    exact ⟨hgoes.1.pos.1, hgoes.1.pos.2, hgoes.1.writes, h.stop_ptr hgoes.2⟩
  · have h := Loop.kept_of_mem_visited hnext hstart hp
    have htoken := h.token_end
    refine ⟨h.pos.1, h.pos.2, h.writes, h.ptr.1, h.ptr.2, fun hend => ?_, fun hend q hstep => ?_⟩
    · rwa [if_neg hend, add_zero] at htoken
    · have hgoes := h.goes
      rw [hstep] at hgoes
      exact hgoes.1 hend
  · exact Loop.countP_visited_le_one (fun p : Parser => p.state.isQuad) hnext
      (fun _ => rollsBack_state) (fun _ _ => rollsBack_next) hstart _
  · unfold parseIpAddress parseWithin at herror
    split_ifs at herror
    · cases herror
    · cases herror
    · rw [hrun] at herror
      cases result with
      | error r => exact hgoes srcPos dstPos (Except.error.inj (Option.some.inj herror))
      | ok p => exact hgoes.1.conclude_ne srcPos dstPos (Option.some.inj herror)

end Inet
end ScyllaDriver
