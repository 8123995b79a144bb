import ScyllaDriver.Inet.AddressTokens

/-!
# Rounds of the parser's loop

The loop's variables are described by `Reading`: the bytes written so far,
the place of the `::` if there was one, and the text that is left. This
module says what advancing, writing and taking back do to that description,
what the part after the loop makes of it, and how one round decides whether
the parser accepts.
-/

namespace ScyllaDriver
namespace Inet

open CString Positional

/-- `compress_pos` for the place of the `::`. -/
def blockPos : Option Nat → Int
  | none => -1
  | some k => k

/-- The loop has written `w`, met a `::` at `block`, and has `rest` to read. -/
structure Reading (input : Bytes) (p : Parser) (v4 : Bool)
    (block : Option Nat) (w rest : Bytes) : Prop where
  ptr : 0 ≤ p.inPtr
  text : input.drop p.inPtr.toNat = rest
  noNul : 0 ∉ rest
  address : p.address = w ++ List.replicate (16 - w.length) 0
  room : w.length ≤ 16
  pos : p.pos = w.length - 1
  place : p.compressPos = blockPos block
  blockLe : ∀ k ∈ block, k ≤ w.length
  domain : p.isIpv4 = v4

section

variable {input : Bytes} {p : Parser} {v4 : Bool} {block : Option Nat} {w rest : Bytes}

theorem Reading.advance (h : Reading input p v4 block w rest) (n : Nat) :
    Reading input (p.advance n) v4 block w (rest.drop n) where
  __ := h
  ptr := by
    have := h.ptr
    simp only [Parser.advance]
    omega
  text := by
    have hptr : (p.inPtr + n).toNat = p.inPtr.toNat + n := by
      have := h.ptr
      omega
    simp only [Parser.advance, hptr, ← List.drop_drop, h.text]
  noNul := fun hmem => h.noNul (List.mem_of_mem_drop hmem)

theorem Reading.toState (h : Reading input p v4 block w rest) (state : ParserState) :
    Reading input { p with state := state } v4 block w rest where
  __ := h

theorem set_length_zeros {w : Bytes} (hroom : w.length < 16) (x : UInt8) :
    (w ++ List.replicate (16 - w.length) 0).set w.length x =
      w ++ [x] ++ List.replicate (16 - (w ++ [x]).length) 0 := by
  have hcount : 16 - w.length = (16 - (w ++ [x]).length) + 1 := by
    simp only [List.length_append, List.length_singleton]
    omega
  rw [hcount, List.replicate_succ, List.set_append_right _ _ le_rfl]
  simp

theorem set_last_zero {w : Bytes} {x : UInt8} (hroom : (w ++ [x]).length ≤ 16) :
    ((w ++ [x]) ++ List.replicate (16 - (w ++ [x]).length) 0).set w.length 0 =
      w ++ List.replicate (16 - w.length) 0 := by
  have hcount : 16 - w.length = (16 - (w ++ [x]).length) + 1 := by
    simp only [List.length_append, List.length_singleton] at hroom ⊢
    omega
  rw [hcount, List.replicate_succ, List.append_assoc, List.set_append_right _ _ le_rfl]
  simp

theorem Reading.push (h : Reading input p v4 block w rest) (hroom : w.length < 16) (x : UInt8) :
    Reading input (p.push x) v4 block (w ++ [x]) rest where
  __ := h
  address := by
    have hindex : (p.pos + 1).toNat = w.length := by
      have := h.pos
      omega
    simp only [Parser.push, Parser.write, hindex, h.address]
    exact set_length_zeros hroom x
  room := by
    simpa using hroom
  pos := by
    have := h.pos
    simp only [Parser.push, Parser.write, List.length_append, List.length_singleton]
    omega
  blockLe := by
    intro k hk
    have := h.blockLe k hk
    simp only [List.length_append, List.length_singleton]
    omega

theorem Reading.pop {x : UInt8} (h : Reading input p v4 block (w ++ [x]) rest)
    (hblock : ∀ k ∈ block, k ≤ w.length) :
    Reading input p.pop v4 block w rest where
  __ := h
  address := by
    have hindex : p.pos.toNat = w.length := by
      have := h.pos
      simp only [List.length_append, List.length_singleton] at this
      omega
    simp only [Parser.pop, Parser.write, hindex, h.address]
    exact set_last_zero h.room
  room := by
    have := h.room
    simp only [List.length_append, List.length_singleton] at this
    omega
  pos := by
    have := h.pos
    simp only [List.length_append, List.length_singleton] at this
    simp only [Parser.pop, Parser.write]
    omega
  blockLe := hblock

end

/-- One move: the last byte of `u` changes places with a run of zeros. -/
theorem move_byte (u v : Bytes) (x : UInt8) (z : Nat) :
    let a := u ++ x :: (List.replicate (z + 1) 0 ++ v)
    (a.set (u.length + (z + 1)) (a.getD u.length 0)).set u.length 0 =
      u ++ List.replicate (z + 1) 0 ++ x :: v := by
  intro a
  have hsrc : a.getD u.length 0 = x := by
    simp [a]
  have hmid : a = (u ++ x :: List.replicate z 0) ++ 0 :: v := by
    simp [a, List.replicate_succ']
  have hlength : u.length + (z + 1) = (u ++ x :: List.replicate z 0).length := by
    simp
  rw [hsrc, hmid, hlength, List.set_append_right _ _ le_rfl]
  simp [List.replicate_succ]

/-- The moving loop puts the bytes after the `::` behind the zeros. -/
theorem inflate_eq {k moveLen i z left : Nat} {u v : Bytes} (hu : u.length = k + left)
    (hv : v.length = i) (hmove : k + moveLen = u.length + i)
    (htotal : u.length + (z + 1) + v.length = 16) :
    inflate k moveLen left i (u ++ List.replicate (z + 1) 0 ++ v) =
      .ok (u.take k ++ List.replicate (z + 1) 0 ++ (u.drop k ++ v)) := by
  induction left generalizing u v i with
  | zero =>
    have htake : u.take k = u := List.take_of_length_le (by omega)
    have hdrop : u.drop k = [] := List.drop_of_length_le (by omega)
    rw [inflate, htake, hdrop, List.nil_append]
  | succ left ih =>
    obtain ⟨u', x, rfl⟩ := List.eq_nil_or_concat u |>.resolve_left (by rintro rfl; simp at hu)
    simp only [List.concat_eq_append] at hu hmove htotal ⊢
    simp only [List.length_append, List.length_singleton] at hu hmove htotal
    have hsrc : ((k : Int) + moveLen - i - 1).toNat = u'.length := by
      omega
    have hdst : ((v6Length : Int) - i - 1).toNat = u'.length + (z + 1) := by
      simp only [v6Length]
      omega
    have hbounds :
        (k : Int) + moveLen - i - 1 ≥ 0 ∧
          (k : Int) + moveLen - i - 1 < v6Length ∧
          (v6Length : Int) - i - 1 ≥ 0 ∧
          (v6Length : Int) - i - 1 < v6Length := by
      simp only [v6Length]
      omega
    have hmoved := move_byte u' v x z
    have hshape :
        u' ++ [x] ++ List.replicate (z + 1) 0 ++ v =
          u' ++ x :: (List.replicate (z + 1) 0 ++ v) := by
      simp
    rw [inflate, if_pos hbounds, hsrc, hdst, hshape, hmoved]
    rw [ih (by omega) (by simp [hv]) (by omega) (by simp only [List.length_cons]; omega)]
    have htake : (u' ++ [x]).take k = u'.take k := List.take_append_of_le_length (by omega)
    have hdrop : (u' ++ [x]).drop k = u'.drop k ++ [x] := List.drop_append_of_le_length (by omega)
    rw [htake, hdrop]
    simp

/-- What the part after the loop makes of the bytes that were written. -/
def Concludes (v4 : Bool) (block : Option Nat) (w : Bytes) (inet : CassInet) : Prop :=
  if v4 then w.length = 4 ∧ inet = ⟨4, w⟩ else Completes block w inet

section

variable {input : Bytes} {p : Parser} {v4 : Bool} {block : Option Nat}
  {w rest : Bytes} {inet : CassInet}

theorem Reading.pos_add_one (h : Reading input p v4 block w rest) : p.pos + 1 = w.length := by
  have := h.pos
  omega

theorem Reading.address_take (h : Reading input p v4 block w rest) :
    p.address.take 16 = w ++ List.replicate (16 - w.length) 0 := by
  have := h.room
  rw [h.address]
  apply List.take_of_length_le
  simp only [List.length_append, List.length_replicate]
  omega

theorem conclude_ipv4 (h : Reading input p true block w rest) (hfour : w.length = 4) :
    conclude p = .ok inet ↔ inet = ⟨4, w⟩ := by
  have htake : p.address.take 4 = w := by
    rw [h.address, List.take_left' hfour]
  simp [conclude, h.domain, cassInetInitV4, v4Length, htake, eq_comm]

theorem conclude_none (h : Reading input p false none w rest) :
    conclude p = .ok inet ↔ Completes none w inet := by
  have hroom := h.room
  simp only [conclude, h.domain, h.place, blockPos, h.pos_add_one, Completes, v6Length]
  by_cases hfull : w.length = 16
  · have haddress : p.address.take 16 = w := by
      simp [h.address_take, hfull]
    simp [hfull, cassInetInitV6, v6Length, haddress, eq_comm]
  · have hshort : (w.length : Int) < 16 := by
      omega
    simp [hfull, hshort]

theorem Reading.inflate_eq {k : Nat} (h : Reading input p v4 (some k) w rest)
    (hshort : w.length < 16) :
    inflate k (w.length - k) ((w.length : Int) - k).toNat 0 p.address =
      .ok (w.take k ++ List.replicate (16 - w.length) 0 ++ w.drop k) := by
  have hk := h.blockLe k rfl
  have hcast : (w.length : Int) - k = (w.length - k : Nat) := by
    omega
  obtain ⟨z, hz⟩ : ∃ z, 16 - w.length = z + 1 := ⟨16 - w.length - 1, by omega⟩
  have hmoved :
      inflate k (w.length - k : Nat) (w.length - k) 0 (w ++ List.replicate (z + 1) 0 ++ []) =
        .ok (w.take k ++ List.replicate (z + 1) 0 ++ (w.drop k ++ [])) :=
    Inet.inflate_eq (by omega) rfl (by omega) (by simp only [List.length_nil]; omega)
  rw [h.address, hz, hcast, Int.toNat_natCast]
  simpa using hmoved

theorem conclude_some {k : Nat} (h : Reading input p false (some k) w rest) :
    conclude p = .ok inet ↔ Completes (some k) w inet := by
  have hk := h.blockLe k rfl
  have hroom := h.room
  have hne : (k : Int) ≠ -1 := by
    omega
  simp only [conclude, h.domain, h.place, blockPos, h.pos_add_one, Completes,
    v6Length, hne, ne_eq, not_false_eq_true, and_self, if_true]
  by_cases hfull : w.length = 16
  · simp [hfull]
  · have hshort : w.length < 16 := by
      omega
    rw [if_neg (by omega)]
    by_cases hend : (w.length : Int) = k
    · have hkeq : k = w.length := by
        omega
      subst hkeq
      simp [hshort, cassInetInitV6, v6Length, h.address_take, eq_comm]
    · have htotal :
          (w.take k ++ List.replicate (16 - w.length) 0 ++ w.drop k).take 16 =
            w.take k ++ List.replicate (16 - w.length) 0 ++ w.drop k := by
        apply List.take_of_length_le
        simp only [List.length_append, List.length_take, List.length_replicate, List.length_drop]
        omega
      rw [if_pos hend, h.inflate_eq hshort]
      simp only [Except.map, cassInetInitV6, v6Length, htotal, Except.ok.injEq, hshort, true_and]
      exact eq_comm

theorem conclude_iff (h : Reading input p v4 block w rest) (hfour : v4 = true → w.length = 4) :
    conclude p = .ok inet ↔ Concludes v4 block w inet := by
  cases v4 with
  | true =>
    rw [conclude_ipv4 h (hfour rfl)]
    simp [Concludes, hfour rfl]
  | false =>
    cases block with
    | none =>
      simpa [Concludes] using conclude_none h
    | some k =>
      simpa [Concludes] using conclude_some h

theorem conclude_overflow (hdomain : p.isIpv4 = false) (hpos : p.pos + 1 > 16) :
    conclude p ≠ .ok inet := by
  by_cases hblock : p.compressPos = -1
  · have hnot : ¬(p.pos + 1 < 16) := by
      omega
    simp [conclude, hdomain, hblock, v6Length, hnot, hpos]
  · have hfull : 16 ≤ p.pos + 1 := by
      omega
    simp [conclude, hdomain, hblock, v6Length, hfull]

end

/-- The parser, going on from these variables, stores this address. -/
def Accepts (input : Bytes) (p : Parser) (inet : CassInet) : Prop :=
  ∃ q, Loop.Ends (step input) p (.ok q) ∧ conclude q = .ok inet

section

variable {input : Bytes} {p q : Parser} {inet : CassInet}

theorem accepts_next (h : step input p = .next q) :
    Accepts input p inet ↔ Accepts input q inet := by
  simp only [Accepts, Loop.ends_next_iff h]

theorem accepts_done (h : step input p = Outcome.done q) :
    Accepts input p inet ↔ conclude q = .ok inet := by
  simp only [Accepts, Loop.ends_stop_iff h, Except.ok.injEq]
  exact ⟨fun ⟨_, hq, hconclude⟩ => hq ▸ hconclude, fun h => ⟨q, rfl, h⟩⟩

theorem not_accepts_refused {r : Refusal} (h : step input p = Outcome.refused r) :
    ¬Accepts input p inet := by
  simp [Accepts, Loop.ends_stop_iff h]

theorem accepts_congr (h : step input p = step input q) :
    Accepts input p inet ↔ Accepts input q inet := by
  simp only [Accepts, Loop.ends_congr h]

variable {v4 : Bool} {block : Option Nat} {w rest : Bytes}

theorem Reading.step_eq (h : Reading input p v4 block w rest) {token : Token}
    (htoken : ipAddressTokenize rest = token) (hlegal : token.type ≠ .illegal) :
    step input p = (p.advance token.text.length).onToken token := by
  have hread : p.token input = token := by
    rw [Parser.token, h.text, htoken]
  simp [step, hread, hlegal]

/-- A round that ends in an exception. -/
def Refuses (o : Outcome) : Prop :=
  ∃ r, o = Outcome.refused r

theorem refuses_expecting (p : Parser) (token : Token) (expected : String) :
    Refuses (p.expecting token expected) :=
  ⟨_, rfl⟩

theorem Reading.not_accepts (h : Reading input p v4 block w rest) {token : Token}
    (htoken : ipAddressTokenize rest = token)
    (hrefused : token.type ≠ .illegal →
      Refuses ((p.advance token.text.length).onToken token)) : ¬Accepts input p inet := by
  by_cases hillegal : token.type = .illegal
  · have hread : p.token input = token := by
      rw [Parser.token, h.text, htoken]
    refine not_accepts_refused (r := ?_) ?_
    · exact .illegalCharacter (byteAt token.text 0) ((p.advance token.text.length).inPtr - 1)
    · simp [step, hread, hillegal]
  · obtain ⟨r, hr⟩ := hrefused hillegal
    exact not_accepts_refused ((h.step_eq htoken hillegal).trans hr)

end

end Inet
end ScyllaDriver
