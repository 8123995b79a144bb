import ScyllaDriver.Inet.AddressBounds
import ScyllaDriver.Inet.AddressFields

/-!
# The parser accepts the text forms of an address

The parser ends on every text, accepts exactly the texts that denote an
address, and stores that address.
-/

namespace ScyllaDriver
namespace Inet

open CString Positional

section

variable {input : Bytes} {inet : CassInet}

theorem reading_start (hnul : 0 ∉ input) : Reading input {} false none [] input where
  ptr := le_rfl
  text := rfl
  noNul := hnul
  address := rfl
  room := by simp
  pos := rfl
  place := rfl
  blockLe := by simp
  domain := rfl

theorem accepts_compressed {p : Parser} {w rest : Bytes} (h : Reading input p false none w rest)
    (hstate : p.state = .compressed) :
    Accepts input p inet ↔ ∃ z, rest = chr ':' :: z ∧ Reads (some w.length) w z inet := by
  obtain ⟨token, htoken, hstart⟩ := exists_start h.noNul
  by_cases hcolon : token.type = .colon
  · obtain ⟨z, rfl, htext⟩ : ∃ z, rest = chr ':' :: z ∧ token.text = [chr ':'] := by
      cases hstart with
      | colon z =>
        exact ⟨z, rfl, rfl⟩
      | _ =>
        cases hcolon
    have hplace : (p.advance 1).compressPos = -1 := h.place
    have hstep := h.step_eq htoken (by simp [hcolon])
    simp only [Parser.onToken, advance_state, hstate, hcolon, if_true, htext,
      Parser.atCompressed, List.length_singleton] at hstep
    rw [if_neg (by simpa using hplace)] at hstep
    refine (accepts_next hstep).trans ((accepts_field h.compress rfl).trans ?_)
    simp
  · have hrest : ∀ z, rest ≠ chr ':' :: z := by
      rintro z rfl
      rw [tokenize_mark isxdigit_marks.1] at htoken
      exact hcolon (by rw [← htoken]; decide)
    have hrefused : ¬Accepts input p inet := by
      refine h.not_accepts htoken fun _ => ?_
      simp only [Parser.onToken, advance_state, hstate, Parser.atCompressed, hcolon, if_false]
      exact refuses_expecting _ _ _
    simp [hrefused, hrest]

theorem accepts_start (hnul : 0 ∉ input) : Accepts input {} inet ↔ Denotes input inet := by
  have h := reading_start hnul
  have hfield := h.toState .field
  rw [denotes_iff_reads]
  obtain ⟨token, htoken, hstart⟩ := exists_start hnul
  have hmark : ∀ {c : UInt8} {z : Bytes}, isxdigit c = false → ¬Reads none [] (c :: z) inet := by
    intro c z hc hreads
    rw [hreads.head] at hc
    cases hc
  -- a field is read as in the state that expects one
  have hnumber : ∀ {t y : Bytes}, IsGroup t → input = t ++ y →
      (token.type = .dec ∨ token.type = .hex) →
      (Accepts input {} inet ↔
        (∃ rest, input = chr ':' :: chr ':' :: rest ∧
          Reads (some 0) [] rest inet) ∨ Reads none [] input inet) := by
    intro t y ht hinput htype
    have hsame : step input {} = step input { state := .field } := by
      rw [h.step_eq htoken (by rcases htype with h | h <;> simp [h]),
        hfield.step_eq htoken (by rcases htype with h | h <;> simp [h])]
      rcases htype with htype | htype <;>
        simp only [Parser.onToken, advance_state, htype, reduceCtorEq,
          if_false, ne_eq, not_true_eq_false, not_false_eq_true, and_false,
          false_and] <;>
        exact (atField_state _ .field token).symm
    have hcolon : ∀ z, input ≠ chr ':' :: z := by
      obtain ⟨c, cs, rfl, hc, -⟩ := ht.exists_cons
      intro z hz
      rw [hinput] at hz
      exact hc (List.cons.inj hz).1
    rw [accepts_congr hsame, accepts_field hfield rfl]
    simp [hcolon]
  cases hstart with
  | ended =>
    have hrefused : ¬Accepts [] {} inet := by
      refine h.not_accepts htoken fun _ => ?_
      exact refuses_expecting _ _ _
    simp [hrefused, reads_nil_iff]
  | colon z =>
    have hround :
        step (chr ':' :: z) {} = .next { ({} : Parser).advance 1 with state := .compressed } := by
      rw [h.step_eq htoken (by simp)]
      rfl
    have hread := (h.advance 1).toState .compressed
    rw [accepts_next hround, accepts_compressed hread rfl]
    simp [hmark isxdigit_marks.1]
  | dot z =>
    have hrefused : ¬Accepts (chr '.' :: z) {} inet := by
      refine h.not_accepts htoken fun _ => ?_
      exact refuses_expecting _ _ _
    have hne : chr '.' ≠ chr ':' := by
      decide
    simp [hrefused, hmark isxdigit_marks.2.1, hne]
  | illegal c z hx hcolon hdot =>
    have hrefused : ¬Accepts (c :: z) {} inet :=
      h.not_accepts htoken fun hlegal => absurd rfl hlegal
    simp [hrefused, hmark hx, hcolon]
  | dec t y ht hfield' hdigits =>
    exact hnumber ht rfl (.inl rfl)
  | hex t y ht hfield' hhex =>
    exact hnumber ht rfl (.inr rfl)

end

theorem isxdigit_ne_zero {c : UInt8} (h : isxdigit c = true) : c ≠ 0 := by
  rintro rfl
  rw [isxdigit_marks.2.2] at h
  cases h

theorem dottedText_noNul (bs : Bytes) : 0 ∉ dottedText bs := by
  have hbyte : ∀ b : UInt8, 0 ∉ decimalText b.toNat := by
    intro b hmem
    exact isxdigit_ne_zero (isdigit_isxdigit (isdigit_of_mem_decimalText hmem)) rfl
  have hdot : (0 : UInt8) ≠ chr '.' := by
    decide
  induction bs with
  | nil =>
    simp [dottedText]
  | cons b bs ih =>
    by_cases hbs : bs = []
    · subst hbs
      simpa using hbyte b
    · rw [dottedText_cons b hbs]
      simp [hbyte b, hdot, ih]

theorem dottedText_length_le {bs : Bytes} (hbs : bs ≠ []) :
    (dottedText bs).length + 1 ≤ 4 * bs.length := by
  have hbyte : ∀ b : UInt8, (decimalText b.toNat).length ≤ 3 := by
    intro b
    have := b.toNat_lt
    exact decimalText_length_le (by decide) (by omega)
  induction bs with
  | nil =>
    exact absurd rfl hbs
  | cons b bs ih =>
    have hb := hbyte b
    by_cases hnil : bs = []
    · subst hnil
      simp only [dottedText_singleton, List.length_singleton]
      omega
    · have := ih hnil
      rw [dottedText_cons b hnil]
      simp only [List.length_append, List.length_cons]
      omega

theorem Quad.text_length_le (q : Quad) : q.text.length ≤ 15 := by
  have hne : q.bytes ≠ [] := by
    intro h
    have := q.four
    simp [h] at this
  have h := dottedText_length_le hne
  rw [q.four] at h
  rw [Quad.text]
  omega

theorem Reads.noNul {block : Option Nat} {w rest : Bytes} {inet : CassInet}
    (h : Reads block w rest inet) : 0 ∉ rest := by
  have hgroup : ∀ {t : Bytes}, IsGroup t → 0 ∉ t :=
    fun ht hmem => isxdigit_ne_zero (ht.digits 0 hmem) rfl
  have hcolon : (0 : UInt8) ≠ chr ':' := by
    decide
  induction h with
  | stop _ =>
    simp
  | last ht _ =>
    exact hgroup ht
  | quad q _ | ipv4 q =>
    exact dottedText_noNul q.bytes
  | group ht _ ih | block ht _ ih =>
    simp [hgroup ht, hcolon, ih]

/-- A field takes five characters at most for its two bytes, the last four
bytes fifteen. -/
theorem Reads.length_bound {block : Option Nat} {w rest : Bytes} {inet : CassInet}
    (h : Reads block w rest inet) :
    2 * rest.length + 5 * w.length ≤ if block = none then 90 else 88 := by
  induction h with
  | @stop w inet hc =>
    have := hc.1
    simp only [List.length_nil, reduceCtorEq, if_false]
    omega
  | @last block w t inet ht hc =>
    have hshort := ht.short
    have hle := hc.length_le
    simp only [List.length_append, groupBytes_length] at hle
    split_ifs <;> omega
  | @quad block w inet q hc =>
    have hshort := q.text_length_le
    cases block with
    | none =>
      have := hc.1
      simp only [List.length_append, q.four] at this
      rw [if_pos rfl]
      omega
    | some k =>
      have := hc.1
      simp only [List.length_append, q.four] at this
      rw [if_neg (by simp)]
      omega
  | ipv4 q =>
    have hshort := q.text_length_le
    rw [if_pos rfl, List.length_nil]
    omega
  | @group block w t rest inet ht _ ih =>
    have hshort := ht.short
    simp only [List.length_append, List.length_cons, groupBytes_length] at ih ⊢
    omega
  | @block w t rest inet ht _ ih =>
    have hshort := ht.short
    simp only [List.length_append, groupBytes_length, reduceCtorEq, if_false] at ih
    simp only [List.length_append, List.length_cons, if_true]
    omega

theorem Denotes.checks {input : Bytes} {inet : CassInet} (h : Denotes input inet) :
    0 ∉ input ∧ input.length ≤ ipMaxAddrlen - 1 := by
  have hcolon : (0 : UInt8) ≠ chr ':' := by
    decide
  rcases (denotes_iff_reads input inet).mp h with ⟨rest, rfl, hreads⟩ | hreads
  · have hbound := hreads.length_bound
    simp only [List.length_nil, reduceCtorEq, if_false] at hbound
    refine ⟨by simp [hcolon, hreads.noNul], ?_⟩
    simp only [List.length_cons, ipMaxAddrlen]
    omega
  · have hbound := hreads.length_bound
    simp only [List.length_nil, if_true] at hbound
    exact ⟨hreads.noNul, by simp only [ipMaxAddrlen]; omega⟩

theorem exists_parseIpAddress (input : Bytes) : ∃ result, parseIpAddress input = some result := by
  unfold parseIpAddress parseWithin
  split_ifs
  · exact ⟨_, rfl⟩
  · exact ⟨_, rfl⟩
  · obtain ⟨r, hr⟩ := Loop.exists_run (roundsLeft input) (fun _ _ => Bounded.next)
      (bounded_start input) (roundsLeft_start input)
    exact ⟨_, by rw [hr]; rfl⟩

theorem run_conclude_iff (input : Bytes) (inet : CassInet) :
    (Loop.run (step input) (roundsFor input.length) {}).map (·.bind conclude) = some (.ok inet) ↔
      Accepts input {} inet := by
  have hrun : ∀ {r : Except Refusal Parser},
      Loop.run (step input) (roundsFor input.length) {} = some r ↔ Loop.Ends (step input) {} r :=
    Loop.run_eq_some_iff (roundsLeft input) (fun _ _ => Bounded.next) (bounded_start input)
      (roundsLeft_start input)
  rw [Option.map_eq_some_iff]
  constructor
  · rintro ⟨r, hr, hconclude⟩
    cases r with
    | error e =>
      cases hconclude
    | ok q =>
      exact ⟨q, hrun.mp hr, hconclude⟩
  · rintro ⟨q, hends, hconclude⟩
    exact ⟨.ok q, hrun.mpr hends, hconclude⟩

/-- The accepted texts are those that denote an address. -/
theorem parseIpAddress_eq_ok_iff (input : Bytes) (inet : CassInet) :
    parseIpAddress input = some (.ok inet) ↔ Denotes input inet := by
  unfold parseIpAddress parseWithin
  by_cases hnul : 0 ∈ input
  · have hstrlen : input.length ≠ strlen input := by
      intro h
      exact (strlen_eq_length_iff input).mp h.symm hnul
    rw [if_pos hstrlen]
    refine iff_of_false (by simp) (fun h => h.checks.1 hnul)
  · have hstrlen : ¬input.length ≠ strlen input := by
      rw [not_not]
      exact ((strlen_eq_length_iff input).mpr hnul).symm
    rw [if_neg hstrlen]
    by_cases hlong : input.length > ipMaxAddrlen - 1
    · rw [if_pos hlong]
      refine iff_of_false (by simp) (fun h => ?_)
      have := h.checks.2
      omega
    · rw [if_neg hlong, run_conclude_iff, accepts_start hnul]

/-- On every text the parser returns; it accepts exactly the texts that denote
an address and stores that address. -/
theorem parseIpAddress_accepts_exactly
    (input : Bytes) :
    (∃ result, parseIpAddress input = some result) ∧
      ∀ inet, parseIpAddress input = some (.ok inet) ↔ Denotes input inet :=
  ⟨exists_parseIpAddress input, parseIpAddress_eq_ok_iff input⟩

end Inet
end ScyllaDriver
