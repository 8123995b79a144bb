import ScyllaDriver.Numbers.NumberParser

/-!
# The parts of a decimal text

A decimal text is a sign, an integer part, an optional dot with a fraction,
and an optional exponent. The parser works by index: `start`, `point` and
`dot` are positions in one buffer, and the digits are copied out of it in one
or two slices.
-/

namespace ScyllaDriver
namespace Numbers

open Positional CString

theorem slice_append (xs ys zs : Bytes) :
    slice (xs ++ ys ++ zs) xs.length (xs.length + ys.length) = ys := by
  unfold slice
  have htake : (xs ++ ys ++ zs).take (xs.length + ys.length) = xs ++ ys := by
    rw [← List.length_append, List.take_left]
  rw [htake, List.drop_left]

theorem map_eq_ok {ε α β : Type} {f : α → β} {x : Except ε α} {b : β} (h : x.map f = .ok b) :
    ∃ a, x = .ok a ∧ f a = b := by
  cases x with
  | error e => simp [Except.map] at h
  | ok a => exact ⟨a, rfl, Except.ok.inj h⟩

/-- The dot and the fraction, or nothing. -/
def fractionText : Option Bytes → Bytes
  | none => []
  | some fp => chr '.' :: fp

def signText (neg : Bool) : Bytes :=
  if neg then [chr '-'] else []

theorem signText_length (neg : Bool) : (signText neg).length = if neg then 1 else 0 := by
  cases neg <;> rfl

theorem mantissaText_append (sign ip : Bytes) (fp : Option Bytes) (rest : Bytes) :
    mantissaText (sign ++ (ip ++ (fractionText fp ++ rest))) sign.length
        (sign.length + ip.length + (fractionText fp).length)
        (fp.map (fun _ => sign.length + ip.length)) =
      ip ++ fp.getD [] := by
  cases fp with
  | none =>
    have h := slice_append sign ip rest
    simpa [mantissaText, fractionText] using h
  | some fp =>
    have h₁ := slice_append sign ip (chr '.' :: fp ++ rest)
    have h₂ := slice_append (sign ++ ip ++ [chr '.']) fp rest
    simp only [List.append_assoc, List.length_append, List.length_cons,
      List.length_nil, List.cons_append, List.nil_append, Nat.zero_add]
      at h₁ h₂
    have hpoint :
        sign.length + ip.length + (fp.length + 1) = sign.length + (ip.length + 1) + fp.length := by
      omega
    simp only [Option.map_some, mantissaText, fractionText,
      List.cons_append, Option.getD_some, List.length_cons]
    rw [h₁, hpoint, Nat.add_assoc, h₂]

theorem mantissaScale_layout (start : Nat) (ip : Bytes) (fp : Option Bytes) :
    mantissaScale (start + ip.length + (fractionText fp).length)
        (fp.map (fun _ => start + ip.length)) =
      ((fp.getD []).length : Int) := by
  cases fp with
  | none =>
    rfl
  | some fp =>
    simp only [mantissaScale, Option.map_some, fractionText, List.length_cons, Option.getD_some]
    push_cast
    omega

end Numbers
end ScyllaDriver
