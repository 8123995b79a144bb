import ScyllaDriver.DateTime.Duration
import ScyllaDriver.DateTime.Timestamp
import ScyllaDriver.Library.PrefixCode

/-!
# The text of a duration

`duration_to_string` writes one minus sign if any component is negative, and then the
components without their signs. The three components are negated in their own widths; for
the least number of a width C leaves the result undefined, so it is a parameter here.

Every duration can be decoded: `cass_value_get_duration` fills the three components with
whatever the server sent.
-/

namespace ScyllaDriver
namespace Durations

open CString Timestamps

section Printer

variable (overflow32 : Int32) (overflow64 : Int64)

def absolute32 (x : Int32) : Int :=
  if x.toInt < 0 then
    if x.toInt = int32Min then overflow32.toInt else -x.toInt
  else
    x.toInt

def absolute64 (x : Int64) : Int :=
  if x.toInt < 0 then
    if x.toInt = longMin then overflow64.toInt else -x.toInt
  else
    x.toInt

def componentsText (months days nanos : Int) : Bytes :=
  signedText months ++ chr 'm' :: chr 'o' :: (signedText days ++ chr 'd' ::
    (signedText nanos ++ [chr 'n', chr 's']))

def Duration.Negative (d : Duration) : Prop :=
  d.months.toInt < 0 ∨ d.days.toInt < 0 ∨ d.nanos.toInt < 0

instance (d : Duration) : Decidable d.Negative :=
  inferInstanceAs (Decidable (_ ∨ _ ∨ _))

/-- `duration_to_string`. -/
def durationToString (d : Duration) : Bytes :=
  (if d.Negative then [chr '-'] else []) ++
    componentsText (absolute32 overflow32 d.months) (absolute32 overflow32 d.days)
      (absolute64 overflow64 d.nanos)

end Printer

theorem not_mem_signedText {c : UInt8} (hdigit : isdigit c = false) (hminus : c ≠ chr '-')
    (x : Int) : c ∉ signedText x := by
  intro hc
  rcases List.mem_append.mp hc with hc | hc
  · split at hc
    · exact hminus (List.mem_singleton.mp hc)
    · cases hc
  · rw [isdigit_of_mem_decimalText hc] at hdigit
    cases hdigit

theorem chr_minus_not_mem_decimalText (n : Nat) : chr '-' ∉ decimalText n := fun hc =>
  absurd (isdigit_of_mem_decimalText hc) (by decide)

theorem cons_minus_ne_signedText_append {x : Int} (hx : 0 ≤ x) (text rest : Bytes) :
    chr '-' :: text ≠ signedText x ++ rest := by
  intro h
  obtain ⟨c, cs, hcs⟩ := List.exists_cons_of_ne_nil (decimalText_ne_nil x.natAbs)
  rw [signedText, if_neg (by omega), List.nil_append, hcs, List.cons_append] at h
  refine chr_minus_not_mem_decimalText x.natAbs ?_
  rw [hcs, (List.cons.inj h).1]
  exact List.mem_cons_self

theorem decimalText_inj {m n : Nat} (h : decimalText m = decimalText n) : m = n := by
  have hvalue := congrArg (fun s => Positional.value 10 (s.map digitValue)) h
  simpa only [value_decimalText] using hvalue

theorem signedText_inj {x y : Int} (h : signedText x = signedText y) : x = y := by
  rcases lt_or_ge x 0 with hx | hx <;> rcases lt_or_ge y 0 with hy | hy
  · simp only [signedText, hx, hy, if_true, List.singleton_append, List.cons.injEq, true_and] at h
    have habs := decimalText_inj h
    omega
  · rw [← List.append_nil (signedText y)] at h
    simp only [signedText, hx, if_true, List.singleton_append] at h
    exact absurd h (cons_minus_ne_signedText_append hy _ _)
  · rw [← List.append_nil (signedText x)] at h
    have h' := h.symm
    simp only [signedText, hy, if_true, List.singleton_append] at h'
    exact absurd h' (cons_minus_ne_signedText_append hx _ _)
  · simp only [signedText, not_lt.mpr hx, not_lt.mpr hy, if_false, List.nil_append] at h
    have habs := decimalText_inj h
    omega

theorem componentsText_inj {months days nanos months' days' nanos' : Int}
    (h : componentsText months days nanos = componentsText months' days' nanos') :
    months = months' ∧ days = days' ∧ nanos = nanos' := by
  have hm : ∀ x, chr 'm' ∉ signedText x := not_mem_signedText (by decide) (by decide)
  have hd : ∀ x, chr 'd' ∉ signedText x := not_mem_signedText (by decide) (by decide)
  have hn : ∀ x, chr 'n' ∉ signedText x := not_mem_signedText (by decide) (by decide)
  obtain ⟨hmonths, hrest⟩ := PrefixCode.append_mark_inj (hm _) (hm _) h
  obtain ⟨hdays, hrest⟩ := PrefixCode.append_mark_inj (hd _) (hd _) (List.cons.inj hrest).2
  obtain ⟨hnanos, -⟩ := PrefixCode.append_mark_inj (hn _) (hn _) hrest
  exact ⟨signedText_inj hmonths, signedText_inj hdays, signedText_inj hnanos⟩

def Duration.sizes (d : Duration) : Nat × Nat × Nat :=
  (d.months.toInt.natAbs, d.days.toInt.natAbs, d.nanos.toInt.natAbs)

/-- The sizes in plain decimal notation, with their units. -/
def Duration.plainText (d : Duration) : Bytes :=
  componentsText d.sizes.1 d.sizes.2.1 d.sizes.2.2

/-- No component is the least number of its width. -/
def Duration.NoLeast (d : Duration) : Prop :=
  d.months.toInt ≠ int32Min ∧ d.days.toInt ≠ int32Min ∧ d.nanos.toInt ≠ longMin

instance (d : Duration) : Decidable d.NoLeast :=
  inferInstanceAs (Decidable (_ ∧ _ ∧ _))

section

variable {overflow32 : Int32} {overflow64 : Int64}

/-- The least number has no negation in its width, whatever is printed for it. -/
theorem absolute32_eq_iff (x : Int32) :
    absolute32 overflow32 x = (x.toInt.natAbs : Int) ↔ x.toInt ≠ int32Min := by
  have hhigh := overflow32.toInt_lt
  unfold absolute32 int32Min
  split_ifs <;> omega

theorem absolute64_eq_iff (x : Int64) :
    absolute64 overflow64 x = (x.toInt.natAbs : Int) ↔ x.toInt ≠ longMin := by
  have hhigh := overflow64.toInt_lt
  unfold absolute64 longMin
  split_ifs <;> omega

theorem negative_of_not_noLeast {d : Duration} (h : ¬ d.NoLeast) : d.Negative := by
  unfold Duration.NoLeast int32Min longMin at h
  unfold Duration.Negative
  omega

theorem durationToString_of_noLeast {d : Duration} (h : d.NoLeast) :
    durationToString overflow32 overflow64 d =
      (if d.Negative then [chr '-'] else []) ++ d.plainText := by
  obtain ⟨hmonths, hdays, hnanos⟩ := h
  rw [durationToString, (absolute32_eq_iff _).mpr hmonths, (absolute32_eq_iff _).mpr hdays,
    (absolute64_eq_iff _).mpr hnanos]
  rfl

theorem cons_minus_ne_plainText (text : Bytes) (d : Duration) : chr '-' :: text ≠ d.plainText :=
  cons_minus_ne_signedText_append (Int.natCast_nonneg _) _ _

/-- The text is an optional minus sign and the plain text. -/
def WellPrinted (overflow32 : Int32) (overflow64 : Int64) (d : Duration) : Prop :=
  durationToString overflow32 overflow64 d = d.plainText ∨
    durationToString overflow32 overflow64 d = chr '-' :: d.plainText

theorem wellPrinted_iff (d : Duration) : WellPrinted overflow32 overflow64 d ↔ d.NoLeast := by
  constructor
  · intro h
    by_contra hleast
    have htext : durationToString overflow32 overflow64 d = chr '-' :: componentsText
        (absolute32 overflow32 d.months) (absolute32 overflow32 d.days)
          (absolute64 overflow64 d.nanos) := by
      rw [durationToString, if_pos (negative_of_not_noLeast hleast)]
      rfl
    rcases h with h | h
    · exact cons_minus_ne_plainText _ d (htext.symm.trans h)
    · obtain ⟨hmonths, hdays, hnanos⟩ := componentsText_inj (List.cons.inj (htext.symm.trans h)).2
      exact hleast ⟨(absolute32_eq_iff _).mp hmonths, (absolute32_eq_iff _).mp hdays,
        (absolute64_eq_iff _).mp hnanos⟩
  · intro h
    unfold WellPrinted
    rw [durationToString_of_noLeast h]
    split
    · exact .inr rfl
    · exact .inl rfl

/-- Two texts agree if both have the sign or both do not, and the sizes are the same. -/
theorem durationToString_eq_iff {d₁ d₂ : Duration} (h₁ : d₁.NoLeast) (h₂ : d₂.NoLeast) :
    durationToString overflow32 overflow64 d₁ = durationToString overflow32 overflow64 d₂ ↔
      (d₁.Negative ↔ d₂.Negative) ∧ d₁.sizes = d₂.sizes := by
  have hplain : d₁.plainText = d₂.plainText ↔ d₁.sizes = d₂.sizes := by
    constructor
    · intro h
      obtain ⟨hmonths, hdays, hnanos⟩ := componentsText_inj h
      exact Prod.ext (Int.ofNat_inj.mp hmonths)
        (Prod.ext (Int.ofNat_inj.mp hdays) (Int.ofNat_inj.mp hnanos))
    · intro h
      rw [Duration.plainText, h]
      rfl
  rw [durationToString_of_noLeast h₁, durationToString_of_noLeast h₂, ← hplain]
  by_cases hneg₁ : d₁.Negative <;> by_cases hneg₂ : d₂.Negative
  · simp [hneg₁, hneg₂]
  · simp only [hneg₁, hneg₂, if_true, if_false, List.singleton_append, List.nil_append,
      iff_false, not_true_eq_false, false_and]
    exact cons_minus_ne_plainText _ _
  · simp only [hneg₁, hneg₂, if_true, if_false, List.singleton_append, List.nil_append,
      iff_true, false_and, iff_false]
    exact fun h => cons_minus_ne_plainText _ _ h.symm
  · simp [hneg₁, hneg₂]

/-- Of durations whose components have one sign, the sizes tell all but the sign. -/
theorem eq_of_sizes {d₁ d₂ : Duration} (hsign₁ : d₁.OneSign) (hsign₂ : d₂.OneSign)
    (hneg : d₁.Negative ↔ d₂.Negative) (hsizes : d₁.sizes = d₂.sizes) : d₁ = d₂ := by
  obtain ⟨months₁, days₁, nanos₁⟩ := d₁
  obtain ⟨months₂, days₂, nanos₂⟩ := d₂
  simp only [Duration.sizes, Prod.mk.injEq] at hsizes
  simp only [Duration.Negative] at hneg
  simp only [Duration.OneSign, OneSign] at hsign₁ hsign₂
  obtain ⟨hmonths, hdays, hnanos⟩ := hsizes
  rw [Duration.mk.injEq]
  exact ⟨Int32.toInt_inj.mp (by omega), Int32.toInt_inj.mp (by omega),
    Int64.toInt_inj.mp (by omega)⟩

theorem oneSign_of_not_negative {d : Duration} (h : ¬ d.Negative) : d.OneSign := by
  simp only [Duration.Negative, not_or, not_lt] at h
  exact .inr h

end

/-- Both texts have the right form, and they are the same only for one duration. -/
def PrintedRight (overflow32 : Int32) (overflow64 : Int64) (d₁ d₂ : Duration) : Prop :=
  (WellPrinted overflow32 overflow64 d₁ ∧ WellPrinted overflow32 overflow64 d₂) ∧
    (durationToString overflow32 overflow64 d₁ = durationToString overflow32 overflow64 d₂ →
      d₁ = d₂)

/-- Texts are right but for the least numbers, and for two durations that differ only in
which of their components are negative. -/
theorem printed_right_iff
    (overflow32 : Int32)
    (overflow64 : Int64)
    (d₁ d₂ : Duration) :
    PrintedRight overflow32 overflow64 d₁ d₂ ↔
      (d₁.NoLeast ∧ d₂.NoLeast) ∧
        (d₁.Negative → d₂.Negative → d₁.sizes = d₂.sizes → d₁ = d₂) := by
  rw [PrintedRight, wellPrinted_iff, wellPrinted_iff]
  refine and_congr_right fun ⟨h₁, h₂⟩ => ?_
  rw [durationToString_eq_iff h₁ h₂]
  constructor
  · intro h hneg₁ hneg₂ hsizes
    exact h ⟨iff_of_true hneg₁ hneg₂, hsizes⟩
  · rintro h ⟨hsign, hsizes⟩
    by_cases hneg₁ : d₁.Negative
    · exact h hneg₁ (hsign.mp hneg₁) hsizes
    · have hneg₂ : ¬ d₂.Negative := fun hneg₂ => hneg₁ (hsign.mpr hneg₂)
      exact eq_of_sizes (oneSign_of_not_negative hneg₁) (oneSign_of_not_negative hneg₂) hsign hsizes

/-- One month less one day and its inversion have one text. -/
theorem printed_alike :
    build 0 (.fromDateInterval (some ⟨0, 1, -1, 0, 0, 0, 0, false⟩)) = .ok ⟨1, -1, 0⟩ ∧
      build 0 (.fromDateInterval (some ⟨0, 1, -1, 0, 0, 0, 0, true⟩)) = .ok ⟨-1, 1, 0⟩ ∧
        durationToString 0 0 ⟨1, -1, 0⟩ = durationToString 0 0 ⟨-1, 1, 0⟩ :=
  ⟨rfl, rfl, (durationToString_eq_iff (by decide) (by decide)).mpr
    ⟨iff_of_true (by decide) (by decide), rfl⟩⟩

end Durations
end ScyllaDriver
