import ScyllaDriver.Library.Transition
import Mathlib.Algebra.Order.Field.Rat

/-!
# Arithmetic on a pool of Decimal objects

A `Cassandra\Decimal` is a big integer and a scale. `add` and `sub` align
their operands in place: the big integer of the operand with the smaller scale
is multiplied by a power of ten, and its scale stays.

`Pool` holds the objects as they are and, beside them, as they were when they
were created.
-/

namespace ScyllaDriver
namespace Numbers

/-- `data.decimal` of a `php_scylladb_numeric`. -/
structure Decimal where
  value : Int
  scale : Int64
  deriving DecidableEq

def Decimal.denote (d : Decimal) : ℚ :=
  d.value * (10 : ℚ) ^ (-d.scale.toInt)

/-- The operand with the scale raised to `scale`: the scale field keeps its
value. -/
def Decimal.scaledUp (d : Decimal) (scale : Int64) : Decimal :=
  { d with value := d.value * 10 ^ (scale.toInt - d.scale.toInt).toNat }

inductive Op where
  | new (d : Decimal)
  | add (lhs rhs : Nat)
  | sub (lhs rhs : Nat)
  | mul (lhs rhs : Nat)
  | abs (self : Nat)
  | neg (self : Nat)
  | compare (lhs rhs : Nat)
  deriving DecidableEq

/-- `align_decimals` on two objects of the pool. -/
def alignDecimals (objects : List Decimal) (i j : Nat) (lhs rhs : Decimal) : List Decimal :=
  if lhs.scale < rhs.scale then objects.set i (lhs.scaledUp rhs.scale)
  else if rhs.scale < lhs.scale then objects.set j (rhs.scaledUp lhs.scale)
  else objects

/-- `add` and `sub`: align, then combine the big integers as they are now. -/
def combine (op : Int → Int → Int) (objects : List Decimal) (i j : Nat) :
    Option (List Decimal × Option Decimal) := do
  let lhs ← objects[i]?
  let rhs ← objects[j]?
  let aligned := alignDecimals objects i j lhs rhs
  let lhs ← aligned[i]?
  let rhs ← aligned[j]?
  return (aligned,
    some ⟨op lhs.value rhs.value, if rhs.scale < lhs.scale then lhs.scale else rhs.scale⟩)

/-- The objects after an operation, and the object it returns. -/
def Op.run (objects : List Decimal) : Op → Option (List Decimal × Option Decimal)
  | .new d => some (objects, some d)
  | .add i j => combine (· + ·) objects i j
  | .sub i j => combine (· - ·) objects i j
  | .mul i j => do
      let lhs ← objects[i]?
      let rhs ← objects[j]?
      return (objects, some ⟨lhs.value * rhs.value, lhs.scale + rhs.scale⟩)
  | .abs i => do
      let self ← objects[i]?
      return (objects, some ⟨|self.value|, self.scale⟩)
  | .neg i => do
      let self ← objects[i]?
      return (objects, some ⟨-self.value, self.scale⟩)
  | .compare i j => do
      let _ ← objects[i]?
      let _ ← objects[j]?
      return (objects, none)

structure Pool where
  objects : List Decimal
  created : List Decimal
  deriving DecidableEq

def Pool.initial (objects : List Decimal) : Pool where
  objects := objects
  created := objects

def Pool.step (p : Pool) (op : Op) : Option Pool :=
  (op.run p.objects).map fun (objects, result) =>
    { objects := objects ++ result.toList, created := p.created ++ result.toList }

def Pool.Intact (p : Pool) : Prop :=
  p.objects = p.created

/-- What an operation should return, from what its operands stood for when they
were created. -/
def Op.meaning (created : List Decimal) : Op → Option ℚ
  | .new d => some d.denote
  | .add i j => do return (← created[i]?).denote + (← created[j]?).denote
  | .sub i j => do return (← created[i]?).denote - (← created[j]?).denote
  | .mul i j => do return (← created[i]?).denote * (← created[j]?).denote
  | .abs i => do return |(← created[i]?).denote|
  | .neg i => do return -(← created[i]?).denote
  | .compare _ _ => none

/-- The step from `p` to `p'` created what the operation means. -/
def Exact (p : Pool) (op : Op) (p' : Pool) : Prop :=
  (p'.created.drop p.created.length).map Decimal.denote = (op.meaning p.created).toList

/-- Aligning changes neither operand. -/
def Aligned (lhs rhs : Decimal) : Prop :=
  (lhs.scale < rhs.scale → lhs.value = 0) ∧ (rhs.scale < lhs.scale → rhs.value = 0)

/-- The sum of the scales is a `long`, or does not matter. -/
def ScalesAdd (lhs rhs : Decimal) : Prop :=
  lhs.value * rhs.value = 0 ∨
    (-2 ^ 63 ≤ lhs.scale.toInt + rhs.scale.toInt ∧ lhs.scale.toInt + rhs.scale.toInt < 2 ^ 63)

/-- Sums and differences of operands that are aligned as they are, products with
a scale in range. -/
def Allowed (p : Pool) : Op → Prop
  | .add i j => ∀ lhs rhs, p.objects[i]? = some lhs → p.objects[j]? = some rhs → Aligned lhs rhs
  | .sub i j => ∀ lhs rhs, p.objects[i]? = some lhs → p.objects[j]? = some rhs → Aligned lhs rhs
  | .mul i j => ∀ lhs rhs, p.objects[i]? = some lhs → p.objects[j]? = some rhs → ScalesAdd lhs rhs
  | _ => True

theorem scaledUp_eq_self_iff {d : Decimal} {scale : Int64} (hlt : d.scale < scale) :
    d.scaledUp scale = d ↔ d.value = 0 := by
  have hpos : 0 < (scale.toInt - d.scale.toInt).toNat := by
    have hlt' := Int64.lt_iff_toInt_lt.mp hlt
    omega
  have hpow : (10 : Int) ^ (scale.toInt - d.scale.toInt).toNat ≠ 1 := by
    have hten : (10 : Int) ≤ 10 ^ (scale.toInt - d.scale.toInt).toNat :=
      le_self_pow₀ (by norm_num) (by omega)
    omega
  constructor
  · intro h
    have hvalue : d.value * 10 ^ (scale.toInt - d.scale.toInt).toNat = d.value * 1 := by
      simpa [Decimal.scaledUp] using congrArg Decimal.value h
    by_contra hne
    exact hpow (mul_left_cancel₀ hne hvalue)
  · intro h
    rw [Decimal.scaledUp, h, zero_mul, ← h]

theorem scaledUp_denote {d : Decimal} {scale : Int64} (hle : d.scale ≤ scale) :
    ((d.scaledUp scale).value : ℚ) * (10 : ℚ) ^ (-scale.toInt) = d.denote := by
  have hle' := Int64.le_iff_toInt_le.mp hle
  have hsplit : (10 : ℚ) ^ (scale.toInt - d.scale.toInt).toNat * (10 : ℚ) ^ (-scale.toInt) =
      (10 : ℚ) ^ (-d.scale.toInt) := by
    rw [← zpow_natCast, Int.toNat_of_nonneg (by omega), ← zpow_add₀ (by norm_num)]
    congr 1
    ring
  rw [Decimal.scaledUp, Decimal.denote]
  push_cast
  rw [mul_assoc, hsplit]

variable {objects : List Decimal} {i j : Nat} {lhs rhs : Decimal}

theorem set_eq_self_iff {d : Decimal} (h : objects[i]? = some lhs) :
    objects.set i d = objects ↔ d = lhs := by
  obtain ⟨hlt, hget⟩ := List.getElem?_eq_some_iff.mp h
  constructor
  · intro hset
    have hsame : (objects.set i d)[i]? = some lhs := by rw [hset, h]
    rw [List.getElem?_set_self hlt] at hsame
    exact Option.some.inj hsame
  · rintro rfl
    rw [← hget, List.set_getElem_self]

theorem alignDecimals_eq_self_iff (hi : objects[i]? = some lhs) (hj : objects[j]? = some rhs) :
    alignDecimals objects i j lhs rhs = objects ↔ Aligned lhs rhs := by
  unfold alignDecimals Aligned
  split_ifs with hlt hgt
  · have hnot : ¬ rhs.scale < lhs.scale := fun h => Int64.lt_irrefl (Int64.lt_trans hlt h)
    rw [set_eq_self_iff hi, scaledUp_eq_self_iff hlt]
    simp [hlt, hnot]
  · rw [set_eq_self_iff hj, scaledUp_eq_self_iff hgt]
    simp [hlt, hgt]
  · simp [hlt, hgt]

theorem combine_eq (op : Int → Int → Int) (hi : objects[i]? = some lhs)
    (hj : objects[j]? = some rhs) :
    ∃ (x y : Int) (scale : Int64),
      combine op objects i j = some (alignDecimals objects i j lhs rhs, some ⟨op x y, scale⟩) ∧
        (x : ℚ) * (10 : ℚ) ^ (-scale.toInt) = lhs.denote ∧
        (y : ℚ) * (10 : ℚ) ^ (-scale.toInt) = rhs.denote := by
  obtain ⟨hilt, -⟩ := List.getElem?_eq_some_iff.mp hi
  obtain ⟨hjlt, -⟩ := List.getElem?_eq_some_iff.mp hj
  by_cases hlt : lhs.scale < rhs.scale
  · have hle : lhs.scale ≤ rhs.scale := Int64.le_of_lt hlt
    have hne : i ≠ j := by
      rintro rfl
      rw [hi, Option.some.injEq] at hj
      exact Int64.lt_irrefl (hj ▸ hlt)
    refine ⟨(lhs.scaledUp rhs.scale).value, rhs.value, rhs.scale, ?_, scaledUp_denote hle, rfl⟩
    have hmax : ¬ rhs.scale < (lhs.scaledUp rhs.scale).scale := Int64.not_lt.mpr hle
    simp [combine, alignDecimals, hi, hj, hlt, List.getElem?_set_self hilt,
      List.getElem?_set_ne hne, hmax]
  · by_cases hgt : rhs.scale < lhs.scale
    · have hle : rhs.scale ≤ lhs.scale := Int64.le_of_lt hgt
      have hne : j ≠ i := by
        rintro rfl
        rw [hi, Option.some.injEq] at hj
        exact Int64.lt_irrefl (hj ▸ hgt)
      refine ⟨lhs.value, (rhs.scaledUp lhs.scale).value, lhs.scale, ?_, rfl, scaledUp_denote hle⟩
      have hmax : (rhs.scaledUp lhs.scale).scale < lhs.scale := hgt
      simp [combine, alignDecimals, hi, hj, hlt, hgt, List.getElem?_set_self hjlt,
        List.getElem?_set_ne hne, hmax]
    · have hscale : lhs.scale = rhs.scale :=
        Int64.le_antisymm (Int64.not_lt.mp hgt) (Int64.not_lt.mp hlt)
      refine ⟨lhs.value, rhs.value, lhs.scale, ?_, rfl, by rw [Decimal.denote, hscale]⟩
      simp [combine, alignDecimals, hi, hj, hscale]

theorem mul_denote_iff :
    Decimal.denote ⟨lhs.value * rhs.value, lhs.scale + rhs.scale⟩ = lhs.denote * rhs.denote ↔
      ScalesAdd lhs rhs := by
  have hproduct : lhs.denote * rhs.denote = ((lhs.value * rhs.value : Int) : ℚ) *
      (10 : ℚ) ^ (-(lhs.scale.toInt + rhs.scale.toInt)) := by
    rw [Decimal.denote, Decimal.denote, neg_add, zpow_add₀ (by norm_num)]
    push_cast
    ring
  rw [hproduct, Decimal.denote, mul_eq_mul_left_iff,
    zpow_right_inj₀ (by norm_num) (by norm_num), neg_inj, Int64.toInt_add, Int.cast_eq_zero,
    or_comm]
  refine or_congr Iff.rfl ?_
  rw [Int.bmod_def]
  norm_num
  split_ifs <;> omega

section

variable {p p' : Pool}

theorem intact_and_exact_iff (h : p.Intact) {op : Op} {objects : List Decimal} {r : Decimal} {x : ℚ}
    (hrun : op.run p.objects = some (objects, some r)) (hmeaning : op.meaning p.created = some x)
    (hstep : p.step op = some p') :
    (p'.Intact ∧ Exact p op p') ↔ (objects = p.objects ∧ r.denote = x) := by
  simp only [Pool.step, hrun, Option.map_some, Option.some.injEq, Option.toList_some] at hstep
  subst hstep
  simp [Pool.Intact, Exact, hmeaning, show p.objects = p.created from h]

theorem step_combine (h : p.Intact) {op : Op} {f : Int → Int → Int} {g : ℚ → ℚ → ℚ} {i j : Nat}
    (hrun : op.run p.objects = combine f p.objects i j)
    (hmeaning : op.meaning p.created = do
      return g (← p.created[i]?).denote (← p.created[j]?).denote)
    (hfg : ∀ (x y : Int) (c : ℚ), (f x y : ℚ) * c = g (x * c) (y * c))
    (hstep : p.step op = some p') :
    (p'.Intact ∧ Exact p op p') ↔
      ∀ lhs rhs, p.objects[i]? = some lhs → p.objects[j]? = some rhs → Aligned lhs rhs := by
  have hdefined : (combine f p.objects i j).isSome := by
    cases hcombine : combine f p.objects i j with
    | none =>
      rw [Pool.step, hrun, hcombine] at hstep
      cases hstep
    | some _ => rfl
  obtain ⟨lhs, hi⟩ : ∃ lhs, p.objects[i]? = some lhs := by
    cases hi : p.objects[i]? with
    | none => simp [combine, hi] at hdefined
    | some lhs => exact ⟨lhs, rfl⟩
  obtain ⟨rhs, hj⟩ : ∃ rhs, p.objects[j]? = some rhs := by
    cases hj : p.objects[j]? with
    | none => simp [combine, hi, hj] at hdefined
    | some rhs => exact ⟨rhs, rfl⟩
  obtain ⟨x, y, scale, hcombine, hx, hy⟩ := combine_eq f hi hj
  have hvalue : op.meaning p.created = some (g lhs.denote rhs.denote) := by
    rw [hmeaning, ← (show p.objects = p.created from h), hi, hj]
    rfl
  have hexact : Decimal.denote ⟨f x y, scale⟩ = g lhs.denote rhs.denote := by
    rw [Decimal.denote, hfg, hx, hy]
  rw [intact_and_exact_iff h (hrun.trans hcombine) hvalue hstep, alignDecimals_eq_self_iff hi hj]
  constructor
  · rintro ⟨haligned, -⟩ lhs' rhs' hi' hj'
    obtain rfl := Option.some.inj (hi.symm.trans hi')
    obtain rfl := Option.some.inj (hj.symm.trans hj')
    exact haligned
  · intro haligned
    exact ⟨haligned lhs rhs hi hj, hexact⟩

theorem step_mul (h : p.Intact) {i j : Nat} (hstep : p.step (.mul i j) = some p') :
    (p'.Intact ∧ Exact p (.mul i j) p') ↔ Allowed p (.mul i j) := by
  obtain ⟨⟨objects, result⟩, hrun, -⟩ := Option.map_eq_some_iff.mp hstep
  obtain ⟨lhs, hi, hrest⟩ := Option.bind_eq_some_iff.mp hrun
  obtain ⟨rhs, hj, -⟩ := Option.bind_eq_some_iff.mp hrest
  have hresult : (Op.mul i j).run p.objects =
      some (p.objects, some ⟨lhs.value * rhs.value, lhs.scale + rhs.scale⟩) := by
    simp [Op.run, hi, hj]
  have hvalue : (Op.mul i j).meaning p.created = some (lhs.denote * rhs.denote) := by
    simp [Op.meaning, ← (show p.objects = p.created from h), hi, hj]
  rw [intact_and_exact_iff h hresult hvalue hstep, mul_denote_iff]
  simp [Allowed, hi, hj]

theorem step_unary (h : p.Intact) {op : Op} {f : Int → Int} {g : ℚ → ℚ} {i : Nat}
    (hrun : op.run p.objects = do
      let self ← p.objects[i]?
      return (p.objects, some ⟨f self.value, self.scale⟩))
    (hmeaning : op.meaning p.created = do return g (← p.created[i]?).denote)
    (hfg : ∀ (x : Int) (c : ℚ), 0 < c → (f x : ℚ) * c = g (x * c)) (hstep : p.step op = some p') :
    p'.Intact ∧ Exact p op p' := by
  obtain ⟨⟨objects, result⟩, hdone, -⟩ := Option.map_eq_some_iff.mp hstep
  obtain ⟨self, hi, -⟩ := Option.bind_eq_some_iff.mp (hrun.symm.trans hdone)
  have hresult : op.run p.objects = some (p.objects, some ⟨f self.value, self.scale⟩) := by
    rw [hrun, hi]
    rfl
  have hvalue : op.meaning p.created = some (g self.denote) := by
    rw [hmeaning, ← (show p.objects = p.created from h), hi]
    rfl
  refine (intact_and_exact_iff h hresult hvalue hstep).mpr ⟨rfl, ?_⟩
  exact hfg self.value _ (zpow_pos (by norm_num) _)

/-- An operation on an intact pool is exact and leaves it intact exactly if it is
allowed. -/
theorem step_iff_allowed (h : p.Intact) {op : Op} (hstep : p.step op = some p') :
    (p'.Intact ∧ Exact p op p') ↔ Allowed p op := by
  cases op with
  | new d =>
    rw [intact_and_exact_iff h rfl rfl hstep]
    simp [Allowed]
  | add i j =>
    refine step_combine (g := fun x y => x + y) h rfl rfl ?_ hstep
    intro x y c
    push_cast
    ring
  | sub i j =>
    refine step_combine (g := fun x y => x - y) h rfl rfl ?_ hstep
    intro x y c
    push_cast
    ring
  | mul i j => exact step_mul h hstep
  | abs i =>
    refine iff_of_true (step_unary (g := fun x => |x|) h rfl rfl ?_ hstep) trivial
    intro x c hc
    rw [abs_mul, abs_of_pos hc, Int.cast_abs]
  | neg i =>
    refine iff_of_true (step_unary (g := fun x => -x) h rfl rfl ?_ hstep) trivial
    intro x c _
    push_cast
    ring
  | compare i j =>
    obtain ⟨⟨objects, result⟩, hrun, hstate⟩ := Option.map_eq_some_iff.mp hstep
    obtain ⟨lhs, hi, hrest⟩ := Option.bind_eq_some_iff.mp hrun
    obtain ⟨rhs, hj, hpair⟩ := Option.bind_eq_some_iff.mp hrest
    cases hpair
    subst hstate
    simp [Pool.Intact, Exact, Allowed, Op.meaning, show p.objects = p.created from h]

/-- In every state of a run of allowed operations, on any pool, no Decimal has
changed since it was created; a further operation leaves it so and returns
exactly what it means if and only if it is allowed. -/
theorem decimals_intact_iff_allowed
    {objects : List Decimal}
    (hreach : Transition.Reachable Pool.step Allowed (.initial objects) p) :
    p.Intact ∧ ∀ op p', p.step op = some p' →
      ((p'.Intact ∧ Exact p op p') ↔ Allowed p op) := by
  have hkept : ∀ (p : Pool) op p', p.Intact → Allowed p op → p.step op = some p' → p'.Intact :=
    fun p op p' hp hallowed hstep => ((step_iff_allowed hp hstep).mpr hallowed).1
  have hinit : (Pool.initial objects).Intact := rfl
  have hintact : p.Intact := hreach.invariant hinit hkept
  exact ⟨hintact, fun op p' hstep => step_iff_allowed hintact hstep⟩

end

def productPool : Pool where
  objects := [⟨5, 1⟩, ⟨25, 2⟩, ⟨125, 3⟩]
  created := [⟨5, 1⟩, ⟨25, 2⟩, ⟨125, 3⟩]

theorem decimals_intact_iff_allowed_product :
    productPool.Intact ∧ ∀ op p', productPool.step op = some p' →
      ((p'.Intact ∧ Exact productPool op p') ↔ Allowed productPool op) := by
  have hallowed : Allowed (.initial [⟨5, 1⟩, ⟨25, 2⟩]) (.mul 0 1) := by
    rintro lhs rhs ⟨⟩ ⟨⟩
    exact .inr (by decide)
  have hreach : Transition.Reachable Pool.step Allowed (.initial [⟨5, 1⟩, ⟨25, 2⟩]) productPool :=
    Transition.Reachable.init.step hallowed rfl
  exact decimals_intact_iff_allowed hreach

/-- 0.5 + 0.25 leaves the first operand at 5.0. -/
theorem add_changes_operand :
    (Pool.initial [⟨5, 1⟩, ⟨25, 2⟩]).step (.add 0 1) =
        some ⟨[⟨50, 1⟩, ⟨25, 2⟩, ⟨75, 2⟩], [⟨5, 1⟩, ⟨25, 2⟩, ⟨75, 2⟩]⟩ ∧
      ¬ (Pool.mk [⟨50, 1⟩, ⟨25, 2⟩, ⟨75, 2⟩] [⟨5, 1⟩, ⟨25, 2⟩, ⟨75, 2⟩]).Intact := by
  constructor
  · decide +kernel
  · unfold Pool.Intact
    decide

end Numbers
end ScyllaDriver
