import Mathlib
import ShaderTree.Glsl.Literal
import ShaderTree.Proofs.GlslGrammar

namespace ShaderTree

theorem nearestNat_mono {m n : Nat} (h : m ≤ n) (den : Nat) :
    nearestNat m den ≤ nearestNat n den := by
  have hdiv : m / den ≤ n / den := Nat.div_le_div_right h
  obtain hlt | heq := Nat.lt_or_eq_of_le hdiv
  · calc nearestNat m den ≤ m / den + 1 := nearestNat_le m den
      _ ≤ n / den := hlt
      _ ≤ nearestNat n den := le_nearestNat n den
  · have hm := Nat.div_add_mod m den
    have hn := Nat.div_add_mod n den
    rw [heq] at hm
    have hmod : m % den ≤ n % den := by omega
    unfold nearestNat
    rw [heq]
    dsimp only
    split_ifs <;> omega

theorem nearestNat_tie {num den : Nat} (hpos : 0 < den)
    (h : 2 * (nearestNat num den * den) = 2 * num + den ∨
      2 * num = 2 * (nearestNat num den * den) + den) : nearestNat num den % 2 = 0 := by
  have hdiv := Nat.div_add_mod num den
  have hmod := Nat.mod_lt num hpos
  rw [Nat.mul_comm] at hdiv
  unfold nearestNat at h ⊢
  dsimp only at h ⊢
  split_ifs at h ⊢ with hbelow habove
  · omega
  · rw [Nat.add_mul] at h
    omega
  · omega

theorem nearestNat_dist {num den : Nat} (hpos : 0 < den) :
    |(nearestNat num den : ℚ) - num / den| ≤ 1 / 2 ∧
      (|(nearestNat num den : ℚ) - num / den| = 1 / 2 → nearestNat num den % 2 = 0) := by
  obtain ⟨habove, hbelow⟩ := nearestNat_near num den hpos
  have htie := @nearestNat_tie num den hpos
  generalize nearestNat num den = n at habove hbelow htie ⊢
  have hden : (0 : ℚ) < den := Nat.cast_pos.mpr hpos
  have hscaled : ((n : ℚ) - num / den) * (2 * den) = 2 * (n * den) - 2 * num := by
    field_simp
  constructor
  · have habove' : (2 * (n * den) : ℚ) ≤ 2 * num + den := by exact_mod_cast habove
    have hbelow' : (2 * num : ℚ) ≤ 2 * (n * den) + den := by exact_mod_cast hbelow
    rw [abs_le]
    constructor <;> nlinarith
  · intro hhalf
    apply htie
    obtain h | h := eq_or_eq_neg_of_abs_eq hhalf <;> rw [h] at hscaled
    · left
      have hq : (2 * (n * den) : ℚ) = 2 * num + den := by linarith
      exact_mod_cast hq
    · right
      have hq : (2 * num : ℚ) = 2 * (n * den) + den := by linarith
      exact_mod_cast hq

def signed (negative : Bool) (q : ℚ) : ℚ := if negative then -q else q

theorem abs_signed_sub (negative : Bool) (p q : ℚ) :
    |signed negative p - signed negative q| = |p - q| := by
  cases negative
  · rfl
  · exact (congrArg abs (neg_sub_neg p q)).trans (abs_sub_comm q p)

theorem ten_zpow_pos (k : ℤ) : (0 : ℚ) < 10 ^ k := zpow_pos (by decide) k

theorem ten_zpow_add (a b : ℤ) : (10 : ℚ) ^ (a + b) = 10 ^ a * 10 ^ b :=
  zpow_add₀ (by decide) a b

theorem ten_zpow_le {a b : ℤ} (h : a ≤ b) : (10 : ℚ) ^ a ≤ 10 ^ b :=
  zpow_le_zpow_right₀ (by decide) h

theorem ten_pow_add (m n : Nat) : Nat.pow 10 (m + n) = Nat.pow 10 m * Nat.pow 10 n :=
  Nat.pow_add 10 m n

theorem cast_ten_pow (n : Nat) : ((Nat.pow 10 n : Nat) : ℚ) = 10 ^ (n : ℤ) := by
  rw [zpow_natCast]
  exact Nat.cast_pow 10 n

def Decimal.value (d : Decimal) : ℚ := d.digits * 10 ^ d.exponent

namespace Grid

def value (g : Grid) : ℚ := g.num / g.den * 10 ^ g.exponent

theorem digits_rounded (g : Grid) : g.rounded.digits = nearestNat g.num g.den := rfl

/-- The nearest point of a grid is at most half a step away, and even at that distance. -/
theorem rounded_near {g : Grid} (hden : 0 < g.den) :
    |g.rounded.value - g.value| ≤ 10 ^ g.exponent / 2 ∧
      (|g.rounded.value - g.value| = 10 ^ g.exponent / 2 → g.rounded.digits % 2 = 0) := by
  have hstep := ten_zpow_pos g.exponent
  have hdist : |g.rounded.value - g.value| =
      |(g.rounded.digits : ℚ) - g.num / g.den| * 10 ^ g.exponent := by
    rw [Decimal.value, value, rounded, ← sub_mul, abs_mul, abs_of_pos hstep]
  have hhalf : (10 : ℚ) ^ g.exponent / 2 = 1 / 2 * 10 ^ g.exponent := by ring
  obtain ⟨hnear, htie⟩ := @nearestNat_dist g.num g.den hden
  rw [hdist, hhalf]
  exact ⟨mul_le_mul_of_nonneg_right hnear hstep.le,
    fun h => htie (mul_right_cancel₀ hstep.ne' h)⟩

theorem rounded_between {g : Grid} {a b : Nat} (hden : 0 < g.den) (hlow : a * g.den ≤ g.num)
    (hhigh : g.num < b * g.den) : a ≤ g.rounded.digits ∧ g.rounded.digits ≤ b := by
  constructor
  · exact ((Nat.le_div_iff_mul_le hden).mpr hlow).trans (le_nearestNat g.num g.den)
  · exact (nearestNat_le g.num g.den).trans ((Nat.div_lt_iff_lt_mul hden).mpr hhigh)

end Grid

namespace Binary64

variable {x y : Binary64}

/-- The value of a finite number without its sign. -/
def size (x : Binary64) : ℚ := x.grains / grainsPerUnit

def value (x : Binary64) : ℚ := signed x.negative x.size

theorem gridAt_value (x : Binary64) (place n : Nat) : (x.gridAt place n).value = x.size := by
  have hpow : (10 : ℚ) ^ ((323 + n : Nat) : ℤ) = 10 ^ (place : ℤ) * 10 ^ (323 + n - place : ℤ) := by
    rw [← ten_zpow_add]
    congr 1
    omega
  have hone : (10 : ℚ) ^ (323 + n - place : ℤ) * 10 ^ ((place : ℤ) - 323 - n) = 1 := by
    rw [← ten_zpow_add, show (323 + n - place + (place - 323 - n) : ℤ) = 0 by omega, zpow_zero]
  have hplace := (ten_zpow_pos place).ne'
  have hunit : (grainsPerUnit : ℚ) ≠ 0 := Nat.cast_ne_zero.mpr grainsPerUnit_pos.ne'
  rw [Grid.value, gridAt, size, Nat.cast_mul, Nat.cast_mul, cast_ten_pow, cast_ten_pow, hpow]
  generalize (10 : ℚ) ^ (323 + n - place : ℤ) = up at hone
  generalize (10 : ℚ) ^ ((place : ℤ) - 323 - n) = down at hone
  calc (x.grains * (10 ^ (place : ℤ) * up) / (grainsPerUnit * 10 ^ (place : ℤ)) * down : ℚ)
      = x.grains / grainsPerUnit * (up * down) := by field_simp
    _ = x.grains / grainsPerUnit := by rw [hone, mul_one]

theorem grid_value (x : Binary64) (n : Nat) : (x.grid n).value = x.size :=
  gridAt_value x x.leadingPlace n

theorem grains_eq_zero_iff : x.grains = 0 ↔ x.magnitude = 0 := by
  constructor
  · intro h
    by_contra hne
    exact (grainsOf_pos hne).ne' h
  · intro h
    rw [grains, h]
    exact if_pos (by decide)

theorem toDigits_length_bounds {n : Nat} (hn : n ≠ 0) :
    Nat.pow 10 ((Nat.toDigits 10 n).length - 1) ≤ n ∧
      n < Nat.pow 10 (Nat.toDigits 10 n).length := by
  have hlength : 0 < (Nat.toDigits 10 n).length := Nat.length_toDigits_pos
  have hle {k : Nat} (hk : 0 < k) : (Nat.toDigits 10 n).length ≤ k ↔ n < Nat.pow 10 k :=
    Nat.length_toDigits_le_iff (by decide) hk
  refine ⟨?_, (hle hlength).mp le_rfl⟩
  obtain hone | hmore := Nat.eq_or_lt_of_le hlength
  · rw [← hone]
    exact Nat.one_le_iff_ne_zero.mpr hn
  · exact Nat.le_of_not_lt fun hlt => by
      have := (hle (Nat.sub_pos_of_lt hmore)).mpr hlt
      omega

theorem leadingPlace_bounds (hne : x.magnitude ≠ 0) :
    Nat.pow 10 x.leadingPlace * grainsPerUnit ≤ x.grains * Nat.pow 10 324 ∧
      x.grains * Nat.pow 10 324 < Nat.pow 10 (x.leadingPlace + 1) * grainsPerUnit := by
  have hunit : grainsPerUnit ≤ Nat.pow 10 324 := by decide +kernel
  have hgrain : Nat.pow 10 324 ≤ x.grains * Nat.pow 10 324 :=
    Nat.le_mul_of_pos_left _ (grainsOf_pos hne)
  have hpos : 0 < x.grains * Nat.pow 10 324 / grainsPerUnit :=
    Nat.div_pos (hunit.trans hgrain) grainsPerUnit_pos
  obtain ⟨hlow, hhigh⟩ := toDigits_length_bounds hpos.ne'
  have hlength : x.leadingPlace + 1 =
      (Nat.toDigits 10 (x.grains * Nat.pow 10 324 / grainsPerUnit)).length :=
    Nat.sub_add_cancel Nat.length_toDigits_pos
  rw [← hlength] at hhigh
  exact ⟨(Nat.le_div_iff_mul_le grainsPerUnit_pos).mp hlow,
    (Nat.div_lt_iff_lt_mul grainsPerUnit_pos).mp hhigh⟩

theorem leadingPlace_mono (hx : x.magnitude ≠ 0) (hy : y.magnitude ≠ 0)
    (h : x.grains ≤ y.grains) : x.leadingPlace ≤ y.leadingPlace := by
  have hlt := (leadingPlace_bounds hx).1.trans_lt
    ((Nat.mul_le_mul_right _ h).trans_lt (leadingPlace_bounds hy).2)
  have hpow := Nat.lt_of_mul_lt_mul_right hlt
  exact Nat.le_of_lt_succ ((Nat.pow_lt_pow_iff_right (by decide)).mp hpow)

theorem grid_num (x : Binary64) (n : Nat) :
    (x.grid (n + 1)).num = Nat.pow 10 n * (x.grains * Nat.pow 10 324) := by
  obtain ⟨places, hplaces⟩ : ∃ places, places = 324 := ⟨_, rfl⟩
  have hexponent : 323 + (n + 1) = n + places := by omega
  rw [grid, gridAt, hexponent, ← hplaces, ten_pow_add, Nat.mul_left_comm]

theorem grid_den (x : Binary64) (n : Nat) :
    (x.grid n).den = Nat.pow 10 x.leadingPlace * grainsPerUnit :=
  Nat.mul_comm grainsPerUnit (Nat.pow 10 x.leadingPlace)

theorem grid_exponent (x : Binary64) (n : Nat) :
    (x.grid n).exponent = (x.leadingPlace : ℤ) - 323 - n := rfl

theorem grid_den_pos (x : Binary64) (n : Nat) : 0 < (x.grid n).den := by
  rw [grid_den]
  exact Nat.mul_pos (Nat.pow_pos (by decide)) grainsPerUnit_pos

/-- On its grid of `n + 1` digits the value lies between two neighbouring powers of ten. -/
theorem grid_bounds (hne : x.magnitude ≠ 0) (n : Nat) :
    Nat.pow 10 n * (x.grid (n + 1)).den ≤ (x.grid (n + 1)).num ∧
      (x.grid (n + 1)).num < Nat.pow 10 (n + 1) * (x.grid (n + 1)).den := by
  have hregroup (a b c d : Nat) : a * c * (b * d) = a * (b * c * d) := by ring
  have hnext : Nat.pow 10 (n + 1) * (x.grid (n + 1)).den =
      Nat.pow 10 n * (Nat.pow 10 (x.leadingPlace + 1) * grainsPerUnit) := by
    rw [grid_den, ten_pow_add, ten_pow_add x.leadingPlace, hregroup]
  obtain ⟨hlow, hhigh⟩ := leadingPlace_bounds hne
  rw [hnext, grid_num, grid_den]
  exact ⟨Nat.mul_le_mul_left _ hlow, Nat.mul_lt_mul_of_pos_left hhigh (Nat.pow_pos (by decide))⟩

theorem rounded_bounds (hne : x.magnitude ≠ 0) (n : Nat) :
    Nat.pow 10 n ≤ (x.grid (n + 1)).rounded.digits ∧
      (x.grid (n + 1)).rounded.digits ≤ Nat.pow 10 (n + 1) :=
  Grid.rounded_between (grid_den_pos x (n + 1)) (grid_bounds hne n).1 (grid_bounds hne n).2

def written (x : Binary64) : Decimal := ⟨Parser.natural x.tenDigits.1, x.tenDigits.2 - 9⟩

/-- Ten digits are kept of the nearest decimal. It has more of them when rounding carries beyond the
leading digit, and the digit that is left out is then a zero. -/
theorem tenDigits_spec (hne : x.magnitude ≠ 0) :
    x.tenDigits.1.length = 10 ∧ x.tenDigits.1.head? ≠ some '0' ∧
      (x.written = (x.grid 10).rounded ∨ (x.grid 10).rounded.digits = Nat.pow 10 10 ∧
        x.written = ⟨Nat.pow 10 9, (x.grid 10).exponent + 1⟩) := by
  obtain ⟨hlow, hhigh⟩ := rounded_bounds hne 9
  have hexponent : (x.grid 10).rounded.exponent = (x.grid 10).exponent := rfl
  have hten : x.tenDigits = ((Nat.toDigits 10 (x.grid 10).rounded.digits).take 10,
      (x.grid 10).rounded.leadingExponent) := if_neg fun hzero => hne (eq_of_beq hzero)
  rw [written, hten]
  generalize (x.grid 10).rounded = d at hlow hhigh hexponent ⊢
  have hpos : 0 < d.digits := Nat.lt_of_lt_of_le (by decide) hlow
  have hwidth : d.width = (Nat.toDigits 10 d.digits).length := if_neg hpos.ne'
  rw [Decimal.leadingExponent, hwidth]
  obtain hlt | heq := Nat.lt_or_eq_of_le hhigh
  · have hlength : (Nat.toDigits 10 d.digits).length = 10 := by
      obtain ⟨-, hplaces⟩ := toDigits_length_bounds hpos.ne'
      have hmost := (Nat.length_toDigits_le_iff (by decide) (by decide)).mpr hlt
      have hleast := (Nat.pow_lt_pow_iff_right (by decide)).mp (hlow.trans_lt hplaces)
      omega
    rw [List.take_of_length_le hlength.le, Parser.natural_toDigits, hlength]
    refine ⟨rfl, Glsl.head?_toDigits_ne hpos, Or.inl ?_⟩
    obtain ⟨digits, exponent⟩ := d
    refine (Decimal.mk.injEq ..).mpr ⟨rfl, ?_⟩
    dsimp only
    omega
  · have hdigits : Nat.toDigits 10 d.digits = '1' :: List.replicate 10 '0' := by
      have hcarry := Decimal.toDigits_mul_pow (n := 1) (by decide) 10
      rwa [Nat.one_mul, ← heq] at hcarry
    have hkept : List.take 10 ('1' :: List.replicate 10 '0') = '1' :: List.replicate 9 '0' := rfl
    have hnatural : Parser.natural ('1' :: List.replicate 9 '0') = Nat.pow 10 9 := by decide
    rw [hdigits, hkept]
    refine ⟨rfl, by simp, Or.inr ⟨heq, (Decimal.mk.injEq ..).mpr ⟨hnatural, ?_⟩⟩⟩
    rw [hexponent, List.length_cons, List.length_replicate]
    omega

theorem tenDigits_of_eq (hzero : x.magnitude = 0) : x.tenDigits = (List.replicate 10 '0', 0) :=
  if_pos (beq_iff_eq.mpr hzero)

theorem written_of_eq (hzero : x.magnitude = 0) : x.written = ⟨0, -9⟩ := by
  have hnatural : Parser.natural (List.replicate 10 '0') = 0 := by decide
  rw [written, tenDigits_of_eq hzero, hnatural]
  rfl

theorem written_value_of_eq (hzero : x.magnitude = 0) : x.written.value = 0 := by
  rw [written_of_eq hzero, Decimal.value, Nat.cast_zero, zero_mul]

theorem size_of_eq (hzero : x.magnitude = 0) : x.size = 0 := by
  rw [size, grains_eq_zero_iff.mpr hzero, Nat.cast_zero, zero_div]

theorem written_value (hne : x.magnitude ≠ 0) : x.written.value = (x.grid 10).rounded.value := by
  obtain ⟨-, -, hsame | ⟨hdigits, hcarry⟩⟩ := tenDigits_spec hne
  · rw [hsame]
  · have hexponent : (x.grid 10).rounded.exponent = (x.grid 10).exponent := rfl
    have hshift : ((9 : Nat) : ℤ) + ((x.grid 10).exponent + 1) =
        (10 : Nat) + (x.grid 10).exponent := by omega
    rw [hcarry, Decimal.value, Decimal.value, hdigits, hexponent, cast_ten_pow, cast_ten_pow,
      ← ten_zpow_add, ← ten_zpow_add, hshift]

theorem le_size (hne : x.magnitude ≠ 0) : 10 ^ 9 * 10 ^ (x.grid 10).exponent ≤ x.size := by
  have hden : (0 : ℚ) < (x.grid 10).den := Nat.cast_pos.mpr (grid_den_pos x 10)
  have hlow : (10 ^ 9 * (x.grid 10).den : ℚ) ≤ (x.grid 10).num := by
    exact_mod_cast (grid_bounds hne 9).1
  rw [← grid_value x 10, Grid.value]
  exact mul_le_mul_of_nonneg_right ((le_div_iff₀ hden).mpr hlow) (ten_zpow_pos _).le

theorem rounded_value_bounds (hne : x.magnitude ≠ 0) :
    10 ^ 9 * 10 ^ (x.grid 10).exponent ≤ (x.grid 10).rounded.value ∧
      (x.grid 10).rounded.value ≤ 10 ^ 10 * 10 ^ (x.grid 10).exponent := by
  obtain ⟨hlow, hhigh⟩ := rounded_bounds hne 9
  have hstep := ten_zpow_pos (x.grid 10).exponent
  have hlow' : (10 ^ 9 : ℚ) ≤ (x.grid 10).rounded.digits := by exact_mod_cast hlow
  have hhigh' : ((x.grid 10).rounded.digits : ℚ) ≤ 10 ^ 10 := by exact_mod_cast hhigh
  exact ⟨mul_le_mul_of_nonneg_right hlow' hstep.le, mul_le_mul_of_nonneg_right hhigh' hstep.le⟩

theorem written_near_grid (hne : x.magnitude ≠ 0) :
    |x.written.value - x.size| ≤ 10 ^ (x.grid 10).exponent / 2 ∧
      (|x.written.value - x.size| = 10 ^ (x.grid 10).exponent / 2 →
        (x.grid 10).rounded.digits % 2 = 0) := by
  rw [written_value hne, ← grid_value x 10]
  exact Grid.rounded_near (grid_den_pos x 10)

/-- The decimal that is written is at most half a unit of its last digit away, and that digit is
even at this distance. -/
theorem written_near (x : Binary64) :
    |x.written.value - x.size| ≤ 10 ^ x.written.exponent / 2 ∧
      (|x.written.value - x.size| = 10 ^ x.written.exponent / 2 → x.written.digits % 2 = 0) := by
  by_cases hzero : x.magnitude = 0
  · rw [written_value_of_eq hzero, size_of_eq hzero, sub_zero, abs_zero, written_of_eq hzero]
    exact ⟨(half_pos (ten_zpow_pos (-9))).le, fun _ => rfl⟩
  · have hnear := written_near_grid hzero
    obtain ⟨-, -, hsame | ⟨-, hcarry⟩⟩ := tenDigits_spec hzero
    · have hexponent : x.written.exponent = (x.grid 10).exponent := by rw [hsame]; rfl
      rwa [← hsame, ← hexponent] at hnear
    · have hexponent : x.written.exponent = (x.grid 10).exponent + 1 := by rw [hcarry]
      have hdigits : x.written.digits = Nat.pow 10 9 := by rw [hcarry]
      have hstep : (10 : ℚ) ^ (x.grid 10).exponent ≤ 10 ^ x.written.exponent :=
        ten_zpow_le (by omega)
      refine ⟨hnear.1.trans (by linarith), fun _ => ?_⟩
      rw [hdigits]

theorem written_close (x : Binary64) : |x.written.value - x.size| * (2 * 10 ^ 9) ≤ x.size := by
  by_cases hzero : x.magnitude = 0
  · rw [written_value_of_eq hzero, size_of_eq hzero, sub_zero, abs_zero, zero_mul]
  · have hnear := (written_near_grid hzero).1
    have hsize := le_size hzero
    linarith

theorem written_nonneg (x : Binary64) : 0 ≤ x.written.value :=
  mul_nonneg (Nat.cast_nonneg _) (ten_zpow_pos _).le

/-- With more places in front of it a number has a decimal beyond the power of ten that bounds the
other. -/
theorem rounded_value_of_lt (hx : x.magnitude ≠ 0) (hy : y.magnitude ≠ 0)
    (h : x.leadingPlace < y.leadingPlace) :
    (x.grid 10).rounded.value ≤ (y.grid 10).rounded.value := by
  have hplaces : (x.grid 10).exponent + 1 ≤ (y.grid 10).exponent := by
    rw [grid_exponent, grid_exponent]
    omega
  calc (x.grid 10).rounded.value ≤ 10 ^ 10 * 10 ^ (x.grid 10).exponent :=
        (rounded_value_bounds hx).2
    _ = 10 ^ 9 * 10 ^ ((x.grid 10).exponent + 1) := by rw [ten_zpow_add]; ring
    _ ≤ 10 ^ 9 * 10 ^ (y.grid 10).exponent :=
        mul_le_mul_of_nonneg_left (ten_zpow_le hplaces) (by norm_num)
    _ ≤ (y.grid 10).rounded.value := (rounded_value_bounds hy).1

theorem rounded_value_of_eq (h : x.leadingPlace = y.leadingPlace) (hle : x.grains ≤ y.grains) :
    (x.grid 10).rounded.value ≤ (y.grid 10).rounded.value := by
  have hexponent : (x.grid 10).exponent = (y.grid 10).exponent := by
    rw [grid_exponent, grid_exponent, h]
  have hden : (x.grid 10).den = (y.grid 10).den := by rw [grid_den, grid_den, h]
  have hnum : (x.grid 10).num ≤ (y.grid 10).num := Nat.mul_le_mul_right _ hle
  have hdigits : (x.grid 10).rounded.digits ≤ (y.grid 10).rounded.digits := by
    rw [Grid.digits_rounded, Grid.digits_rounded, hden]
    exact nearestNat_mono hnum (y.grid 10).den
  rw [Decimal.value, Decimal.value, Grid.rounded, Grid.rounded, hexponent]
  exact mul_le_mul_of_nonneg_right (Nat.cast_le.mpr hdigits) (ten_zpow_pos _).le

theorem written_mono (h : x.grains ≤ y.grains) : x.written.value ≤ y.written.value := by
  by_cases hx : x.magnitude = 0
  · rw [written_value_of_eq hx]
    exact written_nonneg y
  have hy : y.magnitude ≠ 0 := by
    intro hy
    rw [grains_eq_zero_iff.mpr hy] at h
    exact hx (grains_eq_zero_iff.mp (Nat.le_zero.mp h))
  rw [written_value hx, written_value hy]
  obtain hlt | heq := Nat.lt_or_eq_of_le (leadingPlace_mono hx hy h)
  · exact rounded_value_of_lt hx hy hlt
  · exact rounded_value_of_eq heq h

end Binary64

end ShaderTree
