import ShaderTree.Proofs.ScientificText

namespace ShaderTree

theorem abs_signed_sub_of_ne {a b : Bool} (h : a ≠ b) (p q : ℚ) :
    |signed a p - signed b q| = |p + q| := by
  cases a <;> cases b
  · exact absurd rfl h
  · exact congrArg abs (sub_neg_eq_add p q)
  · exact (congrArg abs (neg_add' p q)).symm.trans (abs_neg (p + q))
  · exact absurd rfl h

theorem signed_inj {a : Bool} {p q : ℚ} : signed a p = signed a q ↔ p = q := by
  cases a
  · exact Iff.rfl
  · exact neg_inj

/-- Binary floating-point numbers of 32 bits, as a sign and a magnitude. -/
structure Binary32 where
  negative : Bool
  magnitude : Nat
  magnitude_lt : magnitude < 0x80000000
deriving DecidableEq

namespace Binary32

def infinityMagnitude : Nat := 0x7f800000

def binade : Nat := 0x800000

def isFinite (u : Binary32) : Bool := u.magnitude < infinityMagnitude

def isNaN (u : Binary32) : Bool := infinityMagnitude < u.magnitude

/-- How often the least distance of two numbers doubles up to a magnitude. -/
def shiftOf (m : Nat) : Nat := m / binade - 1

/-- The value of a magnitude in grains of `2 ^ (-149)`. -/
def grainsOf (m : Nat) : Nat :=
  if m < binade then m else (binade + m % binade) * 2 ^ shiftOf m

/-- The value without its sign. That of the infinities is where the next number would be. -/
def size (u : Binary32) : ℚ := grainsOf u.magnitude / 2 ^ 149

def value (u : Binary32) : ℚ := signed u.negative u.size

/-- No other value is as near to the number. Beyond half the way to the infinities they are nearest,
as numbers are rounded to nearest. -/
def IsNearest (u : Binary32) (q : ℚ) : Prop :=
  u.isNaN = false ∧ ∀ w : Binary32, w.isNaN = false → w.value ≠ u.value →
    |q - u.value| < |q - w.value|

/-- A literal is read as the number nearest to what it denotes, with the sign it has. -/
def IsReadFrom (u : Binary32) (cs : List Char) : Prop :=
  (u.negative = true ↔ cs.head? = some '-') ∧ u.IsNearest (denoted cs)

def Represents (u : Binary32) (x : Binary64) : Prop :=
  u.isFinite = true ∧ u.negative = x.negative ∧ u.value = x.value

variable {u w : Binary32} {x y : Binary64} {m n : Nat}

theorem grainsOf_of_lt (h : m < binade) : grainsOf m = m := if_pos h

theorem grainsOf_binade {r : Nat} (h : r ≤ binade) (s : Nat) :
    grainsOf (binade * (s + 1) + r) = (binade + r) * 2 ^ s := by
  have hpos : 0 < binade := by decide
  have hle : ¬binade * (s + 1) + r < binade :=
    Nat.not_lt.mpr ((Nat.le_mul_of_pos_right binade (Nat.succ_pos s)).trans (Nat.le_add_right ..))
  rw [grainsOf, if_neg hle, shiftOf, Nat.mul_add_mod, Nat.mul_add_div hpos]
  obtain hlt | rfl := Nat.lt_or_eq_of_le h
  · rw [Nat.mod_eq_of_lt hlt, Nat.div_eq_of_lt hlt]
    rfl
  · rw [Nat.mod_self, Nat.div_self hpos, Nat.add_sub_cancel, pow_succ]
    ring

theorem exists_binade (h : binade ≤ m) : ∃ s r, r < binade ∧ m = binade * (s + 1) + r ∧
    shiftOf m = s := by
  have hcount : 1 ≤ m / binade := (Nat.one_le_div_iff (by decide)).mpr h
  refine ⟨m / binade - 1, m % binade, Nat.mod_lt m (by decide), ?_, rfl⟩
  rw [Nat.sub_add_cancel hcount, Nat.div_add_mod]

theorem shiftOf_of_lt (h : m < binade) : shiftOf m = 0 := by
  rw [shiftOf, Nat.div_eq_of_lt h]

theorem grainsOf_succ (m : Nat) : grainsOf (m + 1) = grainsOf m + 2 ^ shiftOf m := by
  by_cases hsmall : m < binade
  · rw [grainsOf_of_lt hsmall, shiftOf_of_lt hsmall, pow_zero]
    obtain hlt | heq : m + 1 < binade ∨ m + 1 = binade := Nat.lt_or_eq_of_le hsmall
    · exact grainsOf_of_lt hlt
    · rw [heq]
      exact grainsOf_binade (Nat.zero_le binade) 0
  · obtain ⟨s, r, hr, rfl, hshift⟩ := exists_binade (Nat.le_of_not_lt hsmall)
    have hnext : r + 1 ≤ binade := hr
    rw [hshift, Nat.add_assoc, grainsOf_binade hnext, grainsOf_binade hr.le]
    ring

theorem grainsOf_succ_le (m : Nat) : grainsOf (m + 1) ≤ 2 * binade * 2 ^ shiftOf m := by
  by_cases hsmall : m < binade
  · rw [grainsOf_succ, grainsOf_of_lt hsmall, shiftOf_of_lt hsmall]
    omega
  · obtain ⟨s, r, hr, rfl, hshift⟩ := exists_binade (Nat.le_of_not_lt hsmall)
    rw [hshift, Nat.add_assoc, grainsOf_binade hr]
    exact Nat.mul_le_mul_right _ (by omega)

theorem grainsOf_mono (h : m ≤ n) : grainsOf m ≤ grainsOf n := by
  induction h with
  | refl => exact le_rfl
  | step _ ih => exact ih.trans (grainsOf_succ _ ▸ Nat.le_add_right _ _)

/-- Two different magnitudes are apart in proportion to their values. -/
theorem grainsOf_apart (h : m < n) :
    grainsOf m < grainsOf n ∧ grainsOf n ≤ 2 * binade * (grainsOf n - grainsOf m) := by
  obtain ⟨k, rfl⟩ := Nat.exists_eq_add_one_of_ne_zero (Nat.ne_of_gt (Nat.zero_lt_of_lt h))
  have hle := grainsOf_mono (Nat.le_of_lt_succ h)
  have hsucc := grainsOf_succ k
  have hpos : 0 < 2 ^ shiftOf k := Nat.pow_pos (by decide)
  have hgap : 2 ^ shiftOf k ≤ grainsOf (k + 1) - grainsOf m := by omega
  exact ⟨by omega, (grainsOf_succ_le k).trans (Nat.mul_le_mul_left _ hgap)⟩

theorem size_nonneg (u : Binary32) : 0 ≤ u.size :=
  div_nonneg (Nat.cast_nonneg _) (by norm_num)

theorem size_lt_apart (h : u.magnitude < w.magnitude) :
    u.size < w.size ∧ w.size ≤ 2 ^ 24 * (w.size - u.size) := by
  obtain ⟨hlt, hle⟩ := grainsOf_apart h
  have hlt' : (grainsOf u.magnitude : ℚ) < grainsOf w.magnitude := Nat.cast_lt.mpr hlt
  have hle' : (grainsOf w.magnitude : ℚ) ≤
      2 ^ 24 * (grainsOf w.magnitude - grainsOf u.magnitude) := by
    have hfactor : 2 * binade = 2 ^ 24 := by decide
    rw [hfactor] at hle
    have hcast : (grainsOf w.magnitude : ℚ) ≤
        ((2 ^ 24 * (grainsOf w.magnitude - grainsOf u.magnitude) : Nat) : ℚ) := Nat.cast_le.mpr hle
    rw [Nat.cast_mul, Nat.cast_sub hlt.le] at hcast
    exact_mod_cast hcast
  have hunit : (0 : ℚ) < 2 ^ 149 := by norm_num
  rw [size, size, ← sub_div, ← mul_div_assoc]
  exact ⟨div_lt_div_of_pos_right hlt' hunit, div_le_div_of_nonneg_right hle' hunit.le⟩

theorem value_apart (h : w.value ≠ u.value) : u.size ≤ 2 ^ 24 * |u.value - w.value| := by
  by_cases hsign : u.negative = w.negative
  · have hdist : |u.value - w.value| = |u.size - w.size| := by
      rw [value, value, hsign, abs_signed_sub]
    have hne : u.magnitude ≠ w.magnitude := by
      intro heq
      exact h (by rw [value, value, hsign, size, size, heq])
    rw [hdist]
    obtain hlt | hgt := Nat.lt_or_gt_of_ne hne
    · obtain ⟨hsize, hle⟩ := size_lt_apart hlt
      rw [abs_sub_comm, abs_of_pos (sub_pos.mpr hsize)]
      exact hsize.le.trans hle
    · obtain ⟨hsize, hle⟩ := size_lt_apart hgt
      rwa [abs_of_pos (sub_pos.mpr hsize)]
  · have hu := u.size_nonneg
    have hw := w.size_nonneg
    rw [value, value, abs_signed_sub_of_ne hsign, abs_of_nonneg (add_nonneg hu hw)]
    linarith

/-- What is much closer to a number than the others are has it as the nearest. -/
theorem isNearest_of_close {q : ℚ} (hnan : u.isNaN = false)
    (h : |q - u.value| * (2 * 10 ^ 9) ≤ u.size) : u.IsNearest q := by
  refine ⟨hnan, fun w _ hne => ?_⟩
  have hapart := value_apart hne
  have hpos : 0 < |u.value - w.value| := abs_pos.mpr (sub_ne_zero.mpr hne.symm)
  have htriangle := abs_sub_le u.value q w.value
  rw [abs_sub_comm u.value q] at htriangle
  by_contra hnot
  linarith

theorem isNaN_of_isFinite (h : u.isFinite = true) : u.isNaN = false :=
  decide_eq_false (Nat.not_lt.mpr (of_decide_eq_true h).le)

theorem size_inj (h : u.size = w.size) : u.magnitude = w.magnitude := by
  obtain hlt | heq | hgt := Nat.lt_trichotomy u.magnitude w.magnitude
  · exact absurd h (size_lt_apart hlt).1.ne
  · exact heq
  · exact absurd h (size_lt_apart hgt).1.ne'

theorem IsNearest.value_eq {q : ℚ} (hu : u.IsNearest q) (hw : w.IsNearest q) :
    u.value = w.value := by
  by_contra hne
  exact lt_asymm (hu.2 w hw.1 (Ne.symm hne)) (hw.2 u hu.1 hne)

/-- A text is read as one number only. -/
theorem IsReadFrom.unique {cs : List Char} (hu : u.IsReadFrom cs) (hw : w.IsReadFrom cs) :
    u = w := by
  have hsign : u.negative = w.negative := Bool.eq_iff_iff.mpr (hu.1.trans hw.1.symm)
  have hvalue := hu.2.value_eq hw.2
  rw [value, value, hsign, signed_inj] at hvalue
  have hmagnitude := size_inj hvalue
  obtain ⟨_, _, _⟩ := u
  obtain ⟨_, _, _⟩ := w
  simp_all only

theorem represents_of_grains (hfinite : u.isFinite = true) (hsign : u.negative = x.negative)
    (h : grainsOf u.magnitude * Binary64.grainsPerUnit = x.grains * 2 ^ 149) : u.Represents x := by
  have hcross : (grainsOf u.magnitude : ℚ) * Binary64.grainsPerUnit = x.grains * 2 ^ 149 := by
    exact_mod_cast h
  have hne : (Binary64.grainsPerUnit : ℚ) ≠ 0 :=
    Nat.cast_ne_zero.mpr Binary64.grainsPerUnit_pos.ne'
  have hne' : (2 : ℚ) ^ 149 ≠ 0 := pow_ne_zero 149 two_ne_zero
  refine ⟨hfinite, hsign, ?_⟩
  rw [value, Binary64.value, hsign, signed_inj, size, Binary64.size]
  exact (div_eq_div_iff hne' hne).mpr hcross

theorem head?_glsl (h : x.isFinite = true) :
    x.glsl.toList.head? = some '-' ↔ x.negative = true := by
  obtain ⟨n, htext, hnegative, -⟩ := Binary64.exists_scientific h
  rw [htext, ← hnegative, Scientific.text, Scientific.sign]
  cases n.negative
  · refine iff_of_false (fun hhead => ?_) Bool.false_ne_true
    have hlead := n.isDigit_lead
    rw [Option.some.inj hhead] at hlead
    cases hlead
  · exact iff_of_true rfl rfl

/-- The literal is read as the number of 32 bits that it was written for. -/
theorem isReadFrom_glsl (hx : x.isFinite = true) (h : u.Represents x) :
    u.IsReadFrom x.glsl.toList := by
  obtain ⟨hfinite, hsign, hvalue⟩ := h
  have hsize : u.size = x.size := by rwa [value, Binary64.value, hsign, signed_inj] at hvalue
  refine ⟨by rw [hsign, head?_glsl hx], isNearest_of_close (isNaN_of_isFinite hfinite) ?_⟩
  rw [Binary64.denoted_glsl hx, hvalue, Binary64.value, abs_signed_sub, hsize]
  exact x.written_close

theorem eq_of_value (hx : x.isFinite = true) (hy : y.isFinite = true)
    (hsign : x.negative = y.negative) (hvalue : x.value = y.value) : x = y := by
  rw [Binary64.value, Binary64.value, hsign, signed_inj] at hvalue
  have hgrains : x.grains = y.grains :=
    Nat.le_antisymm (Binary64.size_le_iff.mp hvalue.le) (Binary64.size_le_iff.mp hvalue.ge)
  have hmagnitude : x.magnitude = y.magnitude := by
    rw [← Binary64.nearestMagnitude_grainsOf (of_decide_eq_true hx),
      ← Binary64.nearestMagnitude_grainsOf (of_decide_eq_true hy)]
    exact congrArg (Binary64.nearestMagnitude · Binary64.grainsPerUnit) hgrains
  obtain ⟨_, _, _⟩ := x
  obtain ⟨_, _, _⟩ := y
  simp_all only

theorem glsl_ordered (hx : x.isFinite = true) (hy : y.isFinite = true) (hu : u.Represents x)
    (hw : w.Represents y) : (x.glsl = y.glsl → x = y) ∧
      (x.value < y.value ↔ denoted x.glsl.toList < denoted y.glsl.toList) := by
  have hreadx := isReadFrom_glsl hx hu
  have hready := isReadFrom_glsl hy hw
  constructor
  · intro hsame
    rw [hsame] at hreadx
    obtain rfl := hreadx.unique hready
    exact eq_of_value hx hy (hu.2.1.symm.trans hw.2.1) (hu.2.2.symm.trans hw.2.2)
  · constructor
    · intro hlt
      refine lt_of_le_of_ne (Binary64.denoted_mono hx hy hlt.le) fun hsame => hlt.ne ?_
      rw [← hu.2.2, ← hw.2.2]
      exact (hsame ▸ hreadx.2).value_eq hready.2
    · exact fun hlt => lt_of_not_ge fun hge => hlt.not_ge (Binary64.denoted_mono hy hx hge)

theorem exists_grainsOf_normal {n s : Nat} (hlow : Binary64.binade ≤ n)
    (hhigh : n < 2 * Binary64.binade) (hs : s < 2045) :
    ∃ m < Binary64.infinityMagnitude, Binary64.grainsOf m = n * Nat.pow 2 s := by
  have hpos : 0 < Binary64.binade := by decide
  have hrest : n - Binary64.binade < Binary64.binade := by omega
  have hle : ¬Binary64.binade * (s + 1) + (n - Binary64.binade) < Binary64.binade :=
    Nat.not_lt.mpr
      ((Nat.le_mul_of_pos_right Binary64.binade (Nat.succ_pos s)).trans (Nat.le_add_right ..))
  refine ⟨Binary64.binade * (s + 1) + (n - Binary64.binade), ?_, ?_⟩
  · calc Binary64.binade * (s + 1) + (n - Binary64.binade)
        < Binary64.binade * (s + 1) + Binary64.binade := Nat.add_lt_add_left hrest _
      _ = Binary64.binade * (s + 2) := (Nat.mul_succ ..).symm
      _ ≤ Binary64.binade * 2047 := Nat.mul_le_mul_left _ (by omega)
      _ = Binary64.infinityMagnitude := rfl
  · rw [Binary64.grainsOf, if_neg hle, Nat.mul_add_mod, Nat.mul_add_div hpos,
      Nat.mod_eq_of_lt hrest, Nat.div_eq_of_lt hrest, Nat.add_sub_cancel' hlow]
    rfl

/-- A number of at most 24 bits times a power of two is a value of 64 bits. -/
theorem exists_grainsOf {f t : Nat} (hf : f < 2 ^ 24) (hlow : 52 ≤ t) (hhigh : t < 2000) :
    ∃ m < Binary64.infinityMagnitude, Binary64.grainsOf m = f * Nat.pow 2 t := by
  by_cases hzero : f = 0
  · exact ⟨0, by decide, by rw [hzero, Nat.zero_mul]; exact if_pos (by decide)⟩
  -- the bits are moved up until the leading one is in its place
  have hlog : f.log2 < 24 := (Nat.log2_lt hzero).mpr hf
  obtain ⟨hleast, hmost⟩ := (Nat.log2_eq_iff hzero).mp rfl
  have hpos : 0 < 2 ^ (52 - f.log2) := Nat.pow_pos (by decide)
  have hbinade : Binary64.binade = 2 ^ f.log2 * 2 ^ (52 - f.log2) := by
    rw [← pow_add, show f.log2 + (52 - f.log2) = 52 by omega]
    rfl
  have hmoved : f * Nat.pow 2 t = f * 2 ^ (52 - f.log2) * Nat.pow 2 (t - (52 - f.log2)) := by
    rw [Nat.mul_assoc]
    change f * 2 ^ t = f * (2 ^ (52 - f.log2) * 2 ^ (t - (52 - f.log2)))
    rw [← pow_add, show 52 - f.log2 + (t - (52 - f.log2)) = t by omega]
  rw [hmoved]
  refine exists_grainsOf_normal ?_ ?_ (by omega)
  · rw [hbinade]
    exact Nat.mul_le_mul_right _ hleast
  · rw [hbinade, ← Nat.mul_assoc, ← pow_succ']
    exact Nat.mul_lt_mul_of_pos_right hmost hpos

theorem exists_significand (m : Nat) : ∃ f < 2 ^ 24, grainsOf m = f * 2 ^ shiftOf m := by
  by_cases hsmall : m < binade
  · refine ⟨m, hsmall.trans (by decide), ?_⟩
    rw [grainsOf_of_lt hsmall, shiftOf_of_lt hsmall, pow_zero, Nat.mul_one]
  · obtain ⟨s, r, hr, rfl, hshift⟩ := exists_binade (Nat.le_of_not_lt hsmall)
    refine ⟨binade + r, (Nat.add_lt_add_left hr binade).trans_eq (by decide), ?_⟩
    rw [hshift, grainsOf_binade hr.le]

/-- Every number of 32 bits is one of 64 bits. -/
theorem exists_represented (h : u.isFinite = true) : ∃ x : Binary64, x.isFinite = true ∧
    u.Represents x := by
  obtain ⟨f, hf, hgrains⟩ := exists_significand u.magnitude
  have hshift : shiftOf u.magnitude < 254 := by
    have hlt : u.magnitude < 255 * binade := of_decide_eq_true h
    have hdiv : u.magnitude / binade < 255 := (Nat.div_lt_iff_lt_mul (by decide)).mpr hlt
    rw [shiftOf]
    omega
  -- a grain of 32 bits is that many doublings of one of 64 bits
  obtain ⟨doublings, hdoublings⟩ : ∃ k, k = 925 := ⟨_, rfl⟩
  have hunit : Binary64.grainsPerUnit = 2 ^ doublings * 2 ^ 149 := by
    rw [hdoublings]
    decide +kernel
  obtain ⟨m, hm, hgrains'⟩ := exists_grainsOf (t := shiftOf u.magnitude + doublings) hf (by omega)
    (by omega)
  have hmagnitude : m < 0x8000000000000000 := hm.trans (by decide)
  have hpow : Nat.pow 2 (shiftOf u.magnitude + doublings) =
      2 ^ shiftOf u.magnitude * 2 ^ doublings :=
    Nat.pow_add 2 (shiftOf u.magnitude) doublings
  have hregroup (a b c d : Nat) : a * b * (c * d) = a * (b * c) * d := by ring
  refine ⟨⟨u.negative, m, hmagnitude⟩, decide_eq_true hm, represents_of_grains h rfl ?_⟩
  rw [Binary64.grains, hgrains', hgrains, hunit, hpow, hregroup]

/-- The literal of a number of 64 bits that is one of 32 bits is read as this number. Such numbers
have different literals, which denote decimals in the order of the numbers, and every finite number
of 32 bits has a literal that is read as no other. -/
theorem glsl_exact :
    (∀ (x : Binary64) (u : Binary32), x.isFinite = true → u.Represents x →
      u.IsReadFrom x.glsl.toList) ∧
    (∀ (x y : Binary64) (u w : Binary32), x.isFinite = true → y.isFinite = true →
      u.Represents x → w.Represents y → (x.glsl = y.glsl → x = y) ∧
        (x.value < y.value ↔ denoted x.glsl.toList < denoted y.glsl.toList)) ∧
    ∀ u : Binary32, u.isFinite = true → ∃ x : Binary64, x.isFinite = true ∧ u.Represents x ∧
      ∀ w : Binary32, w.IsReadFrom x.glsl.toList ↔ w = u := by
  refine ⟨fun x u hx hu => isReadFrom_glsl hx hu,
    fun x y u w hx hy hu hw => glsl_ordered hx hy hu hw, fun u hfinite => ?_⟩
  obtain ⟨x, hx, hu⟩ := exists_represented hfinite
  have hread := isReadFrom_glsl hx hu
  refine ⟨x, hx, hu, fun w => ⟨fun hw => hw.unique hread, ?_⟩⟩
  rintro rfl
  exact hread

def least : Binary32 := ⟨true, 1, by decide⟩

def wideLeast : Binary64 := ⟨true, 0x36a0000000000000, by decide⟩

def tenth : Binary32 := ⟨false, 0x3dcccccd, by decide⟩

def wideTenth : Binary64 := ⟨false, 0x3fb99999a0000000, by decide⟩

theorem least_and_tenth_exact :
    (wideLeast.isFinite = true ∧ least.Represents wideLeast ∧
      least.IsReadFrom wideLeast.glsl.toList) ∧
    (wideTenth.isFinite = true ∧ tenth.Represents wideTenth ∧
      (wideLeast.glsl = wideTenth.glsl → wideLeast = wideTenth) ∧
      (wideLeast.value < wideTenth.value ↔
        denoted wideLeast.glsl.toList < denoted wideTenth.glsl.toList)) ∧
    tenth.isFinite = true ∧ ∃ x : Binary64, x.isFinite = true ∧ tenth.Represents x ∧
      ∀ w : Binary32, w.IsReadFrom x.glsl.toList ↔ w = tenth := by
  have hleast : least.Represents wideLeast :=
    represents_of_grains (by decide) rfl (by decide +kernel)
  have htenth : tenth.Represents wideTenth :=
    represents_of_grains (by decide) rfl (by decide +kernel)
  have hfinite : wideLeast.isFinite = true := by decide
  have hfinite' : wideTenth.isFinite = true := by decide
  have hordered := glsl_exact.2.1 wideLeast wideTenth least tenth hfinite hfinite' hleast htenth
  exact ⟨⟨hfinite, hleast, glsl_exact.1 wideLeast least hfinite hleast⟩,
    ⟨hfinite', htenth, hordered⟩, htenth.1, glsl_exact.2.2 tenth htenth.1⟩

example : wideLeast.glsl = "-1.401298464e-45" ∧ wideTenth.glsl = "1.000000015e-01" := by
  decide +kernel

end Binary32

end ShaderTree
