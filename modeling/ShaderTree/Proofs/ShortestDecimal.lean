import ShaderTree.Number.Significant

namespace ShaderTree

theorem nearestNat_mul_right (num den : Nat) {c : Nat} (hc : 0 < c) :
    nearestNat (num * c) (den * c) = nearestNat num den := by
  have hdiv : num * c / (den * c) = num / den := Nat.mul_div_mul_right num den hc
  have hmod : num * c % (den * c) = num % den * c := Nat.mul_mod_mul_right c num den
  have htwice : 2 * (num % den * c) = 2 * (num % den) * c := (Nat.mul_assoc ..).symm
  simp only [nearestNat, hdiv, hmod, htwice, Nat.mul_lt_mul_right hc]

namespace Binary64

theorem nearestMagnitude_mul_right (num den : Nat) {c : Nat} (hc : 0 < c) :
    nearestMagnitude (num * c) (den * c) = nearestMagnitude num den := by
  have hnum : num * c * grainsPerUnit = num * grainsPerUnit * c := Nat.mul_right_comm ..
  have hden (s : Nat) : den * c * s = den * s * c := Nat.mul_right_comm ..
  simp only [nearestMagnitude, hnum, hden, Nat.mul_div_mul_right _ _ hc,
    nearestNat_mul_right _ _ hc]

/-- Equal quotients have the same nearest number. -/
theorem nearestMagnitude_congr {num den num' den' : Nat} (hden : 0 < den) (hden' : 0 < den')
    (h : num * den' = num' * den) : nearestMagnitude num den = nearestMagnitude num' den' := by
  rw [← nearestMagnitude_mul_right num den hden', ← nearestMagnitude_mul_right num' den' hden, h,
    Nat.mul_comm den den']

theorem grainsPerUnit_pos : 0 < grainsPerUnit := by decide +kernel

theorem grainsOf_pos {m : Nat} (hm : m ≠ 0) : 0 < grainsOf m := by
  rw [grainsOf]
  split
  · omega
  · exact Nat.mul_pos (Nat.add_pos_left (by decide) _) (Nat.pow_pos (by decide))

theorem grainsOf_lt {m n : Nat} (hm : m < (n + 1) * binade) :
    grainsOf m < 2 * binade * Nat.pow 2 (n - 1) := by
  have hbinade : 0 < binade := by decide
  have hpos : 0 < Nat.pow 2 (n - 1) := Nat.pow_pos (by decide)
  rw [grainsOf]
  split
  next hsmall =>
    have : 2 * binade ≤ 2 * binade * Nat.pow 2 (n - 1) := Nat.le_mul_of_pos_right _ hpos
    omega
  next =>
    have hmod : m % binade < binade := Nat.mod_lt m hbinade
    have hdiv : m / binade < n + 1 := (Nat.div_lt_iff_lt_mul hbinade).mpr hm
    have hstep : Nat.pow 2 (m / binade - 1) ≤ Nat.pow 2 (n - 1) :=
      Nat.pow_le_pow_right (by decide) (by omega)
    calc (binade + m % binade) * Nat.pow 2 (m / binade - 1)
        ≤ (binade + m % binade) * Nat.pow 2 (n - 1) := Nat.mul_le_mul_left _ hstep
      _ < 2 * binade * Nat.pow 2 (n - 1) := Nat.mul_lt_mul_of_pos_right (by omega) hpos

theorem log2_grains (r : Nat) (hr : r < binade) (s : Nat) :
    ((binade + r) * Nat.pow 2 s).log2 = 52 + s := by
  have hpos : 0 < Nat.pow 2 s := Nat.pow_pos (by decide)
  have hlow : binade * Nat.pow 2 s ≤ (binade + r) * Nat.pow 2 s :=
    Nat.mul_le_mul_right _ (Nat.le_add_right _ _)
  have hhigh : (binade + r) * Nat.pow 2 s < binade * 2 * Nat.pow 2 s :=
    Nat.mul_lt_mul_of_pos_right (by omega) hpos
  have hne : (binade + r) * Nat.pow 2 s ≠ 0 := by
    have : 0 < binade := by decide
    exact Nat.ne_of_gt (Nat.mul_pos (by omega) hpos)
  refine (Nat.log2_eq_iff hne).mpr ⟨?_, ?_⟩
  · calc 2 ^ (52 + s) = binade * Nat.pow 2 s := Nat.pow_add 2 52 s
      _ ≤ _ := hlow
  · calc _ < binade * 2 * Nat.pow 2 s := hhigh
      _ = 2 ^ (52 + s + 1) := by
        rw [Nat.add_right_comm 52 s 1]
        exact (Nat.pow_add 2 53 s).symm

theorem rounded_grainsOf_of_lt {m : Nat} (hm : m < binade) :
    ((grainsOf m).log2 - 52) * binade +
      nearestNat (grainsOf m) (Nat.pow 2 ((grainsOf m).log2 - 52)) = m := by
  have hgrains : grainsOf m = m := if_pos hm
  have hlog : m.log2 - 52 = 0 := by
    by_cases hzero : m = 0
    · rw [hzero]
      rfl
    · have : m.log2 < 52 := (Nat.log2_lt hzero).mpr hm
      omega
  rw [hgrains, hlog, Nat.zero_mul, Nat.zero_add]
  exact (nearestNat_of_dvd (by decide) ⟨m, (Nat.one_mul m).symm⟩).trans (Nat.div_one m)

/-- The exponent counts the binades, and the values of a binade are whole multiples of its step. -/
theorem rounded_grainsOf_of_le {m : Nat} (hm : binade ≤ m) :
    ((grainsOf m).log2 - 52) * binade +
      nearestNat (grainsOf m) (Nat.pow 2 ((grainsOf m).log2 - 52)) = m := by
  have hbinade : 0 < binade := by decide
  have hgrains : grainsOf m = (binade + m % binade) * Nat.pow 2 (m / binade - 1) :=
    if_neg (Nat.not_lt_of_le hm)
  have hshift : (grainsOf m).log2 - 52 = m / binade - 1 := by
    rw [hgrains, log2_grains _ (Nat.mod_lt m hbinade)]
    omega
  have hstep : 0 < Nat.pow 2 (m / binade - 1) := Nat.pow_pos (by decide)
  have hsignificand : nearestNat (grainsOf m) (Nat.pow 2 (m / binade - 1)) =
      binade + m % binade := by
    rw [hgrains, nearestNat_of_dvd hstep (Nat.dvd_mul_left ..), Nat.mul_div_cancel _ hstep]
  have hcount : 1 ≤ m / binade := (Nat.one_le_div_iff hbinade).mpr hm
  rw [hshift, hsignificand]
  calc (m / binade - 1) * binade + (binade + m % binade)
      = (m / binade - 1 + 1) * binade + m % binade := by
        rw [Nat.add_mul, Nat.one_mul, Nat.add_assoc]
    _ = binade * (m / binade) + m % binade := by rw [Nat.sub_add_cancel hcount, Nat.mul_comm]
    _ = m := Nat.div_add_mod m binade

/-- The number nearest to the value of a finite number is the number. -/
theorem nearestMagnitude_grainsOf {m : Nat} (hm : m < infinityMagnitude) :
    nearestMagnitude (grainsOf m) grainsPerUnit = m := by
  have hquot : grainsOf m * grainsPerUnit / grainsPerUnit = grainsOf m :=
    Nat.mul_div_cancel _ grainsPerUnit_pos
  have hnearest (s : Nat) : nearestNat (grainsOf m * grainsPerUnit) (grainsPerUnit * s) =
      nearestNat (grainsOf m) s := by
    rw [Nat.mul_comm grainsPerUnit s, nearestNat_mul_right _ _ grainsPerUnit_pos]
  simp only [nearestMagnitude, hquot, hnearest]
  by_cases hsmall : m < binade
  · rw [rounded_grainsOf_of_lt hsmall, if_pos hm]
  · rw [rounded_grainsOf_of_le (Nat.le_of_not_lt hsmall), if_pos hm]

end Binary64

namespace Decimal

def padded (d : Decimal) (m : Nat) : Decimal := ⟨d.digits * Nat.pow 10 m, d.exponent - m⟩

theorem leadingExponent_bounds {d : Decimal} {a b : Nat} (hlow : Nat.pow 10 a ≤ d.digits)
    (hhigh : d.digits < Nat.pow 10 b) :
    d.exponent + a ≤ d.leadingExponent ∧ d.leadingExponent < d.exponent + b := by
  have hne : d.digits ≠ 0 := Nat.ne_of_gt (Nat.lt_of_lt_of_le (Nat.pow_pos (by decide)) hlow)
  have hpos : 0 < d.width := by
    rw [width, if_neg hne]
    exact Nat.length_toDigits_pos
  have hle {n : Nat} (hn : 0 < n) : d.width ≤ n ↔ d.digits < Nat.pow 10 n := by
    rw [width, if_neg hne]
    exact Nat.length_toDigits_le_iff (by decide) hn
  have ha : a < d.width := by
    by_cases hzero : a = 0
    · rwa [hzero]
    · exact Nat.lt_of_not_le fun h => Nat.not_lt_of_le hlow ((hle (by omega)).mp h)
  have hb : d.width ≤ b := by
    by_cases hzero : b = 0
    · rw [hzero] at hhigh
      exact absurd (Nat.lt_one_iff.mp hhigh) hne
    · exact (hle (by omega)).mpr hhigh
  rw [leadingExponent]
  omega

theorem toDigits_mul_pow {n : Nat} (hn : 0 < n) (m : Nat) :
    Nat.toDigits 10 (n * Nat.pow 10 m) = Nat.toDigits 10 n ++ List.replicate m '0' := by
  induction m with
  | zero => rw [show Nat.pow 10 0 = 1 from rfl, Nat.mul_one, List.replicate_zero, List.append_nil]
  | succ m ih =>
    have hpos : 0 < n * Nat.pow 10 m := Nat.mul_pos hn (Nat.pow_pos (by decide))
    have hsucc : n * Nat.pow 10 (m + 1) = 10 * (n * Nat.pow 10 m) + 0 := by
      rw [Nat.add_zero, Nat.mul_left_comm]
      exact congrArg (n * ·) (Nat.pow_succ'.trans rfl)
    rw [hsucc, ← Nat.toDigits_append_toDigits (by decide) hpos (by decide), ih, Nat.toDigits_zero,
      List.replicate_succ', List.append_assoc]

theorem leadingExponent_padded (d : Decimal) (hd : d.digits ≠ 0) (m : Nat) :
    (d.padded m).leadingExponent = d.leadingExponent := by
  have hpos : 0 < d.digits := Nat.pos_of_ne_zero hd
  have hne : d.digits * Nat.pow 10 m ≠ 0 :=
    Nat.ne_of_gt (Nat.mul_pos hpos (Nat.pow_pos (by decide)))
  have hwidth : (d.padded m).width = d.width + m := by
    unfold width padded
    rw [if_neg hne, if_neg hd, toDigits_mul_pow hpos, List.length_append, List.length_replicate]
  unfold leadingExponent
  rw [hwidth, padded]
  dsimp only
  omega

theorem nearestMagnitude_padded (d : Decimal) (m : Nat) :
    (d.padded m).nearestMagnitude = d.nearestMagnitude := by
  by_cases hd : d.digits = 0
  · have hzero : (d.padded m).digits = 0 := by rw [padded, hd, Nat.zero_mul]
    rw [nearestMagnitude, nearestMagnitude, if_pos (Or.inl hzero), if_pos (Or.inl hd)]
  · have hten (n : Nat) : 0 < Nat.pow 10 n := Nat.pow_pos (by decide)
    have hne : (d.padded m).digits ≠ 0 :=
      Nat.ne_of_gt (Nat.mul_pos (Nat.pos_of_ne_zero hd) (hten m))
    simp only [nearestMagnitude, leadingExponent_padded d hd, hd, hne, false_or]
    have hexponents : m + (d.exponent - m).toNat + (-d.exponent).toNat =
        d.exponent.toNat + (-(d.exponent - m)).toNat := by omega
    have hpow (a b : Nat) : Nat.pow 10 a * Nat.pow 10 b = Nat.pow 10 (a + b) :=
      (Nat.pow_add 10 a b).symm
    have hvalue : d.digits * Nat.pow 10 m * Nat.pow 10 (d.exponent - m).toNat *
          Nat.pow 10 (-d.exponent).toNat =
        d.digits * Nat.pow 10 d.exponent.toNat * Nat.pow 10 (-(d.exponent - m)).toNat := by
      simp only [Nat.mul_assoc, hpow]
      rw [hexponents]
    have hquot := Binary64.nearestMagnitude_congr (hten _) (hten _) hvalue
    simp only [padded, hquot]

end Decimal

namespace Binary64

theorem leadingExponent_exactly (x : Binary64) (hfin : x.isFinite = true) (hne : x.magnitude ≠ 0) :
    -330 ≤ x.exactly.leadingExponent ∧ x.exactly.leadingExponent < 310 := by
  have hscale {a f low : Nat} (hlow : low ≤ f) (ha : 0 < a) : low ≤ a * f :=
    Nat.le_trans hlow (Nat.le_mul_of_pos_left f ha)
  have hbound {a f g high : Nat} (hg : a < g) (hf : 0 < f) (hhigh : g * f ≤ high) : a * f < high :=
    Nat.lt_of_lt_of_le (Nat.mul_lt_mul_of_pos_right hg hf) hhigh
  have hlt := grainsOf_lt (n := 2046) (of_decide_eq_true hfin)
  have hlow : Nat.pow 10 744 ≤ x.exactly.digits :=
    hscale (by decide +kernel) (grainsOf_pos hne)
  have hhigh : x.exactly.digits < Nat.pow 10 1384 :=
    hbound hlt (by decide +kernel) (by decide +kernel)
  have hbounds := Decimal.leadingExponent_bounds hlow hhigh
  have hexponent : x.exactly.exponent = -1074 := rfl
  omega

theorem nearestMagnitude_exactly (x : Binary64) (hfin : x.isFinite = true) (hne : x.magnitude ≠ 0) :
    x.exactly.nearestMagnitude = x.magnitude := by
  obtain ⟨hlow, hhigh⟩ := leadingExponent_exactly x hfin hne
  have hdigits : x.exactly.digits ≠ 0 :=
    Nat.ne_of_gt (Nat.mul_pos (grainsOf_pos hne) (by decide +kernel))
  -- a power of ten is the powers of two and of five, and that of two is the unit
  have hquot (g : Nat) {five ten : Nat} (hten : 0 < ten) (h : five * grainsPerUnit = ten) :
      nearestMagnitude (g * five) ten = nearestMagnitude g grainsPerUnit := by
    apply nearestMagnitude_congr hten grainsPerUnit_pos
    rw [Nat.mul_assoc, h]
  have hpow : Nat.pow 10 x.exactly.exponent.toNat = 1 := rfl
  have hplaces : (-x.exactly.exponent).toNat = 1074 := rfl
  rw [Decimal.nearestMagnitude, if_neg (not_or.mpr ⟨hdigits, by omega⟩), if_neg (by omega), hpow,
    Nat.mul_one, hplaces]
  refine (hquot x.grains ?_ ?_).trans (nearestMagnitude_grainsOf (of_decide_eq_true hfin))
  · decide +kernel
  · decide +kernel

/-- The shortest decimal reads back as the number. -/
theorem nearestMagnitude_shortest (x : Binary64) (hfin : x.isFinite = true)
    (hne : x.magnitude ≠ 0) : x.shortest.nearestMagnitude = x.magnitude := by
  unfold shortest
  dsimp only
  generalize x.leadingPlace = place
  cases hfound : (List.range' 1 17).findSome? fun n => x.neighbour? (x.gridAt place n) with
  | none => exact nearestMagnitude_exactly x hfin hne
  | some d =>
    obtain ⟨n, _, hn⟩ := List.exists_of_findSome?_eq_some hfound
    exact eq_of_beq (isReadBy_of_neighbour? hn)

theorem digits_shortest (x : Binary64) (hfin : x.isFinite = true) (hne : x.magnitude ≠ 0) :
    x.shortest.digits ≠ 0 := by
  intro hzero
  have h := nearestMagnitude_shortest x hfin hne
  rw [Decimal.nearestMagnitude, if_pos (Or.inl hzero)] at h
  exact hne h.symm

end Binary64

end ShaderTree
