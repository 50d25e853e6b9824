namespace ShaderTree

/-- The natural number nearest to the quotient, a tie going to the even one. -/
def nearestNat (num den : Nat) : Nat :=
  let twice := 2 * (num % den)
  if twice < den then num / den
  else if den < twice then num / den + 1
  else num / den + num / den % 2

theorem nearestNat_of_dvd {num den : Nat} (hpos : 0 < den) (h : den ∣ num) :
    nearestNat num den = num / den := by
  simp [nearestNat, Nat.mod_eq_zero_of_dvd h, hpos]

theorem le_nearestNat (num den : Nat) : num / den ≤ nearestNat num den := by
  unfold nearestNat
  dsimp only
  split
  · exact Nat.le_refl _
  · split <;> omega

theorem nearestNat_le (num den : Nat) : nearestNat num den ≤ num / den + 1 := by
  unfold nearestNat
  dsimp only
  split
  · omega
  · split <;> omega

/-- The distance to the quotient is at most one half, in multiples of `1 / (2 * den)`. -/
theorem nearestNat_near (num den : Nat) (hpos : 0 < den) :
    2 * (nearestNat num den * den) ≤ 2 * num + den ∧
      2 * num ≤ 2 * (nearestNat num den * den) + den := by
  have hdiv := Nat.div_add_mod num den
  have hmod := Nat.mod_lt num hpos
  rw [Nat.mul_comm] at hdiv
  unfold nearestNat
  dsimp only
  split
  · omega
  · split
    · rw [Nat.add_mul]; omega
    · have htie : 2 * (num % den) = den := by omega
      rcases Nat.mod_two_eq_zero_or_one (num / den) with h | h <;> rw [h, Nat.add_mul] <;> omega

end ShaderTree
