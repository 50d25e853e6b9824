import ShaderTree.Proofs.TenDigits

namespace ShaderTree

def signedInt : List Char → ℤ
  | '-' :: ds => -(Parser.natural ds : ℤ)
  | '+' :: ds => Parser.natural ds
  | ds => Parser.natural ds

/-- The number denoted by digits with a point among them and an exponent of ten behind. -/
def denoted (cs : List Char) : ℚ :=
  let mantissa := cs.takeWhile (· != 'e')
  let exponent := (cs.dropWhile (· != 'e')).drop 1
  let whole := mantissa.takeWhile (· != '.')
  let places := (mantissa.dropWhile (· != '.')).drop 1
  signedInt (whole ++ places) * 10 ^ (signedInt exponent - places.length)

theorem signedInt_minus (ds : List Char) : signedInt ('-' :: ds) = -(Parser.natural ds : ℤ) := rfl

theorem signedInt_digit {c : Char} {cs : List Char} (hc : c.isDigit = true) :
    signedInt (c :: cs) = Parser.natural (c :: cs) := by
  unfold signedInt
  split
  next h =>
    rw [(List.cons.inj h).1] at hc
    exact absurd hc (by decide)
  next h =>
    rw [(List.cons.inj h).1] at hc
    exact absurd hc (by decide)
  next => rfl

theorem splits_at {mark : Char} {front : List Char} (h : ∀ c ∈ front, (c != mark) = true)
    (back : List Char) : (front ++ mark :: back).takeWhile (· != mark) = front ∧
      (front ++ mark :: back).dropWhile (· != mark) = mark :: back := by
  have hmark : ¬(fun c : Char => c != mark) mark = true := by simp
  constructor
  · rw [List.takeWhile_append_of_pos h, List.takeWhile_cons_of_neg (p := (· != mark)) hmark,
      List.append_nil]
  · rw [List.dropWhile_append_of_pos h, List.dropWhile_cons_of_neg (p := (· != mark)) hmark]

/-- The parts of a number in scientific form. -/
structure Scientific where
  negative : Bool
  lead : Char
  places : List Char
  exponentNegative : Bool
  exponentDigits : List Char
  isDigit_lead : lead.isDigit = true
  isDigit_places : ∀ c ∈ places, c.isDigit = true
  length_places : places.length = 9
  isDigit_exponent : ∀ c ∈ exponentDigits, c.isDigit = true
  length_exponent : 2 ≤ exponentDigits.length
  /-- More than two digits are none too many. -/
  head_exponent : 2 < exponentDigits.length → exponentDigits.head? ≠ some '0'

namespace Scientific

def sign (n : Scientific) : List Char := if n.negative then ['-'] else []

def exponentSign (n : Scientific) : Char := if n.exponentNegative then '-' else '+'

def text (n : Scientific) : List Char :=
  n.sign ++ (n.lead :: '.' :: n.places ++ 'e' :: n.exponentSign :: n.exponentDigits)

def digits (n : Scientific) : Nat := Parser.natural (n.lead :: n.places)

def exponent (n : Scientific) : ℤ :=
  if n.exponentNegative then -(Parser.natural n.exponentDigits : ℤ)
  else Parser.natural n.exponentDigits

def unit (n : Scientific) : ℚ := 10 ^ (n.exponent - 9)

theorem sign_ne (n : Scientific) {mark : Char} (hmark : mark ≠ '-') :
    ∀ c ∈ n.sign, (c != mark) = true := by
  intro c hc
  rw [sign] at hc
  split at hc
  · rw [List.mem_singleton.mp hc]
    exact bne_iff_ne.mpr hmark.symm
  · cases hc

theorem digit_ne {c mark : Char} (hc : c.isDigit = true) (hmark : mark.isDigit = false) :
    (c != mark) = true := by
  refine bne_iff_ne.mpr fun h => ?_
  rw [h, hmark] at hc
  cases hc

theorem signedInt_digits (n : Scientific) : (signedInt (n.sign ++ n.lead :: n.places) : ℚ) =
    signed n.negative n.digits := by
  rw [sign, signed]
  split
  · rw [List.singleton_append, signedInt_minus, Int.cast_neg, Int.cast_natCast]
    rfl
  · rw [List.nil_append, signedInt_digit n.isDigit_lead, Int.cast_natCast]
    rfl

theorem signedInt_exponent (n : Scientific) :
    signedInt (n.exponentSign :: n.exponentDigits) = n.exponent := by
  rw [exponent, exponentSign]
  split <;> rfl

theorem denoted_text (n : Scientific) :
    denoted n.text = signed n.negative (n.digits * n.unit) := by
  have htext : n.text = (n.sign ++ n.lead :: '.' :: n.places) ++
      'e' :: n.exponentSign :: n.exponentDigits := (List.append_assoc ..).symm
  have hmantissa : n.sign ++ n.lead :: '.' :: n.places = (n.sign ++ [n.lead]) ++ '.' :: n.places :=
    List.append_cons ..
  have hfront : ∀ c ∈ n.sign ++ n.lead :: '.' :: n.places, (c != 'e') = true := by
    simp only [List.forall_mem_append, List.forall_mem_cons]
    exact ⟨n.sign_ne (by decide), digit_ne n.isDigit_lead rfl, rfl,
      fun c hc => digit_ne (n.isDigit_places c hc) rfl⟩
  have hwhole : ∀ c ∈ n.sign ++ [n.lead], (c != '.') = true := by
    rw [List.forall_mem_append, List.forall_mem_singleton]
    exact ⟨n.sign_ne (by decide), digit_ne n.isDigit_lead rfl⟩
  obtain ⟨htake, hdrop⟩ := splits_at hfront (n.exponentSign :: n.exponentDigits)
  obtain ⟨htake', hdrop'⟩ := splits_at hwhole n.places
  rw [denoted, htext, htake, hdrop, hmantissa, htake', hdrop', List.drop_one, List.drop_one,
    List.tail_cons, List.tail_cons, List.append_assoc, List.singleton_append, signedInt_digits,
    signedInt_exponent, n.length_places, unit, signed, signed]
  split
  · exact neg_mul _ _
  · rfl

example : denoted "-2.50e-1".toList = -1 / 4 := by decide +kernel

end Scientific

theorem natural_exponentDigits (n : Nat) : Parser.natural (exponentDigits n) = n := by
  rw [exponentDigits, Decimal.natural_zeros_append, Parser.natural_toDigits]

theorem two_le_length_exponentDigits (n : Nat) : 2 ≤ (exponentDigits n).length := by
  rw [exponentDigits, List.length_append, List.length_replicate]
  omega

theorem head?_exponentDigits_ne {n : Nat} (h : 2 < (exponentDigits n).length) :
    (exponentDigits n).head? ≠ some '0' := by
  rw [exponentDigits, List.length_append, List.length_replicate] at h
  have hlong : 2 < (Nat.toDigits 10 n).length := by omega
  have hpos : 0 < n := by
    refine Nat.pos_of_ne_zero fun hzero => ?_
    rw [hzero] at hlong
    exact absurd hlong (by decide)
  rw [exponentDigits, Nat.sub_eq_zero_of_le hlong.le, List.replicate_zero, List.nil_append]
  exact Glsl.head?_toDigits_ne hpos

namespace Binary64

variable {x y : Binary64}

theorem length_tenDigits (x : Binary64) : x.tenDigits.1.length = 10 := by
  by_cases hzero : x.magnitude = 0
  · rw [tenDigits_of_eq hzero, List.length_replicate]
  · exact (tenDigits_spec hzero).1

theorem head?_tenDigits_iff (x : Binary64) : x.tenDigits.1.head? = some '0' ↔ x.isZero = true := by
  by_cases hzero : x.magnitude = 0
  · rw [tenDigits_of_eq hzero]
    exact iff_of_true rfl (beq_iff_eq.mpr hzero)
  · exact iff_of_false (tenDigits_spec hzero).2.1 fun h => hzero (beq_iff_eq.mp h)

/-- The text of a finite number is in scientific form. -/
theorem exists_scientific (h : x.isFinite = true) : ∃ n : Scientific,
    x.glsl.toList = n.text ∧ n.negative = x.negative ∧ n.lead :: n.places = x.tenDigits.1 ∧
      n.exponent = x.tenDigits.2 := by
  obtain ⟨c, cs, hcs⟩ := Glsl.exists_tenDigits x
  have hdigits := Glsl.isDigit_tenDigits x
  have hlength := length_tenDigits x
  rw [hcs, List.forall_mem_cons] at hdigits
  rw [hcs, List.length_cons, Nat.add_right_cancel_iff] at hlength
  refine ⟨⟨x.negative, c, cs, decide (x.tenDigits.2 < 0), exponentDigits x.tenDigits.2.natAbs,
    hdigits.1, hdigits.2, hlength, Glsl.isDigit_exponentDigits _, two_le_length_exponentDigits _,
    head?_exponentDigits_ne⟩, ?_, rfl, hcs.symm, ?_⟩
  · have hnan : ¬x.isNaN = true := fun hnan =>
      Nat.lt_asymm (of_decide_eq_true h) (of_decide_eq_true hnan)
    rw [Glsl.glsl_eq hnan, if_pos h, String.toList_append, Glsl.toList_magnitudeText hcs,
      exponentText, Scientific.text, Scientific.sign, Scientific.exponentSign]
    simp only [decide_eq_true_eq]
    cases x.negative <;> rfl
  · rw [Scientific.exponent]
    simp only [decide_eq_true_eq, natural_exponentDigits]
    split <;> omega

/-- What the text denotes is the decimal of ten digits with the sign of the number. -/
theorem denoted_glsl (h : x.isFinite = true) :
    denoted x.glsl.toList = signed x.negative x.written.value := by
  obtain ⟨n, htext, hnegative, hdigits, hexponent⟩ := exists_scientific h
  rw [htext, n.denoted_text, hnegative, Scientific.digits, hdigits, Scientific.unit, hexponent]
  rfl

theorem size_nonneg (x : Binary64) : 0 ≤ x.size :=
  div_nonneg (Nat.cast_nonneg _) (Nat.cast_nonneg _)

theorem size_le_iff : x.size ≤ y.size ↔ x.grains ≤ y.grains := by
  have hunit : (0 : ℚ) < grainsPerUnit := Nat.cast_pos.mpr grainsPerUnit_pos
  rw [size, size, div_le_div_iff_of_pos_right hunit, Nat.cast_le]

theorem written_value_of_size (h : x.size = 0) : x.written.value = 0 := by
  have hunit : (grainsPerUnit : ℚ) ≠ 0 := Nat.cast_ne_zero.mpr grainsPerUnit_pos.ne'
  have hgrains : x.grains = 0 := Nat.cast_eq_zero.mp ((div_eq_zero_iff.mp h).resolve_right hunit)
  exact written_value_of_eq (grains_eq_zero_iff.mp hgrains)

theorem signed_written_mono (h : x.value ≤ y.value) :
    signed x.negative x.written.value ≤ signed y.negative y.written.value := by
  have hx := x.size_nonneg
  have hy := y.size_nonneg
  have hx' := x.written_nonneg
  have hy' := y.written_nonneg
  rw [value, value] at h
  cases hsx : x.negative <;> cases hsy : y.negative <;>
    simp only [signed, hsx, hsy, Bool.false_eq_true, if_true, if_false] at h ⊢
  · exact written_mono (size_le_iff.mp h)
  · rw [written_value_of_size (by linarith), written_value_of_size (by linarith), neg_zero]
  · linarith
  · exact neg_le_neg (written_mono (size_le_iff.mp (neg_le_neg_iff.mp h)))

theorem denoted_mono (hx : x.isFinite = true) (hy : y.isFinite = true) (h : x.value ≤ y.value) :
    denoted x.glsl.toList ≤ denoted y.glsl.toList := by
  rw [denoted_glsl hx, denoted_glsl hy]
  exact signed_written_mono h

/-- A finite number is written as the decimal nearest to it in scientific form with nine places, at
a tie as the one with an even last place, and the decimals are in the order of the numbers. -/
theorem glsl_rounded_and_ordered :
    (∀ x : Binary64, x.isFinite = true → ∃ n : Scientific, x.glsl.toList = n.text ∧
      n.negative = x.negative ∧ (n.lead = '0' ↔ x.isZero = true) ∧
      |denoted x.glsl.toList - x.value| ≤ n.unit / 2 ∧
      (|denoted x.glsl.toList - x.value| = n.unit / 2 → n.digits % 2 = 0)) ∧
    ∀ x y : Binary64, x.isFinite = true → y.isFinite = true → x.value ≤ y.value →
      denoted x.glsl.toList ≤ denoted y.glsl.toList := by
  constructor
  · intro x hx
    obtain ⟨n, htext, hnegative, hdigits, hexponent⟩ := exists_scientific hx
    have hnear := x.written_near
    have hunit : n.unit = 10 ^ x.written.exponent := by rw [Scientific.unit, hexponent]; rfl
    have hwritten : n.digits = x.written.digits := by rw [Scientific.digits, hdigits]; rfl
    have hlead : n.lead = '0' ↔ x.isZero = true := by
      rw [← head?_tenDigits_iff, ← hdigits, List.head?_cons, Option.some.injEq]
    refine ⟨n, htext, hnegative, hlead, ?_⟩
    rw [denoted_glsl hx, value, abs_signed_sub, hunit, hwritten]
    exact hnear
  · exact fun x y hx hy h => denoted_mono hx hy h

/-- The value `9999999999.5`, at a tie that carries into a new digit. -/
def carried : Binary64 := ⟨false, 0x4202a05f1ffc0000, by decide⟩

/-- The value `10000000005`, at a tie as well. -/
def truncated : Binary64 := ⟨false, 0x4202a05f20280000, by decide⟩

theorem carried_and_truncated_written :
    carried.isFinite = true ∧ truncated.isFinite = true ∧ carried.value ≤ truncated.value ∧
      (∃ n : Scientific, carried.glsl.toList = n.text ∧ n.negative = carried.negative ∧
        (n.lead = '0' ↔ carried.isZero = true) ∧
        |denoted carried.glsl.toList - carried.value| ≤ n.unit / 2 ∧
        (|denoted carried.glsl.toList - carried.value| = n.unit / 2 → n.digits % 2 = 0)) ∧
      denoted carried.glsl.toList ≤ denoted truncated.glsl.toList := by
  have hcarried : carried.isFinite = true := by decide
  have htruncated : truncated.isFinite = true := by decide
  have hgrains : carried.grains ≤ truncated.grains := by decide +kernel
  have hle : carried.value ≤ truncated.value := size_le_iff.mpr hgrains
  exact ⟨hcarried, htruncated, hle, glsl_rounded_and_ordered.1 carried hcarried,
    glsl_rounded_and_ordered.2 carried truncated hcarried htruncated hle⟩

example : carried.glsl = "1.000000000e+10" ∧ truncated.glsl = "1.000000000e+10" := by
  decide +kernel

end Binary64

end ShaderTree
