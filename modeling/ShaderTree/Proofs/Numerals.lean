import ShaderTree.Listing.Literal
import ShaderTree.Listing.Number
import ShaderTree.Proofs.Reading
import ShaderTree.Proofs.ShortestDecimal

namespace ShaderTree

namespace Parser

variable {r : List Char}

theorem isDigit_toDigits (n : Nat) : ∀ c ∈ Nat.toDigits 10 n, c.isDigit = true :=
  fun _ hc => Nat.isDigit_of_mem_toDigits (by decide) (by decide) hc

theorem digits_done {ds : List Char} (hne : ds ≠ []) (hall : ∀ c ∈ ds, c.isDigit = true)
    (hr : Ends Char.isDigit r) : digits (ds ++ r) = .done ds r :=
  span_done hne hall hr

theorem digits_toDigits (n : Nat) (hr : Ends Char.isDigit r) :
    digits (Nat.toDigits 10 n ++ r) = .done (Nat.toDigits 10 n) r :=
  digits_done Nat.toDigits_ne_nil (isDigit_toDigits n) hr

theorem natural_toDigits (n : Nat) : natural (Nat.toDigits 10 n) = n :=
  Nat.ofDigitChars_ten_toDigits

theorem index_done (i : UInt64) (hr : Ends Char.isDigit r) :
    index ((toString i.toNat).toList ++ r) = .done i r := by
  rw [Nat.toString_eq_repr, Nat.toList_repr]
  refine accept_done (a := i.toNat) ?_ ?_
  · rw [bind_done (digits_toDigits i.toNat hr), natural_toDigits]
    rfl
  · rw [uint64?, dif_pos i.toNat_lt_size, UInt64.ofNatLT_toNat]

theorem toList_toString (n : Int) :
    (toString n).toList = (if n < 0 then ['-'] else []) ++ Nat.toDigits 10 n.natAbs := by
  cases n with
  | ofNat n =>
    have hpos : ¬Int.ofNat n < 0 := Int.not_lt.mpr (Int.natCast_nonneg n)
    rw [if_neg hpos]
    exact Nat.toList_repr
  | negSucc n =>
    rw [if_pos (Int.negSucc_lt_zero n)]
    have htext : toString (Int.negSucc n) = "-" ++ (n + 1).repr := rfl
    rw [htext, String.toList_append, Nat.toList_repr]
    rfl

theorem signed_natAbs (n : Int) :
    (if n < 0 then -(natural (Nat.toDigits 10 n.natAbs) : Int)
      else natural (Nat.toDigits 10 n.natAbs)) = n := by
  rw [natural_toDigits]
  split <;> omega

theorem bound_done (i : Int32) (hr : Ends Char.isDigit r) :
    bound ((toString i.toInt).toList ++ r) = .done i r := by
  have hrange : int32? i.toInt = some i := by
    have hlow := i.le_toInt
    have hhigh := i.toInt_lt
    rw [int32?, if_pos (by omega), Int32.ofInt_toInt]
  refine accept_done (a := i.toInt) ?_ hrange
  rw [toList_toString, List.append_assoc]
  have hvalue := signed_natAbs i.toInt
  by_cases hneg : i.toInt < 0
  · rw [if_pos hneg] at hvalue ⊢
    rw [List.singleton_append, bind_done (optional_done symbol_done),
      bind_done (digits_toDigits _ hr)]
    exact congrArg (Outcome.done · r) hvalue
  · rw [if_neg hneg] at hvalue ⊢
    have hminus : Declines (symbol '-') (Nat.toDigits 10 i.toInt.natAbs ++ r) :=
      declines_symbol (head?_append_ne Nat.toDigits_ne_nil (isDigit_toDigits _) (by decide))
    rw [List.nil_append, bind_done hminus.optional_eq, bind_done (digits_toDigits _ hr)]
    exact congrArg (Outcome.done · r) hvalue

def pointed : List Char → List Char
  | [] => []
  | c :: cs => '.' :: c :: cs

theorem places_done {whole fraction : List Char} (hne : whole ≠ [])
    (hwhole : ∀ c ∈ whole, c.isDigit = true) (hfraction : ∀ c ∈ fraction, c.isDigit = true)
    (hr : Ends Char.isDigit r) (hpoint : fraction = [] → r.head? ≠ some '.') :
    places (whole ++ (pointed fraction ++ r)) = .done (ofPlaces whole fraction) r := by
  apply orElse_done
  cases fraction with
  | nil =>
    have hnone : Declines Parser.fraction r := (declines_symbol (hpoint rfl)).bind
    have htext : pointed [] ++ r = r := rfl
    rw [htext, bind_done (digits_done hne hwhole hr), bind_done hnone.optional_eq]
    rfl
  | cons c cs =>
    have hdot : Ends Char.isDigit (pointed (c :: cs) ++ r) := ends_cons rfl
    have hspan : digits (c :: cs ++ r) = .done (c :: cs) r :=
      digits_done (List.cons_ne_nil c cs) hfraction hr
    have hbehind : Parser.fraction (pointed (c :: cs) ++ r) = .done (c :: cs) r := by
      rw [Parser.fraction, pointed, List.cons_append, bind_done symbol_done,
        bind_done (optional_done hspan)]
      rfl
    rw [bind_done (digits_done hne hwhole hdot), bind_done (optional_done hbehind)]
    rfl

theorem sign_minus : sign ('-' :: r) = .done true r := by
  have hplus : Declines (symbol '+') ('-' :: r) := declines_symbol (by simp)
  have hminus : (do symbol '-'; pure true : Parser Bool) ('-' :: r) = .done true r :=
    bind_done symbol_done
  exact bind_done (optional_done (hplus.bind.orElse_eq.trans hminus))

theorem sign_none (hplus : r.head? ≠ some '+') (hminus : r.head? ≠ some '-') :
    sign r = .done false r := by
  have hneither : Declines (orElse (do symbol '+'; pure false) (do symbol '-'; pure true)) r :=
    (declines_symbol hplus).bind.orElse (declines_symbol hminus).bind
  exact bind_done hneither.optional_eq

theorem sign_done (minus : Prop) [Decidable minus] {ds : List Char} (hne : ds ≠ [])
    (hall : ∀ c ∈ ds, c.isDigit = true) :
    sign ((if minus then ['-'] else []) ++ (ds ++ r)) = .done (decide minus) (ds ++ r) := by
  by_cases h : minus
  · rw [if_pos h, decide_eq_true h]
    exact sign_minus
  · rw [if_neg h, decide_eq_false h]
    have hhead {c : Char} (hc : c.isDigit = false) : (ds ++ r).head? ≠ some c :=
      head?_append_ne hne hall hc
    exact sign_none (hhead (by decide)) (hhead (by decide))

theorem exponent_done (k : Int) (hr : Ends Char.isDigit r) :
    exponent ('e' :: ((toString k).toList ++ r)) = .done k r := by
  have hmark : (orElse (symbol 'e') (symbol 'E')) ('e' :: ((toString k).toList ++ r)) =
      .done () ((toString k).toList ++ r) := orElse_done symbol_done
  have hsign := sign_done (k < 0) (r := r) Nat.toDigits_ne_nil (isDigit_toDigits k.natAbs)
  rw [exponent, bind_done hmark, toList_toString, List.append_assoc, bind_done hsign,
    bind_done (commit_done (digits_toDigits _ hr))]
  simp only [decide_eq_true_eq, signed_natAbs]
  rfl

end Parser

/-- The spelling of a number without its sign: digits, and behind them a point with more digits or
an exponent of ten or both. -/
structure Numeral where
  whole : List Char
  fraction : List Char
  exponent : Option Int
  whole_ne : whole ≠ []
  isDigit_whole : ∀ c ∈ whole, c.isDigit = true
  isDigit_fraction : ∀ c ∈ fraction, c.isDigit = true
  marked : fraction ≠ [] ∨ exponent ≠ none

namespace Numeral

def exponentText : Option Int → List Char
  | none => []
  | some k => 'e' :: (toString k).toList

def text (n : Numeral) : List Char :=
  n.whole ++ (Parser.pointed n.fraction ++ exponentText n.exponent)

def value (n : Numeral) : Decimal :=
  ⟨Parser.natural (n.whole ++ n.fraction), -(n.fraction.length : Int) + n.exponent.getD 0⟩

end Numeral

namespace Parser

variable {r : List Char}

theorem optional_exponent (k : Option Int) (hr : Ends Char.isAlphanum r) :
    optional exponent (Numeral.exponentText k ++ r) = .done k r := by
  cases k with
  | none =>
    have hne {c : Char} (hc : c.isAlphanum = true) : r.head? ≠ some c := by
      intro h
      rw [hr c h] at hc
      cases hc
    have hmark : Declines (orElse (symbol 'e') (symbol 'E')) r :=
      (declines_symbol (hne (by decide))).orElse (declines_symbol (hne (by decide)))
    exact hmark.bind.optional_eq
  | some k => exact optional_done (exponent_done k hr.isDigit)

theorem places_numeral (n : Numeral) (hr : Ends Char.isAlphanum r) :
    places (n.text ++ r) = .done (ofPlaces n.whole n.fraction)
      (Numeral.exponentText n.exponent ++ r) := by
  have hends : Ends Char.isDigit (Numeral.exponentText n.exponent ++ r) := by
    cases n.exponent with
    | none => exact hr.isDigit
    | some k => exact ends_cons rfl
  have hpoint : n.fraction = [] → (Numeral.exponentText n.exponent ++ r).head? ≠ some '.' := by
    intro hnil
    have hsome := n.marked.resolve_left fun h => h hnil
    cases hexp : n.exponent with
    | none => exact absurd hexp hsome
    | some k => simp [Numeral.exponentText]
  have htext : n.text ++ r =
      n.whole ++ (pointed n.fraction ++ (Numeral.exponentText n.exponent ++ r)) := by
    simp only [Numeral.text, List.append_assoc]
  rw [htext]
  exact places_done n.whole_ne n.isDigit_whole n.isDigit_fraction hends hpoint

theorem decimal_done (n : Numeral) (minus : Bool) (hr : Ends Char.isAlphanum r) :
    decimal ((if minus then ['-'] else []) ++ (n.text ++ r)) =
      .done (n.value.toBinary64 minus) r := by
  have htext : n.text ++ r =
      n.whole ++ (pointed n.fraction ++ Numeral.exponentText n.exponent ++ r) := by
    simp only [Numeral.text, List.append_assoc]
  have hsign := sign_done (minus = true) (r := pointed n.fraction ++
    Numeral.exponentText n.exponent ++ r) n.whole_ne n.isDigit_whole
  rw [← htext, Bool.decide_eq_true] at hsign
  rw [decimal, bind_done hsign, bind_done (places_numeral n hr), bind_done (optional_exponent _ hr)]
  rfl

end Parser

theorem pointed_of_ne_nil {ds : List Char} (h : ds ≠ []) : Parser.pointed ds = '.' :: ds := by
  cases ds with
  | nil => exact absurd rfl h
  | cons c cs => rfl

namespace Decimal

variable {d : Decimal}

def trimmed (d : Decimal) : Decimal :=
  ⟨Parser.natural d.significant, d.leadingExponent + 1 - d.significant.length⟩

theorem natural_append_zeros (ds : List Char) (m : Nat) :
    Parser.natural (ds ++ List.replicate m '0') = Parser.natural ds * Nat.pow 10 m := by
  rw [Parser.natural, Nat.ofDigitChars_append, Nat.ofDigitChars_replicate_zero, Nat.mul_comm]
  rfl

theorem natural_zeros_append (ds : List Char) (m : Nat) :
    Parser.natural (List.replicate m '0' ++ ds) = Parser.natural ds := by
  unfold Parser.natural
  rw [Nat.ofDigitChars_append, Nat.ofDigitChars_replicate_zero, Nat.mul_zero]

theorem isDigit_zeros (m : Nat) : ∀ c ∈ List.replicate m '0', c.isDigit = true := by
  intro c hc
  rw [List.eq_of_mem_replicate hc]
  decide

theorem zeros_dropWhile (ds : List Char) :
    ∃ m, List.replicate m '0' ++ ds.dropWhile (· == '0') = ds := by
  induction ds with
  | nil => exact ⟨0, rfl⟩
  | cons c ds ih =>
    by_cases hc : c = '0'
    · obtain ⟨m, hm⟩ := ih
      refine ⟨m + 1, ?_⟩
      rw [hc, List.replicate_succ, List.cons_append]
      exact congrArg ('0' :: ·) hm
    · refine ⟨0, ?_⟩
      have hne : (c == '0') = false := beq_eq_false_iff_ne.mpr hc
      rw [List.dropWhile_cons, hne]
      rfl

theorem toDigits_eq_significant (d : Decimal) :
    ∃ m, Nat.toDigits 10 d.digits = d.significant ++ List.replicate m '0' := by
  obtain ⟨m, hm⟩ := zeros_dropWhile (Nat.toDigits 10 d.digits).reverse
  refine ⟨m, ?_⟩
  have hreverse := congrArg List.reverse hm
  rw [List.reverse_append, List.reverse_reverse, List.reverse_replicate] at hreverse
  exact hreverse.symm

theorem isDigit_significant (d : Decimal) : ∀ c ∈ d.significant, c.isDigit = true := by
  obtain ⟨m, hm⟩ := toDigits_eq_significant d
  intro c hc
  apply Parser.isDigit_toDigits d.digits c
  rw [hm]
  exact List.mem_append_left _ hc

theorem significant_ne_nil (hd : d.digits ≠ 0) : d.significant ≠ [] := by
  obtain ⟨m, hm⟩ := toDigits_eq_significant d
  intro hnil
  have hvalue := Parser.natural_toDigits d.digits
  rw [hm, hnil, natural_append_zeros] at hvalue
  exact hd (hvalue.symm.trans (Nat.zero_mul _))

theorem padded_zero (d : Decimal) : d.padded 0 = d :=
  (Decimal.mk.injEq ..).mpr ⟨Nat.mul_one _, Int.sub_zero _⟩

theorem padded_trimmed (hd : d.digits ≠ 0) : ∃ m, d = d.trimmed.padded m := by
  obtain ⟨m, hm⟩ := toDigits_eq_significant d
  refine ⟨m, ?_⟩
  have hdigits : d.digits = Parser.natural d.significant * Nat.pow 10 m := by
    rw [← natural_append_zeros, ← hm, Parser.natural_toDigits]
  have hwidth : d.width = d.significant.length + m := by
    rw [width, if_neg hd, hm, List.length_append, List.length_replicate]
  have hexponent : d.exponent = d.leadingExponent + 1 - d.significant.length - m := by
    rw [leadingExponent]
    omega
  obtain ⟨digits, exponent⟩ := d
  exact (Decimal.mk.injEq ..).mpr ⟨hdigits, hexponent⟩

theorem exists_numeral_positional {ds : List Char} (hds : ∀ c ∈ ds, c.isDigit = true) {n : Nat}
    (hn : 0 < n) : ∃ m : Numeral, m.text = positional ds n ∧
      m.value = (⟨Parser.natural ds, n - ds.length⟩ : Decimal).padded (n + 1 - ds.length) := by
  have hlength : (ds ++ List.replicate (n + 1 - ds.length) '0').length =
      ds.length + (n + 1 - ds.length) := by rw [List.length_append, List.length_replicate]
  have hdigit := List.forall_mem_append.mpr ⟨hds, isDigit_zeros (n + 1 - ds.length)⟩
  have hwhole : (ds ++ List.replicate (n + 1 - ds.length) '0').take n ≠ [] := by
    apply List.ne_nil_of_length_pos
    rw [List.length_take]
    omega
  have hfraction : (ds ++ List.replicate (n + 1 - ds.length) '0').drop n ≠ [] := by
    apply List.ne_nil_of_length_pos
    rw [List.length_drop]
    omega
  refine ⟨⟨_, _, none, hwhole, fun c hc => hdigit c (List.mem_of_mem_take hc),
    fun c hc => hdigit c (List.mem_of_mem_drop hc), Or.inl hfraction⟩, ?_, ?_⟩
  · rw [Numeral.text, positional]
    dsimp only
    rw [pointed_of_ne_nil hfraction]
    exact congrArg _ (List.append_nil _)
  · rw [Numeral.value, padded]
    dsimp only
    rw [List.take_append_drop, natural_append_zeros, List.length_drop, hlength]
    refine (Decimal.mk.injEq ..).mpr ⟨rfl, ?_⟩
    rw [Option.getD_none]
    omega

theorem exists_numeral_small {ds : List Char} (hds : ∀ c ∈ ds, c.isDigit = true) (hne : ds ≠ [])
    (m : Nat) : ∃ n : Numeral, n.text = '0' :: '.' :: List.replicate m '0' ++ ds ∧
      n.value = ⟨Parser.natural ds, -(m + ds.length)⟩ := by
  have hdigit := List.forall_mem_append.mpr ⟨isDigit_zeros m, hds⟩
  have hwhole : ∀ c ∈ ['0'], c.isDigit = true := List.all_eq_true.mp (by decide)
  have hfraction : List.replicate m '0' ++ ds ≠ [] := fun h => hne (List.append_eq_nil_iff.mp h).2
  refine ⟨⟨['0'], _, none, List.cons_ne_nil _ _, hwhole, hdigit, Or.inl hfraction⟩, ?_, ?_⟩
  · rw [Numeral.text]
    dsimp only
    rw [pointed_of_ne_nil hfraction]
    exact congrArg ('0' :: '.' :: ·) (List.append_nil _)
  · have hzeros : ['0'] ++ (List.replicate m '0' ++ ds) = List.replicate (m + 1) '0' ++ ds := rfl
    rw [Numeral.value]
    dsimp only
    rw [hzeros, natural_zeros_append, List.length_append, List.length_replicate]
    refine (Decimal.mk.injEq ..).mpr ⟨rfl, ?_⟩
    rw [Option.getD_none]
    omega

theorem exists_numeral_scientific {ds : List Char} (hds : ∀ c ∈ ds, c.isDigit = true)
    (hne : ds ≠ []) (k : Int) : ∃ n : Numeral, n.text = scientific ds k ∧
      n.value = ⟨Parser.natural ds, k + 1 - ds.length⟩ := by
  obtain ⟨c, cs, rfl⟩ := List.exists_cons_of_ne_nil hne
  have hfirst : ∀ d ∈ [c], d.isDigit = true := fun d hd => by
    rw [List.mem_singleton.mp hd]
    exact hds c List.mem_cons_self
  have hrest : ∀ d ∈ cs, d.isDigit = true := fun d hd => hds d (List.mem_cons_of_mem c hd)
  refine ⟨⟨[c], cs, some k, List.cons_ne_nil _ _, hfirst, hrest, Or.inr nofun⟩, ?_, ?_⟩
  · have hpoint : Parser.pointed cs = if (c :: cs).length ≤ 1 then [] else '.' :: cs := by
      cases cs with
      | nil => rfl
      | cons d cs => rfl
    rw [Numeral.text]
    dsimp only
    rw [hpoint]
    rfl
  · have hexponent : -(cs.length : Int) + k = k + 1 - ((cs.length + 1 : Nat) : Int) := by omega
    exact (Decimal.mk.injEq ..).mpr ⟨rfl, hexponent⟩

/-- The literal of a decimal spells a decimal of the same value. -/
theorem exists_numeral_literal (hd : d.digits ≠ 0) :
    ∃ n : Numeral, n.text = d.literal ∧ n.value.nearestMagnitude = d.nearestMagnitude := by
  have hne := significant_ne_nil hd
  have hdigit := isDigit_significant d
  suffices h : ∃ n : Numeral, n.text = d.literal ∧ ∃ m, n.value = d.trimmed.padded m by
    obtain ⟨n, htext, m, hvalue⟩ := h
    obtain ⟨l, hl⟩ := padded_trimmed hd
    have hsame := nearestMagnitude_padded d.trimmed l
    rw [← hl] at hsame
    exact ⟨n, htext, by rw [hvalue, nearestMagnitude_padded, hsame]⟩
  have htrimmed {e : Int} (he : e = d.leadingExponent + 1 - d.significant.length) :
      (⟨Parser.natural d.significant, e⟩ : Decimal) = d.trimmed :=
    (Decimal.mk.injEq ..).mpr ⟨rfl, he⟩
  have hunpadded := (padded_zero d.trimmed).symm
  unfold literal
  dsimp only
  split
  next hk =>
    obtain ⟨n, htext, hvalue⟩ :=
      exists_numeral_positional hdigit (Nat.succ_pos d.leadingExponent.toNat)
    exact ⟨n, htext, _, hvalue.trans (congrArg (padded · _) (htrimmed (by omega)))⟩
  next =>
    split
    next hk =>
      obtain ⟨n, htext, hvalue⟩ := exists_numeral_small hdigit hne (-d.leadingExponent - 1).toNat
      exact ⟨n, htext, 0, hvalue.trans ((htrimmed (by omega)).trans hunpadded)⟩
    next =>
      obtain ⟨n, htext, hvalue⟩ := exists_numeral_scientific hdigit hne d.leadingExponent
      exact ⟨n, htext, 0, hvalue.trans ((htrimmed rfl).trans hunpadded)⟩

end Decimal

theorem Binary64.exists_numeral_absText (x : Binary64) (hfin : x.isFinite = true) :
    ∃ n : Numeral, n.text = x.absText.toList ∧ n.value.nearestMagnitude = x.magnitude := by
  rw [absText, hfin]
  by_cases hzero : x.magnitude = 0
  · have hisZero : x.isZero = true := beq_iff_eq.mpr hzero
    have hdigit : ∀ c ∈ ['0'], c.isDigit = true := List.all_eq_true.mp (by decide)
    refine ⟨⟨['0'], ['0'], none, by decide, hdigit, hdigit, by decide⟩, ?_, ?_⟩
    · rw [hisZero]
      exact (by decide : ['0', '.', '0'] = "0.0".toList)
    · rw [hzero]
      rfl
  · have hisZero : x.isZero = false := beq_eq_false_iff_ne.mpr hzero
    obtain ⟨n, htext, hvalue⟩ := Decimal.exists_numeral_literal (digits_shortest x hfin hzero)
    refine ⟨n, ?_, hvalue.trans (nearestMagnitude_shortest x hfin hzero)⟩
    rw [hisZero, htext]
    exact (String.toList_ofList ..).symm

namespace Parser

variable {r : List Char}

theorem declines_caseless {word : String} {x : Binary64} {s : List Char} {n : Nat}
    (hlength : word.length = n) (h : (s.take n).map Char.toLower ≠ word.toList) :
    Declines (caseless word x) s := by
  rw [← hlength] at h
  exact ⟨_, if_neg h⟩

theorem caseless_done {word : String} {x : Binary64}
    (hlower : word.toList.map Char.toLower = word.toList) :
    caseless word x (word.toList ++ r) = .done x r := by
  rw [caseless, ← String.length_toList, List.take_left, if_pos hlower, List.drop_left]

theorem declines_places (hdigit : Ends Char.isDigit r) (hpoint : r.head? ≠ some '.') :
    Declines places r :=
  (declines_span hdigit).bind.orElse (declines_symbol hpoint).bind

theorem declines_places_inf : Declines places ("inf".toList ++ r) :=
  declines_places (ends_cons rfl) (by simp)

theorem plainLiteral_inf : plainLiteral ("inf".toList ++ r) = .done .infinity r := by
  have hsign : sign ("inf".toList ++ r) = .done false ("inf".toList ++ r) :=
    sign_none (by simp) (by simp)
  have hdecimal : Declines decimal ("inf".toList ++ r) :=
    declines_bind_of_done hsign declines_places_inf.bind
  have hnan : Declines (caseless "nan" .nan) ("inf".toList ++ r) :=
    declines_caseless (n := 3) (by decide) (by simp)
  rw [plainLiteral, hdecimal.blame.orElse_eq, hnan.orElse_eq, caseless_done (by decide)]

theorem plainLiteral_nan : plainLiteral ("NaN".toList ++ r) = .done .nan r := by
  have hsign : sign ("NaN".toList ++ r) = .done false ("NaN".toList ++ r) :=
    sign_none (by simp) (by simp)
  have hplaces : Declines places ("NaN".toList ++ r) := declines_places (ends_cons rfl) (by simp)
  have hdecimal : Declines decimal ("NaN".toList ++ r) := declines_bind_of_done hsign hplaces.bind
  rw [plainLiteral, hdecimal.blame.orElse_eq]
  exact orElse_done rfl

theorem declines_plainLiteral_minus_inf : Declines plainLiteral ('-' :: "inf".toList ++ r) := by
  have hdecimal : Declines decimal ('-' :: "inf".toList ++ r) :=
    declines_bind_of_done sign_minus declines_places_inf.bind
  have hnan : Declines (caseless "nan" .nan) ('-' :: "inf".toList ++ r) :=
    declines_caseless (n := 3) (by decide) (by simp)
  have hinf : Declines (caseless "inf" .infinity) ('-' :: "inf".toList ++ r) :=
    declines_caseless (n := 3) (by decide) (by simp)
  exact hdecimal.blame.orElse (hnan.orElse hinf)

theorem declines_literal_close : Declines literal ('}' :: r) := by
  have hsign : sign ('}' :: r) = .done false ('}' :: r) := sign_none (by simp) (by simp)
  have hplaces : Declines places ('}' :: r) := declines_places (ends_cons rfl) (by simp)
  have hdecimal : Declines decimal ('}' :: r) := declines_bind_of_done hsign hplaces.bind
  have hword (word : String) {x : Binary64} (hlength : word.length = 3)
      (hne : word.toList.head? ≠ some '}') : Declines (caseless word x) ('}' :: r) :=
    declines_caseless hlength fun h => hne (by rw [← h]; rfl)
  have hwords := (hword "nan" (x := .nan) (by decide) (by simp)).orElse
    (hword "inf" (x := .infinity) (by decide) (by simp))
  exact (hdecimal.blame.orElse hwords).orElse (declines_symbol (by simp)).bind

end Parser

/-- The number that is read where this one is written. All NaNs are written alike. -/
def Binary64.quiet (x : Binary64) : Binary64 := if x.isNaN then nan else x

namespace Parser

/-- A literal that is a number is read as itself, also when it is a zero or an infinity with a
minus sign. -/
theorem literal_number {x : Binary64} (hx : x.isNaN = false) (hr : Ends Char.isAlphanum r) :
    literal (x.text.toList ++ r) = .done x r := by
  have htext : x.text.toList ++ r =
      (if x.negative then ['-'] else []) ++ (x.absText.toList ++ r) := by
    rw [Binary64.text, hx]
    cases x.negative <;> simp
  rw [htext]
  cases hfin : x.isFinite with
  | true =>
    obtain ⟨n, hn, hvalue⟩ := x.exists_numeral_absText hfin
    have hdecimal := decimal_done n x.negative hr
    have hself : n.value.toBinary64 x.negative = x := by
      obtain ⟨negative, magnitude, hlt⟩ := x
      exact (Binary64.mk.injEq ..).mpr ⟨rfl, hvalue⟩
    rw [hself, hn] at hdecimal
    exact orElse_done (orElse_done (blame_done hdecimal))
  | false =>
    have hinf : x.absText = "inf" := by
      rw [Binary64.absText, hfin]
      rfl
    have hmagnitude : x.magnitude = Binary64.infinityMagnitude := by
      have hlow := of_decide_eq_false hfin
      have hhigh := of_decide_eq_false hx
      omega
    rw [hinf]
    obtain ⟨negative, magnitude, hlt⟩ := x
    obtain rfl : magnitude = _ := hmagnitude
    cases negative with
    | false => exact orElse_done plainLiteral_inf
    | true =>
      apply declines_plainLiteral_minus_inf.orElse_eq.trans
      exact (bind_done symbol_done).trans (bind_done plainLiteral_inf)

theorem literal_done (x : Binary64) (hr : Ends Char.isAlphanum r) :
    literal (x.text.toList ++ r) = .done x.quiet r := by
  rw [Binary64.quiet]
  split
  next hx =>
    rw [Binary64.text, if_pos hx]
    exact orElse_done plainLiteral_nan
  next hx => exact literal_number (Bool.eq_false_iff.mpr hx) hr

end Parser

end ShaderTree
