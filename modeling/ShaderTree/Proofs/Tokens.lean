import ShaderTree.Proofs.Lookahead
import ShaderTree.Proofs.TermReading

namespace ShaderTree

inductive Word
  | program | uniform | «attribute» | varying | func | «local» | struct
  | «if» | «else» | «for» | step
  | openBrace | closeBrace | openParen | closeParen | comma | equals | dots
  | basic (b : BasicTy)
  | direction (d : Direction)
deriving DecidableEq, Repr

def Word.text : Word → String
  | program => "program"
  | uniform => "uniform"
  | .attribute => "attribute"
  | varying => "varying"
  | func => "func"
  | .local => "local"
  | struct => "struct"
  | .if => "if"
  | .else => "else"
  | .for => "for"
  | step => "step"
  | openBrace => "\x7b"
  | closeBrace => "\x7d"
  | openParen => "("
  | closeParen => ")"
  | comma => ","
  | equals => "="
  | dots => ".."
  | basic b => b.token
  | direction d => d.keyword

inductive Token
  | word (w : Word)
  | operator (op : Operator)
  | name (text : String)
  | var (v : Variable)
  | bound (i : Int32)
  | literal (x : Binary64)
deriving DecidableEq

structure IsNumeral (ds : List Char) (n : Nat) : Prop where
  ne_nil : ds ≠ []
  isDigit : ∀ d ∈ ds, d.isDigit = true
  value : Nat.ofDigitChars 10 ds 0 = n

namespace Token

/-- The characters spell the token. A literal has every spelling that is read as its value. -/
def Spells : Token → List Char → Prop
  | word w, cs => cs = w.text.toList
  | operator op, cs => cs = op.name.toList
  | name text, cs =>
    cs = '@' :: text.toList ∧ text ≠ "" ∧ ∀ c ∈ text.toList, Text.isAlphanumeric c ∨ c = '_'
  | var v, cs => ∃ ds, cs = '%' :: v.category.letter :: ds ∧ IsNumeral ds v.index.toNat
  | bound i, cs =>
    ∃ ds n, IsNumeral ds n ∧ (cs = ds ∧ i.toInt = n ∨ cs = '-' :: ds ∧ i.toInt = -(n : Int))
  | literal x, cs => Parser.literal cs = .done x []

/-- The token is read from the first text up to the second one. -/
def ReadTo : Token → List Char → List Char → Prop
  | word w, s, r => s = w.text.toList ++ r
  | operator op, s, r => Parser.operator s = .done op r
  | name text, s, r => Parser.funcName s = .done text r
  | var v, s, r => Parser.var s = .done v r
  | bound i, s, r => Parser.bound s = .done i r
  | literal x, s, r => Parser.literal s = .done x r

end Token

namespace Parser

variable {s r r' : List Char}

theorem excludesBlank_isDigit : ExcludesBlank Char.isDigit := excludesBlank_of_all (by decide)

theorem excludesBlank_isAlpha : ExcludesBlank Char.isAlpha := excludesBlank_of_all (by decide)

theorem excludesBlank_name : ExcludesBlank fun c => Text.isAlphanumeric c || c == '_' :=
  excludesBlank_of_all (by decide +kernel)

theorem nearSighted_digits : NearSighted digits := nearSighted_span excludesBlank_isDigit

theorem nearSighted_index : NearSighted index :=
  (nearSighted_digits.bind fun ds => nearSighted_pure (natural ds)).accept

theorem nearSighted_bound : NearSighted bound := by
  have hminus : NearSighted (optional (symbol '-')) :=
    (nearSighted_symbol '-').optional (opensWith_symbol '-') (excludesBlank_of_all (by decide))
  exact (hminus.bind fun _ => nearSighted_digits.bind fun _ => nearSighted_pure _).accept

theorem opensWith_signs :
    OpensWith (fun c => c == '+' || c == '-')
      (orElse (do symbol '+'; pure false) (do symbol '-'; pure true)) :=
  ((opensWith_symbol '+').bind fun _ => neverDeclines_pure false).orElse
    ((opensWith_symbol '-').bind fun _ => neverDeclines_pure true)

theorem nearSighted_sign : NearSighted sign := by
  have hplus : NearSighted (do symbol '+'; pure false) :=
    (nearSighted_symbol '+').bind fun _ => nearSighted_pure false
  have hminus : NearSighted (do symbol '-'; pure true) :=
    (nearSighted_symbol '-').bind fun _ => nearSighted_pure true
  have hsigns : NearSighted (orElse (do symbol '+'; pure false) (do symbol '-'; pure true)) := by
    refine hplus.orElse hminus fun {cs r r' b} h _ hr' => ?_
    exact ((opensWith_symbol '+').bind fun _ => neverDeclines_pure false).replace
      (excludesBlank_of_all (by decide)) h (hr'.append cs)
  exact (hsigns.optional opensWith_signs (excludesBlank_of_all (by decide))).bind
    fun _ => nearSighted_pure _

theorem nearSighted_fraction : NearSighted fraction :=
  (nearSighted_symbol '.').bind fun _ =>
    (nearSighted_digits.optional opensWith_span excludesBlank_isDigit).bind
      fun _ => nearSighted_pure _

theorem opensWith_fraction : OpensWith (· == '.') fraction :=
  (opensWith_symbol '.').bind fun _ =>
    (neverDeclines_optional digits).bind fun _ => neverDeclines_pure _

theorem opensWith_wholePlaces :
    OpensWith Char.isDigit (do
      let whole ← digits
      let behind ← optional fraction
      pure (ofPlaces whole (behind.getD []))) := by
  have hdigits : OpensWith Char.isDigit digits := opensWith_span
  exact hdigits.bind fun _ => (neverDeclines_optional fraction).bind fun _ => neverDeclines_pure _

theorem nearSighted_places : NearSighted places := by
  refine NearSighted.orElse ?_ ?_ fun {cs r r' d} h _ hr' => ?_
  · refine nearSighted_digits.bind fun whole => ?_
    exact (nearSighted_fraction.optional opensWith_fraction (excludesBlank_of_all (by decide))).bind
      fun _ => nearSighted_pure _
  · exact (nearSighted_symbol '.').bind fun _ =>
      nearSighted_digits.bind fun _ => nearSighted_pure _
  · exact opensWith_wholePlaces.replace excludesBlank_isDigit h (hr'.append cs)

theorem nearSighted_exponent : NearSighted exponent := by
  have hmark : NearSighted (orElse (symbol 'e') (symbol 'E')) := by
    refine (nearSighted_symbol 'e').orElse (nearSighted_symbol 'E') fun {cs r r' u} h _ hr' => ?_
    exact (opensWith_symbol 'e').replace (excludesBlank_of_all (by decide)) h (hr'.append cs)
  exact hmark.bind fun _ => nearSighted_sign.bind fun _ =>
    nearSighted_digits.commit.bind fun _ => nearSighted_pure _

theorem opensWith_exponent : OpensWith (fun c => c == 'e' || c == 'E') exponent :=
  ((opensWith_symbol 'e').orElse (opensWith_symbol 'E')).bind fun _ =>
    ((neverDeclines_optional _).bind fun _ => neverDeclines_pure _).bind fun _ =>
      (neverDeclines_commit digits).bind fun _ => neverDeclines_pure _

theorem nearSighted_decimal : NearSighted decimal :=
  nearSighted_sign.bind fun _ => nearSighted_places.bind fun _ =>
    (nearSighted_exponent.optional opensWith_exponent (excludesBlank_of_all (by decide))).bind
      fun _ => nearSighted_pure _

theorem caseless_eq_done_iff {word : String} {x y : Binary64} :
    caseless word x s = .done y r ↔
      x = y ∧ ∃ cs, s = cs ++ r ∧ cs.map Char.toLower = word.toList := by
  rw [caseless]
  constructor
  · intro h
    split at h
    · next hlower =>
      cases h
      exact ⟨rfl, s.take word.length, (List.take_append_drop ..).symm, hlower⟩
    · cases h
  · rintro ⟨rfl, cs, rfl, hlower⟩
    have hlength : cs.length = word.length := by
      rw [← String.length_toList, ← hlower, List.length_map]
    rw [← hlength, List.take_left, List.drop_left, if_pos hlower]

theorem nearSighted_caseless (word : String) (x : Binary64) : NearSighted (caseless word x) where
  suffix h := by
    obtain ⟨-, cs, rfl, -⟩ := caseless_eq_done_iff.mp h
    exact List.suffix_append cs _
  replace h _ := by
    obtain ⟨hx, cs', heq, hlower⟩ := caseless_eq_done_iff.mp h
    obtain rfl := List.append_cancel_right heq
    exact caseless_eq_done_iff.mpr ⟨hx, _, rfl, hlower⟩

theorem isAlpha_of_toLower {c : Char} (h : c.toLower.isAlpha = true) : c.isAlpha = true := by
  by_cases hupper : c.isUpper = true
  · exact Bool.or_eq_true_iff.mpr (Or.inl hupper)
  · have hsame : c.toLower = c := dif_neg fun hrange => hupper (decide_eq_true hrange)
    rwa [hsame] at h

def BeginsCaseless (word : String) (s : List Char) : Prop :=
  ∃ cs t, s = cs ++ t ∧ cs.map Char.toLower = word.toList

theorem BeginsCaseless.isAlpha {word : String} (h : BeginsCaseless word s)
    (hword : word = "nan" ∨ word = "inf") : ∃ c t, s = c :: t ∧ c.isAlpha = true := by
  obtain ⟨cs, t, rfl, hlower⟩ := h
  cases cs with
  | nil => obtain rfl | rfl := hword <;> simp at hlower
  | cons c cs =>
    refine ⟨c, cs ++ t, rfl, isAlpha_of_toLower ?_⟩
    obtain rfl | rfl := hword
    · have hc : c.toLower = 'n' := (List.cons.inj hlower).1
      rw [hc]
      rfl
    · have hc : c.toLower = 'i' := (List.cons.inj hlower).1
      rw [hc]
      rfl

theorem declines_places_cons {c : Char} (h : c = '+' ∨ c = '-' ∨ c.isAlpha = true) :
    Declines places (c :: s) := by
  refine declines_places (ends_cons ?_) fun hc => ?_
  · obtain rfl | rfl | h := h
    · rfl
    · rfl
    · refine Bool.eq_false_iff.mpr fun hdigit => ?_
      rw [isAlpha_of_isDigit hdigit] at h
      cases h
  · cases hc
    simp at h

theorem declines_decimal_isAlpha {c : Char} (h : c.isAlpha = true) : Declines decimal (c :: s) := by
  have hne (d : Char) (hd : d.isAlpha = false) : (c :: s).head? ≠ some d := by
    rintro ⟨rfl⟩
    rw [h] at hd
    cases hd
  exact declines_bind_of_done (sign_none (hne '+' rfl) (hne '-' rfl))
    (declines_places_cons (Or.inr (Or.inr h))).bind

theorem plainLiteral_begins {x : Binary64} (h : plainLiteral s = .done x r) :
    (∃ d m, places s = .done d m) ∨ (∃ c t, s = c :: t ∧ (c = '+' ∨ c = '-')) ∨
      BeginsCaseless "nan" s ∨ BeginsCaseless "inf" s := by
  obtain h | ⟨-, h⟩ := orElse_eq_done_iff.mp h
  · obtain ⟨minus, m, hsign, hrest⟩ := bind_eq_done_iff.mp (blame_eq_done_iff.mp h)
    obtain ⟨d, n, hplaces, -⟩ := bind_eq_done_iff.mp hrest
    by_cases hhead : s.head? = some '+' ∨ s.head? = some '-'
    · refine Or.inr (Or.inl ?_)
      obtain hc | hc := hhead
      · obtain ⟨t, rfl⟩ := List.head?_eq_some_iff.mp hc
        exact ⟨'+', t, rfl, Or.inl rfl⟩
      · obtain ⟨t, rfl⟩ := List.head?_eq_some_iff.mp hc
        exact ⟨'-', t, rfl, Or.inr rfl⟩
    · obtain ⟨hplus, hminus⟩ := not_or.mp hhead
      rw [sign_none hplus hminus] at hsign
      cases hsign
      exact Or.inl ⟨d, n, hplaces⟩
  · refine Or.inr (Or.inr ?_)
    obtain h | ⟨-, h⟩ := orElse_eq_done_iff.mp h
    · obtain ⟨-, cs, rfl, hlower⟩ := caseless_eq_done_iff.mp h
      exact Or.inl ⟨cs, r, rfl, hlower⟩
    · obtain ⟨-, cs, rfl, hlower⟩ := caseless_eq_done_iff.mp h
      exact Or.inr ⟨cs, r, rfl, hlower⟩

theorem nearSighted_plainLiteral : NearSighted plainLiteral := by
  refine nearSighted_decimal.blame.orElse ?_ fun {cs r r' x} _ h _ => ?_
  · refine (nearSighted_caseless _ _).orElse (nearSighted_caseless _ _) fun {cs r r' x} _ h _ => ?_
    obtain ⟨-, cs', heq, hlower⟩ := caseless_eq_done_iff.mp h
    obtain rfl := List.append_cancel_right heq
    have hlength : cs.length = 3 := by
      rw [← List.length_map (f := Char.toLower), hlower]
      rfl
    refine declines_caseless (n := 3) (by decide) ?_
    rw [← hlength, List.take_left, hlower]
    decide
  · -- a word begins with a letter, and a number does not
    have hword : BeginsCaseless "nan" cs ∨ BeginsCaseless "inf" cs := by
      obtain h | ⟨-, h⟩ := orElse_eq_done_iff.mp h
      · obtain ⟨-, cs', heq, hlower⟩ := caseless_eq_done_iff.mp h
        exact Or.inl ⟨cs', [], by simpa using List.append_cancel_right heq, hlower⟩
      · obtain ⟨-, cs', heq, hlower⟩ := caseless_eq_done_iff.mp h
        exact Or.inr ⟨cs', [], by simpa using List.append_cancel_right heq, hlower⟩
    obtain ⟨c, t, rfl, hc⟩ :=
      hword.elim (·.isAlpha (Or.inl rfl)) (·.isAlpha (Or.inr rfl))
    exact (declines_decimal_isAlpha hc).blame

theorem declines_words {c : Char} (hc : c.isAlpha = false) :
    Declines (orElse (caseless "nan" .nan) (caseless "inf" .infinity)) (c :: s) := by
  have hnone (word : String) (hword : word = "nan" ∨ word = "inf") :
      ((c :: s).take 3).map Char.toLower ≠ word.toList := by
    intro hlower
    have hbegins : BeginsCaseless word (c :: s) :=
      ⟨_, _, (List.take_append_drop 3 _).symm, hlower⟩
    obtain ⟨d, t, heq, hd⟩ := hbegins.isAlpha hword
    cases heq
    rw [hc] at hd
    cases hd
  exact (declines_caseless (n := 3) (by decide) (hnone "nan" (Or.inl rfl))).orElse
    (declines_caseless (n := 3) (by decide) (hnone "inf" (Or.inr rfl)))

theorem Declines.of_orElse {α : Type} {p q : Parser α} (h : Declines (Parser.orElse p q) s) :
    Declines p s := by
  obtain ⟨e, he⟩ := h
  rw [Parser.orElse] at he
  cases hs : p s with
  | declined e' => exact ⟨e', hs⟩
  | done a m =>
    rw [hs] at he
    cases he
  | failed e' =>
    rw [hs] at he
    cases he

theorem Declines.of_blame {α : Type} {p : Parser α} {cause : Cause}
    (h : Declines (Parser.blame cause p) s) : Declines p s := by
  obtain ⟨e, he⟩ := h
  rw [Parser.blame] at he
  cases hs : p s with
  | declined e' => exact ⟨e', hs⟩
  | done a m =>
    rw [hs] at he
    cases he
  | failed e' =>
    rw [hs] at he
    cases he

theorem places_ne_done_of_declines (h : Declines plainLiteral ('-' :: s)) {d : Decimal} :
    places s ≠ .done d r := by
  intro hplaces
  obtain ⟨e, he⟩ := h.of_orElse.of_blame
  have hrest := (bind_done sign_minus).symm.trans he
  rw [bind_done hplaces] at hrest
  exact ((neverDeclines_optional exponent).bind fun _ => neverDeclines_pure _) r ⟨e, hrest⟩

theorem nearSighted_literal : NearSighted literal := by
  refine nearSighted_plainLiteral.orElse ?_ fun {cs r r' x} hdeclines h _ => ?_
  · exact (nearSighted_symbol '-').bind fun _ =>
      nearSighted_plainLiteral.bind fun _ => nearSighted_pure _
  · obtain ⟨_, m, hminus, h⟩ := bind_eq_done_iff.mp h
    obtain ⟨y, n, hy, h⟩ := bind_eq_done_iff.mp h
    obtain ⟨-, rfl⟩ := pure_eq_done_iff.mp h
    have hleaves := (alike_plainLiteral m.length m (Nat.le_refl _)).2
    rw [hy] at hleaves
    obtain ⟨⟨taken, rfl⟩, hlength⟩ := hleaves
    obtain rfl : cs = '-' :: taken :=
      List.append_cancel_right (symbol_eq_done_iff.mp hminus)
    -- a sign or a letter comes right behind the minus sign, whatever the rest
    obtain ⟨c, t, rfl, hc⟩ :
        ∃ c t, taken = c :: t ∧ (c = '+' ∨ c = '-' ∨ c.isAlpha = true) := by
      cases taken with
      | nil =>
        rw [List.nil_append] at hlength
        omega
      | cons c t =>
        refine ⟨c, t, rfl, ?_⟩
        obtain ⟨d, n, hplaces⟩ | ⟨d, u, heq, hd⟩ | hword := plainLiteral_begins hy
        · exact absurd hplaces (places_ne_done_of_declines hdeclines)
        · cases heq
          exact hd.imp_right Or.inl
        · obtain ⟨d, u, heq, hd⟩ :=
            hword.elim (·.isAlpha (Or.inl rfl)) (·.isAlpha (Or.inr rfl))
          cases heq
          exact Or.inr (Or.inr hd)
    have hdecimal : Declines decimal ('-' :: c :: (t ++ r')) :=
      declines_bind_of_done sign_minus (declines_places_cons hc).bind
    exact hdecimal.blame.orElse (declines_words rfl)

theorem nearSighted_keyword (word : String) : NearSighted (keyword word) where
  suffix h := by
    rw [keyword_eq_done_iff.mp h]
    exact List.suffix_append _ _
  replace {cs r r' u} h _ := by
    rw [List.append_cancel_right (keyword_eq_done_iff.mp h)]
    exact keyword_eq_done_iff.mpr rfl

theorem nearSighted_operator : NearSighted operator :=
  (nearSighted_span excludesBlank_isAlpha).accept

theorem nearSighted_funcName : NearSighted funcName :=
  (nearSighted_symbol '@').bind fun _ =>
    (nearSighted_span excludesBlank_name).bind fun _ => nearSighted_pure _

theorem eq_of_firstOf {α : Type} {cause : Cause} {spelling : α → List Char} {choices : List α}
    {a : α} (h : firstOf cause spelling choices s = .done a r) : s = spelling a ++ r := by
  rw [firstOf] at h
  split at h
  · next a' r' hfirst =>
    cases h
    obtain ⟨a'', -, hmap⟩ := List.exists_of_findSome?_eq_some hfirst
    obtain ⟨t, ht, heq⟩ := Option.map_eq_some_iff.mp hmap
    cases heq
    exact strip?_eq_some_iff.mp ht
  · cases h

def category : Parser Category :=
  firstOf .symbol (fun c : Category => [c.letter]) [.uniform, .attribute, .varying, .local]

theorem category_eq_done_iff {c : Category} : category s = .done c r ↔ s = c.letter :: r := by
  refine ⟨eq_of_firstOf, ?_⟩
  rintro rfl
  cases c <;> rfl

theorem nearSighted_category : NearSighted category where
  suffix h := by
    rw [category_eq_done_iff.mp h]
    exact List.suffix_cons _ _
  replace {cs r r' c} h _ := by
    have hcs : cs = [c.letter] := List.append_cancel_right (category_eq_done_iff.mp h)
    rw [hcs]
    exact category_eq_done_iff.mpr rfl

theorem nearSighted_var : NearSighted var :=
  (nearSighted_symbol '%').bind fun _ => nearSighted_category.bind fun _ =>
    nearSighted_index.bind fun _ => nearSighted_pure _

end Parser

namespace Token

variable {tok : Token} {s r r' m cs : List Char}

/-- Every token is read by a parser that looks no further than one character. -/
theorem exists_nearSighted (tok : Token) : ∃ (α : Type) (p : Parser α) (a : α),
    Parser.NearSighted p ∧ ∀ s r, tok.ReadTo s r ↔ p s = .done a r := by
  cases tok with
  | word w =>
    exact ⟨_, _, (), Parser.nearSighted_keyword w.text, fun _ _ => Parser.keyword_eq_done_iff.symm⟩
  | operator op => exact ⟨_, _, op, Parser.nearSighted_operator, fun _ _ => Iff.rfl⟩
  | name text => exact ⟨_, _, text, Parser.nearSighted_funcName, fun _ _ => Iff.rfl⟩
  | var v => exact ⟨_, _, v, Parser.nearSighted_var, fun _ _ => Iff.rfl⟩
  | bound i => exact ⟨_, _, i, Parser.nearSighted_bound, fun _ _ => Iff.rfl⟩
  | literal x => exact ⟨_, _, x, Parser.nearSighted_literal, fun _ _ => Iff.rfl⟩

theorem ReadTo.replace (h : tok.ReadTo (cs ++ r) r) (hr' : Parser.MayFollow r r') :
    tok.ReadTo (cs ++ r') r' := by
  obtain ⟨_, p, a, hp, hread⟩ := tok.exists_nearSighted
  exact (hread _ _).mpr (hp.replace ((hread _ _).mp h) hr')

theorem ReadTo.suffix (h : tok.ReadTo s r) : r <:+ s := by
  obtain ⟨_, p, a, hp, hread⟩ := tok.exists_nearSighted
  exact hp.suffix ((hread _ _).mp h)

/-- A text is read in one way as a given token. -/
theorem ReadTo.unique (h : tok.ReadTo s r) (h' : tok.ReadTo s m) : r = m := by
  obtain ⟨_, p, a, -, hread⟩ := tok.exists_nearSighted
  have heq := ((hread _ _).mp h).symm.trans ((hread _ _).mp h')
  cases heq
  rfl

theorem isNumeral_of_digits {ds : List Char} (h : Parser.digits s = .done ds r) :
    s = ds ++ r ∧ IsNumeral ds (Parser.natural ds) := by
  obtain ⟨rfl, hne, hall, -⟩ := Parser.span_eq_done_iff.mp h
  exact ⟨rfl, hne, hall, rfl⟩

theorem isNumeral_of_index {i : UInt64} (h : Parser.index s = .done i r) :
    ∃ ds, s = ds ++ r ∧ IsNumeral ds i.toNat := by
  obtain ⟨n, hdigits, hn⟩ := Parser.accept_eq_done_iff.mp h
  obtain ⟨ds, m, hds, hpure⟩ := Parser.bind_eq_done_iff.mp hdigits
  obtain ⟨rfl, rfl⟩ := Parser.pure_eq_done_iff.mp hpure
  obtain ⟨rfl, hnumeral⟩ := isNumeral_of_digits hds
  refine ⟨ds, rfl, ?_⟩
  rw [Parser.uint64?] at hn
  split at hn
  · cases hn
    rwa [UInt64.toNat_ofNatLT]
  · cases hn

theorem spells_of_bound {i : Int32} (h : Parser.bound s = .done i r) :
    ∃ cs, s = cs ++ r ∧ (bound i).Spells cs := by
  obtain ⟨n, hsigned, hn⟩ := Parser.accept_eq_done_iff.mp h
  obtain ⟨minus, m, hminus, hrest⟩ := Parser.bind_eq_done_iff.mp hsigned
  obtain ⟨ds, m', hds, hpure⟩ := Parser.bind_eq_done_iff.mp hrest
  obtain ⟨hvalue, rfl⟩ := Parser.pure_eq_done_iff.mp hpure
  obtain ⟨rfl, hnumeral⟩ := isNumeral_of_digits hds
  have hi : i.toInt = n := by
    rw [Parser.int32?] at hn
    split at hn
    · next hrange =>
      cases hn
      exact Int32.toInt_ofInt_of_le hrange.1 (by simpa using hrange.2)
    · cases hn
  obtain ⟨_, rfl, hsymbol⟩ | ⟨rfl, -, rfl⟩ := Parser.optional_eq_done_iff.mp hminus
  · obtain rfl := Parser.symbol_eq_done_iff.mp hsymbol
    exact ⟨'-' :: ds, rfl, ds, _, hnumeral, Or.inr ⟨rfl, hi.trans hvalue.symm⟩⟩
  · exact ⟨ds, rfl, ds, _, hnumeral, Or.inl ⟨rfl, hi.trans hvalue.symm⟩⟩

theorem ReadTo.spells (h : tok.ReadTo s r) : ∃ cs, s = cs ++ r ∧ tok.Spells cs := by
  cases tok with
  | word w => exact ⟨_, h, rfl⟩
  | operator op =>
    obtain ⟨word, hspan, hname⟩ := Parser.accept_eq_done_iff.mp h
    obtain ⟨rfl, -⟩ := Parser.span_eq_done_iff.mp hspan
    refine ⟨word, rfl, ?_⟩
    rw [Spells, Operator.name_of_ofName? hname, String.toList_ofList]
  | name text =>
    obtain ⟨_, m, hat, hrest⟩ := Parser.bind_eq_done_iff.mp h
    obtain ⟨word, n, hspan, hpure⟩ := Parser.bind_eq_done_iff.mp hrest
    obtain ⟨rfl, rfl⟩ := Parser.pure_eq_done_iff.mp hpure
    obtain rfl := Parser.symbol_eq_done_iff.mp hat
    obtain ⟨rfl, hne, hall, -⟩ := Parser.span_eq_done_iff.mp hspan
    refine ⟨'@' :: word, rfl, by rw [String.toList_ofList], ?_, ?_⟩
    · exact fun hempty => hne (String.ofList_eq_empty_iff.mp hempty)
    · simpa [String.toList_ofList] using hall
  | var v =>
    obtain ⟨_, m, hpercent, hrest⟩ := Parser.bind_eq_done_iff.mp h
    obtain ⟨c, n, hcategory, hrest⟩ := Parser.bind_eq_done_iff.mp hrest
    obtain ⟨i, m', hindex, hpure⟩ := Parser.bind_eq_done_iff.mp hrest
    obtain ⟨rfl, rfl⟩ := Parser.pure_eq_done_iff.mp hpure
    obtain rfl := Parser.symbol_eq_done_iff.mp hpercent
    obtain rfl := Parser.category_eq_done_iff.mp hcategory
    obtain ⟨ds, rfl, hnumeral⟩ := isNumeral_of_index hindex
    exact ⟨'%' :: c.letter :: ds, rfl, ds, rfl, hnumeral⟩
  | bound i => exact spells_of_bound h
  | literal x =>
    obtain ⟨cs, rfl⟩ := Parser.nearSighted_literal.suffix h
    have hcs := Parser.nearSighted_literal.replace h Parser.mayFollow_nil
    rw [List.append_nil] at hcs
    exact ⟨cs, rfl, hcs⟩

def opensExpr : Token → Bool
  | operator _ | var _ | literal _ => true
  | _ => false

end Token

namespace Parser

variable {s r : List Char} {x : Binary64}

def opensTerm (c : Char) : Bool := c == '%' || c == '.' || c == '+' || c == '-' || c.isDigit

theorem places_begins {d : Decimal} (h : places s = .done d r) :
    ∃ c t, s = c :: t ∧ opensTerm c = true ∧ c ≠ '%' := by
  obtain h | ⟨-, h⟩ := orElse_eq_done_iff.mp h
  · obtain ⟨whole, m, hwhole, -⟩ := bind_eq_done_iff.mp h
    obtain ⟨rfl, hne, hdigits, -⟩ := span_eq_done_iff.mp hwhole
    obtain ⟨c, cs, rfl⟩ := List.exists_cons_of_ne_nil hne
    have hc : c.isDigit = true := hdigits c List.mem_cons_self
    refine ⟨c, cs ++ m, rfl, Bool.or_eq_true_iff.mpr (Or.inr hc), ?_⟩
    rintro rfl
    cases hc
  · obtain ⟨_, m, hpoint, -⟩ := bind_eq_done_iff.mp h
    exact ⟨'.', m, symbol_eq_done_iff.mp hpoint, rfl, by decide⟩

/-- How a literal begins. -/
theorem literal_begins (h : literal s = .done x r) :
    (∃ c t, s = c :: t ∧ opensTerm c = true ∧ c ≠ '%') ∨
      BeginsCaseless "nan" s ∨ BeginsCaseless "inf" s := by
  obtain h | ⟨-, h⟩ := orElse_eq_done_iff.mp h
  · obtain ⟨d, m, hplaces⟩ | ⟨c, t, rfl, hc⟩ | hword := plainLiteral_begins h
    · exact Or.inl (places_begins hplaces)
    · refine Or.inl ⟨c, t, rfl, ?_⟩
      obtain rfl | rfl := hc <;> decide
    · exact Or.inr hword
  · obtain ⟨_, m, hminus, -⟩ := bind_eq_done_iff.mp h
    exact Or.inl ⟨'-', m, symbol_eq_done_iff.mp hminus, by decide⟩

theorem BeginsCaseless.strip?_eq {word other : String} (h : BeginsCaseless word s)
    (hpart : ¬other.toList.map Char.toLower <+: word.toList)
    (hpart' : ¬word.toList <+: other.toList.map Char.toLower) : strip? other.toList s = none := by
  obtain ⟨cs, t, rfl, hlower⟩ := h
  refine Option.eq_none_iff_forall_ne_some.mpr fun u hu => ?_
  have hother : other.toList <+: cs ++ t := ⟨u, (strip?_eq_some_iff.mp hu).symm⟩
  obtain hprefix | hprefix := List.prefix_or_prefix_of_prefix hother (List.prefix_append cs t)
  · exact hpart (hlower ▸ hprefix.map _)
  · exact hpart' (hlower ▸ hprefix.map _)

theorem declines_operator (h : ∀ op : Operator, strip? op.name.toList s = none) :
    Declines operator s := by
  cases hspan : span .letter Char.isAlpha s with
  | done word m =>
    obtain ⟨rfl, -⟩ := span_eq_done_iff.mp hspan
    refine declines_accept hspan (Option.eq_none_iff_forall_ne_some.mpr fun op hop => ?_)
    have hstrip : strip? op.name.toList (word ++ m) = some m := by
      rw [Operator.name_of_ofName? hop, String.toList_ofList]
      exact strip?_eq_some_iff.mpr rfl
    rw [h op] at hstrip
    cases hstrip
  | declined e => exact Declines.accept ⟨e, hspan⟩
  | failed e =>
    rw [span] at hspan
    split at hspan <;> cases hspan

theorem declines_operator_of_literal (h : literal s = .done x r) : Declines operator s := by
  have hparts : ∀ op ∈ Operator.all, ∀ word ∈ ["nan", "inf"],
      ¬op.name.toList.map Char.toLower <+: word.toList ∧
        ¬word.toList <+: op.name.toList.map Char.toLower := by decide
  obtain ⟨c, t, rfl, hc, -⟩ | hword | hword := literal_begins h
  · refine (declines_span (ends_cons ?_)).accept
    simp only [opensTerm, Bool.or_eq_true, beq_iff_eq] at hc
    obtain (((rfl | rfl) | rfl) | rfl) | hdigit := hc
    · rfl
    · rfl
    · rfl
    · rfl
    · exact isAlpha_of_isDigit hdigit
  · exact declines_operator fun op => hword.strip?_eq
      (hparts op op.mem_all "nan" (by decide)).1 (hparts op op.mem_all "nan" (by decide)).2
  · exact declines_operator fun op => hword.strip?_eq
      (hparts op op.mem_all "inf" (by decide)).1 (hparts op op.mem_all "inf" (by decide)).2

theorem declines_var_of_literal (h : literal s = .done x r) : Declines var s := by
  refine (declines_symbol fun hpercent => ?_).bind
  obtain ⟨t, rfl⟩ := List.head?_eq_some_iff.mp hpercent
  obtain ⟨c, u, heq, -, hc⟩ | hword | hword := literal_begins h
  · cases heq
    exact hc rfl
  · obtain ⟨c, u, heq, hc⟩ := hword.isAlpha (Or.inl rfl)
    cases heq
    cases hc
  · obtain ⟨c, u, heq, hc⟩ := hword.isAlpha (Or.inr rfl)
    cases heq
    cases hc

theorem declines_var_of_operator {op : Operator} (h : operator s = .done op r) :
    Declines var s := by
  refine (declines_symbol fun hpercent => ?_).bind
  obtain ⟨t, rfl⟩ := List.head?_eq_some_iff.mp hpercent
  exact (declines_span (ends_cons rfl)).accept.ne_done h

end Parser

namespace Token

variable {tok : Token} {s r : List Char}

/-- The words that a statement other than an assignment begins with, that of a declaration, and the
end of a block begin no expression. -/
theorem ReadTo.strip?_eq (h : tok.ReadTo s r) (hopens : tok.opensExpr = true) {w : Word}
    (hw : w ∈ [Word.local, .if, .for, .openBrace, .closeBrace]) :
    Parser.strip? w.text.toList s = none := by
  have hparts : ∀ w ∈ [Word.local, .if, .for, .openBrace, .closeBrace], ∀ word ∈ ["nan", "inf"],
      ¬w.text.toList.map Char.toLower <+: word.toList ∧
        ¬word.toList <+: w.text.toList.map Char.toLower := by decide
  have hterm {c : Char} {t : List Char} (hc : Parser.opensTerm c = true) :
      Parser.strip? w.text.toList (c :: t) = none := by
    simp only [List.mem_cons, List.not_mem_nil, or_false] at hw
    obtain rfl | rfl | rfl | rfl | rfl := hw <;>
      exact Parser.strip?_cons_ne fun heq => by rw [← heq] at hc; cases hc
  cases tok with
  | operator op =>
    obtain ⟨cs, rfl, rfl⟩ := h.spells
    simp only [List.mem_cons, List.not_mem_nil, or_false] at hw
    obtain rfl | rfl | rfl | rfl | rfl := hw <;> cases op <;> rfl
  | var v =>
    obtain ⟨cs, rfl, ds, rfl, -⟩ := h.spells
    exact hterm rfl
  | literal x =>
    obtain ⟨c, t, rfl, hc, -⟩ | hword | hword := Parser.literal_begins h
    · exact hterm hc
    · exact hword.strip?_eq (hparts w hw "nan" (by decide)).1 (hparts w hw "nan" (by decide)).2
    · exact hword.strip?_eq (hparts w hw "inf" (by decide)).1 (hparts w hw "inf" (by decide)).2
  | word w => cases hopens
  | name text => cases hopens
  | bound i => cases hopens

end Token

end ShaderTree
