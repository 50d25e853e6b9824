import ShaderTree.Proofs.Spacing
import ShaderTree.Text.WhiteSpace

namespace ShaderTree

namespace Text

def whiteSpaceCodes : List Nat :=
  [0x9, 0xa, 0xb, 0xc, 0xd, 0x20, 0x85, 0xa0, 0x1680, 0x2000, 0x2001, 0x2002, 0x2003, 0x2004,
   0x2005, 0x2006, 0x2007, 0x2008, 0x2009, 0x200a, 0x2028, 0x2029, 0x202f, 0x205f, 0x3000]

theorem mem_whiteSpaceCodes {c : Char} (h : isWhiteSpace c = true) : c.toNat ∈ whiteSpaceCodes := by
  simp only [isWhiteSpace, Bool.or_eq_true, Bool.and_eq_true, decide_eq_true_eq, beq_iff_eq] at h
  simp only [whiteSpaceCodes, List.mem_cons, List.not_mem_nil, or_false]
  omega

theorem isWhiteSpace_eq_false {isIn : Char → Bool}
    (hclass : ∀ n ∈ whiteSpaceCodes, isIn (Char.ofNat n) = false) {c : Char} (h : isIn c = true) :
    isWhiteSpace c = false := by
  refine Bool.eq_false_iff.mpr fun hspace => ?_
  have hout := hclass c.toNat (mem_whiteSpaceCodes hspace)
  rw [Char.ofNat_toNat, h] at hout
  cases hout

end Text

/-- The character is neither white space nor begins a comment. -/
def isVisible (c : Char) : Bool := !Text.isWhiteSpace c && c != ';'

def isBrace (c : Char) : Bool := c == '{' || c == '}'

theorem isVisible_eq_true {isIn : Char → Bool}
    (hclass : ∀ n ∈ Text.whiteSpaceCodes, isIn (Char.ofNat n) = false) (hsemi : isIn ';' = false)
    {c : Char} (h : isIn c = true) : isVisible c = true := by
  rw [isVisible, Text.isWhiteSpace_eq_false hclass h, Bool.not_false, Bool.true_and, bne_iff_ne]
  rintro rfl
  rw [h] at hsemi
  cases hsemi

def isPlain (c : Char) : Bool := isVisible c && !isBrace c

theorem isPlain_eq_true {isIn : Char → Bool}
    (hclass : ∀ n ∈ Text.whiteSpaceCodes, isIn (Char.ofNat n) = false) (hsemi : isIn ';' = false)
    (hopen : isIn '{' = false) (hclose : isIn '}' = false) {c : Char} (h : isIn c = true) :
    isPlain c = true := by
  have hne {d : Char} (hd : isIn d = false) : c ≠ d := by
    rintro rfl
    exact Bool.false_ne_true (hd.symm.trans h)
  have hbrace : isBrace c = false :=
    Bool.or_eq_false_iff.mpr ⟨beq_eq_false_iff_ne.mpr (hne hopen),
      beq_eq_false_iff_ne.mpr (hne hclose)⟩
  rw [isPlain, isVisible_eq_true hclass hsemi h, hbrace]
  rfl

theorem isPlain_isDigit {c : Char} (h : c.isDigit = true) : isPlain c = true :=
  isPlain_eq_true (by decide) rfl rfl rfl h

theorem isPlain_name {c : Char} (h : (Text.isAlphanumeric c || c == '_') = true) :
    isPlain c = true :=
  @isPlain_eq_true (fun c => Text.isAlphanumeric c || c == '_') (by decide +kernel)
    (by decide +kernel) (by decide +kernel) (by decide +kernel) c h

def isLiteralChar (c : Char) : Bool := c.isAlphanum || c == '+' || c == '-' || c == '.'

theorem isPlain_isLiteralChar {c : Char} (h : isLiteralChar c = true) : isPlain c = true :=
  isPlain_eq_true (by decide) rfl rfl rfl h

namespace Parser

variable {α β : Type} {isIn isIn' : Char → Bool} {p q : Parser α} {f : α → Parser β}

def Takes (isIn : Char → Bool) (p : Parser α) : Prop :=
  ∀ s a r, p s = .done a r → ∃ cs, s = cs ++ r ∧ ∀ c ∈ cs, isIn c = true

theorem takes_pure (a : α) : Takes isIn (pure a) := by
  intro s b r h
  obtain ⟨-, rfl⟩ := pure_eq_done_iff.mp h
  exact ⟨[], rfl, List.forall_mem_nil _⟩

theorem Takes.bind (hp : Takes isIn p) (hf : ∀ a, Takes isIn (f a)) : Takes isIn (p >>= f) := by
  intro s b r h
  obtain ⟨a, m, ha, hb⟩ := bind_eq_done_iff.mp h
  obtain ⟨cs, rfl, hcs⟩ := hp s a m ha
  obtain ⟨ds, rfl, hds⟩ := hf a m b r hb
  exact ⟨cs ++ ds, by rw [List.append_assoc], List.forall_mem_append.mpr ⟨hcs, hds⟩⟩

theorem Takes.orElse (hp : Takes isIn p) (hq : Takes isIn q) : Takes isIn (orElse p q) := by
  intro s a r h
  obtain h | ⟨-, h⟩ := orElse_eq_done_iff.mp h
  · exact hp s a r h
  · exact hq s a r h

theorem Takes.optional (hp : Takes isIn p) : Takes isIn (optional p) := by
  intro s o r h
  obtain ⟨a, -, h⟩ | ⟨-, -, rfl⟩ := optional_eq_done_iff.mp h
  · exact hp s a r h
  · exact ⟨[], rfl, List.forall_mem_nil _⟩

theorem Takes.commit (hp : Takes isIn p) : Takes isIn (commit p) :=
  fun s a r h => hp s a r (commit_eq_done_iff.mp h)

theorem Takes.blame {cause : Cause} (hp : Takes isIn p) : Takes isIn (blame cause p) :=
  fun s a r h => hp s a r (blame_eq_done_iff.mp h)

theorem takes_symbol {c : Char} (hc : isIn c = true) : Takes isIn (symbol c) := by
  intro s u r h
  obtain rfl := symbol_eq_done_iff.mp h
  exact ⟨[c], rfl, List.forall_mem_singleton.mpr hc⟩

theorem takes_span {cause : Cause} (h : ∀ c, isIn' c = true → isIn c = true) :
    Takes isIn (span cause isIn') := by
  intro s word r hspan
  obtain ⟨rfl, -, hall, -⟩ := span_eq_done_iff.mp hspan
  exact ⟨word, rfl, fun c hc => h c (hall c hc)⟩

theorem takes_caseless {word : String} {x : Binary64}
    (hword : ∀ c : Char, c.toLower ∈ word.toList → isIn c = true) :
    Takes isIn (caseless word x) := by
  intro s y r h
  obtain ⟨-, cs, rfl, hlower⟩ := caseless_eq_done_iff.mp h
  exact ⟨cs, rfl, fun c hc => hword c (hlower ▸ List.mem_map_of_mem hc)⟩

theorem isLiteralChar_isDigit {c : Char} (h : c.isDigit = true) : isLiteralChar c = true := by
  simp [isLiteralChar, Char.isAlphanum, h]

theorem takes_digits : Takes isLiteralChar digits := takes_span fun _ => isLiteralChar_isDigit

theorem takes_sign : Takes isLiteralChar sign := by
  have hplus : Takes isLiteralChar (do symbol '+'; pure false) :=
    (takes_symbol rfl).bind fun _ => takes_pure false
  have hminus : Takes isLiteralChar (do symbol '-'; pure true) :=
    (takes_symbol rfl).bind fun _ => takes_pure true
  exact (hplus.orElse hminus).optional.bind fun _ => takes_pure _

theorem takes_places : Takes isLiteralChar places := by
  have hfraction : Takes isLiteralChar fraction :=
    (takes_symbol rfl).bind fun _ => takes_digits.optional.bind fun _ => takes_pure _
  refine Takes.orElse ?_ ?_
  · exact takes_digits.bind fun _ => hfraction.optional.bind fun _ => takes_pure _
  · exact (takes_symbol rfl).bind fun _ => takes_digits.bind fun _ => takes_pure _

theorem takes_exponent : Takes isLiteralChar exponent := by
  have hmark : Takes isLiteralChar (orElse (symbol 'e') (symbol 'E')) :=
    (takes_symbol rfl).orElse (takes_symbol rfl)
  exact hmark.bind fun _ => takes_sign.bind fun _ => takes_digits.commit.bind fun _ => takes_pure _

theorem takes_plainLiteral : Takes isLiteralChar plainLiteral := by
  have hdecimal : Takes isLiteralChar decimal :=
    takes_sign.bind fun _ => takes_places.bind fun _ =>
      takes_exponent.optional.bind fun _ => takes_pure _
  have hword {word : String} (hword : word = "nan" ∨ word = "inf") (x : Binary64) :
      Takes isLiteralChar (caseless word x) := by
    refine takes_caseless fun c hc => ?_
    have hletter : ∀ d ∈ word.toList, d.isAlpha = true := by
      obtain rfl | rfl := hword <;> exact List.all_eq_true.mp (by decide)
    simp [isLiteralChar, Char.isAlphanum, isAlpha_of_toLower (hletter _ hc)]
  exact hdecimal.blame.orElse ((hword (Or.inl rfl) _).orElse (hword (Or.inr rfl) _))

theorem takes_literal : Takes isLiteralChar literal :=
  takes_plainLiteral.orElse <|
    (takes_symbol rfl).bind fun _ => takes_plainLiteral.bind fun _ => takes_pure _

end Parser

theorem Word.plain_text {w : Word} (hopen : w ≠ .openBrace) (hclose : w ≠ .closeBrace) :
    ∀ c ∈ w.text.toList, isPlain c = true := by
  refine List.all_eq_true.mp ?_
  cases w with
  | openBrace => exact absurd rfl hopen
  | closeBrace => exact absurd rfl hclose
  | basic b => cases b <;> decide
  | direction d => cases d <;> decide
  | _ => decide

namespace Token

variable {tok : Token} {cs : List Char}

def isBrace (tok : Token) : Bool := tok == word .openBrace || tok == word .closeBrace

theorem Spells.plain (h : tok.Spells cs) (hbrace : tok.isBrace = false) :
    ∀ c ∈ cs, isPlain c = true := by
  cases tok with
  | word w =>
    obtain rfl : cs = w.text.toList := h
    refine Word.plain_text ?_ ?_ <;> rintro rfl <;> cases hbrace
  | operator op =>
    obtain rfl : cs = op.name.toList := h
    exact List.all_eq_true.mp (by cases op <;> decide)
  | name text =>
    obtain ⟨rfl, -, hall⟩ := h
    refine List.forall_mem_cons.mpr ⟨by decide, fun c hc => isPlain_name ?_⟩
    simpa using hall c hc
  | var v =>
    obtain ⟨ds, rfl, hds⟩ := h
    have hletter : isPlain v.category.letter = true := by cases v.category <;> decide
    exact List.forall_mem_cons.mpr ⟨by decide, List.forall_mem_cons.mpr
      ⟨hletter, fun c hc => isPlain_isDigit (hds.isDigit c hc)⟩⟩
  | bound i =>
    obtain ⟨ds, n, hds, ⟨rfl, -⟩ | ⟨rfl, -⟩⟩ := h
    · exact fun c hc => isPlain_isDigit (hds.isDigit c hc)
    · exact List.forall_mem_cons.mpr
        ⟨by decide, fun c hc => isPlain_isDigit (hds.isDigit c hc)⟩
  | literal x =>
    obtain ⟨cs', hcs, hall⟩ := Parser.takes_literal cs x [] h
    rw [List.append_nil] at hcs
    subst hcs
    exact fun c hc => isPlain_isLiteralChar (hall c hc)

theorem Spells.visible (h : tok.Spells cs) : ∀ c ∈ cs, isVisible c = true := by
  cases hbrace : tok.isBrace with
  | false => exact fun c hc => (Bool.and_eq_true_iff.mp (h.plain hbrace c hc)).1
  | true =>
    simp only [isBrace, Bool.or_eq_true, beq_iff_eq] at hbrace
    obtain rfl | rfl := hbrace
    · obtain rfl : cs = "\x7b".toList := h
      exact List.forall_mem_singleton.mpr rfl
    · obtain rfl : cs = "\x7d".toList := h
      exact List.forall_mem_singleton.mpr rfl

end Token

end ShaderTree
