import ShaderTree.Proofs.GlslGrammar
import ShaderTree.Proofs.Refusal
import ShaderTree.Proofs.StructDefinitions

namespace ShaderTree

namespace Glsl

/-- What the grammar asks of the tokens behind these two keywords: a struct has a name and a member,
and a function is named unless `void` stands for its parameters. -/
def Lexeme.Fits (t : Lexeme) (rest : List Lexeme) : Prop :=
  (t = .word "struct" →
    ∃ name first r, rest = .word name :: .mark "\x7b" :: first :: r ∧ first ≠ .mark "\x7d") ∧
  (t = .word "void" →
    (∃ r, rest = .mark ")" :: r) ∨ ∃ name r, rest = .word name :: r ∧ IsName name)

inductive AllFit : List Lexeme → Prop
  | nil : AllFit []
  | cons {t : Lexeme} {ts : List Lexeme} (ht : t.Fits ts) (hts : AllFit ts) : AllFit (t :: ts)

variable {t : Lexeme} {ts us r : List Lexeme}

theorem Lexeme.Fits.append (h : t.Fits ts) (us : List Lexeme) : t.Fits (ts ++ us) := by
  obtain ⟨hstruct, hvoid⟩ := h
  constructor
  · intro ht
    obtain ⟨name, first, r, rfl, hfirst⟩ := hstruct ht
    exact ⟨name, first, r ++ us, rfl, hfirst⟩
  · intro ht
    obtain ⟨r, rfl⟩ | ⟨name, r, rfl, hname⟩ := hvoid ht
    · exact Or.inl ⟨r ++ us, rfl⟩
    · exact Or.inr ⟨name, r ++ us, rfl, hname⟩

theorem fits_word {w : String} (h : w ≠ "struct" ∧ w ≠ "void") (ts : List Lexeme) :
    (Lexeme.word w).Fits ts :=
  ⟨fun ht => absurd (Lexeme.word.inj ht) h.1, fun ht => absurd (Lexeme.word.inj ht) h.2⟩

theorem exists_word_of_declaration (h : Derives .declaration ts) : ∃ w r, ts = .word w :: r := by
  cases h with
  | declaration ht _ =>
    cases ht with
    | basic _ => exact ⟨_, _, rfl⟩
    | struct _ => exact ⟨_, _, rfl⟩

namespace AllFit

theorem append (ht : AllFit ts) (hu : AllFit us) : AllFit (ts ++ us) := by
  induction ht with
  | nil => exact hu
  | cons hfits _ ih => exact .cons (hfits.append us) ih

theorem of_append (h : AllFit (ts ++ us)) : AllFit us := by
  induction ts with
  | nil => exact h
  | cons t ts ih =>
    cases h with
    | cons _ hrest => exact ih hrest

theorem fits (h : AllFit (ts ++ t :: us)) : t.Fits us := by
  cases h.of_append with
  | cons hfits _ => exact hfits

theorem mark (m : String) (h : AllFit ts) : AllFit (.mark m :: ts) := .cons ⟨nofun, nofun⟩ h

theorem number (text : String) (h : AllFit ts) : AllFit (.number text :: ts) :=
  .cons ⟨nofun, nofun⟩ h

theorem word {w : String} (hw : w ≠ "struct" ∧ w ≠ "void") (h : AllFit ts) :
    AllFit (.word w :: ts) := .cons (fits_word hw ts) h

theorem name {name : String} (hname : IsName name) (h : AllFit ts) :
    AllFit (.word name :: ts) := by
  have hreserved : "struct" ∈ reservedWords ∧ "void" ∈ reservedWords := by decide +kernel
  refine h.word ⟨?_, ?_⟩
  · rintro rfl
    exact hname.2 hreserved.1
  · rintro rfl
    exact hname.2 hreserved.2

theorem void (hfits : (∃ r, ts = .mark ")" :: r) ∨ ∃ name r, ts = .word name :: r ∧ IsName name)
    (h : AllFit ts) : AllFit (.word "void" :: ts) :=
  .cons ⟨fun ht => absurd (Lexeme.word.inj ht) (by decide), fun _ => hfits⟩ h

/-- Tokens that the grammar derives fit what follows them. -/
theorem of_derives {s : Symbol} (h : Derives s ts) : AllFit ts := by
  induction h with
  | nil => exact .nil
  | cons _ _ iha ihb => exact iha.append ihb
  | basic ht =>
    have hplain : ∀ t ∈ typeKeywords, t ≠ "struct" ∧ t ≠ "void" := by decide
    exact AllFit.nil.word (hplain _ ht)
  | struct hname => exact AllFit.nil.name hname
  | declaration _ hname ih => exact ih.append ((AllFit.nil.mark ";").name hname)
  | natural _ => exact AllFit.nil.number _
  | negative _ => exact (AllFit.nil.number _).mark _
  | increment => exact AllFit.nil.mark _
  | decrement => exact AllFit.nil.mark _
  | addition _ ih => exact ih.mark _
  | literal _ => exact AllFit.nil.number _
  | negated _ => exact (AllFit.nil.number _).mark _
  | named hname => exact AllFit.nil.name hname
  | @binary m _ _ _ _ _ iha ihb =>
    have hleft := iha.mark "("
    have hright := ((ihb.mark "(").mark m).mark ")"
    exact (hleft.append hright).append (AllFit.nil.mark ")")
  | assignment hname _ ih =>
    exact ((ih.mark "=").name hname).append (AllFit.nil.mark ";")
  | block _ ih => exact (ih.mark _).append (AllFit.nil.mark _)
  | ifElse _ _ _ ihc iht ihe =>
    have hcond := (ihc.mark "(").word (w := "if") (by decide)
    have hthen := (iht.mark "\x7b").mark ")"
    have helse := ((ihe.mark "\x7b").word (w := "else") (by decide)).mark "\x7d"
    exact ((hcond.append hthen).append helse).append (AllFit.nil.mark _)
  | loop hname _ _ _ _ ihi ihl ihc ihb =>
    have hinit :=
      ((((ihi.mark "=").name hname).word (w := "int") (by decide)).mark "(").word (w := "for")
        (by decide)
    have hlimit := ((ihl.mark "<").name hname).mark ";"
    have hchange := (ihc.name hname).mark ";"
    have hbody := (ihb.mark "\x7b").mark ")"
    exact (((hinit.append hlimit).append hchange).append hbody).append (AllFit.nil.mark _)
  | body _ _ ihd ihs => exact ihd.append ihs
  | parameter hd _ hname ih =>
    have hplain : ∀ d ∈ ["in", "inout", "out"], d ≠ "struct" ∧ d ≠ "void" := by decide
    exact (ih.word (hplain _ hd)).append (AllFit.nil.name hname)
  | moreParameter _ ih => exact ih.mark _
  | noParameters =>
    have hvoid := (AllFit.nil.mark ")").void (Or.inl ⟨[], rfl⟩)
    exact hvoid.mark "("
  | parameters _ _ ihq ihqs => exact ((ihq.append ihqs).mark _).append (AllFit.nil.mark _)
  | @structDefinition name _ ms hname hm _ ihm ihms =>
    obtain ⟨w, r, rfl⟩ := exists_word_of_declaration hm
    have hmembers := ((ihm.append ihms).mark "\x7b").name hname
    have hstruct : (Lexeme.word "struct").Fits
        (.word name :: .mark "\x7b" :: (.word w :: r ++ ms)) :=
      ⟨fun _ => ⟨name, _, _, rfl, nofun⟩, fun h => absurd (Lexeme.word.inj h) (by decide)⟩
    exact (AllFit.cons hstruct hmembers).append ((AllFit.nil.mark ";").mark "\x7d")
  | global hq _ ih =>
    have hplain : ∀ q ∈ ["uniform", "attribute", "varying"], q ≠ "struct" ∧ q ≠ "void" := by
      decide
    exact ih.word (hplain _ hq)
  | function hname _ _ ihq ihb =>
    have hhead := (ihq.name hname).void (Or.inr ⟨_, _, rfl, hname⟩)
    exact (hhead.append (ihb.mark "\x7b")).append (AllFit.nil.mark "\x7d")
  | unit _ _ _ ihs ihg ihf => exact (ihs.append ihg).append ihf

end AllFit

section

variable {table : StructTable} {cs : List Placed}

theorem ne_nil_of_allFit {ms : List Ty} (h : AllFit (lexemes cs))
    (hin : definition table ms <:+: cs) : ms ≠ [] := by
  rintro rfl
  obtain ⟨before, after, rfl⟩ := hin
  have htext : lexemes (before ++ definition table [] ++ after) = lexemes before ++
      .word "struct" :: .word (structName (table.idxOf [])) :: .mark "\x7b" :: .mark "\x7d" ::
        .mark ";" :: lexemes after := by
    rw [lexemes_append, lexemes_append, List.append_assoc]
    rfl
  rw [htext] at h
  obtain ⟨name, first, r, hrest, hfirst⟩ := h.fits.1 rfl
  simp only [List.cons.injEq] at hrest
  exact hfirst hrest.2.2.1.symm

theorem isName_of_allFit {f : Func} (h : AllFit (lexemes cs)) (hin : funcClauses table f <:+: cs) :
    IsName f.name := by
  obtain ⟨before, after, rfl⟩ := hin
  obtain ⟨r, htext⟩ : ∃ r, lexemes (before ++ funcClauses table f ++ after) = lexemes before ++
      .word "void" :: .word f.name :: .mark "(" :: r := by
    rw [lexemes_append, lexemes_append, List.append_assoc]
    exact ⟨_, rfl⟩
  rw [htext] at h
  obtain ⟨_, hrest⟩ | ⟨name, _, hrest, hname⟩ := h.fits.2 rfl
  · cases hrest
  · cases hrest
    exact hname

end

end Glsl

namespace Program

open Glsl

variable {p : Program}

/-- The rendered text is a sentence exactly if all structs have members and no function has a
reserved word for a name. -/
theorem isSentence_clauses_iff (h : p.issues = []) :
    IsSentence (text p.clauses) ↔
      [] ∉ Ty.structsOf p.declared ∧ ∀ f ∈ p.funcs, f.name ∉ reservedWords := by
  constructor
  · rintro ⟨ts, hlexes, hderives⟩
    obtain rfl : lexemes p.clauses = ts := Option.some.inj ((lexes_clauses h).symm.trans hlexes)
    have hfit := AllFit.of_derives hderives
    constructor
    · intro hmem
      have hcomplete := StructTable.complete_ofProgram p
      have horder := (StructTable.mem_definitionOrder hcomplete).mpr
        (StructTable.mem_ofProgram.mpr hmem)
      have hdefinitions : definitions (StructTable.ofProgram p) <+: p.clauses := by
        simp only [clauses, headClauses, List.append_assoc]
        exact List.prefix_append _ _
      have hin : definition (StructTable.ofProgram p) [] <:+:
          definitions (StructTable.ofProgram p) := definition_infix horder
      exact ne_nil_of_allFit hfit (hin.trans hdefinitions.isInfix) rfl
    · intro f hf
      have hfuncs : p.funcs.flatMap (funcClauses (StructTable.ofProgram p)) <:+ p.clauses :=
        List.suffix_append _ _
      have hfunc : funcClauses (StructTable.ofProgram p) f <:+:
          p.funcs.flatMap (funcClauses (StructTable.ofProgram p)) :=
        List.infix_of_mem_flatten (List.mem_map_of_mem hf)
      exact (isName_of_allFit hfit (hfunc.trans hfuncs.isInfix)).2
  · rintro ⟨hstructs, hnames⟩
    exact ⟨_, lexes_clauses h, derives_clauses h hstructs hnames⟩

/-- A program without issues is rendered, its text is read as tokens, and they are a sentence of
GLSL exactly if none of its structs is without members and none of its functions has a reserved word
for a name. -/
theorem rendered_sentence_iff (h : p.issues = []) :
    ∃ text, p.render = .ok text ∧ (∃ ts, Lexes text.toList ts) ∧
      (IsSentence text ↔
        [] ∉ Ty.structsOf p.declared ∧ ∀ f ∈ p.funcs, f.name ∉ reservedWords) :=
  ⟨_, render_of_issues h, ⟨_, lexes_clauses h⟩, isSentence_clauses_iff h⟩

def nested : Program where
  uniforms := [.struct [.basic .vec2, .struct [.basic .float]]]
  varyings := [.basic .float]
  funcs := [{
    name := "main"
    inParams := [.basic .int]
    body := ⟨[], [.forRange 0 4 (-2) ⟨[.basic .float],
      [.assign (.var ⟨.varying, 0⟩)
        (.binary .add (.num (.ofBits 0xbff8000000000000)) (.var ⟨.local, 2⟩))]⟩]⟩ }]

theorem nested_sentence : nested.issues = [] ∧
    ∃ text, nested.render = .ok text ∧ IsSentence text := by
  have h : nested.issues = [] := by decide
  obtain ⟨text, hrender, -, hiff⟩ := rendered_sentence_iff h
  exact ⟨h, text, hrender, hiff.mpr ⟨by decide, by decide +kernel⟩⟩

def memberless : Program where
  uniforms := [.struct []]

def namedFloat : Program where
  funcs := [{ name := "float" }]

theorem memberless_and_namedFloat_no_sentences :
    (memberless.issues = [] ∧
      memberless.render = .ok "struct S0 \x7b\n\x7d;\nuniform S0 U0;\n" ∧
      ¬IsSentence "struct S0 \x7b\n\x7d;\nuniform S0 U0;\n") ∧
    namedFloat.issues = [] ∧
      namedFloat.render = .ok "void float(void) \x7b\n\x7d\n" ∧
      ¬IsSentence "void float(void) \x7b\n\x7d\n" := by
  have hmemberless : memberless.issues = [] := by decide
  have hnamed : namedFloat.issues = [] := by decide
  have hstruct : ¬([] ∉ Ty.structsOf memberless.declared ∧
      ∀ f ∈ memberless.funcs, f.name ∉ reservedWords) := by decide
  have hfloat : ¬([] ∉ Ty.structsOf namedFloat.declared ∧
      ∀ f ∈ namedFloat.funcs, f.name ∉ reservedWords) := by decide +kernel
  refine ⟨⟨hmemberless, rfl, fun hsentence => hstruct ?_⟩,
    hnamed, rfl, fun hsentence => hfloat ?_⟩
  · exact (isSentence_clauses_iff hmemberless).mp hsentence
  · exact (isSentence_clauses_iff hnamed).mp hsentence

end Program

end ShaderTree
