import Mathlib
import ShaderTree.Proofs.Faults

namespace ShaderTree

namespace Text

variable {source before rest : List Char} {position k : Nat}

def feedsFrom (start : Nat) : List Char → List Nat
  | [] => []
  | c :: cs =>
    if c = '\n' then start :: feedsFrom (start + c.utf8Size) cs
    else feedsFrom (start + c.utf8Size) cs

def feeds (source : List Char) : List Nat := feedsFrom 0 source

/-- The position right behind the `n`-th line feed, where a line begins. The first line begins
where the text does. -/
def lineStart (source : List Char) (n : Nat) : Nat :=
  if n = 0 then 0 else (feeds source).getD (n - 1) 0 + 1

/-- A position beyond the end of the text counts as the end. -/
def clamped (source : List Char) (position : Nat) : Nat := min position (utf8Length source)

/-- The position is between two characters, or at an end of the text. -/
def IsBoundary (source : List Char) (k : Nat) : Prop :=
  ∃ before rest, source = before ++ rest ∧ utf8Length before = k

structure LineColumn.IsOf (place : LineColumn) (source : List Char) (k : Nat) : Prop where
  line_pos : 1 ≤ place.line
  column_pos : 1 ≤ place.column
  feeds_before : place.line - 1 = ((feeds source).filter (· < k)).length
  position_eq : lineStart source (place.line - 1) + (place.column - 1) = k
  no_feed_between : ∀ i ∈ feeds source, ¬(lineStart source (place.line - 1) ≤ i ∧ i < k)

def LineColumn.Precedes (a b : LineColumn) : Prop :=
  a.line < b.line ∨ a.line = b.line ∧ a.column < b.column

theorem feedsFrom_append (start : Nat) (cs ds : List Char) :
    feedsFrom start (cs ++ ds) = feedsFrom start cs ++ feedsFrom (start + utf8Length cs) ds := by
  induction cs generalizing start with
  | nil => rfl
  | cons c cs ih =>
    rw [List.cons_append, feedsFrom, feedsFrom, ih, utf8Length, Nat.add_assoc]
    split <;> rfl

theorem mem_feedsFrom {start i : Nat} {cs : List Char} (h : i ∈ feedsFrom start cs) :
    start ≤ i ∧ i < start + utf8Length cs := by
  induction cs generalizing start with
  | nil => cases h
  | cons c cs ih =>
    have hpos := c.utf8Size_pos
    have hmore (h : i ∈ feedsFrom (start + c.utf8Size) cs) :
        start ≤ i ∧ i < start + utf8Length (c :: cs) := by
      obtain ⟨hlow, hhigh⟩ := ih h
      rw [utf8Length]
      omega
    rw [feedsFrom] at h
    split at h
    · obtain rfl | h := List.mem_cons.mp h
      · rw [utf8Length]
        omega
      · exact hmore h
    · exact hmore h

theorem length_feedsFrom (start : Nat) (cs : List Char) :
    (feedsFrom start cs).length = cs.count '\n' := by
  induction cs generalizing start with
  | nil => rfl
  | cons c cs ih =>
    rw [feedsFrom, List.count_cons]
    by_cases hc : c = '\n' <;> simp [hc, ih]

theorem filter_feeds (before rest : List Char) :
    (feeds (before ++ rest)).filter (· < utf8Length before) = feeds before := by
  have hfront : (feeds before).filter (· < utf8Length before) = feeds before :=
    List.filter_eq_self.mpr fun i hi => by simpa using (mem_feedsFrom hi).2
  have hrest : (feedsFrom (0 + utf8Length before) rest).filter (· < utf8Length before) = [] :=
    List.filter_eq_nil_iff.mpr fun i hi => by simpa using (mem_feedsFrom hi).1
  rw [feeds, feedsFrom_append, List.filter_append, hrest, List.append_nil]
  exact hfront

theorem eq_line_or_lines (cs : List Char) : '\n' ∉ cs ∨
    ∃ head tail, cs = head ++ '\n' :: tail ∧ '\n' ∉ tail := by
  by_cases h : '\n' ∈ cs
  · obtain ⟨tail, head, heq, htail⟩ := List.eq_append_cons_of_mem (List.mem_reverse.mpr h)
    have hcs := congrArg List.reverse heq
    simp only [List.reverse_reverse, List.reverse_append, List.reverse_cons, List.append_assoc,
      List.singleton_append] at hcs
    exact Or.inr ⟨head.reverse, tail.reverse, hcs, by simpa using htail⟩
  · exact Or.inl h

theorem utf8Length_reverse (cs : List Char) : utf8Length cs.reverse = utf8Length cs := by
  induction cs with
  | nil => rfl
  | cons c cs ih =>
    rw [List.reverse_cons, utf8Length_append, ih, Nat.add_comm]
    rfl

theorem takeWhile_reverse {line : List Char} (h : '\n' ∉ line) (cs : List Char) :
    (cs ++ line).reverse.takeWhile (· != '\n') =
      line.reverse ++ cs.reverse.takeWhile (· != '\n') := by
  rw [List.reverse_append, List.takeWhile_append_of_pos]
  intro c hc
  exact bne_iff_ne.mpr fun heq => h (heq ▸ List.mem_reverse.mp hc)

theorem after_line {line : List Char} (h : '\n' ∉ line) :
    LineColumn.after line = ⟨1, utf8Length line + 1⟩ := by
  have hline := takeWhile_reverse h []
  rw [List.nil_append] at hline
  rw [LineColumn.after, hline, List.count_eq_zero.mpr h, utf8Length_append, utf8Length_reverse]
  rfl

theorem after_lines (head : List Char) {line : List Char} (h : '\n' ∉ line) :
    LineColumn.after (head ++ '\n' :: line) = ⟨head.count '\n' + 2, utf8Length line + 1⟩ := by
  have hline := takeWhile_reverse h (head ++ ['\n'])
  have hcount : (head ++ ['\n'] ++ line).count '\n' = head.count '\n' + 1 := by
    rw [List.count_append, List.count_append, List.count_eq_zero.mpr h]
    rfl
  rw [List.append_cons, LineColumn.after, hline, hcount, utf8Length_append, utf8Length_reverse,
    List.reverse_concat]
  simp [utf8Length]

theorem feedsFrom_eq_nil {start : Nat} {cs : List Char} (h : '\n' ∉ cs) :
    feedsFrom start cs = [] := by
  rw [← List.length_eq_zero_iff, length_feedsFrom, List.count_eq_zero.mpr h]

theorem feeds_lines (head : List Char) {line : List Char} (h : '\n' ∉ line) (rest : List Char) :
    feeds (head ++ '\n' :: line ++ rest) =
      feeds head ++ utf8Length head :: feedsFrom (utf8Length (head ++ '\n' :: line)) rest := by
  rw [feeds, feedsFrom_append, feedsFrom_append, feedsFrom, if_pos rfl, feedsFrom_eq_nil h,
    Nat.zero_add, Nat.zero_add, List.append_assoc]
  rfl

theorem lineStart_lines (head : List Char) {line : List Char} (h : '\n' ∉ line)
    (rest : List Char) :
    lineStart (head ++ '\n' :: line ++ rest) (head.count '\n' + 1) = utf8Length head + 1 := by
  rw [lineStart, if_neg (Nat.succ_ne_zero _), Nat.add_sub_cancel, feeds_lines head h,
    ← length_feedsFrom 0 head]
  simp [feeds]

/-- The line and the column of a text are those of the position behind it. -/
theorem isOf_after (before rest : List Char) :
    (LineColumn.after before).IsOf (before ++ rest) (utf8Length before) := by
  have hbefore : ((feeds (before ++ rest)).filter (· < utf8Length before)).length =
      before.count '\n' := by
    rw [filter_feeds, feeds, length_feedsFrom]
  obtain hline | ⟨head, line, rfl, hline⟩ := eq_line_or_lines before
  · rw [List.count_eq_zero.mpr hline] at hbefore
    rw [after_line hline]
    refine ⟨Nat.le_refl 1, Nat.le_add_left 1 _, hbefore.symm, Nat.zero_add _, fun i hi => ?_⟩
    rw [feeds, feedsFrom_append, feedsFrom_eq_nil hline] at hi
    have hrest := (mem_feedsFrom hi).1
    omega
  · have hlength : utf8Length (head ++ '\n' :: line) = utf8Length head + 1 + utf8Length line := by
      rw [utf8Length_append, utf8Length, Nat.add_assoc]
      rfl
    have hcount : (head ++ '\n' :: line).count '\n' = head.count '\n' + 1 := by
      rw [List.count_append, List.count_cons_self, List.count_eq_zero.mpr hline]
    have hstart := lineStart_lines head hline rest
    rw [after_lines head hline]
    refine ⟨Nat.le_add_left 1 _, Nat.le_add_left 1 _, (hbefore.trans hcount).symm,
      (congrArg (· + utf8Length line) hstart).trans hlength.symm, fun i hi hbetween => ?_⟩
    have hlow : utf8Length head + 1 ≤ i := hstart ▸ hbetween.1
    -- the line feeds of the head and the one behind it come too early, and the others too late
    rw [feeds_lines head hline] at hi
    obtain hi | hi := List.mem_append.mp hi
    · have hhead := (mem_feedsFrom hi).2
      omega
    · obtain rfl | hi := List.mem_cons.mp hi
      · omega
      · have hrest := (mem_feedsFrom hi).1
        omega

/-- The bytes up to a position are whole characters where the position is a boundary. -/
theorem takeBytes?_eq_some_iff : takeBytes? position source = some before ↔
    ∃ rest, source = before ++ rest ∧ utf8Length before = clamped source position := by
  induction source generalizing position before with
  | nil =>
    have hclamped : clamped [] position = 0 := Nat.min_zero position
    rw [takeBytes?, hclamped]
    constructor
    · rintro ⟨rfl⟩
      exact ⟨[], rfl, rfl⟩
    · rintro ⟨rest, hrest, -⟩
      rw [(List.append_eq_nil_iff.mp hrest.symm).1]
  | cons c cs ih =>
    have hpos := c.utf8Size_pos
    have hlength (ds : List Char) : utf8Length (c :: ds) = c.utf8Size + utf8Length ds := rfl
    have hclamped : clamped (c :: cs) position = min position (c.utf8Size + utf8Length cs) := rfl
    rw [takeBytes?, hclamped]
    constructor
    · intro h
      split at h
      next hzero =>
        cases h
        exact ⟨c :: cs, rfl, by rw [hzero, Nat.zero_min]; rfl⟩
      next =>
      split at h
      next hle =>
        obtain ⟨ds, hds, rfl⟩ := Option.map_eq_some_iff.mp h
        obtain ⟨rest, rfl, hlen⟩ := ih.mp hds
        refine ⟨rest, rfl, ?_⟩
        rw [hlength, hlen, clamped]
        omega
      next => cases h
    · rintro ⟨rest, hs, hlen⟩
      cases before with
      | nil =>
        have hzero : position = 0 := by
          have hlen : 0 = min position (c.utf8Size + utf8Length cs) := hlen
          omega
        rw [if_pos hzero]
      | cons d ds =>
        obtain ⟨rfl, rfl⟩ := List.cons.inj hs
        rw [hlength] at hlen
        rw [if_neg (by omega), if_pos (by omega), ih.mpr ⟨rest, rfl, by rw [clamped]; omega⟩]
        rfl

/-- A position has a line and a column just where it is a boundary. -/
theorem lineColumn?_eq_some_iff {place : LineColumn} : lineColumn? source position = some place ↔
    ∃ before rest, source = before ++ rest ∧ utf8Length before = clamped source position ∧
      LineColumn.after before = place := by
  simp only [lineColumn?, Option.map_eq_some_iff, takeBytes?_eq_some_iff]
  exact ⟨fun ⟨before, ⟨rest, hs, hlength⟩, hplace⟩ => ⟨before, rest, hs, hlength, hplace⟩,
    fun ⟨before, rest, hs, hlength, hplace⟩ => ⟨before, ⟨rest, hs, hlength⟩, hplace⟩⟩

theorem isOf_of_lineColumn? {place : LineColumn} (h : lineColumn? source position = some place) :
    place.IsOf source (clamped source position) := by
  obtain ⟨before, rest, rfl, hlength, rfl⟩ := lineColumn?_eq_some_iff.mp h
  exact hlength ▸ isOf_after before rest

theorem exists_lineColumn? (h : IsBoundary source (clamped source position)) :
    ∃ place, lineColumn? source position = some place := by
  obtain ⟨before, rest, hs, hlength⟩ := h
  exact ⟨_, lineColumn?_eq_some_iff.mpr ⟨before, rest, hs, hlength, rfl⟩⟩

theorem IsBoundary.clamped_eq (h : IsBoundary source k) : clamped source k = k := by
  obtain ⟨before, rest, rfl, rfl⟩ := h
  rw [clamped, utf8Length_append]
  exact Nat.min_eq_left (Nat.le_add_right ..)

namespace LineColumn

variable {a b : LineColumn} {i j : Nat}

theorem Precedes.asymm (h : a.Precedes b) : ¬b.Precedes a := by
  rintro (h' | h') <;> obtain h | h := h <;> omega

theorem IsOf.precedes (ha : a.IsOf source i) (hb : b.IsOf source j) (hij : i < j) :
    a.Precedes b := by
  have hfeeds : (feeds source).countP (· < i) ≤ (feeds source).countP (· < j) :=
    List.countP_mono_left fun k _ hk => by
      simp only [decide_eq_true_eq] at hk ⊢
      omega
  rw [List.countP_eq_length_filter, List.countP_eq_length_filter, ← ha.feeds_before,
    ← hb.feeds_before] at hfeeds
  have ha' := ha.line_pos
  have hb' := hb.line_pos
  obtain hlt | heq := Nat.lt_or_eq_of_le (show a.line ≤ b.line by omega)
  · exact Or.inl hlt
  · have hi := ha.position_eq
    have hj := hb.position_eq
    rw [heq] at hi
    exact Or.inr ⟨heq, by omega⟩

theorem IsOf.unique (ha : a.IsOf source i) (hb : b.IsOf source i) : a = b := by
  obtain ⟨line, column⟩ := a
  obtain ⟨line', column'⟩ := b
  have hlines := ha.feeds_before.trans hb.feeds_before.symm
  have hpositions := ha.position_eq.trans hb.position_eq.symm
  rw [hlines] at hpositions
  have ha' := ha.line_pos
  have hb' := hb.line_pos
  have hc := ha.column_pos
  have hc' := hb.column_pos
  dsimp only at *
  rw [LineColumn.mk.injEq]
  omega

theorem IsOf.eq_iff (ha : a.IsOf source i) (hb : b.IsOf source j) : a = b ↔ i = j := by
  constructor
  · rintro rfl
    exact ha.position_eq.symm.trans hb.position_eq
  · rintro rfl
    exact ha.unique hb

theorem IsOf.precedes_iff (ha : a.IsOf source i) (hb : b.IsOf source j) :
    a.Precedes b ↔ i < j := by
  refine ⟨fun h => ?_, ha.precedes hb⟩
  obtain hlt | heq | hgt := Nat.lt_trichotomy i j
  · exact hlt
  · obtain rfl := (ha.eq_iff hb).mpr heq
    exact absurd h h.asymm
  · exact absurd h (hb.precedes ha hgt).asymm

end LineColumn

end Text

namespace Parser

variable {α : Type} {p : Parser α}

/-- An error is between two characters of the text. -/
theorem isBoundary_of_readAll (hp : ∀ n, Alike 1 n p p) {source : List Char} {e : ParseError}
    (h : readAll p source = .error e) : Text.IsBoundary source e.position := by
  have hsource := skipBlank_suffix source
  have hbefore {rest : List Char} (hrest : rest <:+ skipBlank source) (reason : ParseError.Reason) :
      Text.IsBoundary source (ParseError.before source rest reason).position := by
    obtain ⟨before, hs⟩ := hrest.trans hsource
    refine ⟨before, rest, hs.symm, ?_⟩
    rw [← hs, ParseError.before, Text.utf8Length_append, Nat.add_sub_cancel]
  obtain ⟨f, hf, rfl⟩ | ⟨a, r, hr, rfl⟩ := readAll_error h
  · exact hbefore (hf.leaves hp).1 _
  · have hleaves := ((hp source.length).lexeme (skipBlank source) hsource.length_le).2
    rw [hr] at hleaves
    exact hbefore hleaves.1 _

end Parser

open Text in
/-- A position that is not inside a character has a line and a column, and they are its own: they
say where it is, and they are in the order of the positions. Every error of a listing has them. -/
theorem lineColumn_inverts :
    (∀ source position, IsBoundary source (clamped source position) →
      ∃ place, lineColumn? source position = some place ∧
        place.IsOf source (clamped source position)) ∧
    (∀ source position position' place place', lineColumn? source position = some place →
      lineColumn? source position' = some place' →
        (place = place' ↔ clamped source position = clamped source position') ∧
          (place.Precedes place' ↔ clamped source position < clamped source position')) ∧
    ∀ (text : String) (e : ParseError),
      Program.parse text = .error e ∨ Func.parse text = .error e →
        ∃ place, lineColumn? text.toList e.position = some place ∧
          place.IsOf text.toList e.position := by
  refine ⟨fun source position h => ?_, fun source position position' place place' h h' => ?_, ?_⟩
  · obtain ⟨place, hplace⟩ := exists_lineColumn? h
    exact ⟨place, hplace, isOf_of_lineColumn? hplace⟩
  · have hof := isOf_of_lineColumn? h
    have hof' := isOf_of_lineColumn? h'
    exact ⟨hof.eq_iff hof', hof.precedes_iff hof'⟩
  · intro text e h
    have hboundary : IsBoundary text.toList e.position :=
      h.elim (Parser.isBoundary_of_readAll Parser.alike_program)
        (Parser.isBoundary_of_readAll Parser.alike_func)
    have hclamped := hboundary.clamped_eq
    obtain ⟨place, hplace⟩ := exists_lineColumn? (hclamped.symm ▸ hboundary)
    exact ⟨place, hplace, hclamped ▸ isOf_of_lineColumn? hplace⟩

namespace Text

def accented : List Char := ['é', '\n', 'β', 'x']

example : lineColumn? accented 4 = none := by decide

theorem accented_inverts :
    (∃ place, lineColumn? accented 5 = some place ∧ place.IsOf accented 5) ∧
      ((⟨2, 1⟩ : LineColumn).Precedes ⟨2, 4⟩ ↔ 3 < 6) ∧
        ∃ place, lineColumn? "program;é\n[".toList 11 = some place ∧
          place.IsOf "program;é\n[".toList 11 := by
  obtain ⟨hfirst, hsecond, hthird⟩ := lineColumn_inverts
  exact ⟨hfirst accented 5 ⟨['é', '\n', 'β'], ['x'], rfl, rfl⟩,
    (hsecond accented 3 99 _ _ rfl rfl).2,
    hthird "program;é\n[" ⟨.missing .symbol, 11⟩ (Or.inl (by cbv))⟩

end Text

end ShaderTree
