import ShaderTree.Golden.TestFile
import ShaderTree.Proofs.BlankText
import ShaderTree.Proofs.RoundTrip

namespace ShaderTree

namespace Text

variable {c : Char} {s line : List Char} {ls : List (List Char)}

theorem lines_newline : lines ('\n' :: s) = [] :: lines s := by rw [lines]

theorem lines_return : lines ('\r' :: '\n' :: s) = lines ('\n' :: s) := by rw [lines, lines]

theorem lines_cons (hc : c ≠ '\n') (hs : c = '\r' → s.head? ≠ some '\n') :
    lines (c :: s) = (c :: (lines s).headD []) :: (lines s).tail := by
  conv => lhs; unfold lines
  split
  · next heq => cases heq
  · next heq =>
    cases heq
    exact absurd rfl hc
  · next heq =>
    cases heq
    exact absurd rfl (hs rfl)
  · next heq =>
    cases heq
    cases lines s <;> rfl

/-- A line is over at a line feed, unless a carriage return stands in front of that. -/
theorem lines_append_feed (hn : '\n' ∉ line) (hr : line.getLast? ≠ some '\r') :
    lines (line ++ '\n' :: s) = line :: lines s := by
  induction line with
  | nil => exact lines_newline
  | cons c line ih =>
    simp only [List.mem_cons, not_or] at hn
    have hrest : line.getLast? ≠ some '\r' := by
      cases line with
      | nil => exact nofun
      | cons d line => rwa [List.getLast?_cons_cons] at hr
    rw [List.cons_append, lines_cons (Ne.symm hn.1), ih hn.2 hrest]
    · rfl
    rintro rfl
    cases line with
    | nil => exact absurd rfl hr
    | cons d line =>
      intro hfeed
      cases hfeed
      exact hn.2 List.mem_cons_self

theorem lines_append_return (hn : '\n' ∉ line) :
    lines (line ++ '\r' :: '\n' :: s) = line :: lines s := by
  induction line with
  | nil => rw [List.nil_append, lines_return, lines_newline]
  | cons c line ih =>
    simp only [List.mem_cons, not_or] at hn
    rw [List.cons_append, lines_cons (Ne.symm hn.1), ih hn.2]
    · rfl
    rintro -
    cases line with
    | nil => exact nofun
    | cons d line =>
      intro hfeed
      cases hfeed
      exact hn.2 List.mem_cons_self

theorem lines_of_not_mem (hne : line ≠ []) (hn : '\n' ∉ line) : lines line = [line] := by
  induction line with
  | nil => exact absurd rfl hne
  | cons c line ih =>
    simp only [List.mem_cons, not_or] at hn
    have hhead : line.head? ≠ some '\n' := fun h => hn.2 (List.mem_of_mem_head? h)
    rw [lines_cons (Ne.symm hn.1) fun _ => hhead]
    cases line with
    | nil => rfl
    | cons d line =>
      rw [ih (List.cons_ne_nil d line) hn.2]
      rfl

/-- A line that ends is followed by the lines behind its end. -/
theorem lines_append (hne : line ≠ []) (hline : ∀ c ∈ line, isLineEnd c = false)
    (hs : Parser.EndsLine s) :
    lines (line ++ s) = line :: (lines s).tail ∧ (lines s).headD [] = [] := by
  have hn : '\n' ∉ line := fun h => by cases hline _ h
  have hr : '\r' ∉ line := fun h => by cases hline _ h
  obtain rfl | ⟨t, rfl⟩ | ⟨t, rfl⟩ := hs
  · rw [List.append_nil, lines_of_not_mem hne hn]
    exact ⟨rfl, rfl⟩
  · rw [lines_append_feed hn fun h => hr (List.mem_of_getLast? h), lines_newline]
    exact ⟨rfl, rfl⟩
  · rw [lines_append_return hn, lines_return, lines_newline]
    exact ⟨rfl, rfl⟩

theorem newline_not_mem_lines (s : List Char) : ∀ line ∈ lines s, '\n' ∉ line := by
  fun_induction lines s with
  | case1 => exact nofun
  | case2 cs ih => exact List.forall_mem_cons.mpr ⟨List.not_mem_nil, ih⟩
  | case3 cs ih => exact List.forall_mem_cons.mpr ⟨List.not_mem_nil, ih⟩
  | case4 c cs hfeed hreturn hnil ih =>
    exact List.forall_mem_singleton.mpr (by simpa [eq_comm] using hfeed)
  | case5 c cs hfeed hreturn line rest hcons ih =>
    rw [hcons] at ih
    obtain ⟨hline, hrest⟩ := List.forall_mem_cons.mp ih
    refine List.forall_mem_cons.mpr ⟨?_, hrest⟩
    simp only [List.mem_cons, not_or]
    exact ⟨fun h => hfeed h.symm, hline⟩

theorem trimEnd_cons (c : Char) (s : List Char) :
    trimEnd (c :: s) = if isWhiteSpace c = true ∧ trimEnd s = [] then [] else c :: trimEnd s := by
  simp only [trimEnd, List.reverse_cons, List.dropWhile_append, List.reverse_eq_nil_iff,
    List.isEmpty_iff]
  by_cases hs : s.reverse.dropWhile isWhiteSpace = []
  · cases hc : isWhiteSpace c <;> simp [hs, hc]
  · simp [hs]

theorem trimEnd_cons_of_not (hc : isWhiteSpace c = false) : trimEnd (c :: s) = c :: trimEnd s := by
  rw [trimEnd_cons, if_neg (by simp [hc])]

theorem trim_cons (hc : isWhiteSpace c = true) : trim (c :: s) = trim s := by
  rw [trim, trimStart, List.dropWhile_cons_of_pos hc]
  rfl

theorem trim_cons_of_not (hc : isWhiteSpace c = false) : trim (c :: s) = c :: trimEnd s := by
  rw [trim, trimStart, List.dropWhile_cons_of_neg (by simp [hc]), trimEnd_cons_of_not hc]

theorem head?_trim (h : (trim s).head? = some c) : isWhiteSpace c = false := by
  induction s with
  | nil => cases h
  | cons d s ih =>
    cases hd : isWhiteSpace d with
    | true => exact ih (by rwa [trim_cons hd] at h)
    | false =>
      rw [trim_cons_of_not hd] at h
      cases h
      exact hd

theorem getLast?_trimEnd (h : (trimEnd s).getLast? = some c) : isWhiteSpace c = false := by
  rw [trimEnd, List.getLast?_reverse] at h
  have hnot := List.head?_dropWhile_not isWhiteSpace s.reverse
  rw [h] at hnot
  exact hnot

theorem trimEnd_eq_self (h : ∀ c, s.getLast? = some c → isWhiteSpace c = false) :
    trimEnd s = s := by
  have hdrop : s.reverse.dropWhile isWhiteSpace = s.reverse := by
    cases hs : s.reverse with
    | nil => rfl
    | cons c t =>
      have hc : s.getLast? = some c := by rw [List.getLast?_eq_head?_reverse, hs]; rfl
      exact List.dropWhile_cons_of_neg (by simp [h c hc])
  rw [trimEnd, hdrop, List.reverse_reverse]

theorem trim_eq_self (hhead : ∀ c, s.head? = some c → isWhiteSpace c = false)
    (hlast : ∀ c, s.getLast? = some c → isWhiteSpace c = false) : trim s = s := by
  cases s with
  | nil => rfl
  | cons c s =>
    rw [trim, trimStart, List.dropWhile_cons_of_neg (by simp [hhead c rfl])]
    exact trimEnd_eq_self hlast

theorem trim_trim (s : List Char) : trim (trim s) = trim s :=
  trim_eq_self (fun _ h => head?_trim h) fun _ h => getLast?_trimEnd h

theorem mem_of_mem_trim (h : c ∈ trim s) : c ∈ s := by
  have hstart : c ∈ trimStart s := by
    simpa using (List.dropWhile_suffix isWhiteSpace).subset (List.mem_reverse.mp h)
  exact (List.dropWhile_suffix isWhiteSpace).subset hstart

end Text

def continued (ls : List (List Char)) : List Char := ls.flatMap ('\n' :: ·)

def joined : List (List Char) → List Char
  | [] => []
  | line :: ls => line ++ continued ls

theorem toList_joinLines (ls : List (List Char)) : (TestCase.joinLines ls).toList = joined ls := by
  cases ls with
  | nil => rfl
  | cons line ls =>
    have hfeed : "\n".toList = ['\n'] := by decide
    simp only [TestCase.joinLines, toList_intercalate, String.toList_ofList, hfeed]
    rfl

theorem lines_joined {ls : List (List Char)} (hne : ∀ line ∈ ls, line ≠ [])
    (hn : ∀ line ∈ ls, '\n' ∉ line) (hr : ∀ line ∈ ls, line.getLast? ≠ some '\r') :
    Text.lines (joined ls) = ls := by
  induction ls with
  | nil => rfl
  | cons line ls ih =>
    obtain ⟨hline, hne⟩ := List.forall_mem_cons.mp hne
    obtain ⟨hfeed, hn⟩ := List.forall_mem_cons.mp hn
    obtain ⟨hreturn, hr⟩ := List.forall_mem_cons.mp hr
    have hmore := ih hne hn hr
    cases ls with
    | nil =>
      rw [joined, continued, List.flatMap_nil, List.append_nil]
      exact Text.lines_of_not_mem hline hfeed
    | cons next ls =>
      rw [joined, continued, List.flatMap_cons, List.cons_append]
      rw [Text.lines_append_feed hfeed hreturn]
      exact congrArg (line :: ·) hmore

end ShaderTree
