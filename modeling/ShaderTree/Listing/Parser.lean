namespace ShaderTree

inductive Cause
  /-- A word of the language. -/
  | keyword
  /-- A single character. -/
  | symbol
  | digit
  /-- A number within the bounds of its kind. -/
  | range
  | letter
  /-- The name of an operator. -/
  | operator
  /-- The name of a function. -/
  | name
  /-- Parameters in the order of their directions. -/
  | order
  /-- A literal number. -/
  | number
  /-- A repeated part that takes up text. -/
  | progress
deriving DecidableEq, Repr

structure Fault where
  rest : List Char
  cause : Cause
deriving DecidableEq, Repr

/-- Where a parser declines another may be tried; a failure is final. -/
inductive Outcome (α : Type)
  | done (value : α) (rest : List Char)
  | declined (fault : Fault)
  | failed (fault : Fault)

def Parser (α : Type) : Type := List Char → Outcome α

namespace Parser

variable {α β : Type}

def andThen (p : Parser α) (f : α → Parser β) : Parser β := fun s =>
  match p s with
  | .done a r => f a r
  | .declined e => .declined e
  | .failed e => .failed e

instance : Monad Parser where
  pure a := fun s => .done a s
  bind := andThen

theorem bind_apply (p : Parser α) (f : α → Parser β) (s : List Char) :
    (p >>= f) s =
      match p s with
      | .done a r => f a r
      | .declined e => .declined e
      | .failed e => .failed e := rfl

def orElse (p q : Parser α) : Parser α := fun s =>
  match p s with
  | .declined _ => q s
  | o => o

/-- Makes declining a failure. -/
def commit (p : Parser α) : Parser α := fun s =>
  match p s with
  | .declined e => .failed e
  | o => o

/-- The value if there is one; declining takes up no text. -/
def optional (p : Parser α) : Parser (Option α) := fun s =>
  match p s with
  | .done a r => .done (some a) r
  | .declined _ => .done none s
  | .failed e => .failed e

/-- The values for which `f` is defined; the others are declined at the start of the text. -/
def accept (cause : Cause) (f : α → Option β) (p : Parser α) : Parser β := fun s =>
  match p s with
  | .done a r =>
    match f a with
    | some b => .done b r
    | none => .declined ⟨s, cause⟩
  | .declined e => .declined e
  | .failed e => .failed e

/-- Moves every fault to the start of the text. -/
def blame (cause : Cause) (p : Parser α) : Parser α := fun s =>
  match p s with
  | .declined _ => .declined ⟨s, cause⟩
  | .failed _ => .failed ⟨s, cause⟩
  | o => o

def strip? : List Char → List Char → Option (List Char)
  | [], s => some s
  | _ :: _, [] => none
  | c :: word, d :: s => if c = d then strip? word s else none

theorem strip?_eq_some_iff {word s r : List Char} : strip? word s = some r ↔ s = word ++ r := by
  induction word generalizing s with
  | nil => simp [strip?]
  | cons c word ih =>
    cases s with
    | nil => simp [strip?]
    | cons d s =>
      by_cases h : c = d
      · simp [strip?, h, ih]
      · simp [strip?, h, Ne.symm h]

def firstOf (cause : Cause) (spelling : α → List Char) (choices : List α) : Parser α := fun s =>
  match choices.findSome? fun a => (strip? (spelling a) s).map (a, ·) with
  | some (a, r) => .done a r
  | none => .declined ⟨s, cause⟩

def keyword (word : String) : Parser Unit := firstOf .keyword (fun _ => word.toList) [()]

def symbol (c : Char) : Parser Unit := firstOf .symbol (fun _ => [c]) [()]

def span (cause : Cause) (isIn : Char → Bool) : Parser (List Char) := fun s =>
  match s.takeWhile isIn with
  | [] => .declined ⟨s, cause⟩
  | word => .done word (s.dropWhile isIn)

/-- Repeats until the parser declines. A repetition that takes up no text would never end, and is
declined. -/
def many (p : Parser α) (s : List Char) : Outcome (List α) :=
  match p s with
  | .done a r =>
    if r.length < s.length then
      match many p r with
      | .done as t => .done (a :: as) t
      | .declined e => .declined e
      | .failed e => .failed e
    else .declined ⟨s, .progress⟩
  | .declined _ => .done [] s
  | .failed e => .failed e
termination_by s.length

/-- No items, or items with separators between them. A separator that no item follows is left. -/
def sepBy (sep : Parser Unit) (item : Parser α) : Parser (List α) := do
  match ← optional item with
  | none => pure []
  | some a =>
    let rest : Parser (List α) := many (do sep; item)
    let as ← rest
    pure (a :: as)

/-- The parser that `step` describes in terms of itself. It may use itself on shorter text only. -/
def recursive (step : Parser α → Parser α) (s : List Char) : Outcome α :=
  step (fun r => if r.length < s.length then recursive step r else .declined ⟨r, .progress⟩) s
termination_by s.length

end Parser

end ShaderTree
