namespace PrefixScript.Text

def cutAt {α : Type} [DecidableEq α] (mark : α) (xs : List α) : List (List α) :=
  xs.foldr cut [[]]
where
  cut (x : α) : List (List α) → List (List α)
    | [] => [[]]
    | p :: ps => if x = mark then [] :: p :: ps else (x :: p) :: ps

def pieces (cs : List Char) : List (List Char) :=
  cutAt '\n' cs

def unlines (ps : List (List Char)) : List Char :=
  ['\n'].intercalate ps

def newlines (cs : List Char) : Nat :=
  cs.count '\n'

def size (cs : List Char) : Nat :=
  cs.foldl next 0
where
  next (n : Nat) (c : Char) : Nat := n + c.utf8Size

@[simp] theorem size_nil : size [] = 0 := rfl

theorem foldl_next_size (n : Nat) (cs : List Char) : cs.foldl size.next n = n + size cs := by
  induction cs generalizing n with
  | nil => rfl
  | cons c cs ih =>
    rw [size, List.foldl_cons, List.foldl_cons, ih, ih (size.next 0 c), size.next, size.next,
      Nat.zero_add, Nat.add_assoc]

theorem size_cons (c : Char) (cs : List Char) : size (c :: cs) = c.utf8Size + size cs := by
  rw [size, List.foldl_cons, foldl_next_size, size.next, Nat.zero_add]

theorem size_append (as bs : List Char) : size (as ++ bs) = size as + size bs := by
  rw [size, List.foldl_append, foldl_next_size]
  rfl

def lineStarts (cs : List Char) : Array Nat :=
  (cs.foldl next (#[0], 0)).1
where
  next (state : Array Nat × Nat) (c : Char) : Array Nat × Nat :=
    let offset := state.2 + c.utf8Size
    (if c = '\n' then state.1.push offset else state.1, offset)

/-- The part of a text between two offsets in bytes. Both have to be on the boundary of a character,
and in order. -/
def slice? (text : String) (start stop : Nat) : Option String :=
  if h : (⟨start⟩ : String.Pos.Raw).IsValid text ∧ (⟨stop⟩ : String.Pos.Raw).IsValid text ∧
      start ≤ stop then
    some (text.extract (text.pos ⟨start⟩ h.1) (text.pos ⟨stop⟩ h.2.1))
  else none

def trimReturns (cs : List Char) : List Char :=
  (cs.reverse.dropWhile (· = '\r')).reverse

def breakLines (cs : List Char) : List Char :=
  go [] cs
where
  go (done : List Char) : List Char → List Char
    | [] => done.reverse
    | '\\' :: 'n' :: rest => go ('\n' :: done) rest
    | c :: rest => go (c :: done) rest

end PrefixScript.Text
