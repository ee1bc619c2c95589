import Mathlib.Order.Bounds.Basic
import PrefixScript.Proofs.Lexing

namespace PrefixScript

namespace Text

def QuoteAt (cs : List Char) (offset : Nat) : Prop :=
  ∃ before after, cs = before ++ '"' :: after ∧ size before = offset

theorem size_quote (cs : List Char) : size ('"' :: cs) = 1 + size cs :=
  size_cons '"' cs

theorem take_quoted (inner after : List Char) :
    ('"' :: (inner ++ '"' :: after)).take (1 + inner.length + 1) = '"' :: (inner ++ ['"']) := by
  have hsplit : '"' :: (inner ++ '"' :: after) = '"' :: (inner ++ ['"']) ++ after := by simp
  have hlength : 1 + inner.length + 1 = ('"' :: (inner ++ ['"'])).length := by
    simp [Nat.add_comm 1]
  rw [hsplit, hlength, List.take_left]

theorem size_le_of_first {inner after inner' after' : List Char} (hinner : '"' ∉ inner)
    (h : inner ++ '"' :: after = inner' ++ '"' :: after') : size inner ≤ size inner' := by
  rcases List.append_eq_append_iff.1 h with ⟨mid, rfl, -⟩ | ⟨mid, rfl, hmid⟩
  · rw [size_append]
    exact Nat.le_add_right _ _
  · cases mid with
    | nil => rw [List.append_nil]
    | cons d mid =>
      obtain ⟨rfl, -⟩ := List.cons.inj hmid
      simp at hinner

end Text

namespace Sighting

/-- What a search behind a byte of the text has to find. -/
def Answers (cs : List Char) (offset : Nat) : Sighting → Prop
  | .unsought => False
  | .absent => ∀ k, Text.QuoteAt cs k → k ≤ offset
  | .at k => IsLeast {j | Text.QuoteAt cs j ∧ offset < j} k

theorem Answers.unique {cs : List Char} {offset : Nat} {a b : Sighting} (ha : a.Answers cs offset)
    (hb : b.Answers cs offset) : a = b := by
  match a, b, ha, hb with
  | .absent, .absent, _, _ => rfl
  | .absent, .at k, ha, hb => exact absurd (ha k hb.1.1) (Nat.not_le.2 hb.1.2)
  | .at k, .absent, ha, hb => exact absurd (hb k ha.1.1) (Nat.not_le.2 ha.1.2)
  | .at j, .at k, ha, hb => rw [IsLeast.unique ha hb]

/-- What may be remembered: nothing, a place that has been passed, or what a search finds now. -/
def Holds (cs : List Char) (offset : Nat) : Sighting → Prop
  | .unsought => True
  | .absent => Answers cs offset .absent
  | .at k => k ≤ offset ∨ Answers cs offset (.at k)

theorem Answers.holds {cs : List Char} {offset : Nat} {a : Sighting} (h : a.Answers cs offset) :
    a.Holds cs offset := by
  cases a with
  | unsought => trivial
  | absent => exact h
  | «at» k => exact .inr h

/-- Memory stays true when the cursor moves on: a quote that was the first one behind it has then
been passed or is the first one still. -/
theorem Holds.mono {cs : List Char} {m n : Nat} {a : Sighting} (h : a.Holds cs m) (hmn : m ≤ n) :
    a.Holds cs n := by
  cases a with
  | unsought => trivial
  | absent => exact fun k hk => Nat.le_trans (h k hk) hmn
  | «at» k =>
    rcases Nat.lt_or_ge n k with hlt | hle
    · rcases h with hpassed | hleast
      · omega
      · exact .inr ⟨⟨hleast.1.1, hlt⟩, fun j hj => hleast.2 ⟨hj.1, Nat.lt_of_le_of_lt hmn hj.2⟩⟩
    · exact .inl hle

end Sighting

namespace Cursor

variable {cs : List Char} {c : Cursor}

/-- The cursors that occur while a text is scanned: one starts at the front, passes over a
character, or looks for the quote that closes the one in front of it. -/
inductive Visits (cs : List Char) : Cursor → Prop
  | start : Visits cs (start cs)
  | pass {c d rest} : Visits cs c → c.ahead = d :: rest → Visits cs (c.advance 1)
  | seek {c rest} : Visits cs c → c.ahead = '"' :: rest →
      Visits cs { c with quote := c.closingQuote }

structure Placed (cs : List Char) (c : Cursor) : Prop where
  split : ∃ before, cs = before ++ c.ahead ∧ Text.size before = c.offset
  memory : c.quote.Holds cs c.offset

theorem placed_start (cs : List Char) : (start cs).Placed cs :=
  ⟨⟨[], rfl, rfl⟩, trivial⟩

theorem Placed.advance (h : c.Placed cs) (n : Nat) : (c.advance n).Placed cs := by
  obtain ⟨before, hsplit, hsize⟩ := h.split
  refine ⟨⟨before ++ c.ahead.take n, ?_, ?_⟩, h.memory.mono (Nat.le_add_right _ _)⟩
  · rw [ahead_advance, List.append_assoc, List.take_append_drop, hsplit]
  · rw [Text.size_append, hsize]
    rfl

theorem Placed.quoteAt_iff (h : c.Placed cs) {rest : List Char} (hahead : c.ahead = '"' :: rest)
    {k : Nat} : (Text.QuoteAt cs k ∧ c.offset < k) ↔
      ∃ inner after, rest = inner ++ '"' :: after ∧ c.offset + 1 + Text.size inner = k := by
  obtain ⟨front, hsplit, hsize⟩ := h.split
  rw [hahead] at hsplit
  constructor
  · rintro ⟨⟨before, after, hquote, rfl⟩, hlt⟩
    rw [hsplit, List.append_eq_append_iff] at hquote
    rcases hquote with ⟨mid, rfl, hmid⟩ | ⟨mid, rfl, -⟩
    · cases mid with
      | nil =>
        rw [List.append_nil] at hlt
        omega
      | cons d inner =>
        obtain ⟨rfl, rfl⟩ := List.cons.inj hmid
        exact ⟨inner, after, rfl, by rw [Text.size_append, Text.size_quote, hsize, Nat.add_assoc]⟩
    · rw [Text.size_append] at hsize
      omega
  · rintro ⟨inner, after, rfl, rfl⟩
    refine ⟨⟨front ++ '"' :: inner, after, by simp [hsplit], ?_⟩, by omega⟩
    rw [Text.size_append, Text.size_quote, hsize, Nat.add_assoc]

theorem Placed.seekQuote_answers (h : c.Placed cs) {rest : List Char}
    (hahead : c.ahead = '"' :: rest) : c.seekQuote.Answers cs c.offset := by
  by_cases hmem : '"' ∈ rest
  · obtain ⟨inner, after, rfl, hinner⟩ := List.eq_append_cons_of_mem hmem
    rw [seekQuote_eq_at hahead hinner]
    refine ⟨(h.quoteAt_iff hahead).2 ⟨inner, after, rfl, rfl⟩, fun k hk => ?_⟩
    obtain ⟨inner', after', hsplit, rfl⟩ := (h.quoteAt_iff hahead).1 hk
    exact Nat.add_le_add_left (Text.size_le_of_first hinner hsplit) _
  · rw [seekQuote_eq_absent hahead hmem]
    intro k hk
    by_contra hlt
    obtain ⟨inner, after, rfl, -⟩ := (h.quoteAt_iff hahead).1 ⟨hk, Nat.not_le.1 hlt⟩
    simp at hmem

theorem Placed.closingQuote_answers (h : c.Placed cs) {rest : List Char}
    (hahead : c.ahead = '"' :: rest) : c.closingQuote.Answers cs c.offset := by
  have hmemory := h.memory
  have hseek := h.seekQuote_answers hahead
  rw [closingQuote]
  cases hquote : c.quote with
  | unsought => exact hseek
  | absent => rwa [hquote] at hmemory
  | «at» k =>
    rw [hquote] at hmemory
    by_cases hlt : c.offset < k
    · simp only [hlt, if_true]
      exact hmemory.resolve_left (Nat.not_le.2 hlt)
    · simp only [hlt, if_false]
      exact hseek

theorem Visits.placed (h : c.Visits cs) : c.Placed cs := by
  induction h with
  | start => exact placed_start cs
  | pass _ _ ih => exact ih.advance 1
  | seek _ hahead ih => exact ⟨ih.split, (ih.closingQuote_answers hahead).holds⟩

theorem Placed.closingQuote_eq (h : c.Placed cs) {rest : List Char} (hahead : c.ahead = '"' :: rest) :
    c.closingQuote = c.seekQuote :=
  (h.closingQuote_answers hahead).unique (h.seekQuote_answers hahead)

theorem advance_of_ahead_nil (h : c.ahead = []) (n : Nat) : c.advance n = c := by
  obtain ⟨_, _, _, _⟩ := c
  obtain rfl : _ = [] := h
  simp [Cursor.advance, Text.newlines]

theorem Visits.advance (h : c.Visits cs) (n : Nat) : (c.advance n).Visits cs := by
  induction n generalizing c with
  | zero => rwa [advance_zero]
  | succ n ih =>
    rw [Nat.add_comm, ← advance_advance]
    apply ih
    cases hahead : c.ahead with
    | nil => rwa [advance_of_ahead_nil hahead]
    | cons d rest => exact .pass h hahead

theorem Visits.skipBlanks (h : c.Visits cs) : c.skipBlanks.Visits cs :=
  h.advance _

theorem measure_fst (c : Cursor) (first : Char) (rest : List Char) :
    (c.measure first rest).1 = if first = '"' then { c with quote := c.closingQuote } else c := by
  grind [measure]

theorem Visits.next? (h : c.Visits cs) {t : Token} {c' : Cursor} (hnext : c.next? = some (t, c')) :
    c'.Visits cs := by
  rw [Cursor.next?] at hnext
  cases hahead : c.skipBlanks.ahead with
  | nil => simp [hahead] at hnext
  | cons first rest =>
    simp only [hahead, Option.some.injEq, Prod.mk.injEq] at hnext
    rw [← hnext.2]
    apply Visits.advance
    rw [measure_fst]
    split
    · next hquote => exact .seek h.skipBlanks (hquote ▸ hahead)
    · exact h.skipBlanks

theorem Placed.next?_of_closingQuote (h : c.Placed cs) {rest : List Char}
    (hahead : c.ahead = '"' :: rest) {k : Nat} (hclosing : c.closingQuote = .at k) :
    ∃ t c', c.next? = some (t, c') ∧ c'.offset = k + 1 := by
  have hskip := skipBlanks_of_not_blank hahead (by decide)
  have hseek := h.closingQuote_eq hahead
  rw [hclosing] at hseek
  by_cases hmem : '"' ∈ rest
  · obtain ⟨inner, after, rfl, hinner⟩ := List.eq_append_cons_of_mem hmem
    rw [seekQuote_eq_at hahead hinner, Sighting.at.injEq] at hseek
    simp only [Cursor.next?, hskip, hahead, measure, if_true, hclosing, Text.passQuote_append hinner]
    refine ⟨_, _, rfl, ?_⟩
    simp only [Cursor.advance, Text.take_quoted, Text.size_quote, Text.size_append, Text.size_nil,
      hseek]
    omega
  · rw [seekQuote_eq_absent hahead hmem] at hseek
    contradiction

def forget (c : Cursor) : Cursor :=
  { c with quote := .unsought }

theorem forget_advance (c : Cursor) (n : Nat) : (c.advance n).forget = c.forget.advance n := rfl

theorem forget_measure (c : Cursor) (first : Char) (rest : List Char) :
    (c.measure first rest).1.forget = c.forget := by
  rw [measure_fst]
  split <;> rfl

def tokensAfresh (c : Cursor) (found : List Token) : List Token :=
  match _h : c.forget.next? with
  | none => found.reverse
  | some (t, c') => c'.tokensAfresh (t :: found)
termination_by c.ahead.length
decreasing_by exact length_ahead_lt_of_next? (c := c.forget) _h

theorem Placed.measure_forget (h : c.Placed cs) {first : Char} {rest : List Char}
    (hahead : c.ahead = first :: rest) :
    (c.forget.measure first rest).2 = (c.measure first rest).2 := by
  by_cases hfirst : first = '"'
  · subst hfirst
    have hclosing : c.forget.closingQuote = c.closingQuote := (h.closingQuote_eq hahead).symm
    simp only [measure, if_true, hclosing]
    cases c.closingQuote <;> rfl
  · simp only [measure, hfirst, if_false]
    split <;> rfl

theorem Placed.next?_forget (h : c.Placed cs) :
    c.forget.next?.map (Prod.map id forget) = c.next?.map (Prod.map id forget) := by
  have hplaced : c.skipBlanks.Placed cs := h.advance _
  have hskip : c.forget.skipBlanks = c.skipBlanks.forget := rfl
  rw [Cursor.next?, Cursor.next?, hskip]
  cases hahead : c.skipBlanks.ahead with
  | nil =>
    have hforget : c.skipBlanks.forget.ahead = [] := hahead
    simp only [hforget]
  | cons first rest =>
    have hforget : c.skipBlanks.forget.ahead = first :: rest := hahead
    have hlength := hplaced.measure_forget hahead
    simp only [hforget, Option.map_some, Prod.map_apply, forget_advance, forget_measure,
      hlength]
    rfl

theorem Visits.tokensAfresh_eq (h : c.Visits cs) {d : Cursor} (hforget : d.forget = c.forget)
    (found : List Token) : d.tokensAfresh found = c.tokens found := by
  induction hn : c.ahead.length using Nat.strong_induction_on generalizing c d found with
  | _ n ih =>
    have hnext := h.placed.next?_forget
    rw [← hforget] at hnext
    rw [tokensAfresh, tokens]
    cases hc : c.next? with
    | none =>
      rw [hc, Option.map_none, Option.map_eq_none_iff] at hnext
      rw [hnext]
    | some next =>
      obtain ⟨t, c'⟩ := next
      rw [hc, Option.map_some, Option.map_eq_some_iff] at hnext
      obtain ⟨⟨u, d'⟩, hd, heq⟩ := hnext
      obtain ⟨rfl, hforget'⟩ := Prod.mk.inj heq
      rw [hd]
      have hlt := length_ahead_lt_of_next? hc
      exact ih _ (hn ▸ hlt) (h.next? hc) hforget' _ rfl

/-- While a text is scanned, the search for a closing quote answers where the first quote behind the
one at the cursor stands, or that there is none, whether it remembers the answer or has to look. The
text that starts there ends right behind that quote. So the tokens are those that searching every
time would find. -/
theorem closingQuote_remembered (text : String) :
    (∀ c : Cursor, c.Visits (Text.withoutComments text.toList) → ∀ rest, c.ahead = '"' :: rest →
      c.closingQuote.Answers (Text.withoutComments text.toList) c.offset ∧
      ∀ k, c.closingQuote = .at k → ∃ t c', c.next? = some (t, c') ∧ c'.offset = k + 1) ∧
    (∀ c : Cursor, c.Visits (Text.withoutComments text.toList) →
      c.skipBlanks.Visits (Text.withoutComments text.toList) ∧
      ∀ t c', c.next? = some (t, c') → c'.Visits (Text.withoutComments text.toList)) ∧
    (start (Text.withoutComments text.toList)).tokensAfresh [] = Token.ofText text := by
  refine ⟨fun c hc rest hahead => ?_, fun c hc => ?_, ?_⟩
  · exact ⟨hc.placed.closingQuote_answers hahead, fun k => hc.placed.next?_of_closingQuote hahead⟩
  · exact ⟨hc.skipBlanks, fun t c' => hc.next?⟩
  · exact Visits.start.tokensAfresh_eq rfl []

example : (Token.ofText "a\"b \"x y\" \"z").map (·.text) = ["a\"b", "\"x y\"", "\"z"] := by
  decide +kernel

end Cursor

end PrefixScript
