import PrefixScript.Token
import Mathlib.Data.List.TakeWhile

/-!
# The rules of lexing

Which tokens make up a text, said without a cursor. The cursor finds these tokens in every text, and
the rules leave no choice.
-/

namespace PrefixScript

inductive IsToken : (token rest : List Char) → Prop
  | text {inner rest} : '"' ∉ inner → IsToken ('"' :: (inner ++ ['"'])) rest
  | bracket {c rest} : Text.isBracket c = true → IsToken [c] rest
  | run {c cs rest} : (∀ d ∈ c :: cs, Text.isRunChar d = true) →
      (∀ d ∈ rest.head?, Text.isRunChar d = false) → (c = '"' → '"' ∉ cs ++ rest) →
      IsToken (c :: cs) rest

/-- A text is made of these tokens and of white space, from the given line on. A token has the number
of its line in 32 bits. -/
inductive Lexes : Nat → List Char → List Token → Prop
  | nil {line} : Lexes line [] []
  | blank {line c cs ts} : Text.isBlank c = true → Lexes (line + Text.newlines [c]) cs ts →
      Lexes line (c :: cs) ts
  | token {line t rest ts} : IsToken t rest → Lexes (line + Text.newlines t) rest ts →
      Lexes line (t ++ rest) (⟨String.ofList t, line % UInt32.size⟩ :: ts)

namespace Text

theorem isBracket_iff {c : Char} :
    isBracket c = true ↔ c = '(' ∨ c = ')' ∨ c = '[' ∨ c = ']' := by
  simp [isBracket, or_assoc]

theorem isBlank_of_isBracket {c : Char} (h : isBracket c = true) : isBlank c = false := by
  rcases isBracket_iff.1 h with rfl | rfl | rfl | rfl <;> rfl

theorem isRunChar_of_isBlank {c : Char} (h : isBlank c = true) : isRunChar c = false := by
  simp [isRunChar, h]

theorem isRunChar_iff {c : Char} : isRunChar c = true ↔ isBlank c = false ∧ isBracket c = false := by
  simp [isRunChar]

theorem isRunChar_quote : isRunChar '"' = true := by decide

theorem passQuote_append {inner : List Char} (h : '"' ∉ inner) (n : Nat) (rest : List Char) :
    passQuote n (inner ++ '"' :: rest) = n + inner.length + 1 := by
  induction inner generalizing n with
  | nil => simp [passQuote]
  | cons c inner ih =>
    rw [List.mem_cons, not_or] at h
    rw [List.cons_append, passQuote, if_neg (Ne.symm h.1), ih h.2, List.length_cons]
    omega

end Text

namespace IsToken

variable {t rest : List Char}

theorem ne_nil (h : IsToken t rest) : t ≠ [] := by
  cases h <;> simp

theorem exists_cons (h : IsToken t rest) : ∃ c cs, t = c :: cs ∧ Text.isBlank c = false := by
  cases h with
  | text => exact ⟨_, _, rfl, by decide⟩
  | bracket hc => exact ⟨_, _, rfl, Text.isBlank_of_isBracket hc⟩
  | @run c cs _ hrun => exact ⟨c, cs, rfl, (Text.isRunChar_iff.1 (hrun c (by simp))).1⟩

end IsToken

theorem exists_isToken {c : Char} (h : Text.isBlank c = false) (cs : List Char) :
    ∃ t rest, c :: cs = t ++ rest ∧ IsToken t rest := by
  by_cases hbracket : Text.isBracket c = true
  · exact ⟨[c], cs, rfl, .bracket hbracket⟩
  · by_cases hquote : c = '"' ∧ '"' ∈ cs
    · obtain ⟨rfl, hmem⟩ := hquote
      obtain ⟨inner, rest, rfl, hinner⟩ := List.eq_append_cons_of_mem hmem
      exact ⟨'"' :: (inner ++ ['"']), rest, by simp, .text hinner⟩
    · refine ⟨c :: cs.takeWhile Text.isRunChar, cs.dropWhile Text.isRunChar, by simp,
        .run ?_ ?_ ?_⟩
      · intro d hd
        rcases List.mem_cons.1 hd with rfl | hd
        · simp [Text.isRunChar, h, hbracket]
        · exact List.mem_takeWhile_imp hd
      · intro d hd
        have := List.head?_dropWhile_not Text.isRunChar cs
        simp_all
      · rintro rfl
        rw [List.takeWhile_append_dropWhile]
        exact fun hmem => hquote ⟨rfl, hmem⟩

theorem exists_lexes (line : Nat) (cs : List Char) : ∃ ts, Lexes line cs ts := by
  induction hn : cs.length using Nat.strong_induction_on generalizing line cs with
  | _ n ih =>
    cases cs with
    | nil => exact ⟨[], .nil⟩
    | cons c cs =>
      cases hblank : Text.isBlank c with
      | true =>
        have hlt : cs.length < n := by simp [← hn]
        obtain ⟨ts, hts⟩ := ih _ hlt (line + Text.newlines [c]) cs rfl
        exact ⟨ts, .blank hblank hts⟩
      | false =>
        obtain ⟨t, rest, hsplit, ht⟩ := exists_isToken hblank cs
        have hlt : rest.length < n := by
          have hpos := List.length_pos_iff.2 ht.ne_nil
          rw [← hn, hsplit, List.length_append]
          omega
        obtain ⟨ts, hts⟩ := ih _ hlt (line + Text.newlines t) rest rfl
        rw [hsplit]
        exact ⟨_, .token ht hts⟩

namespace Cursor

/-- What a cursor remembers of the next quote never answers a later search: a quote that was found
lies behind, and if there was none then there is none ahead. -/
def Fresh (c : Cursor) : Prop :=
  match c.quote with
  | .unsought => True
  | .absent => '"' ∉ c.ahead
  | .at offset => offset < c.offset

theorem fresh_start (cs : List Char) : (start cs).Fresh := trivial

theorem Fresh.advance {c : Cursor} (h : c.Fresh) (n : Nat) : (c.advance n).Fresh := by
  unfold Fresh Cursor.advance at *
  cases hquote : c.quote with
  | unsought => simp
  | absent =>
    simp only [hquote] at h ⊢
    exact fun hmem => h (List.mem_of_mem_drop hmem)
  | «at» offset =>
    simp only [hquote] at h ⊢
    omega

theorem advance_zero (c : Cursor) : c.advance 0 = c := by
  simp [advance, Text.newlines]

theorem advance_advance (c : Cursor) (m n : Nat) :
    (c.advance m).advance n = c.advance (m + n) := by
  simp only [advance, List.drop_drop, Text.newlines, List.take_add, List.count_append,
    Text.size_append, UInt32.ofNat_add]
  simp only [Nat.add_assoc, UInt32.add_assoc]

theorem closingQuote_eq {c : Cursor} (hfresh : c.Fresh) {cs : List Char} (h : c.ahead = '"' :: cs) :
    c.closingQuote = c.seekQuote := by
  unfold Fresh at hfresh
  unfold closingQuote
  cases hquote : c.quote with
  | unsought => rfl
  | absent =>
    rw [hquote, h] at hfresh
    exact absurd List.mem_cons_self hfresh
  | «at» offset =>
    rw [hquote] at hfresh
    simp only [Nat.not_lt.2 (Nat.le_of_lt hfresh), if_false]

theorem seekQuote_eq_at {c : Cursor} {inner rest : List Char}
    (h : c.ahead = '"' :: (inner ++ '"' :: rest)) (hinner : '"' ∉ inner) :
    c.seekQuote = .at (c.offset + 1 + Text.size inner) := by
  have hfind : (inner ++ '"' :: rest).findIdx? (· = '"') = some inner.length := by
    clear h
    induction inner with
    | nil => simp [List.findIdx?_cons]
    | cons d inner ih =>
      rw [List.mem_cons, not_or] at hinner
      simp [List.findIdx?_cons, Ne.symm hinner.1, ih hinner.2]
  simp [seekQuote, h, hfind]

theorem seekQuote_eq_absent {c : Cursor} {cs : List Char} (h : c.ahead = '"' :: cs)
    (hcs : '"' ∉ cs) : c.seekQuote = .absent := by
  have hfind : cs.findIdx? (· = '"') = none := by
    rw [List.findIdx?_eq_none_iff]
    intro d hd
    simpa using fun heq : d = '"' => hcs (heq ▸ hd)
  simp [seekQuote, h, hfind]

theorem skipBlanks_of_blank {c : Cursor} {d : Char} {cs : List Char} (h : c.ahead = d :: cs)
    (hd : Text.isBlank d = true) : c.skipBlanks = (c.advance 1).skipBlanks := by
  have hahead : (c.advance 1).ahead = cs := by simp [h]
  rw [skipBlanks, skipBlanks, hahead, advance_advance, h, List.takeWhile_cons_of_pos hd,
    List.length_cons, Nat.add_comm]

theorem skipBlanks_of_not_blank {c : Cursor} {d : Char} {cs : List Char} (h : c.ahead = d :: cs)
    (hd : Text.isBlank d = false) : c.skipBlanks = c := by
  rw [skipBlanks, h, List.takeWhile_cons_of_neg (by simp [hd]), List.length_nil, advance_zero]

theorem length_run {c : Char} {cs rest : List Char} (hrun : ∀ d ∈ c :: cs, Text.isRunChar d = true)
    (hrest : ∀ d ∈ rest.head?, Text.isRunChar d = false) :
    ((cs ++ rest).takeWhile Text.isRunChar).length = cs.length := by
  rw [List.takeWhile_append_of_pos fun d hd => hrun d (List.mem_cons_of_mem _ hd)]
  cases rest with
  | nil => simp
  | cons d rest => simp [hrest d rfl]

theorem measure_of_isToken {c : Cursor} (hfresh : c.Fresh) {first : Char} {cs t rest : List Char}
    (hahead : c.ahead = first :: cs) (hsplit : first :: cs = t ++ rest) (ht : IsToken t rest) :
    (c.measure first cs).2 = t.length ∧ ((c.measure first cs).1.advance t.length).Fresh ∧
      ∃ q, (c.measure first cs).1 = { c with quote := q } := by
  have hkept : ∀ n, (c.advance n).Fresh := hfresh.advance
  have htake : c.ahead.take t.length = t := by rw [hahead, hsplit, List.take_left]
  cases ht with
  | @text inner rest hinner =>
    obtain ⟨rfl, rfl⟩ : first = '"' ∧ cs = inner ++ '"' :: rest := by simpa using hsplit
    have hclosing := (closingQuote_eq hfresh hahead).trans (seekQuote_eq_at hahead hinner)
    simp only [measure, if_true, hclosing, Text.passQuote_append hinner]
    refine ⟨?_, ?_, _, rfl⟩
    · simp only [List.length_cons, List.length_append, List.length_nil]
      omega
    · have hquote : ('"' : Char).utf8Size = 1 := rfl
      simp only [Fresh, advance, htake, Text.size_cons, Text.size_append, Text.size_nil, hquote]
      omega
  | @bracket _ rest hbracket =>
    obtain ⟨rfl, rfl⟩ : first = _ ∧ cs = rest := by simpa using hsplit
    have hquote : first ≠ '"' := by
      rintro rfl
      contradiction
    simp only [measure, hquote, if_false, hbracket, if_true]
    exact ⟨rfl, hkept _, _, rfl⟩
  | @run _ tail rest hrun hrest hopen =>
    obtain ⟨rfl, rfl⟩ : first = _ ∧ cs = tail ++ rest := by simpa using hsplit
    have hlength := length_run hrun hrest
    by_cases hquote : first = '"'
    · -- A run may start with a quote if there is no other behind it, and the search says so.
      subst hquote
      have hnone := hopen rfl
      have hclosing := (closingQuote_eq hfresh hahead).trans (seekQuote_eq_absent hahead hnone)
      simp only [measure, if_true, hclosing, hlength]
      refine ⟨rfl, ?_, _, rfl⟩
      simp only [Fresh, advance, hahead]
      simpa using fun hmem => hnone (List.mem_append_right _ hmem)
    · have hbracket := (Text.isRunChar_iff.1 (hrun first (by simp))).2
      simp only [measure, hquote, if_false, hbracket, Bool.false_eq_true, hlength]
      exact ⟨rfl, hkept _, _, rfl⟩

theorem next?_nil {c : Cursor} (h : c.ahead = []) : c.next? = none := by
  have hskip : c.skipBlanks.ahead = [] := by simp [skipBlanks, h]
  simp [next?, hskip]

theorem next?_blank {c : Cursor} {d : Char} {cs : List Char} (h : c.ahead = d :: cs)
    (hd : Text.isBlank d = true) : c.next? = (c.advance 1).next? := by
  rw [next?, next?, skipBlanks_of_blank h hd]

theorem next?_token {c : Cursor} (hfresh : c.Fresh) {t rest : List Char}
    (hahead : c.ahead = t ++ rest) (ht : IsToken t rest) :
    ∃ c', c.next? = some (⟨String.ofList t, c.line.toNat⟩, c') ∧ c'.ahead = rest ∧
      c'.line = c.line + UInt32.ofNat (Text.newlines t) ∧ c'.Fresh := by
  obtain ⟨first, cs, rfl, hfirst⟩ := ht.exists_cons
  rw [List.cons_append] at hahead
  have hsplit : first :: (cs ++ rest) = (first :: cs) ++ rest := rfl
  obtain ⟨hlength, hlater, q, hq⟩ := measure_of_isToken hfresh hahead hsplit ht
  have htake : (first :: (cs ++ rest)).take (first :: cs).length = first :: cs := by simp
  refine ⟨_, ?_, ?_, ?_, hlater⟩
  · rw [next?, skipBlanks_of_not_blank hahead hfirst]
    simp only [hahead, hlength, htake]
  · rw [hq]
    simp [hahead]
  · rw [hq]
    simp only [advance, hahead, htake]

theorem tokens_of_lexes {line : Nat} {cs : List Char} {ts : List Token} (h : Lexes line cs ts)
    {c : Cursor} (hfresh : c.Fresh) (hahead : c.ahead = cs)
    (hline : c.line = UInt32.ofNat line) (found : List Token) :
    c.tokens found = found.reverse ++ ts := by
  induction h generalizing c found with
  | nil =>
    rw [tokens, next?_nil hahead]
    simp
  | @blank line d cs ts hd _ ih =>
    have hnext : c.tokens found = (c.advance 1).tokens found := by
      rw [tokens, tokens, next?_blank hahead hd]
    rw [hnext]
    refine ih (hfresh.advance 1) (by simp [hahead]) ?_ found
    simp [advance, hahead, hline]
  | @token line t rest ts ht _ ih =>
    obtain ⟨c', hnext, hahead', hline', hfresh'⟩ := next?_token hfresh hahead ht
    rw [tokens, hnext]
    have hlater : c'.line = UInt32.ofNat (line + Text.newlines t) := by
      rw [hline', hline, UInt32.ofNat_add]
    -- The counter of the cursor starts again with zero where the remainder does.
    have hnumber : c.line.toNat = line % UInt32.size := by rw [hline, UInt32.toNat_ofNat']
    rw [hnumber]
    have htokens := ih hfresh' hahead' hlater (⟨String.ofList t, line % UInt32.size⟩ :: found)
    simpa using htokens

end Cursor

/-- The tokens of a text are those that the rules of lexing prescribe, and no others. -/
theorem Token.ofText_eq_iff (text : String) (ts : List Token) :
    ofText text = ts ↔ Lexes 1 (Text.withoutComments text.toList) ts := by
  have hunique : ∀ us, Lexes 1 (Text.withoutComments text.toList) us → ofText text = us :=
    fun us hus => Cursor.tokens_of_lexes hus (Cursor.fresh_start _) rfl rfl []
  constructor
  · intro h
    obtain ⟨us, hus⟩ := exists_lexes 1 (Text.withoutComments text.toList)
    rwa [← h, hunique us hus]
  · exact hunique ts

end PrefixScript
