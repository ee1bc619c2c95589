import PrefixScript.Proofs.Comments
import PrefixScript.Proofs.Grammar
import PrefixScript.Proofs.Lexing
import PrefixScript.Proofs.Number.Layouts

namespace PrefixScript

namespace Word

/-- A word that a program text can hold, brackets aside. -/
def Sound : Word → Prop
  | text s => '"' ∉ s.toList ∧ (Text.passes false s.toList).isSome
  | number x => Number.Finite x
  | symbol name => name.toList ≠ [] ∧ (∀ c ∈ name.toList, Text.isRunChar c = true) ∧
      (name.toList.head? = some '"' → '"' ∉ name.toList.tail) ∧ ofText name = symbol name

def Opens (w : Word) : Prop :=
  ∃ name, w = symbol name ∧ name.toList.head? = some '"'

def Quotes (w : Word) : Prop :=
  '"' ∈ w.shown.toList

theorem numbers_plain : numbers.Plain :=
  ⟨fun _ => rfl, rfl, rfl⟩

end Word

namespace Text

theorem isRunChar_of_isDigit {c : Char} (h : c.isDigit = true) : isRunChar c = true := by
  have hdigit := Char.isDigit_iff_toNat.1 h
  have hzero : '0'.toNat = 48 := rfl
  have hnine : '9'.toNat = 57 := rfl
  refine isRunChar_iff.2 ⟨?_, Bool.eq_false_iff.2 fun hbracket => ?_⟩
  · simp [isBlank, blankRanges]
    omega
  · rcases isBracket_iff.1 hbracket with rfl | rfl | rfl | rfl <;> contradiction

theorem isRunChar_of_numeric {c : Char} (h : c.isDigit = true ∨ c ∈ ['.', 'e', '-', '+']) :
    isRunChar c = true ∧ c ∉ ['"', '#', '\\'] := by
  rcases h with h | h
  · refine ⟨isRunChar_of_isDigit h, fun hmem => ?_⟩
    simp only [List.mem_cons, List.not_mem_nil, or_false] at hmem
    rcases hmem with rfl | rfl | rfl <;> contradiction
  · simp only [List.mem_cons, List.not_mem_nil, or_false] at h
    rcases h with rfl | rfl | rfl | rfl <;> decide

end Text

namespace Word

theorem unquote?_text (inner : List Char) : unquote? ('"' :: (inner ++ ['"'])) = some inner := by
  simp [unquote?]

theorem unquote?_run {c : Char} {cs : List Char} (h : c = '"' → '"' ∉ cs) :
    unquote? (c :: cs) = none := by
  unfold unquote?
  split
  · next rest heq =>
    obtain ⟨rfl, rfl⟩ := List.cons.inj heq
    rw [if_neg]
    exact fun hlast => h rfl (List.mem_of_getLast? hlast)
  · rfl

end Word

namespace Number.Layout

variable {layout : Layout} (hfraction : layout.showsFraction = false) {x : Float} (hx : Finite x)
include hfraction hx

theorem numeric_write {c : Char} (hc : c ∈ (layout.write x).toList) :
    Text.isRunChar c = true ∧ c ∉ ['"', '#', '\\'] :=
  Text.isRunChar_of_numeric (mem_write hfraction hx hc)

theorem exists_cons_write : ∃ c cs, (layout.write x).toList = c :: cs ∧
    (∀ d ∈ c :: cs, Text.isRunChar d = true) ∧ c ∉ ['"', '#', '\\'] := by
  obtain ⟨c, cs, hcs⟩ := List.exists_cons_of_ne_nil (write_ne_nil hfraction hx)
  have hnumeric := fun d (hd : d ∈ c :: cs) => numeric_write hfraction hx (hcs ▸ hd)
  exact ⟨c, cs, hcs, fun d hd => (hnumeric d hd).1, (hnumeric c (by simp)).2⟩

theorem ofText_write : Word.ofText (layout.write x) = .number (layout.reread x) := by
  obtain ⟨c, cs, hcs, -, hc⟩ := exists_cons_write hfraction hx
  have hquote : c = '"' → '"' ∉ cs := by
    rintro rfl
    exact absurd (by simp) hc
  rw [Word.ofText, hcs, Word.unquote?_run hquote, ofText?_write hfraction hx]

end Number.Layout

namespace Word

theorem ofText_text (inner : List Char) :
    ofText (String.ofList ('"' :: (inner ++ ['"']))) = text (String.ofList inner) := by
  rw [ofText, String.toList_ofList, unquote?_text]

theorem ofText_run {c : Char} {cs : List Char} (h : c = '"' → '"' ∉ cs) :
    (∃ x, ofText (String.ofList (c :: cs)) = number x ∧ Number.Finite x) ∨
      ofText (String.ofList (c :: cs)) = symbol (String.ofList (c :: cs)) := by
  rw [ofText, String.toList_ofList, unquote?_run h]
  cases hx : Number.ofText? (String.ofList (c :: cs)) with
  | none => exact .inr rfl
  | some x => exact .inl ⟨x, rfl, Number.finite_of_ofText? hx⟩

theorem ofText_bracket {c : Char} (h : Text.isBracket c = true) :
    ofText (String.ofList [c]) = symbol (String.ofList [c]) := by
  rcases Text.isBracket_iff.1 h with rfl | rfl | rfl | rfl <;> decide

theorem isBracket_of_text {c : Char} (h : Text.isBracket c = true) {t : Token}
    (ht : t.text = String.ofList [c]) : (Atom.ofToken t).IsBracket := by
  have hword : (Atom.ofToken t).word = symbol (String.ofList [c]) := by
    rw [Atom.ofToken, ht, ofText_bracket h]
  rw [Atom.IsBracket, Atom.symbol?, hword]
  rcases Text.isBracket_iff.1 h with rfl | rfl | rfl | rfl <;> decide

end Word

namespace Token

def word (t : Token) : Word :=
  .ofText t.text

end Token

namespace IsToken

variable {t rest : List Char}

theorem sound (h : IsToken t rest) {fresh : Bool} (hp : (Text.passes fresh (t ++ rest)).isSome) :
    (∃ c, Text.isBracket c = true ∧ t = [c]) ∨ (Word.ofText (String.ofList t)).Sound := by
  cases h with
  | @text inner _ hinner =>
    right
    rw [Word.ofText_text, Word.Sound, String.toList_ofList]
    refine ⟨hinner, ?_⟩
    have hquote : Text.pass fresh '"' = some false := by cases fresh <;> rfl
    rw [List.cons_append, Text.passes_cons, hquote, Option.bind_some, List.append_assoc,
      Text.passes_append] at hp
    cases hpasses : Text.passes false inner with
    | none => simp [hpasses] at hp
    | some _ => rfl
  | @bracket c _ hc => exact .inl ⟨c, hc, rfl⟩
  | @run c cs _ hrun _ hopen =>
    right
    have hquote : c = '"' → '"' ∉ cs := fun heq hmem =>
      hopen heq (List.mem_append_left _ hmem)
    rcases Word.ofText_run hquote with ⟨x, hx, hfinite⟩ | hsymbol
    · rw [hx]
      exact hfinite
    · rw [hsymbol, Word.Sound, String.toList_ofList]
      exact ⟨List.cons_ne_nil _ _, hrun, fun hhead => hquote (by simpa using hhead), hsymbol⟩

theorem word_cases (h : IsToken t rest) :
    (∃ inner, t = '"' :: (inner ++ ['"']) ∧
        Word.ofText (String.ofList t) = .text (String.ofList inner)) ∨
      (∃ x, Word.ofText (String.ofList t) = .number x ∧ Number.Finite x) ∨
      (Word.ofText (String.ofList t) = .symbol (String.ofList t) ∧
        (t.head? = some '"' → '"' ∉ rest)) := by
  cases h with
  | @text inner => exact .inl ⟨inner, rfl, Word.ofText_text inner⟩
  | @bracket c _ hc =>
    refine .inr (.inr ⟨Word.ofText_bracket hc, fun hhead => ?_⟩)
    obtain rfl : c = '"' := by simpa using hhead
    contradiction
  | @run c cs _ _ _ hopen =>
    have hquote : c = '"' → '"' ∉ cs := fun heq hmem =>
      hopen heq (List.mem_append_left _ hmem)
    refine .inr ((Word.ofText_run hquote).imp_right fun hsymbol => ⟨hsymbol, fun hhead hmem => ?_⟩)
    exact hopen (by simpa using hhead) (List.mem_append_right _ hmem)

theorem notMem_of_opens (h : IsToken t rest) (hw : (Word.ofText (String.ofList t)).Opens) :
    '"' ∉ rest := by
  obtain ⟨name, hname, hhead⟩ := hw
  rcases h.word_cases with ⟨inner, -, hword⟩ | ⟨x, hword, -⟩ | ⟨hword, hrest⟩
  · rw [hword] at hname
    contradiction
  · rw [hword] at hname
    contradiction
  · rw [hword] at hname
    obtain rfl := Word.symbol.inj hname
    exact hrest (by simpa using hhead)

theorem mem_of_quotes (h : IsToken t rest) (hw : (Word.ofText (String.ofList t)).Quotes) :
    '"' ∈ t := by
  rcases h.word_cases with ⟨inner, rfl, -⟩ | ⟨x, hword, hfinite⟩ | ⟨hword, -⟩
  · simp
  · rw [Word.Quotes, hword] at hw
    have hnumeric := Number.Layout.numeric_write Word.numbers_plain.showsFraction hfinite hw
    exact absurd (by simp) hnumeric.2
  · rw [Word.Quotes, hword, Word.shown, String.toList_ofList] at hw
    exact hw

end IsToken

namespace Lexes

variable {line : Nat} {cs : List Char} {ts : List Token}

theorem sound (h : Lexes line cs ts) {fresh : Bool} (hp : (Text.passes fresh cs).isSome) :
    ∀ t ∈ ts, (∃ c, Text.isBracket c = true ∧ t.text = String.ofList [c]) ∨ t.word.Sound := by
  induction h generalizing fresh with
  | nil => simp
  | @blank _ c cs _ hc _ ih =>
    rw [Text.passes_cons] at hp
    obtain ⟨next, hnext⟩ : ∃ next, Text.pass fresh c = some next := by
      cases hpass : Text.pass fresh c with
      | none => simp [hpass] at hp
      | some next => exact ⟨next, rfl⟩
    rw [hnext] at hp
    exact ih hp
  | @token _ t rest ts ht _ ih =>
    intro u hu
    rcases List.mem_cons.1 hu with rfl | hu
    · exact (ht.sound hp).imp_left fun ⟨c, hc, heq⟩ => ⟨c, hc, by rw [heq]⟩
    · rw [Text.passes_append] at hp
      cases hpasses : Text.passes fresh t with
      | none => simp [hpasses] at hp
      | some next =>
        rw [hpasses] at hp
        exact ih hp u hu

theorem mem_of_quotes (h : Lexes line cs ts) : ∀ t ∈ ts, t.word.Quotes → '"' ∈ cs := by
  induction h with
  | nil => simp
  | blank _ _ ih => exact fun t ht hw => List.mem_cons_of_mem _ (ih t ht hw)
  | @token _ t rest ts ht _ ih =>
    intro u hu hw
    rcases List.mem_cons.1 hu with rfl | hu
    · exact List.mem_append_left _ (ht.mem_of_quotes hw)
    · exact List.mem_append_right _ (ih u hu hw)

theorem pairwise (h : Lexes line cs ts) :
    (ts.map Token.word).Pairwise fun w v => w.Opens → ¬ v.Quotes := by
  induction h with
  | nil => exact .nil
  | blank _ _ ih => exact ih
  | @token _ t rest ts ht hrest ih =>
    refine .cons ?_ ih
    rintro v hv hw hquotes
    obtain ⟨u, hu, rfl⟩ := List.mem_map.1 hv
    exact ht.notMem_of_opens hw (hrest.mem_of_quotes u hu hquotes)

end Lexes

namespace Text

theorem pass_of_isRunChar {fresh : Bool} {c : Char} (h : isRunChar c = true)
    (hc : fresh = true → c ≠ '#') : pass fresh c = some false := by
  have hblank := (isRunChar_iff.1 h).1
  have hnewline : c ≠ '\n' := by
    rintro rfl
    contradiction
  rw [pass, if_neg hnewline, if_neg (by simp [hblank]), if_neg]
  simpa using hc

theorem passes_run {cs : List Char} (h : ∀ c ∈ cs, isRunChar c = true) :
    passes false cs = some false := by
  induction cs with
  | nil => rfl
  | cons c cs ih =>
    rw [passes_cons, pass_of_isRunChar (h c (by simp)) (by simp)]
    exact ih fun d hd => h d (List.mem_cons_of_mem _ hd)

theorem passes_of_head {c : Char} {cs : List Char} (h : isRunChar c = true) (hc : c ≠ '#') :
    passes true (c :: cs) = passes false (c :: cs) := by
  rw [passes_cons, passes_cons, pass_of_isRunChar h fun _ => hc, pass_of_isRunChar h (by simp)]

end Text

namespace Word.Sound

variable {w : Word}

theorem run (h : w.Sound) (hw : ∀ s, w ≠ .text s) :
    w.shown.toList ≠ [] ∧ ∀ c ∈ w.shown.toList, Text.isRunChar c = true := by
  cases w with
  | text s => exact absurd rfl (hw s)
  | number x =>
    have hfraction := numbers_plain.showsFraction
    exact ⟨Number.Layout.write_ne_nil hfraction h,
      fun c hc => (Number.Layout.numeric_write hfraction h hc).1⟩
  | symbol name => exact ⟨h.1, h.2.1⟩

theorem toList_shown_text (s : String) : (text s).shown.toList = '"' :: (s.toList ++ ['"']) := by
  simp [shown]

theorem opens_of_head? (h : w.Sound) (hw : ∀ s, w ≠ .text s)
    (hhead : w.shown.toList.head? = some '"') : w.Opens := by
  cases w with
  | text s => exact absurd rfl (hw s)
  | number x =>
    have hnumeric :=
      Number.Layout.numeric_write numbers_plain.showsFraction h (List.mem_of_head? hhead)
    exact absurd (by simp) hnumeric.2
  | symbol name => exact ⟨name, rfl, hhead⟩

theorem notMem_tail (h : w.Sound) (hw : w.Opens) : '"' ∉ w.shown.toList.tail := by
  obtain ⟨name, rfl, hhead⟩ := hw
  exact h.2.2.1 hhead

theorem isToken (h : w.Sound) {rest : List Char} (hrest : ∀ d ∈ rest.head?, Text.isRunChar d = false)
    (hopen : w.Opens → '"' ∉ rest) : IsToken w.shown.toList rest := by
  by_cases hw : ∃ s, w = text s
  · obtain ⟨s, rfl⟩ := hw
    rw [toList_shown_text]
    exact .text h.1
  · rw [not_exists] at hw
    obtain ⟨hne, hrun⟩ := h.run hw
    have hopens := h.opens_of_head? hw
    have hquotes := h.notMem_tail
    obtain ⟨c, cs, hcs⟩ := List.exists_cons_of_ne_nil hne
    rw [hcs] at hrun hopens hquotes ⊢
    refine .run hrun hrest fun hc hmem => ?_
    have hw := hopens (by simp [hc])
    exact (List.mem_append.1 hmem).elim (hquotes hw) (hopen hw)

theorem not_isBracket (h : w.Sound) (line : Nat) : ¬ Atom.IsBracket ⟨w, line⟩ := by
  intro hb
  cases w with
  | text s => simp [Atom.IsBracket, Atom.symbol?] at hb
  | number x => simp [Atom.IsBracket, Atom.symbol?] at hb
  | symbol name =>
    have hcases : name = "(" ∨ name = "[" ∨ name = ")" ∨ name = "]" := by
      simpa [Atom.IsBracket, Atom.symbol?] using hb
    have hrun := h.2.1
    rcases hcases with rfl | rfl | rfl | rfl
    · exact absurd (hrun '(' (by simp)) (by decide)
    · exact absurd (hrun '[' (by simp)) (by decide)
    · exact absurd (hrun ')' (by simp)) (by decide)
    · exact absurd (hrun ']' (by simp)) (by decide)

theorem ofText_shown (h : w.Sound) : ofText w.shown = w := by
  cases w with
  | text s =>
    have hshown := String.ofList_toList (s := (text s).shown)
    rw [← hshown, toList_shown_text, ofText_text, String.ofList_toList]
  | number x =>
    rw [shown, Number.Layout.ofText_write numbers_plain.showsFraction h, numbers_plain.reread_eq]
  | symbol name => exact h.2.2.2

theorem passes_shown (h : w.Sound) : Text.passes false w.shown.toList = some false := by
  by_cases hw : ∃ s, w = text s
  · obtain ⟨s, rfl⟩ := hw
    obtain ⟨fresh, hfresh⟩ := Option.isSome_iff_exists.1 h.2
    have hopen : Text.pass false '"' = some false := rfl
    have hclose : Text.pass fresh '"' = some false := by cases fresh <;> rfl
    rw [toList_shown_text, Text.passes_cons, hopen, Option.bind_some, Text.passes_append, hfresh]
    simp [hclose]
  · rw [not_exists] at hw
    exact Text.passes_run (h.run hw).2

theorem list : (symbol "list").Sound := by
  refine ⟨by decide, ?_, by decide, by decide +kernel⟩
  rw [← List.all_eq_true]
  rfl

theorem passes_shown_fresh (h : w.Sound)
    (hhash : ∀ name, w = .symbol name → name.toList.head? ≠ some '#') :
    Text.passes true w.shown.toList = some false := by
  have hpasses := h.passes_shown
  by_cases hw : ∃ s, w = text s
  · obtain ⟨s, rfl⟩ := hw
    rw [toList_shown_text] at hpasses ⊢
    rwa [Text.passes_of_head Text.isRunChar_quote (by decide)]
  · rw [not_exists] at hw
    obtain ⟨hne, hrun⟩ := h.run hw
    obtain ⟨c, cs, hcs⟩ := List.exists_cons_of_ne_nil hne
    have hc : c ≠ '#' := by
      rintro rfl
      cases w with
      | text s => exact hw s rfl
      | number x =>
        have hmem : '#' ∈ (number x).shown.toList := by simp [hcs]
        have hnumeric := Number.Layout.numeric_write numbers_plain.showsFraction h hmem
        exact absurd (by simp) hnumeric.2
      | symbol name => exact hhash name rfl (congrArg List.head? hcs)
    rw [hcs] at hrun hpasses ⊢
    rwa [Text.passes_of_head (hrun c (by simp)) hc]

end Word.Sound

end PrefixScript
