import PrefixScript.Proofs.Lines

/-!
# The decomposition of a text

A text without its comments is white space and tokens by turns. What a token looks like, how long it
is and on which line it stands are conditions on each token and on what stands before and behind it;
they are met in one way only, which is the one that the cursor finds.
-/

namespace PrefixScript

namespace Token

def IsText (t : Token) : Prop :=
  ∃ inner, '"' ∉ inner ∧ t.text.toList = '"' :: (inner ++ ['"'])

def IsBracket (t : Token) : Prop :=
  t.text ∈ ["(", ")", "[", "]"]

def IsRun (t : Token) (behind : List Char) : Prop :=
  t.text.toList ≠ [] ∧
    (∀ c ∈ t.text.toList, Text.isBlank c = false ∧ Text.isBracket c = false) ∧
    ∀ c ∈ behind.head?, Text.isBlank c = true ∨ Text.isBracket c = true

def StartsWithQuote (t : Token) : Prop :=
  t.text.toList.head? = some '"'

/-- The rules for a token between two parts of a text that starts on the given line. -/
structure Fits (first : Nat) (before : List Char) (t : Token) (behind : List Char) : Prop where
  form : t.IsText ∨ t.IsBracket ∨ t.IsRun behind
  quoted : t.StartsWithQuote → (t.IsText ↔ '"' ∈ t.text.toList.tail ++ behind)
  line : t.line = (first + Text.newlines before) % UInt32.size

end Token

/-- Tokens, each with the characters between it and the token before it, and the characters behind
the last one. -/
structure Decomposition where
  parts : List (List Char × Token)
  last : List Char

namespace Decomposition

def text (d : Decomposition) : List Char :=
  (d.parts.flatMap fun p => p.1 ++ p.2.text.toList) ++ d.last

def tokens (d : Decomposition) : List Token :=
  d.parts.map (·.2)

/-- Nothing but white space stands outside of tokens, and each token is as the rules say. -/
structure Lawful (first : Nat) (d : Decomposition) : Prop where
  gap : ∀ p ∈ d.parts, ∀ c ∈ p.1, Text.isBlank c = true
  last : ∀ c ∈ d.last, Text.isBlank c = true
  token : ∀ before gap t after, d.parts = before ++ (gap, t) :: after →
    t.Fits first (text ⟨before, gap⟩) (text ⟨after, d.last⟩)

end Decomposition

namespace Token

variable {first : Nat} {before behind : List Char} {t : Token}

theorem IsText.mem_tail (h : t.IsText) : '"' ∈ t.text.toList.tail := by
  obtain ⟨inner, -, htext⟩ := h
  simp [htext]

theorem isBracket_iff : t.IsBracket ↔ ∃ c, Text.isBracket c = true ∧ t.text.toList = [c] := by
  simp [IsBracket, Text.isBracket_iff, ← String.toList_inj]

theorem Fits.isToken (h : t.Fits first before behind) : IsToken t.text.toList behind := by
  by_cases htext : t.IsText
  · obtain ⟨inner, hinner, heq⟩ := htext
    rw [heq]
    exact .text hinner
  · rcases h.form with hform | hform | ⟨hne, hrun, hend⟩
    · exact absurd hform htext
    · obtain ⟨c, hc, heq⟩ := isBracket_iff.1 hform
      rw [heq]
      exact .bracket hc
    · obtain ⟨c, cs, heq⟩ := List.exists_cons_of_ne_nil hne
      have hquoted := h.quoted
      rw [StartsWithQuote, heq] at hquoted
      rw [heq] at hrun ⊢
      refine .run (fun d hd => Text.isRunChar_iff.2 (hrun d hd)) (fun d hd => ?_) ?_
      · rcases hend d hd with hblank | hbracket
        · exact Text.isRunChar_of_isBlank hblank
        · simp [Text.isRunChar, hbracket]
      · rintro rfl hmem
        exact htext ((hquoted rfl).2 hmem)

theorem fits_of_isToken {cs : List Char} (h : IsToken cs behind) {line : Nat}
    (hline : line = (first + Text.newlines before) % UInt32.size) :
    Fits first before ⟨String.ofList cs, line⟩ behind := by
  have hcs : (⟨String.ofList cs, line⟩ : Token).text.toList = cs := String.toList_ofList
  cases h with
  | @text inner rest hinner =>
    have htext : IsText ⟨_, line⟩ := ⟨inner, hinner, hcs⟩
    exact ⟨.inl htext, fun _ =>
      ⟨fun _ => List.mem_append_left _ htext.mem_tail, fun _ => htext⟩, hline⟩
  | @bracket c _ hc =>
    refine ⟨.inr (.inl (isBracket_iff.2 ⟨c, hc, hcs⟩)), fun hquote => ?_, hline⟩
    obtain rfl : c = '"' := by simpa [StartsWithQuote] using hquote
    contradiction
  | @run c cs _ hrun hend hopen =>
    refine ⟨.inr (.inr ⟨by simp, ?_, ?_⟩), fun hquote => ?_, hline⟩
    · rw [hcs]
      exact fun d hd => Text.isRunChar_iff.1 (hrun d hd)
    · intro d hd
      have hstop := hend d hd
      simp only [Text.isRunChar, Bool.and_eq_false_iff, Bool.not_eq_false'] at hstop
      exact hstop
    · obtain rfl : c = '"' := by simpa [StartsWithQuote] using hquote
      have hnone := hopen rfl
      rw [hcs, List.tail_cons]
      refine ⟨fun htext => ?_, fun hmem => absurd hmem hnone⟩
      have hmem := htext.mem_tail
      rw [hcs] at hmem
      exact List.mem_append_left _ hmem

end Token

namespace Decomposition

variable {first : Nat} {gap last : List Char} {t : Token} {parts : List (List Char × Token)}

@[simp] theorem text_nil (last : List Char) : text ⟨[], last⟩ = last := rfl

@[simp] theorem text_cons (gap : List Char) (t : Token) (parts : List (List Char × Token))
    (last : List Char) :
    text ⟨(gap, t) :: parts, last⟩ = gap ++ (t.text.toList ++ text ⟨parts, last⟩) := by
  simp [text]

@[simp] theorem tokens_nil (last : List Char) : tokens ⟨[], last⟩ = [] := rfl

@[simp] theorem tokens_cons (gap : List Char) (t : Token) (parts : List (List Char × Token))
    (last : List Char) : tokens ⟨(gap, t) :: parts, last⟩ = t :: tokens ⟨parts, last⟩ := rfl

theorem lawful_nil_iff : Lawful first ⟨[], last⟩ ↔ ∀ c ∈ last, Text.isBlank c = true := by
  refine ⟨Lawful.last, fun h => ⟨by simp, h, fun before gap t after hsplit => ?_⟩⟩
  simp at hsplit

theorem lawful_cons_iff :
    Lawful first ⟨(gap, t) :: parts, last⟩ ↔
      (∀ c ∈ gap, Text.isBlank c = true) ∧ t.Fits first gap (text ⟨parts, last⟩) ∧
        Lawful (first + Text.newlines (gap ++ t.text.toList)) ⟨parts, last⟩ := by
  -- The line of a later token is counted from behind the first one as well as from the start.
  have hshift : ∀ before gap' behind (u : Token),
      u.Fits first (text ⟨(gap, t) :: before, gap'⟩) behind ↔
        u.Fits (first + Text.newlines (gap ++ t.text.toList)) (text ⟨before, gap'⟩) behind := by
    intro before gap' behind u
    have hlines : first + Text.newlines (text ⟨(gap, t) :: before, gap'⟩) =
        first + Text.newlines (gap ++ t.text.toList) + Text.newlines (text ⟨before, gap'⟩) := by
      rw [text_cons, ← List.append_assoc, Text.newlines_append, Nat.add_assoc]
    have hnumbers := congrArg (· % UInt32.size) hlines
    exact ⟨fun ⟨hform, hquoted, hline⟩ => ⟨hform, hquoted, hline.trans hnumbers⟩,
      fun ⟨hform, hquoted, hline⟩ => ⟨hform, hquoted, hline.trans hnumbers.symm⟩⟩
  constructor
  · rintro ⟨hgap, hlast, htoken⟩
    rw [List.forall_mem_cons] at hgap
    refine ⟨hgap.1, htoken [] gap t parts rfl, hgap.2, hlast, fun before gap' u after hsplit => ?_⟩
    refine (hshift before gap' _ u).1 (htoken ((gap, t) :: before) gap' u after ?_)
    exact congrArg ((gap, t) :: ·) hsplit
  · rintro ⟨hgap, hfits, hparts, hlast, htoken⟩
    refine ⟨List.forall_mem_cons.2 ⟨hgap, hparts⟩, hlast, fun before gap' u after hsplit => ?_⟩
    cases before with
    | nil =>
      obtain ⟨⟨rfl, rfl⟩, rfl⟩ := by simpa using hsplit
      exact hfits
    | cons p before =>
      obtain ⟨rfl, hlater⟩ := List.cons.inj hsplit
      exact (hshift before gap' _ u).2 (htoken before gap' u after hlater)

theorem lexes_gap {line : Nat} {cs : List Char} {ts : List Token}
    (hgap : ∀ c ∈ gap, Text.isBlank c = true) (h : Lexes (line + Text.newlines gap) cs ts) :
    Lexes line (gap ++ cs) ts := by
  induction gap generalizing line with
  | nil => exact h
  | cons c gap ih =>
    rw [List.forall_mem_cons] at hgap
    refine .blank hgap.1 (ih hgap.2 ?_)
    rwa [Nat.add_assoc, ← Text.newlines_append]

theorem Lawful.lexes {d : Decomposition} (h : d.Lawful first) : Lexes first d.text d.tokens := by
  obtain ⟨parts, last⟩ := d
  induction parts generalizing first with
  | nil =>
    have hend : Lexes (first + Text.newlines last) [] [] := .nil
    have hlexes := lexes_gap (lawful_nil_iff.1 h) hend
    rwa [List.append_nil] at hlexes
  | cons p parts ih =>
    obtain ⟨gap, t⟩ := p
    obtain ⟨hgap, hfits, hparts⟩ := lawful_cons_iff.1 h
    have hrest : Lexes (first + Text.newlines gap + Text.newlines t.text.toList)
        (text ⟨parts, last⟩) (tokens ⟨parts, last⟩) := by
      rw [Nat.add_assoc, ← Text.newlines_append]
      exact ih hparts
    have htoken := Lexes.token hfits.isToken hrest
    rw [String.ofList_toList, ← hfits.line] at htoken
    rw [text_cons, tokens_cons]
    exact lexes_gap hgap htoken

theorem exists_lawful {line : Nat} {cs : List Char} {ts : List Token} (h : Lexes line cs ts) :
    ∃ d : Decomposition, d.Lawful line ∧ d.text = cs ∧ d.tokens = ts := by
  induction h with
  | nil => exact ⟨⟨[], []⟩, lawful_nil_iff.2 nofun, rfl, rfl⟩
  | @blank line c cs ts hc _ ih =>
    obtain ⟨⟨parts, last⟩, hlawful, rfl, rfl⟩ := ih
    cases parts with
    | nil =>
      have hlast : ∀ d ∈ c :: last, Text.isBlank d = true :=
        List.forall_mem_cons.2 ⟨hc, lawful_nil_iff.1 hlawful⟩
      exact ⟨⟨[], c :: last⟩, lawful_nil_iff.2 hlast, rfl, rfl⟩
    | cons p parts =>
      obtain ⟨gap, t⟩ := p
      obtain ⟨hgap, hfits, hparts⟩ := lawful_cons_iff.1 hlawful
      refine ⟨⟨(c :: gap, t) :: parts, last⟩, lawful_cons_iff.2 ⟨?_, ?_, ?_⟩, rfl, rfl⟩
      · exact List.forall_mem_cons.2 ⟨hc, hgap⟩
      · refine ⟨hfits.form, hfits.quoted, ?_⟩
        rw [hfits.line, Nat.add_assoc, ← Text.newlines_append]
        rfl
      · rwa [Nat.add_assoc, ← Text.newlines_append] at hparts
  | @token line t rest ts ht _ ih =>
    obtain ⟨⟨parts, last⟩, hlawful, rfl, rfl⟩ := ih
    have hcs : (⟨String.ofList t, line % UInt32.size⟩ : Token).text.toList = t :=
      String.toList_ofList
    refine ⟨⟨([], ⟨String.ofList t, line % UInt32.size⟩) :: parts, last⟩,
      lawful_cons_iff.2 ⟨nofun, ?_, ?_⟩, ?_, rfl⟩
    · exact Token.fits_of_isToken ht rfl
    · rwa [List.nil_append, hcs]
    · rw [text_cons, hcs, List.nil_append]

theorem text_append (before after : List (List Char × Token)) (gap last : List Char) (t : Token) :
    text ⟨before ++ (gap, t) :: after, last⟩ =
      text ⟨before, gap⟩ ++ (t.text.toList ++ text ⟨after, last⟩) := by
  simp [text]

theorem Lawful.line_eq {d : Decomposition} (h : d.Lawful 1)
    (hcount : Text.newlines d.text < UInt32.size - 1) {before after : List (List Char × Token)}
    (hsplit : d.parts = before ++ (gap, t) :: after) :
    t.line = 1 + Text.newlines (text ⟨before, gap⟩) := by
  obtain ⟨parts, last⟩ := d
  obtain rfl : parts = _ := hsplit
  rw [text_append, Text.newlines_append] at hcount
  rw [(h.token before gap t after rfl).line, Nat.mod_eq_of_lt]
  omega

theorem takeWhile_gap (hgap : ∀ c ∈ gap, Text.isBlank c = true) {cs behind : List Char}
    (h : IsToken cs behind) (rest : List Char) :
    (gap ++ (cs ++ rest)).takeWhile Text.isBlank = gap := by
  obtain ⟨c, cs, rfl, hc⟩ := h.exists_cons
  rw [List.takeWhile_append_of_pos hgap, List.cons_append,
    List.takeWhile_cons_of_neg (by simp [hc]), List.append_nil]

theorem Lawful.eq_of_tokens_eq {line : Nat} {d e : Decomposition} (hd : d.Lawful line)
    (he : e.Lawful line) (htext : d.text = e.text) (htokens : d.tokens = e.tokens) : d = e := by
  obtain ⟨parts, last⟩ := d
  obtain ⟨parts', last'⟩ := e
  induction parts generalizing parts' line with
  | nil =>
    cases parts' with
    | nil => exact congrArg (Decomposition.mk []) htext
    | cons => contradiction
  | cons p parts ih =>
    cases parts' with
    | nil => contradiction
    | cons p' parts' =>
      obtain ⟨gap, t⟩ := p
      obtain ⟨gap', t'⟩ := p'
      rw [tokens_cons, tokens_cons] at htokens
      obtain ⟨rfl, hlater⟩ := List.cons.inj htokens
      obtain ⟨hgap, hfits, hd⟩ := lawful_cons_iff.1 hd
      obtain ⟨hgap', hfits', he⟩ := lawful_cons_iff.1 he
      rw [text_cons, text_cons] at htext
      obtain rfl : gap = gap' := by
        rw [← takeWhile_gap hgap hfits.isToken, htext, takeWhile_gap hgap' hfits'.isToken]
      have hrest := List.append_cancel_left (List.append_cancel_left htext)
      obtain ⟨rfl, rfl⟩ := Decomposition.mk.inj (ih hd parts' he hrest hlater)
      rfl

end Decomposition

/-- The tokens of a text are those of the one decomposition by the rules that the text without its
comments has, with lines counted from one; if there are few enough of them, they have the numbers
that they should have. The text without its comments has the same lines, save that those are empty
whose first character, white space aside, is `#`. -/
theorem Token.ofText_decomposition (text : String) :
    let cs := Text.withoutComments text.toList
    (∃ d : Decomposition, d.tokens = ofText text ∧ d.Lawful 1 ∧ d.text = cs ∧
      (Text.newlines text.toList < UInt32.size - 1 →
        ∀ before gap t after, d.parts = before ++ (gap, t) :: after →
          t.line = 1 + Text.newlines (Decomposition.text ⟨before, gap⟩)) ∧
      ∀ e : Decomposition, e.Lawful 1 → e.text = cs → e = d) ∧
    (Text.pieces cs).length = (Text.pieces text.toList).length ∧
    ∀ (n : Nat) (line : List Char), (Text.pieces text.toList)[n]? = some line →
      (Text.pieces cs)[n]? =
        some (if line.find? (fun c => !Text.isBlank c) = some '#' then [] else line) := by
  refine ⟨?_, ?_, fun n line hline => ?_⟩
  · obtain ⟨d, hlawful, htext, htokens⟩ :=
      Decomposition.exists_lawful ((ofText_eq_iff text _).1 rfl)
    have hnewlines : Text.newlines d.text = Text.newlines text.toList := by
      rw [htext, Text.newlines_withoutComments]
    refine ⟨d, htokens, hlawful, htext,
      fun hcount before gap t after => hlawful.line_eq (hnewlines ▸ hcount), fun e he hecs => ?_⟩
    have hlexes := he.lexes
    rw [hecs] at hlexes
    have htokens' := (ofText_eq_iff text _).2 hlexes
    exact he.eq_of_tokens_eq hlawful (hecs.trans htext.symm) (htokens'.symm.trans htokens.symm)
  · rw [Text.pieces_withoutComments, List.length_map]
  · have hcomment : Text.isComment line =
        decide (line.find? (fun c => !Text.isBlank c) = some '#') := by
      rw [List.find?_not_eq_head?_dropWhile]
      rfl
    rw [Text.pieces_withoutComments, List.getElem?_map, hline, Option.map_some, hcomment]
    simp only [decide_eq_true_eq]

end PrefixScript
