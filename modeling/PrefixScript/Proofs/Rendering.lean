import PrefixScript.Proofs.Trees
import PrefixScript.Proofs.Words

/-!
# Reading explicit form back

The text of a program in explicit form, one expression to a line, is read as this program on other
lines. A string can hold newlines and a quote can be left open, so whether a text reads back depends
on all of it: no line of it may look like a comment, and no quote may follow an open one.
-/

namespace PrefixScript

theorem intercalate_cons {α : Type} (sep : α) (part : List α) (parts : List (List α)) :
    [sep].intercalate (part :: parts) = part ++ parts.flatMap (sep :: ·) := by
  induction parts generalizing part with
  | nil => simp
  | cons next parts ih => rw [List.intercalate_cons_cons, ih, List.flatMap_cons]; simp

theorem mem_intercalate {α : Type} {sep x : α} {parts : List (List α)}
    (h : x ∈ [sep].intercalate parts) : x = sep ∨ ∃ part ∈ parts, x ∈ part := by
  cases parts with
  | nil => contradiction
  | cons part parts =>
    rw [intercalate_cons] at h
    rcases List.mem_append.1 h with h | h
    · exact .inr ⟨part, by simp, h⟩
    · obtain ⟨next, hnext, h⟩ := List.mem_flatMap.1 h
      exact (List.mem_cons.1 h).imp_right fun h => ⟨next, List.mem_cons_of_mem _ hnext, h⟩

namespace Expr

def chars : Expr → List Char :=
  fold (fun a => a.word.shown.toList) fun parts _ => '(' :: ([' '].intercalate parts ++ [')'])

@[simp] theorem chars_atom (a : Atom) : chars (.atom a) = a.word.shown.toList := rfl

@[simp] theorem chars_list (items : List Expr) (line : Nat) :
    chars (.list items line) = '(' :: ([' '].intercalate (items.map chars) ++ [')']) :=
  fold_list ..

theorem toList_itemsTo {es : List Expr}
    (hes : ∀ e ∈ es, ∀ out, (e.writeTo out).toList = out.toList ++ e.chars) (out : String) :
    (itemsTo out es).toList = out.toList ++ (es.map chars).flatMap (' ' :: ·) := by
  induction es generalizing out with
  | nil => simp [itemsTo]
  | cons e es ih =>
    rw [List.forall_mem_cons] at hes
    rw [itemsTo, ih hes.2, hes.1]
    simp

theorem toList_writeTo (e : Expr) (out : String) :
    (e.writeTo out).toList = out.toList ++ e.chars := by
  induction e using induction generalizing out with
  | atom a => simp [writeTo]
  | list items line ih =>
    cases items with
    | nil => simp [writeTo]
    | cons e es =>
      rw [List.forall_mem_cons] at ih
      rw [writeTo, String.toList_append, toList_itemsTo ih.2, ih.1, chars_list, List.map_cons,
        intercalate_cons]
      simp

theorem toList_shown (e : Expr) : e.shown.toList = e.chars := by
  rw [shown, toList_writeTo]
  rfl

end Expr

/-! ## No line is a comment -/

theorem passes_intercalate {parts : List (List Char)}
    (h : ∀ part ∈ parts, Text.passes false part = some false) :
    Text.passes false ([' '].intercalate parts) = some false := by
  have hblank : Text.pass false ' ' = some false := rfl
  induction parts with
  | nil => rfl
  | cons part parts ih =>
    rw [List.forall_mem_cons] at h
    cases parts with
    | nil => simpa using h.1
    | cons next parts =>
      rw [List.intercalate_cons_cons, List.append_assoc, Text.passes_append, h.1, Option.bind_some,
        List.singleton_append, Text.passes_cons, hblank, Option.bind_some, ih h.2]

namespace Expr

theorem passes_chars {e : Expr} (h : ∀ w ∈ e.words, w.Sound) :
    Text.passes false e.chars = some false := by
  induction e using induction with
  | atom a => exact Word.Sound.passes_shown (h a.word (by simp))
  | list items line ih =>
    have hopen : Text.pass false '(' = some false := rfl
    have hclose : Text.passes false [')'] = some false := rfl
    have hitems : ∀ part ∈ items.map chars, Text.passes false part = some false := by
      intro part hpart
      obtain ⟨e, he, rfl⟩ := List.mem_map.1 hpart
      exact ih e he fun w hw => h w (by simpa using ⟨e, he, hw⟩)
    rw [chars_list, Text.passes_cons, hopen, Option.bind_some, Text.passes_append,
      passes_intercalate hitems, Option.bind_some, hclose]

theorem passes_chars_fresh {e : Expr} (h : ∀ w ∈ e.words, w.Sound)
    (hhash : ∀ name ∈ e.symbol?, name.toList.head? ≠ some '#') :
    Text.passes true e.chars = some false := by
  cases e with
  | atom a =>
    refine Word.Sound.passes_shown_fresh (h a.word (by simp)) fun name hname => hhash name ?_
    simp [symbol?, Atom.symbol?, hname]
  | list items line =>
    have hpasses := passes_chars h
    rw [chars_list] at hpasses ⊢
    exact hpasses

end Expr

/-! ## The tokens of explicit form -/

/-- The tokens of the text say these words, on whatever line the text starts. -/
def Spells (cs : List Char) (ws : List Word) : Prop :=
  ∀ line, ∃ ts, Lexes line cs ts ∧ ts.map Token.word = ws

def EndsRun (cs : List Char) : Prop :=
  ∀ c ∈ cs.head?, Text.isRunChar c = false

theorem EndsRun.nil : EndsRun [] := by simp [EndsRun]

theorem EndsRun.cons {c : Char} (h : Text.isRunChar c = false) (cs : List Char) :
    EndsRun (c :: cs) := by
  simpa [EndsRun] using h

namespace Spells

variable {cs : List Char} {ws : List Word}

theorem nil : Spells [] [] :=
  fun _ => ⟨[], .nil, rfl⟩

theorem blank {c : Char} (hc : Text.isBlank c = true) (h : Spells cs ws) : Spells (c :: cs) ws := by
  intro line
  obtain ⟨ts, hts, hws⟩ := h (line + Text.newlines [c])
  exact ⟨ts, .blank hc hts, hws⟩

theorem token {t : List Char} (ht : IsToken t cs) (h : Spells cs ws) :
    Spells (t ++ cs) (Word.ofText (String.ofList t) :: ws) := by
  intro line
  obtain ⟨ts, hts, hws⟩ := h (line + Text.newlines t)
  exact ⟨⟨String.ofList t, line % UInt32.size⟩ :: ts, .token ht hts, by rw [List.map_cons, hws]; rfl⟩

theorem bracket {c : Char} (hc : Text.isBracket c = true) (h : Spells cs ws) :
    Spells (c :: cs) (.symbol (String.ofList [c]) :: ws) := by
  rw [← Word.ofText_bracket hc]
  exact token (.bracket hc) h

theorem word {w : Word} (hw : w.Sound) (hrun : EndsRun cs) (hopen : w.Opens → '"' ∉ cs)
    (h : Spells cs ws) : Spells (w.shown.toList ++ cs) (w :: ws) := by
  have htoken := token (hw.isToken hrun hopen) h
  rwa [String.ofList_toList, hw.ofText_shown] at htoken

end Spells

namespace Expr

def Opens (e : Expr) : Prop :=
  ∃ w ∈ e.words, w.Opens

def Spelled (e : Expr) : Prop :=
  ∀ rest ws, EndsRun rest → (e.Opens → '"' ∉ rest) → Spells rest ws →
    Spells (e.chars ++ rest) (e.explicit ++ ws)

theorem exists_quotes {e : Expr} (h : '"' ∈ e.chars) : ∃ w ∈ e.words, w.Quotes := by
  induction e using induction with
  | atom a => exact ⟨a.word, by simp, h⟩
  | list items line ih =>
    have hmem : '"' ∈ [' '].intercalate (items.map chars) := by simpa using h
    obtain hsep | ⟨part, hpart, hquote⟩ := mem_intercalate hmem
    · contradiction
    obtain ⟨e, he, rfl⟩ := List.mem_map.1 hpart
    obtain ⟨w, hw, hquotes⟩ := ih e he hquote
    exact ⟨w, by simpa using ⟨e, he, hw⟩, hquotes⟩

/-- No quote follows an open one. -/
def Closed (ws : List Word) : Prop :=
  ws.Pairwise fun w v => w.Opens → ¬ v.Quotes

theorem notMem_intercalate {sep : Char} (hsep : Text.isBlank sep = true) {es : List Expr}
    (h : ∀ e ∈ es, ∀ w ∈ e.words, ¬ w.Quotes) : '"' ∉ [sep].intercalate (es.map chars) := by
  intro hmem
  rcases mem_intercalate hmem with rfl | ⟨part, hpart, hquote⟩
  · contradiction
  · obtain ⟨e, he, rfl⟩ := List.mem_map.1 hpart
    obtain ⟨w, hw, hquotes⟩ := exists_quotes hquote
    exact h e he w hw hquotes

theorem spells_intercalate (sep : Char) (hsep : Text.isBlank sep = true) {es : List Expr}
    (hes : ∀ e ∈ es, e.Spelled) (hclosed : Closed (es.flatMap words)) {rest : List Char}
    {ws : List Word} (hrun : EndsRun rest) (hopen : (∃ e ∈ es, e.Opens) → '"' ∉ rest)
    (h : Spells rest ws) :
    Spells ([sep].intercalate (es.map chars) ++ rest) (es.flatMap explicit ++ ws) := by
  induction es with
  | nil => simpa using h
  | cons e es ih =>
    rw [List.forall_mem_cons] at hes
    rw [List.flatMap_cons, Closed, List.pairwise_append] at hclosed
    obtain ⟨-, hclosed, hbetween⟩ := hclosed
    have hfirst : e.Opens → '"' ∉ rest := fun he => hopen ⟨e, by simp, he⟩
    have hlater : (∃ e ∈ es, e.Opens) → '"' ∉ rest :=
      fun ⟨d, hd, hopens⟩ => hopen ⟨d, List.mem_cons_of_mem _ hd, hopens⟩
    cases es with
    | nil => simpa using hes.1 _ _ hrun hfirst h
    | cons next es =>
      have hends : EndsRun (sep :: ([sep].intercalate ((next :: es).map chars) ++ rest)) :=
        .cons (Text.isRunChar_of_isBlank hsep) _
      have hquote : e.Opens → '"' ∉ sep :: ([sep].intercalate ((next :: es).map chars) ++ rest) := by
        rintro ⟨w, hw, hopens⟩ hmem
        have hnone : ∀ d ∈ next :: es, ∀ v ∈ d.words, ¬ v.Quotes := fun d hd v hv =>
          hbetween w hw v (List.mem_flatMap.2 ⟨d, hd, hv⟩) hopens
        rcases List.mem_cons.1 hmem with rfl | hmem
        · contradiction
        · rcases List.mem_append.1 hmem with hmem | hmem
          · exact notMem_intercalate hsep hnone hmem
          · exact hfirst ⟨w, hw, hopens⟩ hmem
      have htail := Spells.blank hsep (ih hes.2 hclosed hlater)
      simpa using hes.1 _ _ hends hquote htail

theorem spelled {e : Expr} (h : ∀ w ∈ e.words, w.Sound) (hclosed : Closed e.words) : e.Spelled := by
  induction e using induction with
  | atom a =>
    intro rest ws hrun hopen hrest
    exact Spells.word (h a.word (by simp)) hrun (fun hw => hopen ⟨a.word, by simp, hw⟩) hrest
  | list items line ih =>
    intro rest ws hrun hopen hrest
    rw [words_list] at h hclosed
    have hitems : ∀ e ∈ items, e.Spelled := by
      intro e he
      have hsub := sublist_words he
      exact ih e he (fun w hw => h w (hsub.subset hw)) (hclosed.sublist hsub)
    have hends : EndsRun (')' :: rest) := .cons rfl rest
    have hquote : (∃ e ∈ items, e.Opens) → '"' ∉ ')' :: rest := by
      rintro ⟨e, he, w, hw, hopens⟩ hmem
      rcases List.mem_cons.1 hmem with heq | hmem
      · contradiction
      · exact hopen ⟨w, by simpa using ⟨e, he, hw⟩, hopens⟩ hmem
    have hclose := Spells.bracket (c := ')') rfl hrest
    have hall := Spells.bracket (c := '(') rfl
      (spells_intercalate ' ' rfl hitems hclosed hends hquote hclose)
    simpa using hall

end Expr

namespace Program

def rendered (program : List Expr) : String :=
  "\n".intercalate (program.map Expr.shown)

theorem toList_rendered (program : List Expr) :
    (rendered program).toList = ['\n'].intercalate (program.map Expr.chars) := by
  rw [rendered, String.toList_intercalate, List.map_map]
  congr 1
  exact List.map_congr_left fun e _ => e.toList_shown

theorem isSome_passes_lines {parts : List (List Char)}
    (h : ∀ part ∈ parts, Text.passes true part = some false) :
    (Text.passes true (['\n'].intercalate parts)).isSome := by
  have hnewline : Text.pass false '\n' = some true := rfl
  induction parts with
  | nil => rfl
  | cons part parts ih =>
    rw [List.forall_mem_cons] at h
    cases parts with
    | nil => simp [h.1]
    | cons next parts =>
      rw [List.intercalate_cons_cons, List.append_assoc, Text.passes_append, h.1, Option.bind_some,
        List.singleton_append, Text.passes_cons, hnewline, Option.bind_some]
      exact ih h.2

theorem words_of_ofSource {source : Source} {program : List Expr}
    (h : ofSource source = .ok program) :
    (∀ w ∈ program.flatMap Expr.words, w.Sound) ∧ Expr.Closed (program.flatMap Expr.words) ∧
      ∀ e ∈ program, e.Plain := by
  have hlexes := (Token.ofText_eq_iff source.text _).1 rfl
  set tokens := Token.ofText source.text
  have hread : ofAtoms (tokens.map .ofToken) = .ok program := (ofSource_eq_ok_iff source).1 h
  have hderives := (derives_of_ofAtoms hread).1
  refine ⟨fun w hw => ?_, ?_, hderives.plain⟩
  · rcases hderives.sourced.mem hw with rfl | ⟨a, ha, hleaf, rfl⟩
    · exact Word.Sound.list
    · obtain ⟨t, ht, rfl⟩ := List.mem_map.1 ha
      rcases hlexes.sound (Text.isSome_passes_withoutComments _) t ht with ⟨c, hc, htext⟩ | hsound
      · exact absurd (Word.isBracket_of_text hc htext) hleaf
      · exact hsound
  · have hpairs : ((tokens.map Atom.ofToken).map Atom.word).Pairwise
        fun w v => w.Opens → ¬ v.Quotes := by
      rw [List.map_map]
      exact hlexes.pairwise
    refine hderives.sourced.pairwise (fun w hopens => ?_) (fun w _ hquotes => ?_) hpairs
    · obtain ⟨name, hname, hhead⟩ := hopens
      obtain rfl := Word.symbol.inj hname
      contradiction
    · have hnone : '"' ∉ "list".toList := by decide
      exact hnone hquotes

/-! ## Reading the explicit form -/

section Rendered

variable {program : List Expr} (hsound : ∀ e ∈ program, ∀ w ∈ e.words, w.Sound)
include hsound

theorem withoutComments_rendered
    (hhash : ∀ e ∈ program, ∀ name ∈ e.symbol?, name.toList.head? ≠ some '#') :
    Text.withoutComments (rendered program).toList = (rendered program).toList := by
  apply Text.withoutComments_eq_self
  rw [toList_rendered]
  apply isSome_passes_lines
  intro part hpart
  obtain ⟨e, he, rfl⟩ := List.mem_map.1 hpart
  exact Expr.passes_chars_fresh (hsound e he) (hhash e he)

theorem spells_rendered (hclosed : Expr.Closed (program.flatMap Expr.words)) :
    Spells (rendered program).toList (program.flatMap Expr.explicit) := by
  rw [toList_rendered]
  have hspelled : ∀ e ∈ program, e.Spelled := fun e he =>
    Expr.spelled (hsound e he) (hclosed.sublist (Expr.sublist_words he))
  simpa using Expr.spells_intercalate '\n' rfl hspelled hclosed .nil (by simp) .nil

theorem ofAtoms_explicit (hplain : ∀ e ∈ program, e.Plain)
    (hdeep : ∀ e ∈ program, e.nesting ≤ maxNesting) {atoms : List Atom}
    (hatoms : atoms.map Atom.word = program.flatMap Expr.explicit) :
    ∃ again, ofAtoms atoms = .ok again ∧ again.map Expr.unlined = program.map Expr.unlined := by
  have hreads : ∀ e ∈ program, e.ReadsBack := fun e he =>
    Expr.readsBack fun w hw line => (hsound e he w hw).not_isBracket line
  obtain ⟨again, hinner, hunlined⟩ := Expr.exists_inner_of_readsBack hreads hatoms
  have hagain : ∀ e ∈ again, ∃ d ∈ program, e.unlined = d.unlined := by
    intro e he
    have hmem : e.unlined ∈ program.map Expr.unlined := hunlined ▸ List.mem_map_of_mem he
    obtain ⟨d, hd, heq⟩ := List.mem_map.1 hmem
    exact ⟨d, hd, heq.symm⟩
  have hplain' : ∀ e ∈ again, e.Plain := by
    intro e he
    obtain ⟨d, hd, heq⟩ := hagain e he
    have := hplain d hd
    rwa [Expr.Plain, ← Expr.symbol?_unlined, ← heq, Expr.symbol?_unlined] at this
  have hdeep' : ∀ e ∈ again, 0 + e.nesting ≤ maxNesting := by
    intro e he
    obtain ⟨d, hd, heq⟩ := hagain e he
    rw [Nat.zero_add, ← Expr.nesting_unlined, heq, Expr.nesting_unlined]
    exact hdeep d hd
  exact ⟨again,
    ofAtoms_of_derives (hinner.derives hplain') (hinner.room (Nat.zero_le _) hdeep'), hunlined⟩

end Rendered

/-- The explicit form of a program reads back. -/
theorem ofSource_rendered {source : Source} {program : List Expr}
    (h : ofSource source = .ok program)
    (hhash : ∀ e ∈ program, ∀ name ∈ e.symbol?, name.toList.head? ≠ some '#')
    (hdeep : ∀ e ∈ program, e.nesting ≤ maxNesting) :
    ∃ again, ofSource (.ofText (rendered program)) = .ok again ∧
      again.map Expr.unlined = program.map Expr.unlined := by
  obtain ⟨hall, hclosed, hplain⟩ := words_of_ofSource h
  have hsound : ∀ e ∈ program, ∀ w ∈ e.words, w.Sound :=
    fun e he w hw => hall w ((Expr.sublist_words he).subset hw)
  obtain ⟨tokens, hlexes, hwords⟩ := spells_rendered hsound hclosed 1
  -- The text has no comment lines, so its tokens are those of the expressions.
  rw [← withoutComments_rendered hsound hhash] at hlexes
  have htokens := (Token.ofText_eq_iff _ _).2 hlexes
  have hatoms : (tokens.map Atom.ofToken).map Atom.word = program.flatMap Expr.explicit := by
    rw [List.map_map]
    exact hwords
  obtain ⟨again, hread, hunlined⟩ := ofAtoms_explicit hsound hplain hdeep hatoms
  have htext : (Source.ofText (rendered program)).text = rendered program := rfl
  exact ⟨again, by rw [ofSource, htext, htokens, hread], hunlined⟩

theorem ofSource_rendered_open_quote :
    ∃ program again, ofSource (.ofText "print [1.50 \"a\n b\"]\n\"open") = .ok program ∧
      rendered program = "(print (list 1.5 \"a\n b\"))\n\"open" ∧
      ofSource (.ofText (rendered program)) = .ok again ∧
      again.map Expr.unlined = program.map Expr.unlined := by
  have h : ofSource (.ofText "print [1.50 \"a\n b\"]\n\"open") =
      .ok [.list [.symbol "print" 1,
        .list [.symbol "list" 1, .atom ⟨.number 1.5, 1⟩, .atom ⟨.text "a\n b", 1⟩] 1] 1,
        .symbol "\"open" 3] := by
    decide +kernel
  obtain ⟨again, hagain⟩ := ofSource_rendered h (by decide +kernel) (by decide +kernel)
  exact ⟨_, again, h, by decide +kernel, hagain⟩

end Program

end PrefixScript
