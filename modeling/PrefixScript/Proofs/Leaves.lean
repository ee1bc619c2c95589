import PrefixScript.Proofs.Decomposition
import PrefixScript.Proofs.Positions
import PrefixScript.Proofs.Rendering

namespace PrefixScript

namespace Expr

def leaves : Expr → List Atom :=
  fold (fun a => [a]) fun parts _ => parts.flatten

@[simp] theorem leaves_atom (a : Atom) : leaves (.atom a) = [a] := rfl

@[simp] theorem leaves_list (items : List Expr) (line : Nat) :
    leaves (.list items line) = items.flatMap leaves := by
  rw [leaves, fold_list, List.flatMap_def]

theorem word_mem_words {e : Expr} {a : Atom} (h : a ∈ e.leaves) : a.word ∈ e.words := by
  induction e using induction with
  | atom b =>
    obtain rfl : a = b := by simpa using h
    simp
  | list items line ih =>
    rw [leaves_list] at h
    obtain ⟨e, he, ha⟩ := List.mem_flatMap.1 h
    rw [words_list]
    exact List.mem_flatMap.2 ⟨e, he, ih e he ha⟩

theorem sublist_lines {e : Expr} {es : List Expr} (h : e ∈ es) :
    e.lines.Sublist (es.flatMap lines) := by
  rw [List.flatMap_def]
  exact List.sublist_flatten_of_mem (List.mem_map_of_mem h)

inductive Part : Expr → Expr → Prop
  | refl {e} : Part e e
  | item {d e items line} : Part d e → e ∈ items → Part d (.list items line)

theorem Part.lines_sublist {d e : Expr} (h : d.Part e) : d.lines.Sublist e.lines := by
  induction h with
  | refl => exact .refl _
  | item _ he ih =>
    rw [lines_list]
    exact .cons _ (ih.trans (sublist_lines he))

theorem exists_lines_eq (e : Expr) : ∃ inside, e.lines = e.line :: inside := by
  cases e with
  | atom a => exact ⟨[], rfl⟩
  | list items line => exact ⟨_, lines_list items line⟩

end Expr

namespace Word

/-- What a leaf of a program can say: a symbol is a run that is no numeral, a string holds no quote
and a number is finite. -/
def WellFormed : Word → Prop
  | symbol name => name ≠ "" ∧
      (∀ c ∈ name.toList, Text.isBlank c = false ∧ Text.isBracket c = false) ∧
      Number.ofText? name = none
  | text s => '"' ∉ s.toList
  | number x => x.isFinite = true

theorem unquote?_eq_some {cs inner : List Char} (h : unquote? cs = some inner) :
    cs = '"' :: (inner ++ ['"']) := by
  unfold unquote? at h
  split at h
  · next rest =>
    split at h
    · next hlast =>
      obtain rfl := Option.some.inj h
      rw [List.dropLast_append_getLast? _ hlast]
    · contradiction
  · contradiction

theorem toList_of_ofText_text {token s : String} (h : ofText token = text s) :
    token.toList = '"' :: (s.toList ++ ['"']) := by
  unfold ofText at h
  split at h
  · next inner hinner =>
    obtain rfl := Word.text.inj h
    rw [String.toList_ofList]
    exact unquote?_eq_some hinner
  · split at h <;> contradiction

theorem ofText?_of_ofText_symbol {name : String} (h : ofText name = symbol name) :
    Number.ofText? name = none := by
  unfold ofText at h
  split at h
  · contradiction
  · split at h
    · contradiction
    · assumption

theorem Sound.wellFormed {w : Word} (h : w.Sound) : w.WellFormed := by
  cases w with
  | text s => exact h.1
  | number x => exact Number.isFinite_of_finite h
  | symbol name =>
    obtain ⟨hne, hrun, -, hsymbol⟩ := h
    refine ⟨?_, fun c hc => Text.isRunChar_iff.1 (hrun c hc), ofText?_of_ofText_symbol hsymbol⟩
    rintro rfl
    exact hne rfl

end Word

namespace Atom

def isText (a : Atom) : Bool :=
  match a.word with
  | .text _ => true
  | .number _ | .symbol _ => false

def token (a : Atom) : Token :=
  ⟨a.word.shown, a.line⟩

@[simp] theorem isText_symbol (name : String) (line : Nat) :
    isText ⟨.symbol name, line⟩ = false := rfl

end Atom

theorem Inner.texts {as : List Atom} {es : List Expr} (h : Inner as es) :
    (es.flatMap Expr.leaves).filter Atom.isText = as.filter Atom.isText := by
  induction h with
  | nil => rfl
  | leaf _ _ ih => simp [List.filter_cons, ih]
  | @brackets b m n as es bs fs _ _ ihin ih =>
    have hlist : (b.enclose es m).leaves.filter Atom.isText = as.filter Atom.isText := by
      cases b <;> simpa [Bracket.enclose, Expr.symbol] using ihin
    have hopening : (b.opening m).isText = false := rfl
    have hclosing : (b.closing n).isText = false := rfl
    rw [List.flatMap_cons, List.filter_append, hlist, ih]
    simp [hopening, hclosing]

theorem Derives.texts {as : List Atom} {es : List Expr} (h : Derives as es) :
    (es.flatMap Expr.leaves).filter Atom.isText = as.filter Atom.isText := by
  induction h with
  | nil => rfl
  | statement _ hin _ ih =>
    rw [List.flatMap_cons, List.filter_append, ih]
    simp [Expr.symbol, hin.texts]
  | inner hin _ _ ih =>
    rw [List.flatMap_cons, List.filter_append, List.filter_append, ih]
    simpa using hin.texts

namespace Token

instance (t : Token) : Decidable t.IsText :=
  decidable_of_iff (∃ inner ∈ Word.unquote? t.text.toList, '"' ∉ inner) <| by
    constructor
    · rintro ⟨inner, hinner, hquote⟩
      exact ⟨inner, hquote, Word.unquote?_eq_some hinner⟩
    · rintro ⟨inner, hquote, htext⟩
      exact ⟨inner, by rw [htext, Word.unquote?_text, Option.mem_def], hquote⟩

theorem sound_word {text : String} {t : Token} (h : t ∈ ofText text) :
    (∃ c, Text.isBracket c = true ∧ t.text = String.ofList [c]) ∨ t.word.Sound :=
  ((ofText_eq_iff text _).1 rfl).sound (Text.isSome_passes_withoutComments _) t h

theorem isText_iff {text : String} {t : Token} (h : t ∈ ofText text) :
    ((Atom.ofToken t).isText = true ↔ t.IsText) ∧ (t.IsText → (Atom.ofToken t).token = t) := by
  have hread : ∀ s, t.word = .text s → t.IsText := by
    intro s hs
    refine ⟨s.toList, ?_, Word.toList_of_ofText_text hs⟩
    rcases sound_word h with ⟨c, hc, htext⟩ | hsound
    · rw [word, htext, Word.ofText_bracket hc] at hs
      contradiction
    · rw [hs] at hsound
      exact hsound.1
  have hword : t.IsText → ∃ s, t.word = .text s ∧ (Word.text s).shown = t.text := by
    rintro ⟨inner, -, htext⟩
    have hofList : t.text = String.ofList ('"' :: (inner ++ ['"'])) := by
      rw [← htext, String.ofList_toList]
    refine ⟨String.ofList inner, by rw [word, hofList, Word.ofText_text], ?_⟩
    rw [← String.toList_inj, Word.Sound.toList_shown_text, String.toList_ofList, htext]
  refine ⟨⟨fun htext => ?_, fun htext => ?_⟩, fun htext => ?_⟩
  · cases hs : t.word with
    | text s => exact hread s hs
    | number | symbol =>
      rw [word] at hs
      simp [Atom.isText, Atom.ofToken, hs] at htext
  · obtain ⟨s, hs, -⟩ := hword htext
    rw [word] at hs
    simp [Atom.isText, Atom.ofToken, hs]
  · obtain ⟨s, hs, hshown⟩ := hword htext
    rw [word] at hs
    simp [Atom.token, Atom.ofToken, hs, hshown]

theorem texts_ofText (text : String) :
    (((ofText text).map Atom.ofToken).filter Atom.isText).map Atom.token =
      (ofText text).filter (·.IsText) := by
  have hsame : ∀ t ∈ ofText text, (Atom.isText ∘ Atom.ofToken) t = decide t.IsText := by
    intro t ht
    rw [Bool.eq_iff_iff, decide_eq_true_eq]
    exact (isText_iff ht).1
  rw [List.filter_map, List.map_map, List.filter_congr hsame]
  refine (List.map_congr_left fun t ht => ?_).trans (List.map_id _)
  rw [List.mem_filter, decide_eq_true_eq] at ht
  exact (isText_iff ht.1).2 ht.2

end Token

theorem Lexes.pairwise_line {line : Nat} {cs : List Char} {ts : List Token} (h : Lexes line cs ts)
    (hcount : line + Text.newlines cs < UInt32.size) : (ts.map Token.line).Pairwise (· ≤ ·) := by
  induction h with
  | nil => exact .nil
  | @blank line c cs _ _ _ ih =>
    rw [← List.singleton_append, Text.newlines_append, ← Nat.add_assoc] at hcount
    exact ih hcount
  | @token line t rest ts _ hrest ih =>
    rw [Text.newlines_append, ← Nat.add_assoc] at hcount
    refine .cons (fun l hl => ?_) (ih hcount)
    obtain ⟨u, hu, rfl⟩ := List.mem_map.1 hl
    obtain ⟨before, _, _, _, rfl, -, -, hline⟩ := hrest.exists_start u hu
    rw [Text.newlines_append] at hcount
    rw [hline, Nat.mod_eq_of_lt (by omega), Nat.mod_eq_of_lt (by omega), Nat.add_assoc]
    exact Nat.le_add_right _ _

theorem Inner.pairwise_lines {as : List Atom} {es : List Expr} (h : Inner as es)
    (ha : (as.map Atom.line).Pairwise (· ≤ ·)) : (es.flatMap Expr.lines).Pairwise (· ≤ ·) := by
  induction h with
  | nil => exact .nil
  | leaf _ hin ih =>
    rw [List.map_cons, List.pairwise_cons] at ha
    exact .cons (fun l hl => ha.1 l (hin.lines_subset hl)) (ih ha.2)
  | @brackets b m n as es bs fs hin hout ihin ih =>
    have hsplit : b.opening m :: as ++ b.closing n :: bs =
        (b.opening m :: as ++ [b.closing n]) ++ bs := by simp
    rw [hsplit, List.map_append, List.pairwise_append] at ha
    obtain ⟨hlist, hafter, hbetween⟩ := ha
    rw [List.map_append, List.pairwise_append, List.map_cons, List.pairwise_cons] at hlist
    obtain ⟨⟨hopen, hinside⟩, -, -⟩ := hlist
    -- A list has the line of its opening bracket, and every item one of an atom behind that bracket.
    have hitems : ∀ l ∈ es.flatMap Expr.lines, m ≤ l := fun l hl => hopen l (hin.lines_subset hl)
    have henclose : (b.enclose es m).lines.Pairwise (· ≤ ·) := by
      cases b with
      | round => simpa [Bracket.enclose] using ⟨by simpa using hitems, ihin hinside⟩
      | square =>
        simpa [Bracket.enclose, Expr.symbol] using ⟨by simpa using hitems, ihin hinside⟩
    have hsubset := (Inner.brackets (b := b) (m := m) (n := n) hin .nil).lines_subset
    rw [List.flatMap_cons, List.pairwise_append]
    refine ⟨henclose, ih hafter, fun l hl k hk => ?_⟩
    exact hbetween l (hsubset (by simpa using hl)) k (hout.lines_subset hk)

theorem Derives.pairwise_lines {as : List Atom} {es : List Expr} (h : Derives as es)
    (ha : (as.map Atom.line).Pairwise (· ≤ ·)) : (es.flatMap Expr.lines).Pairwise (· ≤ ·) := by
  induction h with
  | nil => exact .nil
  | @statement name line as es bs fs _ hin hout ih =>
    rw [List.map_append, List.pairwise_append, List.map_cons, List.pairwise_cons] at ha
    obtain ⟨⟨hfirst, hoperands⟩, hafter, hbetween⟩ := ha
    have hitems : ∀ l ∈ es.flatMap Expr.lines, line ≤ l :=
      fun l hl => hfirst l (hin.lines_subset hl)
    rw [List.flatMap_cons, List.pairwise_append]
    refine ⟨?_, ih hafter, fun l hl k hk => ?_⟩
    · simpa [Expr.symbol] using ⟨by simpa using hitems, hin.pairwise_lines hoperands⟩
    · have hl' : l = line ∨ l ∈ es.flatMap Expr.lines := by simpa [Expr.symbol] using hl
      refine hbetween l ?_ k (hout.lines_subset hk)
      exact List.mem_cons.2 (hl'.imp_right fun h => hin.lines_subset h)
  | @inner as e bs fs hin _ hout ih =>
    rw [List.map_append, List.pairwise_append] at ha
    obtain ⟨hfirst, hafter, hbetween⟩ := ha
    rw [List.flatMap_cons, List.pairwise_append]
    refine ⟨by simpa using hin.pairwise_lines hfirst, ih hafter, fun l hl k hk => ?_⟩
    exact hbetween l (hin.lines_subset (by simpa using hl)) k (hout.lines_subset hk)

namespace Program

/-- What the leaves of a program that was read from a source can be. They are well formed. The strings
are the tokens that are strings, in their order, and those are the tokens at whose start there is a
quote with another one somewhere behind it. -/
structure WellFormed (source : Source) (program : List Expr) : Prop where
  leaf : ∀ a ∈ program.flatMap Expr.leaves, a.word.WellFormed
  texts : ((program.flatMap Expr.leaves).filter Atom.isText).map Atom.token =
    (Token.ofText source.text).filter (·.IsText)
  quoted : ∀ d : Decomposition, d.Lawful 1 → d.text = Text.withoutComments source.text.toList →
    ∀ before gap t after, d.parts = before ++ (gap, t) :: after →
      (t.IsText ↔ t.StartsWithQuote ∧
        '"' ∈ t.text.toList.tail ++ Decomposition.text ⟨after, d.last⟩)

/-- From node to node the line never decreases, each list before its items, so no list is on a later
line than anything inside of it. -/
structure InOrder (program : List Expr) : Prop where
  order : (program.flatMap Expr.lines).Pairwise (· ≤ ·)
  outer : ∀ e ∈ program, ∀ d : Expr, d.Part e → ∀ l ∈ d.lines, d.line ≤ l

theorem wellFormed_leaf {source : Source} {program : List Expr}
    (h : ofSource source = .ok program) :
    ∀ a ∈ program.flatMap Expr.leaves, a.word.WellFormed := by
  intro a ha
  obtain ⟨e, he, hleaf⟩ := List.mem_flatMap.1 ha
  have hmem := (Expr.sublist_words he).subset (Expr.word_mem_words hleaf)
  exact ((words_of_ofSource h).1 a.word hmem).wellFormed

end Program

theorem Decomposition.Lawful.isText_iff {first : Nat} {d : Decomposition} (h : d.Lawful first)
    {before : List (List Char × Token)} {gap : List Char} {t : Token}
    {after : List (List Char × Token)} (hsplit : d.parts = before ++ (gap, t) :: after) :
    t.IsText ↔ t.StartsWithQuote ∧ '"' ∈ t.text.toList.tail ++ text ⟨after, d.last⟩ := by
  have hquoted := (h.token before gap t after hsplit).quoted
  constructor
  · intro htext
    have hstart : t.StartsWithQuote := by
      obtain ⟨inner, -, heq⟩ := htext
      simp [Token.StartsWithQuote, heq]
    exact ⟨hstart, (hquoted hstart).1 htext⟩
  · rintro ⟨hstart, hmem⟩
    exact (hquoted hstart).2 hmem

theorem Expr.Part.line_le {d e : Expr} (h : d.Part e) (he : e.lines.Pairwise (· ≤ ·)) :
    ∀ l ∈ d.lines, d.line ≤ l := by
  have hd := he.sublist h.lines_sublist
  obtain ⟨inside, heq⟩ := d.exists_lines_eq
  rw [heq] at hd ⊢
  exact List.forall_mem_cons.2 ⟨Nat.le_refl _, (List.pairwise_cons.1 hd).1⟩

namespace Program

theorem inOrder_of_ofSource {source : Source} {program : List Expr}
    (h : ofSource source = .ok program)
    (hcount : Text.newlines source.text.toList < UInt32.size - 1) : InOrder program := by
  have hderives := (derives_of_ofAtoms ((ofSource_eq_ok_iff source).1 h)).1
  have hlexes := (Token.ofText_eq_iff source.text _).1 rfl
  have horder : (program.flatMap Expr.lines).Pairwise (· ≤ ·) := by
    refine hderives.pairwise_lines ?_
    rw [List.map_map]
    refine hlexes.pairwise_line ?_
    rw [Text.newlines_withoutComments]
    omega
  exact ⟨horder, fun e he d hd => hd.line_le (horder.sublist (Expr.sublist_lines he))⟩

/-- The leaves of a program are well formed, and its nodes are in order if the lines of the source can
be counted. -/
theorem ofSource_wellFormed {source : Source} {program : List Expr}
    (h : ofSource source = .ok program) :
    WellFormed source program ∧
      (Text.newlines source.text.toList < UInt32.size - 1 → InOrder program) := by
  have hderives := (derives_of_ofAtoms ((ofSource_eq_ok_iff source).1 h)).1
  refine ⟨⟨wellFormed_leaf h, ?_, fun d hd _ _ _ _ _ hsplit => hd.isText_iff hsplit⟩,
    inOrder_of_ofSource h⟩
  rw [hderives.texts, Token.texts_ofText]

theorem ofSource_wellFormed_quotes :
    let source : Source := .ofText "print (f \"a)\n [b\"\n c\"d\" [nan 1e999])\n\"open"
    ∃ program, ofSource source = .ok program ∧ WellFormed source program ∧ InOrder program := by
  intro source
  have h : ofSource source =
      .ok [.list [.symbol "print" 1,
        .list [.symbol "f" 1, .atom ⟨.text "a)\n [b", 1⟩, .symbol "c\"d\"" 3,
          .list [.symbol "list" 3, .symbol "nan" 3, .symbol "1e999" 3] 3] 1] 1,
        .symbol "\"open" 4] := by
    decide +kernel
  obtain ⟨hwellFormed, hinOrder⟩ := ofSource_wellFormed h
  exact ⟨_, h, hwellFormed, hinOrder (by decide +kernel)⟩

def apart (lines : Nat) : Source :=
  .ofText (String.ofList ('x' :: (List.replicate lines '\n' ++ ['x'])))

theorem isSome_passes_newlines (fresh : Bool) (n : Nat) :
    (Text.passes fresh (List.replicate n '\n' ++ ['x'])).isSome := by
  induction n generalizing fresh with
  | zero => cases fresh <;> decide
  | succ n ih => exact ih true

theorem lexes_apart (n : Nat) :
    Lexes 1 ('x' :: (List.replicate (n + 1) '\n' ++ ['x']))
      [⟨"x", 1⟩, ⟨"x", (n + 2) % UInt32.size⟩] := by
  have hrun : ∀ rest, (∀ d ∈ rest.head?, Text.isRunChar d = false) → IsToken ['x'] rest :=
    fun rest hrest => .run (List.forall_mem_singleton.2 (by decide)) hrest
      fun hquote => absurd hquote (by decide)
  have hlast : Lexes (n + 2) ['x'] [⟨"x", (n + 2) % UInt32.size⟩] := .token (hrun [] nofun) .nil
  have hgap : ∀ c ∈ List.replicate (n + 1) '\n', Text.isBlank c = true := by
    intro c hc
    rw [List.eq_of_mem_replicate hc]
    decide
  have hnewlines :
      1 + Text.newlines ['x'] + Text.newlines (List.replicate (n + 1) '\n') = n + 2 := by
    rw [Text.newlines, Text.newlines, List.count_replicate_self]
    exact Nat.add_comm 1 (n + 1)
  have hbreak : ∀ d ∈ (List.replicate (n + 1) '\n' ++ ['x']).head?, Text.isRunChar d = false := by
    intro d hd
    obtain rfl : '\n' = d := by simpa [List.replicate_succ] using hd
    decide
  refine .token (hrun _ hbreak) (Decomposition.lexes_gap hgap ?_)
  rwa [hnewlines]

theorem ofText_apart (n : Nat) :
    Token.ofText (apart (n + 1)).text = [⟨"x", 1⟩, ⟨"x", (n + 2) % UInt32.size⟩] := by
  refine (Token.ofText_eq_iff _ _).2 ?_
  rw [apart, Source.ofText, String.toList_ofList, Text.withoutComments_eq_self]
  · exact lexes_apart n
  · exact isSome_passes_newlines false (n + 1)

/-- After the last number in 32 bits the lines go on with zero, before the first word. -/
theorem ofSource_apart_not_inOrder :
    let program := [Expr.symbol "x" 1, .symbol "x" 0]
    ofSource (apart 4294967295) = .ok program ∧ ¬ InOrder program := by
  intro program
  refine ⟨(ofSource_eq_ok_iff _).2 ?_, fun h => absurd h.order (by decide)⟩
  rw [ofText_apart 4294967294]
  decide +kernel

end Program

end PrefixScript
