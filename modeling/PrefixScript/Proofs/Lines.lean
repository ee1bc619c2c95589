import Mathlib.Data.List.DropRight
import PrefixScript.Source
import PrefixScript.Proofs.Comments
import PrefixScript.Proofs.Lexing

namespace PrefixScript

namespace Text

@[simp] theorem newlines_nil : newlines [] = 0 := rfl

theorem newlines_cons (c : Char) (cs : List Char) :
    newlines (c :: cs) = (if c = '\n' then 1 else 0) + newlines cs := by
  rw [newlines, List.count_cons, Nat.add_comm]
  simp [newlines]

theorem newlines_append (as bs : List Char) : newlines (as ++ bs) = newlines as + newlines bs :=
  List.count_append

theorem length_pieces (cs : List Char) : (pieces cs).length = newlines cs + 1 := by
  induction cs with
  | nil => rfl
  | cons c cs ih =>
    obtain ⟨p, ps, hp⟩ := List.exists_cons_of_ne_nil (pieces_ne_nil cs)
    by_cases hc : c = '\n'
    · rw [hc, pieces_newline, List.length_cons, ih, newlines_cons, if_pos rfl]
      omega
    · rw [pieces_cons hc hp, newlines_cons, if_neg hc, Nat.zero_add, ← ih, hp]
      rfl

theorem pieces_append (as bs : List Char) : pieces (as ++ '\n' :: bs) = pieces as ++ pieces bs :=
  cutAt_append as bs

theorem pieces_of_notMem {p : List Char} (h : '\n' ∉ p) : pieces p = [p] :=
  cutAt_of_notMem h

theorem pieces_unlines {ps : List (List Char)} (hne : ps ≠ []) (h : ∀ p ∈ ps, '\n' ∉ p) :
    pieces (unlines ps) = ps := by
  induction ps with
  | nil => contradiction
  | cons p ps ih =>
    rw [List.forall_mem_cons] at h
    cases ps with
    | nil => rw [unlines_singleton, pieces_of_notMem h.1]
    | cons q ps =>
      rw [unlines_cons p (by simp), pieces_append, pieces_of_notMem h.1, ih (by simp) h.2,
        List.singleton_append]

theorem pieces_withoutComments (cs : List Char) :
    pieces (withoutComments cs) =
      (pieces cs).map fun line => if isComment line then [] else line := by
  rw [withoutComments, pieces_unlines]
  · simpa using pieces_ne_nil cs
  · intro p hp
    obtain ⟨q, hq, rfl⟩ := List.mem_map.1 hp
    split
    · simp
    · exact newline_notMem_pieces cs q hq

theorem unlines_append {ps qs : List (List Char)} (hps : ps ≠ []) (hqs : qs ≠ []) :
    unlines (ps ++ qs) = unlines ps ++ '\n' :: unlines qs := by
  induction ps with
  | nil => contradiction
  | cons p ps ih =>
    cases ps with
    | nil => rw [unlines_singleton, List.singleton_append, unlines_cons p hqs]
    | cons q ps =>
      rw [List.cons_append, unlines_cons p (by simp), unlines_cons p (by simp), ih (by simp),
        List.append_assoc, List.cons_append]

theorem withoutComments_append (as bs : List Char) :
    withoutComments (as ++ '\n' :: bs) = withoutComments as ++ '\n' :: withoutComments bs := by
  rw [withoutComments, pieces_append, List.map_append, unlines_append]
  · rfl
  · simpa using pieces_ne_nil as
  · simpa using pieces_ne_nil bs

theorem newlines_withoutComments (cs : List Char) :
    newlines (withoutComments cs) = newlines cs := by
  have hlength := congrArg List.length (pieces_withoutComments cs)
  rw [List.length_map, length_pieces, length_pieces] at hlength
  omega

def firstLine (cs : List Char) : List Char :=
  cs.takeWhile (· ≠ '\n')

theorem firstLine_cons {c : Char} (hc : c ≠ '\n') (cs : List Char) :
    firstLine (c :: cs) = c :: firstLine cs :=
  List.takeWhile_cons_of_pos (by simpa using hc)

theorem firstLine_prefix (cs after : List Char) :
    ∃ p ps, pieces (cs ++ after) = p :: ps ∧ firstLine cs <+: p := by
  induction cs with
  | nil =>
    obtain ⟨p, ps, hp⟩ := List.exists_cons_of_ne_nil (pieces_ne_nil after)
    exact ⟨p, ps, hp, List.nil_prefix⟩
  | cons c cs ih =>
    obtain ⟨p, ps, hp, hprefix⟩ := ih
    by_cases hc : c = '\n'
    · subst hc
      exact ⟨[], p :: ps, by rw [List.cons_append, pieces_newline, hp], List.nil_prefix⟩
    · rw [firstLine_cons hc]
      exact ⟨c :: p, ps, pieces_cons hc hp, List.cons_prefix_cons.2 ⟨rfl, hprefix⟩⟩

theorem exists_piece_of_append (before cs after : List Char) :
    ∃ p, (pieces (before ++ (cs ++ after)))[newlines before]? = some p ∧ firstLine cs <:+: p := by
  induction before with
  | nil =>
    obtain ⟨p, ps, hp, hprefix⟩ := firstLine_prefix cs after
    exact ⟨p, by rw [List.nil_append, hp]; rfl, hprefix.isInfix⟩
  | cons d before ih =>
    obtain ⟨p, hp, hinfix⟩ := ih
    rw [newlines_cons, List.cons_append]
    by_cases hd : d = '\n'
    · refine ⟨p, ?_, hinfix⟩
      rwa [hd, pieces_newline, if_pos rfl, Nat.add_comm, List.getElem?_cons_succ]
    · obtain ⟨q, qs, hq⟩ := List.exists_cons_of_ne_nil (pieces_ne_nil (before ++ (cs ++ after)))
      rw [pieces_cons hd hq, if_neg hd, Nat.zero_add]
      rw [hq] at hp
      cases hn : newlines before with
      | zero =>
        rw [hn] at hp
        obtain rfl := Option.some.inj hp
        exact ⟨d :: q, rfl, List.infix_cons hinfix⟩
      | succ n =>
        rw [hn] at hp
        exact ⟨p, hp, hinfix⟩

theorem trimReturns_eq_rdropWhile (cs : List Char) :
    trimReturns cs = cs.rdropWhile (· = '\r') := rfl

@[simp] theorem utf8ByteSize_ofList (cs : List Char) : (String.ofList cs).utf8ByteSize = size cs := by
  induction cs with
  | nil => rfl
  | cons c cs ih =>
    rw [String.ofList_cons, String.utf8ByteSize_append, String.utf8ByteSize_singleton, ih, size_cons]

theorem isValid_size (before after : List Char) :
    (⟨size before⟩ : String.Pos.Raw).IsValid (String.ofList (before ++ after)) :=
  String.Pos.Raw.isValid_iff_exists_append.2
    ⟨String.ofList before, String.ofList after, String.ofList_append,
      by rw [String.rawEndPos, utf8ByteSize_ofList]⟩

theorem slice?_append (before p after : List Char) :
    slice? (String.ofList (before ++ (p ++ after))) (size before) (size (before ++ p)) =
      some (String.ofList p) := by
  have hstart := isValid_size before (p ++ after)
  have hstop := isValid_size (before ++ p) after
  have hle : size before ≤ size (before ++ p) := by simp [size_append]
  rw [List.append_assoc] at hstop
  have hfront : (String.pos _ _ hstart).Splits (String.ofList before)
      (String.ofList p ++ String.ofList after) := ⟨by simp, by simp [String.rawEndPos]⟩
  have hback : (String.pos _ _ hstop).Splits (String.ofList before ++ String.ofList p)
      (String.ofList after) := ⟨by simp [String.append_assoc], by simp [size_append, String.rawEndPos]⟩
  obtain ⟨hpos, hcopy⟩ := String.copy_slice_eq_iff_splits.2 ⟨_, _, hfront, hback⟩
  rw [slice?, dif_pos ⟨hstart, hstop, hle⟩, String.extract_eq_copy_slice _ _ hpos, hcopy]

def offsets (offset : Nat) : List (List Char) → List Nat
  | [] => []
  | p :: ps => offset :: offsets (offset + size p + 1) ps

theorem length_offsets (offset : Nat) (ps : List (List Char)) :
    (offsets offset ps).length = ps.length := by
  induction ps generalizing offset with
  | nil => rfl
  | cons p ps ih => simp [offsets, ih]

theorem foldl_next (starts : Array Nat) (offset : Nat) (cs : List Char) :
    (cs.foldl lineStarts.next (starts, offset)).1 =
      starts ++ (offsets offset (pieces cs)).tail.toArray := by
  induction cs generalizing starts offset with
  | nil => simp [offsets, pieces, cutAt]
  | cons c cs ih =>
    obtain ⟨p, ps, hp⟩ := List.exists_cons_of_ne_nil (pieces_ne_nil cs)
    rw [List.foldl_cons, lineStarts.next, ih, hp]
    by_cases hc : c = '\n'
    · have hsize : ('\n' : Char).utf8Size = 1 := rfl
      simp [hc, pieces_newline, hp, offsets, hsize]
    · simp [hc, pieces_cons hc hp, offsets, size_cons, Nat.add_assoc]

theorem lineStarts_eq (cs : List Char) : lineStarts cs = (offsets 0 (pieces cs)).toArray := by
  obtain ⟨p, ps, hp⟩ := List.exists_cons_of_ne_nil (pieces_ne_nil cs)
  rw [lineStarts, foldl_next, hp]
  simp [offsets]

/-- The offset of a piece is the number of bytes before it. The newline in front of the next piece,
or the end of the text, is where the piece ends. -/
theorem exists_offset {ps : List (List Char)} {n : Nat} {p : List Char} (h : ps[n]? = some p)
    (front : List Char) :
    ∃ before after, front ++ unlines ps = before ++ (p ++ after) ∧
      (offsets (size front) ps)[n]? = some (size before) ∧
      (match (offsets (size front) ps)[n + 1]? with
        | some next => next - 1
        | none => size (front ++ unlines ps)) = size (before ++ p) := by
  induction n generalizing ps front with
  | zero =>
    cases ps with
    | nil => contradiction
    | cons q ps =>
      obtain rfl := Option.some.inj h
      cases ps with
      | nil => exact ⟨front, [], by simp, rfl, by simp [offsets]⟩
      | cons r ps =>
        refine ⟨front, '\n' :: unlines (r :: ps), by rw [unlines_cons q (by simp)], rfl, ?_⟩
        simp [offsets, size_append]
  | succ n ih =>
    cases ps with
    | nil => contradiction
    | cons q ps =>
      have hne : ps ≠ [] := by
        rintro rfl
        contradiction
      -- The first piece and its newline are in front of the other pieces.
      obtain ⟨before, after, hsplit, hstart, hstop⟩ := ih h (front ++ q ++ ['\n'])
      have hsize : size (front ++ q ++ ['\n']) = size front + size q + 1 := by
        rw [size_append, size_append]
        rfl
      have htext : front ++ unlines (q :: ps) = front ++ q ++ ['\n'] ++ unlines ps := by
        simp [unlines_cons q hne]
      rw [hsize] at hstart hstop
      rw [htext]
      exact ⟨before, after, hsplit, hstart, hstop⟩

end Text

namespace Source

theorem starts_eq_offsets (s : Source) :
    s.starts = (Text.offsets 0 (Text.pieces s.text.toList)).toArray := by
  rw [s.starts_eq, Text.lineStarts_eq]

theorem exists_bounds (s : Source) {n : Nat} {p : List Char}
    (h : (Text.pieces s.text.toList)[n]? = some p) :
    ∃ before after, s.text = String.ofList (before ++ (p ++ after)) ∧
      s.bounds? n = some (Text.size before, Text.size (before ++ p)) := by
  obtain ⟨before, after, hsplit, hstart, hstop⟩ := Text.exists_offset h []
  rw [List.nil_append, Text.unlines_pieces] at hsplit hstop
  refine ⟨before, after, by rw [← hsplit, String.ofList_toList], ?_⟩
  have hsize : Text.size s.text.toList = s.text.utf8ByteSize := by
    rw [← Text.utf8ByteSize_ofList, String.ofList_toList]
  rw [Text.size_nil] at hstart hstop
  rw [hsize] at hstop
  simp only [bounds?, starts_eq_offsets, List.getElem?_toArray, hstart, Option.bind_eq_bind,
    Option.bind_some]
  exact congrArg (fun stop => some (Text.size before, stop)) hstop

theorem bounds?_eq_none {s : Source} {n : Nat}
    (h : (Text.pieces s.text.toList)[n]? = none) : s.bounds? n = none := by
  have hlen := List.getElem?_eq_none_iff.1 h
  rw [← Text.length_offsets 0] at hlen
  simp only [bounds?, starts_eq_offsets, List.getElem?_toArray, List.getElem?_eq_none hlen,
    Option.bind_eq_bind, Option.bind_none]

theorem line?_succ (s : Source) (n : Nat) :
    s.line? (n + 1) =
      (Text.pieces s.text.toList)[n]?.map fun p => String.ofList (Text.trimReturns p) := by
  cases hp : (Text.pieces s.text.toList)[n]? with
  | none =>
    rw [line?, bounds?_eq_none hp]
    rfl
  | some p =>
    obtain ⟨before, after, htext, hbounds⟩ := s.exists_bounds hp
    have hslice := Text.slice?_append before p after
    rw [← htext] at hslice
    simp only [line?, hbounds, hslice, Option.bind_eq_bind, Option.bind_some, String.toList_ofList,
      Option.map_some]

end Source

theorem Lexes.exists_start {line : Nat} {cs : List Char} {ts : List Token} (h : Lexes line cs ts) :
    ∀ t ∈ ts, ∃ before c tail after, cs = before ++ (c :: tail ++ after) ∧
      t.text.toList = c :: tail ∧ Text.isBlank c = false ∧
      t.line = (line + Text.newlines before) % UInt32.size := by
  induction h with
  | nil => simp
  | @blank line d cs ts _ _ ih =>
    intro t ht
    obtain ⟨before, c, tail, after, rfl, htext, hc, hline⟩ := ih t ht
    refine ⟨d :: before, c, tail, after, rfl, htext, hc, ?_⟩
    have hcons : Text.newlines (d :: before) = Text.newlines [d] + Text.newlines before :=
      Text.newlines_append [d] before
    rw [hline, hcons, Nat.add_assoc]
  | @token line u rest ts hu _ ih =>
    obtain ⟨d, ds, rfl, hd⟩ := hu.exists_cons
    intro t ht
    rcases List.mem_cons.1 ht with rfl | ht
    · exact ⟨[], d, ds, rest, rfl, String.toList_ofList, hd, by simp⟩
    · obtain ⟨before, c, tail, after, rfl, htext, hc, hline⟩ := ih t ht
      refine ⟨d :: ds ++ before, c, tail, after, by simp, htext, hc, ?_⟩
      rw [hline, Text.newlines_append, Nat.add_assoc]

theorem Token.exists_piece {text : String} (hcount : Text.newlines text.toList < UInt32.size - 1)
    {t : Token} (h : t ∈ ofText text) :
    ∃ n p, t.line = n + 1 ∧ (Text.pieces text.toList)[n]? = some p ∧ Text.isComment p = false ∧
      (∃ c ∈ p, Text.isBlank c = false) ∧ Text.firstLine t.text.toList <:+: p := by
  obtain ⟨before, c, tail, after, hsplit, htext, hblank, hline⟩ :=
    ((Token.ofText_eq_iff text _).1 rfl).exists_start t h
  have hnewline : c ≠ '\n' := by
    rintro rfl
    contradiction
  obtain ⟨q, hq, hinfix⟩ := Text.exists_piece_of_append before (c :: tail) after
  have hmem : c ∈ q := by
    rw [Text.firstLine_cons hnewline] at hinfix
    exact hinfix.subset List.mem_cons_self
  rw [← hsplit, Text.pieces_withoutComments, List.getElem?_map, Option.map_eq_some_iff] at hq
  obtain ⟨p, hp, hpq⟩ := hq
  have hcomment : Text.isComment p = false := by
    by_contra hp
    rw [if_pos (by simpa using hp)] at hpq
    simp [← hpq] at hmem
  rw [if_neg (by simp [hcomment])] at hpq
  subst hpq
  have hbefore : Text.newlines before ≤ Text.newlines text.toList := by
    rw [← Text.newlines_withoutComments text.toList, hsplit, Text.newlines_append]
    exact Nat.le_add_right _ _
  have hnumber : t.line = Text.newlines before + 1 := by
    rw [hline, Nat.mod_eq_of_lt (by omega), Nat.add_comm]
  exact ⟨Text.newlines before, p, hnumber, hp, hcomment, ⟨c, hmem, hblank⟩, htext ▸ hinfix⟩

end PrefixScript
