import PrefixScript.Proofs.Lines

namespace PrefixScript

namespace Text

theorem pieces_eq_splitOn (cs : List Char) : pieces cs = cs.splitOn '\n' := by
  induction cs with
  | nil => rfl
  | cons c cs ih =>
    obtain ⟨p, ps, hp⟩ := List.exists_cons_of_ne_nil (pieces_ne_nil cs)
    by_cases hc : c = '\n'
    · rw [hc, pieces_newline, ih, List.splitOn_cons_eq_if_modifyHead]
      rfl
    · rw [pieces_cons hc hp, List.splitOn_cons_eq_if_modifyHead, ← ih, hp,
        if_neg (by simpa using hc)]
      rfl

section rdropWhile

variable {α : Type} {p : α → Bool}

theorem rdropWhile_prefix_append (as bs : List α) : as.rdropWhile p <+: (as ++ bs).rdropWhile p := by
  induction bs using List.reverseRecOn with
  | nil => simp
  | append_singleton bs b ih =>
    rw [← List.append_assoc, List.rdropWhile_concat]
    split
    · exact ih
    · exact ((List.rdropWhile_prefix p as).trans (List.prefix_append as bs)).trans
        (List.prefix_append _ [b])

theorem rdropWhile_suffix_append (as bs : List α) : bs.rdropWhile p <:+ (as ++ bs).rdropWhile p := by
  induction bs using List.reverseRecOn with
  | nil => simp
  | append_singleton bs b ih =>
    rw [← List.append_assoc, List.rdropWhile_concat, List.rdropWhile_concat]
    split
    · exact ih
    · rw [List.append_assoc]
      exact List.suffix_append as _

theorem rdropWhile_infix {as bs : List α} (h : as <:+: bs) :
    as.rdropWhile p <:+: bs.rdropWhile p := by
  obtain ⟨front, back, rfl⟩ := h
  exact (rdropWhile_suffix_append front as).isInfix.trans
    (rdropWhile_prefix_append (front ++ as) back).isInfix

end rdropWhile

theorem lt_of_offsets {offset n next : Nat} {ps : List (List Char)}
    (h : (offsets offset ps)[n + 1]? = some next) : offset < next := by
  induction n generalizing offset ps with
  | zero =>
    match ps, h with
    | p :: q :: ps, h =>
      obtain rfl := Option.some.inj h
      omega
  | succ n ih =>
    match ps, h with
    | p :: ps, h => exact Nat.lt_trans (by omega) (ih h)

end Text

namespace Source

theorem line?_isSome_iff (s : Source) (n : Nat) :
    (s.line? n).isSome ↔ 1 ≤ n ∧ n ≤ 1 + Text.newlines s.text.toList := by
  cases n with
  | zero => simp [line?]
  | succ n =>
    rw [line?_succ, Option.isSome_map, Option.isSome_iff_ne_none, ne_eq, List.getElem?_eq_none_iff,
      Text.length_pieces]
    omega

theorem bounds?_isValid {s : Source} {n start stop : Nat} (h : s.bounds? n = some (start, stop)) :
    start ≤ stop ∧ (⟨start⟩ : String.Pos.Raw).IsValid s.text ∧
      (⟨stop⟩ : String.Pos.Raw).IsValid s.text := by
  cases hp : (Text.pieces s.text.toList)[n]? with
  | none =>
    rw [bounds?_eq_none hp] at h
    contradiction
  | some p =>
    obtain ⟨before, after, htext, hbounds⟩ := s.exists_bounds hp
    rw [hbounds] at h
    obtain ⟨rfl, rfl⟩ := Prod.mk.inj (Option.some.inj h)
    refine ⟨by simp [Text.size_append], ?_, ?_⟩
    · rw [htext]
      exact Text.isValid_size before (p ++ after)
    · rw [htext, ← List.append_assoc]
      exact Text.isValid_size (before ++ p) after

theorem line?_of_mem_ofText {s : Source} (hcount : Text.newlines s.text.toList < UInt32.size - 1)
    {t : Token} (h : t ∈ Token.ofText s.text) :
    ∃ line, s.line? t.line = some line ∧
      Text.trimReturns (Text.firstLine t.text.toList) <:+: line.toList := by
  obtain ⟨n, p, hline, hp, -, -, hinfix⟩ := Token.exists_piece hcount h
  refine ⟨String.ofList (Text.trimReturns p), ?_, ?_⟩
  · rw [hline, line?_succ, hp, Option.map_some]
  · rw [String.toList_ofList]
    exact Text.rdropWhile_infix hinfix

/-- The index agrees with splitting the text at its newlines: it has as many lines, and each is the
piece under its number. The offsets of a line are boundaries of characters, in order and within the
text, and the newline in front of a later line is in the text as well. If the lines can be counted
in 32 bits, each token is on the line that it has. -/
theorem line_index_exact (s : Source) :
    (∀ n, (s.line? n).isSome ↔ 1 ≤ n ∧ n ≤ 1 + Text.newlines s.text.toList) ∧
    (∀ n, s.line? (n + 1) = (s.text.toList.splitOn '\n')[n]?.map fun piece =>
      String.ofList (piece.rdropWhile (· = '\r'))) ∧
    (∀ n start stop, s.bounds? n = some (start, stop) →
      start ≤ stop ∧ stop ≤ s.text.utf8ByteSize ∧
        (⟨start⟩ : String.Pos.Raw).IsValid s.text ∧ (⟨stop⟩ : String.Pos.Raw).IsValid s.text) ∧
    (∀ n next, s.starts[n + 1]? = some next → 0 < next) ∧
    (Text.newlines s.text.toList < UInt32.size - 1 →
      ∀ t ∈ Token.ofText s.text, t.line ≤ 1 + Text.newlines s.text.toList ∧
        ∃ line, s.line? t.line = some line ∧
          (t.text.toList.takeWhile (· ≠ '\n')).rdropWhile (· = '\r') <:+: line.toList) := by
  refine ⟨s.line?_isSome_iff, fun n => ?_, fun n start stop h => ?_, fun n next h => ?_,
    fun hcount t ht => ?_⟩
  · simp only [line?_succ, Text.pieces_eq_splitOn, Text.trimReturns_eq_rdropWhile]
  · obtain ⟨hle, hstart, hstop⟩ := bounds?_isValid h
    exact ⟨hle, hstop.le_rawEndPos, hstart, hstop⟩
  · rw [starts_eq_offsets, List.getElem?_toArray] at h
    exact Text.lt_of_offsets h
  · obtain ⟨line, hline, hinfix⟩ := line?_of_mem_ofText hcount ht
    have hsome : (s.line? t.line).isSome := by rw [hline, Option.isSome_some]
    exact ⟨((s.line?_isSome_iff _).1 hsome).2, line, hline, hinfix⟩

example : (ofText "é\r\n\"b\r\nc\"").line? 2 = some "\"b" := by decide +kernel

end Source

end PrefixScript
