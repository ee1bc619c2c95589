import PrefixScript.Token
import Mathlib.Data.List.TakeWhile

namespace PrefixScript.Text

/-- Passes a character, knowing whether only white space stands before it on its line. The start of a
comment cannot be passed. -/
def pass (fresh : Bool) (c : Char) : Option Bool :=
  if c = '\n' then some true
  else if isBlank c then some fresh
  else if fresh && c = '#' then none
  else some false

def passes (fresh : Bool) (cs : List Char) : Option Bool :=
  cs.foldlM pass fresh

@[simp] theorem passes_nil (fresh : Bool) : passes fresh [] = some fresh := rfl

@[simp] theorem passes_cons (fresh : Bool) (c : Char) (cs : List Char) :
    passes fresh (c :: cs) = (pass fresh c).bind fun fresh => passes fresh cs := rfl

theorem passes_append (fresh : Bool) (as bs : List Char) :
    passes fresh (as ++ bs) = (passes fresh as).bind fun fresh => passes fresh bs :=
  List.foldlM_append

section Cutting

variable {α : Type} [DecidableEq α] {mark : α}

theorem cutAt_ne_nil (mark : α) (xs : List α) : cutAt mark xs ≠ [] := by
  induction xs with
  | nil => simp [cutAt]
  | cons x xs ih =>
    change cutAt.cut mark x (cutAt mark xs) ≠ []
    unfold cutAt.cut
    split
    · simp
    · split <;> simp

theorem cutAt_mark (mark : α) (xs : List α) : cutAt mark (mark :: xs) = [] :: cutAt mark xs := by
  obtain ⟨p, ps, hp⟩ := List.exists_cons_of_ne_nil (cutAt_ne_nil mark xs)
  change cutAt.cut mark mark (cutAt mark xs) = [] :: cutAt mark xs
  rw [hp]
  simp [cutAt.cut]

theorem cutAt_cons {x : α} (hx : x ≠ mark) {xs p : List α} {ps : List (List α)}
    (h : cutAt mark xs = p :: ps) : cutAt mark (x :: xs) = (x :: p) :: ps := by
  change cutAt.cut mark x (cutAt mark xs) = _
  rw [h]
  simp [cutAt.cut, hx]

theorem cutAt_append (as bs : List α) :
    cutAt mark (as ++ mark :: bs) = cutAt mark as ++ cutAt mark bs := by
  induction as with
  | nil => exact cutAt_mark mark bs
  | cons x as ih =>
    rw [List.cons_append]
    by_cases hx : x = mark
    · rw [hx, cutAt_mark, cutAt_mark, ih, List.cons_append]
    · obtain ⟨p, ps, hp⟩ := List.exists_cons_of_ne_nil (cutAt_ne_nil mark as)
      rw [hp, List.cons_append] at ih
      rw [cutAt_cons hx ih, cutAt_cons hx hp, List.cons_append]

theorem cutAt_of_notMem {p : List α} (h : mark ∉ p) : cutAt mark p = [p] := by
  induction p with
  | nil => rfl
  | cons x p ih =>
    rw [List.mem_cons, not_or] at h
    exact cutAt_cons (Ne.symm h.1) (ih h.2)

end Cutting

theorem pieces_ne_nil (cs : List Char) : pieces cs ≠ [] :=
  cutAt_ne_nil '\n' cs

theorem pieces_newline (cs : List Char) : pieces ('\n' :: cs) = [] :: pieces cs :=
  cutAt_mark '\n' cs

theorem pieces_cons {c : Char} (hc : c ≠ '\n') {cs p : List Char} {ps : List (List Char)}
    (h : pieces cs = p :: ps) : pieces (c :: cs) = (c :: p) :: ps :=
  cutAt_cons hc h

theorem unlines_cons (p : List Char) {ps : List (List Char)} (h : ps ≠ []) :
    unlines (p :: ps) = p ++ '\n' :: unlines ps := by
  obtain ⟨q, ps, rfl⟩ := List.exists_cons_of_ne_nil h
  simp [unlines, List.intercalate]

@[simp] theorem unlines_singleton (p : List Char) : unlines [p] = p := by
  simp [unlines, List.intercalate]

theorem unlines_pieces (cs : List Char) : unlines (pieces cs) = cs := by
  induction cs with
  | nil => rfl
  | cons c cs ih =>
    obtain ⟨p, ps, hp⟩ := List.exists_cons_of_ne_nil (pieces_ne_nil cs)
    by_cases hc : c = '\n'
    · rw [hc, pieces_newline, unlines_cons _ (pieces_ne_nil cs), ih]
      rfl
    · rw [hp] at ih
      rw [pieces_cons hc hp, ← ih]
      cases ps with
      | nil => simp
      | cons q ps => simp [unlines_cons]

theorem newline_notMem_pieces (cs : List Char) : ∀ p ∈ pieces cs, '\n' ∉ p := by
  induction cs with
  | nil => simp [pieces, cutAt]
  | cons c cs ih =>
    obtain ⟨p, ps, hp⟩ := List.exists_cons_of_ne_nil (pieces_ne_nil cs)
    by_cases hc : c = '\n'
    · rw [hc, pieces_newline]
      simpa using ih
    · rw [hp] at ih
      rw [pieces_cons hc hp]
      intro q hq
      rcases List.mem_cons.1 hq with rfl | hq
      · simpa [Ne.symm hc] using ih p (by simp)
      · exact ih q (List.mem_cons_of_mem _ hq)

theorem isSome_passes_line_tail {cs : List Char} (h : '\n' ∉ cs) : (passes false cs).isSome := by
  induction cs with
  | nil => rfl
  | cons c cs ih =>
    rw [List.mem_cons, not_or] at h
    have hpass : pass false c = some false := by simp [pass, Ne.symm h.1]
    rw [passes_cons, hpass]
    exact ih h.2

theorem isComment_blank {c : Char} (h : isBlank c = true) (cs : List Char) :
    isComment (c :: cs) = isComment cs := by
  rw [isComment, trimStart, List.dropWhile_cons_of_pos h]
  rfl

theorem isComment_of_not_blank {c : Char} (h : isBlank c = false) (cs : List Char) :
    isComment (c :: cs) = decide (c = '#') := by
  rw [isComment, trimStart, List.dropWhile_cons_of_neg (by simp [h])]
  simp

theorem isSome_passes_line {cs : List Char} (h : '\n' ∉ cs) :
    (passes true cs).isSome = !isComment cs := by
  induction cs with
  | nil => rfl
  | cons c cs ih =>
    rw [List.mem_cons, not_or] at h
    have hnewline := Ne.symm h.1
    cases hblank : isBlank c with
    | true =>
      rw [isComment_blank hblank, ← ih h.2]
      simp [pass, hnewline, hblank]
    | false =>
      have htail := isSome_passes_line_tail h.2
      rw [isComment_of_not_blank hblank, passes_cons]
      by_cases hc : c = '#'
      · subst hc
        rfl
      · simp [pass, hnewline, hblank, hc, htail]

theorem isSome_passes_unlines {ps : List (List Char)} (hne : ps ≠ []) (h : ∀ p ∈ ps, '\n' ∉ p) :
    (passes true (unlines ps)).isSome = ps.all fun p => !isComment p := by
  induction ps with
  | nil => contradiction
  | cons p ps ih =>
    have hp := isSome_passes_line (h p (by simp))
    cases ps with
    | nil => simpa using hp
    | cons q ps =>
      have hps := ih (by simp) fun p hp => h p (List.mem_cons_of_mem _ hp)
      rw [unlines_cons _ (by simp), passes_append, List.all_cons, ← hp, ← hps]
      cases passes true p with
      | none => rfl
      | some fresh => simp [pass]

theorem withoutComments_eq_self {cs : List Char} (h : (passes true cs).isSome) :
    withoutComments cs = cs := by
  have hall := isSome_passes_unlines (pieces_ne_nil cs) (newline_notMem_pieces cs)
  rw [unlines_pieces, h, eq_comm, List.all_eq_true] at hall
  have hmap : ((pieces cs).map fun line => if isComment line then [] else line) = pieces cs := by
    rw [List.map_congr_left fun p hp => if_neg (by simpa using hall p hp), List.map_id']
  rw [withoutComments, hmap, unlines_pieces]

theorem isSome_passes_withoutComments (cs : List Char) :
    (passes true (withoutComments cs)).isSome := by
  rw [withoutComments, isSome_passes_unlines]
  · rw [List.all_eq_true]
    intro p hp
    obtain ⟨q, -, rfl⟩ := List.mem_map.1 hp
    cases hq : isComment q with
    | true => rfl
    | false => simp [hq]
  · simpa using pieces_ne_nil cs
  · intro p hp
    obtain ⟨q, hq, rfl⟩ := List.mem_map.1 hp
    split
    · simp
    · exact newline_notMem_pieces cs q hq

end PrefixScript.Text
