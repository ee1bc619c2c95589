import PrefixScript.Proofs.Lines
import PrefixScript.Proofs.Trees

namespace PrefixScript

namespace Expr

def lines : Expr → List Nat :=
  fold (fun a => [a.line]) fun parts line => line :: parts.flatten

@[simp] theorem lines_atom (a : Atom) : lines (.atom a) = [a.line] := rfl

@[simp] theorem lines_list (items : List Expr) (line : Nat) :
    lines (.list items line) = line :: items.flatMap lines := by
  rw [lines, fold_list, List.flatMap_def]

theorem line_mem_lines (e : Expr) : e.line ∈ e.lines := by
  cases e with
  | atom a => simp [line]
  | list items l => simp [line]

end Expr

theorem Inner.lines_subset {as : List Atom} {es : List Expr} (h : Inner as es) :
    es.flatMap Expr.lines ⊆ as.map Atom.line := by
  induction h with
  | nil => simp
  | leaf _ _ ih => simpa using List.subset_cons_of_subset _ ih
  | @brackets b m n as es bs fs _ _ ihin ih =>
    have hlist : (b.enclose es m).lines ⊆ m :: as.map Atom.line := by
      cases b with
      | round => simpa [Bracket.enclose] using List.subset_cons_of_subset m ihin
      | square => simpa [Bracket.enclose, Expr.symbol] using List.subset_cons_of_subset m ihin
    intro l hl
    rw [List.flatMap_cons, List.mem_append] at hl
    rw [List.map_append, List.map_cons, List.map_cons, List.mem_append]
    rcases hl with hl | hl
    · exact .inl (hlist hl)
    · exact .inr (List.mem_cons_of_mem _ (ih hl))

theorem Derives.lines_subset {as : List Atom} {es : List Expr} (h : Derives as es) :
    es.flatMap Expr.lines ⊆ as.map Atom.line := by
  induction h with
  | nil => simp
  | @statement name line as es bs fs _ hin _ ih =>
    intro l hl
    rw [List.flatMap_cons, List.mem_append] at hl
    rw [List.map_append, List.map_cons, List.mem_append]
    rcases hl with hl | hl
    · left
      have hcall : (Expr.list (.symbol name line :: es) line).lines ⊆ line :: as.map Atom.line := by
        simpa [Expr.symbol] using List.subset_cons_of_subset line hin.lines_subset
      exact hcall hl
    · exact .inr (ih hl)
  | @inner as e bs fs hin _ _ ih =>
    intro l hl
    rw [List.flatMap_cons, List.mem_append] at hl
    rw [List.map_append, List.mem_append]
    exact hl.imp (fun hl => hin.lines_subset (by simpa using hl)) fun hl => ih hl

namespace Reader

structure On (L : Nat → Prop) (r : Reader) : Prop where
  opened : ∀ o ∈ r.opened, L o.line
  statement : ∀ s ∈ r.statement, L s.line

variable {L : Nat → Prop} {r : Reader}

theorem On.putStatement (h : r.On L) {s : Statement} (hs : L s.line) : (r.putStatement s).On L := by
  unfold Reader.putStatement
  split
  · exact ⟨h.opened, nofun⟩
  · exact ⟨h.opened, fun _ hmem => Option.some.inj hmem ▸ hs⟩

theorem On.put (h : r.On L) (e : Expr) : (r.put e).On L := by
  unfold Reader.put
  split
  · next o outer hopened =>
    have hopen := h.opened
    rw [hopened, List.forall_mem_cons] at hopen
    exact ⟨List.forall_mem_cons.2 hopen, h.statement⟩
  · next s _ hstatement =>
    exact h.putStatement (s := { s with operands := _ }) (h.statement s hstatement)
  · exact ⟨h.opened, h.statement⟩

structure StepsOn (L : Nat → Prop) (result : Except ReadFault Reader) : Prop where
  ok : ∀ r, result = .ok r → r.On L
  error : ∀ f, result = .error f → L f.line

theorem On.stepsOn (h : r.On L) : StepsOn L (.ok r) :=
  ⟨fun _ hr => Except.ok.inj hr ▸ h, nofun⟩

theorem stepsOn_error {f : ReadFault} (h : L f.line) : StepsOn L (.error f) :=
  ⟨nofun, fun _ hf => Except.error.inj hf ▸ h⟩

theorem On.step {a : Atom} (h : r.On L) (ha : L a.line) : StepsOn L (r.step a) := by
  unfold Reader.step
  split
  · split
    · exact stepsOn_error ha
    · exact On.stepsOn ⟨List.forall_mem_cons.2 ⟨ha, h.opened⟩, h.statement⟩
  · split
    · exact stepsOn_error ha
    · next o outer hopened =>
      have hopen := h.opened
      rw [hopened, List.forall_mem_cons] at hopen
      have houter : On L { r with opened := outer } := ⟨hopen.2, h.statement⟩
      split
      · exact (houter.put _).stepsOn
      · exact stepsOn_error ha
  · split
    · exact On.stepsOn (h.putStatement ha)
    · exact (h.put _).stepsOn

theorem On.finish (h : r.On L) {f : ReadFault} (hf : r.finish = .error f) : L f.line := by
  unfold Reader.finish at hf
  split at hf
  · next o outer hopened =>
    rw [← Except.error.inj hf]
    exact h.opened o (by simp [hopened])
  · next s _ hstatement =>
    rw [← Except.error.inj hf]
    exact h.statement s hstatement
  · contradiction

theorem On.fault {as : List Atom} (h : r.On L) (has : ∀ a ∈ as, L a.line) {f : ReadFault}
    (hf : r.steps as >>= Reader.finish = .error f) : L f.line := by
  induction as generalizing r with
  | nil => exact h.finish hf
  | cons a as ih =>
    rw [List.forall_mem_cons] at has
    have hstep := h.step has.1
    rw [steps_cons] at hf
    cases ha : r.step a with
    | error f' =>
      rw [ha] at hf
      obtain rfl := Except.error.inj hf
      exact hstep.error f' ha
    | ok r' =>
      rw [ha] at hf
      exact ih (hstep.ok r' ha) has.2 hf

end Reader

def Token.StartsOn (text : String) (line : Nat) : Prop :=
  ∃ t ∈ ofText text, t.line = line

theorem Token.StartsOn.bounds {text : String} (hcount : Text.newlines text.toList < UInt32.size - 1)
    {line : Nat} (h : StartsOn text line) : 1 ≤ line ∧ line ≤ Text.newlines text.toList + 1 := by
  obtain ⟨t, ht, rfl⟩ := h
  obtain ⟨n, p, hn, hp, -⟩ := exists_piece hcount ht
  have hlt := (List.getElem?_eq_some_iff.1 hp).1
  rw [Text.length_pieces] at hlt
  omega

namespace Program

theorem lines_ofSource {source : Source} {program : List Expr}
    (h : ofSource source = .ok program) :
    ∀ e ∈ program, ∀ l ∈ e.lines, Token.StartsOn source.text l := by
  intro e he l hl
  have hderives := (derives_of_ofAtoms ((ofSource_eq_ok_iff source).1 h)).1
  have hmem := hderives.lines_subset (List.mem_flatMap.2 ⟨e, he, hl⟩)
  simpa [Token.StartsOn, Atom.ofToken] using hmem

theorem startsOn_of_ofAtoms {text : String} {fault : ReadFault}
    (h : ofAtoms ((Token.ofText text).map .ofToken) = .error fault) :
    Token.StartsOn text fault.line := by
  have hstart : Reader.start.On (Token.StartsOn text) := ⟨by simp [Reader.start], nofun⟩
  refine hstart.fault (fun a ha => ?_) h
  obtain ⟨t, ht, rfl⟩ := List.mem_map.1 ha
  exact ⟨t, ht, rfl⟩

theorem fault_ofSource {source : Source} {report : Report}
    (h : ofSource source = .error report) :
    ∃ fault : ReadFault, Token.StartsOn source.text fault.line ∧
      report = source.annotate fault.report := by
  obtain ⟨fault, hread, hreport⟩ := (ofSource_eq_error_iff source).1 h
  exact ⟨fault, startsOn_of_ofAtoms hread, hreport.symm⟩

end Program

end PrefixScript
