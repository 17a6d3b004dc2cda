import PromqlGuide.Proofs.Grammar.Accepted

/-!
# Uniqueness

A reader that starts at a text leaves one result: two runs over the same text have read the same
trees (`Rule.run_unique`).  So a query is written as one tree only (`Written.Writes.unique`).
-/
namespace PromqlGuide

open Text Written

/-- Of each kind only one lexeme is found at the start of a text. -/
lemma Lexeme.Found.eq {l m : Lexeme} {rest rest' : List Char} (hl : l.Found rest)
    (hm : m.Found rest') (hkind : l.kind = m.kind)
    (heq : l.gap ++ (l.text ++ rest) = m.gap ++ (m.text ++ rest')) : l = m := by
  have hgap : l.gap.length = m.gap.length := by
    rw [← blankLength_append hl.1 hl.visible, heq, blankLength_append hm.1 hm.visible]
  obtain ⟨hgaps, htexts⟩ := List.append_inj heq hgap
  have htext : l.text.length = m.text.length := by
    have hlength := hm.2.2
    rw [← hkind, ← htexts, hl.2.2] at hlength
    exact Option.some.inj hlength
  obtain ⟨⟨kind, text⟩, gap⟩ := l
  obtain ⟨⟨kind', text'⟩, gap'⟩ := m
  cases hkind
  cases hgaps
  cases List.append_inj_left htexts htext
  rfl

namespace Form

variable {call : Rule → Cursor → Outcome} {known : Rule → List Written → List Char → Prop}

/-- Whether a run over a text is the only one. -/
def Determined (run : List Written → List Char → Prop) : Prop :=
  ∀ ps rest ps' rest', run ps rest → run ps' rest' → textAll ps ++ rest = textAll ps' ++ rest' →
    ps = ps'

/-- A reader that reads something does not fail there. -/
lemma Reads.not_fails {read : Cursor → Outcome} {ps : List Written} {rest : List Char}
    (h : Reads read ps rest) : ¬ Fails read (textAll ps ++ rest) := by
  intro hfails
  obtain ⟨stuck, hdone⟩ := h 0
  obtain ⟨further, hfailed⟩ := hfails 0
  rw [hdone] at hfailed
  cases hfailed

/-- A repetition of steps with one run each, which stops where no step is possible, has one run. -/
lemma determined_repeats {one : List Written → List Char → Prop} {stop : List Char → Prop}
    (hone : Determined one) (hstop : ∀ ps rest, one ps rest → ¬ stop (textAll ps ++ rest)) :
    Determined (Repeats one stop) := by
  intro ps rest ps' rest' h h' heq
  induction h generalizing ps' with
  | nil hstops =>
    cases h' with
    | nil => rfl
    | @cons qs ps _ hqs _ _ =>
      simp only [textAll_append, List.append_assoc, textAll_nil, List.nil_append] at heq
      exact absurd (heq ▸ hstops) (hstop _ _ hqs)
  | @cons qs ps rest hqs _ _ ih =>
    cases h' with
    | nil hstops =>
      simp only [textAll_append, List.append_assoc, textAll_nil, List.nil_append] at heq
      exact absurd (heq ▸ hstops) (hstop _ _ hqs)
    | @cons qs' ps' _ hqs' _ hmore =>
      simp only [textAll_append, List.append_assoc] at heq
      obtain rfl := hone _ _ _ _ hqs hqs' heq
      rw [ih _ hmore (List.append_cancel_left heq)]

/-- Runs of a form are determined, if those of the rules are. -/
theorem determined_run (hreads : ∀ r ps rest, known r ps rest → Reads (call r) ps rest)
    (hknown : ∀ r, Determined (known r)) (f : Form) : Determined (f.Run call known) := by
  induction f with
  | token t | mark m =>
    rintro _ rest _ rest' ⟨l, rfl, hkind, hl⟩ ⟨m, rfl, hkind', hm⟩ heq
    simp only [textAll_cons, text_lexeme, textAll_nil, List.append_nil, List.append_assoc] at heq
    rw [hl.eq hm (hkind.trans hkind'.symm) heq]
  | nothing =>
    rintro ps rest ps' rest' rfl rfl -
    rfl
  | seq f g ihf ihg =>
    rintro _ rest _ rest' ⟨qs, rs, rfl, hqs, hrs⟩ ⟨qs', rs', rfl, hqs', hrs'⟩ heq
    simp only [textAll_append, List.append_assoc] at heq
    obtain rfl := ihf _ _ _ _ hqs hqs' heq
    obtain rfl := ihg _ _ _ _ hrs hrs' (List.append_cancel_left heq)
    rfl
  | choice f g ihf ihg =>
    rintro ps rest ps' rest' (h | ⟨hfails, h⟩) (h' | ⟨hfails', h'⟩) heq
    · exact ihf _ _ _ _ h h' heq
    · exact absurd (heq ▸ hfails') (reads_of_run hreads h).not_fails
    · exact absurd (heq ▸ hfails) (reads_of_run hreads h').not_fails
    · exact ihg _ _ _ _ h h' heq
  | many f ih =>
    exact determined_repeats ih fun _ _ h => (reads_of_run hreads h).not_fails
  | phrase p body ih =>
    rintro _ rest _ rest' ⟨parts, rfl, h⟩ ⟨parts', rfl, h'⟩ heq
    simp only [textAll_cons, text_phrase, textAll_nil, List.append_nil] at heq
    rw [ih _ _ _ _ h h' heq]
  | graft f g ihf ihg =>
    rintro _ rest _ rest' ⟨base, later, rfl, -, hlater, hbase, hg⟩
      ⟨base', later', rfl, -, hlater', hbase', hg'⟩ heq
    simp only [textAll_cons, textAll_nil, List.append_nil, text_attachAll hlater,
      text_attachAll hlater', List.append_assoc] at heq
    obtain rfl : base = base' := by
      have hbases := ihf _ _ _ _ hbase hbase' (by simpa using heq)
      exact (List.cons.inj hbases).1
    rw [ihg _ _ _ _ hg hg' (List.append_cancel_left heq)]
  | rule r => exact hknown r

end Form

open Form in
/-- Runs of a rule are determined. -/
theorem Rule.run_unique (depth : Nat) (r : Rule) : Determined (Rule.Run depth r) := by
  induction depth generalizing r with
  | zero => exact fun _ _ _ _ h => h.elim
  | succ depth ih =>
    show Determined (r.form.Run (Rule.read depth) (Rule.Run depth))
    refine determined_run ?_ ih r.form
    exact fun _ _ _ => Rule.reads_of_run

/-- A query is written as one tree only. -/
theorem Written.Writes.unique {depth : Nat} {query : List Char} {e e' : Written}
    (he : e.Writes depth query) (he' : e'.Writes depth query) : e = e' := by
  obtain ⟨tail, htail, hlaid, heq⟩ := he.laidOut
  obtain ⟨tail', htail', hlaid', heq'⟩ := he'.laidOut
  have hrun := Rule.run_of_grammatical he.grammatical he.nesting_lt hlaid (stops_of_isTail htail 0)
  have hrun' :=
    Rule.run_of_grammatical he'.grammatical he'.nesting_lt hlaid' (stops_of_isTail htail' 0)
  have hlists := Rule.run_unique depth .expression _ _ _ _ hrun hrun'
    (by simpa using heq.symm.trans heq')
  exact (List.cons.inj hlists).1

end PromqlGuide
