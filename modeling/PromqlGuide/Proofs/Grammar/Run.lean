import PromqlGuide.Proofs.Written.Tree
import PromqlGuide.Grammar.Reading

/-!
# Runs of the reader

A *run* of a form leaves the outcome of reading behind and keeps what was read: the written trees,
the text behind them, and that the alternatives tried before failed.  Positions and the record of
what was expected play no part in it.

Main statements: every run is a reading at each position (`Form.reads_of_run`), and a reading that
neither fails nor goes too deep is a run (`Form.settles`).  Both hold for the rules of the grammar
at every depth (`Rule.reads_of_run`, `Rule.settles`).
-/
namespace PromqlGuide

open Text Written

/-- Whether a lexeme is found in front of a text: blank text, and behind it a word of its kind. -/
def Lexeme.Found (l : Lexeme) (rest : List Char) : Prop :=
  isGap l.gap = true ∧ l.kind.isUsed = true ∧
    l.kind.length? (l.text ++ rest) = some l.text.length

/-- A lexeme that is found starts with something visible. -/
lemma Lexeme.Found.visible {l : Lexeme} {rest : List Char} (h : l.Found rest) :
    startsVisible (l.text ++ rest) = true := by
  obtain ⟨c, cs, heq, hc⟩ := Lexical.opens_of_length h.2.2
  have hblank := Lexical.not_blank_of_opens h.2.1 hc
  simp [heq, startsVisible, hblank]

namespace Form

variable {call : Rule → Cursor → Outcome} {known : Rule → List Written → List Char → Prop}

/-- Whether a reader reads trees in front of a text, wherever this stands in a query. -/
def Reads (read : Cursor → Outcome) (ps : List Written) (rest : List Char) : Prop :=
  ∀ position, ∃ stuck, read ⟨position, textAll ps ++ rest⟩ =
    .done (items position ps) ⟨position + (textAll ps).length, rest⟩ stuck

/-- Whether a reader fails at a text, wherever this stands in a query. -/
def Fails (read : Cursor → Outcome) (text : List Char) : Prop :=
  ∀ position, ∃ stuck, read ⟨position, text⟩ = .failed stuck

/-- Whether a reader goes too deep at a text, wherever this stands in a query. -/
def Sinks (read : Cursor → Outcome) (text : List Char) : Prop :=
  ∀ position, read ⟨position, text⟩ = .tooDeep

/-- What is repeated, each time leaving some text behind, until the text behind it stops the
repetition. -/
inductive Repeats (one : List Written → List Char → Prop) (stop : List Char → Prop) :
    List Written → List Char → Prop where
  | nil {rest : List Char} : stop rest → Repeats one stop [] rest
  | cons {qs ps : List Written} {rest : List Char} : one qs (textAll ps ++ rest) →
      textAll qs ≠ [] → Repeats one stop ps rest → Repeats one stop (qs ++ ps) rest

variable (call known) in
/-- Whether a form reads trees in front of a text; `known` says so for the rules that `call` reads
by. -/
def Run : Form → List Written → List Char → Prop
  | token t, ps, rest => ∃ l : Lexeme, ps = [.lexeme l] ∧ l.kind = .token t ∧ l.Found rest
  | mark m, ps, rest => ∃ l : Lexeme, ps = [.lexeme l] ∧ l.kind = .mark m ∧ l.Found rest
  | nothing, ps, _ => ps = []
  | seq f g, ps, rest => ∃ qs rs, ps = qs ++ rs ∧ f.Run qs (textAll rs ++ rest) ∧ g.Run rs rest
  | choice f g, ps, rest =>
    f.Run ps rest ∨ (Fails (f.read call) (textAll ps ++ rest) ∧ g.Run ps rest)
  | many f, ps, rest => Repeats f.Run (Fails (f.read call)) ps rest
  | phrase p body, ps, rest => ∃ parts, ps = [.phrase p parts] ∧ body.Run parts rest
  | graft f g, ps, rest => ∃ base later, ps = [attachAll base later] ∧ base.isNode = true ∧
      (∀ q ∈ later, q.takesBase = true) ∧ f.Run [base] (textAll later ++ rest) ∧ g.Run later rest
  | rule r, ps, rest => known r ps rest

/-! ### Every run is a reading -/

/-- The reader for its kind reads a lexeme that is found. -/
lemma reads_lexeme {expectation : Expectation} {length? : List Char → Option Nat}
    {build : Nat → Nat → Item} {l : Lexeme} {rest : List Char} (h : l.Found rest)
    (hlength : length? = l.kind.length?)
    (hbuild : ∀ position, build (position + l.gap.length)
      (position + l.gap.length + l.text.length) = leaf position l) :
    Reads (readLexeme expectation length? build) [.lexeme l] rest := by
  intro position
  have hskip := blankLength_append h.1 (h.visible)
  subst hlength
  refine ⟨none, ?_⟩
  simp [readLexeme, Cursor.skipBlank, Cursor.advance, hskip, h.2.2, items, item, ← hbuild,
    Nat.add_assoc]

/-- Two forms read one after the other. -/
lemma reads_seq {f g : Form} {qs rs : List Written} {rest : List Char}
    (hf : Reads (f.read call) qs (textAll rs ++ rest)) (hg : Reads (g.read call) rs rest) :
    Reads ((seq f g).read call) (qs ++ rs) rest := by
  intro position
  obtain ⟨stuck, hfirst⟩ := hf position
  obtain ⟨further, hsecond⟩ := hg (position + (textAll qs).length)
  exact ⟨Stuck.mergeOptions stuck further,
    by simp [read, hfirst, hsecond, Outcome.after, items_append, Nat.add_assoc]⟩

/-- A choice reads what its first form reads. -/
lemma reads_choice_left {f g : Form} {ps : List Written} {rest : List Char}
    (hf : Reads (f.read call) ps rest) : Reads ((choice f g).read call) ps rest := by
  intro position
  obtain ⟨stuck, hfirst⟩ := hf position
  exact ⟨stuck, by simp [read, hfirst]⟩

/-- A choice reads what its second form reads where the first one fails. -/
lemma reads_choice_right {f g : Form} {ps : List Written} {rest : List Char}
    (hf : Fails (f.read call) (textAll ps ++ rest)) (hg : Reads (g.read call) ps rest) :
    Reads ((choice f g).read call) ps rest := by
  intro position
  obtain ⟨stuck, hfirst⟩ := hf position
  obtain ⟨further, hsecond⟩ := hg position
  exact ⟨Stuck.mergeOptions (some stuck) further,
    by simp [read, hfirst, hsecond, Outcome.afterFailure]⟩

/-- With enough fuel a repetition goes on until it is stopped. -/
lemma readMany_of_repeats {read : Cursor → Outcome} {ps : List Written} {rest : List Char}
    (h : Repeats (Reads read) (Fails read) ps rest) :
    ∀ n > (textAll ps ++ rest).length, Reads (readMany read n) ps rest := by
  induction h with
  | nil hstop =>
    intro n hn position
    obtain ⟨stuck, hfailed⟩ := hstop position
    obtain ⟨m, rfl⟩ := Nat.exists_eq_add_one_of_ne_zero (Nat.ne_of_gt (Nat.zero_lt_of_lt hn))
    exact ⟨some stuck, by simp [readMany, hfailed, items]⟩
  | @cons qs ps rest hone hne hmore ih =>
    intro n hn position
    obtain ⟨m, rfl⟩ := Nat.exists_eq_add_one_of_ne_zero (Nat.ne_of_gt (Nat.zero_lt_of_lt hn))
    have hpos := List.length_pos_iff.2 hne
    have hfuel : m > (textAll ps ++ rest).length := by
      simp only [textAll_append, List.append_assoc, List.length_append] at hn ⊢
      omega
    obtain ⟨stuck, hfirst⟩ := hone position
    obtain ⟨further, hsecond⟩ := ih m hfuel (position + (textAll qs).length)
    exact ⟨Stuck.mergeOptions stuck further,
      by simp [readMany, hfirst, hsecond, Outcome.after, items_append, Nat.add_assoc]⟩

/-- A phrase is read around what its body reads. -/
lemma reads_phrase {p : Phrase} {body : Form} {parts : List Written} {rest : List Char}
    (h : Reads (body.read call) parts rest) :
    Reads ((phrase p body).read call) [.phrase p parts] rest := by
  intro position
  obtain ⟨stuck, hbody⟩ := h position
  exact ⟨stuck, by simp [read, hbody, Outcome.mapItems, items, item]⟩

/-- Phrases are read behind a node and put around it. -/
lemma reads_graft {f g : Form} {base : Written} {later : List Written} {rest : List Char}
    (hbase : base.isNode = true) (hlater : ∀ q ∈ later, q.takesBase = true)
    (hf : Reads (f.read call) [base] (textAll later ++ rest))
      (hg : Reads (g.read call) later rest) :
    Reads ((graft f g).read call) [attachAll base later] rest := by
  intro position
  obtain ⟨stuck, hfirst⟩ := hf position
  obtain ⟨further, hsecond⟩ := hg (position + base.text.length)
  have hitems := graft_items hbase hlater position
  refine ⟨Stuck.mergeOptions stuck further, ?_⟩
  simp only [textAll_cons, textAll_nil, List.append_nil, items] at hfirst ⊢
  rw [← hitems, text_attachAll hlater, List.append_assoc]
  simp [read, hfirst, hsecond, Nat.add_assoc]

/-- A repetition may be of weaker steps. -/
lemma Repeats.mono {one one' : List Written → List Char → Prop} {stop : List Char → Prop}
    (hone : ∀ qs rest, one qs rest → one' qs rest) {ps : List Written} {rest : List Char}
    (h : Repeats one stop ps rest) : Repeats one' stop ps rest := by
  induction h with
  | nil hstop => exact .nil hstop
  | cons hqs hne _ ih => exact .cons (hone _ _ hqs) hne ih

/-- Every run is a reading, if those by rules are. -/
theorem reads_of_run (hknown : ∀ r ps rest, known r ps rest → Reads (call r) ps rest) {f : Form}
    {ps : List Written} {rest : List Char} (h : f.Run call known ps rest) :
    Reads (f.read call) ps rest := by
  induction f generalizing ps rest with
  | token t =>
    obtain ⟨l, rfl, hkind, hfound⟩ := h
    exact reads_lexeme hfound (by rw [hkind]; rfl) fun position => by simp [leaf, hkind]
  | mark m =>
    obtain ⟨l, rfl, hkind, hfound⟩ := h
    exact reads_lexeme hfound (by rw [hkind]; rfl) fun position => by simp [leaf, hkind]
  | nothing =>
    obtain rfl : ps = [] := h
    exact fun position => ⟨none, rfl⟩
  | seq f g ihf ihg =>
    obtain ⟨qs, rs, rfl, hf, hg⟩ := h
    exact reads_seq (ihf hf) (ihg hg)
  | choice f g ihf ihg =>
    rcases h with hf | ⟨hfails, hg⟩
    · exact reads_choice_left (ihf hf)
    · exact reads_choice_right hfails (ihg hg)
  | many f ih =>
    intro position
    exact readMany_of_repeats (h.mono fun _ _ => ih) _ (Nat.lt_succ_self _) position
  | phrase p body ih =>
    obtain ⟨parts, rfl, hbody⟩ := h
    exact reads_phrase (ih hbody)
  | graft f g ihf ihg =>
    obtain ⟨base, later, rfl, hbase, hlater, hf, hg⟩ := h
    exact reads_graft hbase hlater (ihf hf) (ihg hg)
  | rule r => exact hknown r ps rest h

/-- A run that uses no rule is a reading. -/
lemma reads_of_plain_run {f : Form} {ps : List Written} {rest : List Char}
    (h : f.Run call (fun _ _ _ => False) ps rest) : Reads (f.read call) ps rest :=
  reads_of_run (fun _ _ _ hfalse => hfalse.elim) h

/-! ### Well made forms -/

/-- Whether a form reads some text whenever it reads anything. -/
def advances : Form → Bool
  | token _ | mark _ | rule _ => true
  | nothing | many _ => false
  | seq f g => f.advances || g.advances
  | choice f g => f.advances && g.advances
  | phrase _ body => body.advances
  | graft f _ => f.advances

/-- Whether what a form reads is one node. -/
def makesNode : Form → Bool
  | token _ | phrase .. | rule _ | graft .. => true
  | nothing | mark _ | many _ | seq .. => false
  | choice f g => f.makesNode && g.makesNode

/-- Whether what a form reads are phrases that a node can be put in front of. -/
def makesPhrases : Form → Bool
  | nothing => true
  | phrase _ body => body.advances
  | many f => f.makesPhrases
  | choice f g => f.makesPhrases && g.makesPhrases
  | token _ | mark _ | rule _ | graft .. | seq .. => false

/-- Whether every repetition in a form makes progress, every graft builds phrases on one node, and
the marks are those of the grammar. -/
def wellMade : Form → Bool
  | token _ | nothing | rule _ => true
  | mark c => decide (c ∈ Lexical.marks)
  | seq f g | choice f g => f.wellMade && g.wellMade
  | many f => f.advances && f.wellMade
  | phrase _ body => body.wellMade
  | graft f g => f.makesNode && g.makesPhrases && f.wellMade && g.wellMade

/-- Whether a tree is a node with some text. -/
def IsProperNode (ps : List Written) : Prop := ∃ w, ps = [w] ∧ w.isNode = true ∧ w.text ≠ []

/-- A proper node has some text. -/
lemma textAll_ne_nil_of_isProperNode {ps : List Written} (h : IsProperNode ps) :
    textAll ps ≠ [] := by
  obtain ⟨w, rfl, -, hne⟩ := h
  simpa using hne

/-- A lexeme that is found has some text. -/
lemma text_ne_nil_of_found {l : Lexeme} {rest : List Char} (h : l.Found rest) : l.text ≠ [] := by
  rintro hnil
  have hlength := h.2.2
  rw [hnil] at hlength
  cases hkind : l.kind with
  | token t =>
    rw [hkind] at hlength
    exact Terminal.ne_nil_of_length (w := []) hlength rfl
  | mark c =>
    rw [hkind] at hlength
    exact absurd (Terminal.literalLength_append_iff (w := []).1 hlength) (by simp)

/-- What an advancing form reads is not empty. -/
lemma textAll_ne_nil_of_run (hknown : ∀ r ps rest, known r ps rest → IsProperNode ps) {f : Form}
    {ps : List Written} {rest : List Char} (hf : f.advances = true)
    (h : f.Run call known ps rest) : textAll ps ≠ [] := by
  induction f generalizing ps rest with
  | token t | mark m =>
    obtain ⟨l, rfl, -, hfound⟩ := h
    simp [text_ne_nil_of_found hfound]
  | nothing => cases hf
  | seq f g ihf ihg =>
    obtain ⟨qs, rs, rfl, hqs, hrs⟩ := h
    rcases Bool.or_eq_true _ _ ▸ hf with hf | hg
    · simp [ihf hf hqs]
    · simp [ihg hg hrs]
  | choice f g ihf ihg =>
    obtain ⟨hf, hg⟩ := Bool.and_eq_true_iff.1 hf
    rcases h with h | ⟨-, h⟩
    · exact ihf hf h
    · exact ihg hg h
  | many f ih => cases hf
  | phrase p body ih =>
    obtain ⟨parts, rfl, hbody⟩ := h
    simpa using ih hf hbody
  | graft f g ihf ihg =>
    obtain ⟨base, later, rfl, -, hlater, hbase, -⟩ := h
    have hne := ihf hf hbase
    simp_all [text_attachAll]
  | rule r => exact textAll_ne_nil_of_isProperNode (hknown r ps rest h)

/-- A form that makes a node reads one node. -/
lemma exists_isNode_of_run (hknown : ∀ r ps rest, known r ps rest → IsProperNode ps) {f : Form}
    {ps : List Written} {rest : List Char} (hf : f.makesNode = true)
    (h : f.Run call known ps rest) : ∃ w, ps = [w] ∧ w.isNode = true := by
  induction f generalizing ps rest with
  | token t =>
    obtain ⟨l, rfl, hkind, -⟩ := h
    exact ⟨_, rfl, by simp [isNode, hkind]⟩
  | mark m | nothing | seq f g | many f => cases hf
  | choice f g ihf ihg =>
    obtain ⟨hf, hg⟩ := Bool.and_eq_true_iff.1 hf
    rcases h with h | ⟨-, h⟩
    · exact ihf hf h
    · exact ihg hg h
  | phrase p body ih =>
    obtain ⟨parts, rfl, -⟩ := h
    exact ⟨_, rfl, rfl⟩
  | graft f g ihf ihg =>
    obtain ⟨base, later, rfl, hbase, hlater, -⟩ := h
    exact ⟨_, rfl, isNode_attachAll hbase hlater⟩
  | rule r =>
    obtain ⟨w, rfl, hw, -⟩ := hknown r ps rest h
    exact ⟨w, rfl, hw⟩

/-- A form that makes phrases for a node reads such phrases. -/
lemma takesBase_of_run (hknown : ∀ r ps rest, known r ps rest → IsProperNode ps) {f : Form}
    {ps : List Written} {rest : List Char} (hf : f.makesPhrases = true)
    (h : f.Run call known ps rest) : ∀ q ∈ ps, q.takesBase = true := by
  induction f generalizing ps rest with
  | token t | mark m | seq f g | graft f g | rule r => cases hf
  | nothing =>
    obtain rfl : ps = [] := h
    simp
  | choice f g ihf ihg =>
    obtain ⟨hf, hg⟩ := Bool.and_eq_true_iff.1 hf
    rcases h with h | ⟨-, h⟩
    · exact ihf hf h
    · exact ihg hg h
  | many f ih =>
    replace h : Repeats _ _ ps rest := h
    induction h with
    | nil => simp
    | cons hqs _ _ ihps =>
      intro q hq
      rcases List.mem_append.1 hq with hq | hq
      · exact ih hf hqs q hq
      · exact ihps q hq
  | phrase p body ih =>
    obtain ⟨parts, rfl, hbody⟩ := h
    intro q hq
    obtain rfl := List.mem_singleton.1 hq
    cases parts with
    | nil => exact absurd rfl (textAll_ne_nil_of_run hknown hf hbody)
    | cons v parts => rfl

/-! ### Every reading is a run -/

/-- Whether reading by a form at a text is a run, fails, or goes too deep. -/
def Settled (run : List Written → List Char → Prop) (read : Cursor → Outcome) (text : List Char) :
    Prop :=
  (∃ ps rest, text = textAll ps ++ rest ∧ run ps rest) ∨ Fails read text ∨ Sinks read text

/-- A lexeme is found or not read. -/
lemma settled_lexeme {e : Expectation} {x : Lexical} {b : Nat → Nat → Item}
    (hx : x.isUsed = true) (text : List Char) :
    (∃ l : Lexeme, ∃ rest, text = l.gap ++ (l.text ++ rest) ∧ l.kind = x ∧ l.Found rest) ∨
      Fails (readLexeme e x.length? b) text := by
  cases hlength : x.length? (text.drop (blankLength text)) with
  | none =>
    exact Or.inr fun position => ⟨⟨position, [e]⟩,
      by simp [readLexeme, Cursor.skipBlank, Cursor.advance, hlength]⟩
  | some n =>
    refine Or.inl ⟨⟨⟨x, (text.drop (blankLength text)).take n⟩, text.take (blankLength text)⟩,
      (text.drop (blankLength text)).drop n, ?_, rfl, ?_, hx, ?_⟩
    · rw [List.take_append_drop, List.take_append_drop]
    · refine isGap_take fun hnil => ?_
      rw [hnil, Lexical.length_nil] at hlength
      cases hlength
    · rw [List.take_append_drop, List.length_take, Nat.min_eq_left (Lexical.length_le hlength)]
      exact hlength

variable (hreads : ∀ r ps rest, known r ps rest → Reads (call r) ps rest)
  (hproper : ∀ r ps rest, known r ps rest → IsProperNode ps)
include hreads

/-- A sequence is settled if both forms are. -/
lemma settled_seq {f g : Form} (hf : ∀ text, Settled (f.Run call known) (f.read call) text)
    (hg : ∀ text, Settled (g.Run call known) (g.read call) text) (text : List Char) :
    Settled ((seq f g).Run call known) ((seq f g).read call) text := by
  rcases hf text with ⟨qs, rest, rfl, hqs⟩ | hfails | hsinks
  · have hfirst := reads_of_run hreads hqs
    rcases hg rest with ⟨rs, rest, rfl, hrs⟩ | hfails | hsinks
    · exact Or.inl ⟨qs ++ rs, rest, by simp, qs, rs, rfl, hqs, hrs⟩
    · refine Or.inr (Or.inl fun position => ?_)
      obtain ⟨stuck, hdone⟩ := hfirst position
      obtain ⟨further, hfailed⟩ := hfails (position + (textAll qs).length)
      exact ⟨Stuck.mergeOption stuck further, by simp [read, hdone, hfailed, Outcome.after]⟩
    · refine Or.inr (Or.inr fun position => ?_)
      obtain ⟨stuck, hdone⟩ := hfirst position
      simp [read, hdone, hsinks (position + (textAll qs).length), Outcome.after]
  · refine Or.inr (Or.inl fun position => ?_)
    obtain ⟨stuck, hfailed⟩ := hfails position
    exact ⟨stuck, by simp [read, hfailed]⟩
  · exact Or.inr (Or.inr fun position => by simp [read, hsinks position])

omit hreads in
/-- A choice is settled if both forms are. -/
lemma settled_choice {f g : Form} (hf : ∀ text, Settled (f.Run call known) (f.read call) text)
    (hg : ∀ text, Settled (g.Run call known) (g.read call) text) (text : List Char) :
    Settled ((choice f g).Run call known) ((choice f g).read call) text := by
  rcases hf text with ⟨ps, rest, rfl, hps⟩ | hfails | hsinks
  · exact Or.inl ⟨ps, rest, rfl, Or.inl hps⟩
  · rcases hg text with ⟨ps, rest, rfl, hps⟩ | hfails' | hsinks
    · exact Or.inl ⟨ps, rest, rfl, Or.inr ⟨hfails, hps⟩⟩
    · refine Or.inr (Or.inl fun position => ?_)
      obtain ⟨stuck, hfailed⟩ := hfails position
      obtain ⟨further, hfailed'⟩ := hfails' position
      exact ⟨stuck.merge further, by simp [read, hfailed, hfailed', Outcome.afterFailure]⟩
    · refine Or.inr (Or.inr fun position => ?_)
      obtain ⟨stuck, hfailed⟩ := hfails position
      simp [read, hfailed, hsinks position, Outcome.afterFailure]
  · exact Or.inr (Or.inr fun position => by simp [read, hsinks position])

include hproper in
/-- A repetition of a form that reads some text is settled if the form is. -/
lemma settled_many {f : Form} (hf : ∀ text, Settled (f.Run call known) (f.read call) text)
    (hadvances : f.advances = true) (text : List Char) :
    (∃ ps rest, text = textAll ps ++ rest ∧
        Repeats (f.Run call known) (Fails (f.read call)) ps rest) ∨
      ∀ n > text.length, Sinks (readMany (f.read call) n) text := by
  induction hlen : text.length using Nat.strongRecOn generalizing text with
  | ind len ih =>
    subst hlen
    rcases hf text with ⟨qs, rest, rfl, hqs⟩ | hfails | hsinks
    · have hne := textAll_ne_nil_of_run hproper hadvances hqs
      have hpos := List.length_pos_iff.2 hne
      rcases ih rest.length (by simp; omega) rest rfl with ⟨ps, rest, rfl, hps⟩ | hsinks
      · exact Or.inl ⟨qs ++ ps, rest, by simp, .cons hqs hne hps⟩
      · refine Or.inr fun n hn position => ?_
        obtain ⟨m, rfl⟩ := Nat.exists_eq_add_one_of_ne_zero (Nat.ne_of_gt (Nat.zero_lt_of_lt hn))
        have hfuel : m > rest.length := by
          simp only [List.length_append] at hn
          omega
        obtain ⟨stuck, hdone⟩ := reads_of_run hreads hqs position
        simp [readMany, hdone, hsinks m hfuel (position + (textAll qs).length), Outcome.after]
    · exact Or.inl ⟨[], text, rfl, .nil hfails⟩
    · refine Or.inr fun n hn position => ?_
      obtain ⟨m, rfl⟩ := Nat.exists_eq_add_one_of_ne_zero (Nat.ne_of_gt (Nat.zero_lt_of_lt hn))
      simp [readMany, hsinks position]

include hproper in
/-- A graft is settled if both forms are. -/
lemma settled_graft {f g : Form} (hf : ∀ text, Settled (f.Run call known) (f.read call) text)
    (hg : ∀ text, Settled (g.Run call known) (g.read call) text) (hnode : f.makesNode = true)
    (hphrases : g.makesPhrases = true) (text : List Char) :
    Settled ((graft f g).Run call known) ((graft f g).read call) text := by
  rcases hf text with ⟨qs, rest, rfl, hqs⟩ | hfails | hsinks
  · obtain ⟨base, rfl, hbase⟩ := exists_isNode_of_run hproper hnode hqs
    have hfirst := reads_of_run hreads hqs
    rcases hg rest with ⟨later, rest, rfl, hlater⟩ | hfails | hsinks
    · have htakes := takesBase_of_run hproper hphrases hlater
      exact Or.inl ⟨[attachAll base later], rest, by simp [text_attachAll htakes],
        base, later, rfl, hbase, htakes, hqs, hlater⟩
    · refine Or.inr (Or.inl fun position => ?_)
      obtain ⟨stuck, hdone⟩ := hfirst position
      obtain ⟨further, hfailed⟩ := hfails (position + (textAll [base]).length)
      exact ⟨Stuck.mergeOption stuck further, by simp only [read, hdone, hfailed]⟩
    · refine Or.inr (Or.inr fun position => ?_)
      obtain ⟨stuck, hdone⟩ := hfirst position
      simp only [read, hdone, hsinks (position + (textAll [base]).length)]
  · refine Or.inr (Or.inl fun position => ?_)
    obtain ⟨stuck, hfailed⟩ := hfails position
    exact ⟨stuck, by simp [read, hfailed]⟩
  · exact Or.inr (Or.inr fun position => by simp [read, hsinks position])

include hproper in
/-- A reading by a well made form is a run, fails, or goes too deep, if those by rules do. -/
theorem settles (hrules : ∀ r text, Settled (known r) (call r) text) {f : Form}
    (hf : f.wellMade = true) (text : List Char) :
    Settled (f.Run call known) (f.read call) text := by
  induction f generalizing text with
  | token t =>
    rcases settled_lexeme (x := .token t) rfl text with ⟨l, rest, rfl, hfound⟩ | hfails
    · exact Or.inl ⟨[.lexeme l], rest, by simp, l, rfl, hfound⟩
    · exact Or.inr (Or.inl hfails)
  | mark m =>
    rcases settled_lexeme (x := .mark m) hf text with ⟨l, rest, rfl, hfound⟩ | hfails
    · exact Or.inl ⟨[.lexeme l], rest, by simp, l, rfl, hfound⟩
    · exact Or.inr (Or.inl hfails)
  | nothing => exact Or.inl ⟨[], text, rfl, rfl⟩
  | seq f g ihf ihg =>
    obtain ⟨hf, hg⟩ := Bool.and_eq_true_iff.1 hf
    exact settled_seq hreads (ihf hf) (ihg hg) text
  | choice f g ihf ihg =>
    obtain ⟨hf, hg⟩ := Bool.and_eq_true_iff.1 hf
    exact settled_choice (ihf hf) (ihg hg) text
  | many f ih =>
    obtain ⟨hadvances, hf⟩ := Bool.and_eq_true_iff.1 hf
    rcases settled_many hreads hproper (ih hf) hadvances text with hrun | hsinks
    · exact Or.inl hrun
    · exact Or.inr (Or.inr fun position => hsinks _ (Nat.lt_succ_self _) position)
  | phrase p body ih =>
    rcases ih hf text with ⟨parts, rest, rfl, hparts⟩ | hfails | hsinks
    · exact Or.inl ⟨[.phrase p parts], rest, by simp, parts, rfl, hparts⟩
    · refine Or.inr (Or.inl fun position => ?_)
      obtain ⟨stuck, hfailed⟩ := hfails position
      exact ⟨stuck, by simp [read, hfailed, Outcome.mapItems]⟩
    · exact Or.inr (Or.inr fun position => by simp [read, hsinks position, Outcome.mapItems])
  | graft f g ihf ihg =>
    simp only [wellMade, Bool.and_eq_true] at hf
    obtain ⟨⟨⟨hnode, hphrases⟩, hf⟩, hg⟩ := hf
    exact settled_graft hreads hproper (ihf hf) (ihg hg) hnode hphrases text
  | rule r => exact hrules r text

end Form

/-! ### Rules -/

namespace Rule

open Form

/-- Whether a rule reads trees in front of a text when rules are followed down to a depth. -/
def Run : Nat → Rule → List Written → List Char → Prop
  | 0, _, _, _ => False
  | depth + 1, r, ps, rest => r.form.Run (Rule.read depth) (Run depth) ps rest

/-- Every rule is well made. -/
lemma wellMade_form (r : Rule) : r.form.wellMade = true := by cases r <;> rfl

/-- Every rule makes a node. -/
lemma makesNode_form (r : Rule) : r.form.makesNode = true := by cases r <;> rfl

/-- Every rule reads some text. -/
lemma advances_form (r : Rule) : r.form.advances = true := by cases r <;> rfl

/-- What a rule reads is one node with some text. -/
theorem isProperNode_of_run {depth : Nat} {r : Rule} {ps : List Written} {rest : List Char}
    (h : Run depth r ps rest) : IsProperNode ps := by
  induction depth generalizing r ps rest with
  | zero => exact h.elim
  | succ depth ih =>
    have hknown : ∀ r ps rest, Run depth r ps rest → IsProperNode ps := fun _ _ _ => ih
    obtain ⟨w, rfl, hw⟩ := exists_isNode_of_run hknown (makesNode_form r) h
    exact ⟨w, rfl, hw, by simpa using textAll_ne_nil_of_run hknown (advances_form r) h⟩

/-- Every run of a rule is a reading by it. -/
theorem reads_of_run {depth : Nat} {r : Rule} {ps : List Written} {rest : List Char}
    (h : Run depth r ps rest) : Reads (Rule.read depth r) ps rest := by
  induction depth generalizing r ps rest with
  | zero => exact h.elim
  | succ depth ih =>
    have hrun : r.form.Run (Rule.read depth) (Run depth) ps rest := h
    refine Form.reads_of_run (fun _ _ _ hr => ?_) hrun
    exact ih hr

/-- Reading by a rule is a run, fails, or goes too deep. -/
theorem settles (depth : Nat) (r : Rule) (text : List Char) :
    Settled (Run depth r) (Rule.read depth r) text := by
  induction depth generalizing r text with
  | zero => exact Or.inr (Or.inr fun position => rfl)
  | succ depth ih =>
    show Settled (r.form.Run (Rule.read depth) (Run depth)) (r.form.read (Rule.read depth)) text
    refine Form.settles ?_ ?_ ih (wellMade_form r) text
    · exact fun _ _ _ => reads_of_run
    · exact fun _ _ _ => isProperNode_of_run

end Rule

end PromqlGuide
