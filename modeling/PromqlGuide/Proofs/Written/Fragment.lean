import PromqlGuide.Proofs.Written.Operands

/-!
# Fragments of an expression

Every tree inside an expression is a `Fragment`: a lexeme, which is no number if it names a metric,
an expression, or one of the parts that hold label names, matchers and arguments
(`Written.fragment_of_within`).  What a fragment is made of is again made of fragments, so a fact
about all trees inside an expression is one fact for each kind of fragment.

Phrases always have parts (`Written.Fragment.parts_ne_nil`), and so every tree inside an expression
has some text behind its first gap (`Written.Fragment.bare_ne_nil`).
-/
namespace PromqlGuide.Written

variable {clear : List Written → List Word → Prop} {w v : Written} {ws parts : List Written}

/-- The trees that expressions are made of. -/
inductive Fragment (clear : List Written → List Word → Prop) : Written → Prop where
  | lexeme {l : Lexeme} : (l.kind = .token .metricName → Number.tokenLength? l.text = none) →
      Fragment clear (.lexeme l)
  | expression {w : Written} : Grammatical clear w → Fragment clear w
  | body {parts : List Written} : Enclosed '(' ')' (fun w => w.isNode = true) parts →
      (∀ w ∈ parts, w.isNode = true → Grammatical clear w) →
      Fragment clear (.phrase .callBody parts)
  | labelBlock {w : Written} : IsLabelBlock w → Fragment clear w
  | matcher {w : Written} : IsMatcher w → Fragment clear w
  | grouping {w : Written} : IsGrouping w → Fragment clear w
  | modifier {w : Written} : IsModifier w → Fragment clear w
  | matching {w : Written} : IsMatching w → Fragment clear w

/-! ### Parts of a fragment -/

/-- A lexeme that is no name of a metric is a fragment. -/
lemma fragment_of {x : Lexical} (h : Of x w) (hx : x ≠ .token .metricName) : Fragment clear w := by
  obtain ⟨l, rfl, rfl⟩ := h
  exact .lexeme fun hname => absurd hname hx

/-- An optional part is a fragment if it is where it is there. -/
lemma fragment_maybe {P : Written → Prop} (h : Maybe P ws) (hP : ∀ w, P w → Fragment clear w) :
    ∀ w ∈ ws, Fragment clear w := by
  rcases h with rfl | ⟨w, rfl, hw⟩
  · simp
  · simpa using hP w hw

/-- The entries of a list are fragments if they are each, and so are the commas between them. -/
lemma fragment_separated {P : Written → Prop} (h : Separated P ws)
    (hP : ∀ w ∈ ws, P w → Fragment clear w) : ∀ w ∈ ws, Fragment clear w := by
  intro w hw
  rcases mem_separated h w hw with hitem | hcomma
  · exact hP w hw hitem
  · exact fragment_of hcomma nofun

/-- What stands between marks is made of fragments if its entries are. -/
lemma fragment_enclosed {left right : Char} {P : Written → Prop} (h : Enclosed left right P ws)
    (hP : ∀ w ∈ ws, P w → Fragment clear w) : ∀ w ∈ ws, Fragment clear w := by
  obtain ⟨opening, inside, closing, rfl, hopening, hinside, hclosing⟩ := h
  simp only [List.cons_append, List.forall_mem_cons, List.forall_mem_append]
  exact ⟨fragment_of hopening nofun, fragment_separated hinside fun w hw => hP w (by simp [hw]),
    fragment_of hclosing nofun, by simp⟩

/-- What stands between marks is made of fragments, with a comma behind the last entry or
without. -/
lemma fragment_enclosedLoosely {left right : Char} {P : Written → Prop}
    (h : EnclosedLoosely left right P ws) (hP : ∀ w, P w → Fragment clear w) :
    ∀ w ∈ ws, Fragment clear w := by
  obtain ⟨opening, inside, comma, closing, rfl, hopening, hinside, hcomma, hclosing⟩ := h
  simp only [List.cons_append, List.forall_mem_cons, List.forall_mem_append]
  exact ⟨fragment_of hopening nofun, ⟨fragment_separated hinside fun w _ => hP w,
    fragment_maybe hcomma fun _ h => fragment_of h nofun⟩, fragment_of hclosing nofun, by simp⟩

/-- One of two keywords is a fragment. -/
lemma fragment_either {k k' : Keyword} (h : IsEither k k' w) : Fragment clear w := by
  rcases h with h | h
  · exact fragment_of h nofun
  · exact fragment_of h nofun

/-- What stands behind a base is made of fragments. -/
lemma fragment_postfix {p : Phrase} (h : IsPostfix p ws) : ∀ w ∈ ws, Fragment clear w := by
  cases h with
  | range hopening hrange hclosing =>
    simpa using ⟨fragment_of hopening nofun, fragment_of hrange nofun, fragment_of hclosing nofun⟩
  | subquery hopening hrange hcolon hstep hclosing =>
    simp only [List.cons_append, List.forall_mem_cons, List.forall_mem_append]
    exact ⟨fragment_of hopening nofun, fragment_of hrange nofun, fragment_of hcolon nofun,
      fragment_maybe hstep fun _ h => fragment_of h nofun, fragment_of hclosing nofun, by simp⟩
  | offset hword hsign hshift =>
    simp only [List.cons_append, List.forall_mem_cons, List.forall_mem_append]
    exact ⟨fragment_of hword nofun, fragment_maybe hsign fun _ h => fragment_of h nofun,
      fragment_of hshift nofun, by simp⟩
  | pinned hmark htime =>
    simpa using ⟨fragment_of hmark nofun, htime.elim (fragment_of · nofun) (fragment_of · nofun)⟩

/-- No name of a metric is a binary operator. -/
lemma ne_metricName_of_level {x : Lexical} {k : Nat} (h : operatorLevel? x = some k) :
    x ≠ .token .metricName := by
  rintro rfl
  cases h

/-- The parts of an expression are fragments. -/
lemma fragment_of_mem_expression {p : Phrase} (h : Grammatical clear (.phrase p parts)) :
    ∀ v ∈ parts, Fragment clear v := by
  cases h with
  | number hw | string hw => obtain ⟨l, hl, -⟩ := hw; cases hl
  | named _ hnumber hblock =>
    rw [List.forall_mem_cons]
    exact ⟨.lexeme fun _ => hnumber, fragment_maybe hblock fun _ => .labelBlock⟩
  | unnamed hblock => simpa using Fragment.labelBlock hblock
  | call hfunction hbody he => simpa using ⟨fragment_of hfunction nofun, Fragment.body hbody he⟩
  | aggregation hoperator hbefore hbody he hafter _ =>
    simp only [List.cons_append, List.forall_mem_cons, List.forall_mem_append]
    exact ⟨fragment_of hoperator nofun, fragment_maybe hbefore fun _ => .modifier, .body hbody he,
      fragment_maybe hafter fun _ => .modifier⟩
  | paren hopening he hclosing =>
    simpa using ⟨fragment_of hopening nofun, Fragment.expression he, fragment_of hclosing nofun⟩
  | postfixed hbase _ happended =>
    rw [List.forall_mem_cons]
    exact ⟨.expression hbase, fragment_postfix happended⟩
  | unary hsign he _ =>
    simpa using ⟨hsign.elim (fragment_of · nofun) (fragment_of · nofun), Fragment.expression he⟩
  | binary hleft hlevel hmodifiers _ hright _ =>
    obtain ⟨bool, matching, rfl, hbool, hmatching⟩ := hmodifiers
    simp only [List.cons_append, List.forall_mem_cons, List.forall_mem_append]
    exact ⟨.expression hleft, fragment_of ⟨_, rfl, rfl⟩ (ne_metricName_of_level hlevel),
      ⟨fragment_maybe hbool fun _ h => fragment_of h nofun,
        fragment_maybe hmatching fun _ => .matching⟩, .expression hright, by simp⟩

/-- The parts of a fragment are fragments. -/
theorem fragment_of_mem {p : Phrase} (h : Fragment clear (.phrase p parts)) :
    ∀ v ∈ parts, Fragment clear v := by
  cases h with
  | expression he => exact fragment_of_mem_expression he
  | body hbody he =>
    exact fragment_enclosed hbody fun w hw hnode => .expression (he w hw hnode)
  | labelBlock hblock =>
    obtain ⟨_, heq, hparts⟩ := hblock
    cases heq
    exact fragment_enclosedLoosely hparts fun _ => .matcher
  | matcher hmatcher =>
    cases hmatcher with
    | plain hname hoperator hvalue =>
      simpa using ⟨fragment_of hname nofun, fragment_of hoperator nofun, fragment_of hvalue nofun⟩
    | quoted hname hoperator hvalue =>
      simpa using ⟨Fragment.matcher (.name hname), fragment_of hoperator nofun,
        fragment_of hvalue nofun⟩
    | name hname => simpa using fragment_of hname nofun
  | grouping hgrouping =>
    obtain ⟨_, heq, hparts⟩ := hgrouping
    cases heq
    exact fragment_enclosedLoosely hparts fun _ h => fragment_of h nofun
  | modifier hmodifier =>
    obtain ⟨word, labels, heq, hword, hlabels⟩ := hmodifier
    cases heq
    simpa using ⟨fragment_either hword, Fragment.grouping hlabels⟩
  | matching hmatching =>
    obtain ⟨word, labels, group, heq, hword, hlabels, hgroup⟩ := hmatching
    cases heq
    simp only [List.forall_mem_cons]
    refine ⟨fragment_either hword, .grouping hlabels, ?_⟩
    rcases hgroup with rfl | ⟨word', labels', rfl, hword', hlabels'⟩
    · simp
    · rw [List.forall_mem_cons]
      exact ⟨fragment_either hword', fragment_maybe hlabels' fun _ => .grouping⟩

/-- Every tree inside a fragment is one. -/
lemma Fragment.of_within (h : Fragment clear v) (hw : Within w v) : Fragment clear w := by
  induction hw with
  | refl => exact h
  | part hmem _ ih => exact ih (fragment_of_mem h _ hmem)

/-- Every tree inside an expression is a fragment. -/
theorem fragment_of_within {e : Written} (he : Grammatical clear e) (hw : Within w e) :
    Fragment clear w := (Fragment.expression he).of_within hw

/-- No name of a metric is read as a number. -/
lemma Fragment.number_eq_none {l : Lexeme} (h : Fragment clear (.lexeme l))
    (hl : l.kind = .token .metricName) : Number.tokenLength? l.text = none := by
  cases h with
  | lexeme h => exact h hl
  | expression he =>
    cases he with
    | number hw | string hw =>
      obtain ⟨l', heq, hl'⟩ := hw
      cases heq
      rw [hl] at hl'
      cases hl'
  | labelBlock h => obtain ⟨_, heq, -⟩ := h; cases heq
  | matcher h => cases h
  | grouping h => obtain ⟨_, heq, -⟩ := h; cases heq
  | modifier h => obtain ⟨_, _, heq, -⟩ := h; cases heq
  | matching h => obtain ⟨_, _, _, heq, -⟩ := h; cases heq

/-! ### Text of a fragment -/

/-- Between marks there are at least the marks. -/
lemma ne_nil_of_enclosedLoosely {left right : Char} {P : Written → Prop}
    (h : EnclosedLoosely left right P ws) : ws ≠ [] := by
  obtain ⟨opening, inside, comma, closing, rfl, -⟩ := h
  simp

/-- A phrase has parts. -/
lemma Fragment.parts_ne_nil {p : Phrase} (h : Fragment clear (.phrase p parts)) : parts ≠ [] := by
  cases h with
  | expression he =>
    cases he with
    | number hw | string hw => obtain ⟨l, hl, -⟩ := hw; cases hl
    | _ => simp
  | body hbody _ =>
    obtain ⟨opening, inside, closing, rfl, -⟩ := hbody
    simp
  | labelBlock hblock =>
    obtain ⟨_, heq, hparts⟩ := hblock
    cases heq
    exact ne_nil_of_enclosedLoosely hparts
  | matcher hmatcher => cases hmatcher <;> simp
  | grouping hgrouping =>
    obtain ⟨_, heq, hparts⟩ := hgrouping
    cases heq
    exact ne_nil_of_enclosedLoosely hparts
  | modifier hmodifier =>
    obtain ⟨word, labels, heq, -⟩ := hmodifier
    cases heq
    simp
  | matching hmatching =>
    obtain ⟨word, labels, group, heq, -⟩ := hmatching
    cases heq
    simp

/-- A fragment has some text behind its first gap. -/
theorem Fragment.bare_ne_nil {rest : List Char} (h : Fragment clear w) (hlaid : Laid [w] rest) :
    w.bare.text ≠ [] := by
  induction w generalizing rest with
  | lexeme l =>
    have hspells := hlaid.1.2.2
    simpa [bare] using Lexical.ne_nil_of_spells hspells
  | phrase p parts ih =>
    cases parts with
    | nil => exact absurd rfl h.parts_ne_nil
    | cons w ws =>
      have hfirst := (laid_cons.1 (laid_phrase.1 hlaid)).1
      have hne := ih w List.mem_cons_self (fragment_of_mem h w List.mem_cons_self) hfirst
      simp [bare, hne]

/-- Behind its first gap, a fragment starts with something visible. -/
lemma Fragment.startsVisible_bare {rest : List Char} (h : Fragment clear w)
    (hlaid : Laid [w] rest) :
    Text.startsVisible (w.bare.text ++ rest) = true := by
  induction w generalizing rest with
  | lexeme l => simpa [bare] using hlaid.1.visible rest
  | phrase p parts ih =>
    cases parts with
    | nil => exact absurd rfl h.parts_ne_nil
    | cons w ws =>
      have hfirst := (laid_cons.1 (laid_phrase.1 hlaid)).1
      have hvisible := ih w List.mem_cons_self (fragment_of_mem h w List.mem_cons_self) hfirst
      simpa [bare] using hvisible

end PromqlGuide.Written
