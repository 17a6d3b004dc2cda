import PromqlGuide.Proofs.Written.Grammatical

/-!
# Brackets

The parentheses of a grammatical tree come in pairs, and a function name stands right in front of an
opening one (`Written.bracketed_of_grammatical`).  Whatever the reader of a list of labels makes of
an operand, it therefore finds a closing parenthesis behind an opening one (`Bracketed.closes`), and
no expression ends with a function name (`Bracketed.calls`).
-/
namespace PromqlGuide

/-- Lexemes whose parentheses come in pairs, with function names only right in front of a pair. -/
inductive Bracketed : List Lexeme → Prop where
  | nil : Bracketed []
  | one {l : Lexeme} : l.kind ≠ .mark '(' → l.kind ≠ .mark ')' → l.kind ≠ .token .functionName →
      Bracketed [l]
  | append {ls ms : List Lexeme} : Bracketed ls → Bracketed ms → Bracketed (ls ++ ms)
  | paren {opening closing : Lexeme} {ls : List Lexeme} : opening.kind = .mark '(' → Bracketed ls →
      closing.kind = .mark ')' → Bracketed (opening :: ls ++ [closing])
  | call {function opening closing : Lexeme} {ls : List Lexeme} :
      function.kind = .token .functionName → opening.kind = .mark '(' → Bracketed ls →
      closing.kind = .mark ')' → Bracketed (function :: opening :: ls ++ [closing])

/-- Whether lexemes with an opening parenthesis among them have a closing one as well. -/
def Closes (ls : List Lexeme) : Prop :=
  .mark '(' ∈ ls.map (fun l => l.kind) → .mark ')' ∈ ls.map (fun l => l.kind)

/-- Whether every function name has an opening parenthesis right behind it. -/
def Calls : List Lexeme → Prop
  | [] => True
  | [l] => l.kind ≠ .token .functionName
  | l :: m :: ls => (l.kind = .token .functionName → m.kind = .mark '(') ∧ Calls (m :: ls)

namespace Bracketed

variable {ls : List Lexeme}

/-- Paired parentheses that are opened are closed. -/
theorem closes (h : Bracketed ls) : Closes ls := by
  induction h with
  | nil => exact fun hmem => absurd hmem (by simp)
  | one hopening => exact fun hmem => absurd (by simpa using hmem) (Ne.symm hopening)
  | append _ _ ihls ihms =>
    intro hmem
    simp only [List.map_append, List.mem_append] at hmem ⊢
    exact hmem.imp ihls ihms
  | paren _ _ hclosing | call _ _ _ hclosing => exact fun _ => by simp [hclosing]

/-- Function names keep their parentheses when lexemes follow. -/
lemma calls_append {ls ms : List Lexeme} (hls : Calls ls) (hms : Calls ms) : Calls (ls ++ ms) := by
  induction ls with
  | nil => exact hms
  | cons l ls ih =>
    cases ls with
    | nil =>
      cases ms with
      | nil => exact hls
      | cons m ms => exact ⟨fun h => absurd h hls, hms⟩
    | cons l' ls => exact ⟨hls.1, ih hls.2⟩

/-- A lexeme that is no function name may stand in front. -/
lemma calls_cons {l : Lexeme} {ls : List Lexeme} (hl : l.kind ≠ .token .functionName)
    (hls : Calls ls) : Calls (l :: ls) := by
  have hone : Calls [l] := hl
  exact calls_append hone hls

/-- In paired parentheses every function name has one behind it. -/
theorem calls (h : Bracketed ls) : Calls ls := by
  induction h with
  | nil => trivial
  | one _ _ hfunction => exact hfunction
  | append _ _ ihls ihms => exact calls_append ihls ihms
  | paren hopening _ hclosing ih =>
    exact calls_cons (by simp [hopening])
      (calls_append ih (show _ ≠ Lexical.token .functionName by simp [hclosing]))
  | call _ hopening _ hclosing ih =>
    refine ⟨fun _ => hopening, calls_cons (by simp [hopening]) ?_⟩
    exact calls_append ih (show _ ≠ Lexical.token .functionName by simp [hclosing])

end Bracketed

/-- An opening parenthesis follows each function name. -/
lemma Calls.paren_of_function {ls ms : List Lexeme} {l m : Lexeme} (h : Calls (ls ++ l :: m :: ms))
    (hl : l.kind = .token .functionName) : m.kind = .mark '(' := by
  induction ls with
  | nil => exact h.1 hl
  | cons k ls ih =>
    cases ls with
    | nil => exact ih h.2
    | cons k' ls => exact ih h.2

/-- The last lexeme is no function name. -/
lemma Calls.last_ne_function {ls : List Lexeme} {l : Lexeme} (h : Calls (ls ++ [l])) :
    l.kind ≠ .token .functionName := by
  induction ls with
  | nil => exact h
  | cons k ls ih =>
    cases ls with
    | nil => exact ih h.2
    | cons k' ls => exact ih h.2

/-! ### Grammatical trees -/

namespace Written

variable {w : Written} {ws : List Written}

/-- Parts with paired parentheses make a phrase with paired parentheses. -/
lemma bracketed_all (h : ∀ w ∈ ws, Bracketed w.lexemes) : Bracketed (lexemesAll ws) := by
  induction ws with
  | nil => exact .nil
  | cons w ws ih =>
    exact .append (h w List.mem_cons_self) (ih fun v hv => h v (List.mem_cons_of_mem w hv))

/-- A lexeme that is no parenthesis and no function name is bracketed. -/
lemma bracketed_of {x : Lexical} (h : Of x w) (hopening : x ≠ .mark '(') (hclosing : x ≠ .mark ')')
    (hfunction : x ≠ .token .functionName) : Bracketed w.lexemes := by
  obtain ⟨l, rfl, rfl⟩ := h
  exact .one hopening hclosing hfunction

/-- What stands between parentheses has them paired if the inside has. -/
lemma bracketed_paren {opening closing : Written} (ws : List Written)
    (hopening : Of (.mark '(') opening) (hws : ∀ w ∈ ws, Bracketed w.lexemes)
    (hclosing : Of (.mark ')') closing) :
    Bracketed (lexemesAll (opening :: ws ++ [closing])) := by
  obtain ⟨o, rfl, ho⟩ := hopening
  obtain ⟨c, rfl, hc⟩ := hclosing
  simpa [lexemesAll, lexemes] using Bracketed.paren ho (bracketed_all hws) hc

/-- An optional part is bracketed if it is where it is there. -/
lemma bracketed_maybe {P : Written → Prop} (h : Maybe P ws)
    (hP : ∀ w, P w → Bracketed w.lexemes) : ∀ w ∈ ws, Bracketed w.lexemes := by
  rcases h with rfl | ⟨w, rfl, hw⟩
  · simp
  · simpa using hP w hw

/-- A tree in a list is an entry or a comma. -/
lemma mem_separated {P : Written → Prop} (h : Separated P ws) :
    ∀ w ∈ ws, P w ∨ Of (.mark ',') w := by
  induction h with
  | nil => simp
  | one hw => simpa using Or.inl hw
  | cons hw hcomma _ ih =>
    intro u hu
    rcases List.mem_cons.1 hu with rfl | hu
    · exact Or.inl hw
    rcases List.mem_cons.1 hu with rfl | hu
    · exact Or.inr hcomma
    · exact ih u hu

/-- A list is bracketed if its entries are. -/
lemma bracketed_separated {P : Written → Prop} (h : Separated P ws)
    (hP : ∀ w ∈ ws, P w → Bracketed w.lexemes) : ∀ w ∈ ws, Bracketed w.lexemes := by
  intro w hw
  rcases mem_separated h w hw with hw' | hw'
  · exact hP w hw hw'
  · exact bracketed_of hw' (by simp) (by simp) (by simp)

/-- A label matcher is bracketed. -/
lemma bracketed_matcher (h : IsMatcher w) : Bracketed w.lexemes := by
  have token : ∀ {w : Written} {t : Terminal}, Of (.token t) w → t ≠ .functionName →
      Bracketed w.lexemes := fun hw ht => bracketed_of hw (by simp) (by simp) (by simpa using ht)
  cases h with
  | plain hname hoperator hvalue =>
    refine bracketed_all ?_
    simp only [List.forall_mem_cons]
    exact ⟨token hname (by simp), token hoperator (by simp), token hvalue (by simp), by simp⟩
  | quoted hname hoperator hvalue =>
    refine bracketed_all ?_
    simp only [List.forall_mem_cons]
    exact ⟨bracketed_all (by simpa using token hname (by simp)), token hoperator (by simp),
      token hvalue (by simp), by simp⟩
  | name hname => exact bracketed_all (by simpa using token hname (by simp))

/-- A list of label matchers is bracketed. -/
lemma bracketed_labelBlock (h : IsLabelBlock w) : Bracketed w.lexemes := by
  obtain ⟨parts, rfl, opening, inside, comma, closing, rfl, hopening, hinside, hcomma, hclosing⟩ :=
    h
  refine bracketed_all ?_
  simp only [List.cons_append, List.forall_mem_cons, List.forall_mem_append]
  exact ⟨bracketed_of hopening (by simp) (by simp) (by simp),
    ⟨bracketed_separated hinside fun _ _ => bracketed_matcher,
      bracketed_maybe hcomma fun _ hw => bracketed_of hw (by simp) (by simp) (by simp)⟩,
    bracketed_of hclosing (by simp) (by simp) (by simp), by simp⟩

/-- A list of grouping labels is bracketed. -/
lemma bracketed_grouping (h : IsGrouping w) : Bracketed w.lexemes := by
  obtain ⟨parts, rfl, opening, inside, comma, closing, rfl, hopening, hinside, hcomma, hclosing⟩ :=
    h
  refine bracketed_paren (inside ++ comma) hopening (List.forall_mem_append.2 ⟨?_, ?_⟩) hclosing
  · exact bracketed_separated hinside fun _ _ hw => bracketed_of hw (by simp) (by simp) (by simp)
  · exact bracketed_maybe hcomma fun _ hw => bracketed_of hw (by simp) (by simp) (by simp)

/-- One of two keywords is bracketed. -/
lemma bracketed_either {k k' : Keyword} (h : IsEither k k' w) : Bracketed w.lexemes := by
  rcases h with h | h
  · exact bracketed_of h (by simp) (by simp) (by simp)
  · exact bracketed_of h (by simp) (by simp) (by simp)

/-- A grouping modifier is bracketed. -/
lemma bracketed_modifier (h : IsModifier w) : Bracketed w.lexemes := by
  obtain ⟨word, labels, rfl, hword, hlabels⟩ := h
  refine bracketed_all ?_
  simpa using ⟨bracketed_either hword, bracketed_grouping hlabels⟩

/-- A vector matching is bracketed. -/
lemma bracketed_matching (h : IsMatching w) : Bracketed w.lexemes := by
  obtain ⟨word, labels, group, rfl, hword, hlabels, hgroup⟩ := h
  refine bracketed_all ?_
  simp only [List.forall_mem_cons]
  refine ⟨bracketed_either hword, bracketed_grouping hlabels, ?_⟩
  rcases hgroup with rfl | ⟨word', labels', rfl, hword', hlabels'⟩
  · simp
  · simp only [List.forall_mem_cons]
    exact ⟨bracketed_either hword', bracketed_maybe hlabels' fun _ => bracketed_grouping⟩

/-- The modifiers of an operator are bracketed. -/
lemma bracketed_modifiers (h : IsModifiers ws) : ∀ w ∈ ws, Bracketed w.lexemes := by
  obtain ⟨bool, matching, rfl, hbool, hmatching⟩ := h
  refine List.forall_mem_append.2 ⟨?_, bracketed_maybe hmatching fun _ => bracketed_matching⟩
  exact bracketed_maybe hbool fun _ hw => bracketed_of hw (by simp) (by simp) (by simp)

/-- What stands behind a base is bracketed. -/
lemma bracketed_postfix {p : Phrase} (h : IsPostfix p ws) : ∀ w ∈ ws, Bracketed w.lexemes := by
  have of : ∀ {w : Written} {x : Lexical}, Of x w → x ≠ .mark '(' ∧ x ≠ .mark ')' ∧
      x ≠ .token .functionName → Bracketed w.lexemes := fun hw hx =>
    bracketed_of hw hx.1 hx.2.1 hx.2.2
  cases h with
  | range hopening hrange hclosing =>
    simp only [List.forall_mem_cons]
    exact ⟨of hopening (by simp), of hrange (by simp), of hclosing (by simp), by simp⟩
  | subquery hopening hrange hcolon hstep hclosing =>
    simp only [List.cons_append, List.forall_mem_cons, List.forall_mem_append]
    exact ⟨of hopening (by simp), of hrange (by simp), of hcolon (by simp),
      bracketed_maybe hstep fun _ hw => of hw (by simp), of hclosing (by simp), by simp⟩
  | offset hword hsign hshift =>
    simp only [List.cons_append, List.forall_mem_cons, List.forall_mem_append]
    exact ⟨of hword (by simp), bracketed_maybe hsign fun _ hw => of hw (by simp),
      of hshift (by simp), by simp⟩
  | pinned hmark htime =>
    simp only [List.forall_mem_cons]
    exact ⟨of hmark (by simp), htime.elim (fun hw => of hw (by simp)) fun hw => of hw (by simp),
      by simp⟩

/-- The parentheses of an expression come in pairs, and function names stand in front of one. -/
theorem bracketed_of_grammatical {clear : List Written → List Word → Prop} {e : Written}
    (h : Grammatical clear e) : Bracketed e.lexemes := by
  -- The one place where function names and parentheses come from.
  have inside : ∀ {body : List Written}, Enclosed '(' ')' (fun w => w.isNode = true) body →
      (∀ w ∈ body, w.isNode = true → Bracketed w.lexemes) →
      ∃ opening ls closing, lexemesAll body = opening :: ls ++ [closing] ∧
        opening.kind = .mark '(' ∧ Bracketed ls ∧ closing.kind = .mark ')' := by
    rintro body ⟨_, ws, _, rfl, ⟨o, rfl, ho⟩, hws, ⟨c, rfl, hc⟩⟩ hbody
    refine ⟨o, lexemesAll ws, c, by simp [lexemesAll, lexemes], ho, bracketed_all ?_, hc⟩
    exact bracketed_separated hws fun w hw hnode => hbody w (by simp [hw]) hnode
  induction h with
  | number hw | string hw => exact bracketed_of hw (by simp) (by simp) (by simp)
  | named hkind _ hblock =>
    refine bracketed_all ?_
    simp only [List.forall_mem_cons]
    exact ⟨bracketed_of ⟨_, rfl, hkind⟩ (by simp) (by simp) (by simp),
      bracketed_maybe hblock fun _ => bracketed_labelBlock⟩
  | unnamed hblock => exact bracketed_all (by simpa using bracketed_labelBlock hblock)
  | call hfunction hbody _ ih =>
    obtain ⟨f, rfl, hf⟩ := hfunction
    obtain ⟨o, ls, c, heq, ho, hls, hc⟩ := inside hbody ih
    simpa [lexemes, lexemesAll, heq] using Bracketed.call hf ho hls hc
  | aggregation hoperator hbefore hbody _ hafter _ ih =>
    obtain ⟨o, ls, c, heq, ho, hls, hc⟩ := inside hbody ih
    refine bracketed_all ?_
    simp only [List.cons_append, List.forall_mem_cons, List.forall_mem_append]
    exact ⟨bracketed_of hoperator (by simp) (by simp) (by simp),
      bracketed_maybe hbefore fun _ => bracketed_modifier,
      by simpa [lexemes, heq] using Bracketed.paren ho hls hc,
      bracketed_maybe hafter fun _ => bracketed_modifier⟩
  | @paren opening e closing hopening _ hclosing ih =>
    exact bracketed_paren [e] hopening (by simpa using ih) hclosing
  | postfixed _ _ happended ih =>
    refine bracketed_all ?_
    simp only [List.forall_mem_cons]
    exact ⟨ih, bracketed_postfix happended⟩
  | unary hsign _ _ ih =>
    refine bracketed_all ?_
    simp only [List.forall_mem_cons]
    refine ⟨?_, ih, by simp⟩
    rcases hsign with hsign | hsign
    · exact bracketed_of hsign (by simp) (by simp) (by simp)
    · exact bracketed_of hsign (by simp) (by simp) (by simp)
  | binary _ hoperator hmodifiers _ _ _ ihleft ihright =>
    have operator : ∀ x, operatorLevel? x ≠ none → x ≠ .mark '(' ∧ x ≠ .mark ')' ∧
        x ≠ .token .functionName := by
      rintro x hx
      refine ⟨?_, ?_, ?_⟩ <;> rintro rfl <;> exact hx rfl
    have hne := operator _ (by rw [hoperator]; simp)
    refine bracketed_all ?_
    simp only [List.cons_append, List.forall_mem_cons, List.forall_mem_append]
    exact ⟨ihleft, .one hne.1 hne.2.1 hne.2.2, bracketed_modifiers hmodifiers, ihright, by simp⟩

end Written

end PromqlGuide
