import PromqlGuide.Proofs.Grammar.Operators

/-!
# Completeness of the grammar

Every grammatical tree whose right operands are clear of modifiers is read back from its text, in
front of any text that does not continue it (`Rule.run_of_grammatical`).

The proof is an induction on grammatical trees.  What it carries along, `Readable`, says for each
kind of place at which an expression may stand that the tree is read there: with the postfixes
behind it, behind a sign, and with the operators behind it.
-/
namespace PromqlGuide

open Text Written

/-! ### Facts about grammatical trees -/

namespace Written

variable {clear : List Written → List Word → Prop} {e : Written}

/-- A token is a node. -/
lemma isNode_of_token {t : Terminal} {w : Written} (h : Of (.token t) w) : w.isNode = true := by
  obtain ⟨l, rfl, hkind⟩ := h
  simp [isNode, hkind]

/-- An expression is a node. -/
lemma isNode_of_grammatical (h : Grammatical clear e) : e.isNode = true := by
  cases h with
  | number hw | string hw => exact isNode_of_token hw
  | _ => rfl

/-- A lexeme is nested at least one deep. -/
lemma one_le_nesting_of_of {x : Lexical} {w : Written} (h : Of x w) : 1 ≤ w.nesting := by
  obtain ⟨l, rfl, -⟩ := h
  exact Nat.le_refl 1

/-- A phrase with a lexeme is nested at least one deep. -/
lemma one_le_nesting_of_mem {x : Lexical} {p : Phrase} {parts : List Written} {w : Written}
    (h : Of x w) (hw : w ∈ parts) : 1 ≤ (phrase p parts).nesting :=
  Nat.le_trans (one_le_nesting_of_of h) (nesting_le_of_mem hw)

/-- An expression is nested at least one deep. -/
lemma one_le_nesting_of_grammatical (h : Grammatical clear e) : 1 ≤ e.nesting := by
  cases h with
  | number hw | string hw => exact one_le_nesting_of_of hw
  | named hkind => exact one_le_nesting_of_mem ⟨_, rfl, hkind⟩ List.mem_cons_self
  | unnamed hblock =>
    obtain ⟨parts, rfl, opening, inside, comma, closing, rfl, hopening, -⟩ := hblock
    exact Nat.le_trans (one_le_nesting_of_mem hopening (by simp))
      (nesting_le_of_mem List.mem_cons_self)
  | call hfunction => exact one_le_nesting_of_mem hfunction List.mem_cons_self
  | aggregation hoperator => exact one_le_nesting_of_mem hoperator List.mem_cons_self
  | paren hopening => exact one_le_nesting_of_mem hopening List.mem_cons_self
  | postfixed _ _ happended =>
    obtain ⟨x, w, ws, rfl, hw, -⟩ := Form.head_of_isPostfix happended
    exact one_le_nesting_of_mem hw (by simp)
  | unary hsign =>
    rcases hsign with hsign | hsign
    · exact one_le_nesting_of_mem hsign List.mem_cons_self
    · exact one_le_nesting_of_mem hsign List.mem_cons_self
  | binary => exact one_le_nesting_of_mem ⟨_, rfl, rfl⟩ (List.mem_cons_of_mem _ List.mem_cons_self)

/-- An expression with a postfix has the level of postfixes. -/
lemma level_of_isPostfix {p : Phrase} {parts : List Written} (h : IsPostfix p parts)
    (base : Written) : (phrase p (base :: parts)).level = 7 := by
  cases h <;> rfl

/-- A binary expression has the level of its operator. -/
lemma level_binary {operator : Lexeme} {k : Nat} (left : Written)
    (h : operatorLevel? operator.kind = some k) (more : List Written) :
    (phrase .binary (left :: .lexeme operator :: more)).level = k := by
  simp [level, h]

/-- An operator is one of five levels, or the power. -/
lemma operatorLevel_cases {x : Lexical} {k : Nat} (h : operatorLevel? x = some k) :
    k < 5 ∨ k = 6 ∧ x = .token (.symbol .pow) := by
  unfold operatorLevel? at h
  split at h <;> first | (cases h; decide) | cases h

end Written

/-! ### Every grammatical tree is read -/

namespace Form

/-- Whether a tree is read at each place for which it binds tightly enough. -/
structure Readable (e : Written) : Prop where
  spine : ∀ k < 5, k ≤ e.level → SpineAt k e
  signed : 5 ≤ e.level → ReadAt 5 e
  base : 7 ≤ e.level → PostfixSpine e

variable {e : Written}

/-- A tree is read at each level that it binds tightly enough for. -/
lemma Readable.readAt (h : Readable e) {k : Nat} (hk : k ≤ 5) (hlevel : k ≤ e.level) :
    ReadAt k e := by
  rcases Nat.lt_or_eq_of_le hk with hlt | rfl
  · exact readAt_of_spineAt hlt (h.spine k hlt hlevel)
  · exact h.signed hlevel

/-- What is read behind a sign is read with the operators behind it. -/
lemma spineAt_of_signed (hnode : e.isNode = true) (h : ReadAt 5 e) {k : Nat} (hk : k < 5) :
    SpineAt k e := spineAt_of_readAt hk hnode (readAt_of_le (Nat.le_refl 5) hnode h hk)

/-- What is read with the postfixes behind it is read at every place. -/
lemma readable_of_base (hnode : e.isNode = true) (hpos : 1 ≤ e.nesting) (h : PostfixSpine e) :
    Readable e :=
  have hsigned := readAt_of_postfixSpine hnode hpos h
  ⟨fun _ hk _ => spineAt_of_signed hnode hsigned hk, fun _ => hsigned, fun _ => h⟩

/-- A tree is read between parentheses where there is room for its nesting. -/
lemma readsInside_of_readable (h : Readable e) {depth : Nat} (hdepth : e.nesting < depth) :
    ReadsInside depth e := by
  intro rest hlaid hbefore
  obtain ⟨d, rfl⟩ := Nat.exists_eq_add_of_le' (Nat.succ_le_of_lt (Nat.zero_lt_of_lt hdepth))
  exact h.readAt (Nat.zero_le 5) (Nat.zero_le _) d rest (Nat.le_of_lt_succ hdepth) hlaid
    (stops_of_before (hbefore.mono (by decide)) 0)

/-- A binary expression is read at its level if its operands are read at theirs and the right one is
clear of modifiers. -/
lemma readable_binary {left right : Written} {operator : Lexeme} {modifiers : List Written}
    {k : Nat}
    (hleftNode : left.isNode = true) (hleft : Readable left)
    (hoperator : operatorLevel? operator.kind = some k) (hmodifiers : IsModifiers modifiers)
    (hclear : Clear modifiers right.words) (hcloses : Closes right.lexemes)
      (hright : Readable right)
    (hfits : Fits k left.level right.level) :
    Readable (.phrase .binary (left :: .lexeme operator :: modifiers ++ [right])) := by
  have hlevel := level_binary left hoperator (modifiers ++ [right])
  rcases operatorLevel_cases hoperator with hk | ⟨rfl, hpow⟩
  · rw [Fits, if_neg (by omega)] at hfits
    have hspine := spineAt_binary hk hoperator hmodifiers hclear hcloses
      (hleft.spine k hk hfits.1) (hright.readAt (by omega) hfits.2)
    refine ⟨fun j hj hle => ?_, fun hle => ?_, fun hle => ?_⟩
    · rcases Nat.lt_or_eq_of_le (hlevel ▸ hle) with hlt | rfl
      · exact spineAt_of_readAt hj rfl
          (readAt_of_le (Nat.le_of_lt hk) rfl (readAt_of_spineAt hk hspine) hlt)
      · exact hspine
    · exact absurd (hlevel ▸ hle) (by omega)
    · exact absurd (hlevel ▸ hle) (by omega)
  · rw [Fits, if_pos rfl] at hfits
    have hsigned := readAt_power hpow hmodifiers hclear hcloses hleftNode (hleft.base hfits.1)
      (hright.signed hfits.2)
    exact ⟨fun _ hj _ => spineAt_of_signed rfl hsigned hj, fun _ => hsigned,
      fun hle => absurd (hlevel ▸ hle) (by decide)⟩

/-- Expressions without operators are read at every place. -/
lemma readable_of_primary (he : Grammatical Clear e)
    (h : ∀ depth rest, e.nesting ≤ depth + 1 → Laid [e] rest → Stops 8 rest →
      RunAt depth Grammar.primary [e] rest) : Readable e :=
  have hnode := isNode_of_grammatical he
  readable_of_base hnode (one_le_nesting_of_grammatical he) (postfixSpine_of_primary hnode h)

/-- Between parentheses the reader is two rules deeper. -/
lemma depth_of_body {left right : Char} {P : Written → Prop} {body : List Written} {depth : Nat}
    (hbody : Enclosed left right P body) (h : (Written.phrase .callBody body).nesting ≤ depth + 1) :
    2 ≤ depth ∧ ∀ w ∈ body, w.nesting < depth := by
  obtain ⟨opening, inside, closing, rfl, hopening, -⟩ := hbody
  have hdeepest : deepest (opening :: inside ++ [closing]) + 1 ≤ depth := Nat.le_of_succ_le_succ h
  refine ⟨?_, fun w hw => Nat.lt_of_lt_of_le (Nat.lt_succ_of_le (nesting_le_deepest hw)) hdeepest⟩
  have hone := one_le_nesting_of_of hopening
  have hle : opening.nesting ≤ deepest (opening :: inside ++ [closing]) :=
    nesting_le_deepest (by simp)
  omega

/-- Every grammatical tree is read at each place for which it binds tightly enough. -/
theorem readable_of_grammatical (h : Grammatical Clear e) : Readable e := by
  induction h with
  | number hw => exact readable_of_primary (.number hw) fun _ _ _ => run_number hw
  | string hw => exact readable_of_primary (.string hw) fun _ _ _ hlaid _ => run_string hw hlaid
  | named hkind hnumber hblock =>
    exact readable_of_primary (.named hkind hnumber hblock) fun _ _ _ hlaid =>
      run_named hkind hnumber hblock (laid_phrase.1 hlaid)
  | unnamed hblock =>
    exact readable_of_primary (.unnamed hblock) fun _ _ _ hlaid _ =>
      run_unnamed hblock (laid_phrase.1 hlaid)
  | call hfunction hbody he ih =>
    refine readable_of_primary (.call hfunction hbody he) fun depth rest hdepth hlaid _ => ?_
    -- Arguments are two rules deeper, and there is room for these since the call is within the
    -- depth.
    obtain ⟨hd, hinside⟩ := depth_of_body hbody
      (Nat.le_trans (nesting_le_of_mem (List.mem_cons_of_mem _ List.mem_cons_self)) hdepth)
    exact run_call hd hfunction hbody
      (fun w hw hnode => readsInside_of_readable (ih w hw hnode) (hinside w hw))
      (laid_phrase.1 hlaid)
  | aggregation hoperator hbefore hbody he hafter hone ih =>
    refine readable_of_primary (.aggregation hoperator hbefore hbody he hafter hone)
      fun depth rest hdepth hlaid => ?_
    obtain ⟨hd, hinside⟩ := depth_of_body hbody (Nat.le_trans (nesting_le_of_mem (by simp)) hdepth)
    exact run_aggregation hd hoperator hbefore hbody
      (fun w hw hnode => readsInside_of_readable (ih w hw hnode) (hinside w hw)) hafter hone
      (laid_phrase.1 hlaid)
  | @paren opening e closing hopening he hclosing ih =>
    refine readable_of_primary (.paren hopening he hclosing) fun depth rest hdepth hlaid _ => ?_
    have hdeepest : deepest [opening, e, closing] + 1 ≤ depth := Nat.le_of_succ_le_succ hdepth
    have hinside : e.nesting ≤ deepest [opening, e, closing] := nesting_le_deepest (by simp)
    exact run_paren hopening (readsInside_of_readable ih (Nat.lt_of_lt_of_le
      (Nat.lt_succ_of_le hinside) hdeepest)) hclosing (laid_phrase.1 hlaid)
  | postfixed hbase hlevel happended ih =>
    exact readable_of_base rfl (one_le_nesting_of_grammatical (.postfixed hbase hlevel happended))
      (postfixSpine_postfixed happended (ih.base hlevel))
  | unary hsign he hlevel ih =>
    have hsigned := readAt_unary hsign (ih.signed hlevel)
    exact ⟨fun _ hk _ => spineAt_of_signed rfl hsigned hk, fun _ => hsigned,
      fun hle => absurd (show 7 ≤ 5 from hle) (by decide)⟩
  | binary hleft hoperator hmodifiers hclear hright hfits ihleft ihright =>
    exact readable_binary (isNode_of_grammatical hleft) ihleft hoperator hmodifiers hclear
      (bracketed_of_grammatical hright).closes ihright hfits

end Form

/-- Every grammatical tree is read by the rule for expressions where nothing continues it, if rules
are followed deep enough. -/
theorem Rule.run_of_grammatical {e : Written} {depth : Nat} {rest : List Char}
    (h : Grammatical Clear e) (hdepth : e.nesting < depth) (hlaid : Laid [e] rest)
    (hstops : Stops 0 rest) : Rule.Run depth .expression [e] rest := by
  obtain ⟨d, rfl⟩ := Nat.exists_eq_add_of_le' (Nat.succ_le_of_lt (Nat.zero_lt_of_lt hdepth))
  exact (Form.readable_of_grammatical h).readAt (Nat.zero_le 5) (Nat.zero_le _) d rest
    (Nat.le_of_lt_succ hdepth) hlaid hstops

end PromqlGuide
