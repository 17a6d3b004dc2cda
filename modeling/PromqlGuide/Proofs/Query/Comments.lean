import PromqlGuide.Proofs.Grammar.Unique
import PromqlGuide.Proofs.Query.Expression
import PromqlGuide.Proofs.Written.Comment
import PromqlGuide.Proofs.Written.Spacing

/-!
# Further comments

A comment that is put in front of a lexeme of a query leaves its expression as it is, but for the
texts, everywhere but behind the name of a function: there the query is rejected
(`Query.parse_comment_iff`).  The reader of function names looks for the parenthesis that makes a
name one of a function, and looks over whitespace only.
-/
namespace PromqlGuide

open Text Written

/-- The text of a comment and the end of its line. -/
def Text.commentLine (comment : List Char) : List Char := '#' :: comment ++ ['\n']

namespace Lexeme

/-- No function name has a comment behind it. -/
lemma ne_function_of_comment {ls ms : List Lexeme} {l : Lexeme} {tail gap comment : List Char}
    (h : LaidOut (ls ++ l :: ms) tail) (hgap : l.gap = gap ++ commentLine comment) :
    ∀ k ∈ ls.getLast?, k.kind ≠ .token .functionName := by
  intro k hlast hk
  obtain ⟨ks, rfl⟩ := List.getLast?_eq_some_iff.1 hlast
  obtain ⟨hls, hl, -⟩ := laidOut_append.1 h
  obtain ⟨-, -, hstops, -⟩ := laidOut_append.1 hls
  obtain ⟨c, cs, htext, hc⟩ := Lexical.opens_of_spells hl.2.2
  simp only [hk, htext, writtenAll_cons, writtenAll_nil, List.nil_append, List.append_assoc,
    List.cons_append] at hstops
  have hspace := ((opensCall_append hl.1 (Lexical.not_blank_of_opens hl.2.1 hc).1 _).1 hstops).1
  exact absurd (hspace '#' (by simp [hgap, commentLine])) (by decide)

/-- Lexemes stay laid out if a comment is put in front of one that no function name precedes. -/
lemma laidOut_insert {ls ms : List Lexeme} {l : Lexeme} {tail comment : List Char}
    (h : LaidOut (ls ++ l :: ms) tail) (hcomment : '\n' ∉ comment)
    (hlast : ∀ k ∈ ls.getLast?, k.kind ≠ .token .functionName) :
    LaidOut (ls ++ { l with gap := l.gap ++ commentLine comment } :: ms) tail := by
  obtain ⟨hls, hl, hstops, hms⟩ := laidOut_append.1 h
  refine laidOut_append.2 ⟨laidOut_congr hls fun k hk => ?_,
    ⟨isGap_append hl.1 (isGap_comment hcomment), hl.2⟩, hstops, hms⟩
  cases hgap : l.gap with
  | nil => exact Lexical.stopsAt_blank (hlast k hk) (Or.inr rfl) _
  | cons c gap => exact Lexical.stopsAt_blank (hlast k hk) (head_of_isGap (hgap ▸ hl.1)) _

/-- Lexemes stay laid out if a comment is taken away in front of a parenthesis. -/
lemma laidOut_remove {ls ms : List Lexeme} {l : Lexeme} {tail gap comment cs : List Char}
    (h : LaidOut (ls ++ l :: ms) tail) (hgap : l.gap = gap ++ commentLine comment)
    (hclosed : isGap gap = true) (hl : l.text = '(' :: cs) :
    LaidOut (ls ++ { l with gap := gap } :: ms) tail := by
  have hlast := ne_function_of_comment h hgap
  obtain ⟨hls, hproper, hstops, hms⟩ := laidOut_append.1 h
  refine laidOut_append.2 ⟨laidOut_congr hls fun k hk => ?_, ⟨hclosed, hproper.2⟩, hstops, hms⟩
  simp only [writtenAll_cons, hl]
  cases gap with
  | nil => exact Lexical.stopsAt_paren (hlast k hk) _
  | cons c gap => exact Lexical.stopsAt_blank (hlast k hk) (head_of_isGap hclosed) _

/-- What is written is divided in front of the text of a lexeme. -/
lemma writtenAll_at (ls : List Lexeme) (l : Lexeme) (ms : List Lexeme) (tail : List Char) :
    writtenAll (ls ++ l :: ms) ++ tail =
      (writtenAll ls ++ l.gap) ++ (l.text ++ (writtenAll ms ++ tail)) := by
  simp

/-- A place in front of a word divides lexemes in one way. -/
lemma eq_of_division {ls ls' ms ms' : List Lexeme} {l l' : Lexeme}
    (h : ls ++ l :: ms = ls' ++ l' :: ms') (hproper : ∀ k ∈ ls ++ l :: ms, k.Proper)
    (hplace : writtenAll ls ++ l.gap = writtenAll ls' ++ l'.gap) : ls = ls' := by
  induction ls generalizing ls' with
  | nil =>
    cases ls' with
    | nil => rfl
    | cons k ls' =>
      obtain ⟨rfl, -⟩ := List.cons.inj h
      have hne := Lexical.ne_nil_of_spells (hproper l (by simp)).2.2
      simp [hne] at hplace
  | cons k ls ih =>
    cases ls' with
    | nil =>
      obtain ⟨rfl, -⟩ := List.cons.inj h
      have hne := Lexical.ne_nil_of_spells (hproper k (by simp)).2.2
      simp [hne] at hplace
    | cons k' ls' =>
      obtain ⟨rfl, hmore⟩ := List.cons.inj h
      have hrest : writtenAll ls ++ l.gap = writtenAll ls' ++ l'.gap := by
        simpa using hplace
      rw [ih hmore (fun m hm => hproper m (List.mem_cons_of_mem k hm)) hrest]

end Lexeme

namespace Written

/-- A query is written as lexemes with blank text behind them. -/
lemma Writes.exists_tail {depth : Nat} {query : List Char} {e : Written}
    (he : e.Writes depth query) :
    ∃ tail, isTail tail = true ∧ Lexeme.LaidOut e.lexemes tail ∧
      query = Lexeme.writtenAll e.lexemes ++ tail := by
  obtain ⟨tail, htail, hlaid, rfl⟩ := he.laidOut
  exact ⟨tail, htail, by simpa [Laid, lexemesAll] using hlaid, rfl⟩

/-- A tree is written again with other gaps. -/
lemma Writes.exists_alike {depth : Nat} {query tail : List Char} {e : Written}
    (he : e.Writes depth query) (ms : List Lexeme) (hms : ms.map Lexeme.toWord = e.words)
    (hlaid : Lexeme.LaidOut ms tail) (htail : isTail tail = true) :
    ∃ e', Alike e e' ∧ e'.lexemes = ms ∧ e'.Writes depth (Lexeme.writtenAll ms ++ tail) := by
  obtain ⟨e', halike, rfl⟩ := Written.exists_alike e hms
  exact ⟨e', halike, rfl, halike.grammatical he.grammatical, halike.nesting ▸ he.nesting_lt, tail,
    htail, by simpa [Laid, lexemesAll] using hlaid, rfl⟩

end Written

namespace Query

variable {limits : Limits} {query comment : List Char} {a : Expr} {before : List Lexeme}
    {offset : Nat}

/-- Whether a lexeme of a query begins at an offset, behind the given ones. -/
def Begins (limits : Limits) (query : List Char) (before : List Lexeme) (offset : Nat) : Prop :=
  ∃ (e : Written) (l : Lexeme) (ms : List Lexeme), e.Writes limits.rules query ∧
    e.lexemes = before ++ l :: ms ∧ offset = (Lexeme.writtenAll before ++ l.gap).length

/-- A query with a comment put in at an offset. -/
def withComment (query comment : List Char) (offset : Nat) : List Char :=
  query.take offset ++ (commentLine comment ++ query.drop offset)

/-- A comment between two texts is the end of a line between them. -/
lemma withComment_append (before after comment : List Char) :
    withComment (before ++ after) comment before.length =
      before ++ (commentLine comment ++ after) := by
  rw [withComment, List.take_left, List.drop_left]

/-- A comment in front of the text of a lexeme stands at the end of its gap. -/
lemma withComment_writtenAll (before : List Lexeme) (l : Lexeme) (ms : List Lexeme)
    (comment tail : List Char) :
    withComment (Lexeme.writtenAll (before ++ l :: ms) ++ tail) comment
        (Lexeme.writtenAll before ++ l.gap).length =
      (Lexeme.writtenAll before ++ l.gap) ++
        (commentLine comment ++ (l.text ++ (Lexeme.writtenAll ms ++ tail))) := by
  rw [Lexeme.writtenAll_at, withComment_append]

/-- What stands behind the name of a function is a parenthesis. -/
lemma paren_of_function {e : Written} {ks ms : List Lexeme} {k l : Lexeme}
    (he : e.Writes limits.rules query) (hlexemes : e.lexemes = ks ++ k :: l :: ms)
    (hl : l.Proper) (hk : k.kind = .token .functionName) : l.text = ['('] := by
  have hcalls := (bracketed_of_grammatical he.grammatical).calls
  rw [hlexemes] at hcalls
  exact (hl.mark (hcalls.paren_of_function hk)).2

/-- Where no function name is in front, a comment changes nothing but the texts. -/
lemma parse_comment (h : (parseChars limits query).outcome = .ok a)
    (hbegins : Begins limits query before offset)
    (hcomment : '\n' ∉ comment)
    (hlast : ∀ k ∈ before.getLast?, k.kind ≠ .token .functionName) :
    ∃ a', (parseChars limits (withComment query comment offset)).outcome = .ok a' ∧
      a'.retext (fun _ => "") = a.retext (fun _ => "") := by
  obtain ⟨e, l, ms, he, hlexemes, rfl⟩ := hbegins
  obtain ⟨e', n, hmeans⟩ := outcome_eq_ok_iff.1 h
  obtain rfl := he.unique hmeans.writes
  obtain ⟨tail, htail, hlaid, hquery⟩ := he.exists_tail
  rw [hlexemes] at hlaid hquery
  -- The tree is written again, with the comment at the end of the gap.
  obtain ⟨e', halike, hlexemes', hwrites⟩ := he.exists_alike
    (before ++ { l with gap := l.gap ++ commentLine comment } :: ms)
    (by simp [words, hlexemes]) (Lexeme.laidOut_insert hlaid hcomment hlast) htail
  have hcommented : withComment query comment (Lexeme.writtenAll before ++ l.gap).length =
      Lexeme.writtenAll (before ++ { l with gap := l.gap ++ commentLine comment } :: ms) ++
        tail := by
    rw [hquery, withComment_writtenAll]
    simp
  rw [← hcommented] at hwrites
  obtain ⟨n', hn'⟩ := exists_node_of_isNode (isNode_of_grammatical hwrites.grammatical) 0
  have htwin := twin_of_alike halike (formed_of_grammatical he.grammatical) (stands_of_writes he)
    (stands_of_writes hwrites) hmeans.item hn'
  obtain ⟨a', ha', hsame⟩ := exists_same_of_twin hmeans.result hmeans.depth_le htwin hwrites hn'
  exact ⟨a', ha', hsame.symm⟩

/-- Behind a function name, a query with a comment is rejected. -/
lemma not_parse_comment (hbegins : Begins limits query before offset) (hcomment : '\n' ∉ comment)
    {k : Lexeme} (hlast : k ∈ before.getLast?) (hk : k.kind = .token .functionName) (a' : Expr) :
    (parseChars limits (withComment query comment offset)).outcome ≠ .ok a' := by
  obtain ⟨e, l, ms, he, hlexemes, rfl⟩ := hbegins
  intro ha'
  obtain ⟨tail, htail, hlaid, hquery⟩ := he.exists_tail
  rw [hlexemes] at hlaid hquery
  have hproper := hlaid.proper
  obtain ⟨ks, rfl⟩ := List.getLast?_eq_some_iff.1 hlast
  have hparen : l.text = ['('] :=
    paren_of_function he (by simpa using hlexemes) (hproper l (by simp)) hk
  have hscan : ScanState.outside.scan (Lexeme.writtenAll (ks ++ [k]) ++ l.gap) = .outside := by
    rw [ScanState.scan_append, Lexeme.scan_writtenAll fun m hm =>
      hproper m (List.mem_append_left _ hm)]
    exact scan_of_isGap (hproper l (by simp)).1
  -- Any tree written as the query with the comment has the comment in the gap of a parenthesis.
  obtain ⟨e', n', hmeans⟩ := outcome_eq_ok_iff.1 ha'
  obtain ⟨tail', htail', hlaid', hquery'⟩ := hmeans.writes.exists_tail
  rw [hquery, withComment_writtenAll] at hquery'
  have hwritten : Lexeme.writtenAll e'.lexemes ++ tail' =
    (Lexeme.writtenAll (ks ++ [k]) ++ l.gap) ++
      ('#' :: comment ++ '\n' :: (l.text ++ (Lexeme.writtenAll ms ++ tail))) := by
    rw [← hquery']
    simp [commentLine]
  obtain ⟨ls, m, ms', gap, hlexemes', hgap, hclosed, hbefore, hafter⟩ :=
    Lexeme.exists_gap_of_comment hlaid'.proper htail' hscan hcomment
      ((hproper l (by simp)).visible _) (by simp [hparen]) hwritten
  have hstart : ∃ cs, m.text = '(' :: cs := by
    obtain ⟨c, cs, htext, -⟩ := Lexical.opens_of_spells (hlaid'.proper m (by simp [hlexemes'])).2.2
    rw [hparen, htext] at hafter
    exact ⟨cs, htext.trans (congrArg (· :: cs) (List.cons.inj hafter).1.symm)⟩
  obtain ⟨cs, hstart⟩ := hstart
  rw [hlexemes'] at hlaid'
  -- Without the comment it is written as the query, so it divides the query in the same way.
  obtain ⟨e'', -, hlexemes'', hwrites⟩ := hmeans.writes.exists_alike
    (ls ++ { m with gap := gap } :: ms') (by simp [words, hlexemes'])
    (Lexeme.laidOut_remove hlaid' hgap hclosed hstart) htail'
  have hsame : Lexeme.writtenAll (ls ++ { m with gap := gap } :: ms') ++ tail' = query := by
    rw [hquery, Lexeme.writtenAll_at, Lexeme.writtenAll_at, hbefore, hafter]
  rw [hsame] at hwrites
  obtain rfl := he.unique hwrites
  obtain rfl : ks ++ [k] = ls :=
    Lexeme.eq_of_division (hlexemes.symm.trans hlexemes'') hproper hbefore
  exact Lexeme.ne_function_of_comment hlaid' hgap k hlast hk

/-- A comment in front of a lexeme changes nothing but the texts in the expression of a query,
unless the lexeme is behind the name of a function. -/
theorem parse_comment_iff (h : (parseChars limits query).outcome = .ok a)
    (hbegins : Begins limits query before offset) (hcomment : '\n' ∉ comment) :
    (∃ a', (parseChars limits (withComment query comment offset)).outcome = .ok a' ∧
        a'.retext (fun _ => "") = a.retext (fun _ => "")) ↔
      ∀ k ∈ before.getLast?, k.kind ≠ .token .functionName := by
  refine ⟨?_, parse_comment h hbegins hcomment⟩
  rintro ⟨a', ha', -⟩ k hlast hk
  exact not_parse_comment hbegins hcomment hlast hk a' ha'

/-- The lexeme of a call's function in `f(x)`. -/
def calledFunction : Lexeme := ⟨⟨.token .functionName, ['f']⟩, []⟩

/-- The call `f(x)`. -/
def calledOnce : Written :=
  .phrase .call
    [.lexeme calledFunction,
      .phrase .callBody
        [.lexeme ⟨⟨.mark '(', ['(']⟩, []⟩,
          .phrase .vectorSelector [.lexeme ⟨⟨.token .metricName, ['x']⟩, []⟩],
          .lexeme ⟨⟨.mark ')', [')']⟩, []⟩]]

/-- The call is written as its query. -/
lemma writes_calledOnce : calledOnce.Writes Limits.usual.rules ['f', '(', 'x', ')'] := by
  have hmetric : Grammatical Clear
      (.phrase .vectorSelector [.lexeme ⟨⟨.token .metricName, ['x']⟩, []⟩]) :=
    .named rfl (by decide +kernel) (Or.inl rfl)
  refine ⟨.call ⟨_, rfl, rfl⟩ ⟨_, [_], _, rfl, ⟨_, rfl, rfl⟩, .one rfl, ⟨_, rfl, rfl⟩⟩ ?_,
    by decide +kernel, [], rfl, ?_, rfl⟩
  · simpa [isNode] using hmetric
  · have hlaid : Lexeme.LaidOut (lexemesAll [calledOnce]) [] := by decide +kernel
    exact hlaid

/-- A comment between `f` and the parenthesis of `f(x)` stands behind the name of a function. -/
theorem parse_comment_calledOnce :
    (parseChars .usual ['f', '(', 'x', ')']).outcome =
      .ok (.call "f(x)" "f" [.vector "x" "x" [] none]) ∧
      Begins .usual ['f', '(', 'x', ')'] [calledFunction] 1 ∧ '\n' ∉ ['c'] ∧
      ((∃ a', (parseChars .usual (withComment ['f', '(', 'x', ')'] ['c'] 1)).outcome = .ok a' ∧
          a'.retext (fun _ => "") = (Expr.call "f(x)" "f" [.vector "x" "x" [] none]).retext
            fun _ => "") ↔
        ∀ k ∈ [calledFunction].getLast?, k.kind ≠ .token .functionName) := by
  have h : (parseChars .usual ['f', '(', 'x', ')']).outcome =
      .ok (.call "f(x)" "f" [.vector "x" "x" [] none]) := rfl
  have hbegins : Begins .usual ['f', '(', 'x', ')'] [calledFunction] 1 :=
    ⟨calledOnce, _, _, writes_calledOnce, rfl, rfl⟩
  have hcomment : '\n' ∉ ['c'] := by decide
  exact ⟨h, hbegins, hcomment, parse_comment_iff h hbegins hcomment⟩

end Query

end PromqlGuide
