import PromqlGuide.Proofs.Token.Durations

/-!
# Duration tokens and what they last

Two readers go through the text of a duration: one looks for the end of the token, the other for
parts whose milliseconds it adds up.  They divide every text in the same way, although `m`, `s` and
`ms` share their letters.

Main statement: what is written as parts is one token and lasts as long as its parts, and every
token is written as parts in one way (`Duration.tokens_last_as_written`).

A token is not always over behind the last part that somebody wrote down: a digit of another script
is no character of a name, so parts that start with one still belong to the token.  And a token may
have more digits in a row than a numeral can.
-/
namespace PromqlGuide

open Text

namespace Duration

variable {ps qs : List DurationPart} {cs ds : List Char}

/-- Texts that last some time together last what they last one by one. -/
lemma read_append (h : Writes ps cs) (h' : Writes qs ds)
    (hshort : ∀ p ∈ ps ++ qs, p.digits.length ≤ numeralLimit) (hps : sum ps ≠ 0)
    (hqs : sum qs ≠ 0) :
    read cs = .ok (sum ps) ∧ read ds = .ok (sum qs) ∧ read (cs ++ ds) = .ok (sum ps + sum qs) := by
  have hboth : sum (ps ++ qs) ≠ 0 := by
    rw [sum_append]
    omega
  obtain ⟨hpshort, hqshort⟩ := List.forall_mem_append.1 hshort
  refine ⟨?_, ?_, ?_⟩
  · rw [read_of_writes h hpshort, span_of_sum_ne_zero hps]
  · rw [read_of_writes h' hqshort, span_of_sum_ne_zero hqs]
  · rw [read_of_writes (h.append h') hshort, span_of_sum_ne_zero hboth, sum_append]

/-- The token at the start of a text is written as parts, in one way. -/
lemma existsUnique_writes {n : Nat} (h : tokenLength? cs = some n) :
    ∃! ps, ps ≠ [] ∧ Writes ps (cs.take n) := by
  obtain ⟨hpos, hle⟩ := tokenLength_advancing cs n h
  have hlength : (cs.take n).length = n := List.length_take_of_le hle
  have hwrites : Writes (parts (cs.take n)) (cs.take n) := by
    refine writes_parts ?_
    rw [hlength]
    exact tokenLength_take h
  refine ⟨parts (cs.take n), ⟨?_, hwrites⟩, fun ps hps => (parts_of_writes hps.2).symm⟩
  intro hnil
  have hempty : cs.take n = [] := by rw [hwrites.text, hnil, List.flatMap_nil]
  rw [hempty] at hlength
  exact absurd hlength (Nat.ne_of_lt hpos)

/-- Some parts of durations, one after another, make up a token, together with the token behind them
if there is one.  These parts are found in the text again, it lasts as long as they do or else five
minutes, and two such texts together last as long as both.  Every token is written as parts in one
way. -/
theorem tokens_last_as_written :
    (∀ ps cs, ps ≠ [] → Writes ps cs → (∀ p ∈ ps, p.digits.length ≤ numeralLimit) →
      (∀ rest, endsBefore isNamePart rest = true →
        tokenLength? (cs ++ rest) = some (cs.length + (tokenLength? rest).getD 0)) ∧
      parts cs = ps ∧ cs = ps.flatMap DurationPart.text ∧
      read cs = .ok (if sum ps = 0 then 300000 else sum ps)) ∧
    (∀ ps qs cs ds, Writes ps cs → Writes qs ds →
      (∀ p ∈ ps ++ qs, p.digits.length ≤ numeralLimit) → sum ps ≠ 0 → sum qs ≠ 0 →
      ∃ a b, read cs = .ok a ∧ read ds = .ok b ∧ read (cs ++ ds) = .ok (a + b)) ∧
    ∀ cs n, tokenLength? cs = some n → ∃! ps, ps ≠ [] ∧ Writes ps (cs.take n) := by
  refine ⟨?_, ?_, fun cs n h => existsUnique_writes h⟩
  · intro ps cs hne h hshort
    exact ⟨fun rest hends => tokenLength_append_of_writes hne h hends, parts_of_writes h, h.text,
      read_of_writes h hshort⟩
  · intro ps qs cs ds h h' hshort hps hqs
    obtain ⟨hcs, hds, hboth⟩ := read_append h h' hshort hps hqs
    exact ⟨sum ps, sum qs, hcs, hds, hboth⟩

/-- Two parts whose units start alike, the second one with an Arabic digit. -/
theorem minutes_and_milliseconds_last_as_written :
    (tokenLength? ['1', 'm', '\u0663', 'm', 's', ' ', '>', ' ', '2'] = some 5 ∧
      read ['1', 'm', '\u0663', 'm', 's'] = .ok 60003) ∧
    (∃ a b, read ['1', 'm'] = .ok a ∧ read ['\u0663', 'm', 's'] = .ok b ∧
      read (['1', 'm'] ++ ['\u0663', 'm', 's']) = .ok (a + b)) ∧
    ∃! ps, ps ≠ [] ∧ Writes ps (['1', 'm', '\u0663', 'm', 's', ' ', '>', ' ', '2'].take 5) := by
  have hminute : Writes [⟨['1'], .minute⟩] ['1', 'm'] := ⟨by decide, rfl⟩
  have hmillis : Writes [⟨['\u0663'], .millisecond⟩] ['\u0663', 'm', 's'] := ⟨by decide, rfl⟩
  obtain ⟨hwhole, hsum, htoken⟩ := tokens_last_as_written
  obtain ⟨hlength, -, -, hread⟩ := hwhole _ _ (by decide) (hminute.append hmillis) (by decide)
  have hfive := hlength [' ', '>', ' ', '2'] (by decide)
  have htotal : sum ([⟨['1'], .minute⟩] ++ [⟨['\u0663'], .millisecond⟩]) = 60003 := by decide
  rw [htotal, if_neg (by decide)] at hread
  exact ⟨⟨hfive, hread⟩, hsum _ _ _ _ hminute hmillis (by decide) (by decide) (by decide),
    htoken _ _ hfive⟩

/-- A token with more digits than a numeral may have, and one that goes on behind its first part
although no character of a name follows. -/
theorem tokens_beyond_short_parts :
    (tokenLength? (List.replicate (numeralLimit + 1) '1' ++ ['s']) = some (numeralLimit + 2) ∧
      ¬∃ ps, Writes ps (List.replicate (numeralLimit + 1) '1' ++ ['s']) ∧
        ∀ p ∈ ps, p.digits.length ≤ numeralLimit) ∧
    (Writes [⟨['5'], .minute⟩] ['5', 'm'] ∧ endsBefore isNamePart ['\u0663', 'h'] = true ∧
      tokenLength? (['5', 'm'] ++ ['\u0663', 'h']) ≠ some 2) := by
  have hdigits : ∀ c ∈ List.replicate (numeralLimit + 1) '1', isDigit c = true := by
    intro c hc
    obtain ⟨-, rfl⟩ := List.mem_replicate.1 hc
    decide
  have hwrites : Writes [⟨List.replicate (numeralLimit + 1) '1', .second⟩]
      (List.replicate (numeralLimit + 1) '1' ++ ['s']) :=
    writes_singleton (by simp) hdigits .second
  have hlength := tokenLength_of_writes (List.cons_ne_nil _ _) hwrites
  rw [List.length_append, List.length_replicate] at hlength
  refine ⟨⟨hlength, ?_⟩, ⟨by decide, by decide⟩, by decide, by decide⟩
  rintro ⟨ps, hps, hshort⟩
  obtain rfl := (parts_of_writes hps).symm.trans (parts_of_writes hwrites)
  have hlong := hshort _ List.mem_cons_self
  rw [List.length_replicate] at hlong
  exact absurd hlong (Nat.not_succ_le_self _)

end Duration

end PromqlGuide
