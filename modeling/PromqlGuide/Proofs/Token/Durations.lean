import PromqlGuide.Proofs.Token.Numbers

/-!
# The parts of durations

A duration token is one part after another, each written as some digits and the letters of a unit
(`Duration.writes_parts`), and the parts that are found in its text are these
(`Duration.parts_of_writes`).  Every text that is written as parts is a duration token
(`Duration.tokenLength_of_writes`), and is read as what the parts last together
(`Duration.read_of_writes`).
-/
namespace PromqlGuide

open Text

/-- A unit of one letter is found where no longer one starts. -/
lemma TimeUnit.first?_cons {c : Char} {cs : List Char} (hunit : (first? [c]).isSome = true)
    (hlonger : c = 'm' → cs.head? ≠ some 's') :
    ∃ u, first? (c :: cs) = some u ∧ u.letters = [c] := by
  have hletters : ∀ u : TimeUnit, u.letters = [c] → ∃ u, first? (c :: cs) = some u ∧
    u.letters = [c] := by
    intro u hu
    have hfirst := first?_letters u cs fun hminute =>
      hlonger (by simpa [hminute, letters] using hu.symm)
    rw [hu] at hfirst
    exact ⟨u, hfirst, hu⟩
  unfold first? at hunit
  split at hunit
  · next heq => cases heq
  · next heq => cases heq; exact hletters second rfl
  · next heq => cases heq; exact hletters minute rfl
  · next heq => cases heq; exact hletters hour rfl
  · next heq => cases heq; exact hletters day rfl
  · next heq => cases heq; exact hletters week rfl
  · next heq => cases heq; exact hletters year rfl
  · cases hunit

namespace Duration

variable {run cs : List Char} {ps : List DurationPart}

/-- Whether a text is written as parts, one after the other, each with digits in front of its
unit. -/
structure Writes (ps : List DurationPart) (cs : List Char) : Prop where
  digits : ∀ p ∈ ps, p.digits ≠ [] ∧ ∀ c ∈ p.digits, isDigit c = true
  text : cs = ps.flatMap DurationPart.text

/-- The empty text has no parts. -/
lemma writes_nil : Writes [] [] := ⟨by simp, rfl⟩

/-- Digits and a unit write one part. -/
lemma writes_singleton {ds : List Char} (hne : ds ≠ []) (hds : ∀ c ∈ ds, isDigit c = true)
    (u : TimeUnit) : Writes [⟨ds, u⟩] (ds ++ u.letters) := by
  refine ⟨fun p hp => ?_, (List.append_nil _).symm⟩
  obtain rfl := List.mem_singleton.1 hp
  exact ⟨hne, hds⟩

/-- Two texts write the parts of the one and then those of the other. -/
lemma Writes.append (h : Writes ps cs) {qs : List DurationPart} {ds : List Char}
    (h' : Writes qs ds) :
    Writes (ps ++ qs) (cs ++ ds) :=
  ⟨List.forall_mem_append.2 ⟨h.digits, h'.digits⟩, by rw [h.text, h'.text, List.flatMap_append]⟩

/-- Digits and a unit in front of a text write one more part. -/
lemma Writes.cons (h : Writes ps cs) (hne : run ≠ []) (hrun : ∀ c ∈ run, isDigit c = true)
    (u : TimeUnit) : Writes (⟨run.reverse, u⟩ :: ps) (run.reverse ++ (u.letters ++ cs)) := by
  have hfirst := writes_singleton (List.reverse_ne_nil_iff.2 hne) (by simpa using hrun) u
  simpa using hfirst.append h

/-- A unit behind digits ends a part. -/
lemma partsFrom_unit {c : Char} {u : TimeUnit} (hdigit : isDigit c = false) (hne : run ≠ [])
    (hunit : TimeUnit.first? (c :: cs) = some u) :
    partsFrom run (c :: cs) = ⟨run.reverse, u⟩ :: partsFrom [] cs := by
  simp [partsFrom, hdigit, hne, hunit]

/-- The letters of a unit end a part. -/
lemma partsFrom_letters {u : TimeUnit} (hne : run ≠ [])
    (hlonger : u = .minute → cs.head? ≠ some 's') :
    partsFrom run (u.letters ++ cs) = ⟨run.reverse, u⟩ :: partsFrom [] cs := by
  have hfirst := TimeUnit.first?_letters u cs hlonger
  cases u with
  | millisecond =>
    have hsecond : partsFrom [] ('s' :: cs) = partsFrom [] cs := by
      simp [partsFrom, show isDigit 's' = false by decide]
    rw [← hsecond]
    exact partsFrom_unit (by decide) hne hfirst
  | second | minute | hour | day | week | year => exact partsFrom_unit (by decide) hne hfirst

/-- Behind a part there are further parts, or nothing. -/
lemma writes_behind (h : tokenRun.endOr cs (tokenRun false cs) = some cs.length)
    (hparts : tokenRun false cs = some cs.length → Writes (partsFrom [] cs) cs) :
    Writes (partsFrom [] cs) cs := by
  cases hrun : tokenRun false cs with
  | some n =>
    rw [hrun] at h
    obtain rfl : n = cs.length := by simpa [tokenRun.endOr] using h
    exact hparts hrun
  | none =>
    rw [hrun] at h
    have hlength : cs.length = 0 := by
      unfold tokenRun.endOr at h
      dsimp only at h
      split_ifs at h
      exact (Option.some.inj h).symm
    rw [List.eq_nil_of_length_eq_zero hlength]
    exact writes_nil

/-- Parts that are read to the end of a text are found in it, and nothing else is in the text. -/
lemma writes_partsFrom {inRun : Bool} (h : tokenRun inRun cs = some cs.length)
    (hrun : ∀ c ∈ run, isDigit c = true) (hinRun : inRun = true ↔ run ≠ []) :
    Writes (partsFrom run cs) (run.reverse ++ cs) := by
  fun_induction tokenRun inRun cs generalizing run with
  | case1 => cases h
  | case2 cs ih =>
    have hne := hinRun.1 rfl
    have hmore : Writes (partsFrom [] cs) cs := by
      refine writes_behind ?_ fun hcs => ih hcs (by simp) (by simp)
      simpa using h
    have hparts : partsFrom run ('m' :: 's' :: cs) = _ :: partsFrom [] cs :=
      partsFrom_letters (u := .millisecond) hne fun hminute => absurd hminute (by decide)
    rw [hparts]
    exact hmore.cons hne hrun .millisecond
  | case3 => cases h
  | case4 inRun c cs _ hdigit ih =>
    have hdigits : ∀ d ∈ c :: run, isDigit d = true := List.forall_mem_cons.2 ⟨hdigit, hrun⟩
    have hmore := ih (by simpa using h) hdigits (by simp)
    rw [partsFrom, if_pos hdigit]
    simpa using hmore
  | case5 inRun c cs hlonger hdigit hunit ih =>
    obtain ⟨hin, hunit⟩ := Bool.and_eq_true_iff.1 hunit
    have hne := hinRun.1 hin
    have hmore : Writes (partsFrom [] cs) cs := by
      refine writes_behind ?_ fun hcs => ih hcs (by simp) (by simp)
      simpa using h
    have hsingle : c = 'm' → cs.head? ≠ some 's' := by
      intro hm hhead
      obtain ⟨ds, rfl⟩ := List.head?_eq_some_iff.1 hhead
      exact hlonger ds hm rfl
    obtain ⟨u, hfirst, hletters⟩ := TimeUnit.first?_cons hunit hsingle
    rw [partsFrom_unit (Bool.not_eq_true _ ▸ hdigit) hne hfirst]
    have hwrites := hmore.cons hne hrun u
    rwa [hletters] at hwrites
  | case6 => cases h

/-- The text of a duration token is written as the parts that are found in it. -/
theorem writes_parts (h : tokenLength? cs = some cs.length) : Writes (parts cs) cs := by
  have hnone : ∀ c ∈ ([] : List Char), isDigit c = true := by simp
  exact writes_partsFrom h hnone (by simp)

/-- Digits are put into the run. -/
lemma partsFrom_digits {ds : List Char} (hds : ∀ c ∈ ds, isDigit c = true) :
    partsFrom run (ds ++ cs) = partsFrom (ds.reverse ++ run) cs := by
  induction ds generalizing run with
  | nil => rfl
  | cons d ds ih =>
    rw [List.forall_mem_cons] at hds
    rw [List.cons_append, partsFrom, if_pos hds.1, ih hds.2, List.reverse_cons, List.append_assoc]
    rfl

/-- The text of parts does not start with the second letter of the shortest unit. -/
lemma head_ne_of_writes (h : Writes ps cs) : cs.head? ≠ some 's' := by
  obtain ⟨hdigits, rfl⟩ := h
  intro hhead
  cases ps with
  | nil => cases hhead
  | cons q ps =>
    obtain ⟨hq, hqdigits⟩ := hdigits q List.mem_cons_self
    obtain ⟨d, ds, hds⟩ := List.exists_cons_of_ne_nil hq
    rw [List.flatMap_cons, DurationPart.text, hds] at hhead
    cases hhead
    exact absurd (hqdigits 's' (by simp [hds])) (by decide)

/-- Neither does it with a text behind it, unless that goes on with a name. -/
lemma head_append_ne_of_writes (h : Writes ps cs) {rest : List Char}
    (hends : endsBefore isNamePart rest = true) : (cs ++ rest).head? ≠ some 's' := by
  have hhead := head_ne_of_writes h
  cases cs with
  | nil =>
    intro hrest
    obtain ⟨ds, rfl⟩ := List.head?_eq_some_iff.1 hrest
    cases hends
  | cons c cs => simpa using hhead

/-- A text is written as parts in one way. -/
theorem parts_of_writes (h : Writes ps cs) : parts cs = ps := by
  obtain ⟨hdigits, rfl⟩ := h
  induction ps with
  | nil => rfl
  | cons p ps ih =>
    rw [List.forall_mem_cons] at hdigits
    obtain ⟨⟨hne, hp⟩, hps⟩ := hdigits
    have hlonger := head_ne_of_writes ⟨hps, rfl⟩
    rw [List.flatMap_cons, DurationPart.text, List.append_assoc, parts, partsFrom_digits hp,
      List.append_nil, partsFrom_letters (by simpa using hne) fun _ =>
        hlonger, List.reverse_reverse]
    exact congrArg _ (ih hps)

/-! ### Reading what is written -/

/-- A token goes on behind its digits. -/
lemma tokenRun_digits {inRun : Bool} {ds : List Char} (hne : ds ≠ [])
    (hds : ∀ c ∈ ds, isDigit c = true) :
    tokenRun inRun (ds ++ cs) = (tokenRun true cs).map (· + ds.length) := by
  induction ds generalizing inRun with
  | nil => exact absurd rfl hne
  | cons d ds ih =>
    rw [List.forall_mem_cons] at hds
    have hfirst : tokenRun inRun (d :: (ds ++ cs)) = (tokenRun true (ds ++ cs)).map (· + 1) := by
      rw [tokenRun_cons, if_pos hds.1]
      rintro rfl
      exact absurd hds.1 (by decide)
    rw [List.cons_append, hfirst]
    by_cases hmore : ds = []
    · simp [hmore]
    · rw [ih hmore hds.2, Option.map_map]
      congr 1

/-- Where the token may end it reaches as far as its parts do. -/
lemma endOr_of_endsBefore (h : endsBefore isNamePart cs = true) :
    tokenRun.endOr cs (tokenRun false cs) = some ((tokenLength? cs).getD 0) := by
  rw [tokenLength?]
  cases tokenRun false cs with
  | some n => rfl
  | none => exact if_pos h

/-- Behind digits, the letters of a unit are read, and what is left may be further parts. -/
lemma tokenRun_letters {u : TimeUnit} (hlonger : u = .minute → cs.head? ≠ some 's') :
    tokenRun true (u.letters ++ cs) =
      (tokenRun.endOr cs (tokenRun false cs)).map (· + u.letters.length) := by
  have hletter : ∀ c : Char, isDigit c = false → (TimeUnit.first? [c]).isSome = true →
      (c = 'm' → cs.head? ≠ some 's') →
      tokenRun true (c :: cs) = (tokenRun.endOr cs (tokenRun false cs)).map (· + 1) := by
    intro c hdigit hunit hm
    rw [tokenRun_cons hm, if_neg (by simp [hdigit]), if_pos (by simp [hunit])]
  cases u with
  | millisecond => rfl
  | minute => exact hletter 'm' (by decide) rfl fun _ => hlonger rfl
  | second => exact hletter 's' (by decide) rfl (by simp)
  | hour => exact hletter 'h' (by decide) rfl (by simp)
  | day => exact hletter 'd' (by decide) rfl (by simp)
  | week => exact hletter 'w' (by decide) rfl (by simp)
  | year => exact hletter 'y' (by decide) rfl (by simp)

/-- Behind a text of parts the token goes on with the duration token that follows, if there is
one. -/
lemma tokenLength_append_of_writes (hne : ps ≠ []) (h : Writes ps cs) {rest : List Char}
    (hends : endsBefore isNamePart rest = true) :
    tokenLength? (cs ++ rest) = some (cs.length + (tokenLength? rest).getD 0) := by
  obtain ⟨hdigits, rfl⟩ := h
  induction ps with
  | nil => exact absurd rfl hne
  | cons p ps ih =>
    rw [List.forall_mem_cons] at hdigits
    obtain ⟨⟨hrun, hp⟩, hps⟩ := hdigits
    have hbehind : tokenRun.endOr (ps.flatMap DurationPart.text ++ rest)
        (tokenRun false (ps.flatMap DurationPart.text ++ rest)) =
          some ((ps.flatMap DurationPart.text).length + (tokenLength? rest).getD 0) := by
      by_cases hmore : ps = []
      · rw [hmore, List.flatMap_nil, List.nil_append, List.length_nil, Nat.zero_add]
        exact endOr_of_endsBefore hends
      · rw [show tokenRun false _ = _ from ih hmore hps]
        rfl
    have hlonger := head_append_ne_of_writes ⟨hps, rfl⟩ hends
    rw [List.flatMap_cons, DurationPart.text, List.append_assoc, List.append_assoc, tokenLength?,
      tokenRun_digits hrun hp, tokenRun_letters fun _ => hlonger, hbehind]
    simp only [Option.map_some, List.length_append]
    congr 1
    omega

/-- A text that is written as parts is a duration token. -/
theorem tokenLength_of_writes (hne : ps ≠ []) (h : Writes ps cs) :
    tokenLength? cs = some cs.length := by
  have hwhole : tokenLength? (cs ++ []) = some cs.length := tokenLength_append_of_writes hne h rfl
  rwa [List.append_nil] at hwhole

/-- The end of the token is found in the token alone. -/
lemma endOr_take {n : Nat}
    (htake : ∀ k, tokenRun false cs = some k → tokenRun false (cs.take k) = some k)
    (h : tokenRun.endOr cs (tokenRun false cs) = some n) :
    tokenRun.endOr (cs.take n) (tokenRun false (cs.take n)) = some n := by
  cases hrun : tokenRun false cs with
  | some k =>
    rw [hrun] at h
    obtain rfl : k = n := Option.some.inj h
    rw [htake k hrun]
    rfl
  | none =>
    rw [hrun, tokenRun.endOr] at h
    split_ifs at h
    cases h
    rfl

/-- A duration token is one without the text behind it. -/
lemma tokenRun_take {inRun : Bool} {n : Nat} (h : tokenRun inRun cs = some n) :
    tokenRun inRun (cs.take n) = some n := by
  have hhead : ∀ (ds : List Char) (k : Nat), ds.head? ≠ some 's' →
    (ds.take k).head? ≠ some 's' := by
    rintro (_ | ⟨d, ds⟩) (_ | k) <;> simp
  fun_induction tokenRun inRun cs generalizing n with
  | case1 => cases h
  | case2 ds ih =>
    obtain ⟨m, hm, rfl⟩ := Option.map_eq_some_iff.1 h
    have hmore := endOr_take (fun k hk => ih hk) hm
    simp only [List.take_succ_cons, tokenRun, if_true, hmore, Option.map_some]
  | case3 => cases h
  | case4 inRun c ds hlonger hdigit ih =>
    obtain ⟨m, hm, rfl⟩ := Option.map_eq_some_iff.1 h
    have hc : c = 'm' → (ds.take m).head? ≠ some 's' := by
      rintro rfl
      exact absurd hdigit (by decide)
    rw [List.take_succ_cons, tokenRun_cons hc, if_pos hdigit, ih hm, Option.map_some]
  | case5 inRun c ds hlonger hdigit hunit ih =>
    obtain ⟨m, hm, rfl⟩ := Option.map_eq_some_iff.1 h
    have hc : c = 'm' → (ds.take m).head? ≠ some 's' := by
      intro hm'
      refine hhead ds m fun hs => ?_
      obtain ⟨es, rfl⟩ := List.head?_eq_some_iff.1 hs
      exact hlonger es hm' rfl
    have hmore := endOr_take (fun k hk => ih hk) hm
    rw [List.take_succ_cons, tokenRun_cons hc, if_neg hdigit, if_pos hunit, hmore, Option.map_some]
  | case6 => cases h

/-- The token is read from its own text alone. -/
lemma tokenLength_take {n : Nat} (h : tokenLength? cs = some n) :
    tokenLength? (cs.take n) = some n := tokenRun_take h

/-! ### What the parts last -/

/-- What the parts of a duration last together, or five minutes where this is nothing. -/
def span (ps : List DurationPart) : Nat := if sum ps = 0 then fallback else sum ps

/-- Parts that last any time last their sum. -/
lemma span_of_sum_ne_zero (h : sum ps ≠ 0) : span ps = sum ps := if_neg h

/-- Parts behind parts last as long as both together. -/
lemma sum_append (ps qs : List DurationPart) : sum (ps ++ qs) = sum ps + sum qs := by
  induction ps with
  | nil => exact (Nat.zero_add _).symm
  | cons p ps ih => rw [List.cons_append, sum, sum, ih, Nat.add_assoc]

/-- A text of parts within the digit limit is read as what they last. -/
lemma read_of_writes (h : Writes ps cs) (hshort : ∀ p ∈ ps, p.digits.length ≤ numeralLimit) :
    read cs = .ok (span ps) := by
  rw [read, parts_of_writes h, total_eq_ok_iff.2 ⟨hshort, rfl⟩]
  rfl

end Duration

end PromqlGuide
