import PromqlGuide.Proofs.Json.Grammar

/-!
# What is refused in a text

A text that breaks the grammar is malformed. The reader also refuses what the grammar allows: whole
numbers with too many digits, and containers nested too deep. It does so where it comes to them, so
all that stands in front of them is read, and what follows them is not.

Main statements: the texts that are read are those that the grammar has, with nothing refused in
them (`Json.exists_readText_iff`), and the faults of a text other than being malformed are the
refusals that it meets (`Json.readText_eq_error_iff`).
-/
namespace PromqlGuide.Json

open Text

/-! ### Values and what containers hold -/

/-- The character that opens a container. -/
def Container.opening : Container → Char
  | array => '['
  | object => '\x7b'

/-- The character that closes a container. -/
def Container.closing : Container → Char
  | array => ']'
  | object => '\x7d'

/-- What is read: a value, or what a container holds up to its closing character. -/
inductive Part where
  | value
  | inside (container : Container)

/-- `rest` is the value of the member that starts the text, behind its key. -/
inductive KeyEnds : List Char → List Char → Prop where
  | mk {cs after rest : List Char} (hkey : StringEnds cs after)
    (hcolon : skip after = ':' :: rest) :
      KeyEnds ('"' :: cs) (skip rest)

/-- The value of an entry starts at `start`: items are values, and members have a key. -/
def EntryStarts : Container → List Char → List Char → Prop
  | .array, cs, start => start = cs
  | .object, cs, start => KeyEnds cs start

/-- `rest` follows the part at the start of the text, in which containers may be nested up to a
depth. -/
inductive Leads : Part → Nat → List Char → List Char → Prop where
  | string {depth : Nat} {cs rest : List Char} (h : StringEnds cs rest) :
      Leads .value depth ('"' :: cs) rest
  | word {depth : Nat} {w : List Char × Json} (hw : w ∈ words) (rest : List Char) :
      Leads .value depth (w.1 ++ rest) rest
  | number {depth : Nat} {cs rest : List Char} (h : NumberEnds cs rest) : Leads .value depth cs rest
  | empty {depth : Nat} (container : Container) {cs rest : List Char}
      (h : skip cs = container.closing :: rest) :
      Leads .value (depth + 1) (container.opening :: cs) rest
  | container {depth : Nat} (container : Container) {cs rest : List Char}
      (h : Leads (.inside container) depth (skip cs) rest) :
      Leads .value (depth + 1) (container.opening :: cs) rest
  | last {depth : Nat} {container : Container} {cs start after rest : List Char}
      (hentry : EntryStarts container cs start) (hvalue : Leads .value depth start after)
      (hclose : skip after = container.closing :: rest) :
      Leads (.inside container) depth cs rest
  | next {depth : Nat} {container : Container} {cs start after more rest : List Char}
      (hentry : EntryStarts container cs start) (hvalue : Leads .value depth start after)
      (hcomma : skip after = ',' :: more)
      (hmore : Leads (.inside container) depth (skip more) rest) :
      Leads (.inside container) depth cs rest

/-- A value at the start of the text that the grammar has and the reader refuses. -/
inductive Refused : Fault → Nat → List Char → Prop where
  | numeral {depth n : Nat} {cs : List Char} (h : LongNumber n cs) :
      Refused (.numeral (.reading n)) depth cs
  | tooDeep (container : Container) (cs : List Char) :
      Refused (.tooDeep container) 0 (container.opening :: cs)

/-- The first refused value in a part is refused for the given reason; all in front of it is as the
grammar has it. -/
inductive Meets (f : Fault) : Part → Nat → List Char → Prop where
  | here {depth : Nat} {cs : List Char} (h : Refused f depth cs) : Meets f .value depth cs
  | container {depth : Nat} (container : Container) {cs : List Char}
      (h : Meets f (.inside container) depth (skip cs)) :
      Meets f .value (depth + 1) (container.opening :: cs)
  | first {depth : Nat} {container : Container} {cs start : List Char}
      (hentry : EntryStarts container cs start) (h : Meets f .value depth start) :
      Meets f (.inside container) depth cs
  | later {depth : Nat} {container : Container} {cs start after more : List Char}
      (hentry : EntryStarts container cs start) (hvalue : Leads .value depth start after)
      (hcomma : skip after = ',' :: more) (h : Meets f (.inside container) depth (skip more)) :
      Meets f (.inside container) depth cs

/-! ### The reader without the values -/

/-- Goes on behind a key, to its value. -/
def goOnKey (after : List Char) : Except Fault (List Char) :=
  match skip after with
  | ':' :: rest => .ok (skip rest)
  | _ => .error .malformed

/-- The value of an entry, behind its key if it has one. -/
def readEntry : Container → List Char → Except Fault (List Char)
  | .array, cs => .ok cs
  | .object, '"' :: cs => (behind (readString none cs)).bind goOnKey
  | .object, _ => .error .malformed

/-- Goes on behind an entry, to the next one or out of the container. -/
def goOn (container : Container) (more : List Char → Except Fault (List Char))
    (after : List Char) : Except Fault (List Char) :=
  match skip after with
  | [] => .error .malformed
  | c :: rest =>
    if c = container.closing then .ok rest
    else if c = ',' then more (skip rest)
    else .error .malformed

/-- Goes into a container, or past it if it is empty. -/
def enter (container : Container) (inside : Nat → List Char → Except Fault (List Char))
    (depth : Nat)
    (cs : List Char) : Except Fault (List Char) :=
  match depth with
  | 0 => .error (.tooDeep container)
  | depth + 1 =>
    if (skip cs).head? = some container.closing then .ok (skip cs).tail
    else inside depth (skip cs)

/-- What follows a part, read as the reader does with so many steps. -/
def readPart : Nat → Part → Nat → List Char → Except Fault (List Char)
  | 0, _, _, _ => .error .malformed
  | fuel + 1, .value, depth, cs =>
    match cs with
    | '"' :: cs => behind (readString none cs)
    | '[' :: cs => enter .array (readPart fuel (.inside .array)) depth cs
    | '\x7b' :: cs => enter .object (readPart fuel (.inside .object)) depth cs
    | _ =>
      match readWord? cs with
      | some found => .ok found.2
      | none => behind (readNumber readNumeral cs)
  | fuel + 1, .inside container, depth, cs =>
    (readEntry container cs).bind fun start =>
      (readPart fuel .value depth start).bind
        (goOn container (readPart fuel (.inside container) depth))

/-- Behind a key and a colon comes the value. -/
lemma goOnKey_colon {after rest : List Char} (h : skip after = ':' :: rest) :
    goOnKey after = .ok (skip rest) := by
  simp only [goOnKey, h]

/-- A key without a colon behind it is malformed. -/
lemma goOnKey_malformed {after : List Char} (h : ∀ rest, skip after ≠ ':' :: rest) :
    goOnKey after = .error .malformed := by
  unfold goOnKey
  split
  · next rest hrest => exact absurd hrest (h rest)
  · rfl

/-- The closing character ends the container. -/
lemma goOn_closing {container : Container} {more : List Char → Except Fault (List Char)}
    {after rest : List Char} (h : skip after = container.closing :: rest) :
    goOn container more after = .ok rest := by
  rw [goOn, h]
  exact if_pos rfl

/-- Behind a comma comes the next entry. -/
lemma goOn_comma {container : Container} {more : List Char → Except Fault (List Char)}
    {after rest : List Char} (h : skip after = ',' :: rest) :
    goOn container more after = more (skip rest) := by
  have hc : ',' ≠ container.closing := by cases container <;> decide
  rw [goOn, h]
  exact (if_neg hc).trans (if_pos rfl)

/-- Neither a comma nor the closing character behind an entry is malformed. -/
lemma goOn_malformed (container : Container) {more : List Char → Except Fault (List Char)}
    {after : List Char} (hclosing : ∀ rest, skip after ≠ container.closing :: rest)
    (hcomma : ∀ rest, skip after ≠ ',' :: rest) : goOn container more after =
      .error .malformed := by
  unfold goOn
  split
  · rfl
  · next c rest h =>
    rw [if_neg, if_neg]
    · rintro rfl
      exact hcomma rest h
    · rintro rfl
      exact hclosing rest h

/-- An empty container ends at once. -/
lemma enter_closing {container : Container} {inside : Nat → List Char → Except Fault (List Char)}
    {depth : Nat} {cs rest : List Char} (h : skip cs = container.closing :: rest) :
    enter container inside (depth + 1) cs = .ok rest := by
  simp [enter, h]

/-- A container that is not empty is gone into. -/
lemma enter_inside {container : Container} {inside : Nat → List Char → Except Fault (List Char)}
    {depth : Nat} {cs : List Char} (h : ∀ rest, skip cs ≠ container.closing :: rest) :
    enter container inside (depth + 1) cs = inside depth (skip cs) := by
  refine if_neg fun hhead => ?_
  obtain ⟨rest, hrest⟩ := List.head?_eq_some_iff.1 hhead
  exact h rest hrest

section Behind

variable {fuel : Nat}

/-- The reader gets behind a value as it does without the values, if it gets so behind all that
containers hold. -/
lemma behind_readValue_succ
    (hitems : ∀ depth cs, behind (readItems readNumeral fuel depth cs) =
      readPart fuel (.inside .array) depth cs)
    (hmembers : ∀ depth before cs, behind (readMembers readNumeral fuel depth before cs) =
      readPart fuel (.inside .object) depth cs) (depth : Nat) (cs : List Char) :
    behind (readValue readNumeral (fuel + 1) depth cs) = readPart (fuel + 1) .value depth cs := by
  unfold readValue
  split
  · exact behind_map _ fun points => text (.ofPoints points)
  · next cs =>
    rw [readPart]
    split
    · rfl
    · next h => rw [enter_closing h, behind_ok]
    · next h =>
      rw [enter_inside h, ← hitems]
      exact behind_map _ arr
  · next cs =>
    rw [readPart]
    split
    · rfl
    · next h => rw [enter_closing h, behind_ok]
    · next h =>
      rw [enter_inside h, ← hmembers]
      exact behind_map _ obj
  · rw [readPart]
    · cases readWord? cs <;> rfl
    all_goals assumption

/-- The reader gets behind the items from one of them on, if it gets behind values and behind the
items that follow. -/
lemma behind_readItems_succ
    (hvalue : ∀ depth cs, behind (readValue readNumeral fuel depth cs) =
      readPart fuel .value depth cs)
    (hitems : ∀ depth cs, behind (readItems readNumeral fuel depth cs) =
      readPart fuel (.inside .array) depth cs) (depth : Nat) (cs : List Char) :
    behind (readItems readNumeral (fuel + 1) depth cs) =
      readPart (fuel + 1) (.inside .array) depth cs := by
  unfold readItems
  rw [readPart, readEntry, Except.bind, ← hvalue]
  cases readValue readNumeral fuel depth cs with
  | error f => rfl
  | ok found =>
    simp only [behind_ok, Except.bind]
    split
    · next h => rw [goOn_closing h, behind_ok]
    · next h =>
      rw [goOn_comma h, ← hitems]
      exact behind_map _ (found.1 :: ·)
    · next hclosing hcomma => rw [goOn_malformed .array hclosing hcomma, behind_error]

/-- The reader gets behind the members from one of them on, if it gets behind values and behind the
members that follow; those that were already read make no difference. -/
lemma behind_readMembers_succ
    (hvalue : ∀ depth cs, behind (readValue readNumeral fuel depth cs) =
      readPart fuel .value depth cs)
    (hmembers : ∀ depth before cs, behind (readMembers readNumeral fuel depth before cs) =
      readPart fuel (.inside .object) depth cs) (depth : Nat) (before : List (String × Json))
    (cs : List Char) :
    behind (readMembers readNumeral (fuel + 1) depth before cs) =
      readPart (fuel + 1) (.inside .object) depth cs := by
  unfold readMembers
  rw [readPart]
  split
  · next cs =>
    rw [readEntry]
    cases readString none cs with
    | error f => rfl
    | ok key =>
      simp only [behind_ok, Except.bind]
      split
      · next rest h =>
        simp only [goOnKey_colon h, ← hvalue]
        cases readValue readNumeral fuel depth (skip rest) with
        | error f => rfl
        | ok found =>
          simp only [behind_ok]
          split
          · next h => rw [goOn_closing h, behind_ok]
          · next h => rw [goOn_comma h, ← hmembers]
          · next hclosing hcomma => rw [goOn_malformed .object hclosing hcomma, behind_error]
      · next h => rw [goOnKey_malformed h, behind_error]
  · next hkey =>
    rw [readEntry]
    · rfl
    · exact hkey

end Behind

/-- The reader gets behind a part as it does without the values. -/
lemma behind_eq_readPart (fuel : Nat) :
    (∀ depth cs, behind (readValue readNumeral fuel depth cs) = readPart fuel .value depth cs) ∧
    (∀ depth cs, behind (readItems readNumeral fuel depth cs) =
      readPart fuel (.inside .array) depth cs) ∧
    ∀ depth before cs, behind (readMembers readNumeral fuel depth before cs) =
      readPart fuel (.inside .object) depth cs := by
  induction fuel with
  | zero => exact ⟨fun _ _ => rfl, fun _ _ => rfl, fun _ _ _ => rfl⟩
  | succ fuel ih =>
    obtain ⟨hvalue, hitems, hmembers⟩ := ih
    exact ⟨behind_readValue_succ hitems hmembers, behind_readItems_succ hvalue hitems,
      behind_readMembers_succ hvalue hmembers⟩

/-! ### All that is read is as the grammar has it -/

/-- What is read of a key is accounted for. -/
lemma isOutcome_readEntry (container : Container) (cs : List Char) :
    IsOutcome (EntryStarts container cs) (fun _ => False) (readEntry container cs) := by
  unfold readEntry
  split
  · exact (rfl : _ = _)
  · next cs =>
    refine (isOutcome_readString none cs).bind (fun after hkey => ?_) fun _ h => h
    unfold goOnKey
    split
    · next rest hcolon => exact KeyEnds.mk hkey hcolon
    · exact .malformed
  · exact .malformed

/-- What is read behind an entry is accounted for if all further entries are. -/
lemma isOutcome_goOn {fuel depth : Nat} {container : Container} {cs start after : List Char}
    (ih : ∀ cs, IsOutcome (Leads (.inside container) depth cs)
      (fun f => Meets f (.inside container) depth cs) (readPart fuel (.inside container) depth cs))
    (hentry : EntryStarts container cs start) (hvalue : Leads .value depth start after) :
    IsOutcome (Leads (.inside container) depth cs) (fun f => Meets f (.inside container) depth cs)
      (goOn container (readPart fuel (.inside container) depth) after) := by
  unfold goOn
  split
  · exact .malformed
  · next c rest hafter =>
    split_ifs with hclosing hcomma
    · exact .last hentry hvalue (hclosing ▸ hafter)
    · rw [hcomma] at hafter
      exact (ih (skip rest)).imp (fun _ h => .next hentry hvalue hafter h) fun _ h =>
        .later hentry hvalue hafter h
    · exact .malformed

/-- What is read of a container is accounted for if what it holds is. -/
lemma isOutcome_enter {fuel : Nat} {container : Container}
    (ih : ∀ depth cs, IsOutcome (Leads (.inside container) depth cs)
      (fun f => Meets f (.inside container) depth cs) (readPart fuel (.inside container) depth cs))
    (depth : Nat) (cs : List Char) :
    IsOutcome (Leads .value depth (container.opening :: cs))
      (fun f => Meets f .value depth (container.opening :: cs))
      (enter container (readPart fuel (.inside container)) depth cs) := by
  unfold enter
  split
  · exact .inr (.here (.tooDeep container cs))
  · next depth =>
    split_ifs with hhead
    · obtain ⟨rest, hrest⟩ := List.head?_eq_some_iff.1 hhead
      rw [hrest]
      exact .empty container hrest
    · exact (ih depth (skip cs)).imp (fun _ h => .container container h) fun _ h =>
        .container container h

/-- A word that is read is one of the words. -/
lemma exists_of_readWord? {cs : List Char} {found : Json × List Char}
    (h : readWord? cs = some found) : ∃ w ∈ words, cs = w.1 ++ found.2 := by
  obtain ⟨w, hw, hfound⟩ := List.exists_of_findSome?_eq_some h
  refine ⟨w, hw, ?_⟩
  simp only [Option.ite_none_right_eq_some, Option.some.injEq] at hfound
  obtain ⟨hword, rfl⟩ := hfound
  exact (List.prefix_iff_eq_append.1 (List.isPrefixOf_iff_prefix.1 hword)).symm

/-- What is left of a part is as the grammar has it, and what is refused is met. -/
lemma isOutcome_readPart (fuel : Nat) (part : Part) (depth : Nat) (cs : List Char) :
    IsOutcome (Leads part depth cs) (fun f => Meets f part depth cs)
      (readPart fuel part depth cs) := by
  induction fuel generalizing part depth cs with
  | zero => exact .malformed
  | succ fuel ih =>
    cases part with
    | value =>
      unfold readPart
      split
      · exact (isOutcome_readString none _).imp (fun _ h => .string h) fun _ h => h.elim
      · exact isOutcome_enter (ih (.inside .array)) depth _
      · exact isOutcome_enter (ih (.inside .object)) depth _
      · split
        · next found hword =>
          obtain ⟨w, hw, rfl⟩ := exists_of_readWord? hword
          exact .word hw found.2
        · refine (isOutcome_readNumber cs).imp (fun _ h => .number h) ?_
          rintro f ⟨n, rfl, h⟩
          exact .here (.numeral h)
    | inside container =>
      rw [readPart]
      refine (isOutcome_readEntry container cs).bind (fun start hentry => ?_) fun _ h => h.elim
      refine (ih .value depth start).bind (fun after hvalue => ?_) fun _ h => .first hentry h
      exact isOutcome_goOn (ih (.inside container) depth) hentry hvalue

/-! ### Where parts start -/

/-- Whether the character closes a container. -/
def isClosing (c : Char) : Bool := c == ']' || c == '\x7d'

/-- The text starts with a character that closes no container. -/
def Starts (cs : List Char) : Prop := ∃ c more, cs = c :: more ∧ isClosing c = false

/-- What starts a value closes no container. -/
lemma Starts.ne_closing {cs : List Char} (h : Starts cs) (container : Container)
    (rest : List Char) : cs ≠ container.closing :: rest := by
  obtain ⟨c, more, rfl, hc⟩ := h
  intro hcs
  rw [(List.cons.inj hcs).1] at hc
  cases container <;> cases hc

/-- A container starts a value. -/
lemma starts_opening (container : Container) (cs : List Char) : Starts (container.opening :: cs) :=
  ⟨_, _, rfl, by cases container <;> rfl⟩

/-- A word starts a value. -/
lemma starts_word {w : List Char × Json} (hw : w ∈ words) (rest : List Char) :
    Starts (w.1 ++ rest) := by
  simp only [words, List.mem_cons, List.not_mem_nil, or_false] at hw
  rcases hw with rfl | rfl | rfl | rfl | rfl | rfl <;> exact ⟨_, _, rfl, rfl⟩

/-- A number starts a value. -/
lemma NumberParts.starts {n : Nat} {cs after rest : List Char} (h : NumberParts n cs after rest) :
    Starts cs := by
  obtain ⟨c, more, hc, rfl | rfl⟩ := h.head
  · refine ⟨c, more, rfl, ?_⟩
    cases hclosing : isClosing c with
    | false => rfl
    | true =>
      simp only [isClosing, Bool.or_eq_true, beq_iff_eq] at hclosing
      rcases hclosing with rfl | rfl <;> cases hc
  · exact ⟨_, _, rfl, rfl⟩

/-- An entry starts where its value does, or with a quote. -/
lemma EntryStarts.starts {container : Container} {cs start : List Char}
    (h : EntryStarts container cs start) (hstart : Starts start) : Starts cs := by
  cases container with
  | array =>
    obtain rfl : start = cs := h
    exact hstart
  | object =>
    obtain ⟨hkey, hcolon⟩ := h
    exact ⟨_, _, rfl, rfl⟩

/-- A part that is read starts with no closing character. -/
lemma Leads.starts {part : Part} {depth : Nat} {cs rest : List Char}
    (h : Leads part depth cs rest) : Starts cs := by
  induction h with
  | string h => exact ⟨_, _, rfl, rfl⟩
  | word hw rest => exact starts_word hw rest
  | number h =>
    obtain ⟨n, after, hparts, -⟩ := h
    exact hparts.starts
  | empty container h => exact starts_opening container _
  | container container h ih => exact starts_opening container _
  | last hentry hvalue hclose ih => exact hentry.starts ih
  | next hentry hvalue hcomma hmore ih _ => exact hentry.starts ih

/-- A part that meets a refusal starts with no closing character. -/
lemma Meets.starts {f : Fault} {part : Part} {depth : Nat} {cs : List Char}
    (h : Meets f part depth cs) : Starts cs := by
  induction h with
  | here h =>
    cases h with
    | numeral h =>
      obtain ⟨after, hparts, -⟩ := h
      exact hparts.starts
    | tooDeep container cs => exact starts_opening container cs
  | container container h ih => exact starts_opening container _
  | first hentry h ih => exact hentry.starts ih
  | later hentry hvalue hcomma h ih => exact hentry.starts hvalue.starts

/-! ### Lengths -/

/-- Blanks may only be taken away. -/
lemma skip_length_le (cs : List Char) : (skip cs).length ≤ cs.length :=
  (List.dropWhile_suffix isBlank).length_le

/-- The value of an entry has no more text than the entry. -/
lemma EntryStarts.length_le {container : Container} {cs start : List Char}
    (h : EntryStarts container cs start) : start.length ≤ cs.length := by
  cases container with
  | array =>
    obtain rfl : start = cs := h
    exact Nat.le_refl _
  | object =>
    obtain @⟨cs, after, rest, hkey, hcolon⟩ := h
    have hlt := hkey.length_lt
    have hafter := skip_length_le after
    have hrest := skip_length_le rest
    rw [hcolon] at hafter
    simp only [List.length_cons] at hafter ⊢
    omega

/-- Less text follows a part. -/
lemma Leads.length_lt {part : Part} {depth : Nat} {cs rest : List Char}
    (h : Leads part depth cs rest) : rest.length < cs.length := by
  induction h with
  | string h => exact Nat.lt_succ_of_lt h.length_lt
  | word hw rest =>
    have hwords : ∀ w ∈ words, 0 < w.1.length := by decide
    have hpos := hwords _ hw
    rw [List.length_append]
    omega
  | number h => exact h.length_lt
  | @empty _ container cs rest h =>
    have hle := skip_length_le cs
    rw [h] at hle
    exact Nat.lt_succ_of_lt hle
  | @container _ container cs rest h ih =>
    exact Nat.lt_succ_of_lt (Nat.lt_of_lt_of_le ih (skip_length_le cs))
  | @last _ _ cs start after rest hentry hvalue hclose ih =>
    have hstart := hentry.length_le
    have hle := skip_length_le after
    rw [hclose, List.length_cons] at hle
    omega
  | @next _ _ cs start after more rest hentry hvalue hcomma hmore ih ih' =>
    have hstart := hentry.length_le
    have hle := skip_length_le after
    have hmore := skip_length_le more
    rw [hcomma, List.length_cons] at hle
    omega

/-! ### All that the grammar has is read -/

/-- How many steps suffice to read a part of the text. -/
def steps : Part → List Char → Nat
  | .value, cs => 2 * cs.length + 1
  | .inside _, cs => 2 * cs.length + 2

/-- A word is read as a value. -/
lemma readPart_word {w : List Char × Json} (hw : w ∈ words) (fuel depth : Nat) (rest : List Char) :
    readPart (fuel + 1) .value depth (w.1 ++ rest) = .ok rest := by
  simp only [words, List.mem_cons, List.not_mem_nil, or_false] at hw
  rcases hw with rfl | rfl | rfl | rfl | rfl | rfl <;> rfl

/-- A number is read as a value. -/
lemma readPart_number {n : Nat} {cs after rest : List Char} (h : NumberParts n cs after rest)
    (fuel depth : Nat) :
    readPart (fuel + 1) .value depth cs = behind (readNumber readNumeral cs) := by
  obtain ⟨c, more, hc, hcs⟩ := h.head
  have hword : readWord? cs = none := by
    rcases hcs with rfl | rfl
    · exact (readWord?_of_isDigit hc more).1
    · exact (readWord?_of_isDigit hc more).2
  rw [readPart]
  · rw [hword]
  all_goals
    rintro _ rfl
    rcases hcs with hcs | hcs <;> cases hcs
    cases hc

/-- A container is gone into. -/
lemma readPart_opening (fuel depth : Nat) (container : Container) (cs : List Char) :
    readPart (fuel + 1) .value depth (container.opening :: cs) =
      enter container (readPart fuel (.inside container)) depth cs := by
  cases container <;> rfl

/-- The reader finds where the value of an entry starts. -/
lemma EntryStarts.readEntry {container : Container} {cs start : List Char}
    (h : EntryStarts container cs start) : readEntry container cs = .ok start := by
  cases container with
  | array =>
    obtain rfl : start = cs := h
    rfl
  | object =>
    obtain ⟨hkey, hcolon⟩ := h
    rw [Json.readEntry, hkey.behind_readString, Except.bind, goOnKey_colon hcolon]

/-- There is at least one step. -/
lemma exists_succ_of_steps {part : Part} {cs : List Char} {fuel : Nat} (h : steps part cs ≤ fuel) :
    ∃ f, fuel = f + 1 := by
  cases part <;> exact ⟨fuel - 1, by simp only [steps] at h; omega⟩

/-- What is left of a part as the grammar has it is left of it by the reader. -/
lemma Leads.readPart {part : Part} {depth : Nat} {cs rest : List Char}
    (h : Leads part depth cs rest) {fuel : Nat} (hfuel : steps part cs ≤ fuel) :
    readPart fuel part depth cs = .ok rest := by
  induction h generalizing fuel with
  | string h =>
    obtain ⟨fuel, rfl⟩ := exists_succ_of_steps hfuel
    exact h.behind_readString none
  | word hw rest =>
    obtain ⟨fuel, rfl⟩ := exists_succ_of_steps hfuel
    exact readPart_word hw fuel _ rest
  | number h =>
    obtain ⟨fuel, rfl⟩ := exists_succ_of_steps hfuel
    have hread := h.behind_readNumber
    obtain ⟨n, after, hparts, -⟩ := h
    rw [readPart_number hparts, hread]
  | empty container h =>
    obtain ⟨fuel, rfl⟩ := exists_succ_of_steps hfuel
    rw [readPart_opening, enter_closing h]
  | @container _ container cs _ h ih =>
    obtain ⟨fuel, rfl⟩ := exists_succ_of_steps hfuel
    have hskip := skip_length_le cs
    rw [readPart_opening, enter_inside (h.starts.ne_closing container), ih]
    simp only [steps, List.length_cons] at hfuel ⊢
    omega
  | @last _ _ cs start _ _ hentry hvalue hclose ih =>
    obtain ⟨fuel, rfl⟩ := exists_succ_of_steps hfuel
    -- The value starts no further back than the entry, so the fuel for the entry suffices for it.
    have hstart := hentry.length_le
    simp only [steps] at hfuel ih
    rw [Json.readPart, hentry.readEntry, Except.bind, ih (by omega), Except.bind,
      goOn_closing hclose]
  | @next _ _ cs start after more _ hentry hvalue hcomma hmore ih ih' =>
    obtain ⟨fuel, rfl⟩ := exists_succ_of_steps hfuel
    have hstart := hentry.length_le
    have hafter := hvalue.length_lt
    have hle := skip_length_le after
    have hle' := skip_length_le more
    rw [hcomma, List.length_cons] at hle
    simp only [steps] at hfuel ih ih'
    rw [Json.readPart, hentry.readEntry, Except.bind, ih (by omega), Except.bind, goOn_comma hcomma,
      ih' (by omega)]

/-- The reader refuses a part for the reason that it meets first. -/
lemma Meets.readPart {f : Fault} {part : Part} {depth : Nat} {cs : List Char}
    (h : Meets f part depth cs) {fuel : Nat} (hfuel : steps part cs ≤ fuel) :
    readPart fuel part depth cs = .error f := by
  induction h generalizing fuel with
  | here h =>
    obtain ⟨fuel, rfl⟩ := exists_succ_of_steps hfuel
    cases h with
    | numeral h =>
      have hread := h.behind_readNumber
      obtain ⟨after, hparts, -⟩ := h
      rw [readPart_number hparts, hread]
    | tooDeep container cs => rw [readPart_opening, enter]
  | @container _ container cs h ih =>
    obtain ⟨fuel, rfl⟩ := exists_succ_of_steps hfuel
    have hskip := skip_length_le cs
    rw [readPart_opening, enter_inside (h.starts.ne_closing container), ih]
    simp only [steps, List.length_cons] at hfuel ⊢
    omega
  | first hentry h ih =>
    obtain ⟨fuel, rfl⟩ := exists_succ_of_steps hfuel
    have hstart := hentry.length_le
    simp only [steps] at hfuel ih
    rw [Json.readPart, hentry.readEntry, Except.bind, ih (by omega), Except.bind]
  | @later _ _ cs start after more hentry hvalue hcomma h ih =>
    obtain ⟨fuel, rfl⟩ := exists_succ_of_steps hfuel
    have hstart := hentry.length_le
    have hafter := hvalue.length_lt
    have hle := skip_length_le after
    have hle' := skip_length_le more
    rw [hcomma, List.length_cons] at hle
    -- The value in front is read to its end; what is refused comes behind its comma.
    have hread : steps .value start ≤ fuel → Json.readPart fuel .value _ start = .ok after :=
      hvalue.readPart
    simp only [steps] at hfuel ih hread
    rw [Json.readPart, hentry.readEntry, Except.bind, hread (by omega), Except.bind,
      goOn_comma hcomma, ih (by omega)]

/-- Nothing is refused for being malformed. -/
lemma Meets.ne_malformed {f : Fault} {part : Part} {depth : Nat} {cs : List Char}
    (h : Meets f part depth cs) : f ≠ .malformed := by
  induction h with
  | here h => cases h <;> exact Fault.noConfusion
  | container _ _ ih | first _ _ ih | later _ _ _ _ ih => exact ih

/-! ### Texts -/

/-- Twice the length of a text and two more steps suffice for it. -/
lemma steps_skip_le (cs : List Char) : steps .value (skip cs) ≤ 2 * cs.length + 2 := by
  have := skip_length_le cs
  simp only [steps]
  omega

/-- What follows the value of a text, or the fault that it has. -/
lemma behind_readValue (depth : Nat) (cs : List Char) :
    behind (readValue readNumeral (2 * cs.length + 2) depth (skip cs)) =
      readPart (2 * cs.length + 2) .value depth (skip cs) :=
  (behind_eq_readPart _).1 depth _

/-- A text is read exactly if it is a value of the grammar between blanks. -/
theorem exists_readText_iff {depth : Nat} {cs : List Char} :
    (∃ v, readText readNumeral depth cs = .ok v) ↔
      ∃ rest, Leads .value depth (skip cs) rest ∧ skip rest = [] := by
  have hread := behind_readValue depth cs
  unfold readText
  constructor
  · rintro ⟨v, h⟩
    have houtcome := isOutcome_readPart (2 * cs.length + 2) .value depth (skip cs)
    rw [← hread] at houtcome
    cases hvalue : readValue readNumeral (2 * cs.length + 2) depth (skip cs) with
    | error f => simp [hvalue] at h
    | ok found =>
      rw [hvalue] at houtcome
      simp only [hvalue, List.isEmpty_iff] at h
      split_ifs at h with hblank
      exact ⟨found.2, houtcome, hblank⟩
  · rintro ⟨rest, hleads, hblank⟩
    rw [hleads.readPart (steps_skip_le cs), behind_eq_ok_iff] at hread
    obtain ⟨v, hvalue⟩ := hread
    exact ⟨v, by simp [hvalue, hblank]⟩

/-- A text has a fault other than being malformed exactly if it meets the refusal. -/
theorem readText_eq_error_iff {depth : Nat} {cs : List Char} {f : Fault} (hf : f ≠ .malformed) :
    readText readNumeral depth cs = .error f ↔ Meets f .value depth (skip cs) := by
  have hread := behind_readValue depth cs
  unfold readText
  constructor
  · intro h
    have houtcome := isOutcome_readPart (2 * cs.length + 2) .value depth (skip cs)
    rw [← hread] at houtcome
    cases hvalue : readValue readNumeral (2 * cs.length + 2) depth (skip cs) with
    | error g =>
      rw [hvalue] at h houtcome
      cases h
      exact houtcome.resolve_left hf
    | ok found =>
      simp only [hvalue] at h
      split_ifs at h
      cases h
      exact absurd rfl hf
  · intro h
    rw [h.readPart (steps_skip_le cs), behind_eq_error_iff] at hread
    rw [hread]

end PromqlGuide.Json
