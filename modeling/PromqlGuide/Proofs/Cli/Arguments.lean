import Mathlib.Tactic.Common
import PromqlGuide.Cli.Command

/-!
# Arguments of commands

What is written behind the name of a command is a list of parts, up to two dashes that end the
options, if there are any.  A part is a positional argument, an option without a value, or an option
with its value, which is attached or the next argument.

Main statement: whatever options and arguments are read, they are written as such parts
(`Cli.Options.exists_pieces`).
-/
namespace PromqlGuide.Cli

/-- One part of the arguments of a command: a positional argument, the name of an option without a
value, or the name of an option with its value. -/
inductive Piece where
  | positional (text : String)
  | flag (name : String)
  | attached (name text : String)
  | separate (name text : String)
  deriving Repr, DecidableEq

namespace Piece

/-- The arguments that a part is written as. -/
def words : Piece → List String
  | positional text => [text]
  | flag name => [name]
  | attached name text => [name ++ "=" ++ text]
  | separate name text => [name, text]

/-- The value that a part gives to an option. -/
def value? (option : String) : Piece → Option String
  | attached name text | separate name text => if name = option then some text else none
  | _ => none

/-- The value of an option that is an argument of its own. -/
def argument? : Piece → Option String
  | separate _ text => some text
  | _ => none

/-- Whether there may be the part where options are given. -/
def IsOf (o : Options) : Piece → Prop
  | positional text => Options.looksLikeOption text.toList = false
  | flag name => ∃ kind, o.named.lookup name = some kind ∧ ∀ parameter, kind ≠ .value parameter
  | attached name _ | separate name _ => ∃ parameter, o.named.lookup name = some (.value parameter)

end Piece

namespace Given

/-- The value that an option as given has for a parameter. -/
def value? (parameter : String) : Given → Option String
  | value p text => if p = parameter then some text else none
  | _ => none

/-- Of several values of an option the last counts. -/
lemma valueOf?_eq (given : List Given) (parameter : String) :
    valueOf? given parameter = (given.filterMap (value? parameter)).getLast? := rfl

end Given

namespace Options

variable {o : Options} {arg name parameter : String} {item : Item} {given : List Given}
  {args positional : List String}

/-- What an argument can be read as, where all options are long. -/
inductive IsRead (o : Options) (arg : String) : Item → Prop where
  | endOfOptions : arg = "--" → IsRead o arg .endOfOptions
  | flag {kind : OptionKind} {g : Given} : o.named.lookup arg = some kind →
      (∀ parameter, kind ≠ .value parameter) → (∀ parameter, g.value? parameter = none) →
      IsRead o arg (.complete [g])
  | attached {name parameter text : String} : arg = name ++ "=" ++ text →
      o.named.lookup name = some (.value parameter) →
      IsRead o arg (.complete [.value parameter text])
  | wanting {parameter : String} : o.named.lookup arg = some (.value parameter) →
      IsRead o arg (.wanting arg parameter)
  | positional : looksLikeOption arg.toList = false → IsRead o arg .positional

/-- An argument is split at its first equals sign, if it has one. -/
lemma splitAttached_eq {cs name : List Char} {attached : Option (List Char)}
    (h : splitAttached cs = (name, attached)) :
    (attached = none ∧ cs = name) ∨ ∃ text, attached = some text ∧ cs = name ++ '=' :: text := by
  unfold splitAttached at h
  split at h
  · next hcontains =>
    rw [Prod.mk.injEq] at h
    obtain ⟨rfl, rfl⟩ := h
    refine Or.inr ⟨_, rfl, ?_⟩
    induction cs with
    | nil => cases hcontains
    | cons c cs ih =>
      by_cases hc : c = '='
      · subst hc
        simp
      · have hrest : cs.contains '=' = true := by
          rw [List.contains_cons] at hcontains
          simpa [Ne.symm hc] using hcontains
        simpa [hc] using ih hrest
  · rw [Prod.mk.injEq] at h
    obtain ⟨rfl, rfl⟩ := h
    exact Or.inl ⟨rfl, rfl⟩

/-- No option of a single letter is found among long ones. -/
lemma shortOptions_eq_error (hlong : ∀ p ∈ o.named, isLong p.1.toList = true) {c : Char}
    {cs : List Char} (hc : c ≠ '-') :
    o.shortOptions (c :: cs) = .error (.unknown (String.ofList ['-', c])) := by
  have hnone : o.named.lookup (String.ofList ['-', c]) = none := by
    rw [List.lookup_eq_none_iff]
    intro p hp
    have hp := hlong p hp
    rw [bne_iff_ne]
    rintro heq
    rw [← heq, String.toList_ofList] at hp
    simp [isLong, Ne.symm hc] at hp
  simp only [shortOptions, hnone]

/-- A long option is read with the value that is attached to it or follows it. -/
lemma isRead_of_longOption {name : List Char} {attached : Option (List Char)} {kind : OptionKind}
    (hsplit : splitAttached arg.toList = (name, attached))
    (hkind : o.named.lookup (String.ofList name) = some kind)
    (h : longOption (String.ofList name) kind attached = .ok item) : IsRead o arg item := by
  rcases splitAttached_eq hsplit with ⟨rfl, hname⟩ | ⟨text, rfl, hname⟩
  · have harg : arg = String.ofList name := by rw [← hname, String.ofList_toList]
    rw [← harg] at hkind h
    cases kind with
    | value parameter =>
      obtain rfl := Except.ok.inj h
      exact .wanting hkind
    | switch | counted | help =>
      obtain rfl := Except.ok.inj h
      exact .flag hkind nofun fun _ => rfl
  · cases kind with
    | value parameter =>
      obtain rfl := Except.ok.inj h
      refine .attached ?_ hkind
      rw [← String.toList_inj, hname]
      simp
    | switch | counted | help => cases h

/-- Every argument that is read is read in one of these ways. -/
lemma isRead_of_item (hlong : ∀ p ∈ o.named, isLong p.1.toList = true)
    (h : o.item arg = .ok item) : IsRead o arg item := by
  unfold Options.item at h
  dsimp only at h
  split_ifs at h with hend hlooks hdashes
  · obtain rfl := Except.ok.inj h
    exact .endOfOptions hend
  · cases hkind : o.named.lookup (String.ofList (splitAttached arg.toList).1) with
    | none => simp only [hkind, reduceCtorEq] at h
    | some kind =>
      simp only [hkind] at h
      exact isRead_of_longOption rfl hkind h
  · -- A single dash, with letters behind it.
    have hshape : ∃ c cs, arg.toList = '-' :: c :: cs := by
      unfold looksLikeOption at hlooks
      split at hlooks
      · next c cs heq => exact ⟨c, cs, heq⟩
      · cases hlooks
    obtain ⟨c, cs, heq⟩ := hshape
    have hc : c ≠ '-' := by
      rintro rfl
      rw [heq] at hdashes
      exact hdashes rfl
    rw [heq, List.drop_one, List.tail_cons, shortOptions_eq_error hlong hc] at h
    cases h
  · obtain rfl := Except.ok.inj h
    exact .positional (Bool.eq_false_iff.2 hlooks)

/-- What is put in front of what is read. -/
lemma exists_of_withGiven {r : Except OptionFault Scanned} {front given : List Given}
    (h : withGiven front r = .ok (given, positional)) :
    ∃ more, r = .ok (more, positional) ∧ given = front ++ more := by
  cases r with
  | error fault => cases h
  | ok scanned =>
    cases h
    exact ⟨_, rfl, rfl⟩

/-- A positional argument in front leaves the options behind it as they are. -/
lemma exists_of_withPositional {r : Except OptionFault Scanned}
    (h : withPositional arg r = .ok (given, positional)) : ∃ more, r = .ok (given, more) := by
  cases r with
  | error fault => cases h
  | ok scanned =>
    cases h
    exact ⟨_, rfl⟩

/-- Whether an option is the one that sets a parameter. -/
def Sets (o : Options) (option parameter : String) : Prop :=
  ∀ name, o.named.lookup name = some (.value parameter) ↔ name = option

/-- Whether arguments are written as parts and what follows them, and options as given have the
values that the parts give to them. -/
structure AreWritten (o : Options) (args : List String) (given : List Given) (pieces : List Piece)
    (tail : List String) : Prop where
  args_eq : args = pieces.flatMap Piece.words ++ tail
  isOf : ∀ p ∈ pieces, p.IsOf o
  tail_eq : tail = [] ∨ tail.head? = some "--"
  values_eq : ∀ option parameter, o.Sets option parameter →
    given.filterMap (Given.value? parameter) = pieces.filterMap (Piece.value? option)

/-- One more part in front. -/
lemma AreWritten.cons {pieces : List Piece} {tail : List String}
    (h : o.AreWritten args given pieces tail) (front : List Given) (p : Piece) (hp : p.IsOf o)
    (hvalues : ∀ option parameter, o.Sets option parameter →
      front.filterMap (Given.value? parameter) = (p.value? option).toList) :
    o.AreWritten (p.words ++ args) (front ++ given) (p :: pieces) tail where
  args_eq := by rw [List.flatMap_cons, List.append_assoc, ← h.args_eq]
  isOf := List.forall_mem_cons.2 ⟨hp, h.isOf⟩
  tail_eq := h.tail_eq
  values_eq option parameter hsets := by
    rw [List.filterMap_append, hvalues option parameter hsets, h.values_eq option parameter hsets,
      List.filterMap_cons]
    cases p.value? option with
    | none => rfl
    | some text => rfl

/-- The value of an option is given to the parameter that it sets. -/
lemma values_of_lookup {option text parameter' : String} (hsets : o.Sets option parameter)
    (hname : o.named.lookup name = some (.value parameter')) :
    [Given.value parameter' text].filterMap (Given.value? parameter) =
      (if name = option then some text else none).toList := by
  have hiff : parameter' = parameter ↔ name = option := by
    rw [← hsets name, hname, Option.some.injEq, OptionKind.value.injEq]
  by_cases hparameter : parameter' = parameter
  · simp [Given.value?, hparameter, hiff.1 hparameter]
  · simp [Given.value?, hparameter, mt hiff.2 hparameter]

/-- Where long options may stand behind positional arguments, arguments that are read are written as
parts, and the values that an option has are those that the parts give to it. -/
theorem exists_pieces (hbehind : o.interspersed = true)
    (hlong : ∀ p ∈ o.named, isLong p.1.toList = true) (h : o.scan args = .ok (given, positional)) :
    ∃ pieces tail, o.AreWritten args given pieces tail := by
  fun_induction Options.scan o args generalizing given positional with
  | case1 =>
    cases h
    exact ⟨[], [], rfl, List.forall_mem_nil _, Or.inl rfl, fun _ _ _ => rfl⟩
  | case2 => cases h
  | case3 arg rest hitem =>
    cases h
    -- Of all words only two dashes end the options.
    have harg : arg = "--" := by
      cases isRead_of_item hlong hitem with
      | endOfOptions harg => exact harg
    exact ⟨[], arg :: rest, rfl, List.forall_mem_nil _, Or.inr (harg ▸ rfl), fun _ _ _ => rfl⟩
  | case4 arg rest front hitem ih =>
    obtain ⟨more, hmore, rfl⟩ := exists_of_withGiven h
    obtain ⟨pieces, tail, hwritten⟩ := ih hmore
    cases isRead_of_item hlong hitem with
    | @flag kind g hkind hvalue hgiven =>
      refine ⟨_, tail, hwritten.cons [g] (.flag arg) ⟨kind, hkind, hvalue⟩ ?_⟩
      intro option parameter _
      simp [hgiven, Piece.value?]
    | @attached name parameter text harg hname =>
      subst harg
      exact ⟨_, tail, hwritten.cons _ (.attached name text) ⟨parameter, hname⟩
        fun _ _ hsets => values_of_lookup hsets hname⟩
  | case5 => cases h
  | case6 arg name parameter hitem text rest ih =>
    obtain ⟨more, hmore, rfl⟩ := exists_of_withGiven h
    obtain ⟨pieces, tail, hwritten⟩ := ih hmore
    cases isRead_of_item hlong hitem with
    | wanting hname =>
      exact ⟨_, tail, hwritten.cons _ (.separate arg text) ⟨parameter, hname⟩
        fun _ _ hsets => values_of_lookup hsets hname⟩
  | case7 arg rest hitem hinter ih =>
    obtain ⟨more, hmore⟩ := exists_of_withPositional h
    obtain ⟨pieces, tail, hwritten⟩ := ih hmore
    cases isRead_of_item hlong hitem with
    | positional harg =>
      exact ⟨_, tail, hwritten.cons [] (.positional arg) harg fun _ _ _ => rfl⟩
  | case8 arg rest hitem hinter => exact absurd hbehind hinter

end Options

end PromqlGuide.Cli
