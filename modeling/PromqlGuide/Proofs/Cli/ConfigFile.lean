import PromqlGuide.Proofs.Cli.Arguments
import PromqlGuide.Proofs.Lists
import PromqlGuide.Proofs.Results

/-!
# The file that settings come from

Settings are needed before options are read, so the file that they come from is looked up in the
arguments as words: the first word that looks like the option `--config` decides.  The command
itself reads its options one by one, and of several values the last counts.

Main statement: the file that settings come from is named by the first of all words that look like
the option, the one that the command is given by the last of those that are the option
(`Cli.fileName_of_invocation`).
-/
namespace PromqlGuide

namespace Config

variable {arg text : String} {args front rest : List String}

/-- Whether a word looks like the option `--config`, with or without a value attached. -/
def IsMention (arg : String) : Prop := arg = "--config" ∨ ∃ text, arg = "--config" ++ "=" ++ text

/-- The values of all words that look like the option `--config`: attached, or the next word. -/
def mentions : List String → List String
  | [] => []
  | arg :: rest =>
    let attached := "--config=".toList
    if arg = "--config" then rest.head?.toList ++ mentions rest
    else if attached.isPrefixOf arg.toList then
      String.ofList (arg.toList.drop attached.length) :: mentions rest
    else mentions rest

/-- The word behind the bare option is a value of it, and may mention it again. -/
lemma mentions_name (text : String) (rest : List String) :
    mentions ("--config" :: text :: rest) = text :: mentions (text :: rest) := rfl

/-- An attached value stands behind the name of the option and an equals sign. -/
lemma toList_attached (text : String) :
    ("--config" ++ "=" ++ text).toList = "--config=".toList ++ text.toList := by
  rw [String.toList_append]
  rfl

/-- A word with an attached value is a value of the option. -/
lemma mentions_attached (text : String) (rest : List String) :
    mentions (("--config" ++ "=" ++ text) :: rest) = text :: mentions rest := by
  have hname : "--config" ++ "=" ++ text ≠ "--config" := by
    intro heq
    have hlength := congrArg (fun s => s.toList.length) heq
    have hnine : "--config=".toList.length = 9 := rfl
    have height : "--config".toList.length = 8 := rfl
    simp only [toList_attached, List.length_append, hnine, height] at hlength
    omega
  have hprefix : "--config=".toList.isPrefixOf ("--config" ++ "=" ++ text).toList = true := by
    rw [toList_attached, List.isPrefixOf_iff_prefix]
    exact List.prefix_append _ _
  rw [mentions, if_neg hname, if_pos hprefix, toList_attached, List.drop_left, String.ofList_toList]

/-- A word that starts like the option with an attached value mentions it. -/
lemma isMention_of_starts (h : "--config=".toList.isPrefixOf arg.toList = true) :
    IsMention arg := by
  obtain ⟨cs, hcs⟩ := List.isPrefixOf_iff_prefix.1 h
  refine Or.inr ⟨String.ofList cs, ?_⟩
  exact String.toList_inj.1 (by rw [toList_attached, @String.toList_ofList cs, hcs])

/-- A word that does not mention the option gives no value. -/
lemma mentions_of_not (h : ¬IsMention arg) (rest : List String) :
    mentions (arg :: rest) = mentions rest := by
  rw [mentions, if_neg fun heq => h (Or.inl heq), if_neg fun hprefix =>
    h (isMention_of_starts hprefix)]

/-- Words that do not mention the option give no values. -/
lemma mentions_append_of_not (h : ∀ w ∈ front, ¬IsMention w) :
    mentions (front ++ rest) = mentions rest := by
  induction front with
  | nil => rfl
  | cons w front ih =>
    rw [List.forall_mem_cons] at h
    rw [List.cons_append, mentions_of_not h.1, ih h.2]

/-- A word in front takes away no value. -/
lemma mentions_sublist_cons (arg : String) (rest : List String) :
    (mentions rest).Sublist (mentions (arg :: rest)) := by
  rw [mentions]
  split_ifs
  · exact List.sublist_append_right _ _
  · exact List.sublist_cons_self _ _
  · exact List.Sublist.refl _

/-- The first word that looks like the option decides. -/
lemma fileNameIn_eq (args : List String) :
    fileNameIn args = (mentions args).headD defaultFileName := by
  induction args with
  | nil => rfl
  | cons arg rest ih =>
    by_cases hname : arg = "--config"
    · subst hname
      cases rest with
      | nil => rfl
      | cons text rest => rfl
    · rw [fileNameIn, mentions, if_neg fun h => hname h.1, if_neg hname]
      split_ifs
      · rfl
      · exact ih

end Config

namespace Cli

open Config Options

variable {o : Options} {args front rest positional : List String} {given : List Given} {p : Piece}
  {pieces : List Piece} {tail : List String} {arg : String}

/-! ### In front of the command -/

/-- A word that mentions the option looks like an option. -/
lemma looksLikeOption_of_isMention (h : IsMention arg) : looksLikeOption arg.toList = true := by
  rcases h with rfl | ⟨text, rfl⟩
  · rfl
  · rw [toList_attached]
    rfl

/-- What looks like the option `--config` is refused where this is no option. -/
lemma item_of_isMention (hnone : o.named.lookup "--config" = none) (h : IsMention arg) :
    o.item arg = .error (.unknown "--config") := by
  have hname : String.ofList "--config".toList = "--config" := String.ofList_toList
  rcases h with rfl | ⟨text, rfl⟩
  · have hend : "--config" ≠ "--" := by decide
    have hlooks : looksLikeOption "--config".toList = true := rfl
    have hlong : isLong "--config".toList = true := rfl
    have hsplit : splitAttached "--config".toList = ("--config".toList, none) := rfl
    simp only [Options.item, if_neg hend, hlooks, hlong, hsplit, hname, if_true, hnone]
  · have hsplit : splitAttached ("--config=".toList ++ text.toList) =
        ("--config".toList, some text.toList) := by
      rw [splitAttached, if_pos (List.contains_iff_mem.2 (List.mem_append_left _ (by decide)))]
      rfl
    have hend : "--config" ++ "=" ++ text ≠ "--" := by
      intro heq
      have hlist := toList_attached text
      rw [heq] at hlist
      cases hlist
    have hlooks : looksLikeOption ("--config=".toList ++ text.toList) = true := rfl
    have hlong : isLong ("--config=".toList ++ text.toList) = true := rfl
    simp only [Options.item, if_neg hend, toList_attached, hlooks, hlong, hsplit, hname, if_true,
      hnone]

/-- Only an option with a value wants one. -/
lemma exists_lookup_of_wanting {name parameter : String}
    (h : o.item arg = .ok (.wanting name parameter)) :
    ∃ option, o.named.lookup option = some (.value parameter) := by
  unfold Options.item at h
  dsimp only at h
  split_ifs at h with hend hlooks hdashes
  · cases h
  · split at h
    · next kind hkind =>
      refine ⟨_, hkind.trans ?_⟩
      unfold longOption at h
      split at h <;> cases h
      rfl
    · cases h
  · cases hshort : o.shortOptions (arg.toList.drop 1) <;> rw [hshort] at h <;> cases h
  · cases h

/-- An argument that is not positional looks like an option. -/
lemma looksLikeOption_of_item {item : Options.Item} (h : o.item arg = .ok item)
    (hitem : item ≠ .positional) :
    looksLikeOption arg.toList = true := by
  by_contra hlooks
  rw [item_of_positional o (Bool.eq_false_iff.2 hlooks)] at h
  exact hitem (Except.ok.inj h).symm

/-- What stands in front of all positional arguments looks like options, but not like the option
`--config`, if there is no such option there and no option with a value. -/
lemma exists_front (hbehind : o.interspersed = false) (hnone : o.named.lookup "--config" = none)
    (hvalue : ∀ p ∈ o.named, ∀ parameter, p.2 ≠ .value parameter)
    (h : o.scan args = .ok (given, positional)) :
    ∃ front, args = front ++ positional ∧
      ∀ w ∈ front, looksLikeOption w.toList = true ∧ ¬IsMention w := by
  have hword : ∀ {arg item}, o.item arg = .ok item → item ≠ .positional →
      looksLikeOption arg.toList = true ∧ ¬IsMention arg := by
    intro arg item hitem hother
    refine ⟨looksLikeOption_of_item hitem hother, fun hmention => ?_⟩
    have heq := item_of_isMention hnone hmention
    rw [hitem] at heq
    cases heq
  fun_induction Options.scan o args generalizing given positional with
  | case1 =>
    cases h
    exact ⟨[], rfl, List.forall_mem_nil _⟩
  | case2 => cases h
  | case3 arg rest hitem =>
    cases h
    exact ⟨[arg], rfl, List.forall_mem_singleton.2 (hword hitem (by simp))⟩
  | case4 arg rest front hitem ih =>
    obtain ⟨more, hmore, rfl⟩ := exists_of_withGiven h
    obtain ⟨words, rfl, hwords⟩ := ih hmore
    exact ⟨arg :: words, rfl, List.forall_mem_cons.2 ⟨hword hitem (by simp), hwords⟩⟩
  | case5 => cases h
  | case6 arg name parameter hitem text rest ih =>
    obtain ⟨option, hoption⟩ := exists_lookup_of_wanting hitem
    exact absurd rfl (hvalue _ (mem_of_lookup_eq hoption) parameter)
  | case7 arg rest hitem hinter ih =>
    rw [hbehind] at hinter
    cases hinter
  | case8 arg rest hitem hinter =>
    cases h
    exact ⟨[], rfl, List.forall_mem_nil _⟩

/-! ### Parts of the arguments of a command -/

/-- The values that parts give to the option `--config`. -/
def configNames (pieces : List Piece) : List String := pieces.filterMap (Piece.value? "--config")

/-- Whether no word looks like the option `--config` that is not that option: neither the value of
an option, as an argument of its own, nor what stands behind all options. -/
structure NothingStray (pieces : List Piece) (tail : List String) : Prop where
  argument : ∀ p ∈ pieces, ∀ text ∈ p.argument?, ¬IsMention text
  tail : ∀ w ∈ tail, ¬IsMention w

/-- The value that a part gives to the option is the value of a word of the part. -/
lemma mentions_words_sublist (p : Piece) {l : List String} (h : l.Sublist (mentions rest)) :
    ((p.value? "--config").toList ++ l).Sublist (mentions (p.words ++ rest)) := by
  have hmore : ∀ arg, l.Sublist (mentions (arg :: rest)) := fun arg =>
    h.trans (mentions_sublist_cons arg rest)
  cases p with
  | positional text | flag text => exact hmore text
  | attached name text =>
    by_cases hname : name = "--config"
    · subst hname
      rw [Piece.value?, if_pos rfl, Piece.words, List.singleton_append, mentions_attached]
      exact h.cons_cons text
    · rw [Piece.value?, if_neg hname]
      exact hmore _
  | separate name text =>
    by_cases hname : name = "--config"
    · subst hname
      rw [Piece.value?, if_pos rfl]
      exact (hmore text).cons_cons text
    · rw [Piece.value?, if_neg hname]
      exact (hmore text).trans (mentions_sublist_cons name (text :: rest))

/-- The values of the option in the first part come before those in all others. -/
lemma configNames_cons (p : Piece) (pieces : List Piece) :
    configNames (p :: pieces) = (p.value? "--config").toList ++ configNames pieces := by
  rw [configNames, List.filterMap_cons]
  cases p.value? "--config" <;> rfl

/-- All values that are given look like values of the option. -/
lemma configNames_sublist (pieces : List Piece) (tail : List String) :
    (configNames pieces).Sublist (mentions (pieces.flatMap Piece.words ++ tail)) := by
  induction pieces with
  | nil => exact List.nil_sublist _
  | cons p pieces ih =>
    rw [configNames_cons, List.flatMap_cons, List.append_assoc]
    exact mentions_words_sublist p ih

section

variable (hplain : ∀ q ∈ o.named, '=' ∉ q.1.toList) (hsets : o.Sets "--config" "config")

include hplain

/-- The name of an option looks like `--config` only if it is this. -/
lemma not_isMention_of_lookup {name : String} {kind : OptionKind}
    (h : o.named.lookup name = some kind) (hname : name ≠ "--config") : ¬IsMention name := by
  rintro (heq | ⟨text, rfl⟩)
  · exact hname heq
  · refine hplain _ (mem_of_lookup_eq h) ?_
    rw [toList_attached]
    exact List.mem_append_left _ (by decide)

/-- An option with its value attached looks like `--config` only if it is this. -/
lemma not_isMention_attached {name text : String} {kind : OptionKind}
    (h : o.named.lookup name = some kind) (hname : name ≠ "--config") :
    ¬IsMention (name ++ "=" ++ text) := by
  have hfree : '=' ∉ name.toList := hplain _ (mem_of_lookup_eq h)
  have hlist : (name ++ "=" ++ text).toList = name.toList ++ '=' :: text.toList := by simp
  have htake : (name ++ "=" ++ text).toList.takeWhile (· != '=') = name.toList := by
    rw [hlist, List.takeWhile_append_of_pos fun c hc =>
      bne_iff_ne.2 (ne_of_mem_of_not_mem hc hfree)]
    simp
  rintro (heq | ⟨other, heq⟩)
  · have hmem : '=' ∈ (name ++ "=" ++ text).toList := by simp [hlist]
    rw [heq] at hmem
    exact absurd hmem (by decide)
  · rw [heq, toList_attached] at htake
    exact hname (String.toList_inj.1 htake.symm)

include hsets

/-- A part whose value, as an argument of its own, does not look like the option has no other values
of the option than its own. -/
lemma mentions_words (hp : p.IsOf o) (hvalue : ∀ text ∈ p.argument?, ¬IsMention text) :
    mentions (p.words ++ rest) = (p.value? "--config").toList ++ mentions rest := by
  have hconfig : o.named.lookup "--config" = some (.value "config") := (hsets _).2 rfl
  cases p with
  | positional text =>
    refine mentions_of_not (fun hmention => ?_) rest
    rw [Piece.IsOf, looksLikeOption_of_isMention hmention] at hp
    cases hp
  | flag name =>
    obtain ⟨kind, hkind, hother⟩ := hp
    refine mentions_of_not (not_isMention_of_lookup hplain hkind ?_) rest
    rintro rfl
    exact hother "config" (Option.some.inj (hkind.symm.trans hconfig))
  | attached name text =>
    obtain ⟨parameter, hname⟩ := hp
    by_cases heq : name = "--config"
    · subst heq
      rw [Piece.value?, if_pos rfl]
      exact mentions_attached text rest
    · rw [Piece.value?, if_neg heq]
      exact mentions_of_not (not_isMention_attached hplain hname heq) rest
  | separate name text =>
    obtain ⟨parameter, hname⟩ := hp
    have htext : mentions (text :: rest) = mentions rest := mentions_of_not (hvalue text rfl) rest
    by_cases heq : name = "--config"
    · subst heq
      rw [Piece.value?, if_pos rfl]
      exact (mentions_name text rest).trans (congrArg (text :: ·) htext)
    · rw [Piece.value?, if_neg heq]
      exact (mentions_of_not (not_isMention_of_lookup hplain hname heq) (text :: rest)).trans htext

/-- If nothing else looks like the option, only its own values look like values of it. -/
lemma mentions_pieces (hpieces : ∀ p ∈ pieces, p.IsOf o) (hstray : NothingStray pieces tail) :
    mentions (pieces.flatMap Piece.words ++ tail) = configNames pieces := by
  obtain ⟨hargument, htail⟩ := hstray
  induction pieces with
  | nil =>
    rw [List.flatMap_nil, List.nil_append, ← List.append_nil tail, mentions_append_of_not htail]
    rfl
  | cons p pieces ih =>
    rw [List.forall_mem_cons] at hpieces hargument
    rw [List.flatMap_cons, List.append_assoc, mentions_words hplain hsets hpieces.1 hargument.1,
      ih hpieces.2 hargument.2, configNames_cons]

end

/-! ### Commands -/

namespace Command

variable (c : Command)

/-- All options of a command are long. -/
lemma isLong_of_mem : ∀ p ∈ c.options.named, isLong p.1.toList = true := by
  cases c <;> decide

/-- The name of no option has an equals sign in it. -/
lemma not_mem_of_mem : ∀ p ∈ c.options.named, '=' ∉ p.1.toList := by
  cases c <;> decide

/-- Every command has the option for the file. -/
lemma sets_config : c.options.Sets "--config" "config" := by
  have honly : ∀ p ∈ c.options.named, p.2 = .value "config" → p.1 = "--config" := by
    cases c <;> decide
  have hthere : c.options.named.lookup "--config" = some (.value "config") := by
    cases c <;> rfl
  exact fun name => ⟨fun h => honly _ (mem_of_lookup_eq h) rfl, fun h => h ▸ hthere⟩

variable {c} {all settings : Config.Settings} {i : Invocation}

/-- A request is one for the command that it is made by. -/
lemma command_of_request {argument : Option String} {r : Request}
    (h : c.request settings given argument = .ok r) : r.command = c := by
  cases c with
  | explain | scenario =>
    cases argument <;> cases h
    rfl
  | _ =>
    cases h
    rfl

/-- What a command is given. -/
lemma exists_of_invocation (h : c.invocation all args = .ok (.run i)) :
    ∃ given positional, c.options.scan args = .ok (given, positional) ∧ i.request.command = c ∧
      i.configName = (Given.valueOf? given "config").getD defaultFileName := by
  obtain ⟨⟨given, positional⟩, hscan, h⟩ := exists_of_bind_eq_ok h
  dsimp only at h
  split at h
  · cases h
  · obtain ⟨request, hrequest, h⟩ := exists_of_bind_eq_ok h
    obtain ⟨-, -, h⟩ := exists_of_bind_eq_ok h
    cases h
    exact ⟨given, positional, eq_ok_of_mapError hscan, command_of_request hrequest, rfl⟩

end Command

/-! ### Command lines -/

section

variable {α : Type} {options : Options} {members : List (String × α)} {member : α}
  {arguments : List String}

/-- What names a member of a group is the first word behind the options of the group. -/
lemma exists_of_chooseMember
    (h : chooseMember options members args = .ok (.run (given, member, arguments))) :
    ∃ name, options.scan args = .ok (given, name :: arguments) ∧
      members.lookup name = some member := by
  unfold chooseMember at h
  by_cases hempty : args.isEmpty = true
  · rw [if_pos hempty] at h
    cases h
  · rw [if_neg hempty] at h
    obtain ⟨⟨options', words⟩, hscan, h⟩ := exists_of_bind_eq_ok h
    dsimp only at h
    split at h
    · cases h
    · split at h
      · cases h
      · next name words' =>
        split at h
        · next member' hmember =>
          cases h
          exact ⟨name, eq_ok_of_mapError hscan, hmember⟩
        · obtain ⟨⟨again, words⟩, -, h⟩ := exists_of_bind_eq_ok h
          dsimp only at h
          split at h <;> cases h

/-- In a group without an option `--config` and without options with values, the words in front of
the arguments of a member look like options, up to its name, and none looks like the option
`--config`. -/
lemma exists_front_of_chooseMember (hbehind : options.interspersed = false)
    (hnone : options.named.lookup "--config" = none)
    (hvalue : ∀ p ∈ options.named, ∀ parameter, p.2 ≠ .value parameter)
    (hmember : ∀ p ∈ members, looksLikeOption p.1.toList = false)
    (h : chooseMember options members args = .ok (.run (given, member, arguments))) :
    ∃ front name, args = front ++ name :: arguments ∧ (name, member) ∈ members ∧
      (∀ w ∈ front, looksLikeOption w.toList = true) ∧ ∀ w ∈ front ++ [name], ¬IsMention w := by
  obtain ⟨name, hscan, hlookup⟩ := exists_of_chooseMember h
  obtain ⟨front, rfl, hfront⟩ := exists_front hbehind hnone hvalue hscan
  have hname : ¬IsMention name := by
    intro hmention
    have hlooks := hmember _ (mem_of_lookup_eq hlookup)
    rw [looksLikeOption_of_isMention hmention] at hlooks
    cases hlooks
  exact ⟨front, name, rfl, mem_of_lookup_eq hlookup, fun w hw => (hfront w hw).1,
    List.forall_mem_append.2 ⟨fun w hw => (hfront w hw).2, List.forall_mem_singleton.2 hname⟩⟩

end

/-- Whether words lead to the arguments of a command: they end with its name, and but for its names
they look like options. -/
structure LeadsTo (front : List String) (c : Command) : Prop where
  names : " ".intercalate (front.filter fun w => !looksLikeOption w.toList) = c.words
  last : ∀ w ∈ front.getLast?, looksLikeOption w.toList = false

variable {all : Settings} {count : Nat} {i : Invocation}

/-- The first word that does not look like an option is the name of the command. -/
lemma filter_append_name {name : String} (hfront : ∀ w ∈ front, looksLikeOption w.toList = true)
    (hname : looksLikeOption name.toList = false) :
    (front ++ name :: rest).filter (fun w => !looksLikeOption w.toList) =
      name :: rest.filter fun w => !looksLikeOption w.toList := by
  have hnil : front.filter (fun w => !looksLikeOption w.toList) = [] := by
    rw [List.filter_eq_nil_iff]
    intro w hw
    simp [hfront w hw]
  rw [List.filter_append, hnil, List.nil_append, List.filter_cons_of_pos (by simp [hname])]

/-- A command of the program is named by its words. -/
lemma words_of_mem_programMembers {name : String} {c : Command}
    (h : (name, Member.command c) ∈ programMembers) : name = c.words := by
  revert h
  cases c <;> simp [programMembers, Command.words]

/-- There is one group of commands, named for the scenarios. -/
lemma eq_of_mem_programMembers {name : String} (h : (name, Member.scenarios) ∈ programMembers) :
    name = "scenarios" := by
  revert h
  simp [programMembers]

/-- A command of the group is named by the name of the group and its own. -/
lemma words_of_mem_scenarioMembers {name : String} {c : Command}
    (h : (name, c) ∈ scenarioMembers) : " ".intercalate ["scenarios", name] = c.words := by
  have hall : ∀ p ∈ scenarioMembers, " ".intercalate ["scenarios", p.1] = p.2.words := by decide
  exact hall _ h

/-- The words in front of the arguments of a command about scenarios, behind the name of the
group. -/
lemma exists_leadsTo_scenario (h : scenarioInvocation all args = .ok (.run i)) :
    ∃ front name arguments, args = front ++ name :: arguments ∧
      " ".intercalate ["scenarios", name] = i.request.command.words ∧
      (∀ w ∈ front, looksLikeOption w.toList = true) ∧ looksLikeOption name.toList = false ∧
      (∀ w ∈ front ++ [name], ¬IsMention w) ∧
      i.request.command.invocation all arguments = .ok (.run i) := by
  obtain ⟨chosen, hchosen, hrun⟩ := exists_of_bind_eq_ok h
  cases chosen with
  | help => cases hrun
  | run chosen =>
    obtain ⟨given, c, arguments⟩ := chosen
    have hwords : ∀ p ∈ scenarioMembers, looksLikeOption p.1.toList = false := by decide
    obtain ⟨front, name, rfl, hmember, hlooks, hfront⟩ :=
      exists_front_of_chooseMember rfl rfl (by simp [scenarioOptions]) hwords hchosen
    obtain ⟨-, -, -, hc, -⟩ := Command.exists_of_invocation hrun
    exact ⟨front, name, arguments, rfl, hc ▸ words_of_mem_scenarioMembers hmember, hlooks,
      hwords _ hmember, hfront, hc ▸ hrun⟩

/-- In front of the arguments of a command, nothing looks like the option `--config`. -/
lemma exists_leadsTo (h : invocation all args = .ok (.run (count, i))) :
    ∃ front arguments, args = front ++ arguments ∧ LeadsTo front i.request.command ∧
      (∀ w ∈ front, ¬IsMention w) ∧ i.request.command.invocation all arguments = .ok (.run i) := by
  obtain ⟨chosen, hchosen, hrun⟩ := exists_of_bind_eq_ok h
  cases chosen with
  | help => cases hrun
  | run chosen =>
    obtain ⟨given, member, arguments⟩ := chosen
    have hwords : ∀ p ∈ programMembers, looksLikeOption p.1.toList = false := by decide
    obtain ⟨front, name, rfl, hmember, hlooks, hfront⟩ :=
      exists_front_of_chooseMember rfl rfl (by simp [programOptions]) hwords hchosen
    have hname := hwords _ hmember
    cases member with
    | command c =>
      obtain ⟨asked, hasked, hrun⟩ := exists_of_bind_eq_ok hrun
      cases asked with
      | help => cases hrun
      | run i' =>
        cases hrun
        obtain ⟨-, -, -, hc, -⟩ := Command.exists_of_invocation hasked
        refine ⟨front ++ [name], arguments, by simp, ⟨?_, by simp [hname]⟩, hfront, hc ▸ hasked⟩
        rw [filter_append_name hlooks hname, hc, words_of_mem_programMembers hmember]
        exact String.intercalate_singleton
    | scenarios =>
      obtain ⟨asked, hasked, hrun⟩ := exists_of_bind_eq_ok hrun
      cases asked with
      | help => cases hrun
      | run i' =>
        cases hrun
        -- A scenario command has a second word, chosen behind the first one.
        obtain ⟨behind, word, more, rfl, hnames, hlooks', hword, hbehind, hinvocation⟩ :=
          exists_leadsTo_scenario hasked
        obtain rfl := eq_of_mem_programMembers hmember
        refine ⟨(front ++ ["scenarios"]) ++ (behind ++ [word]), more, by simp, ⟨?_, ?_⟩,
          List.forall_mem_append.2 ⟨hfront, hbehind⟩, hinvocation⟩
        · rw [List.append_assoc, List.singleton_append, filter_append_name hlooks hname,
            filter_append_name hlooks' hword]
          exact hnames
        · rw [← List.append_assoc, List.getLast?_concat]
          exact fun w hw => Option.mem_some_iff.1 hw ▸ hword

/-- If a command line is accepted for a command, its words are those that lead to the command, then
parts that are positional arguments and options of the command, and then, perhaps, two dashes that
end the options and more arguments.  The file that the command is given is the last value of the
option `--config`, and settings come from the file that is the first value of all words that look
like this option; without a value each is the default.  All values of the option are values of words
that look like it, and there are no more of these if neither an argument that is the value of an
option looks like it nor any behind all options; so then both files are the same if the option is
given at most once. -/
theorem fileName_of_invocation (h : invocation all args = .ok (.run (count, i))) :
    ∃ front pieces tail, args = front ++ (pieces.flatMap Piece.words ++ tail) ∧
      LeadsTo front i.request.command ∧ (∀ p ∈ pieces, p.IsOf i.request.command.options) ∧
      (tail = [] ∨ tail.head? = some "--") ∧
      i.configName = (configNames pieces).getLastD defaultFileName ∧
      (∀ program, fileName (program :: args) = (mentions args).headD defaultFileName) ∧
      (configNames pieces).Sublist (mentions args) ∧
      (NothingStray pieces tail → mentions args = configNames pieces ∧
        ((configNames pieces).length ≤ 1 → ∀ program, fileName (program :: args) =
          i.configName)) := by
  obtain ⟨front, arguments, rfl, hleads, hfront, hinvocation⟩ := exists_leadsTo h
  obtain ⟨given, positional, hscan, -, hname⟩ := Command.exists_of_invocation hinvocation
  have hsets := i.request.command.sets_config
  obtain ⟨pieces, tail, hwritten⟩ := exists_pieces rfl i.request.command.isLong_of_mem hscan
  obtain ⟨rfl, hisOf, htail, hvalues⟩ := hwritten
  have hgiven : i.configName = (configNames pieces).getLastD defaultFileName := by
    rw [hname, Given.valueOf?_eq, hvalues _ _ hsets, List.getLastD_eq_getLast?]
    rfl
  -- No word in front of the arguments looks like the option, so only the arguments can.
  have hmentions : mentions (front ++ (pieces.flatMap Piece.words ++ tail)) =
      mentions (pieces.flatMap Piece.words ++ tail) := mentions_append_of_not hfront
  refine ⟨front, pieces, tail, rfl, hleads, hisOf, htail, hgiven, fun _ => fileNameIn_eq _,
    hmentions ▸ configNames_sublist pieces tail, fun hstray => ?_⟩
  have hall := hmentions.trans (mentions_pieces i.request.command.not_mem_of_mem hsets hisOf hstray)
  refine ⟨hall, fun hlength program => ?_⟩
  rw [fileName, List.tail_cons, fileNameIn_eq, hall, hgiven]
  match configNames pieces, hlength with
  | [], _ => rfl
  | [name], _ => rfl

/-- An explanation of `up` with the option `--config` given twice. -/
def namedTwice : Invocation :=
  ⟨.explain "up" "text" (.plain defaultTheme), "b.json", none⟩

/-- Of the files `a.json` and `b.json` the command is given the second, and settings come from the
first. -/
theorem fileName_of_invocation_namedTwice :
    invocation [] ["explain", "--config=a.json", "up", "--config", "b.json"] =
      .ok (.run (0, namedTwice)) ∧
      ∃ pieces, (configNames pieces).getLastD defaultFileName = "b.json" ∧
        fileName ["promql-tutor", "explain", "--config=a.json", "up", "--config", "b.json"] =
          "a.json" := by
  have h : invocation [] ["explain", "--config=a.json", "up", "--config", "b.json"] =
      .ok (.run (0, namedTwice)) := rfl
  obtain ⟨front, pieces, tail, -, -, -, -, hgiven, hfile, -⟩ := fileName_of_invocation h
  exact ⟨h, pieces, hgiven.symm, hfile "promql-tutor"⟩

end Cli

end PromqlGuide
