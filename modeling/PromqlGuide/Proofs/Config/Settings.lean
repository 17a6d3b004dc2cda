import PromqlGuide.Config.Defaults
import PromqlGuide.Proofs.Json.Members

/-!
# Settings from options

Every option that is accepted asks for one setting, apart from a colour option that is switched off,
which asks for none (`Config.Sets`).  The options of a file are accepted together or not at all,
whatever their order, and the settings are then those that the options ask for, each option for
itself.

Main statement: which options are accepted, and what their settings are
(`Config.settings_of_options`).
-/
namespace PromqlGuide

/-! ### What options ask for -/

/-- Whether a text is more than whitespace. -/
inductive LooseText.IsVisible : LooseText → Prop where
  | plain {s : String} {c : Char} : c ∈ s.toList → Text.isSpace c = false → IsVisible (.plain s)
  | broken {points : List CodePoint} : IsVisible (.broken points)

namespace Config

/-- Whether an option asks for a setting. -/
inductive Sets : String × Json → String × Json → Prop where
  | verbose (b : Bool) : Sets ("--verbose", .bool b) ("verbose", .int (if b then 1 else 0))
  | verbosity {n : Int} : 0 ≤ n → Sets ("--verbose", .int n) ("verbose", .int n)
  | color : Sets ("--color", .bool true) ("color_flag", .bool true)
  | noColor : Sets ("--no-color", .bool true) ("color_flag", .bool false)
  | out {s : String} {f : OutputFormat} : Text.lowercase (Text.trim s) = f.name →
      Sets ("--out", .str s) ("out", .str s)
  | theme {t : LooseText} : t.IsVisible → Sets ("--out-theme", .text t) ("out_theme", .text t)

/-- Whether an option is one that there is, with a value that it may have. -/
inductive IsOption : String × Json → Prop where
  | sets {entry setting : String × Json} : Sets entry setting → IsOption entry
  | colorOff : IsOption ("--color", .bool false)
  | noColorOff : IsOption ("--no-color", .bool false)

/-- Whether options may be given together: there are all of them, and they do not contradict each
other. -/
structure AreOptions (options : Settings) : Prop where
  each : ∀ entry ∈ options, IsOption entry
  agree : ¬ (("--color", .bool true) ∈ options ∧ ("--no-color", .bool true) ∈ options)

variable {options start all colors : Settings} {entry entry' s s' : String × Json}
    {option name : String}
  {value : Json}

/-- An option asks for one setting. -/
lemma Sets.unique (h : Sets entry s) (h' : Sets entry s') : s = s' := by
  generalize hentry : entry = e at h'
  cases h <;> cases h' <;> simp_all

/-- Options with different names ask for different settings, those about colour apart. -/
lemma Sets.name_eq (h : Sets entry s) (h' : Sets entry' s') (hs : s.1 = s'.1)
    (hcolor : isColorOption entry.1 = false) : entry.1 = entry'.1 := by
  cases h <;> cases h' <;> simp_all [isColorOption]

/-- An option that is not about colour sets no colour. -/
lemma Sets.ne_color (h : Sets entry s) (hcolor : isColorOption entry.1 = false) :
    s.1 ≠ "color_flag" := by
  cases h <;> simp_all [isColorOption]

/-- A colour option is one if it is true or false. -/
lemma isOption_color_iff (hcolor : isColorOption entry.1 = true) :
    IsOption entry ↔ ∃ b, entry.2 = .bool b := by
  constructor
  · rintro (h | _ | _)
    · cases h <;> simp_all [isColorOption]
    · exact ⟨false, rfl⟩
    · exact ⟨false, rfl⟩
  · obtain ⟨name, value⟩ := entry
    rintro ⟨b, rfl⟩
    simp only [isColorOption, Bool.or_eq_true, beq_iff_eq] at hcolor
    rcases hcolor with rfl | rfl
    · cases b with
      | true => exact .sets .color
      | false => exact .colorOff
    · cases b with
      | true => exact .sets .noColor
      | false => exact .noColorOff

/-- An option that is not about colour is one if it asks for a setting. -/
lemma isOption_iff (hcolor : isColorOption entry.1 = false) :
    IsOption entry ↔ ∃ s, Sets entry s := by
  constructor
  · rintro (h | _ | _)
    · exact ⟨_, h⟩
    · cases hcolor
    · cases hcolor
  · rintro ⟨s, h⟩
    exact .sets h

/-! ### Values of options -/

/-- Nothing is left of a text exactly if it is all space. -/
lemma trimmed_eq_nil_iff {cs : List Char} :
    Text.trimmed cs = [] ↔ ∀ c ∈ cs, Text.isSpace c = true := by
  rw [Text.trimmed, List.reverse_eq_nil_iff, List.dropWhile_eq_nil_iff]
  simp only [List.mem_reverse]
  constructor
  · intro h
    -- What is left starts with no whitespace, so nothing is left.
    rw [← List.dropWhile_eq_nil_iff]
    by_contra hne
    have hvisible := List.head_dropWhile_not Text.isSpace hne
    rw [h _ (List.head_mem hne)] at hvisible
    cases hvisible
  · intro h
    rw [List.dropWhile_eq_nil_iff.2 h]
    simp

/-- A text is not blank exactly if something in it is visible. -/
lemma isBlank_eq_false_iff {t : LooseText} : t.isBlank = false ↔ t.IsVisible := by
  cases t with
  | broken points => exact iff_of_true rfl .broken
  | plain text =>
    have hblank : (Text.trim text).isEmpty = true ↔ ∀ c ∈ text.toList, Text.isSpace c = true := by
      rw [String.isEmpty_iff, Text.trim, ← String.ofList_nil, String.ofList_inj, trimmed_eq_nil_iff]
    rw [LooseText.isBlank, ← Bool.not_eq_true, hblank]
    constructor
    · intro h
      push Not at h
      obtain ⟨c, hc, hvisible⟩ := h
      exact .plain hc (Bool.eq_false_iff.2 hvisible)
    · rintro ⟨hc, hvisible⟩ h
      rw [h _ hc] at hvisible
      cases hvisible

/-- A format is found under a name that is its own, but for whitespace around it and letter case. -/
lemma ofName_eq_some_iff {text : String} {f : OutputFormat} :
    OutputFormat.ofName? text = some f ↔ Text.lowercase (Text.trim text) = f.name := by
  change OutputFormat.all.find? (fun g => g.name == Text.lowercase (Text.trim text)) = some f ↔ _
  constructor
  · intro h
    have hname := List.find?_some h
    exact (beq_iff_eq.1 hname).symm
  · intro h
    rw [h]
    cases f <;> rfl

/-- Text that is a name of a format, but for whitespace around it and letter case, is not blank. -/
lemma isVisible_of_ofName {text : String} {f : OutputFormat}
    (h : OutputFormat.ofName? text = some f) : (LooseText.plain text).IsVisible := by
  rw [← isBlank_eq_false_iff, ← Bool.not_eq_true]
  intro hblank
  have htrim : Text.trim text = "" := String.isEmpty_iff.1 hblank
  rw [ofName_eq_some_iff, htrim] at h
  revert h
  cases f <;> decide

/-- What is accepted as the text of an option is more than whitespace, and a format if it has to
be. -/
lemma text_eq_some_iff {t : LooseText} :
    text? option value = some t ↔ value = .text t ∧ t.IsVisible ∧
      (option = "--out" → ∃ text f, t = .plain text ∧ OutputFormat.ofName? text = some f) := by
  have hformat : t.plain?.bind OutputFormat.ofName? ≠ none ↔
      ∃ text f, t = .plain text ∧ OutputFormat.ofName? text = some f := by
    cases t <;> simp [LooseText.plain?, Option.ne_none_iff_exists']
  rw [← isBlank_eq_false_iff, ← hformat]
  unfold text?
  constructor
  · intro h
    split at h
    · split_ifs at h with hblank hout
      cases h
      exact ⟨rfl, Bool.eq_false_iff.2 hblank, fun heq hnone => hout ⟨heq, hnone⟩⟩
    · cases h
  · rintro ⟨rfl, hblank, hout⟩
    have hknown : ¬ (option = "--out" ∧ t.plain?.bind OutputFormat.ofName? = none) := fun h =>
      hout h.1 h.2
    simp only [hblank, Bool.false_eq_true, if_false, if_neg hknown]

/-! ### Single options -/

/-- The option about verbosity sets its number, if it has one. -/
lemma sets_verbose_iff :
    Sets ("--verbose", value) s ↔ ∃ n, verbosity? value = some n ∧ s = ("verbose", .int n) := by
  constructor
  · intro h
    generalize hentry : ("--verbose", value) = entry at h
    cases h <;> simp_all [verbosity?]
  · rintro ⟨n, hn, rfl⟩
    unfold verbosity? at hn
    split at hn
    · cases hn
      exact .verbose _
    · split_ifs at hn with hpos
      cases hn
      exact .verbosity hpos
    · cases hn

/-- An option with a text sets its parameter to the text, if it has one. -/
lemma sets_text_iff {parameter : String} (h : textParameter? option = some parameter) :
    Sets (option, value) s ↔ ∃ t, text? option value = some t ∧ s = (parameter, .text t) := by
  simp only [text_eq_some_iff]
  constructor
  · intro hsets
    generalize hentry : (option, value) = entry at hsets
    cases hsets <;> obtain ⟨rfl, rfl⟩ := Prod.mk.inj hentry <;> cases h
    · next hf =>
      have hformat := ofName_eq_some_iff.2 hf
      exact ⟨_, ⟨rfl, isVisible_of_ofName hformat, fun _ => ⟨_, _, rfl, hformat⟩⟩, rfl⟩
    · next ht => exact ⟨_, ⟨rfl, ht, by simp⟩, rfl⟩
  · rintro ⟨t, ⟨rfl, hvisible, hformat⟩, rfl⟩
    unfold textParameter? at h
    split_ifs at h with hout htheme
    · cases h
      obtain ⟨text, f, rfl, hf⟩ := hformat hout
      exact hout ▸ .out (ofName_eq_some_iff.1 hf)
    · cases h
      exact htheme ▸ .theme hvisible

/-- An option that is not about colour is applied by putting the setting that it asks for. -/
lemma apply_eq_some_iff (hcolor : isColorOption option = false) :
    apply option value start = some all ↔
      ∃ s, Sets (option, value) s ∧ all = Json.put s.1 s.2 start := by
  unfold apply
  split_ifs with hverbose
  · subst hverbose
    simp only [sets_verbose_iff, Option.map_eq_some_iff]
    constructor
    · rintro ⟨n, hn, rfl⟩
      exact ⟨_, ⟨n, hn, rfl⟩, rfl⟩
    · rintro ⟨s, ⟨n, hn, rfl⟩, rfl⟩
      exact ⟨n, hn, rfl⟩
  · cases hparameter : textParameter? option with
    | some parameter =>
      simp only [sets_text_iff hparameter, Option.bind_eq_bind, Option.bind_some,
        Option.bind_eq_some_iff, Option.some.injEq]
      constructor
      · rintro ⟨t, ht, rfl⟩
        exact ⟨_, ⟨t, ht, rfl⟩, rfl⟩
      · rintro ⟨s, ⟨t, ht, rfl⟩, rfl⟩
        exact ⟨t, ht, rfl⟩
    | none =>
      refine iff_of_false nofun ?_
      rintro ⟨s, h, -⟩
      generalize hentry : (option, value) = entry at h
      cases h <;> simp_all [textParameter?, isColorOption]

/-! ### All options but those about colour -/

/-- The options are applied if each of them asks for a setting. -/
lemma exists_applyAll_iff : (∃ all, applyAll start options = .ok all) ↔
    ∀ entry ∈ options, isColorOption entry.1 = false → ∃ s, Sets entry s := by
  induction options generalizing start with
  | nil => exact iff_of_true ⟨start, rfl⟩ (by simp)
  | cons entry options ih =>
    obtain ⟨option, value⟩ := entry
    rw [applyAll, List.forall_mem_cons]
    cases hcolor : isColorOption option with
    | true => simpa [hcolor] using ih
    | false =>
      simp only [Bool.false_eq_true, if_false, forall_const]
      cases happly : apply option value start with
      | none =>
        refine iff_of_false (by simp) ?_
        rintro ⟨⟨s, hs⟩, -⟩
        rw [(apply_eq_some_iff hcolor).2 ⟨s, hs, rfl⟩] at happly
        cases happly
      | some next =>
        obtain ⟨s, hs, -⟩ := (apply_eq_some_iff hcolor).1 happly
        exact ih.trans (and_iff_right ⟨s, hs⟩).symm

/-- None of the settings has a parameter that one of the options sets, those about colour aside. -/
def Apart (start options : Settings) : Prop :=
  ∀ m ∈ start, ∀ entry ∈ options, isColorOption entry.1 = false → ∀ s, Sets entry s → m.1 ≠ s.1

/-- Without the first option the others are still kept apart. -/
lemma Apart.tail (h : Apart start (entry :: options)) : Apart start options :=
  fun m hm e he => h m hm e (List.mem_cons_of_mem _ he)

/-- What the first option asks for has a parameter that is not set yet. -/
lemma Apart.new (h : Apart start (entry :: options)) (hcolor : isColorOption entry.1 = false)
    (hs : Sets entry s) : s.1 ∉ start.map Prod.fst := by
  intro hmem
  obtain ⟨m, hm, hkey⟩ := List.mem_map.1 hmem
  exact h m hm entry List.mem_cons_self hcolor s hs hkey

/-- What an option asks for is apart from the options with other names. -/
lemma Apart.append (h : Apart start options) (hs : Sets entry s)
    (hname : entry.1 ∉ options.map Prod.fst) : Apart (start ++ [s]) options := by
  intro m hm e he hcolor s' hs'
  rcases List.mem_append.1 hm with hm | hm
  · exact h m hm e he hcolor s' hs'
  · obtain rfl := List.mem_singleton.1 hm
    intro hparameter
    exact hname (List.mem_map.2 ⟨e, he, hs'.name_eq hs hparameter.symm hcolor⟩)

/-- Applied on top of settings that none of them asks for, options with different names add what
they ask for. -/
lemma applyAll_eq_ok (hoptions : (options.map Prod.fst).Nodup) (hstart : (start.map Prod.fst).Nodup)
    (hapart : Apart start options) (h : applyAll start options = .ok all) :
    (all.map Prod.fst).Nodup ∧
      ∀ s, s ∈ all ↔ s ∈ start ∨
        ∃ entry ∈ options, isColorOption entry.1 = false ∧ Sets entry s := by
  -- `Apart` keeps the names that are still to come out of what was set before.
  induction options generalizing start with
  | nil =>
    cases h
    exact ⟨hstart, by simp⟩
  | cons entry options ih =>
    obtain ⟨option, value⟩ := entry
    rw [List.map_cons, List.nodup_cons] at hoptions
    rw [applyAll] at h
    cases hcolor : isColorOption option with
    | true =>
      rw [if_pos hcolor] at h
      obtain ⟨hnodup, hmem⟩ := ih hoptions.2 hstart hapart.tail h
      exact ⟨hnodup, fun s => by simp [hmem, hcolor]⟩
    | false =>
      rw [if_neg (Bool.eq_false_iff.1 hcolor)] at h
      cases happly : apply option value start with
      | none =>
        rw [happly] at h
        cases h
      | some next =>
        rw [happly] at h
        obtain ⟨s, hs, rfl⟩ := (apply_eq_some_iff hcolor).1 happly
        have hnew := hapart.new hcolor hs
        rw [Json.put_new _ hnew] at h
        obtain ⟨hnodup, hmem⟩ := ih hoptions.2 (Json.nodup_append_new hstart hnew s.2)
          (hapart.tail.append hs hoptions.1) h
        refine ⟨hnodup, fun s' => ?_⟩
        rw [hmem, List.mem_append, List.mem_singleton, List.exists_mem_cons_iff, or_assoc]
        refine or_congr_right (or_congr_left ⟨?_, fun h => h.2.unique hs⟩)
        rintro rfl
        exact ⟨hcolor, hs⟩

/-! ### Options about colour -/

/-- A switch is understood if it is true or false, and it is on if it is true. -/
lemma switch_eq_some_iff (hoptions : (options.map Prod.fst).Nodup) {b : Bool} :
    switch? options name = some b ↔
      (∀ v, (name, v) ∈ options → ∃ b, v = .bool b) ∧
      (b = true ↔ (name, .bool true) ∈ options) := by
  simp only [← Json.lookup_eq_some_iff hoptions]
  unfold switch?
  cases Json.lookup name options with
  | none => cases b <;> simp
  | some v =>
    cases v with
    | bool c => cases b <;> cases c <;> simp
    | _ => simp

/-- A switch has a value exactly if all its settings are truth values. -/
lemma exists_switch_iff (hoptions : (options.map Prod.fst).Nodup) :
    (∃ b, switch? options name = some b) ↔ ∀ v, (name, v) ∈ options → ∃ b, v = .bool b := by
  classical
  simp only [switch_eq_some_iff hoptions]
  exact ⟨fun h => h.choose_spec.1, fun h =>
    ⟨decide ((name, .bool true) ∈ options), h, decide_eq_true_iff⟩⟩

/-- The options about colour are understood if each of the two is, and they do not contradict each
other. -/
lemma exists_colorDefaults_iff (hoptions : (options.map Prod.fst).Nodup) :
    (∃ colors, colorDefaults options = some colors) ↔
      (∀ entry ∈ options, isColorOption entry.1 = true → IsOption entry) ∧
      ¬ (("--color", .bool true) ∈ options ∧ ("--no-color", .bool true) ∈ options) := by
  have hboth : (∀ entry ∈ options, isColorOption entry.1 = true → IsOption entry) ↔
      (∃ b, switch? options "--color" = some b) ∧ ∃ b, switch? options "--no-color" = some b := by
    rw [exists_switch_iff hoptions, exists_switch_iff hoptions]
    constructor
    · intro h
      exact ⟨fun v hv => (isOption_color_iff rfl).1 (h _ hv rfl),
        fun v hv => (isOption_color_iff rfl).1 (h _ hv rfl)⟩
    · rintro ⟨hcolor, hnoColor⟩ ⟨name, v⟩ hv hname
      rw [isOption_color_iff hname]
      simp only [isColorOption, Bool.or_eq_true, beq_iff_eq] at hname
      rcases hname with rfl | rfl
      · exact hcolor v hv
      · exact hnoColor v hv
  rw [hboth]
  unfold colorDefaults
  cases hcolor : switch? options "--color" with
  | none => simp
  | some b =>
    cases hnoColor : switch? options "--no-color" with
    | none => simp
    | some c =>
      rw [← ((switch_eq_some_iff hoptions).1 hcolor).2, ← ((switch_eq_some_iff hoptions).1
        hnoColor).2]
      cases b <;> cases c <;> simp

/-- The settings of the colour options are those that they ask for. -/
lemma mem_colorDefaults (hoptions : (options.map Prod.fst).Nodup)
    (h : colorDefaults options = some colors) :
    (colors.map Prod.fst).Nodup ∧
      ∀ s, s ∈ colors ↔ ∃ entry ∈ options, isColorOption entry.1 = true ∧ Sets entry s := by
  have hsets : ∀ s, (∃ entry ∈ options, isColorOption entry.1 = true ∧ Sets entry s) ↔
      ("--color", .bool true) ∈ options ∧ s = ("color_flag", .bool true) ∨
        ("--no-color", .bool true) ∈ options ∧ s = ("color_flag", .bool false) := by
    intro s
    constructor
    · rintro ⟨entry, hentry, hcolor, hs⟩
      cases hs with
      | color => exact Or.inl ⟨hentry, rfl⟩
      | noColor => exact Or.inr ⟨hentry, rfl⟩
      | _ => cases hcolor
    · rintro (⟨hentry, rfl⟩ | ⟨hentry, rfl⟩)
      · exact ⟨_, hentry, rfl, .color⟩
      · exact ⟨_, hentry, rfl, .noColor⟩
  simp only [hsets]
  unfold colorDefaults at h
  cases hcolor : switch? options "--color" with
  | none => simp [hcolor] at h
  | some b =>
    cases hnoColor : switch? options "--no-color" with
    | none => simp [hcolor, hnoColor] at h
    | some c =>
      rw [← ((switch_eq_some_iff hoptions).1 hcolor).2, ← ((switch_eq_some_iff hoptions).1
        hnoColor).2]
      rw [hcolor, hnoColor] at h
      cases b <;> cases c <;> cases h <;> simp

/-! ### All options -/

/-- There is a format of the name that is set. -/
lemma Sets.exists_format (h : Sets entry s) (hout : s.1 = "out") :
    ∃ text f, s.2 = .str text ∧ OutputFormat.ofName text = .ok f := by
  cases h with
  | @out text f hf => exact ⟨text, f, rfl, by rw [OutputFormat.ofName, ofName_eq_some_iff.2 hf]⟩
  | _ => simp at hout

/-- The settings of options with different names are those that they ask for. -/
lemma mem_settings (hoptions : (options.map Prod.fst).Nodup) (h : (settings options).1 = some all) :
    (all.map Prod.fst).Nodup ∧ ∀ s, s ∈ all ↔ ∃ entry ∈ options, Sets entry s := by
  unfold settings at h
  cases hcolors : colorDefaults options with
  | none => simp [hcolors] at h
  | some colors =>
    cases happly : applyAll colors options with
    | error entry => simp [hcolors, happly] at h
    | ok all' =>
      obtain rfl : all' = all := by simpa [hcolors, happly] using h
      obtain ⟨hnodup, hmem⟩ := mem_colorDefaults hoptions hcolors
      have hapart : Apart colors options := by
        intro m hm entry _ hcolor s hs
        rw [color_of_mem hcolors hm]
        exact (hs.ne_color hcolor).symm
      obtain ⟨hall, hmemAll⟩ := applyAll_eq_ok hoptions hnodup hapart happly
      refine ⟨hall, fun s => ?_⟩
      rw [hmemAll, hmem]
      constructor
      · rintro (⟨entry, hentry, -, hs⟩ | ⟨entry, hentry, -, hs⟩) <;> exact ⟨entry, hentry, hs⟩
      · rintro ⟨entry, hentry, hs⟩
        cases hcolor : isColorOption entry.1 with
        | true => exact Or.inl ⟨entry, hentry, hcolor, hs⟩
        | false => exact Or.inr ⟨entry, hentry, hcolor, hs⟩

/-- Options with different names have settings exactly if they may be given together. -/
lemma exists_settings_iff (hoptions : (options.map Prod.fst).Nodup) :
    (∃ all, (settings options).1 = some all) ↔ AreOptions options := by
  have hsettings : (∃ all, (settings options).1 = some all) ↔
      (∃ colors, colorDefaults options = some colors) ∧
        ∃ all, applyAll ((colorDefaults options).getD []) options = .ok all := by
    unfold settings
    cases hcolors : colorDefaults options with
    | none => simp
    | some colors => cases happly : applyAll colors options <;> simp [happly]
  rw [hsettings, exists_colorDefaults_iff hoptions, exists_applyAll_iff]
  constructor
  · rintro ⟨⟨hcolors, hagree⟩, hothers⟩
    refine ⟨fun entry hentry => ?_, hagree⟩
    cases hcolor : isColorOption entry.1 with
    | true => exact hcolors entry hentry hcolor
    | false => exact (isOption_iff hcolor).2 (hothers entry hentry hcolor)
  · intro h
    exact ⟨⟨fun entry hentry _ => h.each entry hentry, h.agree⟩,
      fun entry hentry hcolor => (isOption_iff hcolor).1 (h.each entry hentry)⟩

/-- The order of options does not matter for whether they are options. -/
lemma AreOptions.of_perm {options' : Settings} (hperm : options'.Perm options)
    (h : AreOptions options) : AreOptions options' := by
  refine ⟨fun entry hentry => h.each entry (hperm.mem_iff.1 hentry), ?_⟩
  rw [hperm.mem_iff, hperm.mem_iff]
  exact h.agree

/-- Options with different names have settings if and only if they may be given together.  The
settings are then exactly those that the options ask for, one for a parameter; they are the same in
whatever order the options are, and there is an output format of the name that is set. -/
theorem settings_of_options (hoptions : (options.map Prod.fst).Nodup) :
    ((∃ all, (settings options).1 = some all) ↔ AreOptions options) ∧
      ∀ all, (settings options).1 = some all →
        (all.map Prod.fst).Nodup ∧ (∀ s, s ∈ all ↔ ∃ entry ∈ options, Sets entry s) ∧
        (∀ options', options'.Perm options →
          ∃ all', (settings options').1 = some all' ∧ all'.Perm all) ∧
        ∀ value, ("out", value) ∈ all → ∃ text f, value = .str text ∧
          OutputFormat.ofName text = .ok f := by
  refine ⟨exists_settings_iff hoptions, fun all h => ?_⟩
  obtain ⟨hnodup, hmem⟩ := mem_settings hoptions h
  refine ⟨hnodup, hmem, fun options' hperm => ?_, fun value hvalue => ?_⟩
  · have hoptions' : (options'.map Prod.fst).Nodup := ((hperm.map Prod.fst).nodup_iff).2 hoptions
    have hvalid : AreOptions options := (exists_settings_iff hoptions).1 ⟨all, h⟩
    obtain ⟨all', h'⟩ := (exists_settings_iff hoptions').2 (hvalid.of_perm hperm)
    obtain ⟨hnodup', hmem'⟩ := mem_settings hoptions' h'
    -- Both lists have the same settings, and neither has one twice.
    refine ⟨all', h', (List.perm_ext_iff_of_nodup hnodup'.of_map hnodup.of_map).2 fun s => ?_⟩
    rw [hmem, hmem']
    simp only [hperm.mem_iff]
  · obtain ⟨entry, -, hs⟩ := (hmem _).1 hvalue
    exact hs.exists_format rfl

/-- A format between blanks and in capitals, a colour option switched off, and a verbosity that is a
switch. -/
def shoutedTree : Settings :=
  [("--out", .str " TREE\t"), ("--no-color", .bool true), ("--verbose", .bool true),
    ("--color", .bool false), ("--out-theme", .str "x")]

/-- The settings that these options ask for. -/
def shoutedTreeSettings : Settings :=
  [("color_flag", .bool false), ("out", .str " TREE\t"), ("verbose", .int 1),
    ("out_theme", .str "x")]

/-- The options for a tree are accepted in both orders, with the same settings. -/
theorem settings_shoutedTree :
    (shoutedTree.map Prod.fst).Nodup ∧ (settings shoutedTree).1 = some shoutedTreeSettings ∧
      AreOptions shoutedTree ∧ (∃ entry ∈ shoutedTree, Sets entry ("verbose", .int 1)) ∧
      ∃ all, (settings shoutedTree.reverse).1 = some all ∧ all.Perm shoutedTreeSettings := by
  have hoptions : (shoutedTree.map Prod.fst).Nodup := by decide
  have hsettings : (settings shoutedTree).1 = some shoutedTreeSettings := by rfl
  obtain ⟨hiff, hall⟩ := settings_of_options hoptions
  obtain ⟨-, hmem, hperm, -⟩ := hall _ hsettings
  exact ⟨hoptions, hsettings, hiff.1 ⟨_, hsettings⟩, (hmem _).1 (by simp [shoutedTreeSettings]),
    hperm _ (List.reverse_perm _)⟩

end Config

end PromqlGuide
