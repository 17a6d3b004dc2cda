import PromqlGuide.Config.Defaults
import PromqlGuide.Proofs.Json.Refusals
import PromqlGuide.Proofs.Text.Utf8

/-!
# Files that are not reported as malformed

A file either has settings or is reported as malformed, with three exceptions: its bytes may be no
text, and its text may hold a whole number with too many digits or a container that is nested too
deep. The last two count only where the reader comes to them, so a text that breaks the grammar
before is malformed.

Main statement: for each fault, the contents that lead to it (`Config.faults_of_bytes`).
-/
namespace PromqlGuide.Config

variable {limits : Limits}

/-- The text of the bytes meets a value that the reader refuses. -/
def MeetsRefusal (limits : Limits) (f : Json.Fault) (data : List Nat) : Prop :=
  ∃ cs, data = Utf8.encode cs ∧ Json.Meets f .value limits.reading (Json.skip cs)

/-- The fault of a file whose text has a fault. -/
def ofJson : Json.Fault → Fault
  | .malformed => .malformed
  | .numeral cause => .numeral cause
  | .tooDeep container => .nesting container

/-- Different reasons of the reader are different reasons to fail. -/
lemma ofJson_injective {f g : Json.Fault} (h : ofJson f = ofJson g) : f = g := by
  cases f <;> cases g <;> simp_all [ofJson]

/-! ### Loading -/

/-- A file that is not text fails for its encoding. -/
lemma exists_load_of_not_text {data : List Nat} (h : ∀ cs, data ≠ Utf8.encode cs) :
    ∃ cause, load limits (.bytes data) = .error (.encoding cause) := by
  cases hdecode : Utf8.decode data with
  | error cause => exact ⟨cause, by simp only [load, hdecode]⟩
  | ok cs => exact absurd (Utf8.decode_eq_ok_iff.1 hdecode) (h cs)

section Text

variable {cs : List Char}

/-- What the reader cannot read is reported with the reader's reason. -/
lemma load_of_read_error {f : Json.Fault} (h : Json.read limits cs = .error f) :
    load limits (.bytes (Utf8.encode cs)) = .error (ofJson f) := by
  cases f <;> simp only [load, Utf8.decode_eq_ok_iff.2 rfl, h, ofJson]

/-- A file that is read is a configuration or malformed. -/
lemma load_of_read_ok {v : Json} (h : Json.read limits cs = .ok v) :
    (∃ config, load limits (.bytes (Utf8.encode cs)) = .ok config) ∨
      load limits (.bytes (Utf8.encode cs)) = .error .malformed := by
  cases v <;> simp [load, Utf8.decode_eq_ok_iff.2 rfl, h]

end Text

/-! ### Settings -/

/-- Either there are settings, or the file is reported as malformed. -/
def IsReported (r : Except Fault Settings) : Prop := (∃ all, r = .ok all) ∨ r = .error .malformed

/-- What is reported to the user is no other failure. -/
lemma IsReported.ne_error {r : Except Fault Settings} (h : IsReported r) {f : Fault}
    (hf : f ≠ .malformed) : r ≠ .error f := by
  rintro rfl
  rcases h with ⟨all, hall⟩ | hmalformed
  · cases hall
  · cases hmalformed
    exact hf rfl

/-- A fault in loading is the fault of the file. -/
lemma ofFile_of_load_error {contents : FileContents} {f : Fault}
    (h : load limits contents = .error f) :
    ofFile limits contents = .error f := by
  unfold ofFile
  rw [h]
  rfl

/-- Where loading succeeds there are settings, or the file is malformed. -/
lemma isReported_of_load_ok {contents : FileContents} {config : Settings}
    (h : load limits contents = .ok config) : IsReported (ofFile limits contents) := by
  unfold ofFile
  rw [h]
  cases hall : (options? config).bind fun options => (settings options).1 with
  | none => exact .inr (by simp [bind, Except.bind, hall])
  | some all => exact .inl ⟨all, by simp [bind, Except.bind, hall]⟩

section Bytes

variable {data : List Nat}

/-- Settings from a file that is not text fail for its encoding. -/
lemma exists_ofFile_of_not_text (h : ∀ cs, data ≠ Utf8.encode cs) :
    ∃ cause, ofFile limits (.bytes data) = .error (.encoding cause) := by
  obtain ⟨cause, hload⟩ := exists_load_of_not_text h
  exact ⟨cause, ofFile_of_load_error hload⟩

/-- A refusal that the text meets is the fault of the file. -/
lemma MeetsRefusal.ofFile {f : Json.Fault} (h : MeetsRefusal limits f data) :
    ofFile limits (.bytes data) = .error (ofJson f) := by
  obtain ⟨cs, rfl, hmeets⟩ := h
  have hread : Json.read limits cs = .error f :=
    (Json.readText_eq_error_iff hmeets.ne_malformed).2 hmeets
  exact ofFile_of_load_error (load_of_read_error hread)

/-- What the reader refuses is not malformed. -/
lemma MeetsRefusal.ne_malformed {f : Json.Fault} (h : MeetsRefusal limits f data) :
    ofJson f ≠ .malformed := by
  obtain ⟨cs, -, hmeets⟩ := h
  cases f with
  | malformed => exact absurd rfl hmeets.ne_malformed
  | numeral | tooDeep => exact Fault.noConfusion

/-- A text that meets no refusal has settings or is reported as malformed. -/
lemma isReported_ofFile {cs : List Char} (h : ∀ f, ¬MeetsRefusal limits f (Utf8.encode cs)) :
    IsReported (ofFile limits (.bytes (Utf8.encode cs))) := by
  cases hread : Json.read limits cs with
  | ok v =>
    rcases load_of_read_ok hread with ⟨config, hload⟩ | hload
    · exact isReported_of_load_ok hload
    · exact .inr (ofFile_of_load_error hload)
  | error f =>
    by_cases hf : f = .malformed
    · subst hf
      exact .inr (ofFile_of_load_error (load_of_read_error hread))
    · exact absurd ⟨cs, rfl, (Json.readText_eq_error_iff hf).1 hread⟩ (h f)

/-- The three kinds of contents, and what becomes of each. -/
lemma ofFile_cases (data : List Nat) :
    ((∀ cs, data ≠ Utf8.encode cs) ∧ ∃ cause, ofFile limits (.bytes data) =
      .error (.encoding cause)) ∨
    (∃ f, MeetsRefusal limits f data ∧ ofFile limits (.bytes data) = .error (ofJson f)) ∨
    ((∃ cs, data = Utf8.encode cs) ∧ (∀ f, ¬MeetsRefusal limits f data) ∧
      IsReported (ofFile limits (.bytes data))) := by
  by_cases htext : ∃ cs, data = Utf8.encode cs
  · obtain ⟨cs, rfl⟩ := htext
    by_cases hmeets : ∃ f, MeetsRefusal limits f (Utf8.encode cs)
    · exact .inr (.inl (hmeets.imp fun f h => ⟨h, h.ofFile⟩))
    · rw [not_exists] at hmeets
      exact .inr (.inr ⟨⟨cs, rfl⟩, hmeets, isReported_ofFile hmeets⟩)
  · rw [not_exists] at htext
    exact .inl ⟨htext, exists_ofFile_of_not_text htext⟩

/-- Settings from a file fail for a refusal exactly if the reader meets it in the text. -/
lemma ofFile_eq_refusal_iff {f : Json.Fault} (hf : ofJson f ≠ .malformed) :
    ofFile limits (.bytes data) = .error (ofJson f) ↔ MeetsRefusal limits f data := by
  refine ⟨fun h => ?_, MeetsRefusal.ofFile⟩
  rcases ofFile_cases data with ⟨-, cause, hcause⟩ | ⟨g, hg, hfault⟩ | ⟨-, -, hreported⟩
  · rw [h] at hcause
    cases f <;> cases hcause
  · rw [h, Except.error.injEq] at hfault
    exact ofJson_injective hfault ▸ hg
  · exact absurd h (hreported.ne_error hf)

/-- Settings from a file fail for its encoding exactly if it is not text. -/
lemma exists_ofFile_encoding_iff :
    (∃ cause, ofFile limits (.bytes data) = .error (.encoding cause)) ↔
    ∀ cs, data ≠ Utf8.encode cs := by
  refine ⟨fun ⟨cause, h⟩ => ?_, exists_ofFile_of_not_text⟩
  rcases ofFile_cases data with ⟨htext, -⟩ | ⟨g, -, hfault⟩ | ⟨-, -, hreported⟩
  · exact htext
  · rw [h] at hfault
    cases g <;> cases hfault
  · exact absurd h (hreported.ne_error nofun)

/-- Settings from a file are there or reported as malformed exactly if the file is text in which the
reader meets no refusal. -/
lemma isReported_ofFile_iff :
    IsReported (ofFile limits (.bytes data)) ↔
      (∃ cs, data = Utf8.encode cs) ∧ ∀ f, ¬MeetsRefusal limits f data := by
  constructor
  · intro h
    rcases ofFile_cases data with ⟨-, cause, hcause⟩ | ⟨g, hg, hfault⟩ | ⟨htext, hmeets, -⟩
    · exact absurd hcause (h.ne_error nofun)
    · exact absurd hfault (h.ne_error hg.ne_malformed)
    · exact ⟨htext, hmeets⟩
  · rintro ⟨⟨cs, rfl⟩, hmeets⟩
    exact isReported_ofFile hmeets

end Bytes

/-! ### The faults of a file -/

/-- What becomes of a file that holds the given bytes. Bytes that are no text, whole numbers with
too many digits and containers that are nested too deep have faults of their own; with any other
bytes there are settings, or the file is reported as malformed. -/
theorem faults_of_bytes {folder : Folder} {commandLine : List String} {data : List Nat}
    (h : readNamed folder (fileName commandLine) = .bytes data) :
    ((∃ cause, ofCommandLine limits folder commandLine = .error (.encoding cause)) ↔
      ∀ cs, data ≠ Utf8.encode cs) ∧
    (∀ n, ofCommandLine limits folder commandLine = .error (.numeral (.reading n)) ↔
      MeetsRefusal limits (.numeral (.reading n)) data) ∧
    (∀ container, ofCommandLine limits folder commandLine = .error (.nesting container) ↔
      MeetsRefusal limits (.tooDeep container) data) ∧
    (IsReported (ofCommandLine limits folder commandLine) ↔
      (∃ cs, data = Utf8.encode cs) ∧ ∀ f, ¬MeetsRefusal limits f data) := by
  rw [ofCommandLine, h]
  exact ⟨exists_ofFile_encoding_iff, fun n =>
    ofFile_eq_refusal_iff (f := .numeral (.reading n)) nofun, fun container =>
      ofFile_eq_refusal_iff (f := .tooDeep container) nofun, isReported_ofFile_iff⟩

/-- A folder in which the file of settings holds the given bytes. -/
def folderOf (data : List Nat) : Folder := ⟨[], [([defaultFileName], .file data)], fun _ => none⟩

/-- The bytes of a text of ones. -/
def ones (n : Nat) : List Nat := Utf8.encode (List.replicate n '1')

/-- In a file of ones that is too long for a number the reader meets the refusal. -/
lemma meetsRefusal_ones {n : Nat} (hn : Text.numeralLimit < n + 1) :
    MeetsRefusal limits (.numeral (.reading (n + 1))) (ones (n + 1)) :=
  ⟨_, rfl, .here (.numeral (Json.longNumber_ones hn))⟩

/-- A byte that starts no character, and a number of one digit too many, are not reported as
malformed. -/
theorem faults_byte_and_ones :
    (readNamed (folderOf [0xFF]) (fileName ["promql-tutor"]) = .bytes [0xFF] ∧
      ∃ cause, ofCommandLine .usual (folderOf [0xFF]) ["promql-tutor"] = .error (.encoding cause)) ∧
    (readNamed (folderOf (ones 4301)) (fileName ["promql-tutor"]) = .bytes (ones 4301) ∧
      ofCommandLine .usual (folderOf (ones 4301)) ["promql-tutor"] =
        .error (.numeral (.reading 4301))) := by
  have hread : ∀ data, readNamed (folderOf data) (fileName ["promql-tutor"]) = .bytes data :=
    fun _ => rfl
  refine ⟨⟨hread _, (faults_of_bytes (hread _)).1.2 fun cs hcs => ?_⟩,
    hread _, ((faults_of_bytes (hread _)).2.1 _).2 (meetsRefusal_ones (by decide))⟩
  cases Utf8.decode_eq_ok_iff.2 hcs

end PromqlGuide.Config
