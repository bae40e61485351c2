import MeetingMail.Proofs.Command.Stages

/-!
How runs fail, and how they come to no end.

* `LoadsSettings`, `ReadsSummary` and `AcceptsResult` say when each stage of a run succeeds, and
  `SettingsFailure`, `SummaryFailure` and `OutputFailure` with which failures it fails.
* `Waits` describes the runs that never end: they read from a device without end, or nobody makes
  room for what they write.
* `FailsWith` is how a run ends that fails: the log tells the failure, and nothing is written.
* `command_stages`: a run succeeds if all its stages do, it does not end if it waits, and else it
  fails with the first failure in the order of its stages and leaves all as it was.
-/

namespace MeetingMail

theorem Exit.code_inj {e e' : Exit} : e.code = e'.code ↔ e = e' := by
  cases e <;> cases e' <;> decide

theorem Settings.ofRead_eq_ok_iff {path : Text} {read : Except Fault ByteArray}
    {settings : Settings} :
    ofRead path read = .ok settings ↔
      read = .error .notFound ∧ settings = compiled ∨
        ∃ t : Text, read = .ok t.encode ∧ ofToml? t = some settings := by
  constructor
  · intro h
    unfold ofRead at h
    split at h
    · rename_i hread
      have hsettings := (Except.ok.inj h).symm
      rcases textOfRead_eq_error_iff.mp hread with hread | ⟨hfault, -⟩
      · exact .inl ⟨hread, hsettings⟩
      · cases hfault
    · cases h
    · rename_i t hread
      split at h
      · rename_i hsettings
        cases h
        exact .inr ⟨t, textOfRead_eq_ok_iff.mp hread, hsettings⟩
      · cases h
  · rintro (⟨rfl, hsettings⟩ | ⟨t, hread, hsettings⟩)
    · exact congrArg Except.ok hsettings.symm
    · simp [ofRead, textOfRead_eq_ok_iff.mpr hread, hsettings]

namespace Sandbox

variable {s s' : Sandbox} {o : Options} {f : Failure} {u : Uptake}

/-! ### What each stage needs -/

/-- Holds if the settings file is missing, or if it is one. -/
def LoadsSettings (s : Sandbox) (o : Options) : Prop :=
  s.bytesAt o.settings = some (.error .notFound) ∨
    ∃ (t : Text) (settings : Settings),
      s.bytesAt o.settings = some (.ok t.encode) ∧ Settings.ofToml? t = some settings

/-- Holds if the summary is a text. -/
def ReadsSummary (s : Sandbox) (o : Options) : Prop :=
  ∃ t : Text, s.summaryBytes o = some (.ok t.encode)

/-- Holds of what becomes of the result where it is written. -/
def ResultMeets (s : Sandbox) (o : Options) (u : Uptake) : Prop :=
  ∃ sink, s.resultSink o = .ok sink ∧ s.uptake sink = u

/-- Holds if the result can be written. -/
def AcceptsResult (s : Sandbox) (o : Options) : Prop := s.ResultMeets o .all

/-! ### How each stage fails -/

/-- The failures to load the settings. -/
inductive SettingsFailure (s : Sandbox) (o : Options) : Failure → Prop where
  | unreadable {fault : Fault} : s.bytesAt o.settings = some (.error fault) → fault ≠ .notFound →
      SettingsFailure s o (.readFile o.settings fault)
  | notText {bytes : ByteArray} : s.bytesAt o.settings = some (.ok bytes) →
      (∀ t, bytes ≠ Text.encode t) → SettingsFailure s o (.readFile o.settings .notUtf8)
  | invalid {t : Text} : s.bytesAt o.settings = some (.ok t.encode) → Settings.ofToml? t = none →
      SettingsFailure s o .invalidSettings

/-- The failures to read the summary. -/
inductive SummaryFailure (s : Sandbox) (o : Options) : Failure → Prop where
  | unreadable {fault : Fault} : s.summaryBytes o = some (.error fault) →
      SummaryFailure s o (o.summaryFailure fault)
  | notText {bytes : ByteArray} : s.summaryBytes o = some (.ok bytes) →
      (∀ t, bytes ≠ Text.encode t) → SummaryFailure s o (o.summaryFailure .notUtf8)

/-- The failures to write the result. -/
inductive OutputFailure (s : Sandbox) (o : Options) : Failure → Prop where
  | noSink {fault : Fault} : s.resultSink o = .error fault →
      OutputFailure s o (o.outputFailure fault)
  | refused : s.ResultMeets o .nothing → OutputFailure s o (o.outputFailure .noSpace)

/-- The first failure that a run meets. -/
inductive FirstFailure (s : Sandbox) (o : Options) (f : Failure) : Prop where
  | settings : s.SettingsFailure o f → FirstFailure s o f
  | summary : s.LoadsSettings o → s.SummaryFailure o f → FirstFailure s o f
  | output : s.LoadsSettings o → s.ReadsSummary o → s.OutputFailure o f → FirstFailure s o f

/-- Holds of the runs that never end. -/
inductive Waits (s : Sandbox) (o : Options) : Prop where
  /-- There is no end of the settings file. -/
  | settings : s.bytesAt o.settings = none → Waits s o
  /-- There is no end of the summary. -/
  | summary : s.LoadsSettings o → s.summaryBytes o = none → Waits s o
  /-- There is no room for the result. -/
  | output : s.LoadsSettings o → s.ReadsSummary o → s.ResultMeets o .stalled → Waits s o

/-! ### Stages by what they need -/

theorem settingsFor_eq_none_iff : s.settingsFor o = none ↔ s.bytesAt o.settings = none :=
  Option.map_eq_none_iff

theorem settingsFor_eq_error_iff : s.settingsFor o = some (.error f) ↔ s.SettingsFailure o f := by
  unfold settingsFor
  rw [Option.map_eq_some_iff]
  constructor
  · rintro ⟨read, hread, h⟩
    unfold Settings.ofRead at h
    split at h
    · cases h
    · rename_i fault hne hfault
      cases h
      rcases textOfRead_eq_error_iff.mp hfault with rfl | ⟨rfl, bytes, rfl, hnot⟩
      · exact .unreadable hread hne
      · exact .notText hread hnot
    · rename_i t htext
      split at h
      · cases h
      · rename_i hinvalid
        cases h
        obtain rfl := textOfRead_eq_ok_iff.mp htext
        exact .invalid hread hinvalid
  · intro h
    cases h with
    | unreadable hread hne =>
        refine ⟨_, hread, ?_⟩
        simp [Settings.ofRead, textOfRead_eq_error_iff.mpr (.inl rfl)]
    | notText hread hnot =>
        refine ⟨_, hread, ?_⟩
        simp [Settings.ofRead, textOfRead_eq_error_iff.mpr (.inr ⟨rfl, _, rfl, hnot⟩)]
    | invalid hread hinvalid =>
        refine ⟨_, hread, ?_⟩
        simp [Settings.ofRead, textOfRead_eq_ok_iff.mpr rfl, hinvalid]

theorem settingsFor_eq_ok_iff {settings : Settings} :
    s.settingsFor o = some (.ok settings) ↔
      s.bytesAt o.settings = some (.error .notFound) ∧ settings = .compiled ∨
        ∃ t : Text, s.bytesAt o.settings = some (.ok t.encode) ∧
          Settings.ofToml? t = some settings := by
  unfold settingsFor
  simp only [Option.map_eq_some_iff, Settings.ofRead_eq_ok_iff]
  constructor
  · rintro ⟨read, hread, ⟨rfl, hsettings⟩ | ⟨t, rfl, hsettings⟩⟩
    · exact .inl ⟨hread, hsettings⟩
    · exact .inr ⟨t, hread, hsettings⟩
  · rintro (⟨hread, hsettings⟩ | ⟨t, hread, hsettings⟩)
    · exact ⟨_, hread, .inl ⟨rfl, hsettings⟩⟩
    · exact ⟨_, hread, .inr ⟨t, rfl, hsettings⟩⟩

theorem exists_settingsFor_iff :
    (∃ settings, s.settingsFor o = some (.ok settings)) ↔ s.LoadsSettings o := by
  simp only [settingsFor_eq_ok_iff]
  constructor
  · rintro ⟨settings, ⟨hmissing, -⟩ | ⟨t, hread, hsettings⟩⟩
    · exact .inl hmissing
    · exact .inr ⟨t, settings, hread, hsettings⟩
  · rintro (hmissing | ⟨t, settings, hread, hsettings⟩)
    · exact ⟨.compiled, .inl ⟨hmissing, rfl⟩⟩
    · exact ⟨settings, .inr ⟨t, hread, hsettings⟩⟩

theorem summaryFor_eq_none_iff : s.summaryFor o = none ↔ s.summaryBytes o = none :=
  Option.map_eq_none_iff

theorem summaryFor_eq_error_iff : s.summaryFor o = some (.error f) ↔ s.SummaryFailure o f := by
  unfold summaryFor
  rw [Option.map_eq_some_iff]
  constructor
  · rintro ⟨read, hread, h⟩
    rcases htext : textOfRead read with fault | t
    · rw [htext] at h
      cases h
      rcases textOfRead_eq_error_iff.mp htext with rfl | ⟨rfl, bytes, rfl, hnot⟩
      · exact .unreadable hread
      · exact .notText hread hnot
    · rw [htext] at h
      cases h
  · intro h
    cases h with
    | unreadable hread => exact ⟨_, hread, by rw [textOfRead_eq_error_iff.mpr (.inl rfl)]; rfl⟩
    | notText hread hnot =>
        exact ⟨_, hread, by rw [textOfRead_eq_error_iff.mpr (.inr ⟨rfl, _, rfl, hnot⟩)]; rfl⟩

theorem summaryFor_eq_ok_iff {t : Text} :
    s.summaryFor o = some (.ok t) ↔ s.summaryBytes o = some (.ok t.encode) := by
  unfold summaryFor
  rw [Option.map_eq_some_iff]
  constructor
  · rintro ⟨read, hread, h⟩
    rcases htext : textOfRead read with fault | t'
    · rw [htext] at h
      cases h
    · rw [htext] at h
      cases h
      rw [hread, textOfRead_eq_ok_iff.mp htext]
  · exact fun hread => ⟨_, hread, by rw [textOfRead_eq_ok_iff.mpr rfl]; rfl⟩

theorem exists_summaryFor_iff : (∃ t, s.summaryFor o = some (.ok t)) ↔ s.ReadsSummary o := by
  simp only [summaryFor_eq_ok_iff, ReadsSummary]

/-- Reading the settings waits, or it fails, or it succeeds. -/
theorem settings_cases (s : Sandbox) (o : Options) :
    s.bytesAt o.settings = none ∨ (∃ f, s.SettingsFailure o f) ∨ s.LoadsSettings o := by
  rw [← settingsFor_eq_none_iff, ← exists_settingsFor_iff]
  simp only [← settingsFor_eq_error_iff]
  rcases s.settingsFor o with _ | f | settings
  · exact .inl rfl
  · exact .inr (.inl ⟨f, rfl⟩)
  · exact .inr (.inr ⟨settings, rfl⟩)

theorem LoadsSettings.not_settingsFailure (h : s.LoadsSettings o) : ¬ s.SettingsFailure o f := by
  obtain ⟨settings, hsettings⟩ := exists_settingsFor_iff.mpr h
  rw [← settingsFor_eq_error_iff, hsettings]
  simp

/-- Reading the summary waits, or it fails, or it succeeds. -/
theorem summary_cases (s : Sandbox) (o : Options) :
    s.summaryBytes o = none ∨ (∃ f, s.SummaryFailure o f) ∨ s.ReadsSummary o := by
  rw [← summaryFor_eq_none_iff, ← exists_summaryFor_iff]
  simp only [← summaryFor_eq_error_iff]
  rcases s.summaryFor o with _ | f | t
  · exact .inl rfl
  · exact .inr (.inl ⟨f, rfl⟩)
  · exact .inr (.inr ⟨t, rfl⟩)

/-- Writing the result waits, or it fails, or it succeeds. -/
theorem output_cases (s : Sandbox) (o : Options) :
    s.ResultMeets o .stalled ∨ (∃ f, s.OutputFailure o f) ∨ s.AcceptsResult o := by
  rcases hsink : s.resultSink o with fault | sink
  · exact .inr (.inl ⟨_, .noSink hsink⟩)
  · cases hu : s.uptake sink with
    | all => exact .inr (.inr ⟨sink, hsink, hu⟩)
    | nothing => exact .inr (.inl ⟨_, .refused ⟨sink, hsink, hu⟩⟩)
    | stalled => exact .inl ⟨sink, hsink, hu⟩

/-! ### The summary after the settings -/

/-- Only what a path to the standard input gives depends on the standard input. -/
theorem bytesAt_of_source_ne_input {path : Text} (h : s.files.source path ≠ .ok (.special .input))
    (hfiles : s'.files = s.files) (hdevice : s'.device = s.device) :
    s'.bytesAt path = s.bytesAt path := by
  unfold bytesAt
  rw [hfiles]
  split
  · rfl
  · rename_i source hsource
    unfold held?
    split
    · rfl
    · rfl
    · exact absurd hsource h
    · rw [hdevice]

/-- The bytes of a summary are the standard input, or they do not depend on it. -/
theorem summaryBytes_congr (hread : s.OnlyRead s') :
    (s.summaryBytes o = some (.ok s.input) ∧ s'.summaryBytes o = some (.ok s'.input)) ∨
      s'.summaryBytes o = s.summaryBytes o := by
  unfold summaryBytes
  cases o.input with
  | none => exact .inl ⟨rfl, rfl⟩
  | some path =>
      by_cases hsource : s.files.source path = .ok (.special .input)
      · left
        simp only [bytesAt, hread.files, hsource]
        exact ⟨rfl, rfl⟩
      · exact .inr (bytesAt_of_source_ne_input hsource hread.files hread.device)

theorem input_afterSettings (s : Sandbox) (o : Options) :
    (s.afterSettings o).input = (s.afterReading o.settings).input := by
  unfold afterSettings noted
  split
  · split <;> rfl
  · rfl

/-- Loading the settings leaves the standard input as it is, or it was a text, and what is left of
it is one too. -/
theorem input_afterSettings_of_loads (h : s.LoadsSettings o) :
    (s.afterSettings o).input = s.input ∨
      (∃ t, (s.afterSettings o).input = Text.encode t) ∧ ∃ t, s.input = Text.encode t := by
  rw [input_afterSettings]
  unfold LoadsSettings bytesAt at h
  unfold afterReading
  split
  · exact .inl rfl
  · rename_i source hsource
    rw [hsource] at h
    unfold drained
    split
    · rcases h with hmissing | ⟨t, settings, hread, -⟩
      · cases hmissing
      · exact .inr ⟨⟨[], rfl⟩, t, Except.ok.inj (Option.some.inj hread)⟩
    · exact .inl rfl

/-- Loading the settings does not change whether the summary can be read, nor why not. -/
theorem summaryBytes_afterSettings (h : s.LoadsSettings o) :
    (s.afterSettings o).summaryBytes o = s.summaryBytes o ∨
      (s.afterSettings o).ReadsSummary o ∧ s.ReadsSummary o := by
  rcases summaryBytes_congr (s.onlyRead_afterSettings o) with ⟨hs, hs'⟩ | hsame
  · unfold ReadsSummary
    rw [hs, hs']
    rcases input_afterSettings_of_loads h with hinput | ⟨⟨t, ht⟩, u, hu⟩
    · exact .inl (by rw [hinput])
    · exact .inr ⟨⟨t, by rw [ht]⟩, u, by rw [hu]⟩
  · exact .inl hsame

theorem ReadsSummary.not_summaryFailure (h : s.ReadsSummary o) : ¬ s.SummaryFailure o f := by
  obtain ⟨t, ht⟩ := exists_summaryFor_iff.mpr h
  rw [← summaryFor_eq_error_iff, ht]
  simp

theorem ReadsSummary.summaryBytes_ne_none (h : s.ReadsSummary o) : s.summaryBytes o ≠ none := by
  obtain ⟨t, ht⟩ := h
  rw [ht]
  simp

theorem readsSummary_afterSettings (h : s.LoadsSettings o) :
    (s.afterSettings o).ReadsSummary o ↔ s.ReadsSummary o := by
  rcases summaryBytes_afterSettings h with hsame | ⟨hs', hs⟩
  · unfold ReadsSummary
    rw [hsame]
  · exact iff_of_true hs' hs

/-- A run that has found its summary had one to read. -/
theorem ReadsSummary.of_summaryFor {summary : Text} (h : s.LoadsSettings o)
    (hsummary : (s.afterSettings o).summaryFor o = some (.ok summary)) : s.ReadsSummary o :=
  (readsSummary_afterSettings h).mp (exists_summaryFor_iff.mp ⟨summary, hsummary⟩)

theorem summaryFailure_afterSettings (h : s.LoadsSettings o) :
    (s.afterSettings o).SummaryFailure o f ↔ s.SummaryFailure o f := by
  rcases summaryBytes_afterSettings h with hsame | ⟨hs', hs⟩
  · rw [← summaryFor_eq_error_iff, ← summaryFor_eq_error_iff, summaryFor, summaryFor, hsame]
  · exact iff_of_false hs'.not_summaryFailure hs.not_summaryFailure

theorem summaryBytes_afterSettings_eq_none_iff (h : s.LoadsSettings o) :
    (s.afterSettings o).summaryBytes o = none ↔ s.summaryBytes o = none := by
  rcases summaryBytes_afterSettings h with hsame | ⟨hs', hs⟩
  · rw [hsame]
  · exact iff_of_false hs'.summaryBytes_ne_none hs.summaryBytes_ne_none

/-! ### Whole runs -/

namespace OnlyRead

theorem resultMeets_iff (h : s.OnlyRead s') : s'.ResultMeets o u ↔ s.ResultMeets o u := by
  unfold ResultMeets
  simp only [h.resultSink, h.uptake]

theorem outputFailure (h : s.OnlyRead s') (hf : s.OutputFailure o f) : s'.OutputFailure o f := by
  cases hf with
  | noSink hsink => exact .noSink ((h.resultSink o).trans hsink)
  | refused hmeets => exact .refused (h.resultMeets_iff.mpr hmeets)

end OnlyRead

theorem run_writeResult_of_failure (h : s.OutputFailure o f) (content : Text) :
    s.runIn (host.writeResult o content) = (some (.error f), s) := by
  cases h with
  | noSink hsink => exact run_writeResult_of_error hsink content
  | refused hmeets =>
      obtain ⟨sink, hsink, hu⟩ := hmeets
      exact run_writeResult_of_nothing hsink hu content

/-- A run has all it needs, or there is a first failure that it meets, or it waits. -/
theorem run_cases (s : Sandbox) (o : Options) :
    s.LoadsSettings o ∧ s.ReadsSummary o ∧ s.AcceptsResult o ∨ (∃ f, s.FirstFailure o f) ∨
      s.Waits o := by
  rcases s.settings_cases o with hwaits | ⟨f, hf⟩ | hloads
  · exact .inr (.inr (.settings hwaits))
  · exact .inr (.inl ⟨f, .settings hf⟩)
  rcases s.summary_cases o with hwaits | ⟨f, hf⟩ | hreads
  · exact .inr (.inr (.summary hloads hwaits))
  · exact .inr (.inl ⟨f, .summary hloads hf⟩)
  rcases s.output_cases o with hwaits | ⟨f, hf⟩ | haccepts
  · exact .inr (.inr (.output hloads hreads hwaits))
  · exact .inr (.inl ⟨f, .output hloads hreads hf⟩)
  · exact .inl ⟨hloads, hreads, haccepts⟩

/-- What a run has found when it comes to its last stage. -/
theorem exists_found_of_reads (hloads : s.LoadsSettings o) (hreads : s.ReadsSummary o) :
    ∃ settings summary, s.settingsFor o = some (.ok settings) ∧
      (s.afterSettings o).summaryFor o = some (.ok summary) := by
  obtain ⟨settings, hsettings⟩ := exists_settingsFor_iff.mpr hloads
  obtain ⟨summary, hsummary⟩ :=
    exists_summaryFor_iff.mpr ((readsSummary_afterSettings hloads).mpr hreads)
  exact ⟨settings, summary, hsettings, hsummary⟩

theorem exists_run_of_stages (hloads : s.LoadsSettings o) (hreads : s.ReadsSummary o)
    (haccepts : s.AcceptsResult o) : ∃ s', s.runIn (host.run o) = (some (.ok ()), s') := by
  obtain ⟨settings, summary, hsettings, hsummary⟩ := exists_found_of_reads hloads hreads
  obtain ⟨sink, hsink, hu⟩ := (s.onlyRead_beforeResult o summary).resultMeets_iff.mpr haccepts
  exact ⟨_, (run_of_ok hsettings hsummary).trans (run_writeResult_of_all hsink hu _)⟩

theorem exists_run_of_firstFailure (h : s.FirstFailure o f) :
    ∃ s', s.runIn (host.run o) = (some (.error f), s') ∧ s.OnlyRead s' := by
  cases h with
  | settings hf =>
      exact ⟨_, run_of_settings_error (settingsFor_eq_error_iff.mpr hf),
        s.onlyRead_afterSettings o⟩
  | summary hloads hf =>
      obtain ⟨settings, hsettings⟩ := exists_settingsFor_iff.mpr hloads
      have hsummary := summaryFor_eq_error_iff.mpr ((summaryFailure_afterSettings hloads).mpr hf)
      exact ⟨_, run_of_summary_error hsettings hsummary,
        (s.onlyRead_afterSettings o).trans (onlyRead_afterSummary _ o)⟩
  | output hloads hreads hf =>
      obtain ⟨settings, summary, hsettings, hsummary⟩ := exists_found_of_reads hloads hreads
      have hbefore := s.onlyRead_beforeResult o summary
      exact ⟨_, (run_of_ok hsettings hsummary).trans
        (run_writeResult_of_failure (hbefore.outputFailure hf) _), hbefore⟩

theorem exists_run_of_waits (h : s.Waits o) :
    ∃ s', s.runIn (host.run o) = (none, s') ∧ s.OnlyRead s' := by
  cases h with
  | settings hwaits =>
      exact ⟨_, run_of_settings_none (settingsFor_eq_none_iff.mpr hwaits),
        s.onlyRead_afterSettings o⟩
  | summary hloads hwaits =>
      obtain ⟨settings, hsettings⟩ := exists_settingsFor_iff.mpr hloads
      have hsummary := summaryFor_eq_none_iff.mpr
        ((summaryBytes_afterSettings_eq_none_iff hloads).mpr hwaits)
      exact ⟨_, run_of_summary_none hsettings hsummary,
        (s.onlyRead_afterSettings o).trans (onlyRead_afterSummary _ o)⟩
  | output hloads hreads hwaits =>
      obtain ⟨settings, summary, hsettings, hsummary⟩ := exists_found_of_reads hloads hreads
      have hbefore := s.onlyRead_beforeResult o summary
      obtain ⟨sink, hsink, hu⟩ := hbefore.resultMeets_iff.mpr hwaits
      exact ⟨_, (run_of_ok hsettings hsummary).trans (run_writeResult_of_stalled hsink hu _),
        hbefore⟩

/-! ### The whole program -/

/-- How the program ends if it fails with a failure: the log tells it last, and it tells no other;
no file and nothing on the standard output has changed. -/
structure FailsWith (s : Sandbox) (f : Failure) (ended : Option Exit × Sandbox) : Prop where
  exit : ended.1.map Exit.code = some 1
  files : ended.2.files = s.files
  output : ended.2.output = s.output
  log : ∃ told : List Event, (∀ e ∈ told, e.isFailure = false) ∧
    ended.2.log = s.log ++ told ++ [.failed f]

section Program

variable {args : List Text}

theorem exitsWith_code_iff (e : Exit) : s.ExitsWith args e.code ↔ (s.command args).1 = some e := by
  simp [ExitsWith, Option.map_eq_some_iff, Exit.code_inj]

theorem exitsWith_zero_iff : s.ExitsWith args 0 ↔ (s.command args).1 = some .success :=
  exitsWith_code_iff .success

theorem exitsWith_one_iff : s.ExitsWith args 1 ↔ (s.command args).1 = some .failure :=
  exitsWith_code_iff .failure

theorem exitsWith_two_iff : s.ExitsWith args 2 ↔ (s.command args).1 = some .misuse :=
  exitsWith_code_iff .misuse

theorem failsWith_of_firstFailure (hargs : Options.ofArguments args = .ok o)
    (h : s.FirstFailure o f) : s.FailsWith f (s.command args) := by
  obtain ⟨s', hrun, hread⟩ := exists_run_of_firstFailure h
  obtain ⟨told, htold, hlog⟩ := hread.log
  rw [command_of_run_error hargs hrun]
  exact ⟨rfl, hread.files, hread.output, told, htold, by rw [hlog]⟩

theorem command_eq_success_of_stages (hargs : Options.ofArguments args = .ok o)
    (h : s.LoadsSettings o ∧ s.ReadsSummary o ∧ s.AcceptsResult o) :
    (s.command args).1 = some .success := by
  obtain ⟨hloads, hreads, haccepts⟩ := h
  obtain ⟨s', hrun⟩ := exists_run_of_stages hloads hreads haccepts
  rw [command_of_run_ok hargs hrun]

theorem command_eq_failure_of_firstFailure (hargs : Options.ofArguments args = .ok o)
    (h : s.FirstFailure o f) : (s.command args).1 = some .failure := by
  obtain ⟨s', hrun, -⟩ := exists_run_of_firstFailure h
  rw [command_of_run_error hargs hrun]

theorem command_eq_none_of_waits (hargs : Options.ofArguments args = .ok o) (h : s.Waits o) :
    (s.command args).1 = none := by
  obtain ⟨s', hrun, -⟩ := exists_run_of_waits h
  rw [command_of_run_none hargs hrun]

theorem command_eq_success_iff (hargs : Options.ofArguments args = .ok o) :
    (s.command args).1 = some .success ↔
      s.LoadsSettings o ∧ s.ReadsSummary o ∧ s.AcceptsResult o := by
  refine ⟨fun hsuccess => ?_, command_eq_success_of_stages hargs⟩
  rcases s.run_cases o with hstages | ⟨f, hf⟩ | hwaits
  · exact hstages
  · cases hsuccess.symm.trans (command_eq_failure_of_firstFailure hargs hf)
  · cases hsuccess.symm.trans (command_eq_none_of_waits hargs hwaits)

theorem command_eq_none_iff (hargs : Options.ofArguments args = .ok o) :
    (s.command args).1 = none ↔ s.Waits o := by
  refine ⟨fun hnone => ?_, command_eq_none_of_waits hargs⟩
  rcases s.run_cases o with hstages | ⟨f, hf⟩ | hwaits
  · cases hnone.symm.trans (command_eq_success_of_stages hargs hstages)
  · cases hnone.symm.trans (command_eq_failure_of_firstFailure hargs hf)
  · exact hwaits

theorem afterSettings_of_settingsFailure (h : s.SettingsFailure o f) :
    s.afterSettings o = s.afterReading o.settings := by
  unfold afterSettings
  split
  · rename_i hmissing
    exact absurd h (LoadsSettings.not_settingsFailure (.inl hmissing))
  · rfl

theorem log_drained (s : Sandbox) (source : Source) : (s.drained source).log = s.log := by
  unfold drained
  split <;> rfl

theorem log_afterReading (s : Sandbox) (path : Text) : (s.afterReading path).log = s.log := by
  unfold afterReading
  split
  · rfl
  · exact log_drained ..

/-- Settings that cannot be loaded end the program before it does anything else. -/
theorem log_command_of_settingsFailure (hargs : Options.ofArguments args = .ok o)
    (h : s.SettingsFailure o f) : (s.command args).2.log = s.log ++ [.failed f] := by
  rw [command_of_run_error hargs (run_of_settings_error (settingsFor_eq_error_iff.mpr h)),
    afterSettings_of_settingsFailure h, log_afterReading]

theorem SettingsFailure.congr {o' : Options} (h : s.SettingsFailure o f)
    (hsettings : o'.settings = o.settings) (hbytes : s'.bytesAt o.settings = s.bytesAt o.settings) :
    s'.SettingsFailure o' f := by
  rw [← settingsFor_eq_error_iff] at h ⊢
  rwa [settingsFor, hsettings, hbytes]

theorem command_of_misuse (hargs : Options.ofArguments args = .error .misuse) (s : Sandbox) :
    s.command args = (some .misuse, s) := by
  unfold command Host.command
  rw [hargs]
  rfl

/-- What is printed is taken or refused, or there is no room for it. -/
theorem run_print_cases (s : Sandbox) (content : Text) :
    (s.runIn (host.print content)).1 = some .success ∨
      s.runIn (host.print content) = (none, s) := by
  cases hu : s.uptake (.special .output) with
  | all => exact .inl (congrArg Prod.fst (runIn_bind_of_some (run_store_of_all hu content)))
  | nothing => exact .inl (congrArg Prod.fst (runIn_bind_of_some (run_store_of_nothing hu content)))
  | stalled => exact .inr (runIn_bind_of_none (run_store_of_stalled hu content))

theorem command_of_refusal {refusal : Refusal} (hargs : Options.ofArguments args = .error refusal)
    (h : refusal ≠ .misuse) (s : Sandbox) :
    (s.command args).1 = some .success ∨ s.command args = (none, s) := by
  unfold command Host.command
  rw [hargs]
  cases refusal with
  | misuse => exact absurd rfl h
  | version => exact s.run_print_cases versionText
  | help => exact s.run_print_cases helpText

/-- A program that does not succeed has changed no file and written nothing. -/
theorem unchanged_of_not_success (h : (s.command args).1 ≠ some .success) :
    (s.command args).2.files = s.files ∧ (s.command args).2.output = s.output := by
  rcases hargs : Options.ofArguments args with refusal | o
  · by_cases hmisuse : refusal = .misuse
    · rw [command_of_misuse (hmisuse ▸ hargs)]
      exact ⟨rfl, rfl⟩
    · rw [(command_of_refusal hargs hmisuse s).resolve_left h]
      exact ⟨rfl, rfl⟩
  · rcases s.run_cases o with hstages | ⟨f, hf⟩ | hwaits
    · exact absurd (command_eq_success_of_stages hargs hstages) h
    · have hfails := failsWith_of_firstFailure hargs hf
      exact ⟨hfails.files, hfails.output⟩
    · obtain ⟨s', hrun, hread⟩ := exists_run_of_waits hwaits
      rw [command_of_run_none hargs hrun]
      exact ⟨hread.files, hread.output⟩

theorem command_eq_misuse_iff :
    (s.command args).1 = some .misuse ↔ Options.ofArguments args = .error .misuse := by
  refine ⟨fun h => ?_, fun hargs => by rw [command_of_misuse hargs]⟩
  rcases hargs : Options.ofArguments args with refusal | o
  · by_cases hmisuse : refusal = .misuse
    · rw [hmisuse]
    · rcases command_of_refusal hargs hmisuse s with hsuccess | hnone
      · cases h.symm.trans hsuccess
      · rw [hnone] at h
        cases h
  · rcases s.run_cases o with hstages | ⟨f, hf⟩ | hwaits
    · cases h.symm.trans (command_eq_success_of_stages hargs hstages)
    · cases h.symm.trans (command_eq_failure_of_firstFailure hargs hf)
    · cases h.symm.trans (command_eq_none_of_waits hargs hwaits)

/-- A run succeeds if and only if all its stages do, and it never ends if and only if it waits. Else
it fails with the first failure that it meets. If it does not succeed, nothing has been written. If
the settings cannot be loaded, nothing but what is read of them has an influence on the end. -/
theorem command_stages :
    (∀ (args : List Text) (o : Options) (s : Sandbox), Options.ofArguments args = .ok o →
      (s.ExitsWith args 0 ↔ s.LoadsSettings o ∧ s.ReadsSummary o ∧ s.AcceptsResult o) ∧
      ((s.command args).1 = none ↔ s.Waits o) ∧
      (¬ s.ExitsWith args 0 → ¬ s.Waits o →
        ∃ f, s.FirstFailure o f ∧ s.FailsWith f (s.command args))) ∧
    (∀ (args : List Text) (s : Sandbox),
      (¬ s.ExitsWith args 0 →
        (s.command args).2.files = s.files ∧ (s.command args).2.output = s.output) ∧
      (s.ExitsWith args 2 ↔ Options.ofArguments args = .error .misuse)) ∧
    (∀ (o : Options) (s : Sandbox), ¬ s.LoadsSettings o → s.bytesAt o.settings ≠ none →
      ∃ f, ∀ (args' : List Text) (o' : Options) (s' : Sandbox),
        Options.ofArguments args' = .ok o' → o'.settings = o.settings →
        s'.bytesAt o.settings = s.bytesAt o.settings →
        s'.FailsWith f (s'.command args') ∧ (s'.command args').2.log = s'.log ++ [.failed f]) ∧
    ∀ (s s' : Sandbox) (path : Text), s.files.source path ≠ .ok (.special .input) →
      s'.files = s.files → s'.device = s.device → s'.bytesAt path = s.bytesAt path := by
  refine ⟨?_, ?_, ?_, ?_⟩
  · intro args o s hargs
    rw [exitsWith_zero_iff]
    refine ⟨command_eq_success_iff hargs, command_eq_none_iff hargs, fun h hends => ?_⟩
    obtain ⟨f, hf⟩ := ((s.run_cases o).resolve_left
      (mt (command_eq_success_of_stages hargs) h)).resolve_right hends
    exact ⟨f, hf, failsWith_of_firstFailure hargs hf⟩
  · intro args s
    rw [exitsWith_zero_iff, exitsWith_two_iff]
    exact ⟨unchanged_of_not_success, command_eq_misuse_iff⟩
  · intro o s hloads hends
    obtain ⟨f, hf⟩ := ((s.settings_cases o).resolve_left hends).resolve_right hloads
    refine ⟨f, fun args' o' s' hargs hsettings hbytes => ?_⟩
    have hf' : s'.SettingsFailure o' f := hf.congr hsettings hbytes
    exact ⟨failsWith_of_firstFailure hargs (.settings hf'),
      log_command_of_settingsFailure hargs hf'⟩
  · intro s s' path
    exact bytesAt_of_source_ne_input

/-- Surroundings in which the settings file is a directory. -/
def settingsInDirectory (input : ByteArray) : Sandbox :=
  { files := { directories := [Location.home ++ ["d".toList]] }, input }

/-- Two runs whose settings file is a directory fail alike, though one has a text on the standard
input, and the other has none there and would write to a file. -/
theorem command_stages_directory :
    (∃ f, (settingsInDirectory .empty).FirstFailure { settings := "d".toList } f ∧
      (settingsInDirectory .empty).FailsWith f
        ((settingsInDirectory .empty).command ["-c".toList, "d".toList])) ∧
    ∃ f, (settingsInDirectory .empty).FailsWith f
        ((settingsInDirectory .empty).command ["-c".toList, "d".toList]) ∧
      (settingsInDirectory (Text.encode ['a'])).FailsWith f
        ((settingsInDirectory (Text.encode ['a'])).command ["-vcd".toList, "-oout".toList]) := by
  have hfailure : (settingsInDirectory .empty).SettingsFailure { settings := "d".toList }
      (.readFile "d".toList .isADirectory) := .unreadable rfl nofun
  have hloads : ¬ (settingsInDirectory .empty).LoadsSettings { settings := "d".toList } :=
    fun hloads => hloads.not_settingsFailure hfailure
  have hends : (settingsInDirectory .empty).bytesAt "d".toList ≠ none := nofun
  have hsource : (settingsInDirectory .empty).files.source "d".toList ≠ .ok (.special .input) := by
    intro h
    cases h
  constructor
  · obtain ⟨hcode, hnone, hfails⟩ := command_stages.1 ["-c".toList, "d".toList] _
      (settingsInDirectory .empty) rfl
    refine hfails (fun h => hloads (hcode.mp h).1) fun hwaits => ?_
    cases (hnone.mpr hwaits).symm.trans
      (command_eq_failure_of_firstFailure rfl (.settings hfailure))
  · obtain ⟨f, hf⟩ := command_stages.2.2.1 _ _ hloads hends
    have hbytes := command_stages.2.2.2 (settingsInDirectory .empty)
      (settingsInDirectory (Text.encode ['a'])) _ hsource rfl rfl
    exact ⟨f, (hf ["-c".toList, "d".toList] _ (settingsInDirectory .empty) rfl rfl rfl).1,
      (hf ["-vcd".toList, "-oout".toList] _ (settingsInDirectory (Text.encode ['a'])) rfl rfl
        hbytes).1⟩

/-- Settings that are read from the standard input fail in a way that depends on it: it may be no
text, or a text that describes no settings. And a run that reads a device without end does not even
fail. -/
theorem not_independent_of_input_and_not_all_end :
    (¬ ∀ (args : List Text) (o : Options) (s : Sandbox) (input : ByteArray),
      Options.ofArguments args = .ok o →
      ¬ s.LoadsSettings o → ¬ ({ s with input } : Sandbox).LoadsSettings o →
      (({ s with input } : Sandbox).command args).2.log = (s.command args).2.log) ∧
    ¬ ∀ (args : List Text) (o : Options) (s : Sandbox), Options.ofArguments args = .ok o →
      s.ExitsWith args 0 ∨ s.ExitsWith args 1 := by
  constructor
  · intro h
    have hargs : Options.ofArguments ["-c".toList, "/dev/stdin".toList] =
        .ok { settings := "/dev/stdin".toList } := rfl
    have hbytes : SettingsFailure { files := {}, input := ⟨#[0xff]⟩ }
        { settings := "/dev/stdin".toList } (.readFile "/dev/stdin".toList .notUtf8) := by
      refine .notText rfl fun t ht => ?_
      cases Text.decode?_eq_some_iff.mpr ht
    have htext : SettingsFailure { files := {}, input := Text.encode ['a'] }
        { settings := "/dev/stdin".toList } .invalidSettings :=
      .invalid rfl (by decide +kernel)
    have hlog := h _ _ { files := {}, input := ⟨#[0xff]⟩ } (Text.encode ['a']) hargs
      (fun hloads => hloads.not_settingsFailure hbytes)
      (fun hloads => hloads.not_settingsFailure htext)
    rw [log_command_of_settingsFailure hargs hbytes, log_command_of_settingsFailure hargs htext]
      at hlog
    cases hlog
  · intro h
    have hargs : Options.ofArguments ["/dev/full".toList] =
        .ok { input := some "/dev/full".toList } := rfl
    have hwaits : Waits { files := {} } { input := some "/dev/full".toList } :=
      .summary (.inl rfl) rfl
    have hnone := command_eq_none_of_waits hargs hwaits
    rcases h _ _ { files := {} } hargs with hzero | hone
    · cases hnone.symm.trans (exitsWith_zero_iff.mp hzero)
    · cases hnone.symm.trans (exitsWith_one_iff.mp hone)

end Program

end Sandbox

end MeetingMail
