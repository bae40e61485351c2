import MeetingMail.Proofs.Command.Effects
import MeetingMail.Proofs.Summary.Runs

/-!
What the log tells about a run.

* The rendering tells of itself, once in each format (`Options.renderM_eq`), and `run_renderM`
  carries this into the log.
* `Story` gives the events of a run in their order, for each way in which it may end or wait.
  `exists_story`: the log of a run grows by those of its events that are to be told.
* `command_log`: what is told of a rendering, of a missing settings file, of a file that has been
  written and of a failure is what has happened.
-/

namespace MeetingMail

def Event.isRendered : Event → Bool
  | .rendered _ _ => true
  | _ => false

/-- Holds of the events that the log of a run is to tell. -/
def Options.tells (o : Options) (e : Event) : Bool := o.verbose || e.isFailure

/-- The event of a rendering. -/
def Event.ofSummary (summary : Text) : Event :=
  .rendered (Block.ofSummary summary).length summary.utf8Size

namespace Sandbox

variable {s : Sandbox} {o : Options} {args : List Text} {summary : Text} {f : Failure}
  {events : List Event} {exit : Option Exit}

/-! ### The log of each stage -/

/-- The event of a settings file that is missing, if it is. -/
def missing (s : Sandbox) (o : Options) : List Event :=
  match s.bytesAt o.settings with
  | some (.error .notFound) => [.settingsMissing o.settings]
  | _ => []

theorem mem_missing_iff {e : Event} :
    e ∈ s.missing o ↔
      e = .settingsMissing o.settings ∧ s.bytesAt o.settings = some (.error .notFound) := by
  unfold missing
  split
  · rename_i h
    simp [h]
  · rename_i h
    exact iff_of_false List.not_mem_nil fun hmissing => h hmissing.2

/-- A settings file that is missing is neither a rendering nor a failure. -/
theorem isRendered_eq_false_of_mem_missing {e : Event} (h : e ∈ s.missing o) :
    e.isRendered = false ∧ e.isFailure = false := by
  obtain ⟨rfl, -⟩ := mem_missing_iff.mp h
  exact ⟨rfl, rfl⟩

theorem filter_isRendered_missing (s : Sandbox) (o : Options) :
    (s.missing o).filter Event.isRendered = [] :=
  List.filter_eq_nil_iff.mpr fun e he => by simp [isRendered_eq_false_of_mem_missing he]

theorem log_noted (s : Sandbox) (o : Options) (e : Event) :
    (s.noted o e).log = s.log ++ [e].filter o.tells := by
  unfold noted
  split
  · rename_i h
    rw [List.filter_cons_of_pos (by exact h), List.filter_nil]
  · rename_i h
    rw [List.filter_cons_of_neg (by exact h), List.filter_nil, List.append_nil]

theorem log_afterSettings (s : Sandbox) (o : Options) :
    (s.afterSettings o).log = s.log ++ (s.missing o).filter o.tells := by
  unfold afterSettings missing
  rcases s.bytesAt o.settings with _ | fault | bytes
  · exact (log_afterReading ..).trans (List.append_nil _).symm
  · cases fault with
    | notFound => exact (log_noted ..).trans (by rw [log_afterReading])
    | _ => exact (log_afterReading ..).trans (List.append_nil _).symm
  · exact (log_afterReading ..).trans (List.append_nil _).symm

theorem log_afterSummary (s : Sandbox) (o : Options) : (s.afterSummary o).log = s.log := by
  unfold afterSummary
  split
  · exact log_afterReading ..
  · exact log_drained ..

theorem log_beforeResult (s : Sandbox) (o : Options) (summary : Text) :
    (s.beforeResult o summary).log
      = s.log ++ (s.missing o ++ [Event.ofSummary summary]).filter o.tells := by
  rw [beforeResult, log_noted, log_afterSummary, log_afterSettings, List.filter_append,
    List.append_assoc]
  rfl

theorem log_stored (s : Sandbox) (content : Text) (sink : Sink) :
    (s.stored content sink).log = s.log := by
  unfold stored
  split <;> rfl

/-- A file that has been written is told of. -/
theorem log_afterResult (s : Sandbox) (o : Options) (content : Text) (sink : Sink) :
    (s.afterResult o content sink).log
      = s.log ++ (o.output.toList.map Event.wrote).filter o.tells := by
  unfold afterResult
  cases o.output with
  | some path => exact (log_noted ..).trans (by rw [log_stored]; rfl)
  | none => exact (log_stored ..).trans (List.append_nil _).symm

theorem filter_concat_failed (o : Options) (es : List Event) (f : Failure) :
    (es ++ [Event.failed f]).filter o.tells = es.filter o.tells ++ [Event.failed f] := by
  have htold : o.tells (.failed f) = true := Bool.or_true _
  rw [List.filter_append, List.filter_cons_of_pos htold, List.filter_nil]

/-! ### The events of a run -/

/-- How a run ends, if it does, and its events in their order. -/
inductive Story (s : Sandbox) (o : Options) : Option Exit → List Event → Prop where
  | settingsWait : s.bytesAt o.settings = none → Story s o none (s.missing o)
  | settings {f : Failure} : s.SettingsFailure o f →
      Story s o (some .failure) (s.missing o ++ [.failed f])
  | summaryWait : s.LoadsSettings o → s.summaryBytes o = none → Story s o none (s.missing o)
  | summary {f : Failure} : s.LoadsSettings o → s.SummaryFailure o f →
      Story s o (some .failure) (s.missing o ++ [.failed f])
  | outputWait {summary : Text} : s.LoadsSettings o →
      (s.afterSettings o).summaryFor o = some (.ok summary) → s.ResultMeets o .stalled →
      Story s o none (s.missing o ++ [Event.ofSummary summary])
  | output {f : Failure} {summary : Text} : s.LoadsSettings o →
      (s.afterSettings o).summaryFor o = some (.ok summary) → s.OutputFailure o f →
      Story s o (some .failure) (s.missing o ++ [Event.ofSummary summary] ++ [.failed f])
  | success {summary : Text} : s.LoadsSettings o →
      (s.afterSettings o).summaryFor o = some (.ok summary) →
      Story s o (some .success)
        (s.missing o ++ [Event.ofSummary summary] ++ o.output.toList.map Event.wrote)

/-- A run that fails tells of it after all that it has told before. -/
theorem log_of_run_error (hargs : Options.ofArguments args = .ok o) {s' : Sandbox}
    (hrun : s.runIn (host.run o) = (some (.error f), s'))
    (hlog : s'.log = s.log ++ events.filter o.tells) :
    (s.command args).1 = some .failure ∧
      (s.command args).2.log = s.log ++ (events ++ [Event.failed f]).filter o.tells := by
  rw [command_of_run_error hargs hrun]
  refine ⟨rfl, ?_⟩
  rw [hlog, filter_concat_failed, List.append_assoc]

/-- The log of a run grows by those of its events that it is to tell. -/
theorem exists_story (hargs : Options.ofArguments args = .ok o) (s : Sandbox) :
    ∃ events, s.Story o (s.command args).1 events ∧
      (s.command args).2.log = s.log ++ events.filter o.tells := by
  rcases s.run_cases o with ⟨hloads, hreads, haccepts⟩ | ⟨f, hf⟩ | hwaits
  · obtain ⟨settings, summary, hsettings, hsummary⟩ := exists_found_of_reads hloads hreads
    obtain ⟨sink, hsink, hu⟩ := (s.onlyRead_beforeResult o summary).resultMeets_iff.mpr haccepts
    rw [command_of_run_ok hargs
      ((run_of_ok hsettings hsummary).trans (run_writeResult_of_all hsink hu _))]
    refine ⟨_, .success hloads hsummary, ?_⟩
    rw [log_afterResult, log_beforeResult, List.append_assoc, ← List.filter_append]
  · cases hf with
    | settings hf =>
        obtain ⟨hexit, hlog⟩ := log_of_run_error hargs
          (run_of_settings_error (settingsFor_eq_error_iff.mpr hf)) (s.log_afterSettings o)
        exact ⟨_, hexit ▸ .settings hf, hlog⟩
    | summary hloads hf =>
        obtain ⟨settings, hsettings⟩ := exists_settingsFor_iff.mpr hloads
        have hsummary := summaryFor_eq_error_iff.mpr ((summaryFailure_afterSettings hloads).mpr hf)
        obtain ⟨hexit, hlog⟩ := log_of_run_error hargs (run_of_summary_error hsettings hsummary)
          ((log_afterSummary ..).trans (s.log_afterSettings o))
        exact ⟨_, hexit ▸ .summary hloads hf, hlog⟩
    | output hloads hreads hf =>
        obtain ⟨settings, summary, hsettings, hsummary⟩ := exists_found_of_reads hloads hreads
        have hbefore := (s.onlyRead_beforeResult o summary).outputFailure hf
        obtain ⟨hexit, hlog⟩ := log_of_run_error hargs
          ((run_of_ok hsettings hsummary).trans (run_writeResult_of_failure hbefore _))
          (s.log_beforeResult o summary)
        exact ⟨_, hexit ▸ .output hloads hsummary hf, hlog⟩
  · cases hwaits with
    | settings hwaits =>
        rw [command_of_run_none hargs (run_of_settings_none (settingsFor_eq_none_iff.mpr hwaits))]
        exact ⟨_, .settingsWait hwaits, s.log_afterSettings o⟩
    | summary hloads hwaits =>
        obtain ⟨settings, hsettings⟩ := exists_settingsFor_iff.mpr hloads
        have hsummary := summaryFor_eq_none_iff.mpr
          ((summaryBytes_afterSettings_eq_none_iff hloads).mpr hwaits)
        rw [command_of_run_none hargs (run_of_summary_none hsettings hsummary)]
        exact ⟨_, .summaryWait hloads hwaits,
          (log_afterSummary ..).trans (s.log_afterSettings o)⟩
    | output hloads hreads hwaits =>
        obtain ⟨settings, summary, hsettings, hsummary⟩ := exists_found_of_reads hloads hreads
        obtain ⟨sink, hsink, hu⟩ := (s.onlyRead_beforeResult o summary).resultMeets_iff.mpr hwaits
        rw [command_of_run_none hargs
          ((run_of_ok hsettings hsummary).trans (run_writeResult_of_stalled hsink hu _))]
        exact ⟨_, .outputWait hloads hsummary hwaits, s.log_beforeResult o summary⟩

/-! ### What the events are -/

namespace Story

/-- A run has a failure among its events if and only if it ends with one, and then it has one. -/
theorem countP_isFailure (h : s.Story o exit events) :
    events.countP Event.isFailure = if exit = some .failure then 1 else 0 := by
  have hmissing : (s.missing o).countP Event.isFailure = 0 :=
    List.countP_eq_zero.mpr fun e he => by simp [isRendered_eq_false_of_mem_missing he]
  have hwrote : (o.output.toList.map Event.wrote).countP Event.isFailure = 0 := by
    cases o.output <;> rfl
  cases h <;> simp only [List.countP_append, hmissing, hwrote] <;> rfl

/-- A run that has its settings and its summary has one rendering among its events, of this
summary. -/
theorem filter_isRendered (h : s.Story o exit events) (hloads : s.LoadsSettings o)
    (hsummary : (s.afterSettings o).summaryFor o = some (.ok summary)) :
    events.filter Event.isRendered = [Event.ofSummary summary] := by
  have hwrote : (o.output.toList.map Event.wrote).filter Event.isRendered = [] := by
    cases o.output <;> rfl
  have hreads := ReadsSummary.of_summaryFor hloads hsummary
  cases h with
  | settingsWait hwaits =>
      obtain ⟨settings, hsettings⟩ := exists_settingsFor_iff.mpr hloads
      cases hsettings.symm.trans (settingsFor_eq_none_iff.mpr hwaits)
  | settings hf => exact absurd hf hloads.not_settingsFailure
  | summaryWait _ hwaits => exact absurd hwaits hreads.summaryBytes_ne_none
  | summary _ hf => exact absurd hf hreads.not_summaryFailure
  | outputWait _ hsummary' _ | output _ hsummary' _ | success _ hsummary' =>
      obtain rfl := Except.ok.inj (Option.some.inj (hsummary.symm.trans hsummary'))
      simp only [List.filter_append, filter_isRendered_missing, hwrote]
      rfl

theorem filter_isRendered_eq_nil (h : s.Story o exit events)
    (hnot : ¬ (s.LoadsSettings o ∧ s.ReadsSummary o)) : events.filter Event.isRendered = [] := by
  cases h with
  | settingsWait | summaryWait => exact filter_isRendered_missing s o
  | settings | summary =>
      simp only [List.filter_append, filter_isRendered_missing]
      rfl
  | outputWait hloads hsummary _ | output hloads hsummary _ | success hloads hsummary =>
      exact absurd ⟨hloads, .of_summaryFor hloads hsummary⟩ hnot

theorem settingsMissing_mem_iff (h : s.Story o exit events) (path : Text) :
    .settingsMissing path ∈ events ↔
      path = o.settings ∧ s.bytesAt o.settings = some (.error .notFound) := by
  have hmissing : .settingsMissing path ∈ s.missing o ↔
      path = o.settings ∧ s.bytesAt o.settings = some (.error .notFound) := by
    rw [mem_missing_iff, Event.settingsMissing.injEq]
  rw [← hmissing]
  cases h <;> simp [Event.ofSummary]

theorem wrote_mem_iff (h : s.Story o exit events) (path : Text) :
    .wrote path ∈ events ↔ o.output = some path ∧ exit = some .success := by
  have hmissing : .wrote path ∉ s.missing o := fun hmem => by
    cases (mem_missing_iff.mp hmem).1
  cases h <;> simp [Event.ofSummary, hmissing]

end Story

end Sandbox

/-! ### Events as lines -/

theorem Fault.newline_notMem_message {fault : Fault} (h : ∀ m, fault ≠ .other m) :
    '\n' ∉ fault.message := by
  cases fault with
  | other m => exact absurd rfl (h m)
  | _ => decide

/-- Only faults of its two steps are faults of an action. -/
theorem bind_ne_other {α β : Type} {first : Except Fault α} {next : α → Except Fault β} {m : Text}
    (hfirst : first ≠ .error (.other m)) (hnext : ∀ a, next a ≠ .error (.other m)) :
    first.bind next ≠ .error (.other m) := by
  cases first with
  | error fault => exact fun h => hfirst (congrArg _ (Except.error.inj h))
  | ok a => exact hnext a

namespace Files

variable {files : Files}

theorem pathFault?_ne_other (path m : Text) : pathFault? path ≠ some (.other m) := by
  unfold pathFault?
  split
  · simp
  · split
    · simp
    · split <;> simp

theorem enter_ne_other (location : Location) (m : Text) :
    files.enter location ≠ .error (.other m) := by
  unfold enter
  split <;> exact nofun

theorem resolve_ne_other (location : Location) (names : List Text) (m : Text) :
    files.resolve location names ≠ .error (.other m) := by
  induction names generalizing location with
  | nil => simp [resolve]
  | cons name names ih =>
      rw [resolve]
      refine bind_ne_other (enter_ne_other location m) fun _ => ?_
      split
      · exact ih _
      split
      · exact ih _
      split
      · simp
      · exact ih _

theorem source_ne_other (path m : Text) : files.source path ≠ .error (.other m) := by
  unfold source
  split
  · rename_i fault hfault
    intro h
    exact pathFault?_ne_other path m (Except.error.inj h ▸ hfault)
  · refine bind_ne_other (resolve_ne_other _ _ m) fun location => ?_
    split <;> exact nofun

theorem target_ne_other (path m : Text) : files.target path ≠ .error (.other m) := by
  unfold target
  split
  · rename_i fault hfault
    intro h
    exact pathFault?_ne_other path m (Except.error.inj h ▸ hfault)
  split
  · exact nofun
  refine bind_ne_other (resolve_ne_other _ _ m) fun directory =>
    bind_ne_other (enter_ne_other directory m) fun _ => ?_
  split
  · exact nofun
  · split <;> exact nofun

theorem sink_ne_other (path m : Text) : files.sink path ≠ .error (.other m) := by
  refine bind_ne_other (target_ne_other path m) fun location => ?_
  split <;> exact nofun

end Files

namespace Sandbox

variable {s : Sandbox} {o : Options} {args : List Text} {summary : Text} {f : Failure}
  {events : List Event} {exit : Option Exit}

theorem bytesAt_ne_other (s : Sandbox) (path m : Text) :
    s.bytesAt path ≠ some (.error (.other m)) := by
  unfold bytesAt
  rcases hsource : s.files.source path with fault | source
  · intro h
    have hfault : fault = .other m := Except.error.inj (Option.some.inj h)
    exact Files.source_ne_other path m (hsource.trans (congrArg _ hfault))
  · cases h : s.held? source <;> simp [h]

theorem summaryBytes_ne_other (s : Sandbox) (o : Options) (m : Text) :
    s.summaryBytes o ≠ some (.error (.other m)) := by
  unfold summaryBytes
  split
  · exact s.bytesAt_ne_other _ m
  · exact nofun

section Paths

variable (hpaths : ∀ path ∈ o.paths, '\n' ∉ path)
include hpaths

/-- The wording of a failure on one of the paths. -/
theorem newline_notMem_wording {verb path : Text} (hverb : '\n' ∉ verb) (hpath : path ∈ o.paths)
    {fault : Fault} (h : ∀ m, fault ≠ .other m) :
    '\n' ∉ verb ++ path ++ ": ".toList ++ fault.message := by
  have hmessage := Fault.newline_notMem_message h
  simp only [List.mem_append, not_or]
  exact ⟨⟨⟨hverb, hpaths path hpath⟩, by decide⟩, hmessage⟩

theorem newline_notMem_readFile {path : Text} (hpath : path ∈ o.paths) {fault : Fault}
    (h : ∀ m, fault ≠ .other m) : '\n' ∉ (Failure.readFile path fault).message :=
  newline_notMem_wording hpaths (by decide) hpath h

theorem newline_notMem_settingsFailure (h : s.SettingsFailure o f) : '\n' ∉ f.message := by
  have hsettings : o.settings ∈ o.paths := List.mem_cons_self
  cases h with
  | unreadable hbytes _ =>
      exact newline_notMem_readFile hpaths hsettings
        fun m heq => s.bytesAt_ne_other _ m (heq ▸ hbytes)
  | notText _ _ => exact newline_notMem_readFile hpaths hsettings nofun
  | invalid _ _ => decide

theorem newline_notMem_summaryFailure_message {fault : Fault} (h : ∀ m, fault ≠ .other m) :
    '\n' ∉ (o.summaryFailure fault).message := by
  rcases hinput : o.input with _ | path
  · have hmessage := Fault.newline_notMem_message h
    rw [Options.summaryFailure, hinput]
    unfold Failure.message
    rw [List.mem_append, not_or]
    exact ⟨by decide, hmessage⟩
  · rw [Options.summaryFailure, hinput]
    refine newline_notMem_readFile hpaths ?_ h
    simp [Options.paths, hinput]

theorem newline_notMem_outputFailure_message {fault : Fault} (h : ∀ m, fault ≠ .other m) :
    '\n' ∉ (o.outputFailure fault).message := by
  rcases houtput : o.output with _ | path
  · have hmessage := Fault.newline_notMem_message h
    rw [Options.outputFailure, houtput]
    unfold Failure.message
    rw [List.mem_append, not_or]
    exact ⟨by decide, hmessage⟩
  · rw [Options.outputFailure, houtput]
    exact newline_notMem_wording hpaths (by decide) (by simp [Options.paths, houtput]) h

theorem newline_notMem_outputFailure (h : s.OutputFailure o f) : '\n' ∉ f.message := by
  cases h with
  | noSink hsink =>
      refine newline_notMem_outputFailure_message hpaths fun m heq => ?_
      unfold resultSink at hsink
      split at hsink
      · exact Files.sink_ne_other _ m (heq ▸ hsink)
      · cases hsink
  | refused _ => exact newline_notMem_outputFailure_message hpaths nofun

/-- Each event of a run is one line of the log, if its paths hold no line feed. -/
theorem Story.newline_notMem_line (h : s.Story o exit events) : ∀ e ∈ events, '\n' ∉ e.line := by
  have hmissing : ∀ e ∈ s.missing o, '\n' ∉ e.line := by
    intro e he
    obtain ⟨rfl, -⟩ := mem_missing_iff.mp he
    unfold Event.line
    rw [List.mem_append, not_or]
    exact ⟨by decide, hpaths _ List.mem_cons_self⟩
  have hfailed {f : Failure} (hf : '\n' ∉ f.message) : '\n' ∉ (Event.failed f).line := by
    unfold Event.line
    rw [List.mem_append, not_or]
    exact ⟨by decide, hf⟩
  have hnumber (n : Nat) : '\n' ∉ Text.ofNat n := fun hmem =>
    absurd (Text.isDigit_of_mem_ofNat hmem) (by decide)
  have hrendered (summary : Text) : '\n' ∉ (Event.ofSummary summary).line := by
    unfold Event.ofSummary Event.line
    simp only [List.mem_append, not_or]
    exact ⟨⟨⟨by decide, hnumber _⟩, by decide⟩, hnumber _⟩
  have hwrote : ∀ e ∈ o.output.toList.map Event.wrote, '\n' ∉ e.line := by
    intro e he
    obtain ⟨path, hpath, rfl⟩ := List.mem_map.mp he
    unfold Event.line
    rw [List.mem_append, not_or]
    exact ⟨by decide, hpaths path (List.mem_cons_of_mem _ (List.mem_append_right _ hpath))⟩
  cases h with
  | settingsWait _ | summaryWait _ _ => exact hmissing
  | settings hf =>
      simp only [List.forall_mem_append, List.forall_mem_singleton]
      exact ⟨hmissing, hfailed (newline_notMem_settingsFailure hpaths hf)⟩
  | summary _ hf =>
      simp only [List.forall_mem_append, List.forall_mem_singleton]
      refine ⟨hmissing, hfailed ?_⟩
      cases hf with
      | unreadable hbytes =>
          exact newline_notMem_summaryFailure_message hpaths
            fun m heq => s.summaryBytes_ne_other o m (heq ▸ hbytes)
      | notText _ _ => exact newline_notMem_summaryFailure_message hpaths nofun
  | outputWait _ _ _ =>
      simp only [List.forall_mem_append, List.forall_mem_singleton]
      exact ⟨hmissing, hrendered _⟩
  | output _ _ hf =>
      simp only [List.forall_mem_append, List.forall_mem_singleton]
      exact ⟨⟨hmissing, hrendered _⟩, hfailed (newline_notMem_outputFailure hpaths hf)⟩
  | success _ _ =>
      simp only [List.forall_mem_append, List.forall_mem_singleton]
      exact ⟨⟨hmissing, hrendered _⟩, hwrote⟩

end Paths

/-! ### The whole log -/

/-- What the log tells of a run is what has happened. A run that tells what it does tells of one
rendering if it has its settings and its summary, with the size of the summary and the number of
its blocks; of the settings file if it is missing; and of the output file if it has been written. A
run that does not tells of a failure only, and any run tells of a failure once if it fails. If no
path holds a line feed, all this takes one line each. -/
theorem command_log (hargs : Options.ofArguments args = .ok o) (s : Sandbox) :
    ∃ told : List Event, (s.command args).2.log = s.log ++ told ∧
      (o.verbose = true →
        (s.LoadsSettings o ∧ s.ReadsSummary o →
          ∃ summary : Text, (s.afterSettings o).summaryBytes o = some (.ok summary.encode) ∧
            told.filter Event.isRendered =
              [.rendered (1 + summary.count '\n' + 2 * Line.bulletRuns (Line.parse summary))
                summary.encode.size]) ∧
        (¬ (s.LoadsSettings o ∧ s.ReadsSummary o) → told.filter Event.isRendered = []) ∧
        (∀ path, .settingsMissing path ∈ told ↔
          path = o.settings ∧ s.bytesAt o.settings = some (.error .notFound)) ∧
        ∀ path, .wrote path ∈ told ↔ o.output = some path ∧ s.ExitsWith args 0) ∧
      (o.verbose = false → s.ExitsWith args 0 → told = []) ∧
      told.countP Event.isFailure = (if s.ExitsWith args 1 then 1 else 0) ∧
      ((∀ path ∈ o.paths, '\n' ∉ path) → ∀ e ∈ told, '\n' ∉ e.line) := by
  obtain ⟨events, hstory, hlog⟩ := exists_story hargs s
  simp only [exitsWith_zero_iff, exitsWith_one_iff]
  refine ⟨events.filter o.tells, hlog, fun hverbose => ?_, fun hverbose hexit => ?_, ?_, ?_⟩
  · have hall : events.filter o.tells = events :=
      List.filter_eq_self.mpr fun e _ => by simp [Options.tells, hverbose]
    rw [hall]
    refine ⟨fun ⟨hloads, hreads⟩ => ?_, hstory.filter_isRendered_eq_nil,
      hstory.settingsMissing_mem_iff, hstory.wrote_mem_iff⟩
    obtain ⟨-, summary, -, hsummary⟩ := exists_found_of_reads hloads hreads
    refine ⟨summary, summaryFor_eq_ok_iff.mp hsummary, ?_⟩
    rw [hstory.filter_isRendered hloads hsummary, Event.ofSummary, Block.length_ofSummary,
      Text.size_encode]
  · have hnone := hstory.countP_isFailure
    rw [hexit, if_neg nofun, List.countP_eq_zero] at hnone
    exact List.filter_eq_nil_iff.mpr fun e he => by simp [Options.tells, hverbose, hnone e he]
  · have hfailures : (events.filter o.tells).countP Event.isFailure
        = events.countP Event.isFailure := by
      rw [List.countP_filter]
      congr 1
      funext e
      cases h : e.isFailure <;> simp [Options.tells, h]
    rw [hfailures, hstory.countP_isFailure]
  · exact fun hpaths e he => hstory.newline_notMem_line hpaths e (List.mem_filter.mp he).1

/-- A summary of three lines with two runs of bullets takes seven blocks. -/
theorem command_log_bullets :
    (Sandbox.command ["-v".toList]
      { files := {}, input := Text.encode "* a\n\n* b".toList }).2.log.filter Event.isRendered
        = [.rendered 7 8] := by
  obtain ⟨told, hlog, htold, -⟩ := @command_log { verbose := true } ["-v".toList] rfl
    { files := {}, input := Text.encode "* a\n\n* b".toList }
  obtain ⟨summary, hsummary, hrendered⟩ := (htold rfl).1
    ⟨.inl rfl, "* a\n\n* b".toList, rfl⟩
  have hbytes : Text.encode "* a\n\n* b".toList = summary.encode :=
    Except.ok.inj (Option.some.inj hsummary)
  obtain rfl : "* a\n\n* b".toList = summary := by
    rw [← Option.some_inj, ← Text.decode?_encode, hbytes, Text.decode?_encode]
  rw [hlog, List.nil_append, hrendered]
  rfl

end Sandbox

end MeetingMail
