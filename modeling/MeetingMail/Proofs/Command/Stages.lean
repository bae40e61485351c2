import MeetingMail.Command.Sandbox

/-!
The stages of a run in a sandbox, each by what it answers and what it leaves behind.

* `bytesAt` is what a reader finds at a path, and `afterReading` what is left once it has been read.
  A path may lead to the standard input, which can be read only once, or to a device that a reader
  never comes to the end of.
* `run_of_settings_error`, `run_of_summary_error` and `run_of_ok` put the stages together: a run
  ends with the first stage that fails. `run_of_settings_none` and `run_of_summary_none`: it does
  not get past a stage that waits for ever.
* `OnlyRead` is the frame of all stages but the last: they read, and the log tells something short
  of a failure.
-/

namespace MeetingMail

theorem textOfRead_eq_ok_iff {read : Except Fault ByteArray} {t : Text} :
    textOfRead read = .ok t ↔ read = .ok t.encode := by
  rcases read with fault | bytes
  · simp [textOfRead, Except.bind]
  · rw [Except.ok.injEq, ← Text.decode?_eq_some_iff]
    cases h : Text.decode? bytes <;> simp [textOfRead, Except.bind, h]

theorem textOfRead_eq_error_iff {read : Except Fault ByteArray} {fault : Fault} :
    textOfRead read = .error fault ↔
      read = .error fault ∨
        fault = .notUtf8 ∧ ∃ bytes, read = .ok bytes ∧ ∀ t, bytes ≠ Text.encode t := by
  rcases read with fault' | bytes
  · simp [textOfRead, Except.bind]
  · simp only [← Text.decode?_eq_some_iff, ne_eq]
    cases h : Text.decode? bytes <;> simp [textOfRead, Except.bind, h, eq_comm]

/-- The failure of a run that cannot read its summary. -/
def Options.summaryFailure (o : Options) : Fault → Failure :=
  match o.input with
  | some path => .readFile path
  | none => .readInput

/-- The failure of a run that cannot write its result. -/
def Options.outputFailure (o : Options) : Fault → Failure :=
  match o.output with
  | some path => .writeFile path
  | none => .writeOutput

namespace Sandbox

variable {s s' s'' : Sandbox} {o : Options}

/-! ### Actions, one after the other -/

section Bind

variable {α β : Type} {action : SandboxM α} {next : α → SandboxM β}

/-- An action goes on with what its first step answers and leaves behind. -/
theorem runIn_bind_of_some {a : α} (h : s.runIn action = (some a, s')) :
    s.runIn (action >>= next) = s'.runIn (next a) := by
  unfold runIn at h ⊢
  rw [OptionT.run_bind, Option.elimM, StateT.run_bind, h]
  rfl

/-- An action does not get past a step that waits for ever. -/
theorem runIn_bind_of_none (h : s.runIn action = (none, s')) :
    s.runIn (action >>= next) = (none, s') := by
  unfold runIn at h ⊢
  rw [OptionT.run_bind, Option.elimM, StateT.run_bind, h]
  rfl

theorem runIn_get_bind (s : Sandbox) (next : Sandbox → SandboxM β) :
    s.runIn (get >>= next) = s.runIn (next s) := rfl

end Bind

/-! ### Reading -/

/-- What a reader finds at a path, if it comes to the end. -/
def bytesAt (s : Sandbox) (path : Text) : Option (Except Fault ByteArray) :=
  match s.files.source path with
  | .error fault => some (.error fault)
  | .ok source => (s.held? source).map .ok

/-- What is left once a path has been read. -/
def afterReading (s : Sandbox) (path : Text) : Sandbox :=
  match s.files.source path with
  | .error _ => s
  | .ok source => s.drained source

/-- What is left once the log has been offered an event. -/
def noted (s : Sandbox) (o : Options) (e : Event) : Sandbox :=
  if o.verbose || e.isFailure then { s with log := s.log ++ [e] } else s

theorem noted_failed (s : Sandbox) (o : Options) (f : Failure) :
    s.noted o (.failed f) = { s with log := s.log ++ [.failed f] } := by
  simp [noted, Event.isFailure]

theorem run_take (s : Sandbox) (source : Source) :
    s.runIn (take source) = (s.held? source, s.drained source) := by
  unfold take
  rw [runIn_get_bind]
  cases h : s.held? source with
  | some bytes => rfl
  | none =>
      -- Only what has an end is used up.
      have hleft : s.drained source = s := by
        unfold drained
        split
        · cases h
        · rfl
      rw [hleft]
      rfl

theorem run_readFile (s : Sandbox) (path : Text) :
    s.runIn (host.readFile path) = (s.bytesAt path, s.afterReading path) := by
  unfold host bytesAt afterReading
  dsimp only
  rw [runIn_get_bind]
  rcases s.files.source path with fault | source
  · rfl
  · dsimp only
    have htake := s.run_take source
    cases h : s.held? source with
    | some bytes =>
        rw [h] at htake
        exact runIn_bind_of_some htake
    | none =>
        rw [h] at htake
        exact runIn_bind_of_none htake

theorem run_note (s : Sandbox) (o : Options) (e : Event) :
    s.runIn (host.note o e) = (some (), s.noted o e) := by
  unfold Host.note noted
  split <;> rfl

/-! ### The settings -/

/-- The settings that a run works with, if it comes to the end of reading them. -/
def settingsFor (s : Sandbox) (o : Options) : Option (Except Failure Settings) :=
  (s.bytesAt o.settings).map (Settings.ofRead o.settings)

/-- What is left once the settings have been loaded. -/
def afterSettings (s : Sandbox) (o : Options) : Sandbox :=
  match s.bytesAt o.settings with
  | some (.error .notFound) => (s.afterReading o.settings).noted o (.settingsMissing o.settings)
  | _ => s.afterReading o.settings

theorem run_loadSettings (s : Sandbox) (o : Options) :
    s.runIn (host.loadSettings o) = (s.settingsFor o, s.afterSettings o) := by
  have hread := s.run_readFile o.settings
  unfold Host.loadSettings afterSettings settingsFor
  rcases h : s.bytesAt o.settings with _ | fault | bytes
  · rw [h] at hread
    exact runIn_bind_of_none hread
  · rw [h] at hread
    rw [runIn_bind_of_some hread]
    cases fault with
    | notFound => exact runIn_bind_of_some (run_note ..)
    | _ => rfl
  · rw [h] at hread
    rw [runIn_bind_of_some hread]
    rfl

/-! ### The summary -/

/-- The bytes of the summary that a run works with, if it comes to the end of reading them. -/
def summaryBytes (s : Sandbox) (o : Options) : Option (Except Fault ByteArray) :=
  match o.input with
  | some path => s.bytesAt path
  | none => some (.ok s.input)

/-- The summary that a run works with. -/
def summaryFor (s : Sandbox) (o : Options) : Option (Except Failure Text) :=
  (s.summaryBytes o).map fun read => (textOfRead read).mapError o.summaryFailure

/-- What is left once the summary has been read. -/
def afterSummary (s : Sandbox) (o : Options) : Sandbox :=
  match o.input with
  | some path => s.afterReading path
  | none => s.drained (.special .input)

theorem run_readSummary (s : Sandbox) (o : Options) :
    s.runIn (host.readSummary o) = (s.summaryFor o, s.afterSummary o) := by
  unfold Host.readSummary summaryFor summaryBytes afterSummary Options.summaryFailure
  cases o.input with
  | none => rfl
  | some path =>
      have hread := s.run_readFile path
      dsimp only
      cases h : s.bytesAt path with
      | some read =>
          rw [h] at hread
          exact runIn_bind_of_some hread
      | none =>
          rw [h] at hread
          exact runIn_bind_of_none hread

/-! ### The result -/

/-- The place where a run writes its result. -/
def resultSink (s : Sandbox) (o : Options) : Except Fault Sink :=
  match o.output with
  | some path => s.files.sink path
  | none => .ok (.special .output)

/-- What is left once the result has been written. On the standard output a line feed ends it. -/
def afterResult (s : Sandbox) (o : Options) (content : Text) (sink : Sink) : Sandbox :=
  match o.output with
  | some path => (s.stored content sink).noted o (.wrote path)
  | none => s.stored (content ++ ['\n']) sink

section Store

variable {sink : Sink}

theorem run_store_of_all (h : s.uptake sink = .all) (content : Text) :
    s.runIn (store content sink) = (some (.ok ()), s.stored content sink) := by
  unfold store
  rw [runIn_get_bind, h]
  rfl

theorem run_store_of_nothing (h : s.uptake sink = .nothing) (content : Text) :
    s.runIn (store content sink) = (some (.error .noSpace), s) := by
  unfold store
  rw [runIn_get_bind, h]
  rfl

theorem run_store_of_stalled (h : s.uptake sink = .stalled) (content : Text) :
    s.runIn (store content sink) = (none, s) := by
  unfold store
  rw [runIn_get_bind, h]
  rfl

theorem run_writeFile_of_error {path : Text} {fault : Fault}
    (h : s.files.sink path = .error fault) (content : Text) :
    s.runIn (host.writeFile path content) = (some (.error fault), s) := by
  unfold host
  dsimp only
  rw [runIn_get_bind, h]
  rfl

theorem run_writeFile_of_ok {path : Text} (h : s.files.sink path = .ok sink) (content : Text) :
    s.runIn (host.writeFile path content) = s.runIn (store content sink) := by
  unfold host
  dsimp only
  rw [runIn_get_bind, h]

theorem run_writeResult_of_all (hsink : s.resultSink o = .ok sink) (h : s.uptake sink = .all)
    (content : Text) :
    s.runIn (host.writeResult o content) = (some (.ok ()), s.afterResult o content sink) := by
  unfold resultSink at hsink
  unfold Host.writeResult afterResult
  generalize o.output = output at hsink ⊢
  cases output with
  | some path =>
      dsimp only
      rw [runIn_bind_of_some ((run_writeFile_of_ok hsink content).trans (run_store_of_all h _))]
      exact runIn_bind_of_some (run_note ..)
  | none =>
      cases hsink
      exact runIn_bind_of_some (run_store_of_all h _)

theorem run_writeResult_of_nothing (hsink : s.resultSink o = .ok sink)
    (h : s.uptake sink = .nothing) (content : Text) :
    s.runIn (host.writeResult o content) = (some (.error (o.outputFailure .noSpace)), s) := by
  unfold resultSink at hsink
  unfold Host.writeResult Options.outputFailure
  generalize o.output = output at hsink ⊢
  cases output with
  | some path =>
      exact runIn_bind_of_some
        ((run_writeFile_of_ok hsink content).trans (run_store_of_nothing h _))
  | none =>
      cases hsink
      exact runIn_bind_of_some (run_store_of_nothing h _)

theorem run_writeResult_of_stalled (hsink : s.resultSink o = .ok sink)
    (h : s.uptake sink = .stalled) (content : Text) :
    s.runIn (host.writeResult o content) = (none, s) := by
  unfold resultSink at hsink
  unfold Host.writeResult
  generalize o.output = output at hsink ⊢
  cases output with
  | some path =>
      exact runIn_bind_of_none
        ((run_writeFile_of_ok hsink content).trans (run_store_of_stalled h _))
  | none =>
      cases hsink
      exact runIn_bind_of_none (run_store_of_stalled h _)

theorem run_writeResult_of_error {fault : Fault} (hsink : s.resultSink o = .error fault)
    (content : Text) :
    s.runIn (host.writeResult o content) = (some (.error (o.outputFailure fault)), s) := by
  unfold resultSink at hsink
  unfold Host.writeResult Options.outputFailure
  generalize o.output = output at hsink ⊢
  cases output with
  | some path => exact runIn_bind_of_some (run_writeFile_of_error hsink content)
  | none => cases hsink

end Store

/-! ### What stages leave as it is -/

/-- Surroundings that differ in no more than what has been read of the standard input, and in what
the log has been told short of a failure. -/
structure OnlyRead (s s' : Sandbox) : Prop where
  files : s'.files = s.files
  inputUptake : s'.inputUptake = s.inputUptake
  device : s'.device = s.device
  output : s'.output = s.output
  log : ∃ told : List Event, (∀ e ∈ told, e.isFailure = false) ∧ s'.log = s.log ++ told

namespace OnlyRead

theorem refl (s : Sandbox) : s.OnlyRead s :=
  ⟨rfl, rfl, rfl, rfl, [], by simp, by simp⟩

theorem trans (h : s.OnlyRead s') (h' : s'.OnlyRead s'') : s.OnlyRead s'' := by
  obtain ⟨told, htold, hlog⟩ := h.log
  obtain ⟨told', htold', hlog'⟩ := h'.log
  refine ⟨h'.files.trans h.files, h'.inputUptake.trans h.inputUptake, h'.device.trans h.device,
    h'.output.trans h.output, told ++ told', ?_, by rw [hlog', hlog, List.append_assoc]⟩
  intro e he
  exact (List.mem_append.mp he).elim (htold e) (htold' e)

theorem resultSink (h : s.OnlyRead s') (o : Options) : s'.resultSink o = s.resultSink o := by
  unfold Sandbox.resultSink
  rw [h.files]

theorem uptake (h : s.OnlyRead s') (sink : Sink) : s'.uptake sink = s.uptake sink := by
  unfold Sandbox.uptake
  rw [h.inputUptake, h.device]

end OnlyRead

theorem onlyRead_drained (s : Sandbox) (source : Source) : s.OnlyRead (s.drained source) := by
  unfold drained
  split
  · exact ⟨rfl, rfl, rfl, rfl, [], by simp, by simp⟩
  · exact .refl s

theorem onlyRead_afterReading (s : Sandbox) (path : Text) : s.OnlyRead (s.afterReading path) := by
  unfold afterReading
  split
  · exact .refl s
  · exact s.onlyRead_drained _

theorem onlyRead_noted (s : Sandbox) (o : Options) {e : Event} (he : e.isFailure = false) :
    s.OnlyRead (s.noted o e) := by
  unfold noted
  split
  · exact ⟨rfl, rfl, rfl, rfl, [e], by simpa using he, rfl⟩
  · exact .refl s

theorem onlyRead_afterSettings (s : Sandbox) (o : Options) : s.OnlyRead (s.afterSettings o) := by
  unfold afterSettings
  split
  · exact (s.onlyRead_afterReading o.settings).trans (onlyRead_noted _ o rfl)
  · exact s.onlyRead_afterReading o.settings

theorem onlyRead_afterSummary (s : Sandbox) (o : Options) : s.OnlyRead (s.afterSummary o) := by
  unfold afterSummary
  split
  · exact s.onlyRead_afterReading _
  · exact s.onlyRead_drained _

/-! ### Runs -/

section Runs

variable {args : List Text} {settings : Settings} {summary : Text} {f : Failure}

theorem run_of_settings_none (h : s.settingsFor o = none) :
    s.runIn (host.run o) = (none, s.afterSettings o) :=
  runIn_bind_of_none ((run_loadSettings s o).trans (by rw [h]))

theorem run_of_settings_error (h : s.settingsFor o = some (.error f)) :
    s.runIn (host.run o) = (some (.error f), s.afterSettings o) :=
  runIn_bind_of_some ((run_loadSettings s o).trans (by rw [h]))

/-- A run that has its settings goes on with the summary. -/
theorem run_of_settings_ok (h : s.settingsFor o = some (.ok settings)) :
    s.runIn (host.run o) = (s.afterSettings o).runIn (host.readSummary o >>= fun
      | .error failure => pure (.error failure)
      | .ok summary => do
          let tell := fun blocks bytes => host.note o (.rendered blocks bytes)
          host.writeResult o (← o.renderM tell settings summary)) :=
  runIn_bind_of_some ((run_loadSettings s o).trans (by rw [h]))

theorem run_of_summary_none (hsettings : s.settingsFor o = some (.ok settings))
    (h : (s.afterSettings o).summaryFor o = none) :
    s.runIn (host.run o) = (none, (s.afterSettings o).afterSummary o) := by
  rw [run_of_settings_ok hsettings]
  exact runIn_bind_of_none ((run_readSummary _ o).trans (by rw [h]))

theorem run_of_summary_error (hsettings : s.settingsFor o = some (.ok settings))
    (h : (s.afterSettings o).summaryFor o = some (.error f)) :
    s.runIn (host.run o) = (some (.error f), (s.afterSettings o).afterSummary o) := by
  rw [run_of_settings_ok hsettings]
  exact runIn_bind_of_some ((run_readSummary _ o).trans (by rw [h]))

/-- What is left when a run comes to its last stage. -/
def beforeResult (s : Sandbox) (o : Options) (summary : Text) : Sandbox :=
  ((s.afterSettings o).afterSummary o).noted o
    (.rendered (Block.ofSummary summary).length summary.utf8Size)

theorem onlyRead_beforeResult (s : Sandbox) (o : Options) (summary : Text) :
    s.OnlyRead (s.beforeResult o summary) :=
  ((s.onlyRead_afterSettings o).trans (onlyRead_afterSummary _ o)).trans (onlyRead_noted _ o rfl)

/-- The log is offered what the rendering tells, and this is all that the rendering does. -/
theorem run_renderM (s : Sandbox) (o : Options) (settings : Settings) (summary : Text) :
    s.runIn (o.renderM (fun blocks bytes => host.note o (.rendered blocks bytes)) settings summary)
      = (some (o.render settings summary),
          s.noted o (.rendered (Block.ofSummary summary).length summary.utf8Size)) := by
  rw [Options.renderM_eq, map_eq_pure_bind, runIn_bind_of_some (run_note ..)]
  rfl

theorem run_of_ok (hsettings : s.settingsFor o = some (.ok settings))
    (hsummary : (s.afterSettings o).summaryFor o = some (.ok summary)) :
    s.runIn (host.run o) =
      (s.beforeResult o summary).runIn (host.writeResult o (o.render settings summary)) := by
  rw [run_of_settings_ok hsettings,
    runIn_bind_of_some ((run_readSummary _ o).trans (by rw [hsummary]))]
  exact runIn_bind_of_some (run_renderM ..)

theorem command_of_run_none (hargs : Options.ofArguments args = .ok o)
    (h : s.runIn (host.run o) = (none, s')) : s.command args = (none, s') := by
  unfold command Host.command
  rw [hargs]
  exact runIn_bind_of_none h

theorem command_of_run_ok (hargs : Options.ofArguments args = .ok o)
    (h : s.runIn (host.run o) = (some (.ok ()), s')) : s.command args = (some .success, s') := by
  unfold command Host.command
  rw [hargs]
  exact runIn_bind_of_some h

theorem command_of_run_error (hargs : Options.ofArguments args = .ok o)
    (h : s.runIn (host.run o) = (some (.error f), s')) :
    s.command args = (some .failure, { s' with log := s'.log ++ [.failed f] }) := by
  unfold command Host.command
  rw [hargs]
  dsimp only [Host.runToExit]
  rw [runIn_bind_of_some h]
  dsimp only
  rw [runIn_bind_of_some (run_note ..), noted_failed]
  rfl

end Runs

end Sandbox

end MeetingMail
