import MeetingMail.Proofs.Command.Failures

/-!
What a run leaves behind that succeeds, if all its paths are names in the working directory.

* `IsName` describes such paths. `source_of_isName` and `eq_file_of_sink`: they lead a reader and a
  writer to the file of that name and nowhere else.
* `settingsOf?` and `summaryOf?` are the settings and the summary that a run finds before it starts.
* `OnlyWrites` says that a text is on the standard output or in a file, and nothing else has
  changed.
* `command_effects`: a run that succeeds writes the rendering of what it found, in one place. This
  is the same text wherever it goes, but a line feed ends it on the standard output.
-/

namespace MeetingMail

/-- Holds of the paths that are a name in the working directory. -/
structure IsName (path : Text) : Prop where
  ne_nil : path ≠ []
  slash_notMem : '/' ∉ path

instance (path : Text) : Decidable (IsName path) :=
  decidable_of_iff (path ≠ [] ∧ '/' ∉ path) ⟨fun h => ⟨h.1, h.2⟩, fun h => ⟨h.1, h.2⟩⟩

/-- The paths that a run is given. -/
def Options.paths (o : Options) : List Text := o.settings :: (o.input.toList ++ o.output.toList)

/-! ### Names as paths -/

namespace IsName

variable {path : Text}

theorem pathPieces_of_slash_notMem {path : Text} (h : '/' ∉ path) : pathPieces path = [path] := by
  induction path with
  | nil => rfl
  | cons c path ih =>
      rw [List.mem_cons, not_or] at h
      rw [pathPieces, if_neg (Ne.symm h.1), ih h.2, List.modifyHead_cons]

theorem pathNames (h : IsName path) : pathNames path = [path] := by
  simp [MeetingMail.pathNames, pathPieces_of_slash_notMem h.slash_notMem, h.ne_nil]

theorem start (h : IsName path) (files : Files) : files.start path = files.here :=
  if_neg fun hslash => h.slash_notMem (List.mem_of_mem_head? hslash)

theorem endsInSlash (h : IsName path) : endsInSlash path = false := by
  refine beq_eq_false_iff_ne.mpr fun hslash => h.slash_notMem ?_
  exact List.mem_of_getLast? hslash

end IsName

namespace Files

variable {files : Files} {path : Text} {location : Location}

/-- What contains a directory is one too. -/
theorem isDirectory_dropLast (h : files.isDirectory location = true) :
    files.isDirectory location.dropLast = true := by
  unfold isDirectory at h ⊢
  obtain ⟨directory, hmem, hprefix⟩ := List.any_eq_true.mp h
  refine List.any_eq_true.mpr ⟨directory, hmem, ?_⟩
  rw [List.isPrefixOf_iff_prefix] at hprefix ⊢
  exact (List.dropLast_prefix location).trans hprefix

theorem isDirectory_here (files : Files) : files.isDirectory files.here = true :=
  List.any_eq_true.mpr ⟨_, List.mem_cons_self, by simp⟩

theorem get?_of_isDirectory (h : files.isDirectory location = true) :
    files.get? location = some .directory := if_pos h

theorem enter_here (files : Files) : files.enter files.here = .ok () := by
  rw [enter, get?_of_isDirectory files.isDirectory_here]

/-- No name in the working directory stands for a special file. -/
theorem get?_name_ne_special (files : Files) (name : Text) (special : Special) :
    files.get? (files.here ++ [name]) ≠ some (.special special) := by
  unfold get?
  split
  · exact nofun
  cases hspecial : files.specials.lookup (files.here ++ [name]) with
  | none => cases files.plain.lookup (files.here ++ [name]) <;> exact nofun
  | some special' =>
      obtain ⟨before, after, hmem, -⟩ := List.lookup_eq_some_iff.mp hspecial
      have helsewhere := files.specials_elsewhere (files.here ++ [name], special') (by simp [hmem])
      exact absurd List.dropLast_concat helsewhere

/-- A name in the working directory leads to its location, or to a directory that is reached through
dots. -/
theorem resolve_name (files : Files) (name : Text) :
    files.resolve files.here [name] = .ok (files.here ++ [name]) ∨
      files.resolve files.here [name] = .error .nameTooLong ∨
      ∃ location, files.resolve files.here [name] = .ok location ∧
        files.get? location = some .directory := by
  simp only [resolve, enter_here, Except.bind]
  split
  · exact .inr (.inr ⟨_, rfl, get?_of_isDirectory files.isDirectory_here⟩)
  split
  · exact .inr (.inr ⟨_, rfl, get?_of_isDirectory (isDirectory_dropLast files.isDirectory_here)⟩)
  split
  · exact .inr (.inl rfl)
  · exact .inl rfl

theorem pathFault?_ne_notFound {path : Text} (h : path ≠ []) :
    pathFault? path ≠ some .notFound := by
  unfold pathFault?
  split
  · simp
  · split <;> simp

/-- A reader finds the file of a name, or nothing of that name, or what cannot be read. -/
theorem source_of_isName (files : Files) (h : IsName path) :
    (∃ content, files.source path = .ok (.content content) ∧
        files.get? (files.here ++ [path]) = some (.file content)) ∨
      (files.source path = .error .notFound ∧ files.get? (files.here ++ [path]) = none) ∨
      ∃ fault, fault ≠ .notFound ∧ files.source path = .error fault := by
  unfold source
  have hne := pathFault?_ne_notFound h.ne_nil
  rcases hfault : pathFault? path with _ | fault
  · rw [h.start, h.pathNames, h.endsInSlash]
    rcases files.resolve_name path with hlocation | hlong | ⟨location, hlocation, hdirectory⟩
    · rw [hlocation]
      rcases hget : files.get? (files.here ++ [path]) with _ | _ | content | special
      · exact .inr (.inl ⟨by simp [Except.bind, hget], rfl⟩)
      · exact .inr (.inr ⟨.isADirectory, nofun, by simp [Except.bind, hget]⟩)
      · exact .inl ⟨content, by simp [Except.bind, hget], rfl⟩
      · exact absurd hget (files.get?_name_ne_special path special)
    · exact .inr (.inr ⟨.nameTooLong, nofun, by rw [hlong]; rfl⟩)
    · exact .inr (.inr ⟨.isADirectory, nofun, by simp [Except.bind, hlocation, hdirectory]⟩)
  · exact .inr (.inr ⟨fault, fun heq => hne (hfault.trans (congrArg some heq)), rfl⟩)

theorem eq_of_target (h : IsName path) (htarget : files.target path = .ok location) :
    location = files.here ++ [path] := by
  unfold target at htarget
  split at htarget
  · cases htarget
  · simp only [h.pathNames, h.start, List.getLast?_singleton, List.dropLast_singleton, resolve,
      enter_here, Except.bind] at htarget
    split at htarget
    · cases htarget
    split at htarget
    · cases htarget
    exact (Except.ok.inj htarget).symm

/-- A writer of a name finds the location of that name. -/
theorem eq_file_of_sink {sink : Sink} (h : IsName path) (hsink : files.sink path = .ok sink) :
    sink = .file (files.here ++ [path]) := by
  unfold Files.sink at hsink
  rcases htarget : files.target path with fault | location
  · rw [htarget] at hsink
    cases hsink
  · obtain rfl := eq_of_target h htarget
    rw [htarget] at hsink
    simp only [Except.bind] at hsink
    split at hsink
    · cases hsink
    · rename_i special hspecial
      exact absurd hspecial (files.get?_name_ne_special path special)
    · exact (Except.ok.inj hsink).symm

end Files

/-! ### What a run finds -/

/-- The text in a file of the working directory. -/
def Files.textOf? (files : Files) (name : Text) : Option Text :=
  match files.get? (files.here ++ [name]) with
  | some (.file content) => Text.decode? content
  | _ => none

/-- The settings in a file of the working directory. If the file is missing, they are those that are
built into the program. -/
def Files.settingsOf? (files : Files) (name : Text) : Option Settings :=
  if (files.get? (files.here ++ [name])).isNone then some .compiled
  else (files.textOf? name).bind Settings.ofToml?

namespace Sandbox

variable {s : Sandbox} {o : Options} {settings : Settings} {summary : Text} {args : List Text}

/-- The text of the summary that a run is asked for. -/
def summaryOf? (s : Sandbox) (o : Options) : Option Text :=
  match o.input with
  | some name => s.files.textOf? name
  | none => Text.decode? s.input

/-- What a reader finds at a name is in the file of that name. -/
theorem get?_of_bytesAt {path : Text} {bytes : ByteArray} (h : IsName path)
    (hbytes : s.bytesAt path = some (.ok bytes)) :
    s.files.get? (s.files.here ++ [path]) = some (.file bytes) := by
  unfold bytesAt at hbytes
  rcases s.files.source_of_isName h with
    ⟨content, hsource, hget⟩ | ⟨hsource, -⟩ | ⟨fault, -, hsource⟩
  · rw [hsource] at hbytes
    rw [hget, Except.ok.inj (Option.some.inj hbytes)]
  · simp [hsource] at hbytes
  · simp [hsource] at hbytes

theorem get?_of_bytesAt_notFound {path : Text} (h : IsName path)
    (hbytes : s.bytesAt path = some (.error .notFound)) :
    s.files.get? (s.files.here ++ [path]) = none := by
  unfold bytesAt at hbytes
  rcases s.files.source_of_isName h with
    ⟨content, hsource, -⟩ | ⟨-, hnone⟩ | ⟨fault, hne, hsource⟩
  · simp [hsource, held?] at hbytes
  · exact hnone
  · rw [hsource] at hbytes
    exact absurd (Except.error.inj (Option.some.inj hbytes)) hne

theorem afterReading_of_isName (s : Sandbox) {path : Text} (h : IsName path) :
    s.afterReading path = s := by
  unfold afterReading
  rcases s.files.source_of_isName h with ⟨_, hsource, -⟩ | ⟨hsource, -⟩ | ⟨_, -, hsource⟩ <;>
    rw [hsource]
  rfl

theorem settingsOf?_of_settingsFor (h : IsName o.settings)
    (hsettings : s.settingsFor o = some (.ok settings)) :
    s.files.settingsOf? o.settings = some settings := by
  unfold Files.settingsOf? Files.textOf?
  rcases settingsFor_eq_ok_iff.mp hsettings with ⟨hmissing, heq⟩ | ⟨t, hread, htoml⟩
  · rw [get?_of_bytesAt_notFound h hmissing, heq]
    rfl
  · simp [get?_of_bytesAt h hread, htoml]

theorem summaryOf?_of_summaryBytes {t : Text} (h : ∀ path ∈ o.input, IsName path)
    (hbytes : s.summaryBytes o = some (.ok t.encode)) : s.summaryOf? o = some t := by
  unfold summaryBytes at hbytes
  unfold summaryOf? Files.textOf?
  rcases hinput : o.input with _ | path
  · rw [hinput] at hbytes
    exact Text.decode?_eq_some_iff.mpr (Except.ok.inj (Option.some.inj hbytes))
  · rw [hinput] at hbytes
    simp [get?_of_bytesAt (h path hinput) hbytes]

/-- Loading the settings from a file leaves the summary where it is. -/
theorem summaryOf?_afterSettings (h : IsName o.settings) :
    (s.afterSettings o).summaryOf? o = s.summaryOf? o := by
  unfold summaryOf?
  rw [(s.onlyRead_afterSettings o).files, input_afterSettings, afterReading_of_isName s h]

/-! ### What a run writes -/

/-- Holds if a text has been put in one place, and all other files and what was on the standard
output are as before. In a file the text is as it is; on the standard output a line feed ends it. -/
def OnlyWrites (s s' : Sandbox) (content : Text) : Option Text → Prop
  | none => s'.output = s.output ++ content ++ ['\n'] ∧ s'.files = s.files
  | some name =>
      s'.output = s.output ∧
        s'.files.get? (s.files.here ++ [name]) = some (.file content.encode) ∧
        ∀ location, location ≠ s.files.here ++ [name] →
          s'.files.get? location = s.files.get? location

/-- What a run needs that succeeds. -/
theorem exists_stages_of_success (hargs : Options.ofArguments args = .ok o)
    (h : (s.command args).1 = some .success) :
    ∃ settings summary, s.settingsFor o = some (.ok settings) ∧
      (s.afterSettings o).summaryFor o = some (.ok summary) ∧ s.AcceptsResult o := by
  obtain ⟨hloads, hreads, haccepts⟩ := (command_eq_success_iff hargs).mp h
  obtain ⟨settings, summary, hsettings, hsummary⟩ := exists_found_of_reads hloads hreads
  exact ⟨settings, summary, hsettings, hsummary, haccepts⟩

theorem onlyWrites_of_stages (hargs : Options.ofArguments args = .ok o)
    (houtput : ∀ path ∈ o.output, IsName path) (hsettings : s.settingsFor o = some (.ok settings))
    (hsummary : (s.afterSettings o).summaryFor o = some (.ok summary))
    (haccepts : s.AcceptsResult o) :
    (s.command args).1 = some .success ∧
      s.OnlyWrites (s.command args).2 (o.render settings summary) o.output := by
  have hbefore := s.onlyRead_beforeResult o summary
  obtain ⟨sink, hsink, hu⟩ := hbefore.resultMeets_iff.mpr haccepts
  have hrun := (run_of_ok hsettings hsummary).trans (run_writeResult_of_all hsink hu _)
  rw [command_of_run_ok hargs hrun]
  refine ⟨rfl, ?_⟩
  unfold resultSink at hsink
  unfold afterResult
  split at hsink
  · rename_i name hname
    rw [hbefore.files] at hsink
    obtain rfl := Files.eq_file_of_sink (houtput name hname) hsink
    have hnoted := onlyRead_noted ((s.beforeResult o summary).stored (o.render settings summary)
      (.file (s.files.here ++ [name]))) o (e := .wrote name) rfl
    rw [hname]
    refine ⟨hnoted.output.trans hbefore.output, ?_, fun location hne => ?_⟩
    · rw [hnoted.files, stored, hbefore.files]
      exact Files.get?_put_of_sink hsink _
    · rw [hnoted.files, stored, hbefore.files, Files.get?_put_of_ne _ hne]
  · rename_i hnone
    cases hsink
    rw [hnone]
    exact ⟨by rw [stored, hbefore.output, List.append_assoc], hbefore.files⟩

/-- A run that succeeds has found settings and a summary, and all that it leaves behind is their
rendering. -/
theorem exists_onlyWrites_of_success (hargs : Options.ofArguments args = .ok o)
    (hnames : ∀ path ∈ o.paths, IsName path) (h : s.ExitsWith args 0) :
    ∃ settings summary, s.files.settingsOf? o.settings = some settings ∧
      s.summaryOf? o = some summary ∧
      s.OnlyWrites (s.command args).2 (o.render settings summary) o.output := by
  simp only [Options.paths, List.forall_mem_cons, List.forall_mem_append, Option.mem_toList]
    at hnames
  obtain ⟨hname, hinput, houtput⟩ := hnames
  obtain ⟨settings, summary, hsettings, hsummary, haccepts⟩ :=
    exists_stages_of_success hargs (exitsWith_zero_iff.mp h)
  refine ⟨settings, summary, settingsOf?_of_settingsFor hname hsettings, ?_,
    (onlyWrites_of_stages hargs houtput hsettings hsummary haccepts).2⟩
  rw [← summaryOf?_afterSettings hname]
  exact summaryOf?_of_summaryBytes hinput (summaryFor_eq_ok_iff.mp hsummary)

/-- A run that succeeds with an output file also does without one, if the standard output takes what
is written to it. -/
theorem exitsWith_zero_of_output {args' : List Text} {name : Text}
    (hargs : Options.ofArguments args = .ok { o with output := none })
    (hargs' : Options.ofArguments args' = .ok { o with output := some name })
    (hdevice : s.device.uptake = .all) (h : s.ExitsWith args' 0) : s.ExitsWith args 0 := by
  rw [exitsWith_zero_iff, command_eq_success_iff hargs'] at h
  rw [exitsWith_zero_iff, command_eq_success_iff hargs]
  exact ⟨h.1, h.2.1, .special .output, rfl, hdevice⟩

/-- A run that succeeds on names in the working directory writes, in one place, the rendering of the
summary and with the settings that were there before. So what a run writes into a file, the same run
without an output file writes to the standard output, with a line feed behind it. -/
theorem command_effects :
    (∀ (args : List Text) (o : Options) (s : Sandbox), Options.ofArguments args = .ok o →
      (∀ path ∈ o.paths, IsName path) → s.ExitsWith args 0 →
      ∃ settings summary, s.files.settingsOf? o.settings = some settings ∧
        s.summaryOf? o = some summary ∧
        s.OnlyWrites (s.command args).2 (o.render settings summary) o.output) ∧
    ∀ (args args' : List Text) (o : Options) (name : Text) (s : Sandbox),
      Options.ofArguments args = .ok { o with output := none } →
      Options.ofArguments args' = .ok { o with output := some name } →
      (∀ path ∈ ({ o with output := some name } : Options).paths, IsName path) →
      s.device.uptake = .all → s.ExitsWith args' 0 →
      ∃ content, (s.command args').2.files.get? (s.files.here ++ [name]) =
          some (.file (Text.encode content)) ∧
        s.ExitsWith args 0 ∧ (s.command args).2.output = s.output ++ content ++ ['\n'] := by
  refine ⟨fun args o s => exists_onlyWrites_of_success, ?_⟩
  intro args args' o name s hargs hargs' hnames hdevice hexit
  have hexit' := exitsWith_zero_of_output hargs hargs' hdevice hexit
  have hnames' : ∀ path ∈ ({ o with output := none } : Options).paths, IsName path := by
    intro path hpath
    refine hnames path ?_
    simp only [Options.paths, List.mem_cons, List.mem_append, Option.mem_toList] at hpath ⊢
    exact hpath.imp_right fun h => h.imp_right nofun
  obtain ⟨settings, summary, hsettings, hsummary, -, hfile, -⟩ :=
    exists_onlyWrites_of_success hargs' hnames hexit
  obtain ⟨settings', summary', hsettings', hsummary', houtput, -⟩ :=
    exists_onlyWrites_of_success hargs hnames' hexit'
  obtain rfl : settings = settings' := Option.some.inj (hsettings.symm.trans hsettings')
  obtain rfl : summary = summary' := Option.some.inj (hsummary.symm.trans hsummary')
  exact ⟨_, hfile, hexit', houtput⟩

/-- A file that is a summary and, as a comment, settings. -/
def summaryAsSettings : Sandbox :=
  { files := { plain := [(Location.home ++ ["m".toList], Text.encode "# Plan".toList)] } }

/-- A run that reads its settings and its summary from the file that it writes. -/
theorem command_effects_overwriting :
    let s := summaryAsSettings
    let page := renderSummary .standard none "# Plan".toList
    s.ExitsWith ["-om".toList, "-cm".toList, "m".toList] 0 ∧
      s.OnlyWrites (s.command ["-om".toList, "-cm".toList, "m".toList]).2 page
        (some "m".toList) ∧
      (s.command ["-cm".toList, "m".toList]).2.output = page ++ ['\n'] := by
  intro s page
  let o : Options := { settings := "m".toList, input := some "m".toList }
  let o' : Options := { o with output := some "m".toList }
  have hargs : Options.ofArguments ["-cm".toList, "m".toList] = .ok o := rfl
  have hargs' : Options.ofArguments ["-om".toList, "-cm".toList, "m".toList] = .ok o' := rfl
  have hnames : ∀ path ∈ o'.paths, IsName path := by decide
  have htoml : Settings.ofToml? "# Plan".toList = some .standard := by decide +kernel
  have hexit : s.ExitsWith ["-om".toList, "-cm".toList, "m".toList] 0 := by
    rw [exitsWith_zero_iff, command_eq_success_iff hargs']
    exact ⟨.inr ⟨_, _, rfl, htoml⟩, ⟨"# Plan".toList, rfl⟩, _, rfl, rfl⟩
  obtain ⟨settings, summary, hsettings, hsummary, hwrites⟩ :=
    command_effects.1 _ _ s hargs' hnames hexit
  have htext : s.files.textOf? "m".toList = some "# Plan".toList := Text.decode?_encode _
  have hstandard : s.files.settingsOf? "m".toList = some .standard :=
    (congrArg (Option.bind · Settings.ofToml?) htext).trans htoml
  obtain rfl : settings = .standard := Option.some.inj (hsettings.symm.trans hstandard)
  obtain rfl : summary = "# Plan".toList := Option.some.inj (hsummary.symm.trans htext)
  obtain ⟨content, hfile, -, houtput⟩ :=
    command_effects.2 _ _ o _ s hargs hargs' hnames rfl hexit
  obtain rfl : page = content := by
    have hfiles := hwrites.2.1.symm.trans hfile
    have hbytes : Text.encode page = Text.encode content :=
      Entry.file.inj (Option.some.inj hfiles)
    rw [← Option.some_inj, ← Text.decode?_encode page, hbytes, Text.decode?_encode]
  exact ⟨hexit, hwrites, houtput⟩

end Sandbox

end MeetingMail
