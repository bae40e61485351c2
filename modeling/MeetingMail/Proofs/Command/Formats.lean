import MeetingMail.Proofs.Command.Effects
import MeetingMail.Proofs.Email.Message
import MeetingMail.Proofs.Json.Reader

/-!
The formats of a run agree with each other.

* `command_of_stages` gives the whole standard output of a run that succeeds.
* `formats_agree`: a message holds the page and the plain text that runs in the other formats
  print, and this is what a reader finds in its JSON document.
-/

namespace MeetingMail

/-! ### Members of a message -/

theorem Message.textAt?_html (m : Message) : m.toJson.textAt? "html".toList = some m.html := rfl

theorem Message.textAt?_text (m : Message) : m.toJson.textAt? "text".toList = some m.text := rfl

namespace Sandbox

variable {s : Sandbox} {o : Options} {args : List Text}

/-! ### Runs to the standard output -/

theorem command_of_stages {settings : Settings} {summary : Text}
    (hargs : Options.ofArguments args = .ok o) (houtput : o.output = none)
    (hsettings : s.settingsFor o = some (.ok settings))
    (hsummary : (s.afterSettings o).summaryFor o = some (.ok summary))
    (haccepts : s.AcceptsResult o) :
    (s.command args).1 = some .success ∧
      (s.command args).2.output = s.output ++ o.render settings summary ++ ['\n'] := by
  obtain ⟨hsuccess, hwrites⟩ :=
    onlyWrites_of_stages hargs (by simp [houtput]) hsettings hsummary haccepts
  rw [houtput] at hwrites
  exact ⟨hsuccess, hwrites.1⟩

end Sandbox

/-- A message is the summary under its title in both forms, and a run that prints it succeeds if
and only if the same run in the other formats does. The document that it prints is read as the
message, and its members are what the others print. -/
theorem formats_agree :
    (∀ (settings : Settings) (recipients : List Text) (title : Option Text) (content : Text),
      let m := Message.compose settings recipients title content
      m.recipients = recipients ∧ m.subject = settings.titleFor title ∧
        m.html = renderSummary settings title content ∧ m.text = plainText m.html ∧
        ∃ r, scan? m.html = some r ∧ r.decode.HasOne "title".toList m.subject ∧
          r.decode.HasOne "h1".toList m.subject) ∧
    ∀ (args : Format → List Text) (o : Options) (s : Sandbox),
      (∀ format, Options.ofArguments (args format) = .ok { o with format }) → o.output = none →
      (∃ format, (s.command (args format)).1 = some .success) →
      (∀ format, (s.command (args format)).1 = some .success) ∧
        ∃ html text payload document settings summary,
          (s.command (args .html)).2.output = s.output ++ html ++ ['\n'] ∧
          (s.command (args .text)).2.output = s.output ++ text ++ ['\n'] ∧
          (s.command (args .message)).2.output = s.output ++ payload ++ ['\n'] ∧
          Json.read? payload = some document ∧
          document = (Message.compose settings o.recipients o.title summary).toJson ∧
          document.textAt? "html".toList = some html ∧
          document.textAt? "text".toList = some text := by
  constructor
  · intro settings recipients title content
    rw [Message.compose_eq]
    exact ⟨rfl, rfl, rfl, rfl, exists_scan?_renderSummary settings title content⟩
  · rintro args o s hargs houtput ⟨format, hsuccess⟩
    obtain ⟨settings, summary, hsettings, hsummary, haccepts⟩ :=
      Sandbox.exists_stages_of_success (hargs format) hsuccess
    -- The stages before the last do not look at the format.
    have hrun (format : Format) := Sandbox.command_of_stages (hargs format) houtput
      hsettings hsummary haccepts
    let m := Message.compose settings o.recipients o.title summary
    refine ⟨fun format => (hrun format).1, m.html, m.text, m.payload, m.toJson, settings, summary,
      ?_, ?_, (hrun .message).2, Json.read?_pretty _, rfl, m.textAt?_html, m.textAt?_text⟩
    · rw [(hrun .html).2]
      simp only [m, Message.compose_eq]
      rfl
    · rw [(hrun .text).2]
      simp only [m, Message.compose_eq]
      rfl

/-- Runs on a summary of one item, whose settings file is missing. -/
theorem formats_agree_item :
    (Sandbox.command ["-fhtml".toList] { files := {}, input := Text.encode "* a".toList }).1 =
      some .success ∧
    ∃ html document,
      (Sandbox.command ["-fhtml".toList]
        { files := {}, input := Text.encode "* a".toList }).2.output = html ++ ['\n'] ∧
      (∃ payload, (Sandbox.command ["-fmessage".toList]
          { files := {}, input := Text.encode "* a".toList }).2.output = payload ++ ['\n'] ∧
        Json.read? payload = some document) ∧
      document.textAt? "html".toList = some html := by
  have hargs (format : Format) : Options.ofArguments ["-f".toList ++ format.name] =
      .ok { ({} : Options) with format } := by
    cases format <;> rfl
  have hsuccess : (Sandbox.command ["-fhtml".toList]
      { files := {}, input := Text.encode "* a".toList }).1 = some .success :=
    (Sandbox.command_eq_success_iff (hargs .html)).mpr ⟨.inl rfl, ⟨_, rfl⟩, _, rfl, rfl⟩
  obtain ⟨-, html, -, payload, document, -, -, hhtml, -, hpayload, hread, -, hmember, -⟩ :=
    formats_agree.2 (fun format => ["-f".toList ++ format.name]) {} _ hargs rfl ⟨.html, hsuccess⟩
  exact ⟨hsuccess, html, document, hhtml, ⟨payload, hpayload, hread⟩, hmember⟩

end MeetingMail
