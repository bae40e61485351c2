import MeetingMail.Command.Options

/-!
The arguments of the command line.

* An argument is a plain word, a long option, a cluster of short options, or the mark after which
  all words are plain (`Argument.of`).
* `Given.read` goes through the arguments from left to right and stops at the first that is wrong,
  or that asks for the version or for help.
* `Options.ofArguments` is the result, with the standard value of everything that is not given.
-/

namespace MeetingMail

/-! ### Options -/

/-- The options that stand alone. -/
inductive Switch where
  | verbose | version | help
  deriving DecidableEq, Repr

/-- The options that take a value. -/
inductive Named where
  | output | title | settings | format | recipient
  deriving DecidableEq, Repr

/-- An option of either kind. -/
inductive Flag where
  | switch (s : Switch)
  | named (n : Named)
  deriving DecidableEq, Repr

/-- The long spelling of an option. -/
def Flag.long : Flag → Text
  | .switch .verbose => "verbose".toList
  | .switch .version => "version".toList
  | .switch .help => "help".toList
  | .named .output => "output".toList
  | .named .title => "title".toList
  | .named .settings => "config".toList
  | .named .format => "format".toList
  | .named .recipient => "to".toList

/-- The one-letter spelling of an option. -/
def Flag.short? : Flag → Option Char
  | .switch .verbose => some 'v'
  | .switch .version => some 'V'
  | .switch .help => some 'h'
  | .named .output => some 'o'
  | .named .title => some 't'
  | .named .settings => some 'c'
  | .named .format => some 'f'
  | .named .recipient => none

/-- All options. -/
def Flag.all : List Flag :=
  [.switch .verbose, .switch .version, .switch .help, .named .output, .named .title,
    .named .settings, .named .format, .named .recipient]

/-- The option with a long spelling. -/
def Flag.ofLong? (name : Text) : Option Flag := all.find? (·.long == name)

/-- The option with a one-letter spelling. -/
def Flag.ofShort? (letter : Char) : Option Flag := all.find? (·.short? == some letter)

@[simp] theorem Flag.ofLong?_long (f : Flag) : ofLong? f.long = some f := by
  cases f with
  | switch s => cases s <;> decide
  | named n => cases n <;> decide

theorem Flag.ofShort?_eq_of_short? {f : Flag} {c : Char} (h : f.short? = some c) :
    ofShort? c = some f := by
  rcases f with s | n
  · cases s <;> (cases h; decide)
  · cases n <;> cases h <;> decide

/-! ### Arguments -/

/-- An argument by its shape. -/
inductive Argument where
  | plain (word : Text)
  | long (name : Text) (value : Option Text)
  | cluster (letters : Text)
  | endOfOptions
  deriving DecidableEq, Repr

/-- A long option with what stands behind its first equals sign. -/
def Argument.ofLong (t : Text) : Argument :=
  match t.dropWhile (· != '=') with
  | [] => .long t none
  | _ :: value => .long (t.takeWhile (· != '=')) (some value)

/-- The shape of an argument. -/
def Argument.of : Text → Argument
  | ['-', '-'] => .endOfOptions
  | '-' :: '-' :: t => .ofLong t
  | '-' :: c :: t => .cluster (c :: t)
  | t => .plain t

/-- Holds of the arguments that may be the value of the option in front of them. -/
def mayBeValue (t : Text) : Bool :=
  match t with
  | '-' :: _ :: _ => false
  | _ => true

/-! ### What is given -/

/-- Why the arguments ask for no run. -/
inductive Refusal where
  | misuse
  | version
  | help
  deriving DecidableEq, Repr

/-- What the arguments so far give. -/
structure Given where
  input : Option Text := none
  output : Option Text := none
  title : Option Text := none
  settings : Option Text := none
  format : Option Format := none
  recipients : List Text := []
  verbose : Bool := false
  deriving DecidableEq, Repr

namespace Given

/-- A slot that a value fills, if the value is allowed and the slot is empty. -/
def fill {α : Type} (slot value : Option α) : Except Refusal (Option α) :=
  match slot, value with
  | none, some v => .ok (some v)
  | _, _ => .error .misuse

/-- A path, which has at least one character. -/
def path? (t : Text) : Option Text := if t = [] then none else some t

/-- The value of an option. Only recipients may be given more than once. -/
def setValue (g : Given) (n : Named) (value : Text) : Except Refusal Given :=
  match n with
  | .output => (fill g.output (path? value)).map fun v => { g with output := v }
  | .title => (fill g.title (some value)).map fun v => { g with title := v }
  | .settings => (fill g.settings (path? value)).map fun v => { g with settings := v }
  | .format => (fill g.format (Format.ofName? value)).map fun v => { g with format := v }
  | .recipient => .ok { g with recipients := g.recipients ++ [value] }

/-- The effect of an option that stands alone. -/
def flip (g : Given) : Switch → Except Refusal Given
  | .verbose => if g.verbose then .error .misuse else .ok { g with verbose := true }
  | .version => .error .version
  | .help => .error .help

/-- The input, which a plain word names. -/
def setInput (g : Given) (word : Text) : Except Refusal Given :=
  (fill g.input (path? word)).map fun v => { g with input := v }

/-- A value that stands in a cluster may have an equals sign in front of it. -/
def dropEquals : Text → Text
  | '=' :: t => t
  | t => t

/-- The effect of a cluster of short options. The first that takes a value takes the rest of the
cluster; if nothing is left, it waits for the next argument. -/
def readCluster (g : Given) : Text → Except Refusal (Given × Option Named)
  | [] => .ok (g, none)
  | c :: rest =>
      match Flag.ofShort? c with
      | none => .error .misuse
      | some (.switch s) => (g.flip s).bind fun g => g.readCluster rest
      | some (.named n) =>
          if rest = [] then .ok (g, some n)
          else (g.setValue n (dropEquals rest)).map fun g => (g, none)

/-- The effect of one argument, and the option that waits for its value in the next one. -/
def readArgument (g : Given) : Argument → Except Refusal (Given × Option Named)
  | .plain word => (g.setInput word).map fun g => (g, none)
  | .cluster letters => g.readCluster letters
  | .long name value =>
      match Flag.ofLong? name, value with
      | some (.switch s), none => (g.flip s).map fun g => (g, none)
      | some (.named n), some v => (g.setValue n v).map fun g => (g, none)
      | some (.named n), none => .ok (g, some n)
      | _, _ => .error .misuse
  | .endOfOptions => .ok (g, none)

/-- The effect of arguments. -/
def read (g : Given) : List Text → Except Refusal Given
  | [] => .ok g
  | a :: rest =>
      if Argument.of a = .endOfOptions then rest.foldlM setInput g
      else
        match g.readArgument (.of a) with
        | .error refusal => .error refusal
        | .ok (g, none) => g.read rest
        | .ok (g, some n) =>
            match rest with
            | [] => .error .misuse
            | value :: rest =>
                if mayBeValue value then (g.setValue n value).bind fun g => g.read rest
                else .error .misuse

/-- What is given, with the standard values of the rest. -/
def options (g : Given) : Options :=
  { input := g.input
    output := g.output
    title := g.title
    settings := g.settings.getD standardSettingsPath
    format := g.format.getD .html
    recipients := g.recipients
    verbose := g.verbose }

end Given

/-- What the arguments of the command line ask for. -/
def Options.ofArguments (args : List Text) : Except Refusal Options :=
  (Given.read {} args).map Given.options

end MeetingMail
