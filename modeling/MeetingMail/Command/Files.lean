import MeetingMail.Command.Failure

/-!
A small file system as a value: files, directories and special files, anywhere below the root.

* `Files.get?` is what stands at a location.
* `Files.resolve` follows a path name by name; every name but the last has to lead to a directory.
* `Files.source` and `Files.sink` find what a path means to a reader and to a writer, or the fault
  that a Unix system gives.
* `Files.put` replaces a plain file.
-/

namespace MeetingMail

/-! ### What there is -/

/-- The names that lead from the root directory to a place. -/
abbrev Location := List Text

/-- What becomes of a text that is written. -/
inductive Uptake where
  /-- All of it is taken. -/
  | all
  /-- None of it is taken, and the writer is told so. -/
  | nothing
  /-- There is no room for it, and the writer waits for room that never comes. -/
  | stalled
  deriving DecidableEq, Repr

/-- A device, by what a reader and a writer meet there. -/
structure Device where
  /-- All that a reader gets. There is none if a reader never comes to the end. -/
  content? : Option ByteArray
  uptake : Uptake

namespace Device

/-- Holds nothing, and takes all. -/
def null : Device := ⟨some .empty, .all⟩

/-- Holds zeros without end, and takes all. -/
def zero : Device := ⟨none, .all⟩

/-- Holds zeros without end, and takes nothing. -/
def full : Device := ⟨none, .nothing⟩

/-- Takes all and passes it on. A reader waits for an end that does not come while the pipe can be
written to. -/
def pipe : Device := ⟨none, .all⟩

end Device

/-- A file that is more than its content. -/
inductive Special where
  | device (d : Device)
  /-- The standard input. -/
  | input
  /-- The standard output. -/
  | output

/-- The special files that any run finds. What is written to the standard error by its name is not
part of the log. -/
def Special.standard : List (Location × Special) :=
  [(["dev".toList, "null".toList], .device .null),
   (["dev".toList, "zero".toList], .device .zero),
   (["dev".toList, "full".toList], .device .full),
   (["dev".toList, "stdin".toList], .input),
   (["dev".toList, "stdout".toList], .output),
   (["dev".toList, "stderr".toList], .device .pipe)]

/-- The directory in which a run starts, if nothing else is said. -/
def Location.home : Location := ["home".toList]

theorem Special.standard_elsewhere :
    ∀ entry ∈ Special.standard, entry.1.dropLast ≠ Location.home := by decide

/-- What stands at a location. -/
inductive Entry where
  | directory
  | file (content : ByteArray)
  | special (special : Special)

/-- Plain files, directories and special files. What contains a directory or a special file is a
directory, and so is the working directory, which contains no special file. -/
structure Files where
  plain : List (Location × ByteArray) := []
  directories : List Location := []
  specials : List (Location × Special) := Special.standard
  /-- The working directory. -/
  here : Location := .home
  specials_elsewhere : ∀ entry ∈ specials, entry.1.dropLast ≠ here := by
    exact Special.standard_elsewhere

/-- What a path means to a reader. -/
inductive Source where
  | content (bytes : ByteArray)
  | special (special : Special)

/-- What a path means to a writer. -/
inductive Sink where
  | file (location : Location)
  | special (special : Special)

/-! ### Paths -/

/-- The most bytes that a name in a path may have. -/
def nameLimit : Nat := 255

/-- The most bytes that a path may have. -/
def pathLimit : Nat := 4095

/-- The pieces of a path between its slashes. -/
def pathPieces : Text → List Text
  | [] => [[]]
  | c :: rest =>
      if c = '/' then [] :: pathPieces rest else (pathPieces rest).modifyHead (c :: ·)

/-- The names in a path. -/
def pathNames (path : Text) : List Text := (pathPieces path).filter (· ≠ [])

/-- Holds of the paths that can only mean a directory. -/
def endsInSlash (path : Text) : Bool := path.getLast? == some '/'

/-- The fault of a path that no file can have. -/
def pathFault? (path : Text) : Option Fault :=
  if '\x00' ∈ path then some .nullInName
  else if path = [] then some .notFound
  else if pathLimit < path.utf8Size then some .nameTooLong
  else none

namespace Files

/-- The directory that a path starts from. -/
def start (files : Files) (path : Text) : Location :=
  if path.head? = some '/' then [] else files.here

/-! ### Lookup -/

/-- Holds of the locations of directories. -/
def isDirectory (files : Files) (location : Location) : Bool :=
  (files.here :: files.directories ++ files.specials.map (·.1.dropLast)).any location.isPrefixOf

/-- What stands at a location. -/
def get? (files : Files) (location : Location) : Option Entry :=
  if files.isDirectory location then some .directory
  else match files.specials.lookup location with
    | some special => some (.special special)
    | none => (files.plain.lookup location).map .file

/-- Whether one can go on from a location to what it contains. -/
def enter (files : Files) (location : Location) : Except Fault Unit :=
  match files.get? location with
  | some .directory => .ok ()
  | some _ => .error .notADirectory
  | none => .error .notFound

/-- The location that names lead to from another one. Nothing need stand there. -/
def resolve (files : Files) (location : Location) : List Text → Except Fault Location
  | [] => .ok location
  | name :: names =>
      (files.enter location).bind fun _ =>
        if name = ['.'] then files.resolve location names
        else if name = ['.', '.'] then files.resolve location.dropLast names
        else if nameLimit < name.utf8Size then .error .nameTooLong
        else files.resolve (location ++ [name]) names

/-! ### Reading -/

/-- What a path means to a reader. -/
def source (files : Files) (path : Text) : Except Fault Source :=
  match pathFault? path with
  | some fault => .error fault
  | none =>
      (files.resolve (files.start path) (pathNames path)).bind fun location =>
        match files.get? location, endsInSlash path with
        | none, _ => .error .notFound
        | some .directory, _ => .error .isADirectory
        | some _, true => .error .notADirectory
        | some (.file content), false => .ok (.content content)
        | some (.special special), false => .ok (.special special)

/-! ### Writing -/

/-- The location that a path names for a new or an old file. -/
def target (files : Files) (path : Text) : Except Fault Location :=
  match pathFault? path with
  | some fault => .error fault
  | none =>
      match (pathNames path).getLast? with
      | none => .error .isADirectory
      | some name =>
          (files.resolve (files.start path) (pathNames path).dropLast).bind fun directory =>
            (files.enter directory).bind fun _ =>
              if endsInSlash path ∨ name = ['.'] ∨ name = ['.', '.'] then .error .isADirectory
              else if nameLimit < name.utf8Size then .error .nameTooLong
              else .ok (directory ++ [name])

/-- What a path means to a writer. -/
def sink (files : Files) (path : Text) : Except Fault Sink :=
  (files.target path).bind fun location =>
    match files.get? location with
    | some .directory => .error .isADirectory
    | some (.special special) => .ok (.special special)
    | _ => .ok (.file location)

/-- Plain files with one at a location, in its place if one is there and else at the end. -/
def putPlain (location : Location) (content : ByteArray) :
    List (Location × ByteArray) → List (Location × ByteArray)
  | [] => [(location, content)]
  | (l, c) :: rest =>
      if l = location then (l, content) :: rest else (l, c) :: putPlain location content rest

/-- The files after all content of a plain file has been replaced. -/
def put (location : Location) (content : ByteArray) (files : Files) : Files :=
  { files with plain := putPlain location content files.plain }

theorem lookup_cons {α : Type} (location : Location) (entry : Location × α)
    (entries : List (Location × α)) :
    List.lookup location (entry :: entries) =
      if location = entry.1 then some entry.2 else entries.lookup location := by
  obtain ⟨other, a⟩ := entry
  by_cases h : location = other
  · simp [h]
  · simp [List.lookup_cons, beq_eq_false_iff_ne.mpr h, h]

theorem lookup_putPlain (location other : Location) (content : ByteArray)
    (plain : List (Location × ByteArray)) :
    (putPlain location content plain).lookup other =
      if other = location then some content else plain.lookup other := by
  induction plain with
  | nil => simp [putPlain, lookup_cons]
  | cons entry plain ih =>
      rw [putPlain]
      split
      · rename_i h
        simp only [lookup_cons, ← h]
        split <;> rfl
      · rename_i h
        simp only [lookup_cons, ih]
        grind

@[simp] theorem isDirectory_put (files : Files) (location other : Location) (content : ByteArray) :
    (files.put location content).isDirectory other = files.isDirectory other := rfl

/-- A file that is put leaves all other places as they are. -/
theorem get?_put_of_ne (files : Files) {location other : Location} (h : other ≠ location)
    (content : ByteArray) :
    (files.put location content).get? other = files.get? other := by
  unfold get?
  rw [isDirectory_put, put]
  dsimp only
  rw [lookup_putPlain, if_neg h]

/-- A file that is put where a writer may put it is found there. -/
theorem get?_put_of_sink {files : Files} {path : Text} {location : Location}
    (h : files.sink path = .ok (.file location)) (content : ByteArray) :
    (files.put location content).get? location = some (.file content) := by
  have hfree : files.isDirectory location = false ∧ files.specials.lookup location = none := by
    unfold sink at h
    rcases htarget : files.target path with fault | location'
    · rw [htarget] at h
      cases h
    rw [htarget] at h
    unfold get? at h
    simp only [Except.bind] at h
    split at h
    · cases h
    · cases h
    · rename_i hdirectory hspecial
      cases h
      cases hdir : files.isDirectory location
      · refine ⟨rfl, ?_⟩
        cases hlookup : files.specials.lookup location <;> simp_all
      · simp_all
  unfold get?
  rw [isDirectory_put, hfree.1, put]
  dsimp only
  rw [hfree.2, lookup_putPlain, if_pos rfl]
  rfl

end Files

end MeetingMail
