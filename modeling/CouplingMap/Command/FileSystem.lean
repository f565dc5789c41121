import CouplingMap.Text.Pieces

/-!
# Files and folders

A system of files is a tree of folders, files and special files. A path is a list of steps through
the tree, from the folder in which a run works or, after a leading slash, from the root. Contents
are bytes; texts are written and read in UTF-8.

* `FileSystem`: the rules of the tree are part of the type. The root and the working folder are
  folders, and everything else stands in a folder.
* `FileSystem.walk`: the folder that steps lead to.
* `FileSystem.read`: the text of the file that a path leads to.
* `FileSystem.target`, `FileSystem.save`: where a text goes that is written to a path, and what is
  left of a file when writing it stops too early.
-/

namespace CouplingMap

/-- Why a file cannot be read or written. -/
inductive FileProblem where
  /-- Nothing has the name. -/
  | missing
  /-- The path goes on after a file. -/
  | notFolder
  /-- A folder stands in the place of a file. -/
  | isFolder
  /-- The path or a name in it is too long. -/
  | nameTooLong
  /-- There is no room for the text. -/
  | noSpace
  /-- The bytes are no text. -/
  | notText
  /-- A problem that the system words itself. -/
  | other (reason : String)
deriving DecidableEq

namespace FileProblem

/-- The words of the system. -/
def reason : FileProblem → String
  | missing => "No such file or directory (os error 2)"
  | notFolder => "Not a directory (os error 20)"
  | isFolder => "Is a directory (os error 21)"
  | nameTooLong => "File name too long (os error 36)"
  | noSpace => "No space left on device (os error 28)"
  | notText => "stream did not contain valid UTF-8"
  | other reason => reason

/-- Whether the path leads to nothing at all. -/
def isAbsence : FileProblem → Bool
  | missing | notFolder | nameTooLong => true
  | isFolder | noSpace | notText | other _ => false

end FileProblem

/-- What reading a file gives. -/
abbrev Files := String → Except FileProblem String

/-- A special file that takes every text and keeps none. -/
inductive Sink where
  | discard
  /-- The text becomes output of the run. -/
  | output
  /-- The text goes to the error stream of the run. -/
  | errors
deriving DecidableEq

/-- What stands at a place. -/
inductive Entry where
  | folder
  | file (content : ByteArray)
  | sink (sink : Sink)
  /-- The special file that is always full. -/
  | full

/-- The names on the way from the root to a place, the last one first. -/
abbrev Place := List String

/-- Problems that do not follow from what stands where. -/
structure Faults where
  /-- What keeps the file at a place from being read. -/
  reading : Place → Option FileProblem
  /-- What keeps the file at a place from being opened for writing. -/
  opening : Place → Option FileProblem
  /-- How much of a content gets into the opened file at a place, and what stops the rest. -/
  stopping : Place → ByteArray → Option (Nat × FileProblem)

/-- No problems but those that follow from what stands where. -/
def Faults.none : Faults := ⟨fun _ => .none, fun _ => .none, fun _ _ => .none⟩

/-- A tree of folders and files. -/
structure FileSystem where
  /-- What stands at places. The first entry of a place counts. -/
  entries : List (Place × Entry)
  /-- The folder in which a run works. -/
  working : Place
  faults : Faults
  root_folder : entries.lookup [] = some .folder
  working_folder : entries.lookup working = some .folder
  in_folder : ∀ {name : String} {place : Place} {e : Entry},
    entries.lookup (name :: place) = some e → entries.lookup place = some .folder

namespace FileSystem

variable (s : FileSystem)

/-- What stands at a place. -/
def entry (place : Place) : Option Entry := s.entries.lookup place

/-- The folders. -/
abbrev Dir := { place : Place // s.entry place = some .folder }

/-- The folder above. The root is above itself. -/
def above : s.Dir → s.Dir
  | ⟨[], h⟩ => ⟨[], h⟩
  | ⟨_ :: place, h⟩ => ⟨place, s.in_folder h⟩

/-- The folder at a place. -/
def dirAt (place : Place) : Except FileProblem s.Dir :=
  match h : s.entry place with
  | some .folder => .ok ⟨place, h⟩
  | some _ => .error .notFolder
  | none => .error .missing

/-! ## Paths -/

/-- The number of bytes that a name may have. -/
def maxNameBytes : Nat := 255

/-- The number of bytes below which a path has to stay. -/
def pathBytesLimit : Nat := 4096

/-- The step that stays in a folder. -/
def stay : List Char := ['.']

/-- The step to the folder above. -/
def up : List Char := ['.', '.']

/-- A step that is a name. -/
def nameOf (step : List Char) : Except FileProblem String :=
  if maxNameBytes < (String.ofList step).utf8ByteSize then .error .nameTooLong
  else .ok (String.ofList step)

/-- The folder that steps lead to. -/
def walk (dir : s.Dir) : List (List Char) → Except FileProblem s.Dir
  | [] => .ok dir
  | step :: steps =>
    if step = [] ∨ step = stay then walk dir steps
    else if step = up then walk (s.above dir) steps
    else do walk (← s.dirAt ((← nameOf step) :: dir.1)) steps

/-- Where a path starts, and its steps. -/
def route (path : String) : Except FileProblem (s.Dir × List (List Char)) :=
  if path = "" then .error .missing
  else if pathBytesLimit ≤ path.utf8ByteSize then .error .nameTooLong
  else
    let start : s.Dir :=
      if path.toList.head? = some '/' then ⟨[], s.root_folder⟩ else ⟨s.working, s.working_folder⟩
    .ok (start, Text.pieces '/' path.toList)

/-- What stands where a path leads to. -/
def find (path : String) : Except FileProblem (Place × Entry) := do
  let (start, steps) ← s.route path
  let dir ← s.walk start steps.dropLast
  let last := steps.getLast?.getD []
  if last = [] ∨ last = stay ∨ last = up then .ok (dir.1, .folder)
  else
    let place := (← nameOf last) :: dir.1
    match s.entry place with
    | some e => .ok (place, e)
    | none => .error .missing

/-! ## Reading -/

/-- Bytes as text. -/
def decode (content : ByteArray) : Except FileProblem String :=
  match String.fromUTF8? content with
  | some text => .ok text
  | none => .error .notText

/-- The text of the file that a path leads to. Nothing can be read from the special files. -/
def read : Files := fun path => do
  match ← s.find path with
  | (_, .folder) => .error .isFolder
  | (_, .sink _) | (_, .full) => .ok ""
  | (place, .file content) =>
    match s.faults.reading place with
    | some problem => .error problem
    | none => decode content

/-! ## Writing -/

/-- A name in a folder that a file has or may get. -/
structure Slot where
  dir : s.Dir
  name : String
  is_file : ∀ e, s.entry (name :: dir.1) = some e → ∃ content, e = .file content

/-- The place of the file. -/
def Slot.place {s : FileSystem} (slot : s.Slot) : Place := slot.name :: slot.dir.1

/-- Where a text goes. -/
inductive Target where
  | file (slot : s.Slot)
  | sink (sink : Sink)

/-- Where a text goes that is written to a name in a folder. -/
def targetAt (dir : s.Dir) (name : String) : Except FileProblem s.Target :=
  match h : s.entry (name :: dir.1) with
  | none => .ok (.file ⟨dir, name, fun e he => by rw [h] at he; contradiction⟩)
  | some (.file content) =>
    .ok (.file ⟨dir, name, fun e he => ⟨content, Option.some.inj (he.symm.trans h)⟩⟩)
  | some (.sink k) => .ok (.sink k)
  | some .full => .error .noSpace
  | some .folder => .error .isFolder

/-- Where a text goes that is written to a path. All steps but the last one lead through folders,
and only the name of a file, without a slash after it, can stand at the end. -/
def target (path : String) : Except FileProblem s.Target := do
  let (start, steps) ← s.route path
  match steps.reverse.dropWhile (· = []) with
  | [] => .error .isFolder
  | last :: earlier =>
    let dir ← s.walk start earlier.reverse
    if last = stay ∨ last = up ∨ steps.getLast? = some [] then .error .isFolder
    else s.targetAt dir (← nameOf last)

variable {s}

/-- The entries of the system with a file. -/
def entriesWith (slot : s.Slot) (content : ByteArray) : List (Place × Entry) :=
  (slot.place, .file content) :: s.entries

theorem lookup_entriesWith (slot : s.Slot) (content : ByteArray) (place : Place) :
    (entriesWith slot content).lookup place =
      if place = slot.place then some (.file content) else s.entry place := by
  rw [entriesWith, List.lookup_cons]
  by_cases h : place = slot.place
  · simp [h]
  · rw [beq_eq_false_iff_ne.2 h, if_neg h, entry]

/-- No folder stands where a file goes. -/
theorem ne_place {place : Place} (slot : s.Slot) (h : s.entry place = some .folder) :
    place ≠ slot.place := by
  rintro rfl
  obtain ⟨content, hcontent⟩ := slot.is_file _ h
  contradiction

theorem lookup_entriesWith_of_folder {place : Place} (slot : s.Slot) (content : ByteArray)
    (h : s.entry place = some .folder) :
    (entriesWith slot content).lookup place = some .folder := by
  rw [lookup_entriesWith, if_neg (ne_place slot h), h]

/-- The system with a file. -/
def put (slot : s.Slot) (content : ByteArray) : FileSystem where
  entries := entriesWith slot content
  working := s.working
  faults := s.faults
  root_folder := lookup_entriesWith_of_folder slot content s.root_folder
  working_folder := lookup_entriesWith_of_folder slot content s.working_folder
  in_folder := by
    intro name place e h
    refine lookup_entriesWith_of_folder slot content ?_
    rw [lookup_entriesWith] at h
    split at h
    · rename_i hplace
      rw [Slot.place, List.cons.injEq] at hplace
      exact hplace.2 ▸ slot.dir.2
    · exact s.in_folder h

/-- Writes a content to a file: the file is opened and emptied, then it gets the bytes one after
the other. What has got there when writing stops is left. -/
def save (slot : s.Slot) (content : ByteArray) : Option FileProblem × FileSystem :=
  match s.faults.opening slot.place with
  | some problem => (some problem, s)
  | none =>
    match s.faults.stopping slot.place content with
    | some (count, problem) => (some problem, s.put slot (content.extract 0 count))
    | none => (none, s.put slot content)

/-! ## A system with a working folder -/

/-- The folders that stand in the root. -/
def rootFolders : List String :=
  ["bin", "boot", "dev", "etc", "home", "lib", "lib64", "media", "mnt", "opt", "proc", "root",
    "run", "sbin", "srv", "sys", "tmp", "usr", "var"]

/-- The special files. A run has no input of its own. -/
def specialFiles : List (String × Entry) :=
  [("null", .sink .discard), ("zero", .sink .discard), ("stdin", .sink .discard),
   ("stdout", .sink .output), ("stderr", .sink .errors), ("full", .full)]

/-- The folder in which a run works, if nothing else is said. -/
def defaultWorking : Place := ["work", "tmp"]

/-- The entries without which no run starts. -/
def defaultEntries : List (Place × Entry) :=
  [([], .folder), (defaultWorking, .folder)] ++ rootFolders.map (fun name => ([name], .folder)) ++
    specialFiles.map fun f => ([f.1, "dev"], f.2)

/-- A system that has some texts in its working folder, by name. -/
def ofFiles (files : List (String × String)) : FileSystem where
  entries := defaultEntries ++ files.map fun f => (f.1 :: defaultWorking, .file f.2.toUTF8)
  working := defaultWorking
  faults := .none
  root_folder := rfl
  working_folder := rfl
  in_folder := by
    intro name place e h
    obtain ⟨before, after, hmem, -⟩ := List.lookup_eq_some_iff.1 h
    have hmem : (name :: place, e) ∈ defaultEntries ++ files.map fun f =>
        (f.1 :: defaultWorking, Entry.file f.2.toUTF8) := by rw [hmem]; simp
    have hdefault : ∀ p ∈ defaultEntries, p.1 = [] ∨
        p.1.tail = [] ∨ p.1.tail = ["tmp"] ∨ p.1.tail = ["dev"] := by decide +kernel
    rcases List.mem_append.1 hmem with hmem | hmem
    · obtain h | rfl | rfl | rfl : name :: place = [] ∨ place = [] ∨ place = ["tmp"] ∨
          place = ["dev"] := hdefault _ hmem
      · contradiction
      all_goals rfl
    · obtain ⟨f, -, hf⟩ := List.mem_map.1 hmem
      cases hf
      rfl

/-- Whether a file stands at a place and has a content. -/
def holds (s : FileSystem) (place : Place) (content : ByteArray) : Bool :=
  match s.entry place with
  | some (.file old) => old.data = content.data
  | _ => false

/-- The texts that files of the working folder have in another system but not in this one. -/
def changes (s after : FileSystem) : List (String × String) :=
  after.entries.filterMap fun
    | (name :: dir, .file content) =>
      if dir = s.working ∧ !s.holds (name :: dir) content then
        (String.fromUTF8? content).map fun text => (name, text)
      else none
    | _ => none

end FileSystem

end CouplingMap
