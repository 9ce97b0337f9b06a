/-!
# Files

A file system is a tree of directories and files. A file is written as a whole: the data go into a
temporary file beside it, which then takes its name. Each step may fail for a reason that the tree does
not show; then the temporary file is removed, and every other file is as it was.
-/

namespace Synchrony

/-- A file, or a directory with what it holds. -/
inductive FileTree where
  | file (data : ByteArray)
  | directory (entries : List (String × FileTree))

/--
The names that lead to something, of which two dots lead up. A path that ends in a slash or a dot can only
lead to a directory.
-/
structure FilePath where
  names : List String
  slash : Bool := false
deriving DecidableEq

/-- Whether a text can name a file: it has 1 to 255 bytes, no NUL among them, and is not dots for a directory. -/
def isFileName (name : String) : Bool :=
  !name.isEmpty && name ≠ "." && name ≠ ".." && name.utf8ByteSize ≤ 255 && !name.toList.contains '\x00'

namespace FilePath

/-- Splits a text at its slashes. -/
def splitSlash : List Char → List (List Char)
  | [] => [[]]
  | c :: cs =>
    if c = '/' then [] :: splitSlash cs
    else
      match splitSlash cs with
      | [] => [[c]]
      | part :: parts => (c :: part) :: parts

/-- The path that a text writes; a dot stands for the directory that it is found in. -/
def ofText (text : String) : FilePath :=
  let parts := splitSlash text.toList
  let stays (part : List Char) : Bool := part = [] || part = ['.']
  ⟨(parts.filter (! stays ·)).map String.ofList, parts.getLast?.all stays⟩

/-- Where a name leads from a directory: two dots lead up. -/
def follow (here : List String) (name : String) : List String :=
  if name = ".." then here.dropLast else here ++ [name]

end FilePath

namespace FileTree

/-! ### Looking -/

/-- An empty directory. -/
def empty : FileTree := directory []

/-- What lies below by these names. -/
def at? : FileTree → List String → Option FileTree
  | t, [] => some t
  | directory entries, name :: names => (entries.lookup name).bind (·.at? names)
  | file _, _ :: _ => none

/-- The data of the file by these names. -/
def data? (t : FileTree) (names : List String) : Option ByteArray :=
  match t.at? names with
  | some (file data) => some data
  | _ => none

/-- Whether there is a directory by these names. -/
def isDirectory (t : FileTree) (names : List String) : Bool :=
  match t.at? names with
  | some (directory _) => true
  | _ => false

/-- Where names lead from a place on, through directories that are there. -/
def resolve? (t : FileTree) (here : List String) : List String → Option (List String)
  | [] => some here
  | name :: names =>
    if t.isDirectory here then t.resolve? (FilePath.follow here name) names else none

/-- What a path leads to. -/
def find? (t : FileTree) (path : FilePath) : Option FileTree :=
  match (t.resolve? [] path.names).bind t.at? with
  | some (file data) => if path.slash then none else some (file data)
  | found => found

/-- Whether there is anything at a path. -/
def contains (t : FileTree) (path : FilePath) : Bool := (t.find? path).isSome

/-- The data of the file at a path. -/
def read? (t : FileTree) (path : FilePath) : Option ByteArray :=
  match t.find? path with
  | some (file data) => some data
  | _ => none

/-- The names in the directory at a path, in order. -/
def names (t : FileTree) (path : FilePath) : List String :=
  match t.find? path with
  | some (directory entries) => (entries.map (·.1)).mergeSort fun a b => decide (a ≤ b)
  | _ => []

/-! ### Changing -/

/-- Changes what the directory by these names holds. -/
def modify (f : List (String × FileTree) → List (String × FileTree)) :
    List String → FileTree → FileTree
  | [], directory entries => directory (f entries)
  | name :: names, directory entries =>
    directory (entries.map fun (n, t) => (n, if n = name then modify f names t else t))
  | _, file data => file data

/-- Removes an entry. -/
def remove (name : String) (entries : List (String × FileTree)) : List (String × FileTree) :=
  entries.filter (·.1 ≠ name)

/-- Adds an entry, or replaces the one of its name. -/
def put (name : String) (t : FileTree) (entries : List (String × FileTree)) :
    List (String × FileTree) :=
  (name, t) :: remove name entries

@[simp] theorem lookup_put_self (name : String) (t : FileTree) (entries : List (String × FileTree)) :
    (put name t entries).lookup name = some t := by
  simp [put]

theorem lookup_remove (name other : String) (entries : List (String × FileTree)) :
    (remove name entries).lookup other = if other = name then none else entries.lookup other := by
  induction entries with
  | nil => simp [remove]
  | cons e rest ih =>
    obtain ⟨n, t⟩ := e
    by_cases hn : n = name
    · subst hn
      have hr : remove n ((n, t) :: rest) = remove n rest := by simp [remove]
      rw [hr, ih]
      by_cases ho : other = n
      · simp [ho]
      · have hb : (other == n) = false := by simpa using ho
        simp [ho, List.lookup_cons, hb]
    · have hr : remove name ((n, t) :: rest) = (n, t) :: remove name rest := by simp [remove, hn]
      rw [hr, List.lookup_cons, List.lookup_cons, ih]
      by_cases ho : other = n
      · simp [ho, hn]
      · have hb : (other == n) = false := by simpa using ho
        simp [hb]

theorem lookup_put_of_ne {name other : String} (h : other ≠ name) (t : FileTree)
    (entries : List (String × FileTree)) : (put name t entries).lookup other = entries.lookup other := by
  have hb : (other == name) = false := by simpa using h
  simp [put, List.lookup_cons, hb, lookup_remove, h]

/-- A name that is not among some others, because it is longer than all of them. -/
def freshName (names : List String) : String :=
  String.ofList (".tmp".toList ++ names.flatMap String.toList)

/-! ### Writing a file -/

/-- A step of writing a file. -/
inductive Step where
  | makeDirectory (names : List String)
  | createTemporary
  | fillTemporary
  | rename
deriving DecidableEq

/--
Follows names from a directory on and makes the directories that are missing; tells where they lead, if all
are there at last.
-/
def makeDirectories (fails : Step → Bool) (t : FileTree) (here : List String) :
    List String → Option (List String) × FileTree
  | [] => (some here, t)
  | name :: names =>
    let next := FilePath.follow here name
    match t.at? next with
    | some (directory _) => makeDirectories fails t next names
    | some (file _) => (none, t)
    | none =>
      if !isFileName name || fails (.makeDirectory next) then (none, t)
      else makeDirectories fails (t.modify (put name empty) here) next names

/-- Writes a file in a directory that is there, by way of a temporary file. -/
def replaceFile (fails : Step → Bool) (t : FileTree) (parent : List String) (name : String)
    (slash : Bool) (data : ByteArray) : Bool × FileTree :=
  match t.at? parent with
  | some (directory entries) =>
    if fails .createTemporary then (false, t)
    else
      let temporary := freshName (name :: entries.map (·.1))
      let t := t.modify (put temporary (file .empty)) parent
      if fails .fillTemporary then (false, t.modify (remove temporary) parent)
      else
        let t := t.modify (put temporary (file data)) parent
        let blocked := match entries.lookup name with
          | some (directory _) => true
          | _ => slash || !isFileName name
        if blocked || fails .rename then (false, t.modify (remove temporary) parent)
        else (true, t.modify (fun es => put name (file data) (remove temporary es)) parent)
  | _ => (false, t)

/--
Writes a file, and makes the directories on the way to it. Tells whether it was written; `fails` says which
steps fail.
-/
def write (fails : Step → Bool) (t : FileTree) (path : FilePath) (data : ByteArray) :
    Bool × FileTree :=
  match path.names.getLast? with
  | none => (false, t)
  | some name =>
    let parent := path.names.dropLast
    if parent.any (·.toList.contains '\x00') then (false, t)
    else
      match makeDirectories fails t [] parent with
      | (some here, t) => replaceFile fails t here name path.slash data
      | (none, t) => (false, t)

/-- Writes a file unless there is something at the path; the result of writing, if it came to that. -/
def writeIfMissing (fails : Step → Bool) (t : FileTree) (path : FilePath) (data : ByteArray) :
    Option Bool × FileTree :=
  if t.contains path then (none, t)
  else
    let (written, t) := t.write fails path data
    (some written, t)

end FileTree

end Synchrony
