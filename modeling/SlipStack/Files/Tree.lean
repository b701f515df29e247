import SlipStack.Files.Path

/-!
# File trees

A `FileTree` holds directories and files as a value. Everything in it is told by its
location, the names on the way from the top.

Paths are relative to the top and are resolved name by name: what a path goes through has to
be a directory, and two dots lead back. They also lead above the top, where an absolute path
starts. Of what is there nothing is known but that it is a directory; no name is found in
it. Names and paths have a greatest length, `nameLimit` and `pathLimit`.
-/

namespace SlipStack

/-- Why a file operation fails. -/
inductive FileError where
  | notFound
  | exists
  | notDirectory
  | isDirectory
  | invalidArgument
  | tooLong
  | nulInPath
  | notText
  /-- Any other reason, in words. -/
  | other (message : String)
  deriving DecidableEq, Repr

def FileError.message : FileError → String
  | .notFound => "No such file or directory (os error 2)"
  | .exists => "File exists (os error 17)"
  | .notDirectory => "Not a directory (os error 20)"
  | .isDirectory => "Is a directory (os error 21)"
  | .invalidArgument => "Invalid argument (os error 22)"
  | .tooLong => "File name too long (os error 36)"
  | .nulInPath => "file name contained an unexpected NUL byte"
  | .notText => "stream did not contain valid UTF-8"
  | .other message => message

section

-- Batteries decides equality of byte arrays once more.
attribute [local instance (high + 1)] ByteArray.instDecidableEq

/-- What stands at a location. -/
inductive Content where
  | file (bytes : ByteArray)
  | directory
  deriving DecidableEq

end

/-- The names on the way from the top. -/
abbrev Location := List String

/-- Where a path leads. -/
inductive Place where
  /-- At the top or below. -/
  | inside (location : Location)
  /-- To some directory above the top. -/
  | above
  deriving DecidableEq

/-- The directory that a place is in; above the top there is no end of them. -/
def Place.up : Place → Place
  | .inside [] => .above
  | .inside location => .inside location.dropLast
  | .above => .above

/-- How many bytes a name may have. -/
def nameLimit : Nat := 255

/-- How many bytes a path may have. -/
def pathLimit : Nat := 4095

/-- Why no path can be like this, whatever there is. -/
def FileError.ofPath? (path : String) : Option FileError :=
  if path.toList.contains '\x00' then some .nulInPath
  else if path = "" then some .notFound
  else if pathLimit < path.utf8ByteSize then some .tooLong
  else none

/-- Directories and files by their locations. The top is a directory and is not listed. -/
structure FileTree where
  entries : List (Location × Content)

namespace FileTree

/-- The tree with nothing below its top. -/
def empty : FileTree := ⟨[]⟩

/-! ## Looking around -/

/-- What stands at a location. -/
def content? (tree : FileTree) (location : Location) : Option Content :=
  if location = [] then some .directory
  else (tree.entries.find? (·.1 = location)).map (·.2)

/-- What stands at a place. -/
def contentAt? (tree : FileTree) : Place → Option Content
  | .inside location => tree.content? location
  | .above => some .directory

/-- The place with the given name in the directory at a place. Nothing need be there. -/
def step (tree : FileTree) (place : Place) (name : String) : Except FileError Place :=
  match tree.contentAt? place with
  | none => .error .notFound
  | some (.file _) => .error .notDirectory
  | some .directory =>
    if name = "" || name = "." then .ok place
    else if name = ".." then .ok place.up
    else if nameLimit < name.utf8ByteSize then .error .tooLong
    else
      match place with
      | .inside location => .ok (.inside (location ++ [name]))
      | .above => .error .notFound

/-- The place that a path leads to. The last name need not be there. -/
def resolve (tree : FileTree) (path : String) : Except FileError Place :=
  match FileError.ofPath? path with
  | some e => .error e
  | none =>
    let start := if Path.isAbsolute path then .above else .inside []
    ((Path.segments path.toList).map String.ofList).foldlM tree.step start

/-- What a path leads to. -/
def stat (tree : FileTree) (path : String) : Except FileError Content :=
  match tree.resolve path with
  | .error e => .error e
  | .ok place =>
    match tree.contentAt? place with
    | some content => .ok content
    | none => .error .notFound

/-- Whether a path leads to something. -/
def exists? (tree : FileTree) (path : String) : Bool :=
  (tree.stat path).toOption.isSome

/-- The bytes of a file. -/
def read (tree : FileTree) (path : String) : Except FileError ByteArray :=
  match tree.stat path with
  | .error e => .error e
  | .ok .directory => .error .isDirectory
  | .ok (.file bytes) => .ok bytes

/-- The text that bytes hold in UTF-8. -/
def textOf (bytes : ByteArray) : Except FileError String :=
  match String.fromUTF8? bytes with
  | some text => .ok text
  | none => .error .notText

/-- The text of a file. -/
def readText (tree : FileTree) (path : String) : Except FileError String :=
  match tree.read path with
  | .error e => .error e
  | .ok bytes => textOf bytes

/-- The names in a directory. -/
def names (tree : FileTree) (location : Location) : List String :=
  tree.entries.filterMap fun (other, _) =>
    if other.dropLast = location then other.getLast? else none

/-- The names in the directory that a path leads to; above the top none are known. -/
def list (tree : FileTree) (path : String) : Except FileError (List String) :=
  match tree.resolve path with
  | .error e => .error e
  | .ok .above => .ok []
  | .ok (.inside location) =>
    match tree.content? location with
    | some .directory => .ok (tree.names location)
    | some (.file _) => .error .notDirectory
    | none => .error .notFound

/-! ## Changing -/

/-- Puts something at a location, instead of what stands there. -/
def put (tree : FileTree) (location : Location) (content : Content) : FileTree :=
  if tree.entries.any (·.1 = location) then
    ⟨tree.entries.map fun entry => if entry.1 = location then (location, content) else entry⟩
  else ⟨tree.entries ++ [(location, content)]⟩

/-- Makes the directories that are missing on the way to a location. -/
def makeFrom (tree : FileTree) (location : Location) :
    List String → Except FileError FileTree
  | [] => .ok tree
  | name :: rest =>
    let next := location ++ [name]
    match tree.content? next with
    | some .directory => tree.makeFrom next rest
    | some (.file _) => .error (if rest.isEmpty then .exists else .notDirectory)
    | none => (tree.put next .directory).makeFrom next rest

/-- Makes the directories at and on the way to a location. -/
def makeDirectories (tree : FileTree) (location : Location) : Except FileError FileTree :=
  tree.makeFrom [] location

/-- The location of a path without two dots in it. -/
def plain (path : String) : Location :=
  ((Path.segments path.toList).filter fun name => !Path.isIdle name).map String.ofList

/-- Writes a file. -/
def write (tree : FileTree) (path : String) (bytes : ByteArray) : Except FileError FileTree :=
  match tree.resolve path with
  | .error e => .error e
  | .ok .above => .error .isDirectory
  | .ok (.inside location) =>
    match tree.content? location with
    | some .directory => .error .isDirectory
    | _ => .ok (tree.put location (.file bytes))

/-- Takes away everything below a location. -/
def clear (tree : FileTree) (location : Location) : FileTree :=
  ⟨tree.entries.filter fun entry =>
    !(location.isPrefixOf entry.1 && location.length < entry.1.length)⟩

/-- Takes away what stands at a location, and everything below. -/
def drop (tree : FileTree) (location : Location) : FileTree :=
  ⟨tree.entries.filter fun entry => !location.isPrefixOf entry.1⟩

/-- Whether a path ends in a single dot. -/
def endsInDot (path : String) : Bool :=
  ((Path.segments path.toList).filter (· ≠ [])).getLast? = some ['.']

/-- Removes the directory that a path leads to with all its content, the content first. By
then the path may lead nowhere, which is no failure. A path that ends in a single dot
cannot be removed. -/
def removeDirectory (tree : FileTree) (path : String) : Except FileError Unit × FileTree :=
  match tree.resolve path with
  | .error e => (.error e, tree)
  -- What is above the top holds the top as well.
  | .ok .above => (.ok (), empty)
  | .ok (.inside location) =>
    match tree.content? location with
    | none => (.error .notFound, tree)
    | some (.file _) => (.error .notDirectory, tree)
    | some .directory =>
      let cleared := tree.clear location
      -- A path that turns back by two dots may have led through what is gone now.
      if !cleared.exists? path then (.ok (), cleared)
      else if endsInDot path then (.error .invalidArgument, cleared)
      else (.ok (), cleared.drop location)

end FileTree

end SlipStack
