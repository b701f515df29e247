import SlipStack.Files.Tree

/-!
# Files to read

Commands that only read files do not depend on where the files are. A `Source` says what
reading a path gives; a file tree is one.
-/

namespace SlipStack

/-- What reading files gives. -/
structure Source where
  /-- The text at a path. -/
  text : String → Except FileError String
  /-- Whether a path leads to something. -/
  exists? : String → Bool

/-- Reading from a file tree. -/
def FileTree.source (tree : FileTree) : Source :=
  ⟨tree.readText, tree.exists?⟩

end SlipStack
