import BlitzDoc.FileTree

/-!
# Failures

What stops an operation for good. Reading a source never fails; only files and formats do.
-/

namespace BlitzDoc

/-- Why an operation failed. -/
inductive Failure where
  /-- The compiler's command index is not there. -/
  | indexNotBuilt (path : Path)
  | sourceNotFound (path : Path)
  | access (path : Path) (fault : Fault)
  | unknownFormat (name : String)
deriving DecidableEq, Repr

def Failure.message : Failure → String
  | indexNotBuilt path => "documentation index not built: " ++ path.text
  | sourceNotFound path => "source not found: " ++ path.text
  | access path fault => "failed to access " ++ path.text ++ ": " ++ fault.message
  | unknownFormat name => "unknown format: " ++ name

end BlitzDoc
