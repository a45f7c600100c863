import BlitzDoc.Path

/-!
# Toolchain locations

Where an installation keeps its modules, its command index and its command pages.
-/

namespace BlitzDoc

/-- An installation and the settings of a scan. -/
structure Config where
  /-- The folder of the installation. -/
  root : Path
  cacheFile : Path
  /-- The extension of sources, compared without regard to capitals. -/
  extension : String
deriving DecidableEq, Repr, Inhabited

namespace Config

/-- The extension of sources unless another is given. -/
def defaultExtension : String := "bmx"

/-- The name of the cache file unless another is given. -/
def defaultCacheName : String := ".bmxdoc-cache.json"

/-- The usual settings for an installation. -/
def ofRoot (root : Path) : Config :=
  { root, cacheFile := root / defaultCacheName, extension := defaultExtension }

/-- The folder of the modules. -/
def modFolder (c : Config) : Path :=
  c.root / "mod"

/-- The command index that the compiler writes. -/
def indexFile (c : Config) : Path :=
  c.root / "docs" / "html" / "Modules" / "commands.txt"

/-- The command page of the module `parent/folder`. -/
def commandsPage (c : Config) (docsPath : String) : Path :=
  let folder := (docsPath.toList.splitOn '/').foldl
    (fun (p : Path) piece => p / String.ofList piece) c.modFolder
  folder / "doc" / "commands.html"

end Config

end BlitzDoc
