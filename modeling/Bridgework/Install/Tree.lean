import Bridgework.Install.ModuleName
import Bridgework.Package

/-!
# Installed packages

The files of an installed package, and what can be read off their names.

- `Install.Entry`, `Install.Tree` : files, links and directories
- `Install.Tree.ofPaths` : the tree that some paths make
- `Install.Tree.files` : the paths of the files, without those in directories of metadata
- `Install.Tree.sharedObjects`, `Install.Tree.topLevels`, `Install.Tree.entryModules`
- `InstalledPackage` : a package with its tree
-/

namespace Bridgework
namespace Install

/-! ## Trees -/

inductive Entry where
  | file
  /-- A symbolic link, which is not followed. -/
  | link
  | directory (entries : List (String × Entry))

abbrev Tree := List (String × Entry)

def isMetadata (name : String) : Bool :=
  Text.endsIn name ".dist-info" || Text.endsIn name ".egg-info" || Text.endsIn name "__pycache__"

/-- The paths of the files in a directory and in the directories below it that hold more than
metadata. The text is put before each name. -/
def Tree.pathsIn (start : String) : Tree → List String
  | [] => []
  | (name, .file) :: rest => (start ++ name) :: Tree.pathsIn start rest
  | (_, .link) :: rest => Tree.pathsIn start rest
  | (name, .directory entries) :: rest =>
    (if isMetadata name then [] else Tree.pathsIn (start ++ name ++ "/") entries) ++
      Tree.pathsIn start rest

namespace Tree

/-! ## Building -/

def directoryAt (t : Tree) (name : String) : List (String × Entry) :=
  match t.find? fun e => e.1 == name with
  | some (_, .directory entries) => entries
  | _ => []

def put (t : Tree) (name : String) (entry : Entry) : Tree :=
  if t.any fun e => e.1 == name then t.map fun e => if e.1 == name then (name, entry) else e
  else t ++ [(name, entry)]

def putAt : List String → Entry → Tree → Tree
  | [], _, t => t
  | [name], entry, t => t.put name entry
  | name :: path, entry, t => t.put name (.directory (putAt path entry (t.directoryAt name)))

/-- The names along a path, without empty ones and dots; two dots go back. -/
def namesOf (path : String) : List String :=
  (Text.split path '/').foldl (fun names s =>
    if s == "" || s == "." then names else if s == ".." then names.dropLast else names ++ [s]) []

def putDirectories : List String → Tree → Tree
  | [], t => t
  | name :: path, t => t.put name (.directory (putDirectories path (t.directoryAt name)))

/-- Adds a path; one with a slash at its end is a directory, any other a file. -/
def addPath (t : Tree) (path : String) : Tree :=
  if Text.endsIn path "/" then putDirectories (namesOf path) t else putAt (namesOf path) .file t

def ofPaths (paths links : List String) : Tree :=
  links.foldl (fun t l => putAt (namesOf l) .link t) (paths.foldl addPath [])

/-! ## What a tree holds -/

/-- The paths of all files, without those in directories of metadata. -/
def files (t : Tree) : List String := (pathsIn "" t).map Path.normalize

def sharedObjects (t : Tree) : List String :=
  (t.files.filter fun p => isSharedObject (Path.fileName p)).mergeSort fun a b => (compare a b).isLE

/-- The first parts of the names under which modules can be imported. -/
def topLevels (t : Tree) : SortedSet String :=
  .ofList ((t.files.filterMap moduleName?).map Text.firstPart)

/-- The modules that a scan starts from unless told otherwise: those in shared objects. -/
def entryModules (t : Tree) : SortedSet String :=
  .ofList ((t.sharedObjects.filter fun p => Text.endsIn p ".so").filterMap moduleName?)

end Tree
end Install

/-! ## Packages -/

structure InstalledPackage where
  package : Package
  /-- The directory that the files are in. -/
  root : String
  tree : Install.Tree

namespace InstalledPackage

def libraries (p : InstalledPackage) : List Library :=
  p.tree.sharedObjects.map (Library.ofPath p.package)

def hasNativeCode (p : InstalledPackage) : Bool := !p.tree.sharedObjects.isEmpty

end InstalledPackage
end Bridgework
