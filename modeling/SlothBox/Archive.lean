import SlothBox.Library.Path
import SlothBox.Library.PlainObject
import SlothBox.Library.Except
import SlothBox.Download

/-! The sender's browser: `packFiles`, which makes one archive of several files or of a
folder. The archive format is an argument. -/

namespace SlothBox
open Library

def maxArchiveBytes : Nat := 1024 * 1024 * 1024

/-- A file of a selection; a file that is not part of a folder has an empty path. -/
structure PickedFile extends File where
  webkitRelativePath : String
  /-- Whether the browser still gets at the bytes. -/
  readable : Bool

inductive PackError where
  | archive (message : String)
  | notReadable
  | typeError
  deriving DecidableEq

structure ArchiveResult where
  blob : Blob
  fileName : String
  size : Nat
  entryCount : Nat
  deriving DecidableEq

def forbiddenPathPatterns : List (List Char → Bool) :=
  [Path.climbs, fun path => path.contains '\x00', fun path => path.head?.any Path.separator]

def PickedFile.arrayBuffer (file : PickedFile) : Except PackError Bytes :=
  if file.readable then .ok file.content else .error .notReadable

def entryPathFor (file : PickedFile) : String :=
  let raw := if file.webkitRelativePath = "" then file.name else file.webkitRelativePath
  String.ofList (raw.toList.dropWhile Path.separator)

def chooseArchiveName (files : List PickedFile) : String :=
  let firstSegments := files.map fun f =>
    let path := (entryPathFor f).toList
    if '/' ∈ path then some (path.takeWhile (· ≠ '/')) else none
  let generic := "slothbox-" ++ toString files.length ++ "-files.zip"
  match firstSegments.head? with
  | some (some head) => if head ≠ [] ∧ firstSegments.all (· = some head) then String.ofList head ++ ".zip" else generic
  | _ => generic

/-- The dictionary and the paths that are in it. -/
structure Packing where
  entries : PlainObject
  seenPaths : List String

section Pack
variable (numbers : NumberTexts)

def packEntry (packing : Packing) (file : PickedFile) : Except PackError Packing := do
  let path := entryPathFor file
  throwIf (path ∈ packing.seenPaths) (PackError.archive ("duplicate entry path in archive: " ++ path))
  throwIf (forbiddenPathPatterns.any fun pattern => pattern path.toList)
    (PackError.archive ("forbidden character in entry path: " ++ path))
  let bytes ← file.arrayBuffer
  match packing.entries.set? numbers path bytes with
  | some entries => return { entries, seenPaths := packing.seenPaths ++ [path] }
  | none => throw .typeError

/-- What `packFiles` does before it calls `zipSync`. -/
def packEntries (files : List PickedFile) : Except PackError PlainObject := do
  throwIf (files = []) (PackError.archive "no files to pack")
  let totalSize := (files.map fun f => f.size).sum
  throwIf (maxArchiveBytes < totalSize) (PackError.archive
    ("total file size " ++ toString totalSize ++ " bytes exceeds archive cap " ++ toString maxArchiveBytes))
  let packing ← files.foldlM (packEntry numbers) ⟨.empty, []⟩
  return packing.entries

def packFiles (zipSync : PlainObject → Option Bytes) (files : List PickedFile) : Except PackError ArchiveResult := do
  let entries ← packEntries numbers files
  match zipSync entries with
  | none => throw (PackError.archive "failed to build zip archive")
  | some zipBytes =>
    let blob := newBlob [zipBytes] "application/zip"
    return { blob, fileName := chooseArchiveName files, size := blob.bytes.length, entryCount := files.length }

end Pack

end SlothBox
