import Dumb.InstallCache.Store
import Dumb.Lib.Confine

/-!
# Layers of an OCI image

`apply_aiostreams_layer` of `utils/aiostreams_installer.py` and `apply_mediastorm_layer` of
`utils/mediastorm_installer.py`. A path of the image is the list of its parts, and `.` has none. Modes are left out.
-/

namespace Dumb.Oci.Layers

open Py Tree InstallCache

inductive Kind where
  | dir
  | sym (linkname : String)
  | lnk (linkname : String)
  | file (contents : Bytes)
  | other
  deriving DecidableEq

structure Member where
  name : String
  kind : Kind

inductive Raised where
  /-- `AIOStreamsInstallError` or `MediaStormInstallError` -/
  | install
  | os (e : Errno)
  /-- The `RuntimeError` of `path.resolve()` for a loop of links. -/
  | loop

abbrev Step (α : Type) : Type := Act Bytes Raised α

/-! ## Paths of the image -/

def slashes (value : String) : List Char := value.toList.map fun c => if c = '\\' then '/' else c

/-- `while normalized.startswith("./"): normalized = normalized[2:]` -/
def dropDots : List Char → List Char
  | '.' :: '/' :: cs => dropDots cs
  | cs => cs

def names (cs : List Char) : List String := (cs.splitOn '/').map String.ofList

def purePosixPath (cs : List Char) : Path := (names cs).filter fun name => name ≠ "" ∧ name ≠ "."

def normalizeChars (cs : List Char) : Option Path :=
  let normalized := dropDots cs
  if normalized = [] ∨ normalized.head? = some '/' ∨ ".." ∈ purePosixPath normalized then none else some (purePosixPath normalized)

def normalizeLayerPath (value : String) : Option Path := normalizeChars (slashes value)

def normpathFrom : Path → Path → Path
  | done, [] => done.reverse
  | done, name :: rest =>
    if name = "" ∨ name = "." then normpathFrom done rest
    else if name ≠ ".." ∨ done = [] ∨ done.head? = some ".." then normpathFrom (name :: done) rest
    else normpathFrom done.tail rest

def resolvedLink (source : Path) (linkname : String) : Option Path :=
  match slashes linkname with
  | [] => none
  | '/' :: '/' :: _ => none
  | '/' :: cs => some (normpathFrom [] (names cs))
  | cs => some (normpathFrom [] (source.dropLast ++ names cs))

def common : Path → Path → Nat
  | a :: as, b :: bs => if a = b then common as bs + 1 else 0
  | _, _ => 0

def relpath (target start : Path) : String :=
  let shared := common start target
  let ps := List.replicate (start.length - shared) ".." ++ target.drop shared
  if ps = [] then "." else join '/' ps

/-! ## Shared steps -/

def destinationIn (root : Way) (rel : Path) : Step Way := do
  let rootResolved ← Script.orRaise .loop (← Script.see fun d => realpath d.tree root)
  let parent ← Script.orRaise .loop (← Script.see fun d => realpath d.tree (root.join rel).dirname)
  Script.require (rootResolved.isPrefixOf parent) .install
  pure (root.join rel)

def removeExisting (path : Way) : Step Unit := do
  if ← Script.see fun d => islink d.tree path || isfile d.tree path then Script.act .os (.unlink path)
  else if ← Script.see fun d => isdir d.tree path then Script.act .os (.rmtree path)
  else pure ()

def makeRoom (destination : Way) : Step Unit := do
  mkdirParents .os destination.dirname
  if ← Script.see fun d => exists? d.tree destination || islink d.tree destination then removeExisting destination
  else pure ()

def putDir (destination : Way) : Step Unit := do
  if ← Script.see fun d => exists? d.tree destination && !isdir d.tree destination then removeExisting destination
  else pure ()
  mkdirParents .os destination

def hiddenSource (source : Path) (name : String) : Path :=
  source.dropLast ++ if name = "" ∨ name = "." then [] else [name]

def applyWhiteout (mappedPath : Path → Option Path) (safeDestination : Path → Step Way) (source : Path) : Step Bool :=
  match source.getLast? with
  | none => pure false
  | some name =>
    if name = ".wh..wh..opq" then
      match mappedPath source.dropLast with
      | none => pure false
      | some rel => do
        let destination ← safeDestination rel
        if ← Script.see fun d => isdir d.tree destination then do
          let names ← Script.see fun d => children d.tree destination
          Script.forEach (fun child => removeExisting (destination.join [child])) names
        else pure ()
        pure true
    else if ".wh.".toList.isPrefixOf name.toList then
      match mappedPath (hiddenSource source (String.ofList (name.toList.drop 4))) with
      | none => pure false
      | some rel => do
        removeExisting (← safeDestination rel)
        pure true
    else pure false

/-! ## AIOStreams -/

namespace Aiostreams

def maxExtractedBytes : Nat := 4 * 1024 * 1024 * 1024

def mimalloc (decimal : Char → Bool) (name : String) : Bool :=
  let start := "libmimalloc.so.2".toList
  start.isPrefixOf name.toList &&
    match (name.toList.drop start.length).splitOn '.' with
    | first :: numbers => first.isEmpty && numbers.all fun number => !number.isEmpty && number.all decimal
    | [] => false

variable (decimal : Char → Bool)

def mappedPath : Path → Option Path
  | ["usr", "local", "lib", name] => if mimalloc decimal name then some ["lib", name] else none
  | "app" :: rest => some rest
  | _ => none

def safeDestination (root : Way) (rel : Path) : Step Way := if rel = [] then pure root else destinationIn root rel

def mappedLinkTarget (source : Path) (linkname : String) : Option (Path × String) := do
  let resolved ← resolvedLink source linkname
  if resolved.head? = some ".." then none
  else
    let target ← mappedPath decimal resolved
    let mapped ← mappedPath decimal source
    pure (target, relpath target mapped.dropLast)

def mappedHardlinkTarget (linkname : String) : Option Path :=
  (normalizeChars ((slashes linkname).dropWhile (· = '/'))).bind (mappedPath decimal)

structure Progress where
  extracted : Nat
  pending : List (Way × Path)

def applyMember (root : Way) (progress : Progress) (member : Member) : Step Progress := do
  let source ← Script.orRaise .install (normalizeLayerPath member.name)
  if ← applyWhiteout (mappedPath decimal) (safeDestination root) source then pure progress
  else match mappedPath decimal source with
  | none => pure progress
  | some rel => do
    Script.require (rel ≠ [] ∨ member.kind = .dir) .install
    let destination ← safeDestination root rel
    match member.kind with
    | .dir => do
      putDir destination
      pure progress
    | .sym linkname => do
      let (_, text) ← Script.orRaise .install (mappedLinkTarget decimal source linkname)
      makeRoom destination
      Script.act .os (.symlink text destination)
      pure progress
    | .lnk linkname => do
      let target ← Script.orRaise .install (mappedHardlinkTarget decimal linkname)
      pure { progress with pending := progress.pending ++ [(destination, target)] }
    | .other => .raise .install
    | .file contents => do
      let extracted := progress.extracted + contents.length
      Script.require (extracted ≤ maxExtractedBytes) .install
      makeRoom destination
      Script.act .os (.create destination contents)
      pure { progress with extracted }

def linkPending (root : Way) (remaining : List (Way × Path)) (link : Way × Path) : Step (List (Way × Path)) := do
  let target ← safeDestination root link.2
  if ← Script.see fun d => isfile d.tree target then do
    makeRoom link.1
    Script.act .os (.link target link.1)
    pure remaining
  else pure (remaining ++ [link])

/-- `while unresolved`. There are no more rounds than links. -/
def linkRounds (root : Way) : Nat → List (Way × Path) → Step Unit
  | 0, _ => pure ()
  | n + 1, unresolved =>
    if unresolved = [] then pure ()
    else do
      let remaining ← Script.fold (linkPending root) [] unresolved
      Script.require (remaining.length < unresolved.length) .install
      linkRounds root n remaining

def applyLayer (root : Way) (extracted : Nat) (members : List Member) : Step Nat := do
  mkdirParents .os root
  let progress ← Script.fold (applyMember decimal root) ⟨extracted, []⟩ members
  linkRounds root progress.pending.length progress.pending
  pure progress.extracted

end Aiostreams

/-! ## mediastorm -/

namespace Mediastorm

def maxExtractedBytes : Nat := 2 * 1024 * 1024 * 1024

def sourceFiles : Dict Path Path :=
  [(["app", "mediastorm"], ["mediastorm"]),
    (["root", "mediastorm"], ["mediastorm"]),
    (["app", "version.txt"], ["app-version.txt"]),
    (["parse_title.py"], ["scripts", "parse_title.py"]),
    (["parse_title_batch.py"], ["scripts", "parse_title_batch.py"]),
    (["search_subtitles.py"], ["scripts", "search_subtitles.py"]),
    (["download_subtitle.py"], ["scripts", "download_subtitle.py"]),
    (["detect_credits.py"], ["scripts", "detect_credits.py"]),
    (["usr", "local", "bin", "ffmpeg"], ["bin", "ffmpeg"]),
    (["usr", "local", "bin", "ffprobe"], ["bin", "ffprobe"]),
    (["usr", "local", "bin", "yt-dlp"], ["bin", "yt-dlp"]),
    (["usr", "local", "bin", "deno"], ["bin", "deno"])]

def sourceDirectories : Dict Path Path :=
  [(["opt", "strmr-web"], ["web"]),
    (["opt", "iroh"], ["iroh"]),
    (["usr", "lib", "jellyfin-ffmpeg"], ["lib", "jellyfin-ffmpeg"])]

def multiarch (parent : Path) : Bool :=
  ["usr", "lib"].isPrefixOf parent && 2 < parent.length &&
    parent.getLast?.any fun name => "-linux-gnu".toList.isSuffixOf name.toList

def mappedPath (source : Path) : Option Path :=
  match sourceFiles.get? source with
  | some target => some target
  | none =>
    match sourceDirectories.findSome? fun (sourceDir, targetDir) =>
      if sourceDir.isPrefixOf source then some (targetDir ++ source.drop sourceDir.length) else none with
    | some target => some target
    | none =>
      match source.getLast? with
      | some name => if multiarch source.dropLast then some ["lib", ".system-libs", name] else none
      | none => none

def mappedLinkTarget (source : Path) (linkname : String) : Option Path := do
  let resolved ← resolvedLink source linkname
  if ".." ∈ resolved then none else mappedPath resolved

def applyMember (root : Way) (extracted : Nat) (member : Member) : Step Nat := do
  let source ← Script.orRaise .install (normalizeLayerPath member.name)
  if ← applyWhiteout mappedPath (destinationIn root) source then pure extracted
  else match mappedPath source with
  | none => pure extracted
  | some rel => do
    let destination ← destinationIn root rel
    match member.kind with
    | .sym linkname => do
      let target ← Script.orRaise .install (mappedLinkTarget source linkname)
      -- an alias of the same file, which has a member of its own
      if target = rel then pure extracted
      else do
        makeRoom destination
        Script.act (fun _ => .install) (.symlink (relpath target rel.dropLast) destination)
        pure extracted
    | .lnk _ => .raise .install
    | .dir => do
      putDir destination
      pure extracted
    | .other => .raise .install
    | .file contents => do
      let total := extracted + contents.length
      Script.require (total ≤ maxExtractedBytes) .install
      makeRoom destination
      Script.act .os (.create destination contents)
      pure total

def applyLayer (root : Way) (extracted : Nat) (members : List Member) : Step Nat := do
  mkdirParents .os root
  Script.fold (applyMember root) extracted members

end Mediastorm

/-! ## The layers of an image -/

inductive Installer where
  | aiostreams
  | mediastorm

def Installer.limit : Installer → Nat
  | .aiostreams => Aiostreams.maxExtractedBytes
  | .mediastorm => Mediastorm.maxExtractedBytes

def Installer.applyLayer (decimal : Char → Bool) (root : Way) : Installer → Nat → List Member → Step Nat
  | .aiostreams => Aiostreams.applyLayer decimal root
  | .mediastorm => Mediastorm.applyLayer root

def applyLayers (decimal : Char → Bool) (installer : Installer) (root : Way) (layers : List (List Member)) : Step Nat :=
  Script.fold (installer.applyLayer decimal root) 0 layers

abbrev exec : Call Bytes → Disk Bytes → Except Errno Unit × Disk Bytes := Tree.exec List.length

end Dumb.Oci.Layers
