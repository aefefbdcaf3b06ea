import Dumb.Lib.Dict
import Dumb.Lib.Worklist

/-!
# The libraries of the runtime

`_walk_runtime_closure`, `_runtime_missing_libraries` and `_resolve_runtime_libraries` of `utils/mediastorm_installer.py`.
Contents of files are of any type, and what `_elf_dynamic_metadata` makes of them is a parameter. A chain of links is not
longer than the kernel follows.
-/

namespace Dumb.Mediastorm.Libraries

open Py

variable {γ : Type}

/-! ## The tree -/

inductive Place where
  | bundle (name : String)
  | staging (name : String)
  | elsewhere (path : String)
  deriving DecidableEq

inductive Entry (γ : Type) where
  | file (contents : γ)
  | link (target : Place)
  | dir
  deriving DecidableEq

abbrev Folder (γ : Type) := Dict String (Entry γ)

/-- `lib/jellyfin-ffmpeg/lib`, `lib/.system-libs` and all the rest. -/
structure Runtime (γ : Type) where
  bundle : Folder γ
  staging : Folder γ
  elsewhere : Folder γ
  deriving DecidableEq

namespace Runtime

def at? (t : Runtime γ) : Place → Option (Entry γ)
  | .bundle name => Dict.get? name t.bundle
  | .staging name => Dict.get? name t.staging
  | .elsewhere path => Dict.get? path t.elsewhere

def follow (t : Runtime γ) : Nat → Place → Option Place
  | 0, p =>
    match t.at? p with
    | some (.file _) => some p
    | _ => none
  | n + 1, p =>
    match t.at? p with
    | some (.file _) => some p
    | some (.link target) => follow t n target
    | _ => none

def maxSymlinks : Nat := 40

def resolve (t : Runtime γ) (p : Place) : Option Place := t.follow maxSymlinks p

def isFile (t : Runtime γ) (p : Place) : Bool := (t.resolve p).isSome

def isSymlink (t : Runtime γ) (p : Place) : Bool :=
  match t.at? p with
  | some (.link _) => true
  | _ => false

def contents (t : Runtime γ) (p : Place) : Option γ :=
  match t.at? p with
  | some (.file c) => some c
  | _ => none

end Runtime

/-! ## The walk -/

/-- `DT_NEEDED` and `DT_SONAME`, or nothing for malformed metadata. -/
abbrev Metadata := Option (List String × Option String)

abbrev Cache := Dict Place Metadata

def coreHostLibraries : List String :=
  ["libc.so.6", "libm.so.6", "libpthread.so.0", "libdl.so.2", "librt.so.1", "ld-linux-x86-64.so.2",
    "ld-linux-aarch64.so.1", "libgcc_s.so.1", "libstdc++.so.6"]

def isLeafLibraryName (name : String) : Bool :=
  name ≠ "" && !name.toList.contains '/' && !name.toList.contains '\\' && name ≠ "." && name ≠ ".."

variable (elf : γ → Metadata)

def dynamicMetadata (t : Runtime γ) (cache : Cache) (path : Place) : Metadata × Cache :=
  match t.resolve path with
  | none => (none, cache)
  | some resolved =>
    match Dict.get? resolved cache with
    | some metadata => (metadata, cache)
    | none =>
      let metadata := (t.contents resolved).bind elf
      (metadata, Dict.set resolved metadata cache)

def setdefault (name : String) (candidate : Place) (bySoname : Dict String Place) : Dict String Place :=
  match Dict.get? name bySoname with
  | some _ => bySoname
  | none => Dict.set name candidate bySoname

structure Index where
  bySoname : Dict String Place
  cache : Cache

def indexCandidate (t : Runtime γ) (index : Index) (name : String) : Index :=
  let candidate := Place.bundle name
  if t.isFile candidate then
    if t.isSymlink candidate then { index with bySoname := setdefault name candidate index.bySoname }
    else
      let (metadata, cache) := dynamicMetadata elf t index.cache candidate
      match metadata with
      | none => { index with cache }
      | some (_, none) => ⟨setdefault name candidate index.bySoname, cache⟩
      | some (_, some soname) =>
        let bySoname := setdefault name candidate index.bySoname
        ⟨if soname = "" then bySoname else setdefault soname candidate bySoname, cache⟩
  else index

def indexBundle (t : Runtime γ) : Index := (Dict.keys t.bundle).foldl (indexCandidate elf t) ⟨[], []⟩

structure Walk (γ : Type) where
  tree : Runtime γ
  cache : Cache
  missing : List String
  seen : List String
  queue : List String

def extend (needed queue : List String) : List String := needed.reverse ++ queue

def seed (t : Runtime γ) (start : List String × Cache) (path : String) : List String × Cache :=
  if t.isFile (.elsewhere path) then
    match dynamicMetadata elf t start.2 (.elsewhere path) with
    | (some (needed, _), cache) => (extend needed start.1, cache)
    | (none, cache) => (start.1, cache)
  else start

def seeds : List String := ["bin/ffmpeg", "bin/ffprobe"]

def staged (t : Runtime γ) (soname : String) : Option Place :=
  if t.isFile (.staging soname) || t.isSymlink (.staging soname) then
    match t.resolve (.staging soname) with
    | some (.staging name) => some (.staging name)
    | _ => none
  else none

/-- `shutil.copy2(resolved, destination)`, once nothing is in its way. -/
def copy (t : Runtime γ) (resolved : Place) (soname : String) : Runtime γ :=
  match t.contents resolved with
  | some c => { t with bundle := Dict.set soname (.file c) t.bundle }
  | none => t

namespace Walk

def miss (w : Walk γ) (soname : String) : Walk γ := { w with missing := w.missing ++ [soname] }

def visit (copyMissing : Bool) (bySoname : Dict String Place) (soname : String) (w : Walk γ) : Walk γ :=
  if !isLeafLibraryName soname then w.miss soname
  else match Dict.get? soname bySoname with
    | some candidate =>
      match dynamicMetadata elf w.tree w.cache candidate with
      | (none, cache) => { w with cache }.miss soname
      | (some (needed, _), cache) => { w with cache, queue := extend needed w.queue }
    | none =>
      if soname ∈ coreHostLibraries then w
      else match staged w.tree soname with
        | none => w.miss soname
        | some resolved =>
          match dynamicMetadata elf w.tree w.cache resolved with
          | (none, cache) => { w with cache }.miss soname
          | (some (needed, _), cache) =>
            { w with
              tree := if copyMissing then copy w.tree resolved soname else w.tree
              cache
              queue := extend needed w.queue }

def loop (copyMissing : Bool) (bySoname : Dict String Place) : Nat → Walk γ → Option (Walk γ)
  | _, w@⟨_, _, _, _, []⟩ => some w
  | 0, ⟨_, _, _, _, _ :: _⟩ => none
  | n + 1, ⟨tree, cache, missing, seen, soname :: queue⟩ =>
    if soname ∈ seen then loop copyMissing bySoname n ⟨tree, cache, missing, seen, queue⟩
    else loop copyMissing bySoname n (visit elf copyMissing bySoname soname ⟨tree, cache, missing, seen ++ [soname], queue⟩)

end Walk

def walkRuntimeClosure (fuel : Nat) (t : Runtime γ) (copyMissing : Bool) : Option (List String × Runtime γ) :=
  let index := indexBundle elf t
  let start := seeds.foldl (seed elf t) ([], index.cache)
  (Walk.loop elf copyMissing index.bySoname fuel ⟨t, start.2, [], [], start.1⟩).map fun w => (w.missing, w.tree)

def runtimeMissingLibraries (fuel : Nat) (t : Runtime γ) : Option (List String) :=
  (walkRuntimeClosure elf fuel t false).map (·.1)

def resolveRuntimeLibraries (fuel : Nat) (t : Runtime γ) : Option (List String × Runtime γ) :=
  (walkRuntimeClosure elf fuel t true).map fun r => (r.1, { r.2 with staging := [] })

/-! ## What the walk is for -/

section Purpose

variable (t : Runtime γ)

def metadataAt (p : Place) : Metadata := ((t.resolve p).bind t.contents).bind elf

def wellFormed (p : Place) : Bool := (metadataAt elf t p).isSome

def knownAs (n name : String) : Bool :=
  t.isFile (.bundle name) &&
    if t.isSymlink (.bundle name) then name = n
    else match metadataAt elf t (.bundle name) with
      | none => false
      | some (_, soname) => name = n || (n ≠ "" && soname = some n)

/-- The well-formed file that a name resolves to: the first one in the bundle, or the one in the staging area where
the host does not have the library. -/
def provider (n : String) : Option Place :=
  if !isLeafLibraryName n then none
  else match (Dict.keys t.bundle).find? fun name => knownAs elf t n name && wellFormed elf t (.bundle name) with
    | some name => some (.bundle name)
    | none => if n ∈ coreHostLibraries then none else (staged t n).filter (wellFormed elf t)

def neededAt (p : Place) : List String :=
  match metadataAt elf t p with
  | some (needed, _) => needed
  | none => []

def needs (n : String) : List String :=
  match provider elf t n with
  | some p => neededAt elf t p
  | none => []

def Reached (n : String) : Prop := Worklist.Reaches (needs elf t) (seeds.flatMap fun path => neededAt elf t (.elsewhere path)) n

def Resolvable (n : String) : Prop :=
  isLeafLibraryName n = true ∧
    ((∃ name ∈ Dict.keys t.bundle, knownAs elf t n name = true ∧ wellFormed elf t (.bundle name) = true) ∨
      ∃ p, staged t n = some p ∧ wellFormed elf t p = true)

/-- The walk ends, and returns the names that are reached and found nowhere, once each. -/
def Exact : Prop :=
  ∀ copyMissing, ∃ fuel missing left, walkRuntimeClosure elf fuel t copyMissing = some (missing, left) ∧ missing.Nodup ∧
    ∀ n, n ∈ missing ↔ Reached elf t n ∧ n ∉ coreHostLibraries ∧ ¬Resolvable elf t n

/-- Where nothing was missing, nothing is missing in the tree that is left behind, however its bundle is listed. -/
def SelfContained : Prop :=
  ∀ fuel left, resolveRuntimeLibraries elf fuel t = some ([], left) →
    ∀ t' : Runtime γ, (∀ p, t'.at? p = left.at? p) → ∃ fuel', runtimeMissingLibraries elf fuel' t' = some []

/-- No reached name is first known to the bundle as a link to a malformed file while something else has the library. -/
def Unshadowed : Prop :=
  ∀ n, Reached elf t n → ∀ name, (Dict.keys t.bundle).find? (knownAs elf t n) = some name →
    wellFormed elf t (.bundle name) = false → n ∉ coreHostLibraries ∧ ¬Resolvable elf t n

def avoids (t : Runtime γ) : Nat → Place → Bool
  | _, .staging _ => false
  | 0, _ => true
  | n + 1, p =>
    match t.at? p with
    | some (.link target) => avoids t n target
    | _ => true

def carried (n : String) : Option Place :=
  if !isLeafLibraryName n || (Dict.keys t.bundle).any (knownAs elf t n) || n ∈ coreHostLibraries then none
  else (staged t n).filter (wellFormed elf t)

/-- The entries of the bundle that are known by a reached name lead to one file, and one of them does so without the
staging area, unless the host has the library or a copied one declares the name. -/
def Kept : Prop :=
  ∀ n, Reached elf t n →
    (∀ name name', knownAs elf t n name = true → knownAs elf t n name' = true →
      t.resolve (.bundle name) = t.resolve (.bundle name')) ∧
    ((∃ name, knownAs elf t n name = true) → n ∈ coreHostLibraries ∨
      (∃ name, knownAs elf t n name = true ∧ avoids t Runtime.maxSymlinks (.bundle name) = true) ∨
      ∃ m p needed, Reached elf t m ∧ carried elf t m = some p ∧ metadataAt elf t p = some (needed, some n))

end Purpose

end Dumb.Mediastorm.Libraries
