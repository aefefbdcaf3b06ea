import Mathlib.Data.Set.Function
import Mathlib.Logic.Function.Basic
import Dumb.Lib.Raise
import Dumb.Lib.Text

/-!
# The install cache

From `utils/install_cache.py`. The files of `downloads/objects` are given by their digests. A file of
`downloads/index` is given by the URL it belongs to. What is quarantined is read no more, so that it is gone here.
-/

namespace Dumb.InstallCache

open Py

abbrev Bytes := List UInt8

def hexDigits : List Char := "0123456789abcdef".toList

def IsDigest (s : String) : Prop := s.toList.length = 64 ∧ ∀ c ∈ s.toList, c ∈ hexDigits

instance (s : String) : Decidable (IsDigest s) :=
  @instDecidableAnd _ _ inferInstance (List.decidableBAll (fun c : Char => c ∈ hexDigits) s.toList)

structure Sha256 where
  /-- `hexdigest()` -/
  digest : Bytes → String
  hex (content : Bytes) : IsDigest (digest content)

def removeprefix (opening s : String) : String :=
  if opening.toList.isPrefixOf s.toList then String.ofList (s.toList.drop opening.toList.length) else s

def normalize (digest : String) : String := removeprefix "sha256:" (asciiLower digest)

structure Metadata where
  url : String
  sha256 : String
  size : Nat
  etag : String
  lastModified : String
  filename : String
  contentType : String

structure Labels where
  etag : Option String
  lastModified : Option String
  filename : Option String
  contentType : Option String

structure Cache where
  objects : String → Option Bytes
  index : String → Option Metadata

def Cache.empty : Cache := ⟨fun _ => none, fun _ => none⟩

def Cache.quarantineObject (cache : Cache) (digest : String) : Cache :=
  { cache with objects := Function.update cache.objects digest none }

def Cache.quarantineIndex (cache : Cache) (url : String) : Cache :=
  { cache with index := Function.update cache.index url none }

def Cache.keepObject (cache : Cache) (digest : String) (content : Bytes) : Cache :=
  match cache.objects digest with
  | some _ => cache
  | none => { cache with objects := Function.update cache.objects digest (some content) }

section
variable (sha : Sha256)

def lookupContent (digest : String) (cache : Cache) : Option Bytes × Cache :=
  if IsDigest (normalize digest) then
    match cache.objects (normalize digest) with
    | none => (none, cache)
    | some content =>
      if sha.digest content = normalize digest then (some content, cache)
      else (none, cache.quarantineObject (normalize digest))
  else (none, cache)

def storeContentFile (source : Bytes) (digest : String) (cache : Cache) : Option String × Cache :=
  if (normalize digest).toList.length = 64 ∧ sha.digest source = normalize digest then
    (some (normalize digest), cache.keepObject (normalize digest) source)
  else (none, cache)

variable (enabled : Bool)

def lookupDownload (url : String) (cache : Cache) : Option (Bytes × Metadata) × Cache :=
  if enabled then
    match cache.index url with
    | none => (none, cache)
    | some metadata =>
      if metadata.sha256.toList.length = 64 then
        match lookupContent sha metadata.sha256 cache with
        | (none, cache) => (none, cache.quarantineIndex url)
        | (some content, cache) => (some (content, metadata), cache)
      else (none, cache.quarantineIndex url)
  else (none, cache)

def metadataFor (url : String) (content : Bytes) (labels : Labels) : Metadata where
  url := url
  sha256 := sha.digest content
  size := content.length
  etag := labels.etag.getD ""
  lastModified := labels.lastModified.getD ""
  filename := labels.filename.getD ""
  contentType := labels.contentType.getD ""

def storeDownload (url : String) (content : Bytes) (labels : Labels) (cache : Cache) : Option Metadata × Cache :=
  if enabled then
    let metadata := metadataFor sha url content labels
    let kept := cache.keepObject (sha.digest content) content
    (some metadata, { kept with index := Function.update kept.index url (some metadata) })
  else (none, cache)

def invalidateDownload (url : String) (cache : Cache) : Cache :=
  match cache.index url with
  | none => cache
  | some metadata =>
    if metadata.sha256.toList.length = 64 then (cache.quarantineObject metadata.sha256).quarantineIndex url
    else cache.quarantineIndex url

def verify (cache : Cache) : Cache :=
  { cache with
    objects digest := (cache.objects digest).filter fun content =>
      digest.toList.length = 64 ∧ sha.digest content = digest }

/-! ## Runs -/

inductive Op where
  | storeDownload (url : String) (content : Bytes) (labels : Labels)
  | storeContentFile (source : Bytes) (digest : String)
  | lookupDownload (url : String)
  | lookupContent (digest : String)
  | invalidateDownload (url : String)
  | verify
  | corrupt (digest : String) (content : Bytes)

def step (cache : Cache) : Op → Cache
  | .storeDownload url content labels => (storeDownload sha enabled url content labels cache).2
  | .storeContentFile source digest => (storeContentFile sha source digest cache).2
  | .lookupDownload url => (lookupDownload sha enabled url cache).2
  | .lookupContent digest => (lookupContent sha digest cache).2
  | .invalidateDownload url => invalidateDownload url cache
  | .verify => verify sha cache
  | .corrupt digest content =>
    match cache.objects digest with
    | none => cache
    | some _ => { cache with objects := Function.update cache.objects digest (some content) }

def run (cache : Cache) (ops : List Op) : Cache := ops.foldl (step sha enabled) cache

/-! ## What was stored -/

def Op.contentFor (url : String) : Op → Option Bytes
  | .storeDownload u content _ => if enabled ∧ u = url then some content else none
  | _ => none

def Op.contentOf (digest : String) : Op → Option Bytes
  | .storeDownload _ content _ => if enabled ∧ sha.digest content = digest then some content else none
  | .storeContentFile source d =>
    if sha.digest source = normalize d ∧ normalize d = digest then some source else none
  | _ => none

def lastFor (url : String) (ops : List Op) : Option Bytes :=
  ops.foldl (fun last op => (op.contentFor enabled url).or last) none

def lastOf (digest : String) (ops : List Op) : Option Bytes :=
  ops.foldl (fun last op => (op.contentOf sha enabled digest).or last) none

def Op.contents : Op → List Bytes
  | .storeDownload _ content _ => [content]
  | .storeContentFile source _ => [source]
  | .corrupt _ content => [content]
  | _ => []

def contents (ops : List Op) : List Bytes := ops.flatMap Op.contents

def Intact (content : Bytes) (cache : Cache) : Prop :=
  ∀ found, cache.objects (sha.digest content) = some found → sha.digest found = sha.digest content

def Op.Takes (digest : String) (cache : Cache) : Op → Prop
  | .corrupt d _ => d = digest
  | .invalidateDownload url => ∃ metadata, cache.index url = some metadata ∧ metadata.sha256 = digest
  | _ => False

def Op.Replaces (url : String) (content : Bytes) : Op → Prop
  | .storeDownload u other _ => u = url ∧ other ≠ content
  | _ => False

def FindsDownload (url : String) (content : Bytes) (cache : Cache) : Prop :=
  ∀ after, Along (step sha enabled) (fun c op => ¬op.Takes (sha.digest content) c ∧ ¬op.Replaces url content) cache after →
    (lookupDownload sha enabled url (run sha enabled cache after)).1.map Prod.fst = some content

def FindsContent (digest : String) (content : Bytes) (cache : Cache) : Prop :=
  ∀ after, Along (step sha enabled) (fun c op => ¬op.Takes (sha.digest content) c) cache after →
    (lookupContent sha digest (run sha enabled cache after)).1 = some content

end

end Dumb.InstallCache
