import Dumb.InstallCache.Store

/-!
# The OCI registry client

From `utils/oci_image.py`. What `_get` comes back with is given, authentication included. The registry may answer
anything.
-/

namespace Dumb.Oci

open Py InstallCache

inductive Raised where
  | ociImage (message : String)
  | other

structure Runtime where
  text : Text
  sha : Sha256
  /-- `json.loads`, or none where it raises. -/
  loads : Bytes → Option Json
  /-- `int` of a string, or none where it raises. -/
  parseInt : String → Option Int
  /-- `platform.machine()` -/
  machine : String

structure Response where
  content : Bytes
  /-- `headers.get` -/
  headers : String → Option String

def indexMediaTypes : List String :=
  ["application/vnd.oci.image.index.v1+json", "application/vnd.docker.distribution.manifest.list.v2+json"]

def manifestMediaTypes : List String :=
  ["application/vnd.oci.image.manifest.v1+json", "application/vnd.docker.distribution.manifest.v2+json"]

def layerMediaTypes : List String :=
  ["application/vnd.oci.image.layer.v1.tar+gzip", "application/vnd.docker.image.rootfs.diff.tar.gzip"]

def maxCompressedImageBytes : Int := 4 * 1024 * 1024 * 1024

def lowerAlnum (c : Char) : Bool := c.isLower || c.isDigit

def component (cs : List Char) : Bool :=
  (cs.splitOnP fun c => c = '.' || c = '_' || c = '-').all fun run => !run.isEmpty && run.all lowerAlnum

def matchesRepository (s : String) : Bool :=
  let parts := s.toList.splitOn '/'
  1 < parts.length && parts.all component

def matchesDigest (s : String) : Bool :=
  "sha256:".toList.isPrefixOf s.toList && decide (IsDigest (String.ofList (s.toList.drop 7)))

def matchesTag (s : String) : Bool :=
  match s.toList with
  | [] => false
  | c :: cs =>
    (c.isAlphanum || c = '_') && cs.length ≤ 127 && cs.all fun c => c.isAlphanum || c = '_' || c = '.' || c = '-'

section
variable (rt : Runtime)

def contentDigest (content : Bytes) : String := "sha256:" ++ rt.sha.digest content

def validateRepository (repository : String) : Except Raised String :=
  let value := rt.text.lower (rt.text.strip repository)
  if matchesRepository value then .ok value else .error (.ociImage "Invalid OCI image repository name.")

def validateReference (reference : String) : Except Raised String :=
  let value := rt.text.strip reference
  if matchesTag value || matchesDigest value then .ok value else .error (.ociImage "Invalid OCI image reference.")

def validateDigest (digest : Json) : Except Raised String :=
  let value := rt.text.lower (rt.text.strip (rt.text.orEmpty digest))
  if matchesDigest value then .ok value
  else .error (.ociImage "OCI registry returned an invalid sha256 digest.")

def normalizeOciArchitecture (machine : Option String) : Except Raised String :=
  let given := match machine with
    | some m => if m = "" then rt.machine else m
    | none => rt.machine
  let value := rt.text.lower (rt.text.strip given)
  if value = "x86_64" ∨ value = "amd64" then .ok "amd64"
  else if value = "aarch64" ∨ value = "arm64" then .ok "arm64"
  else .error (.ociImage ("Unsupported OCI image architecture: " ++ if value = "" then "unknown" else value))

def toInt : Json → Except Raised Int
  | .bool b => .ok (if b then 1 else 0)
  | .int n => .ok n
  | .float r => .ok (if 0 ≤ r then r.floor else r.ceil)
  | .str s => orRaise .other (rt.parseInt s)
  | _ => .error .other

def getField (key : String) (fallback : Json) : Json → Except Raised Json
  | .obj members => .ok ((Dict.get? key members).getD fallback)
  | _ => .error .other

def isIn (types : List String) : Json → Except Raised Bool
  | .str s => .ok (types.contains s)
  | .arr _ => .error .other
  | .obj _ => .error .other
  | _ => .ok false

def hasKey (key : String) : Json → Bool
  | .obj members => (Dict.get? key members).isSome
  | _ => false

def isStr (s : String) : Json → Bool
  | .str t => t = s
  | _ => false

def findPlatform (architecture : String) : List Json → Except Raised (Option Json)
  | [] => .ok none
  | item :: rest => do
    let platform ← getField "platform" (.obj []) item
    let os ← getField "os" .null platform
    let arch ← getField "architecture" .null platform
    if isStr "linux" os && isStr architecture arch then .ok (some item) else findPlatform architecture rest

def items : Json → Except Raised (List Json)
  | .arr items => .ok items
  | _ => .error .other

def loadDocument (content : Bytes) : Except Raised Json :=
  orRaise (.ociImage "OCI registry returned an invalid manifest.") (rt.loads content)

def mediaType (document : Json) (response : Response) : Except Raised Json := do
  let declared ← getField "mediaType" .null document
  .ok (if declared.truthy then declared else .str ((response.headers "Content-Type").getD ""))

def indexDigest (response : Response) : Except Raised String :=
  match response.headers "Docker-Content-Digest" with
  | some header =>
    if header = "" then validateDigest rt (.str (contentDigest rt response.content)) else validateDigest rt (.str header)
  | none => validateDigest rt (.str (contentDigest rt response.content))

def checkLayers : Int → List Json → Except Raised Unit
  | _, [] => .ok ()
  | compressedSize, layer :: rest => do
    let digest ← getField "digest" .null layer
    let _ ← validateDigest rt digest
    let mediaType ← getField "mediaType" .null layer
    let known ← isIn layerMediaTypes mediaType
    let named := if mediaType.truthy then mediaType else .str "unknown"
    require known (.ociImage ("Unsupported OCI layer media type: " ++ rt.text.str named))
    let size ← getField "size" (.int 0) layer
    let layerSize ← (toInt rt size).mapError fun _ => .ociImage "OCI image layer has an invalid size."
    require (0 ≤ layerSize) (.ociImage "OCI image layer has an invalid size.")
    require (compressedSize + layerSize ≤ maxCompressedImageBytes)
      (.ociImage "OCI image exceeds the compressed size limit.")
    checkLayers (compressedSize + layerSize) rest

def manifestLayers (document mediaType : Json) : Except Raised (List Json) := do
  let known ← isIn manifestMediaTypes mediaType
  require (known || hasKey "layers" document) (.ociImage "Unsupported OCI manifest media type.")
  let layers ← getField "layers" .null document
  match layers with
  | .arr (layer :: rest) => do
    checkLayers rt 0 (layer :: rest)
    .ok (layer :: rest)
  | _ => .error (.ociImage "OCI platform manifest contains no layers.")

def platformManifest (architecture : String) (document : Json) (response : Except Raised Response) :
    Except Raised (String × Json × Response) := do
  let manifests ← getField "manifests" (.arr []) document
  let listed ← items manifests
  let found ← findPlatform architecture listed
  let descriptor ← orRaise (.ociImage ("OCI image has no linux/" ++ architecture ++ " manifest.")) found
  let digest ← getField "digest" .null descriptor
  let manifestDigest ← validateDigest rt digest
  let response ← response
  require (contentDigest rt response.content = manifestDigest)
    (.ociImage "OCI platform manifest digest verification failed.")
  let document ← loadDocument rt response.content
  .ok (manifestDigest, document, response)

structure Resolved where
  repository : String
  reference : String
  architecture : String
  indexDigest : String
  manifestDigest : String
  layers : List Json

def selectManifest (architecture indexDigest : String) (document : Json) (response : Response)
    (second : Except Raised Response) : Except Raised (String × Json × Response) := do
  let declared ← mediaType document response
  let isIndex ← isIn indexMediaTypes declared
  if isIndex || hasKey "manifests" document then platformManifest rt architecture document second
  else .ok (indexDigest, document, response)

def resolveManifest (first second : Except Raised Response) (repository reference : String)
    (architecture : Option String) : Except Raised Resolved := do
  let repository ← validateRepository rt repository
  let reference ← validateReference rt reference
  let architecture ← normalizeOciArchitecture rt architecture
  let response ← first
  require (!("sha256:".toList.isPrefixOf reference.toList) || contentDigest rt response.content = reference)
    (.ociImage "OCI index digest verification failed.")
  let document ← loadDocument rt response.content
  let _ ← mediaType document response
  let indexDigest ← indexDigest rt response
  let (manifestDigest, document, response) ← selectManifest rt architecture indexDigest document response second
  let declared ← mediaType document response
  let layers ← manifestLayers rt document declared
  .ok ⟨repository, reference, architecture, indexDigest, manifestDigest, layers⟩

/-! ## Blobs -/

/-- What reading the answer comes to: its chunks, and whether it ended without an `OSError`. -/
structure Stream where
  chunks : List Bytes
  complete : Bool

structure Faults where
  copyFails : Bool
  /-- The answer of the registry, or the exception of `_get`. -/
  stream : Except Raised Stream

structure Disk where
  target : Option Bytes
  cache : Cache

def fetchBlob (enabled : Bool) (digest : String) (expectedSize : Int) (stream : Except Raised Stream) (disk : Disk) :
    Except Raised Unit × Disk :=
  match stream with
  | .error e => (.error e, disk)
  | .ok s =>
    if !s.complete then (.error (.ociImage "Unable to write the OCI image layer."), { disk with target := none })
    else if contentDigest rt s.chunks.flatten ≠ digest then
      (.error (.ociImage "OCI image layer digest verification failed."), { disk with target := none })
    else if expectedSize ≠ 0 ∧ (s.chunks.flatten.length : Int) ≠ expectedSize then
      (.error (.ociImage "OCI image layer size verification failed."), { disk with target := none })
    else if enabled then
      (.ok (), ⟨some s.chunks.flatten, (storeContentFile rt.sha s.chunks.flatten digest disk.cache).2⟩)
    else (.ok (), { disk with target := some s.chunks.flatten })

def takeBlob (enabled : Bool) (digest : String) (expectedSize : Int) (faults : Faults) (disk : Disk) :
    Except Raised Unit × Disk :=
  match (if enabled then lookupContent rt.sha digest disk.cache else (none, disk.cache)) with
  | (none, cache) => fetchBlob rt enabled digest expectedSize faults.stream { disk with cache := cache }
  | (some cached, cache) =>
    if faults.copyFails then fetchBlob rt enabled digest expectedSize faults.stream ⟨none, cache⟩
    else if expectedSize ≠ 0 ∧ (cached.length : Int) ≠ expectedSize then
      fetchBlob rt enabled digest expectedSize faults.stream
        ⟨disk.target, cache.quarantineObject (normalize digest)⟩
    else (.ok (), ⟨some cached, cache⟩)

def blobOf (repository : String) (descriptor : List (String × Json)) : Except Raised (String × Int) := do
  let _ ← validateRepository rt repository
  let digest ← validateDigest rt ((Dict.get? "digest" descriptor).getD .null)
  let size := (Dict.get? "size" descriptor).getD (.int 0)
  let expectedSize ← toInt rt (if size.truthy then size else .int 0)
  .ok (digest, expectedSize)

def downloadBlob (enabled : Bool) (repository : String) (descriptor : List (String × Json)) (faults : Faults)
    (disk : Disk) : Except Raised Unit × Disk :=
  match blobOf rt repository descriptor with
  | .error e => (.error e, disk)
  | .ok (digest, expectedSize) => takeBlob rt enabled digest expectedSize faults disk

/-! ## What is asked of them -/

/-- The layers come from a document with the manifest digest, and the index digest is that of the first answer. -/
def ContentAddressed (first : Response) (r : Resolved) : Prop :=
  (∃ content members, rt.loads content = some (.obj members) ∧ contentDigest rt content = r.manifestDigest ∧
    Dict.get? "layers" members = some (.arr r.layers)) ∧
  r.indexDigest = contentDigest rt first.content ∧
  ("sha256:".toList.isPrefixOf r.reference.toList = true → r.indexDigest = r.reference)

def Honest (response : Response) : Prop :=
  ∀ header, response.headers "Docker-Content-Digest" = some header → header ≠ "" →
    rt.text.lower (rt.text.strip header) = contentDigest rt response.content

/-- What is at the target after the call is what the descriptor asks for, where the call raised nothing there is. -/
def Delivers (repository : String) (descriptor : List (String × Json)) (result : Except Raised Unit × Disk) : Prop :=
  match result.1 with
  | .ok () => ∃ digest expectedSize content, blobOf rt repository descriptor = .ok (digest, expectedSize) ∧
      result.2.target = some content ∧ contentDigest rt content = digest ∧
        (expectedSize ≠ 0 → (content.length : Int) = expectedSize)
  | .error _ => ∀ content, result.2.target = some content →
      validateDigest rt ((Dict.get? "digest" descriptor).getD .null) = .ok (contentDigest rt content)

end

end Dumb.Oci
