import Dumb.InstallCache.Theorems
import Dumb.Oci.Lemmas.Layers
import Dumb.Oci.Registry

/-!
# What the registry client hands on is what was asked for, and layers stay in the staging directory
-/

namespace Dumb.Oci

open Py InstallCache

variable {rt : Runtime}

/-! ## Digests -/

theorem matchesDigest_iff {s : String} : matchesDigest s = true ↔ ∃ d, IsDigest d ∧ s = "sha256:" ++ d := by
  rw [matchesDigest, Bool.and_eq_true, List.isPrefixOf_iff_prefix, decide_eq_true_eq]
  constructor
  · rintro ⟨⟨rest, hrest⟩, hd⟩
    have hdrop : s.toList.drop 7 = rest := by
      rw [← hrest]
      rfl
    rw [hdrop] at hd
    refine ⟨String.ofList rest, hd, String.toList_inj.1 ?_⟩
    simpa using hrest.symm
  · rintro ⟨d, hd, rfl⟩
    have hlist : ("sha256:" ++ d).toList = "sha256:".toList ++ d.toList := String.toList_append
    rw [hlist]
    refine ⟨⟨_, rfl⟩, ?_⟩
    have hdrop : ("sha256:".toList ++ d.toList).drop 7 = d.toList := rfl
    rw [hdrop, String.ofList_toList]
    exact hd

variable {d : String}

theorem lower_digest (hd : IsDigest d) : asciiLower ("sha256:" ++ d) = "sha256:" ++ d := by
  have hopening : "sha256:".toList.map Char.toLower = "sha256:".toList := by decide
  have hrest : d.toList.map Char.toLower = d.toList := by
    conv_rhs => rw [← List.map_id d.toList]
    exact List.map_congr_left fun c hc => hexDigits_lower (hd.2 c hc)
  apply String.toList_inj.1
  rw [asciiLower, String.toList_ofList, String.toList_append, List.map_append, hopening, hrest]

theorem normalize_prefixed (hd : IsDigest d) : normalize ("sha256:" ++ d) = d := by
  rw [InstallCache.normalize, lower_digest hd, removeprefix, if_pos]
  · apply String.toList_inj.1
    rw [String.toList_ofList, String.toList_append]
    rfl
  · rw [String.toList_append, List.isPrefixOf_iff_prefix]
    exact ⟨_, rfl⟩

theorem hexDigits_plain {c : Char} (h : c ∈ hexDigits) : 33 ≤ c.toNat ∧ c.toNat ≤ 126 := by
  have hall : hexDigits.all (fun c => 33 ≤ c.toNat ∧ c.toNat ≤ 126) = true := by decide
  simpa using List.all_eq_true.1 hall c h

theorem plain_digest (hd : IsDigest d) : Plain ("sha256:" ++ d) := by
  intro c hc
  rw [String.toList_append, List.mem_append] at hc
  rcases hc with hc | hc
  · have hopening : Plain "sha256:" := by decide
    exact hopening c hc
  · exact hexDigits_plain (hd.2 c hc)

theorem validateDigest_ok {j : Json} (h : validateDigest rt j = .ok d) :
    ∃ hex, IsDigest hex ∧ d = "sha256:" ++ hex := by
  rw [validateDigest] at h
  split at h
  · rename_i hmatches
    rw [← Except.ok.inj h]
    exact matchesDigest_iff.1 hmatches
  · cases h

theorem validateDigest_str {s d : String} (h : validateDigest rt (.str s) = .ok d) :
    d = rt.text.lower (rt.text.strip s) := by
  rw [validateDigest] at h
  have horEmpty : rt.text.orEmpty (.str s) = s := by
    rw [Text.orEmpty]
    split
    · exact rt.text.str_str s
    · rename_i hfalsy
      by_contra hne
      exact hfalsy (decide_eq_true (Ne.symm hne))
  rw [horEmpty] at h
  split at h
  · exact (Except.ok.inj h).symm
  · cases h

theorem contentDigest_clean (content : Bytes) :
    rt.text.lower (rt.text.strip (contentDigest rt content)) = contentDigest rt content := by
  have hplain := plain_digest (rt.sha.hex content)
  rw [contentDigest, rt.text.strip_plain hplain, rt.text.lower_plain hplain, lower_digest (rt.sha.hex content)]

/-! ## Manifests -/

theorem indexDigest_ok {response : Response} (h : indexDigest rt response = .ok d) :
    (d = contentDigest rt response.content ↔ Honest rt response) := by
  rw [indexDigest] at h
  rw [Honest]
  split at h
  · rename_i header hheader
    rw [hheader]
    split at h
    · rename_i hempty
      have hd := validateDigest_str h
      rw [contentDigest_clean] at hd
      apply iff_of_true hd
      rintro _ ⟨⟩ hne
      exact absurd hempty hne
    · rename_i hne
      have hd := validateDigest_str h
      constructor
      · rintro rfl _ ⟨⟩ -
        exact hd.symm
      · intro hhonest
        rw [hd]
        exact hhonest header rfl hne
  · rename_i hnone
    have hd := validateDigest_str h
    rw [contentDigest_clean] at hd
    rw [hnone]
    apply iff_of_true hd
    rintro _ ⟨⟩

theorem getField_ok {key : String} {fallback j value : Json} (h : getField key fallback j = .ok value) :
    ∃ members, j = .obj members ∧ value = (Dict.get? key members).getD fallback := by
  cases j with
  | obj members => exact ⟨members, rfl, (Except.ok.inj h).symm⟩
  | _ => cases h

theorem manifestLayers_ok {document declared : Json} {layers : List Json}
    (h : manifestLayers rt document declared = .ok layers) :
    ∃ members, document = .obj members ∧ Dict.get? "layers" members = some (.arr layers) := by
  simp only [manifestLayers, bind_ok_iff] at h
  obtain ⟨known, -, -, -, value, hvalue, h⟩ := h
  obtain ⟨members, rfl, rfl⟩ := getField_ok hvalue
  refine ⟨members, rfl, ?_⟩
  cases hlayers : Dict.get? "layers" members with
  | none =>
    rw [hlayers] at h
    cases h
  | some value =>
    rw [hlayers] at h
    simp only [Option.getD_some] at h
    split at h
    · simp only [bind_ok_iff] at h
      obtain ⟨-, -, h⟩ := h
      rw [← Except.ok.inj h]
    · cases h

theorem selectManifest_ok {architecture indexDigest digest : String} {document chosen : Json} {response answer : Response}
    {second : Except Raised Response}
    (h : selectManifest rt architecture indexDigest document response second = .ok (digest, chosen, answer)) :
    (digest = indexDigest ∧ chosen = document ∧ answer = response) ∨
      (contentDigest rt answer.content = digest ∧ rt.loads answer.content = some chosen) := by
  simp only [selectManifest, bind_ok_iff] at h
  obtain ⟨declared, -, isIndex, -, h⟩ := h
  split at h
  · simp only [platformManifest, bind_ok_iff, require_ok, decide_eq_true_eq, loadDocument, orRaise_ok] at h
    obtain ⟨-, -, -, -, found, -, -, -, -, -, d, -, r, -, -, hdigest, doc, hdoc, h⟩ := h
    simp only [Except.ok.injEq, Prod.mk.injEq] at h
    obtain ⟨rfl, rfl, rfl⟩ := h
    exact .inr ⟨hdigest, hdoc⟩
  · simp only [Except.ok.injEq, Prod.mk.injEq] at h
    exact .inl ⟨h.1.symm, h.2.1.symm, h.2.2.symm⟩

theorem resolveManifest_iff {first second : Except Raised Response} {repository reference : String}
    {architecture : Option String} {r : Resolved}
    (h : resolveManifest rt first second repository reference architecture = .ok r) :
    ∃ response, first = .ok response ∧ (ContentAddressed rt response r ↔ Honest rt response) := by
  simp only [resolveManifest, bind_ok_iff, require_ok] at h
  obtain ⟨repo, -, ref, -, arch, -, response, hfirst, -, hreference, document, hdocument, -, -, index, hindex,
    ⟨digest, chosen, answer⟩, hselect, declared, -, layers, hlayers, h⟩ := h
  obtain rfl := Except.ok.inj h
  use response, hfirst
  rw [← indexDigest_ok hindex]
  simp only [loadDocument, orRaise_ok] at hdocument
  simp only [ContentAddressed]
  constructor
  · rintro ⟨-, hdigest, -⟩
    exact hdigest
  · intro hdigest
    obtain ⟨members, rfl, hmembers⟩ := manifestLayers_ok hlayers
    constructor
    · rcases selectManifest_ok hselect with ⟨rfl, rfl, rfl⟩ | ⟨hsame, hloads⟩
      · exact ⟨_, members, hdocument, hdigest.symm, hmembers⟩
      · exact ⟨_, members, hloads, hsame, hmembers⟩
    · apply And.intro hdigest
      intro hstarts
      simp only [hstarts, Bool.not_true, Bool.false_or, decide_eq_true_eq] at hreference
      rw [hdigest, hreference]

/-! ## Blobs -/

variable {enabled : Bool} {repository : String} {descriptor : List (String × Json)}

variable {digest : String}

theorem blobOf_ok {size : Int} (h : blobOf rt repository descriptor = .ok (digest, size)) :
    validateDigest rt ((Dict.get? "digest" descriptor).getD .null) = .ok digest := by
  simp only [blobOf, bind_ok_iff] at h
  obtain ⟨-, -, d, hd, n, -, h⟩ := h
  simp only [Except.ok.injEq, Prod.mk.injEq] at h
  rw [hd, h.1]

theorem fetchBlob_delivers {size : Int} (hblob : blobOf rt repository descriptor = .ok (digest, size))
    (stream : Except Raised Stream) {disk : Disk}
    (hdisk : ∀ content, disk.target = some content → contentDigest rt content = digest) :
    Delivers rt repository descriptor (fetchBlob rt enabled digest size stream disk) := by
  have hgone (e : Raised) (cache : Cache) : Delivers rt repository descriptor (.error e, ⟨none, cache⟩) :=
    fun _ h => nomatch h
  unfold fetchBlob
  split
  · intro content hcontent
    rw [hdisk content hcontent]
    exact blobOf_ok hblob
  · rename_i s
    split
    · exact hgone _ _
    · split
      · exact hgone _ _
      · rename_i hdigest
        split
        · exact hgone _ _
        · rename_i hsize
          rw [not_not] at hdigest
          have hsize' : size ≠ 0 → (s.chunks.flatten.length : Int) = size := by
            intro hne
            by_contra hlength
            exact hsize ⟨hne, hlength⟩
          split
          · exact ⟨digest, size, _, hblob, rfl, hdigest, hsize'⟩
          · exact ⟨digest, size, _, hblob, rfl, hdigest, hsize'⟩

theorem takeBlob_delivers {size : Int} (hblob : blobOf rt repository descriptor = .ok (digest, size))
    (faults : Faults) {disk : Disk} (hdisk : ∀ content, disk.target = some content → contentDigest rt content = digest) :
    Delivers rt repository descriptor (takeBlob rt enabled digest size faults disk) := by
  rw [takeBlob]
  split
  · exact fetchBlob_delivers hblob _ hdisk
  · rename_i cached cache hcached
    split
    · exact fetchBlob_delivers hblob _ fun _ h => nomatch h
    · split
      · exact fetchBlob_delivers hblob _ hdisk
      · rename_i hsize
        obtain ⟨hex, hhex, rfl⟩ := validateDigest_ok (blobOf_ok hblob)
        have hlookup : (lookupContent rt.sha ("sha256:" ++ hex) disk.cache).1 = some cached := by
          split at hcached
          · rw [hcached]
          · cases hcached
        have hdigest := (lookupContent_found hlookup).2
        rw [normalize_prefixed hhex] at hdigest
        refine ⟨_, size, cached, hblob, rfl, by rw [contentDigest, hdigest], ?_⟩
        intro hne
        by_contra hlength
        exact hsize ⟨hne, hlength⟩

/-- What may stand at the target before the call: nothing else than the blob itself. -/
def Fresh (rt : Runtime) (descriptor : List (String × Json)) (target : Option Bytes) : Prop :=
  ∀ content, target = some content →
    validateDigest rt ((Dict.get? "digest" descriptor).getD .null) = .ok (contentDigest rt content)

theorem downloadBlob_iff {target : Option Bytes} : (∀ enabled faults cache,
    Delivers rt repository descriptor (downloadBlob rt enabled repository descriptor faults ⟨target, cache⟩)) ↔
      Fresh rt descriptor target := by
  constructor
  · intro h
    have hraised := h false ⟨false, .error .other⟩ Cache.empty
    rw [downloadBlob] at hraised
    cases hblob : blobOf rt repository descriptor with
    | error e =>
      rw [hblob] at hraised
      exact hraised
    | ok blob =>
      rw [hblob] at hraised
      exact hraised
  · intro hfresh enabled faults cache
    rw [downloadBlob]
    cases hblob : blobOf rt repository descriptor with
    | error e => exact hfresh
    | ok blob =>
      apply takeBlob_delivers hblob
      intro content hcontent
      have hdigest := hfresh content hcontent
      rw [blobOf_ok hblob] at hdigest
      exact (Except.ok.inj hdigest).symm

/-- What is resolved is content-addressed exactly where the first answer names its own digest or none, and a blob that is
downloaded is the one asked for, with nothing else left behind, exactly where nothing else stood at the target before. -/
theorem registry_content_addressed (rt : Runtime) :
    (∀ first second repository reference architecture r,
      resolveManifest rt first second repository reference architecture = .ok r →
        ∃ response, first = .ok response ∧ (ContentAddressed rt response r ↔ Honest rt response)) ∧
    ∀ repository descriptor target, (∀ enabled faults cache,
      Delivers rt repository descriptor (downloadBlob rt enabled repository descriptor faults ⟨target, cache⟩)) ↔
        Fresh rt descriptor target :=
  ⟨fun _ _ _ _ _ _ => resolveManifest_iff, fun _ _ _ => downloadBlob_iff⟩

/-! ## A manifest with one layer -/

def layerDigest : String := "sha256:1111111111111111111111111111111111111111111111111111111111111111"

def manifest : Json := .obj [("schemaVersion", .int 2),
  ("mediaType", .str "application/vnd.oci.image.manifest.v1+json"),
  ("layers", .arr [.obj [("mediaType", .str "application/vnd.oci.image.layer.v1.tar+gzip"), ("digest", .str layerDigest),
    ("size", .int 1)]])]

def Runtime.sample : Runtime where
  text := .ascii
  sha := .lengths
  loads content := if content = [123, 125] then some manifest else none
  parseInt := String.toInt?
  machine := "x86_64"

def honestAnswer : Response := ⟨[123, 125], fun _ => none⟩

def lyingAnswer : Response where
  content := [123, 125]
  headers name := if name = "Docker-Content-Digest" then some layerDigest else none

theorem honest_addressed : ∃ r, resolveManifest .sample (.ok honestAnswer) (.error .other) "example/mediastorm" "latest"
    none = .ok r ∧ ContentAddressed .sample honestAnswer r := by
  have hreturns : (resolveManifest .sample (.ok honestAnswer) (.error .other) "example/mediastorm" "latest"
      none).toOption.isSome = true := by decide +kernel
  cases hr : resolveManifest .sample (.ok honestAnswer) (.error .other) "example/mediastorm" "latest" none with
  | error e =>
    rw [hr] at hreturns
    cases hreturns
  | ok r =>
    obtain ⟨response, hresponse, hiff⟩ := (registry_content_addressed .sample).1 _ _ _ _ _ r hr
    obtain rfl := Except.ok.inj hresponse
    exact ⟨r, rfl, hiff.2 fun _ h => nomatch h⟩

/-- The registry names another digest in the header of its answer. -/
theorem header_is_trusted : ∃ r, resolveManifest .sample (.ok lyingAnswer) (.error .other) "example/mediastorm" "latest"
    none = .ok r ∧ ¬ContentAddressed .sample lyingAnswer r := by
  have hreturns : (resolveManifest .sample (.ok lyingAnswer) (.error .other) "example/mediastorm" "latest"
      none).toOption.isSome = true := by decide +kernel
  cases hr : resolveManifest .sample (.ok lyingAnswer) (.error .other) "example/mediastorm" "latest" none with
  | error e =>
    rw [hr] at hreturns
    cases hreturns
  | ok r =>
    obtain ⟨response, hresponse, hiff⟩ := resolveManifest_iff hr
    obtain rfl := Except.ok.inj hresponse
    refine ⟨r, rfl, fun haddressed => ?_⟩
    have hhonest := hiff.1 haddressed layerDigest rfl (by decide)
    revert hhonest
    decide +kernel

end Dumb.Oci

namespace Dumb.Oci.Layers

open Py Tree InstallCache

/-! ## Unpacked layers -/

/-- Nothing outside the staging directory has changed, every link in it leads to a place in it or nowhere, and no more is
written than allowed. -/
structure Contained {before : Files Bytes} (s : Staging before) (limit : Nat) (d : Tree.Disk Bytes) : Prop where
  outside : ∀ q, ¬s.dir <+: q → d.tree.get? q = before.get? q
  links : ∀ dir name text p, s.dir <+: dir → d.tree.get? (dir ++ [name]) = some (.link text) →
    walk d.tree maxSymlinks (if isAbsolute text then [] else dir) (parts text) = some p → s.dir <+: p
  written : d.written ≤ limit

theorem Contained.of_held {before : Files Bytes} {s : Staging before} {limit : Nat} {d : Tree.Disk Bytes} (h : s.Held limit d) :
    Contained s limit d where
  outside := h.1.outside
  links dir name text p hdir hget hwalk := by
    have htame := h.1.links _ text (hdir.trans (List.prefix_append _ _)) hget
    obtain ⟨names, hparts, hnames⟩ := htame.relative.parts
    have hdepth := htame.depth
    rw [List.length_append, List.length_singleton] at hdepth
    rw [htame.relative.1, hparts] at hwalk
    exact walk_inside h.1.links maxSymlinks dir (ups text) names p hdir hnames (by omega) hwalk
  written := h.2

/-- Layers are unpacked within an empty staging directory, and within the limit, as long as no whiteout hides what is up
from the directory itself and every link, when it is made, lies at least as deep below the directory as it goes up. -/
theorem layers_contained {before : Files Bytes} (s : Staging before)
    (htop : before.get? s.dir = none ∨ before.get? s.dir = some .dir)
    (hempty : isEmptyDir s.dir before = true)
    (decimal : Char → Bool) (installer : Installer) (layers : List (List Member))
    (horderly : ∀ step ∈ (applyLayers decimal installer s.root layers).trace exec ⟨before, 0⟩,
      Staging.Orderly s.dir step.call step.before.tree) :
    (∀ step ∈ (applyLayers decimal installer s.root layers).trace exec ⟨before, 0⟩, Contained s installer.limit step.after) ∧
      Contained s installer.limit ((applyLayers decimal installer s.root layers).run exec ⟨before, 0⟩).2 := by
  have hconfined : s.Confined before := by
    refine ⟨fun _ _ => rfl, fun q text hq hget => ?_, htop⟩
    exfalso
    by_cases heq : q = s.dir
    · subst heq
      rcases htop with hnone | hdir
      · rw [hnone] at hget
        cases hget
      · rw [hdir] at hget
        cases hget
    · rw [isEmptyDir_iff.1 hempty q hq (Ne.symm heq)] at hget
      cases hget
  obtain ⟨hsteps, hend, -⟩ := comes_applyLayers decimal installer layers ⟨before, 0⟩ ⟨hconfined, Nat.zero_le _⟩ horderly
  exact ⟨fun step hstep => .of_held (hsteps step hstep), .of_held hend⟩

/-! ### A staging directory beside a downloaded layer -/

def tempRoot : Files Bytes := [(["tmp"], .dir), (["tmp", "layer"], .file [31, 139]), (["tmp", "runtime"], .dir)]

def staging : Staging tempRoot where
  above := ⟨[], ["tmp"]⟩
  name := "runtime"
  parent := ["tmp"]
  plain := by decide
  leads := by decide
  isDir := by decide
  avoids := by decide +kernel

def asciiDigit (c : Char) : Bool := c.isDigit

def tidyLayers : List (List Member) :=
  [[⟨"app", .dir⟩, ⟨"app/bin/server", .file [1, 2]⟩, ⟨"app/bin/old", .file [3]⟩],
    [⟨"app/bin/.wh.old", .file []⟩, ⟨"./app/lib/run", .sym "/app/bin/server"⟩, ⟨"app/bin/run", .lnk "app/lib/run"⟩]]

theorem tidy_contained : Contained staging Installer.aiostreams.limit
    ((applyLayers asciiDigit .aiostreams staging.root tidyLayers).run exec ⟨tempRoot, 0⟩).2 := by
  apply (layers_contained staging _ _ asciiDigit .aiostreams tidyLayers _).2
  · decide
  · decide
  · decide +kernel

def whiteoutOfParent : List (List Member) := [[⟨"app/.wh...", .file []⟩]]

def linkThroughLink : List (List Member) :=
  [[⟨"opt/strmr-web/a/b", .sym "/opt/strmr-web"⟩, ⟨"opt/strmr-web/a/b/c", .sym "/opt/strmr-web/layer"⟩]]

/-- The whiteout deletes what lies beside the staging directory, and the link leads there. -/
theorem layers_escape : ¬Contained staging Installer.aiostreams.limit
      ((applyLayers asciiDigit .aiostreams staging.root whiteoutOfParent).run exec ⟨tempRoot, 0⟩).2 ∧
    ¬Contained staging Installer.mediastorm.limit
      ((applyLayers asciiDigit .mediastorm staging.root linkThroughLink).run exec ⟨tempRoot, 0⟩).2 := by
  constructor
  · intro h
    have houtside := h.outside ["tmp", "layer"] (by decide)
    revert houtside
    decide +kernel
  · intro h
    have hlink := h.links ["tmp", "runtime", "web"] "c" "../../layer" ["tmp", "layer"] (by decide) (by decide +kernel)
      (by decide +kernel)
    revert hlink
    decide

end Dumb.Oci.Layers
