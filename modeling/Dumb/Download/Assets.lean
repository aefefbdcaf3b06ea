import Mathlib.Data.List.Infix
import Mathlib.Data.List.Perm.Basic
import Dumb.Lib.Text

/-!
# The asset of a release

`find_asset_download_url` of `utils/download.py`, and the machines that `download_release_version` asks it for.
-/

namespace Dumb.Download

open Py

structure Asset where
  id : Nat
  name : String
  browserDownloadUrl : String
  url_ne : browserDownloadUrl ≠ ""
  deriving DecidableEq

structure Release where
  assets : List Asset
  zipballUrl : String
  tarballUrl : String

inductive Found where
  | asset (a : Asset)
  | source (url : String)
  | nothing
  deriving DecidableEq

def Found.pair : Found → Option String × Option Nat
  | .asset a => (some a.browserDownloadUrl, some a.id)
  | .source url => (some url, none)
  | .nothing => (none, none)

def isIn (part name : String) : Bool := decide (part.toList <:+: name.toList)

inductive Mode where
  | excludeMusl
  | onlyMusl
  | any

variable (text : Text)

def normalizeArch (arch : String) : String :=
  let arch := String.ofList ((text.lower arch).toList.map fun c => if c = '-' then '_' else c)
  if arch = "linux_amd64" then "linux_x86_64"
  else if arch = "darwin_amd64" then "darwin_x86_64"
  else if arch = "windows_amd64" then "windows_x86_64"
  else if arch = "linux_aarch64" then "linux_arm64"
  else arch

def archParts (architecture : String) : List String := split '_' (normalizeArch text architecture)

def altParts (architecture : String) : List String :=
  let parts := archParts text architecture
  if "x64" ∈ parts then if "linux" ∈ parts then ["linux", "amd64"] else ["amd64"]
  else if "arm64" ∈ parts then if "linux" ∈ parts then ["linux", "aarch64"] else ["aarch64"]
  else []

def wantMusl (architecture : String) : Bool :=
  isIn "musl" (normalizeArch text architecture) || isIn "musl" (text.lower architecture)

def matchesParts (name : String) (parts : List String) : Bool := parts.all fun part => part = "" || isIn part name

def accepts (architecture name : String) : Bool :=
  isIn architecture name || isIn (normalizeArch text architecture) (text.lower name) ||
    matchesParts (text.lower name) (archParts text architecture) ||
    ((altParts text architecture) != [] && matchesParts (text.lower name) (altParts text architecture))

def hasMusl (name : String) : Bool := isIn "musl" (text.lower name)

def Mode.passes (name : String) : Mode → Bool
  | .excludeMusl => !hasMusl text name
  | .onlyMusl => hasMusl text name
  | .any => true

def scanned (architecture : String) (mode : Mode) (a : Asset) : Bool :=
  mode.passes text a.name && accepts text architecture a.name

def preferred (architecture : String) : Mode := if wantMusl text architecture then .onlyMusl else .excludeMusl

def scanAssets (assets : List Asset) (architecture : String) (mode : Mode) : Option Asset :=
  assets.find? (scanned text architecture mode)

def isLinux (a : Asset) : Bool := isIn "linux" (text.lower a.name)

def findAssetDownloadUrl (release : Release) (architecture : Option String) : Found :=
  let source :=
    if release.zipballUrl ≠ "" then .source release.zipballUrl
    else if release.tarballUrl ≠ "" then .source release.tarballUrl
    else .nothing
  match architecture with
  | none | some "" => source
  | some architecture =>
    match scanAssets text release.assets architecture (preferred text architecture) with
    | some a => .asset a
    | none =>
      match scanAssets text release.assets architecture .any with
      | some a => .asset a
      | none =>
        match release.assets.filter (isLinux text), release.assets with
        | a :: _, _ => .asset a
        | [], a :: _ => .asset a
        | [], [] => source

/-! ## Machines -/

/-- What `download_release_version` and `get_architecture` ask for. -/
inductive Machine where
  | linuxX64
  | linuxArm64
  | linuxArm
  | linuxMuslX64
  | linuxMuslArm64
  | linuxMuslArm
  | windowsAmd64
  | linuxAmd64
  | darwinAmd64
  | darwinArm64
  | linuxMips64
  | linuxMips64le
  | linuxPpc64le
  | linuxRiscv64
  | linuxS390x

namespace Machine

def architecture : Machine → String
  | linuxX64 => "linux-x64"
  | linuxArm64 => "linux-arm64"
  | linuxArm => "linux-arm"
  | linuxMuslX64 => "linux-musl-x64"
  | linuxMuslArm64 => "linux-musl-arm64"
  | linuxMuslArm => "linux-musl-arm"
  | windowsAmd64 => "windows-amd64"
  | linuxAmd64 => "linux-amd64"
  | darwinAmd64 => "darwin-amd64"
  | darwinArm64 => "darwin-arm64"
  | linuxMips64 => "linux-mips64"
  | linuxMips64le => "linux-mips64le"
  | linuxPpc64le => "linux-ppc64le"
  | linuxRiscv64 => "linux-riscv64"
  | linuxS390x => "linux-s390x"

def system : Machine → String
  | windowsAmd64 => "windows"
  | darwinAmd64 | darwinArm64 => "darwin"
  | _ => "linux"

def tokens : Machine → List String
  | linuxX64 | linuxMuslX64 => ["x64", "amd64"]
  | linuxArm64 | linuxMuslArm64 | darwinArm64 => ["arm64", "aarch64"]
  | linuxArm | linuxMuslArm => ["arm"]
  | windowsAmd64 | linuxAmd64 | darwinAmd64 => ["amd64", "x86_64"]
  | linuxMips64 => ["mips64"]
  | linuxMips64le => ["mips64le"]
  | linuxPpc64le => ["ppc64le"]
  | linuxRiscv64 => ["riscv64"]
  | linuxS390x => ["s390x"]

def musl : Machine → Bool
  | linuxMuslX64 | linuxMuslArm64 | linuxMuslArm => true
  | _ => false

end Machine

def delimitedFrom (token : List Char) (inWord : Bool) : List Char → Bool
  | [] => false
  | c :: cs =>
    (!inWord && token.isPrefixOf (c :: cs) && !((c :: cs).drop token.length).head?.any Char.isAlphanum) ||
      delimitedFrom token c.isAlphanum cs

def delimited (token name : String) : Bool := delimitedFrom token.toList false name.toList

def fits (m : Machine) (a : Asset) : Bool :=
  delimited m.system (text.lower a.name) && (m.tokens.any fun token => delimited token (text.lower a.name)) &&
    hasMusl text a.name == m.musl

end Dumb.Download

/-! ## Main theorems

Which asset a machine gets.
-/

namespace Dumb.Download

open Py

variable (text : Text)

/-! ## The candidates -/

/-- The preferences of `find_asset_download_url`, the first one first. -/
def preferences (architecture : String) : List (Asset → Bool) :=
  [scanned text architecture (preferred text architecture), scanned text architecture .any, isLinux text, fun _ => true]

def preference (architecture : String) (assets : List Asset) : Asset → Bool :=
  ((preferences text architecture).find? assets.any).getD fun _ => true

def candidates (architecture : String) (assets : List Asset) : List Asset :=
  assets.filter (preference text architecture assets)

variable {text}

theorem find?_none_iff {α : Type} {p : α → Bool} {xs : List α} : xs.find? p = none ↔ xs.any p = false := by
  rw [List.find?_eq_none, List.any_eq_false]

theorem any_of_find? {α : Type} {p : α → Bool} {xs : List α} {a : α} (h : xs.find? p = some a) : xs.any p = true :=
  List.any_eq_true.2 ⟨a, List.mem_of_find?_eq_some h, List.find?_some h⟩

variable {architecture : String}

theorem findAssetDownloadUrl_first {release : Release} (harch : architecture ≠ "") {a : Asset}
    (h : (candidates text architecture release.assets).head? = some a) :
    findAssetDownloadUrl text release (some architecture) = .asset a := by
  rw [candidates, List.head?_filter] at h
  rw [findAssetDownloadUrl]
  simp only [scanAssets]
  cases hpreferred : release.assets.find? (scanned text architecture (preferred text architecture)) with
  | some b =>
    have hfirst := any_of_find? hpreferred
    rw [preference, preferences, List.find?_cons_of_pos hfirst, Option.getD_some, hpreferred] at h
    rw [Option.some.inj h]
  | none =>
    have hnone := find?_none_iff.1 hpreferred
    rw [preference, preferences, List.find?_cons_of_neg (by simp [hnone])] at h
    cases hany : release.assets.find? (scanned text architecture .any) with
    | some b =>
      rw [List.find?_cons_of_pos (any_of_find? hany), Option.getD_some, hany] at h
      rw [Option.some.inj h]
    | none =>
      rw [List.find?_cons_of_neg (by simp [find?_none_iff.1 hany])] at h
      dsimp only
      cases hlinux : release.assets.filter (isLinux text) with
      | cons b rest =>
        have hfound : release.assets.find? (isLinux text) = some b := by rw [← List.head?_filter, hlinux]; rfl
        rw [List.find?_cons_of_pos (any_of_find? hfound), Option.getD_some, hfound] at h
        rw [Option.some.inj h]
      | nil =>
        have hfound : release.assets.find? (isLinux text) = none := by rw [← List.head?_filter, hlinux]; rfl
        rw [List.find?_cons_of_neg (by simp [find?_none_iff.1 hfound])] at h
        cases hassets : release.assets with
        | nil =>
          rw [hassets] at h
          simp at h
        | cons b rest =>
          rw [hassets] at h
          simp at h
          rw [h]
  case x => exact harch

theorem candidates_ne_nil {assets : List Asset} (h : assets ≠ []) :
    candidates text architecture assets ≠ [] := by
  have hsome : ∃ p, (preferences text architecture).find? assets.any = some p := by
    rw [← Option.isSome_iff_exists, List.find?_isSome]
    refine ⟨fun _ => true, by simp [preferences], ?_⟩
    cases assets with
    | nil => exact absurd rfl h
    | cons a rest => rfl
  obtain ⟨p, hp⟩ := hsome
  have hany : assets.any p = true := List.find?_some hp
  obtain ⟨a, ha, hpa⟩ := List.any_eq_true.1 hany
  rw [candidates, preference, hp, Option.getD_some]
  exact List.ne_nil_of_mem (List.mem_filter.2 ⟨ha, hpa⟩)

variable {assets assets' : List Asset}

theorem preference_perm (h : assets'.Perm assets) :
    preference text architecture assets' = preference text architecture assets := by
  have hany : (assets'.any : (Asset → Bool) → Bool) = assets.any := by
    funext p
    exact h.any_eq
  rw [preference, hany, preference]

/-! ## The machine -/

variable (text)

def Rearranged (m : Machine) (assets assets' : List Asset) : Prop :=
  assets'.Perm assets ∧ assets'.filter (fits text m) = assets.filter (fits text m)

def Serves (m : Machine) (release : Release) : Prop :=
  (∃ a ∈ release.assets, fits text m a = true) → ∃ a ∈ release.assets, fits text m a = true ∧
    ∀ assets', Rearranged text m release.assets assets' →
      findAssetDownloadUrl text { release with assets := assets' } (some m.architecture) = .asset a

variable {text}

theorem architecture_ne (m : Machine) : m.architecture ≠ "" := by cases m <;> decide

theorem candidates_rearranged {m : Machine} (h : Rearranged text m assets assets')
    (hfits : ∀ a ∈ candidates text m.architecture assets, fits text m a = true) :
    candidates text m.architecture assets' = candidates text m.architecture assets := by
  have hinside : ∀ {xs : List Asset}, xs.Perm assets →
      xs.filter (preference text m.architecture assets) =
        (xs.filter (fits text m)).filter (preference text m.architecture assets) := by
    intro xs hperm
    rw [List.filter_filter]
    apply List.filter_congr
    intro a ha
    cases hp : preference text m.architecture assets a with
    | false => rw [Bool.false_and]
    | true =>
      rw [Bool.true_and]
      exact (hfits a (List.mem_filter.2 ⟨hperm.mem_iff.1 ha, hp⟩)).symm
  rw [candidates, candidates, preference_perm h.1, hinside h.1, hinside (List.Perm.refl assets), h.2]

/-- The choice fits exactly when every candidate does. -/
theorem serves_iff (text : Text) (m : Machine) (release : Release) :
    Serves text m release ↔ ((∃ a ∈ release.assets, fits text m a = true) →
      ∀ a ∈ candidates text m.architecture release.assets, fits text m a = true) := by
  constructor
  · intro hserves hsome b hb
    obtain ⟨a, -, ha, hchosen⟩ := hserves hsome
    obtain ⟨hmem, hp⟩ := List.mem_filter.1 hb
    by_contra hother
    -- Put in front of the others, it would be chosen.
    obtain ⟨before, after, hsplit⟩ := List.append_of_mem hmem
    have hrearranged : Rearranged text m release.assets (b :: (before ++ after)) := by
      refine ⟨?_, ?_⟩
      · rw [hsplit]
        exact List.perm_middle.symm
      · rw [hsplit]
        simp [hother]
    have hfirst : (candidates text m.architecture (b :: (before ++ after))).head? = some b := by
      rw [candidates, preference_perm hrearranged.1, List.head?_filter, List.find?_cons_of_pos hp]
    have hb' : findAssetDownloadUrl text { release with assets := b :: (before ++ after) } (some m.architecture) = .asset b :=
      findAssetDownloadUrl_first (architecture_ne m) hfirst
    rw [hchosen _ hrearranged] at hb'
    cases hb'
    exact hother ha
  · intro hcandidates hsome
    have hfits := hcandidates hsome
    have hne : release.assets ≠ [] := by
      obtain ⟨a, ha, -⟩ := hsome
      exact List.ne_nil_of_mem ha
    cases hfirst : candidates text m.architecture release.assets with
    | nil => exact absurd hfirst (candidates_ne_nil hne)
    | cons a rest =>
      have ha : a ∈ candidates text m.architecture release.assets := by rw [hfirst]; exact List.mem_cons_self
      refine ⟨a, (List.mem_filter.1 ha).1, hfits a ha, fun assets' h => ?_⟩
      apply findAssetDownloadUrl_first (architecture_ne m)
      rw [candidates_rearranged h hfits, hfirst]
      rfl

def arrRelease : Release where
  assets := [⟨1, "Sonarr.main.linux-arm64.tar.gz", "arm64", by decide⟩, ⟨2, "Sonarr.main.linux-arm.tar.gz", "arm", by decide⟩]
  zipballUrl := ""
  tarballUrl := ""

/-- A 32-bit machine gets the asset of the 64-bit one. -/
theorem linuxArm_gets_arm64 : ¬Serves .ascii .linuxArm arrRelease ∧
    (findAssetDownloadUrl .ascii arrRelease (some "linux-arm")).pair = (some "arm64", some 1) := by
  have hpair : (findAssetDownloadUrl .ascii arrRelease (some "linux-arm")).pair = (some "arm64", some 1) := by decide +kernel
  refine ⟨fun hserves => ?_, hpair⟩
  obtain ⟨a, -, ha, hchosen⟩ := hserves ⟨⟨2, "Sonarr.main.linux-arm.tar.gz", "arm", by decide⟩, by decide +kernel, by decide +kernel⟩
  have hfirst : findAssetDownloadUrl .ascii arrRelease (some "linux-arm") =
      .asset ⟨1, "Sonarr.main.linux-arm64.tar.gz", "arm64", by decide⟩ := by decide +kernel
  have hsame := (hchosen arrRelease.assets ⟨.refl _, rfl⟩).symm.trans hfirst
  cases hsame
  exact absurd ha (by decide +kernel)

end Dumb.Download
