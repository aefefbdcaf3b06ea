import Mathlib.Data.List.Basic
import Mathlib.Data.List.Nodup

/-!
# Duplicate cleanup

From `utils/duplicate_cleanup.py`. Plex answers the calls from outside, one answer after the other. A delete that runs
into the time-out, or fails otherwise, may have removed the media all the same.
-/

namespace Dumb.Duplicates

structure Media where
  id : Nat
  parts : List String
  deriving DecidableEq

structure Item where
  media : List Media
  deriving DecidableEq

structure Section where
  type : String
  items : List Item
  ids : ((items.flatMap (·.media)).map Media.id).Nodup

def Section.duplicates (s : Section) : List Item := s.items.filter fun item => 1 < item.media.length

structure Mount where
  /-- `re.search` -/
  search : String → String → Bool
  /-- `RCLONE_MOUNT_NAME` -/
  rclonemn : String

def Mount.holds (mount : Mount) (file : String) : Bool :=
  mount.search ("/" ++ mount.rclonemn ++ "[0-9a-zA-Z_]*?/") file

def closes : List Char → Bool
  | [] => false
  | c :: cs => c = '/' || (c.isAlphanum || c = '_') && closes cs

def found (opening : List Char) : List Char → Bool
  | [] => false
  | c :: cs => opening.isPrefixOf (c :: cs) && closes ((c :: cs).drop opening.length) || found opening cs

def Mount.named (name : String) : Mount where
  search _ file := found ('/' :: name.toList) file.toList
  rclonemn := name

inductive Answer where
  | done
  | readTimeout (removed : Bool)
  | notFound
  | error (removed : Bool)

def Answer.removes : Answer → Bool
  | .done => true
  | .readTimeout removed => removed
  | .notFound => false
  | .error removed => removed

structure Call where
  media : Media
  answer : Answer

def removed (calls : List Call) : List Media := (calls.filter (·.answer.removes)).map (·.media)

/-! ## The deletes

The calls made so far are listed with the last one first.
-/

section
variable (answers : Nat → Answer)

def retry (media : Media) : Nat → List Call → Option Bool × List Call
  | 0, calls => (some true, calls)
  | attempts + 1, calls =>
    match answers calls.length with
    | .done => (some true, ⟨media, .done⟩ :: calls)
    | .readTimeout removed => retry media attempts (⟨media, .readTimeout removed⟩ :: calls)
    | .notFound => (some false, ⟨media, .notFound⟩ :: calls)
    | .error removed => (none, ⟨media, .error removed⟩ :: calls)

def maxRetryAttempts : Nat := 5

def deleteMediaWithRetry (media : Media) (calls : List Call) : Option Bool × List Call :=
  retry answers media maxRetryAttempts calls

def deleteParts (media : Media) : List String → List Call → Option Bool × List Call
  | [], calls => (some true, calls)
  | _ :: parts, calls =>
    match deleteMediaWithRetry answers media calls with
    | (some true, calls) => deleteParts media parts calls
    | (continueExecution, calls) => (continueExecution, calls)

/-- The loop over `episode.media`, which returns whether the run goes on. -/
def deleteFrom (mediaId : Option Nat) : List Media → List Call → Bool × List Call
  | [], calls => (true, calls)
  | media :: rest, calls =>
    if some media.id = mediaId then
      match deleteParts answers media media.parts calls with
      | (some true, calls) => deleteFrom mediaId rest calls
      | (some false, calls) => (true, calls)
      | (none, calls) => (false, calls)
    else deleteFrom mediaId rest calls

def deleteAll : List (Item × Option Nat) → List Call → List Call
  | [], calls => calls
  | (item, mediaId) :: rest, calls =>
    match deleteFrom answers mediaId item.media calls with
    | (true, calls) => deleteAll rest calls
    | (false, calls) => calls

end

/-! ## What is deleted -/

structure Seen where
  hasRclonemn : Bool
  hasOtherDirectory : Bool
  mediaId : Option Nat

def Seen.start : Seen := ⟨false, false, none⟩

section
variable (mount : Mount)

def Seen.part (media : Media) (s : Seen) (file : String) : Seen :=
  if mount.holds file then { s with hasRclonemn := true, mediaId := some media.id }
  else { s with hasOtherDirectory := true }

def Seen.media (s : Seen) (media : Media) : Seen := media.parts.foldl (Seen.part mount media) s

def toDelete : Seen → List Media → List (Option Nat)
  | _, [] => []
  | s, media :: rest =>
    let seen := s.media mount media
    (if seen.hasRclonemn && seen.hasOtherDirectory then media.parts.map fun _ => seen.mediaId else []) ++
      toDelete seen rest

def episodesToDelete (items : List Item) : List (Item × Option Nat) :=
  items.flatMap fun item => (toDelete mount Seen.start item.media).map fun mediaId => (item, mediaId)

inductive Kind where
  | tvShows
  | movies

def Kind.type : Kind → String
  | .tvShows => "show"
  | .movies => "movie"

/-- `process_tv_shows` and `process_movies`, with the calls that they made. -/
def process (kind : Kind) (answers : Nat → Answer) (library : List Section) : List Call :=
  match library.find? fun s => s.type = kind.type with
  | none => []
  | some s => deleteAll answers (episodesToDelete mount s.duplicates) []

def processTvShows : (Nat → Answer) → List Section → List Call := process mount .tvShows

def processMovies : (Nat → Answer) → List Section → List Call := process mount .movies

end

/-! ## What the cleanup is for -/

section
variable (mount : Mount)

def Media.Inside (media : Media) : Prop := media.parts ≠ [] ∧ ∀ file ∈ media.parts, mount.holds file = true

def Media.Outside (media : Media) : Prop := media.parts ≠ [] ∧ ∀ file ∈ media.parts, mount.holds file = false

def Media.Split (media : Media) : Prop :=
  (∃ file ∈ media.parts, mount.holds file = true) ∧ ∃ file ∈ media.parts, mount.holds file = false

instance (media : Media) : Decidable (media.Inside mount) :=
  inferInstanceAs (Decidable (media.parts ≠ [] ∧ ∀ file ∈ media.parts, mount.holds file = true))

instance (media : Media) : Decidable (media.Outside mount) :=
  inferInstanceAs (Decidable (media.parts ≠ [] ∧ ∀ file ∈ media.parts, mount.holds file = false))

instance (media : Media) : Decidable (media.Split mount) := inferInstanceAs (Decidable (_ ∧ _))

def KeepsOther (s : Section) (calls : List Call) : Prop :=
  ∀ media ∈ removed calls, media.Inside mount ∧ ∃ item ∈ s.items, media ∈ item.media ∧
    ∃ kept ∈ item.media, kept ∉ removed calls ∧
      ∀ file ∈ kept.parts, mount.holds file = false ∧ ∀ gone ∈ removed calls, file ∉ gone.parts

def Cleaned (s : Section) (calls : List Call) : Prop :=
  ∀ item ∈ s.items, (∃ media ∈ item.media, media ∉ removed calls ∧ media.Outside mount) →
    ∀ media ∈ item.media, media.Inside mount → media ∈ removed calls

def Unfailing : List Call → Prop
  | [] => True
  | call :: earlier =>
    (call.answer = .done ∨ call.answer = .notFound ∧ call.media ∈ removed earlier) ∧ Unfailing earlier

/-- No media has parts on both sides of the mount, and at most one inside comes before the first one outside. -/
def Item.Orderly (item : Item) : Prop :=
  (∀ media ∈ item.media, ¬media.Split mount) ∧
    ((∃ media ∈ item.media, media.Outside mount) →
      (item.media.takeWhile fun media => ¬media.Outside mount).countP (fun media => media.Inside mount) ≤ 1)

instance (item : Item) : Decidable (item.Orderly mount) := inferInstanceAs (Decidable (_ ∧ (_ → _)))

end

end Dumb.Duplicates
