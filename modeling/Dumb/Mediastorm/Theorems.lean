import Dumb.Mediastorm.Lemmas.Elf
import Dumb.Mediastorm.Swap
import Mathlib.Data.List.Induction

/-!
# Main theorems

What sequences of swaps leave, and what the probe of an ELF file says.
-/

namespace Dumb.Mediastorm

open Crash

variable {ready : Tree → Prop} {w : World}

/-! ## The swap of the runtime -/

theorem after_append (w : World) (calls more : List Call) : after w (calls ++ more) = after (after w calls) more :=
  List.foldl_append

/-- No sequence of calls loses the runtime of which each finds the complete one in its place, or none. -/
theorem swaps_keep (ready : Tree → Prop) (w : World) (calls : List Call) (hready : ∀ c ∈ calls, ready c.staged)
    (hstarts : ∀ earlier c rest, calls = earlier ++ c :: rest → Starts ready (after w earlier))
    (htwice : ∀ c ∈ calls, raisesTwice c.fates = false) : NeverLost ready w calls ∧ RaisesSafely ready w calls := by
  have hlost : NeverLost ready w calls := by
    intro earlier more
    -- The calls after `earlier`, one after the other.
    induction more using List.reverseRecOn with
    | nil =>
      intro rest _ hkept
      rwa [List.append_nil]
    | append_singleton more c ih =>
      intro rest hcalls hkept
      have hsplit : calls = (earlier ++ more) ++ c :: rest := by rw [hcalls]; simp
      have hbefore := ih (c :: rest) (by rw [hsplit]) hkept
      have hruntime := hbefore.elim id (hstarts _ c rest hsplit)
      rw [← List.append_assoc, after_append]
      exact (swap_keeps (hready c (by rw [hsplit]; simp)) hruntime).1
  refine ⟨hlost, ?_⟩
  intro earlier more c rest hcalls hkept e w' fates hraised
  have hmem : c ∈ calls := by rw [hcalls]; simp
  have hbefore := hlost earlier more (c :: rest) hcalls hkept
  have hruntime := hbefore.elim id (hstarts _ c rest hcalls)
  exact (swap_keeps (hready c hmem) hruntime).2 e w' fates hraised (htwice c hmem)

/-- The files that `mediastorm_runtime_ready` asks for. -/
def required : List String :=
  ["mediastorm", "web/index.html", "iroh/iroh-direct-spike", "python-venv/bin/python3", "bin/ffmpeg", "bin/ffprobe", "bin/yt-dlp",
    "bin/deno"]

def Present (tree : Tree) : Prop := ∀ path ∈ required, path ∈ tree.map (·.1)

instance (tree : Tree) : Decidable (Present tree) := inferInstanceAs (Decidable (∀ path ∈ required, path ∈ tree.map (·.1)))

def release (version : UInt8) : Tree := required.map fun path => (path, [version])

def installed : World
  | .runtime => .dir (release 1)
  | _ => .absent

def failing : List Call := [⟨release 2, [.ok, .raise () fun _ => true]⟩, ⟨release 3, [.raise () fun _ => true]⟩]

theorem swaps_keep_failing : Kept Present installed ∧ NeverLost Present installed failing ∧
    RaisesSafely Present installed failing := by
  have hstarts : ∀ earlier c rest, failing = earlier ++ c :: rest → Starts Present (after installed earlier) := by
    intro earlier c rest hcalls _
    cases earlier with
    | nil => exact ⟨release 1, rfl, by decide⟩
    | cons first more =>
      cases more with
      | nil =>
        obtain ⟨rfl, -⟩ := List.cons.inj hcalls
        exact ⟨release 1, rfl, by decide⟩
      | cons second more => simp [failing] at hcalls
  refine ⟨.inl ⟨release 1, rfl, by decide⟩, ?_⟩
  exact swaps_keep Present installed failing (by decide) hstarts (by decide)

def interrupted : List Call := [⟨release 2, [.ok, .die fun _ => true]⟩, ⟨release 2, [.ok, .raise () fun _ => true]⟩]

theorem interrupted_loses : (∀ c ∈ interrupted, Present c.staged) ∧ Kept Present installed ∧
    ¬NeverLost Present installed interrupted ∧ ¬RaisesSafely Present installed interrupted := by
  have hkept : Kept Present installed := .inl ⟨release 1, rfl, by decide⟩
  -- Nothing is in either place.
  have hruntime : after installed interrupted .runtime = .absent := rfl
  have hbackup : after installed interrupted .backup = .absent := rfl
  have hnone : ∀ {entry : Entry}, entry = .absent → ¬Complete Present entry := by
    rintro entry rfl ⟨tree, htree, -⟩
    cases htree
  refine ⟨by decide, hkept, ?_, ?_⟩
  · intro h
    exact (h [] interrupted [] (by simp) hkept).elim (hnone hruntime) (hnone hbackup)
  · intro h
    have hraised : ∃ w' fates, swap ⟨release 2, [.ok, .raise () fun _ => true]⟩
        (after installed [⟨release 2, [.ok, .die fun _ => true]⟩]) = .raised () w' fates ∧ w' .runtime = .absent :=
      ⟨_, _, rfl, rfl⟩
    obtain ⟨w', fates, hswap, habsent⟩ := hraised
    exact hnone habsent (h [] [⟨release 2, [.ok, .die fun _ => true]⟩] _ [] rfl hkept () w' fates hswap)

/-! ## The probe of ELF files -/

namespace Elf

open Py

variable {decode : Octets → String}

theorem metadata_none {data : Octets} :
    (((none, none) : Option (List String) × Option String) = match metadata? decode data with
      | none => (none, none)
      | some (needed, soname) => (some needed, soname)) ↔ metadata? decode data = none := by
  cases metadata? decode data with
  | none => simp
  | some found => simp

theorem exact_short {file : File} (hsize : file.bytes.length < 64) :
    Exact decode file ↔ metadata? decode file.bytes = none := by
  have hrun : (elfDynamicMetadata decode file).run [] = .ok ((none, none), [(0, 64)]) := by
    rw [elfDynamicMetadata, StateT.run_bind, elfDynamicInfo, StateT.run_bind, elfHeaderLayout_short hsize]
    rfl
  rw [Exact, hrun, ← metadata_none]
  constructor
  · rintro ⟨result, reads, hresult, -, hsays⟩
    cases hresult
    exact hsays
  · intro hsays
    exact ⟨_, _, rfl, ⟨rfl, by simp, by simp⟩, hsays⟩

theorem not_exact_of_unseekable {file : File} (hsize : 64 ≤ file.bytes.length)
    (hseek : ¬SeekableTable file.bytes) : ¬Exact decode file := by
  simp only [SeekableTable, not_forall] at hseek
  obtain ⟨layout, hheader, htabled, hoffset⟩ := hseek
  have haccepted : accepted file.bytes = some layout := by
    rw [accepted, ← header?_eq hsize, hheader, Option.filter_some, htabled, Bool.or_true, if_pos rfl]
  have hrun : (elfDynamicMetadata decode file).run [] = .error .offset := by
    rw [elfDynamicMetadata, StateT.run_bind, elfDynamicInfo, StateT.run_bind, elfHeaderLayout_run hsize, haccepted]
    simp only [bind, Except.bind, StateT.run, StateT.bind, readAt, if_neg hoffset]
    rfl
  rintro ⟨result, reads, hresult, -⟩
  rw [hrun] at hresult
  cases hresult

theorem found_iff_inside {strtab : Octets} {es : List Entry} :
    ((some (foundStrings decode strtab 1 es), (foundStrings decode strtab 14 es).head?) =
      match (strings? decode strtab 1 es).bind fun needed =>
        (strings? decode strtab 14 es).bind fun sonames => some (needed, sonames.head?) with
      | none => (none, none)
      | some (needed, soname) => (some needed, soname)) ↔
      ∀ e ∈ es, e.1 = 1 ∨ e.1 = 14 → (string? strtab e.2).isSome = true := by
  constructor
  · intro hsays e he htag
    cases hname : string? strtab e.2 with
    | some name => rfl
    | none =>
      rcases htag with htag | htag
      · rw [strings?_none decode he htag hname] at hsays
        cases hsays
      · rw [strings?_none decode he htag hname] at hsays
        cases hneeded : strings? decode strtab 1 es <;> rw [hneeded] at hsays <;> cases hsays
  · intro hinside
    rw [strings?_eq decode fun e he htag => hinside e he (.inl htag), strings?_eq decode fun e he htag => hinside e he (.inr htag)]
    rfl

theorem exact_of_seekable {file : File} (hsize : 64 ≤ file.bytes.length)
    (hseek : SeekableTable file.bytes) : Exact decode file ↔ NamesInside file.bytes := by
  have hoffset : ∀ layout, accepted file.bytes = some layout → layout.shoff < 2 ^ 63 := by
    intro layout haccepted
    obtain ⟨hheader, htests⟩ := Option.filter_eq_some_iff.1 haccepted
    rw [← header?_eq hsize] at hheader
    rcases Bool.or_eq_true_iff.1 htests with hnone | htabled
    · simp only [Layout.sectionless, Bool.and_eq_true, decide_eq_true_eq] at hnone
      rw [hnone.1]
      decide
    · exact hseek layout hheader htabled
  obtain ⟨info, reads, hinfo, hbounded, htrimmed⟩ := elfDynamicInfo_run hsize hoffset
  rw [NamesInside, Exact, metadata?, ← htrimmed, elfDynamicMetadata, StateT.run_bind, hinfo]
  cases info with
  | none =>
    refine ⟨fun _ strtab es h => ?_, fun _ => ⟨_, _, rfl, hbounded, rfl⟩⟩
    cases h
  | some found =>
    cases found with
    | none =>
      refine ⟨fun _ strtab es h => ?_, fun _ => ⟨_, _, rfl, hbounded, rfl⟩⟩
      cases h
    | some dynamic =>
      obtain ⟨strtab, es⟩ := dynamic
      simp only [trimmed, Option.map_some, Option.bind_some, bind, Except.bind]
      rw [elfString_eq decode strtab (by decide), elfString_eq decode strtab (by decide)]
      constructor
      · rintro ⟨result, reads', hresult, -, hsays⟩
        cases hresult
        rintro strtab' es' ⟨⟩
        exact found_iff_inside.1 hsays
      · intro hinside
        exact ⟨_, _, rfl, hbounded, found_iff_inside.2 (hinside strtab _ rfl)⟩

/-- The probe is exact on the files whose section table can be sought and whose names stand in the string table. -/
theorem exact_iff (decode : Octets → String) (file : File) :
    Exact decode file ↔ (file.bytes.length < 64 → metadata? decode file.bytes = none) ∧
      (64 ≤ file.bytes.length → SeekableTable file.bytes ∧ NamesInside file.bytes) := by
  rcases Nat.lt_or_ge file.bytes.length 64 with hshort | hsize
  · rw [exact_short hshort]
    exact ⟨fun h => ⟨fun _ => h, fun hsize => absurd hshort (Nat.not_lt.2 hsize)⟩, fun h => h.1 hshort⟩
  · have hfull : (file.bytes.length < 64 → metadata? decode file.bytes = none) ∧
        (64 ≤ file.bytes.length → SeekableTable file.bytes ∧ NamesInside file.bytes) ↔
        SeekableTable file.bytes ∧ NamesInside file.bytes :=
      ⟨fun h => h.2 hsize, fun h => ⟨fun hshort => absurd hshort (Nat.not_lt.2 hsize), fun _ => h⟩⟩
    rw [hfull]
    by_cases hseek : SeekableTable file.bytes
    · rw [exact_of_seekable hsize hseek]
      exact ⟨fun h => ⟨hseek, h⟩, And.right⟩
    · exact ⟨fun h => absurd h (not_exact_of_unseekable hsize hseek), fun h => absurd h.1 hseek⟩

def farTable : File where
  bytes := elfMagic ++ [2, 1, 1] ++ List.replicate 33 0 ++ [0, 0, 0, 0, 0, 0, 0, 128] ++ List.replicate 10 0 ++ [64, 0, 1, 0, 0, 0]
  fits := by decide

def charOfByte (bytes : Octets) : String := String.ofList (bytes.map fun b => Char.ofNat b.toNat)

/-- The probe raises. -/
theorem farTable_raises : (elfDynamicMetadata charOfByte farTable).run [] = .error .offset ∧ ¬Exact charOfByte farTable := by
  have hraises : (elfDynamicMetadata charOfByte farTable).run [] = .error .offset := rfl
  refine ⟨hraises, ?_⟩
  rintro ⟨result, reads, hresult, -⟩
  rw [hraises] at hresult
  cases hresult

end Elf

end Dumb.Mediastorm
