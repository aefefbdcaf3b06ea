import Dumb.Postgres.Snapshot

/-!
# The steps of the restore

What each step leaves of the destination and its sidecars, however it ends.
-/

namespace Dumb.Postgres.Snapshot

open Crash

def File.Direct (f : File) : Prop := (f.regular && f.links == 1) = true

structure Restorable (env : Outside) (d : Disk) (s old : File) : Prop where
  snapshot : d.snapshot = some s
  direct : s.Direct
  fingerprint : env.fingerprintMatches s.bytes = true
  inspected : env.inspected s.bytes = true
  contract : env.contractMatches s.bytes = true
  destination : d.destination = some old
  oldDirect : old.Direct
  sidecars : ∀ suffix f, d.sidecar suffix = some f → f.Direct

def Untouched (d d' : Disk) : Prop := d'.destination = d.destination ∧ d'.sidecar = d.sidecar

def anyFate (_ : Fate Exn Bytes) : Prop := True

variable {env : Outside} {α β : Type} {Q : α → World → Prop} {R : Exn → World → Prop} {C : World → Prop} {w : World}

/-! ## Steps that only look -/

def Looks (p : Restoring α) (w : World) (P : α → Prop) : Prop :=
  Prog.wp anyFate p (fun a w' => w' = w ∧ P a) (fun _ w' => w' = w) (fun w' => w' = w) w

variable {p : Restoring α} {P : α → Prop}

theorem Looks.bind {f : α → Restoring β} {Q : β → World → Prop} (h : Looks p w P)
    (hf : ∀ a, P a → Prog.wp anyFate (f a) Q R C w) (hR : ∀ e, R e w) (hC : C w) :
    Prog.wp anyFate (p >>= f) Q R C w := by
  apply Prog.wp_bind
  apply Prog.wp_mono h
  · rintro a _ ⟨rfl, ha⟩
    exact hf a ha
  · rintro e _ rfl
    exact hR e
  · rintro _ rfl
    exact hC

theorem Looks.then {f : α → Restoring β} {P' : β → Prop} (h : Looks p w P)
    (hf : ∀ a, P a → Looks (f a) w P') : Looks (p >>= f) w P' :=
  h.bind hf (fun _ => rfl) rfl

theorem looks_pure {a : α} (h : P a) : Looks (pure a) w P := Prog.wp_pure ⟨rfl, h⟩

theorem looks_throw {e : Exn} : Looks (Prog.throw e) w P := Prog.wp_throw rfl

theorem looks_look {f : World → α} (h : P (f w)) : Looks (Prog.look f) w P :=
  Prog.wp_look ⟨rfl, h⟩ (fun _ _ _ => rfl) fun _ => rfl

theorem directFileIdentity_looks (p : Place) :
    Looks (directFileIdentity env p) w fun i => ∃ f, w.disk.entry p = some f ∧ f.Direct ∧ f.identity = i := by
  apply Looks.then (looks_look (P := fun r => r = w.disk.entry p) rfl)
  rintro r rfl
  cases hentry : w.disk.entry p with
  | none => exact looks_throw
  | some f =>
    by_cases hdirect : (f.regular && f.links == 1) = true
    · simp only [hdirect, if_true]
      exact looks_pure ⟨f, rfl, hdirect, rfl⟩
    · simp only [hdirect]
      exact looks_throw

theorem lstat_looks (p : Place) : Looks (lstat p) w fun f => w.disk.entry p = some f := by
  apply Prog.wp_call
  · intro f w' h
    cases hentry : w.disk.entry p with
    | none => simp [hentry] at h
    | some f' =>
      simp only [hentry, Except.ok.injEq, Prod.mk.injEq] at h
      exact ⟨h.2.symm, congrArg some h.1⟩
  · intro _ _
    rfl
  · intro _ _ _
    rfl
  · intro _ _
    rfl

theorem connect_snapshot_looks :
    Looks (connect env .snapshot) w fun bytes => ∃ f, w.disk.snapshot = some f ∧ f.bytes = bytes := by
  apply Prog.wp_call
  · intro bytes w' h
    cases hentry : w.disk.snapshot with
    | none => simp [Disk.entry, hentry] at h
    | some f =>
      simp only [Disk.entry, hentry, reduceCtorEq, if_false, Except.ok.injEq, Prod.mk.injEq] at h
      exact ⟨h.2.symm, f, rfl, h.1⟩
  · intro _ _
    rfl
  · intro _ _ _
    rfl
  · intro _ _
    rfl

theorem validate_snapshot_looks {s : File} (h : w.disk.snapshot = some s) :
    Looks (validateInfinidyskSnapshot env .snapshot) w fun _ => env.fingerprintMatches s.bytes = true ∧
      env.inspected s.bytes = true ∧ env.contractMatches s.bytes = true := by
  have hbytes : ∀ {bytes : Bytes}, (∃ f, w.disk.snapshot = some f ∧ f.bytes = bytes) → bytes = s.bytes := by
    rintro _ ⟨f, hf, rfl⟩
    rw [h] at hf
    rw [Option.some.inj hf]
  apply Looks.then connect_snapshot_looks
  intro bytes hfirst
  rw [hbytes hfirst]
  split
  case isTrue hfingerprint =>
    apply Looks.then connect_snapshot_looks
    intro bytes hsecond
    rw [hbytes hsecond]
    split
    case isTrue hinspected =>
      apply Looks.then connect_snapshot_looks
      intro bytes hthird
      rw [hbytes hthird]
      split
      case isTrue hcontract => exact looks_pure ⟨hfingerprint, hinspected, hcontract⟩
      case isFalse => exact looks_throw
    case isFalse => exact looks_throw
  case isFalse => exact looks_throw

def Listed (d : Disk) (inspected : List Suffix) (sidecars : List (Suffix × (Nat × Nat))) : Prop :=
  ∀ suffix ∈ inspected, ∀ f, d.sidecar suffix = some f → f.Direct ∧ suffix ∈ sidecars.map Prod.fst

theorem inspectSidecars_looks (inspected : List Suffix) :
    Looks (inspectSidecars env inspected) w (Listed w.disk inspected) := by
  induction inspected with
  | nil => exact looks_pure fun _ h => by cases h
  | cons suffix rest ih =>
    apply Looks.then (looks_look (P := fun b => b = (w.disk.sidecar suffix).isSome) rfl)
    rintro _ rfl
    split
    case isTrue =>
      apply Looks.then (looks_look (P := fun _ => True) trivial)
      intro regular _
      split
      case isTrue =>
        apply Looks.then (directFileIdentity_looks (.sidecar suffix))
        rintro identity ⟨f, hf, hdirect, -⟩
        apply Looks.then ih
        intro others hothers
        apply looks_pure
        intro other hother g hg
        rcases List.mem_cons.1 hother with rfl | hother
        · rw [Option.some.inj (hf.symm.trans hg)] at hdirect
          exact ⟨hdirect, List.mem_cons_self⟩
        · exact ⟨(hothers other hother g hg).1, List.mem_cons_of_mem _ (hothers other hother g hg).2⟩
      case isFalse => exact looks_throw
    case isFalse hnone =>
      apply Prog.wp_mono ih _ (fun _ _ h => h) (fun _ h => h)
      rintro others _ ⟨rfl, hothers⟩
      refine ⟨rfl, fun other hother g hg => ?_⟩
      rcases List.mem_cons.1 hother with rfl | hother
      · rw [hg] at hnone
        exact absurd rfl hnone
      · exact hothers other hother g hg

theorem anyChanged_looks (sidecars : List (Suffix × (Nat × Nat))) : Looks (anyChanged env sidecars) w fun _ => True := by
  induction sidecars with
  | nil => exact looks_pure trivial
  | cons sidecar rest ih =>
    apply Looks.then (directFileIdentity_looks (.sidecar sidecar.1))
    intro identity _
    split
    · exact ih
    · exact looks_pure trivial

theorem recheck_looks (snapshotIdentity destinationIdentity : Nat × Nat) (sidecars : List (Suffix × (Nat × Nat))) :
    Looks (recheck env snapshotIdentity destinationIdentity sidecars) w fun _ => True := by
  apply Looks.then (directFileIdentity_looks .destination)
  intro identity _
  split
  · have hsame : Looks (do
        if (← directFileIdentity env .snapshot) = snapshotIdentity then
          let changed ← anyChanged env sidecars
          pure !changed
        else pure false : Restoring Bool) w fun _ => True := by
      apply Looks.then (directFileIdentity_looks .snapshot)
      intro identity _
      split
      · apply Looks.then (anyChanged_looks sidecars)
        intro changed _
        exact looks_pure trivial
      · exact looks_pure trivial
    apply Looks.then hsame
    intro same _
    split
    · exact looks_pure trivial
    · exact looks_throw
  · exact looks_throw

/-! ## Staging -/

/-- Up to `os.replace`: the destination is the old one, and the snapshot is there. -/
def Before (d : Disk) (w : World) : Prop := Untouched d w.disk ∧ w.disk.snapshot = d.snapshot

def Staged (d : Disk) (f : File) (w : World) : Prop := Before d w ∧ w.disk.temporary = some f

def stagedFile (env : Outside) (new s old : File) : File :=
  { new with bytes := s.bytes, owner := old.owner, mode := env.chownMode old.mode }

section

variable {d : Disk} {f : File}

theorem mkstemp_spec (hw : Before d w) :
    Prog.wp anyFate (mkstemp env) (fun _ => Staged d (env.fresh w.disk)) (fun _ => Before d) (Before d) w := by
  apply Prog.wp_bind
  apply Prog.wp_atomic _ (fun _ _ => hw) (fun _ _ _ => hw) fun _ => hw
  rintro _ ⟨⟩
  exact Prog.wp_modify ⟨hw, rfl⟩

theorem Staged.onTemporary (hw : Staged d f w) (g : File → File) : Staged d (g f) (onTemporary g w) :=
  ⟨hw.1, congrArg (Option.map g) hw.2⟩

theorem copyfileobj_spec {s : File} (hw : Staged d f w) (hs : d.snapshot = some s) :
    Prog.wp anyFate copyfileobj (fun _ => Staged d { f with bytes := s.bytes }) (fun _ => Before d) (Before d) w := by
  apply Prog.wp_call _ (fun _ _ => hw.1) (fun _ _ _ => hw.1) fun _ _ => hw.1
  intro _ w' h
  simp only [hw.1.2, hs, Except.ok.injEq, Prod.mk.injEq, true_and] at h
  exact h ▸ hw.onTemporary fun f => { f with bytes := s.bytes }

theorem fsync_spec (hw : Staged d f w) :
    Prog.wp anyFate fsync (fun _ => Staged d f) (fun _ => Before d) (Before d) w :=
  Prog.wp_look hw (fun _ _ _ => hw.1) fun _ => hw.1

theorem fchmod_spec (mode : Nat) (hw : Staged d f w) :
    Prog.wp anyFate (fchmod mode) (fun _ => Staged d { f with mode }) (fun _ => Before d) (Before d) w := by
  apply Prog.wp_atomic _ (fun _ _ => hw.1) (fun _ _ _ => hw.1) fun _ => hw.1
  rintro _ ⟨⟩
  exact hw.onTemporary fun f => { f with mode }

theorem fchown_spec (owner : Nat × Nat) (hw : Staged d f w) :
    Prog.wp anyFate (fchown env owner) (fun _ => Staged d { f with owner, mode := env.chownMode f.mode })
      (fun _ => Before d) (Before d) w := by
  apply Prog.wp_atomic _ (fun _ _ => hw.1) (fun _ _ _ => hw.1) fun _ => hw.1
  rintro _ ⟨⟩
  exact hw.onTemporary fun f => { f with owner, mode := env.chownMode f.mode }

theorem stage_spec {s : File} (old : File) (hw : Before d w) (hs : d.snapshot = some s) {new : File}
    (hnew : env.fresh w.disk = new) :
    Prog.wp anyFate (stage env old) (fun _ => Staged d (stagedFile env new s old)) (fun _ => Before d) (Before d) w := by
  subst hnew
  apply Prog.wp_bind
  apply Prog.wp_mono (mkstemp_spec hw) _ (fun _ _ h => h) (fun _ h => h)
  intro _ w hw
  apply Prog.wp_bind
  apply Prog.wp_mono (copyfileobj_spec hw hs) _ (fun _ _ h => h) (fun _ h => h)
  intro _ w hw
  apply Prog.wp_bind
  apply Prog.wp_mono (fsync_spec hw) _ (fun _ _ h => h) (fun _ h => h)
  intro _ w hw
  apply Prog.wp_bind
  apply Prog.wp_mono (fchmod_spec old.mode hw) _ (fun _ _ h => h) (fun _ h => h)
  intro _ w hw
  exact fchown_spec old.owner hw

end

/-! ## After the replacement -/

def Replaced (env : Outside) (new s old : File) (w : World) : Prop := w.disk.destination = some (stagedFile env new s old)

def Removing (env : Outside) (new s old : File) (sidecars : List (Suffix × (Nat × Nat))) (w : World) : Prop :=
  Replaced env new s old w ∧ ∀ suffix f, w.disk.sidecar suffix = some f → suffix ∈ sidecars.map Prod.fst

def Opened (env : Outside) (new s old : File) (w : World) : Prop :=
  Replaced env new s old w ∧ ∀ suffix, w.disk.sidecar suffix = none ∨ w.disk.sidecar suffix = env.leaves s.bytes suffix

variable {new s old : File}

theorem removeSidecar_spec {sidecar : Suffix × (Nat × Nat)} {rest : List (Suffix × (Nat × Nat))}
    (hw : Removing env new s old (sidecar :: rest) w) :
    Prog.wp anyFate (removeSidecar env sidecar) (fun _ w' => Removing env new s old rest w') (fun _ => Replaced env new s old)
      (Replaced env new s old) w := by
  apply (directFileIdentity_looks (.sidecar sidecar.1)).bind _ (fun _ => hw.1) hw.1
  intro identity _
  split
  case isFalse => exact Prog.wp_throw hw.1
  case isTrue =>
    apply Prog.wp_atomic _ (fun _ _ => hw.1) (fun _ _ _ => hw.1) fun _ => hw.1
    intro w' h
    cases hentry : w.disk.sidecar sidecar.1 with
    | none => simp [hentry] at h
    | some f =>
      simp only [hentry, Except.ok.injEq] at h
      subst h
      refine ⟨hw.1, fun suffix g hg => ?_⟩
      by_cases hsuffix : suffix = sidecar.1
      · rw [hsuffix] at hg
        simp at hg
      · simp only [Function.update_of_ne hsuffix] at hg
        exact (List.mem_cons.1 (hw.2 suffix g hg)).resolve_left hsuffix

theorem connect_destination_spec (hw : Opened env new s old w) :
    Prog.wp anyFate (connect env .destination) (fun bytes w' => bytes = s.bytes ∧ Opened env new s old w')
      (fun _ => Opened env new s old) (Opened env new s old) w := by
  apply Prog.wp_call
  case herr => exact fun _ _ => hw
  case hraise => exact fun _ _ _ => hw
  case hdie => exact fun _ _ => hw
  intro bytes w' h
  have hentry : w.disk.entry .destination = some (stagedFile env new s old) := hw.1
  simp only [hentry, if_true, Except.ok.injEq, Prod.mk.injEq] at h
  obtain ⟨rfl, rfl⟩ := h
  refine ⟨rfl, hw.1, fun suffix => ?_⟩
  change (w.disk.sidecar suffix).or (env.leaves s.bytes suffix) = none ∨
    (w.disk.sidecar suffix).or (env.leaves s.bytes suffix) = env.leaves s.bytes suffix
  rcases hw.2 suffix with hnone | hleft
  · rw [hnone]
    exact .inr rfl
  · rw [hleft]
    exact .inr Option.or_self

theorem after_connect {k : Bytes → Restoring α} (hw : Opened env new s old w)
    (h : ∀ w, Opened env new s old w →
      Prog.wp anyFate (k s.bytes) Q (fun _ => Opened env new s old) (Opened env new s old) w) :
    Prog.wp anyFate (connect env .destination >>= k) Q (fun _ => Opened env new s old) (Opened env new s old) w := by
  apply Prog.wp_bind
  apply Prog.wp_mono (connect_destination_spec hw) _ (fun _ _ h => h) (fun _ h => h)
  rintro _ w ⟨rfl, hw⟩
  exact h w hw

theorem validate_destination_spec (hw : Opened env new s old w) :
    Prog.wp anyFate (validateInfinidyskSnapshot env .destination) (fun _ => Opened env new s old)
      (fun _ => Opened env new s old) (Opened env new s old) w := by
  refine after_connect hw fun w hw => ?_
  split
  case isFalse => exact Prog.wp_throw hw
  case isTrue =>
    refine after_connect hw fun w hw => ?_
    split
    case isFalse => exact Prog.wp_throw hw
    case isTrue =>
      refine after_connect hw fun w hw => ?_
      split
      case isFalse => exact Prog.wp_throw hw
      case isTrue => exact Prog.wp_pure hw

def Healthy (env : Outside) (bytes : Bytes) : Prop :=
  (env.quickCheck bytes).1 = true ∧ env.foreignKeyViolations bytes = false

theorem checkIntegrity_spec (hw : Opened env new s old w) :
    Prog.wp anyFate (checkIntegrity env) (fun _ w' => Opened env new s old w' ∧ Healthy env s.bytes)
      (fun _ => Opened env new s old) (Opened env new s old) w := by
  have hpresent : (w.disk.entry .destination).isSome = true := by
    rw [show w.disk.entry .destination = some (stagedFile env new s old) from hw.1]
    rfl
  apply Prog.wp_bind
  apply Prog.wp_bind
  apply Prog.wp_look _ (fun _ _ _ => hw) fun _ => hw
  rw [hpresent, if_pos rfl]
  refine after_connect hw fun w hw => ?_
  apply Prog.wp_pure
  apply Prog.wp_bind
  cases hhealthy : (env.quickCheck s.bytes).1 with
  | false =>
    simp only [Bool.false_eq_true, if_false]
    apply Prog.wp_pure
    exact Prog.wp_throw hw
  | true =>
    simp only [if_true]
    refine after_connect hw fun w hw => ?_
    apply Prog.wp_pure
    cases hviolated : env.foreignKeyViolations s.bytes with
    | true => exact Prog.wp_throw hw
    | false => exact Prog.wp_pure ⟨hw, hhealthy, hviolated⟩

theorem replace_spec {d : Disk} (hw : Staged d (stagedFile env new s old) w) :
    Prog.wp anyFate replace (fun _ w' => Replaced env new s old w' ∧ w'.disk.sidecar = d.sidecar) (fun _ => Before d)
      (Before d) w := by
  apply Prog.wp_bind
  apply Prog.wp_atomic _ (fun _ _ => hw.1) (fun _ _ _ => hw.1) fun _ => hw.1
  intro w' h
  simp only [hw.2, Except.ok.injEq] at h
  subst h
  exact Prog.wp_modify ⟨rfl, hw.1.1.2⟩

theorem copyAndReplace_spec {d : Disk} {i j : Nat × Nat} {sidecars : List (Suffix × (Nat × Nat))}
    (hs : d.snapshot = some s) (hlisted : Listed d suffixes sidecars) (hw : Before d w) (hnew : env.fresh w.disk = new) :
    Prog.wp anyFate (copyAndReplace env i j old sidecars) (fun _ w' => Opened env new s old w' ∧ Healthy env s.bytes)
      (fun _ w' => Before d w' ∨ Replaced env new s old w') (fun w' => Before d w' ∨ Replaced env new s old w') w := by
  apply Prog.wp_bind
  apply Prog.wp_mono (stage_spec old hw hs hnew) _ (fun _ _ h => .inl h) (fun _ h => .inl h)
  intro _ w hw
  apply (recheck_looks i j sidecars).bind _ (fun _ => .inl hw.1) (.inl hw.1)
  intro _ _
  apply Prog.wp_bind
  apply Prog.wp_mono (replace_spec hw) _ (fun _ _ h => .inl h) (fun _ h => .inl h)
  rintro _ w ⟨hreplaced, hsidecars⟩
  have hremoving : Removing env new s old sidecars w := by
    refine ⟨hreplaced, fun suffix f hf => ?_⟩
    rw [hsidecars] at hf
    exact (hlisted suffix (by cases suffix <;> simp [suffixes]) f hf).2
  apply Prog.wp_bind
  apply Prog.wp_forEach _ _ sidecars hremoving
  · intro sidecar rest w hw
    exact Prog.wp_mono (removeSidecar_spec hw) (fun _ _ h => h) (fun _ _ h => .inr h) fun _ h => .inr h
  intro w hw
  have hopened : Opened env new s old w := by
    refine ⟨hw.1, fun suffix => ?_⟩
    cases hsuffix : w.disk.sidecar suffix with
    | none => exact .inl rfl
    | some f => cases hw.2 suffix f hsuffix
  apply Prog.wp_bind
  apply Prog.wp_mono (validate_destination_spec hopened) _ (fun _ _ h => .inr h.1) fun _ h => .inr h.1
  intro _ w hw
  exact Prog.wp_mono (checkIntegrity_spec hw) (fun _ _ h => h) (fun _ _ h => .inr h.1) fun _ h => .inr h.1

theorem tryFinally_spec {q : Restoring Unit}
    (hp : Prog.wp anyFate p (fun a w' => Prog.wp anyFate q (fun _ w'' => Q a w'') R C w')
      (fun e w' => Prog.wp anyFate q (fun _ w'' => R e w'') R C w') C w) :
    Prog.wp anyFate (tryFinally p q) Q R C w := by
  apply Prog.wp_bind
  apply Prog.wp_tryExcept
  apply Prog.wp_mono hp
  · intro a w' h
    apply Prog.wp_bind
    exact Prog.wp_mono h (fun _ _ h => Prog.wp_pure h) (fun _ _ h => h) (fun _ h => h)
  · intro e w' h
    apply Prog.wp_bind
    exact Prog.wp_mono h (fun _ _ h => Prog.wp_throw h) (fun _ _ h => h) (fun _ h => h)
  · exact fun _ h => h

theorem discardTemporary_spec {K : Disk → Prop} (hK : ∀ d d' : Disk, Untouched d d' → K d → K d') (hw : K w.disk) :
    Prog.wp anyFate discardTemporary (fun _ w' => K w'.disk) (fun _ w' => K w'.disk) (fun w' => K w'.disk) w := by
  apply Prog.wp_bind
  apply Prog.wp_get
  split
  · apply Prog.wp_atomic
    · rintro _ ⟨⟩
      exact hK w.disk _ ⟨rfl, rfl⟩ hw
    · exact fun _ _ => hw
    · exact fun _ _ _ => hw
    · exact fun _ => hw
  · exact Prog.wp_pure hw

end Dumb.Postgres.Snapshot
