import Dumb.Postgres.Lemmas.Snapshot

/-!
# What a restore leaves

The database of the destination after `_restore_infinidysk_sqlite_snapshot`, wherever it was cut short.
-/

namespace Dumb.Postgres.Snapshot

open Crash

def Restored (env : Outside) (d d' : Disk) : Prop :=
  ∃ s f, d.snapshot = some s ∧ d'.destination = some f ∧ f.bytes = s.bytes ∧
    ∀ suffix old, d.sidecar suffix = some old → d'.sidecar suffix = some old →
      env.replays suffix old.bytes s.bytes = false

def Completed (d d' : Disk) : Prop :=
  ∃ s old f, d.snapshot = some s ∧ d.destination = some old ∧ d'.destination = some f ∧ f.bytes = s.bytes ∧
    f.owner = old.owner ∧ f.mode = old.mode ∧ ∀ suffix, d'.sidecar suffix = none

/-- Wherever the call raises or the process dies, the destination is as it was or restored; a call that returns has
completed the restore. -/
def CrashAtomic (env : Outside) (d : Disk) : Prop :=
  ∀ staged fates,
    (Untouched d (restoreInfinidyskSqliteSnapshot env ⟨d, staged⟩ fates).state.disk ∨
      Restored env d (restoreInfinidyskSqliteSnapshot env ⟨d, staged⟩ fates).state.disk) ∧
    ∀ w rest, restoreInfinidyskSqliteSnapshot env ⟨d, staged⟩ fates = .done () w rest → Completed d w.disk

/-- No sidecar would be replayed onto the snapshot, and what SQLite and the system do by themselves leaves nothing beside
the snapshot and its mode as it is set. -/
structure Harmless (env : Outside) (d : Disk) (s old : File) : Prop where
  quiet : ∀ suffix f, d.sidecar suffix = some f → env.replays suffix f.bytes s.bytes = false
  clean : Healthy env s.bytes → ∀ suffix, env.leaves s.bytes suffix = none
  mode : Healthy env s.bytes → env.chownMode old.mode = old.mode

variable {env : Outside} {d : Disk}

section

variable {new s old : File}

theorem Replaced.restored (hs : d.snapshot = some s)
    (hquiet : ∀ suffix f, d.sidecar suffix = some f → env.replays suffix f.bytes s.bytes = false) {w : World}
    (hw : Replaced env new s old w) : Restored env d w.disk :=
  ⟨s, _, hs, hw, rfl, fun suffix f hf _ => hquiet suffix f hf⟩

theorem Opened.completed (hr : Restorable env d s old) (hh : Harmless env d s old) {w : World}
    (hw : Opened env new s old w) (hhealthy : Healthy env s.bytes) : Completed d w.disk := by
  refine ⟨s, old, _, hr.snapshot, hr.destination, hw.1, rfl, rfl, hh.mode hhealthy, fun suffix => ?_⟩
  rcases hw.2 suffix with hnone | hleft
  · exact hnone
  · rw [hleft, hh.clean hhealthy suffix]

end

def Whole (env : Outside) (d d' : Disk) : Prop := Untouched d d' ∨ Restored env d d'

theorem Whole.same {d₁ d₂ : Disk} (h : Untouched d₁ d₂) (hw : Whole env d d₁) : Whole env d d₂ := by
  rcases hw with huntouched | ⟨s, f, hs, hf, hbytes, hquiet⟩
  · exact .inl ⟨h.1.trans huntouched.1, h.2.trans huntouched.2⟩
  · refine .inr ⟨s, f, hs, h.1.trans hf, hbytes, fun suffix old hold hleft => hquiet suffix old hold ?_⟩
    rw [← hleft, h.2]

theorem Completed.same {d₁ d₂ : Disk} (h : Untouched d₁ d₂) (hw : Completed d d₁) : Completed d d₂ := by
  obtain ⟨s, old, f, hs, hold, hf, hrest⟩ := hw
  refine ⟨s, old, f, hs, hold, h.1.trans hf, ?_⟩
  rw [h.2]
  exact hrest

theorem restore_spec (hharmless : ∀ s old, Restorable env d s old → Harmless env d s old) (staged : Bool) :
    Prog.wp anyFate (restoreInfinidyskSqliteSnapshot env) (fun _ w => Whole env d w.disk ∧ Completed d w.disk)
      (fun _ w => Whole env d w.disk) (fun w => Whole env d w.disk) ⟨d, staged⟩ := by
  have huntouched : Whole env d d := .inl ⟨rfl, rfl⟩
  apply (directFileIdentity_looks .snapshot).bind _ (fun _ => huntouched) huntouched
  rintro _ ⟨s, hs, hdirect, rfl⟩
  apply (validate_snapshot_looks hs).bind _ (fun _ => huntouched) huntouched
  rintro _ ⟨hfingerprint, hinspected, hcontract⟩
  apply (directFileIdentity_looks .destination).bind _ (fun _ => huntouched) huntouched
  rintro _ ⟨old, hold, holdDirect, rfl⟩
  apply (lstat_looks .destination).bind _ (fun _ => huntouched) huntouched
  intro stat hstat
  obtain rfl : old = stat := Option.some.inj (hold.symm.trans hstat)
  apply (inspectSidecars_looks suffixes).bind _ (fun _ => huntouched) huntouched
  intro sidecars hlisted
  have hall : ∀ suffix, suffix ∈ suffixes := by
    intro suffix
    cases suffix <;> simp [suffixes]
  have hrestorable : Restorable env d s old := ⟨hs, hdirect, hfingerprint, hinspected, hcontract, hold, holdDirect,
    fun suffix f hf => (hlisted suffix (hall suffix) f hf).1⟩
  have hh := hharmless s old hrestorable
  have hreached : ∀ {w : World}, Before d w ∨ Replaced env (env.fresh d) s old w → Whole env d w.disk := by
    rintro w (hbefore | hreplaced)
    · exact .inl hbefore.1
    · exact .inr (hreplaced.restored hs hh.quiet)
  apply Prog.wp_bind
  apply Prog.wp_modify
  apply tryFinally_spec
  have hstart : Before d ⟨d, false⟩ := ⟨⟨rfl, rfl⟩, rfl⟩
  apply Prog.wp_mono (copyAndReplace_spec hs hlisted hstart rfl)
  · rintro _ w ⟨hopened, hhealthy⟩
    have hwhole := hreached (.inr hopened.1)
    apply Prog.wp_mono (discardTemporary_spec (K := fun d' => Whole env d d' ∧ Completed d d') _
      ⟨hwhole, hopened.completed hrestorable hh hhealthy⟩) (fun _ _ h => h) (fun _ _ h => h.1) fun _ h => h.1
    exact fun d₁ d₂ h hd => ⟨hd.1.same h, hd.2.same h⟩
  · intro _ w hw
    exact discardTemporary_spec (fun _ _ h hd => Whole.same h hd) (hreached hw)
  · exact fun w hw => hreached hw

/-! ## A restore that gets through -/

section

variable {w : World} {s old : File}

variable {f : File}

theorem directFileIdentity_passes {p : Place} (h : w.disk.entry p = some f) (hdirect : f.Direct) :
    Prog.Passes (directFileIdentity env p) w f.identity w := by
  apply Prog.passes_bind (Prog.passes_look _ w)
  simp only [h, if_pos (show (f.regular && f.links == 1) = true from hdirect)]
  exact Prog.passes_pure _ w

theorem validate_passes {p : Place} {w' : World} (hconnect : Prog.Passes (connect env p) w s.bytes w')
    (hagain : Prog.Passes (connect env p) w' s.bytes w') (hr : Restorable env d s old) :
    Prog.Passes (validateInfinidyskSnapshot env p) w () w' := by
  apply Prog.passes_bind hconnect
  rw [if_pos hr.fingerprint]
  apply Prog.passes_bind hagain
  rw [if_pos hr.inspected]
  apply Prog.passes_bind hagain
  rw [if_pos hr.contract]
  exact Prog.passes_pure () w'

def identities (d : Disk) (inspected : List Suffix) : List (Suffix × (Nat × Nat)) :=
  inspected.filterMap fun suffix => (d.sidecar suffix).map fun f => (suffix, f.identity)

theorem inspectSidecars_passes (hdirect : ∀ suffix f, w.disk.sidecar suffix = some f → f.Direct)
    (inspected : List Suffix) :
    Prog.Passes (inspectSidecars env inspected) w (identities w.disk inspected) w := by
  induction inspected with
  | nil => exact Prog.passes_pure [] w
  | cons suffix rest ih =>
    apply Prog.passes_bind (Prog.passes_look _ w)
    cases hentry : w.disk.sidecar suffix with
    | none =>
      rw [if_neg (by simp [Disk.entry, hentry]), identities, List.filterMap_cons_none (by rw [hentry]; rfl)]
      exact ih
    | some f =>
      have hf := hdirect suffix f hentry
      rw [if_pos (by simp [Disk.entry, hentry]), identities, List.filterMap_cons_some (by rw [hentry]; rfl)]
      apply Prog.passes_bind (Prog.passes_look _ w)
      rw [if_pos (by simpa [Disk.entry, hentry, File.Direct] using hf)]
      apply Prog.passes_bind (directFileIdentity_passes (p := .sidecar suffix) hentry hf)
      exact Prog.passes_bind ih (Prog.passes_pure _ w)

def Present (d : Disk) (sidecars : List (Suffix × (Nat × Nat))) : Prop :=
  ∀ sidecar ∈ sidecars, ∃ f, d.sidecar sidecar.1 = some f ∧ f.Direct ∧ f.identity = sidecar.2

theorem identities_present (hdirect : ∀ suffix f, d.sidecar suffix = some f → f.Direct) (inspected : List Suffix) :
    Present d (identities d inspected) := by
  intro sidecar h
  obtain ⟨suffix, -, hmap⟩ := List.mem_filterMap.1 h
  obtain ⟨f, hf, rfl⟩ := Option.map_eq_some_iff.1 hmap
  exact ⟨f, hf, hdirect suffix f hf, rfl⟩

theorem mem_identities {suffix : Suffix} (h : d.sidecar suffix = some f) :
    (suffix, f.identity) ∈ identities d suffixes :=
  List.mem_filterMap.2 ⟨suffix, by cases suffix <;> simp [suffixes], by rw [h]; rfl⟩

theorem identities_nodup (d : Disk) : ((identities d suffixes).map Prod.fst).Nodup := by
  have hsublist : ∀ inspected, ((identities d inspected).map Prod.fst).Sublist inspected := by
    intro inspected
    induction inspected with
    | nil => exact List.Sublist.refl []
    | cons suffix rest ih =>
      cases hentry : d.sidecar suffix with
      | none => rw [identities, List.filterMap_cons_none (by rw [hentry]; rfl)]; exact ih.cons suffix
      | some f => rw [identities, List.filterMap_cons_some (by rw [hentry]; rfl)]; exact ih.cons_cons suffix
  exact (hsublist suffixes).nodup (by decide)

variable {sidecars : List (Suffix × (Nat × Nat))}

theorem anyChanged_passes (h : Present w.disk sidecars) :
    Prog.Passes (anyChanged env sidecars) w false w := by
  induction sidecars with
  | nil => exact Prog.passes_pure false w
  | cons sidecar rest ih =>
    obtain ⟨f, hf, hdirect, hidentity⟩ := h sidecar List.mem_cons_self
    apply Prog.passes_bind (directFileIdentity_passes (p := .sidecar sidecar.1) hf hdirect)
    rw [if_pos hidentity]
    exact ih fun other hother => h other (List.mem_cons_of_mem sidecar hother)

theorem removeSidecars_passes (env : Outside) (h : Present w.disk sidecars)
    (hnodup : (sidecars.map Prod.fst).Nodup) :
    ∃ w', Prog.Passes (Prog.forEach (removeSidecar env) sidecars) w () w' ∧ w'.disk.destination = w.disk.destination ∧
      ∀ suffix, w'.disk.sidecar suffix = if suffix ∈ sidecars.map Prod.fst then none else w.disk.sidecar suffix := by
  induction sidecars generalizing w with
  | nil => exact ⟨w, Prog.passes_pure () w, rfl, fun suffix => by simp⟩
  | cons sidecar rest ih =>
    obtain ⟨f, hf, hdirect, hidentity⟩ := h sidecar List.mem_cons_self
    rw [List.map_cons, List.nodup_cons] at hnodup
    let w₁ : World := { w with disk := { w.disk with sidecar := Function.update w.disk.sidecar sidecar.1 none } }
    have hremoved : Prog.Passes (removeSidecar env sidecar) w () w₁ := by
      apply Prog.passes_bind (directFileIdentity_passes (p := .sidecar sidecar.1) hf hdirect)
      rw [if_pos hidentity]
      exact Prog.passes_atomic (by simp only [hf]; rfl)
    have hothers : Present w₁.disk rest := by
      intro other hother
      have hne : other.1 ≠ sidecar.1 := fun heq => hnodup.1 (heq ▸ List.mem_map_of_mem hother)
      obtain ⟨g, hg, hrest⟩ := h other (List.mem_cons_of_mem sidecar hother)
      exact ⟨g, (Function.update_of_ne hne none w.disk.sidecar).trans hg, hrest⟩
    obtain ⟨w', hpasses, hdestination, hsidecar⟩ := ih hothers hnodup.2
    refine ⟨w', Prog.passes_bind hremoved hpasses, hdestination, fun suffix => ?_⟩
    rw [hsidecar, List.map_cons]
    by_cases hsuffix : suffix = sidecar.1
    · simp [hsuffix, w₁]
    · simp only [w₁, Function.update_of_ne hsuffix, List.mem_cons, hsuffix, false_or]

theorem connect_snapshot_passes (h : w.disk.snapshot = some s) :
    Prog.Passes (connect env .snapshot) w s.bytes w :=
  Prog.passes_call (by simp [Disk.entry, h])

theorem connect_destination_passes (h : w.disk.destination = some f) :
    Prog.Passes (connect env .destination) w f.bytes { w with disk := w.disk.opened env f.bytes } :=
  Prog.passes_call (by simp [Disk.entry, h])

theorem opened_opened (d : Disk) (bytes : Bytes) : (d.opened env bytes).opened env bytes = d.opened env bytes := by
  simp only [Disk.opened, Option.or_assoc, Option.or_self]

def ready (env : Outside) (w : World) (s old : File) : World :=
  ⟨{ w.disk with temporary := some (stagedFile env (env.fresh w.disk) s old) }, true⟩

theorem copyfileobj_passes (hs : w.disk.snapshot = some s) :
    Prog.Passes copyfileobj w () (onTemporary (fun f => { f with bytes := s.bytes }) w) :=
  Prog.passes_call (by simp only [hs])

theorem stage_passes (hs : w.disk.snapshot = some s) (old : File) :
    Prog.Passes (stage env old) w () (ready env w s old) := by
  apply Prog.passes_bind
  · apply Prog.passes_bind
    · apply Prog.passes_atomic
      rfl
    · exact Prog.passes_modify _ _
  apply Prog.passes_bind
  · exact copyfileobj_passes hs
  apply Prog.passes_bind
  · exact Prog.passes_look _ _
  apply Prog.passes_bind
  · apply Prog.passes_atomic
    rfl
  apply Prog.passes_atomic
  rfl

theorem recheck_passes (hr : Restorable env w.disk s old) :
    Prog.Passes (recheck env s.identity old.identity (identities w.disk suffixes)) w () w := by
  apply Prog.passes_bind (directFileIdentity_passes (p := .destination) hr.destination hr.oldDirect)
  rw [if_pos rfl]
  have hsame : Prog.Passes (do
      if (← directFileIdentity env .snapshot) = s.identity then
        let changed ← anyChanged env (identities w.disk suffixes)
        pure !changed
      else pure false : Restoring Bool) w true w := by
    apply Prog.passes_bind (directFileIdentity_passes (p := .snapshot) hr.snapshot hr.direct)
    rw [if_pos rfl]
    exact Prog.passes_bind (anyChanged_passes (identities_present hr.sidecars suffixes)) (Prog.passes_pure true w)
  apply Prog.passes_bind hsame
  rw [if_pos rfl]
  exact Prog.passes_pure () w

def replaced (env : Outside) (w : World) (s old : File) : World :=
  ⟨{ w.disk with destination := some (stagedFile env (env.fresh w.disk) s old), temporary := none }, false⟩

theorem replace_passes : Prog.Passes replace (ready env w s old) () (replaced env w s old) := by
  apply Prog.passes_bind
  · apply Prog.passes_atomic
    rfl
  exact Prog.passes_modify _ _

theorem restore_run {P : Restoring Unit → World → Prop} (hr : Restorable env d s old) (staged : Bool)
    (hbind : ∀ {α : Type} {p : Restoring α} {f : α → Restoring Unit} {a : α} {w w' : World},
      Prog.Passes p w a w' → P (f a) w' → P (p >>= f) w)
    (htry : P (tryFinally (copyAndReplace env s.identity old.identity old (identities d suffixes)) discardTemporary)
      ⟨d, false⟩) : P (restoreInfinidyskSqliteSnapshot env) ⟨d, staged⟩ := by
  have hsnapshot : Prog.Passes (connect env .snapshot) ⟨d, staged⟩ s.bytes ⟨d, staged⟩ :=
    connect_snapshot_passes hr.snapshot
  apply hbind (directFileIdentity_passes (w := ⟨d, staged⟩) (p := .snapshot) hr.snapshot hr.direct)
  apply hbind (validate_passes hsnapshot hsnapshot hr)
  apply hbind (directFileIdentity_passes (w := ⟨d, staged⟩) (p := .destination) hr.destination hr.oldDirect)
  apply hbind (Prog.passes_call (show _ = Except.ok (old, (⟨d, staged⟩ : World)) by
    simp [Disk.entry, hr.destination]))
  apply hbind (inspectSidecars_passes (w := ⟨d, staged⟩) hr.sidecars suffixes)
  apply hbind (Prog.passes_modify _ _)
  exact htry

theorem restore_canDie (hr : Restorable env d s old) (staged : Bool) {suffix : Suffix}
    (hf : d.sidecar suffix = some f) :
    Prog.CanDie (restoreInfinidyskSqliteSnapshot env) ⟨d, staged⟩ (replaced env ⟨d, false⟩ s old) := by
  apply restore_run (P := fun p w => Prog.CanDie p w (replaced env ⟨d, false⟩ s old)) hr staged Prog.Passes.canDie
  apply Prog.canDie_bind
  apply Prog.canDie_tryExcept
  apply (stage_passes (w := ⟨d, false⟩) hr.snapshot old).canDie
  have hready : Restorable env (ready env ⟨d, false⟩ s old).disk s old := ⟨hr.snapshot, hr.direct, hr.fingerprint,
    hr.inspected, hr.contract, hr.destination, hr.oldDirect, hr.sidecars⟩
  apply (recheck_passes hready).canDie
  apply replace_passes.canDie
  apply Prog.canDie_bind
  cases hsidecars : identities d suffixes with
  | nil =>
    have hmem := mem_identities hf
    rw [hsidecars] at hmem
    cases hmem
  | cons sidecar rest =>
    apply Prog.canDie_bind
    apply Prog.canDie_bind
    exact Prog.canDie_bind (Prog.canDie_call [])

theorem checkIntegrity_passes (hconnect : Prog.Passes (connect env .destination) w s.bytes w)
    (hpresent : (w.disk.entry .destination).isSome = true) (hhealthy : Healthy env s.bytes) :
    Prog.Passes (checkIntegrity env) w () w := by
  apply Prog.passes_bind
  · apply Prog.passes_bind (Prog.passes_look _ w)
    rw [if_pos hpresent]
    exact Prog.passes_bind hconnect (Prog.passes_pure _ w)
  apply Prog.passes_bind
  · rw [if_pos hhealthy.1]
    exact Prog.passes_bind hconnect (Prog.passes_pure _ w)
  rw [hhealthy.2]
  exact Prog.passes_pure () w

theorem discardTemporary_passes (w : World) : ∃ w', Prog.Passes discardTemporary w () w' ∧ Untouched w.disk w'.disk := by
  cases hstaged : w.staged with
  | false =>
    refine ⟨w, Prog.passes_bind (Prog.passes_get w) ?_, rfl, rfl⟩
    rw [if_neg (by simp [hstaged])]
    exact Prog.passes_pure () w
  | true =>
    refine ⟨{ w with disk := { w.disk with temporary := none } }, Prog.passes_bind (Prog.passes_get w) ?_, rfl, rfl⟩
    rw [if_pos hstaged]
    exact Prog.passes_atomic rfl

theorem tryFinally_passes {p : Restoring Unit} {q : Restoring Unit} {w₁ w₂ : World} (hp : Prog.Passes p w () w₁)
    (hq : Prog.Passes q w₁ () w₂) : Prog.Passes (tryFinally p q) w () w₂ :=
  Prog.passes_bind (Prog.passes_tryExcept hp) (Prog.passes_bind hq (Prog.passes_pure () w₂))

theorem copyAndReplace_passes (hr : Restorable env d s old) (hhealthy : Healthy env s.bytes) :
    ∃ w', Prog.Passes (copyAndReplace env s.identity old.identity old (identities d suffixes)) ⟨d, false⟩ () w' ∧
      w'.disk.destination = some (stagedFile env (env.fresh d) s old) ∧ w'.disk.sidecar = env.leaves s.bytes := by
  have hready : Restorable env (ready env ⟨d, false⟩ s old).disk s old := ⟨hr.snapshot, hr.direct, hr.fingerprint,
    hr.inspected, hr.contract, hr.destination, hr.oldDirect, hr.sidecars⟩
  obtain ⟨w₁, hremoved, hdestination, hsidecar⟩ := removeSidecars_passes env
    (w := replaced env ⟨d, false⟩ s old) (identities_present hr.sidecars suffixes) (identities_nodup d)
  have hnone : ∀ suffix, w₁.disk.sidecar suffix = none := by
    intro suffix
    rw [hsidecar]
    split
    · rfl
    · cases hsuffix : (replaced env ⟨d, false⟩ s old).disk.sidecar suffix with
      | none => rfl
      | some f =>
        have hmem : suffix ∈ (identities d suffixes).map Prod.fst := List.mem_map_of_mem (mem_identities hsuffix)
        contradiction
  let w₂ : World := { w₁ with disk := w₁.disk.opened env s.bytes }
  have hfirst : Prog.Passes (connect env .destination) w₁ s.bytes w₂ :=
    connect_destination_passes (f := stagedFile env (env.fresh d) s old) hdestination
  have hagain : Prog.Passes (connect env .destination) w₂ s.bytes w₂ := by
    have hstill : Prog.Passes (connect env .destination) w₂ s.bytes { w₂ with disk := w₂.disk.opened env s.bytes } :=
      connect_destination_passes (f := stagedFile env (env.fresh d) s old) hdestination
    rwa [show w₂.disk.opened env s.bytes = w₂.disk from
      opened_opened w₁.disk s.bytes] at hstill
  refine ⟨w₂, ?_, hdestination, ?_⟩
  · apply Prog.passes_bind (stage_passes (w := ⟨d, false⟩) hr.snapshot old)
    apply Prog.passes_bind (recheck_passes hready)
    apply Prog.passes_bind replace_passes
    apply Prog.passes_bind hremoved
    apply Prog.passes_bind (validate_passes hfirst hagain hr)
    exact checkIntegrity_passes hagain (by rw [show w₂.disk.entry .destination = _ from hdestination]; rfl) hhealthy
  · funext suffix
    change (w₁.disk.sidecar suffix).or (env.leaves s.bytes suffix) = _
    rw [hnone suffix, Option.none_or]

theorem restore_completes (hr : Restorable env d s old) (hhealthy : Healthy env s.bytes) (staged : Bool) :
    ∃ w', Prog.Passes (restoreInfinidyskSqliteSnapshot env) ⟨d, staged⟩ () w' ∧
      w'.disk.destination = some (stagedFile env (env.fresh d) s old) ∧ w'.disk.sidecar = env.leaves s.bytes := by
  obtain ⟨w₁, hpasses, hdestination, hsidecar⟩ := copyAndReplace_passes hr hhealthy
  obtain ⟨w₂, hdiscarded, huntouched⟩ := discardTemporary_passes w₁
  refine ⟨w₂, ?_, huntouched.1.trans hdestination, huntouched.2.trans hsidecar⟩
  exact restore_run (P := fun p w => Prog.Passes p w () w₂) hr staged Prog.passes_bind
    (tryFinally_passes hpasses hdiscarded)

end

theorem CrashAtomic.quiet {s old : File} (h : CrashAtomic env d) (hr : Restorable env d s old) {suffix : Suffix} {f : File}
    (hf : d.sidecar suffix = some f) : env.replays suffix f.bytes s.bytes = false := by
  obtain ⟨fates, hdied⟩ := restore_canDie hr false hf
  have hleft := (h false fates).1
  rw [hdied] at hleft
  rcases hleft with huntouched | ⟨s', f', hs', -, -, hquiet⟩
  · have hsame : stagedFile env (env.fresh d) s old = old := Option.some.inj (huntouched.1.trans hr.destination)
    exact absurd (congrArg File.identity hsame) (env.fresh_new d .destination old hr.destination)
  · rw [Option.some.inj (hr.snapshot.symm.trans hs')]
    exact hquiet suffix f hf hf

/-- A restore is crash-atomic just when no sidecar there is would be replayed onto the snapshot, and SQLite and the system
leave the restored file as it is. -/
theorem restore_crashAtomic_iff (env : Outside) (d : Disk) :
    CrashAtomic env d ↔ ∀ s old, Restorable env d s old → Harmless env d s old := by
  constructor
  · intro h s old hr
    constructor
    · intro suffix f hf
      exact h.quiet hr hf
    · intro hhealthy suffix
      obtain ⟨w, ⟨n, hpasses⟩, -, hsidecar⟩ := restore_completes hr hhealthy false
      obtain ⟨_, _, _, -, -, -, -, -, -, hnone⟩ := (h false _).2 w [] (hpasses [])
      rw [← hsidecar]
      exact hnone suffix
    · intro hhealthy
      obtain ⟨w, ⟨n, hpasses⟩, hdestination, -⟩ := restore_completes hr hhealthy false
      obtain ⟨_, old', f, -, hold, hf, -, -, hmode, -⟩ := (h false _).2 w [] (hpasses [])
      rw [hr.destination] at hold
      rw [hdestination] at hf
      cases hold
      cases hf
      exact hmode
  · intro h staged fates
    have hspec := restore_spec h staged
    have hall : ∀ f ∈ fates, anyFate f := fun _ _ => trivial
    constructor
    · have hwhole : Prog.wp anyFate (restoreInfinidyskSqliteSnapshot env) (fun _ w => Whole env d w.disk)
          (fun _ w => Whole env d w.disk) (fun w => Whole env d w.disk) ⟨d, staged⟩ :=
        Prog.wp_mono hspec (fun _ _ h => h.1) (fun _ _ h => h) fun _ h => h
      exact Prog.wp_state hwhole hall
    · intro w rest hdone
      exact (Prog.wp_done hspec hall hdone).2

/-! ## A log beside the restored file -/

def inode (f : Option File) : Nat := (f.map fun f => f.identity.2).getD 0

def replaying : Outside where
  snapshotName := "db.sqlite"
  destinationName := "db.sqlite"
  fresh d := ⟨(0, 1 + (inode d.snapshot + inode d.destination + inode (d.sidecar .wal) + inode (d.sidecar .shm) +
    inode (d.sidecar .journal))), true, 1, (0, 0), 0o600, []⟩
  fresh_new := by
    rintro d (_ | _ | _ | _ | _) f h <;> simp only [Disk.entry] at h <;> intro hsame <;>
      have hinode := congrArg Prod.snd hsame <;> simp only [h, inode, Option.map_some, Option.getD_some] at hinode <;> omega
  chownMode := id
  replays suffix _ _ := suffix = .wal
  leaves _ _ := none
  fingerprintMatches _ := true
  inspected _ := true
  contractMatches _ := true
  quickCheck _ := (true, "ok")
  foreignKeyViolations _ := false

def withLog : Disk where
  snapshot := some ⟨(0, 1), true, 1, (0, 0), 0o600, [1]⟩
  destination := some ⟨(0, 2), true, 1, (1000, 1000), 0o644, [2]⟩
  sidecar suffix := if suffix = .wal then some ⟨(0, 3), true, 1, (1000, 1000), 0o644, [3]⟩ else none
  temporary := none

theorem withLog_torn : ¬ CrashAtomic replaying withLog := by
  intro h
  have hr : Restorable replaying withLog ⟨(0, 1), true, 1, (0, 0), 0o600, [1]⟩
      ⟨(0, 2), true, 1, (1000, 1000), 0o644, [2]⟩ := by
    refine ⟨rfl, rfl, rfl, rfl, rfl, rfl, rfl, fun suffix f hf => ?_⟩
    simp only [withLog] at hf
    split_ifs at hf
    cases hf
    rfl
  have hlog : withLog.sidecar .wal = some ⟨(0, 3), true, 1, (1000, 1000), 0o644, [3]⟩ := rfl
  cases h.quiet hr hlog

end Dumb.Postgres.Snapshot
