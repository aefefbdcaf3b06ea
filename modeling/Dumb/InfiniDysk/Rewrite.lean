import Dumb.InfiniDysk.Lemmas.Database
import Mathlib.Data.List.Forall2

/-!
# Rewriting the database

When `_migrate_infinidysk_database` succeeds, and what it then has made of the rows.
-/

namespace Dumb.InfiniDysk

open Py

def Mentions (value : String) : Prop := ∃ m, IsName m ∧ m <:+: value.toList

def GoesOn (word : Char → Bool) (c : Char) : Prop := word c = true ∨ c = '-' ∨ c = '.'

def Written (word : Char → Bool) (source pre post : List Char) (value : String) : Prop :=
  value.toList = pre ++ source ++ post ∧ (∀ c ∈ pre.getLast?, ¬ (c = '/' ∨ GoesOn word c)) ∧
    ∀ c ∈ post.head?, ¬ GoesOn word c

def SameBut (old new : List Char) : Prop :=
  new.map Char.toLower = (subFrom "infinidysk".toList 0 old).map Char.toLower

def Moved (destination pre post : List Char) (value : String) : Prop :=
  ∃ pre' post', value.toList = pre' ++ destination ++ post' ∧ SameBut pre pre' ∧ SameBut post post'

structure ConfigRewritten (word : Char → Bool) (old new : Row String) : Prop where
  key : new.id = old.id
  untouched : ¬ Mentions old.columns → new = old
  mapped : ∀ m ∈ namespacePathMappings, ∀ pre post,
    Written word m.1.toList pre post old.columns → Moved m.2.toList pre post new.columns

structure CategoryRewritten (old new : Row String) : Prop where
  key : new.id = old.id
  untouched : ¬ Mentions old.columns → new = old

structure DavRewritten (old new : Row DavItem) : Prop where
  key : new.id = old.id
  untouched : ¬ Mentions old.columns.path → ¬ Mentions old.columns.name → new = old
  named : old.columns.name = lastComponent old.columns.path → new.columns.name = lastComponent new.columns.path

namespace Database

variable (word : Char → Bool) (islower : String → Bool) (db : Database)

def texts : List String :=
  db.configItems.rows.map Row.columns ++ db.historyItems.rows.map Row.columns ++ db.queueItems.rows.map Row.columns ++
    db.davItems.rows.map (fun r => r.columns.path) ++ db.davItems.rows.map (fun r => r.columns.name)

def Named : Prop := ∀ r ∈ db.davItems.rows, r.columns.name = lastComponent r.columns.path

def Whole : Prop := ∀ text ∈ db.texts, InfiniDysk.Whole word text

def LowerPaths : Prop :=
  ∀ r ∈ db.configItems.rows, r.columns.toList.head? = some '/' ∨ islower r.columns = true ∨
    ∀ m ∈ namespacePathMappings, ∀ pre post, ¬ Written word m.1.toList pre post r.columns

end Database

structure Migrates (word : Char → Bool) (islower : String → Bool) (db : Database) : Prop where
  raised : ∀ message, (migrateInfinidyskDatabase word islower db).1 = .error message →
    (migrateInfinidyskDatabase word islower db).2 = db
  succeeds : db.Named → ∃ changed, (migrateInfinidyskDatabase word islower db).1 = .ok changed
  gone : ∀ changed new, migrateInfinidyskDatabase word islower db = (.ok changed, new) →
    ∀ text ∈ new.texts, ¬ Mentions text
  config : ∀ changed new, migrateInfinidyskDatabase word islower db = (.ok changed, new) →
    List.Forall₂ (ConfigRewritten word) db.configItems.rows new.configItems.rows
  categories : ∀ changed new, migrateInfinidyskDatabase word islower db = (.ok changed, new) →
    List.Forall₂ CategoryRewritten db.historyItems.rows new.historyItems.rows ∧
      List.Forall₂ CategoryRewritten db.queueItems.rows new.queueItems.rows
  dav : ∀ changed new, migrateInfinidyskDatabase word islower db = (.ok changed, new) →
    List.Forall₂ DavRewritten db.davItems.rows new.davItems.rows

/-! ## Names in texts -/

theorem likeFrom_iff (cs : List Char) : likeFrom cs = true ↔ ∃ m, IsName m ∧ m <:+: cs := by
  induction cs with
  | nil =>
    constructor
    · intro h
      cases h
    · rintro ⟨m, hm, hinfix⟩
      rw [List.infix_nil] at hinfix
      subst hinfix
      cases hm
  | cons c cs ih =>
    rw [likeFrom, Bool.or_eq_true, ih]
    constructor
    · rintro (hnamed | ⟨m, hm, hinfix⟩)
      · obtain ⟨m, rest, hm, hsplit⟩ := namedAt_split hnamed
        exact ⟨m, hm, hsplit ▸ (List.prefix_append m rest).isInfix⟩
      · exact ⟨m, hm, List.infix_cons hinfix⟩
    · rintro ⟨m, hm, hinfix⟩
      rcases List.infix_cons_iff.1 hinfix with ⟨rest, hrest⟩ | hinfix
      · exact .inl (hrest ▸ namedAt_name hm rest)
      · exact .inr ⟨m, hm, hinfix⟩

variable (value : String)

theorem like_iff : like value = true ↔ Mentions value := likeFrom_iff value.toList

theorem like_false_iff : like value = false ↔ ¬ Mentions value := by
  rw [← like_iff, Bool.not_eq_true]

/-! ## Mapped paths -/

section

variable {new : List Char}

theorem subFrom_lower (hnew : IsNew new) (cs : List Char) : SameBut cs (subFrom new 0 cs) := by
  induction cs using name_induction with
  | nil => rfl
  | name m rest hm ih =>
    rw [SameBut] at ih ⊢
    rw [subFrom_name hm, subFrom_name hm, List.map_append, List.map_append, ih, hnew]
    rfl
  | keep c cs hnamed ih =>
    rw [SameBut] at ih ⊢
    rw [subFrom_keep hnamed, subFrom_keep hnamed, List.map_cons, List.map_cons, ih]

theorem SameBut.length {old new : List Char} (h : SameBut old new) :
    new.length = (subFrom "infinidysk".toList 0 old).length := by
  simpa using congrArg List.length h

variable {mapping : String × String}

theorem subFrom_source (h : mapping ∈ namespacePathMappings) (display : Bool) :
    ∃ shown, (∀ rest, subFrom (token display) 0 (mapping.1.toList ++ rest) = shown ++ subFrom (token display) 0 rest) ∧
      shown.length = mapping.2.toList.length ∧ (shown = mapping.2.toList ↔ display = false) := by
  refine ⟨subFrom (token display) 0 mapping.1.toList, ?_⟩
  simp only [namespacePathMappings, List.mem_cons, List.not_mem_nil, or_false] at h
  rcases h with rfl | rfl | rfl | rfl | rfl <;> cases display <;> simp [subFrom, namedAt, token]

theorem subFrom_written (h : mapping ∈ namespacePathMappings) (display : Bool) :
    ∃ shown, (∀ pre post, subFrom (token display) 0 (pre ++ mapping.1.toList ++ post) =
      subFrom (token display) 0 pre ++ shown ++ subFrom (token display) 0 post) ∧
      shown.length = mapping.2.toList.length ∧ (shown = mapping.2.toList ↔ display = false) := by
  obtain ⟨shown, hshown, hlength, hsame⟩ := subFrom_source h display
  refine ⟨shown, ?_, hlength, hsame⟩
  intro pre post
  obtain ⟨tail, htail⟩ : ∃ tail, mapping.1.toList = '/' :: tail := by
    have hhead := (below_head h []).1
    rw [List.append_nil] at hhead
    exact List.head?_eq_some_iff.1 hhead
  have hsource := hshown post
  rw [htail, List.cons_append, subFrom_keep (namedAt_other (by decide) _)] at hsource
  rw [htail, List.append_assoc, List.cons_append, subFrom_slash, hsource, List.append_assoc]

theorem moved_iff (h : mapping ∈ namespacePathMappings) {display : Bool}
    {pre post : List Char} {value : String}
    (hvalue : value.toList = subFrom (token display) 0 (pre ++ mapping.1.toList ++ post)) :
    Moved mapping.2.toList pre post value ↔ display = false := by
  obtain ⟨shown, hshown, hlength, hsame⟩ := subFrom_written h display
  rw [hshown] at hvalue
  have hpre := subFrom_lower (token_isNew display) pre
  have hpost := subFrom_lower (token_isNew display) post
  constructor
  · rintro ⟨pre', post', hmoved, hpre', -⟩
    rw [hvalue, List.append_assoc, List.append_assoc] at hmoved
    have hrest := List.append_inj_right hmoved (hpre.length.trans hpre'.length.symm)
    exact hsame.1 (List.append_inj_left hrest hlength)
  · intro hdisplay
    rw [hsame.2 hdisplay] at hvalue
    exact ⟨_, _, hvalue, hpre, hpost⟩

end

/-! ## The rewritten rows -/

section

variable {word : Char → Bool} {islower : String → Bool}

def written (word : Char → Bool) (islower : String → Bool) (db : Database) : Database := (rewriteDatabase word islower db).2

theorem written_configItems (db : Database) : (written word islower db).configItems.rows =
    db.configItems.rows.map fun r => { r with columns := rewriteExternalText word islower r.columns } := by
  rw [written, rewriteDatabase]
  split <;> exact rewriteConfigItems_rows db.configItems

theorem rewriteCategories_rows (t : Table String) : (rewriteColumn word id (fun value _ => value) t).2.rows =
    t.rows.map fun r => { r with columns := rewriteField word r.columns } := by
  rw [rewriteColumn_rows]
  · rfl
  · intro c
    rfl

theorem written_historyItems (db : Database) : (written word islower db).historyItems.rows =
    db.historyItems.rows.map fun r => { r with columns := rewriteField word r.columns } := by
  rw [written, rewriteDatabase]
  split <;> exact rewriteCategories_rows db.historyItems

theorem written_queueItems (db : Database) : (written word islower db).queueItems.rows =
    db.queueItems.rows.map fun r => { r with columns := rewriteField word r.columns } := by
  rw [written, rewriteDatabase]
  split <;> exact rewriteCategories_rows db.queueItems

theorem written_davItems (db : Database) : (written word islower db).davItems.rows =
    db.davItems.rows.map fun r =>
      { r with columns := ⟨rewriteField word r.columns.path, rewriteField word r.columns.name⟩ } := by
  have hrows : (rewriteColumn word DavItem.name putName (rewriteColumn word DavItem.path putPath db.davItems).2).2.rows =
      db.davItems.rows.map fun r =>
        { r with columns := ⟨rewriteField word r.columns.path, rewriteField word r.columns.name⟩ } := by
    rw [rewriteColumn_rows (fun _ => rfl), rewriteColumn_rows (fun _ => rfl), List.map_map]
    rfl
  rw [written, rewriteDatabase]
  split <;> exact hrows

theorem residual_eq_none {ρ : Type} {name : String} {get : ρ → String} {t : Table ρ} :
    residual name get t = none ↔ ∀ r ∈ t.rows, like (get r.columns) = false := by
  simp only [residual, ite_eq_left_iff, reduceCtorEq, imp_false, not_not, List.countP_eq_zero, Bool.not_eq_true]

theorem residuals_eq_nil (db : Database) : residuals db = [] ↔ ∀ text ∈ db.texts, like text = false := by
  change List.filterMap id _ = [] ↔ _
  simp only [List.filterMap_eq_nil_iff, List.forall_mem_cons, List.not_mem_nil,
    false_implies, implies_true, and_true, id_eq, residual_eq_none, Database.texts, List.forall_mem_append, List.forall_mem_map]
  tauto

theorem like_rewriteField : like (rewriteField word value) = true ↔ ¬ Whole word value := by
  rw [like, toList_rewriteField, like_rewrite]

theorem like_rewriteExternalText :
    like (rewriteExternalText word islower value) = true ↔ ¬ Whole word value := by
  rw [like, toList_rewriteExternalText, like_rewrite]

theorem whole_iff_field : like (rewriteField word value) = false ↔ Whole word value := by
  rw [← Bool.not_eq_true, like_rewriteField, not_not]

theorem whole_iff_external :
    like (rewriteExternalText word islower value) = false ↔ Whole word value := by
  rw [← Bool.not_eq_true, like_rewriteExternalText, not_not]

theorem residuals_written (islower : String → Bool) (db : Database) : residuals (written word islower db) = [] ↔ db.Whole word := by
  simp only [residuals_eq_nil, Database.Whole, Database.texts, written_configItems, written_historyItems,
    written_queueItems, written_davItems, List.forall_mem_append, List.forall_mem_map, whole_iff_field, whole_iff_external]

theorem migrate_ok (islower : String → Bool) {db : Database} (h : db.Whole word) :
    ∃ changed, migrateInfinidyskDatabase word islower db = (.ok changed, written word islower db) := by
  have hresiduals := (residuals_written islower db).2 h
  simp only [written, rewriteDatabase] at hresiduals
  rw [migrateInfinidyskDatabase, written, rewriteDatabase]
  split_ifs at hresiduals ⊢ with hnone
  · exact ⟨_, rfl⟩
  · exact absurd hresiduals hnone

theorem migrate_error (islower : String → Bool) {db : Database} (h : ¬ db.Whole word) :
    ∃ message, migrateInfinidyskDatabase word islower db = (.error message, db) := by
  have hresiduals := mt (residuals_written islower db).1 h
  simp only [written, rewriteDatabase] at hresiduals
  rw [migrateInfinidyskDatabase, rewriteDatabase]
  split_ifs at hresiduals ⊢ with hnone
  · exact absurd hnone hresiduals
  · exact ⟨_, rfl⟩

theorem rewriteField_untouched {value : String} (h : ¬ Mentions value) : rewriteField word value = value :=
  rewriteField_of_not_like ((like_false_iff value).2 h)

theorem forall₂_map {ρ : Type} {R : Row ρ → Row ρ → Prop} {f : Row ρ → Row ρ} {rows : List (Row ρ)}
    (h : ∀ r ∈ rows, R r (f r)) : List.Forall₂ R rows (rows.map f) := by
  rw [List.forall₂_map_right_iff, List.forall₂_same]
  exact h

theorem categoryRewritten (r : Row String) :
    CategoryRewritten r { r with columns := rewriteField word r.columns } where
  key := rfl
  untouched h := by rw [rewriteField_untouched h]

theorem lastComponent_rewriteField {path : String} (h : Whole word path) (hlast : Whole word (lastComponent path)) :
    rewriteField word (lastComponent path) = lastComponent (rewriteField word path) := by
  have hpath := (toList_rewriteField word path).trans (rewrite_whole h)
  have hname := (toList_rewriteField word (lastComponent path)).trans (rewrite_whole hlast)
  rw [tokenOf, Bool.false_and] at hpath hname
  apply String.toList_inj.1
  rw [hname, lastComponent, lastComponent, hpath, String.toList_ofList, String.toList_ofList,
    rtakeWhile_subFrom (slash_notMem_token false)]

theorem davRewritten {r : Row DavItem} (hpath : Whole word r.columns.path) (hname : Whole word r.columns.name) :
    DavRewritten r { r with columns := ⟨rewriteField word r.columns.path, rewriteField word r.columns.name⟩ } where
  key := rfl
  untouched hpath hname := by rw [rewriteField_untouched hpath, rewriteField_untouched hname]
  named h := by
    change rewriteField word r.columns.name = lastComponent (rewriteField word r.columns.path)
    rw [h] at hname
    rw [h, lastComponent_rewriteField hpath hname]

theorem configRewritten_iff {r : Row String} (h : Whole word r.columns) :
    ConfigRewritten word r { r with columns := rewriteExternalText word islower r.columns } ↔
      r.columns.toList.head? = some '/' ∨ islower r.columns = true ∨
        ∀ m ∈ namespacePathMappings, ∀ pre post, ¬ Written word m.1.toList pre post r.columns := by
  have hrewritten := (toList_rewriteExternalText word islower r.columns).trans (rewrite_whole h)
  have hmoved : ∀ m ∈ namespacePathMappings, ∀ pre post, Written word m.1.toList pre post r.columns →
      (Moved m.2.toList pre post (rewriteExternalText word islower r.columns) ↔
        r.columns.toList.head? = some '/' ∨ islower r.columns = true) := by
    intro m hm pre post hwritten
    obtain ⟨display, hdisplay⟩ : ∃ display, display = (!islower r.columns && r.columns.toList.head? ≠ some '/') :=
      ⟨_, rfl⟩
    rw [tokenOf, ← hdisplay, hwritten.1] at hrewritten
    rw [moved_iff hm hrewritten, hdisplay, Bool.and_eq_false_iff, Bool.not_eq_false', decide_eq_false_iff_not, not_not,
      or_comm]
  constructor
  · intro hconfig
    by_cases hnone : ∀ m ∈ namespacePathMappings, ∀ pre post, ¬ Written word m.1.toList pre post r.columns
    · exact .inr (.inr hnone)
    · push Not at hnone
      obtain ⟨m, hm, pre, post, hwritten⟩ := hnone
      rcases (hmoved m hm pre post hwritten).1 (hconfig.mapped m hm pre post hwritten) with hpath | hlower
      · exact .inl hpath
      · exact .inr (.inl hlower)
  · intro hcondition
    refine ⟨rfl, fun hnone => by rw [rewriteExternalText_of_not_like ((like_false_iff _).2 hnone)], ?_⟩
    intro m hm pre post hwritten
    rw [hmoved m hm pre post hwritten]
    rcases hcondition with hpath | hlower | hnone
    · exact .inl hpath
    · exact .inr hlower
    · exact absurd hwritten (hnone m hm pre post)

end

/-- Where each `Name` is the last component of its `Path` the migration succeeds just when the name is a whole word
wherever it stands outside a path. -/
theorem database_migrates_iff (word : Char → Bool) (islower : String → Bool) (db : Database) :
    Migrates word islower db ↔ (db.Named → db.Whole word) ∧ (db.Whole word → db.LowerPaths word islower) := by
  constructor
  · intro h
    constructor
    · intro hnamed
      by_contra hwhole
      obtain ⟨changed, hok⟩ := h.succeeds hnamed
      obtain ⟨message, herror⟩ := migrate_error islower hwhole
      rw [herror] at hok
      cases hok
    · intro hwhole r hr
      obtain ⟨changed, hok⟩ := migrate_ok islower hwhole
      have hrows := h.config changed _ hok
      rw [written_configItems, List.forall₂_map_right_iff, List.forall₂_same] at hrows
      have htext : r.columns ∈ db.texts := by simp [Database.texts, List.mem_map_of_mem hr]
      exact (configRewritten_iff (hwhole _ htext)).1 (hrows r hr)
  · rintro ⟨hnamed, hlower⟩
    have hsuccess : ∀ changed new, migrateInfinidyskDatabase word islower db = (.ok changed, new) →
        db.Whole word ∧ new = written word islower db := by
      intro changed new hok
      by_cases hwhole : db.Whole word
      · obtain ⟨changed', hok'⟩ := migrate_ok islower hwhole
        rw [hok'] at hok
        exact ⟨hwhole, (congrArg Prod.snd hok).symm⟩
      · obtain ⟨message, herror⟩ := migrate_error islower hwhole
        rw [herror] at hok
        cases hok
    constructor
    · intro message herror
      by_cases hwhole : db.Whole word
      · obtain ⟨changed, hok⟩ := migrate_ok islower hwhole
        rw [hok] at herror
        cases herror
      · obtain ⟨_, herror'⟩ := migrate_error islower hwhole
        rw [herror']
    · intro h
      obtain ⟨changed, hok⟩ := migrate_ok islower (hnamed h)
      exact ⟨changed, by rw [hok]⟩
    · intro changed new hok text htext
      obtain ⟨hwhole, rfl⟩ := hsuccess changed new hok
      exact (like_false_iff text).1 ((residuals_eq_nil _).1 ((residuals_written islower db).2 hwhole) text htext)
    · intro changed new hok
      obtain ⟨hwhole, rfl⟩ := hsuccess changed new hok
      rw [written_configItems]
      apply forall₂_map
      intro r hr
      have htext : r.columns ∈ db.texts := by simp [Database.texts, List.mem_map_of_mem hr]
      exact (configRewritten_iff (hwhole _ htext)).2 (hlower hwhole r hr)
    · intro changed new hok
      obtain ⟨hwhole, rfl⟩ := hsuccess changed new hok
      rw [written_historyItems, written_queueItems]
      exact ⟨forall₂_map fun r _ => categoryRewritten r, forall₂_map fun r _ => categoryRewritten r⟩
    · intro changed new hok
      obtain ⟨hwhole, rfl⟩ := hsuccess changed new hok
      rw [written_davItems]
      apply forall₂_map
      intro r hr
      apply davRewritten
      · exact hwhole _ (by simp [Database.texts, List.mem_map_of_mem (f := fun r : Row DavItem => r.columns.path) hr])
      · exact hwhole _ (by simp [Database.texts, List.mem_map_of_mem (f := fun r : Row DavItem => r.columns.name) hr])

/-- A path embedded in a value with upper-case letters does not become the one it is moved to. -/
example : rewriteExternalText (fun c => c.isAlphanum || c = '_') (fun value => !value.toList.any Char.isUpper)
    "Path=/data/nzbdav/x" = "Path=/data/InfiniDysk/x" := by decide +kernel

def longerWord : Database where
  configItems := ⟨[], List.nodup_nil⟩
  historyItems := ⟨[], List.nodup_nil⟩
  queueItems := ⟨[], List.nodup_nil⟩
  davItems := ⟨[⟨"1", "/content/mynzbdav", "mynzbdav"⟩], by decide⟩

/-- Its path is rewritten, its name is not, and the residual check raises. -/
theorem longerWord_raises : ¬ Migrates (fun c => c.isAlphanum || c = '_')
    (fun value => value.toList.any Char.isLower && !value.toList.any Char.isUpper) longerWord := by
  intro h
  have hnamed : longerWord.Named := by
    intro r hr
    cases List.mem_singleton.1 hr
    decide
  have hraised : (migrateInfinidyskDatabase (fun c => c.isAlphanum || c = '_')
      (fun value => value.toList.any Char.isLower && !value.toList.any Char.isUpper) longerWord).1 =
      .error "InfiniDysk database still contains legacy namespace records: DavItems.Name: 1" := by
    decide +kernel
  obtain ⟨changed, hok⟩ := h.succeeds hnamed
  rw [hraised] at hok
  cases hok

end Dumb.InfiniDysk
