import Dumb.Lib.Text
import Dumb.Lib.Upsert

/-!
# Arr instances in AltMount's configuration

`_upsert_arr_instance`, `_is_dumb_managed_arr_instance` and `_sync_arr_instances` from `utils/altmount_settings.py`.
-/

namespace Dumb.Arrs

open Py

structure ArrEntry where
  service : String
  name : String
  host : String
  token : Option String
  deriving DecidableEq

def ArrEntry.apiKey (entry : ArrEntry) : Json := (entry.token.map Json.str).getD .null

def ArrEntry.desired (entry : ArrEntry) : List (String × Json) :=
  [("name", .str entry.name), ("url", .str entry.host), ("api_key", entry.apiKey), ("enabled", .bool true)]

def matchesArr (entry : ArrEntry) (item : Json) : Bool :=
  item.isObj && ((item.field "name").pyEq (.str entry.name) || (item.field "url").pyEq (.str entry.host))

def amendKey (item : List (String × Json) × Bool) (m : String × Json) : List (String × Json) × Bool :=
  if ((Json.obj item.1).field m.1).pyEq m.2 then item else (Dict.set m.1 m.2 item.1, true)

def amendItem (entry : ArrEntry) : Json → Json × Bool
  | .obj members => (.obj (entry.desired.foldl amendKey (members, false)).1,
      (entry.desired.foldl amendKey (members, false)).2)
  | item => (item, false)

def upsertArrInstance (entry : ArrEntry) : List Json → List Json × Bool
  | [] => ([.obj entry.desired], true)
  | item :: items =>
    if matchesArr entry item then ((amendItem entry item).1 :: items, (amendItem entry item).2)
    else (item :: (upsertArrInstance entry items).1, (upsertArrInstance entry items).2)

section
variable (text : Text)

def isDumbManagedArrInstance (service : String) (item : Json) : Bool :=
  item.isObj && (service ++ ":").toList.isPrefixOf (text.orEmpty (item.field "name")).toList &&
    "http://127.0.0.1:".toList.isPrefixOf (text.orEmpty (item.field "url")).toList

def desiredEntries (service : String) (entries : List ArrEntry) : List ArrEntry :=
  entries.filter fun entry => entry.service = service

def retained (service : String) (entries : List ArrEntry) (instances : List Json) : List Json :=
  instances.filter fun item => !(isDumbManagedArrInstance text service item &&
    !(desiredEntries service entries).any fun entry => (item.field "name").pyEq (.str entry.name))

def syncArrInstances (service : String) (entries : List ArrEntry) (instances : List Json) : List Json × Bool :=
  let kept := retained text service entries instances
  (desiredEntries service entries).foldl
    (fun result entry => ((upsertArrInstance entry result.1).1, result.2 || (upsertArrInstance entry result.1).2))
    (kept, !(Json.arr kept).pyEq (.arr instances))

/-! ## What a synced list is -/

def isEntry (entry : ArrEntry) (item : Json) : Bool :=
  item.isObj && (item.field "name").pyEq (.str entry.name) && (item.field "url").pyEq (.str entry.host) &&
    (item.field "api_key").pyEq entry.apiKey

def isOperators (service : String) (entries : List ArrEntry) (item : Json) : Bool :=
  !isDumbManagedArrInstance text service item && !entries.any fun entry => (item.field "url").pyEq (.str entry.host)

structure Synced (service : String) (entries : List ArrEntry) (instances result : List Json) : Prop where
  once : ∀ entry ∈ entries, result.countP (isEntry entry) = 1
  managed : ∀ item ∈ result, isDumbManagedArrInstance text service item = true → ∃ entry ∈ entries, isEntry entry item = true
  operators : (instances.filter (isOperators text service entries)).Sublist result

end

def arrUpsert : Upsert Json ArrEntry where
  hits := matchesArr
  place entry item := (amendItem entry item).1
  fresh entry := .obj entry.desired

/-- Every entry claims in turn the first item with its name or its URL that is not claimed yet. -/
def WellClaimed (text : Text) (service : String) (entries : List ArrEntry) (items : List Json) : Prop :=
  ∀ m ∈ (arrUpsert.claims entries items).marks,
    (m.2.isNone = true → isDumbManagedArrInstance text service m.1 = false ∧ ∀ entry ∈ entries, isEntry entry m.1 = false) ∧
    (m.2.isSome = true → isOperators text service entries m.1 = false)

/-! ## Items and entries -/

theorem pyEq_str {j : Json} {s : String} : j.pyEq (.str s) = true ↔ j = .str s := by
  cases j <;> simp [Json.pyEq, Json.num]

theorem field_amendKey (item : List (String × Json) × Bool) (m : String × Json) :
    ((Json.obj (amendKey item m).1).field m.1).pyEq m.2 = true := by
  rw [amendKey]
  split
  · assumption
  · rw [Json.field_set, if_pos rfl]
    exact Json.pyEq_self m.2

theorem field_amendKey_ne (item : List (String × Json) × Bool) {m : String × Json} {k : String} (h : m.1 ≠ k) :
    (Json.obj (amendKey item m).1).field k = (Json.obj item.1).field k := by
  rw [amendKey]
  split
  · rfl
  · rw [Json.field_set, if_neg (Ne.symm h)]

theorem field_amendAll {ms : List (String × Json)} (hnodup : (Dict.keys ms).Nodup) (item : List (String × Json) × Bool)
    {m : String × Json} (hm : m ∈ ms) : ((Json.obj (ms.foldl amendKey item).1).field m.1).pyEq m.2 = true := by
  have hkeep (ms : List (String × Json)) (item : List (String × Json) × Bool) (h : m.1 ∉ Dict.keys ms) :
      (Json.obj (ms.foldl amendKey item).1).field m.1 = (Json.obj item.1).field m.1 := by
    induction ms generalizing item with
    | nil => rfl
    | cons q ms ih =>
      simp only [Dict.keys, List.map_cons, List.mem_cons, not_or] at h
      rw [List.foldl_cons, ih _ h.2, field_amendKey_ne item (Ne.symm h.1)]
  induction ms generalizing item with
  | nil => cases hm
  | cons q ms ih =>
    obtain ⟨hnot, hrest⟩ := List.nodup_cons.1 hnodup
    rw [List.foldl_cons]
    rcases List.mem_cons.1 hm with rfl | hm
    · rw [hkeep _ _ hnot]
      exact field_amendKey item m
    · exact ih hrest _ hm

theorem amendAll_again {ms : List (String × Json)} {item : List (String × Json) × Bool}
    (h : ∀ m ∈ ms, ((Json.obj item.1).field m.1).pyEq m.2 = true) : ms.foldl amendKey item = item := by
  induction ms with
  | nil => rfl
  | cons m ms ih =>
    rw [List.foldl_cons, amendKey, if_pos (h m List.mem_cons_self)]
    exact ih fun q hq => h q (List.mem_cons_of_mem _ hq)

theorem nodup_desired (entry : ArrEntry) : (Dict.keys entry.desired).Nodup := by
  simp only [Dict.keys, ArrEntry.desired, List.map_cons, List.map_nil]
  decide

def IsAmended (entry : ArrEntry) (item : Json) : Prop :=
  ∃ members, item = .obj members ∧ ∀ m ∈ entry.desired, ((Json.obj members).field m.1).pyEq m.2 = true

theorem isAmended_desired (entry : ArrEntry) : IsAmended entry (.obj entry.desired) := by
  refine ⟨_, rfl, fun m hm => ?_⟩
  rw [Json.field, Dict.get?_of_mem (nodup_desired entry) hm]
  exact Json.pyEq_self m.2

variable {entry : ArrEntry} {item : Json}

theorem isAmended_amendItem (h : item.isObj = true) :
    IsAmended entry (amendItem entry item).1 := by
  cases item with
  | obj members => exact ⟨_, rfl, fun m hm => field_amendAll (nodup_desired entry) _ hm⟩
  | _ => cases h

theorem amendItem_of_isAmended (h : IsAmended entry item) :
    amendItem entry item = (item, false) := by
  obtain ⟨members, rfl, hall⟩ := h
  rw [amendItem, amendAll_again hall]

theorem IsAmended.name (h : IsAmended entry item) :
    item.isObj = true ∧ item.field "name" = .str entry.name := by
  obtain ⟨members, rfl, hall⟩ := h
  exact ⟨rfl, pyEq_str.1 (hall ("name", .str entry.name) (by simp [ArrEntry.desired]))⟩

theorem IsAmended.url (h : IsAmended entry item) :
    item.field "url" = .str entry.host := by
  obtain ⟨members, rfl, hall⟩ := h
  exact pyEq_str.1 (hall ("url", .str entry.host) (by simp [ArrEntry.desired]))

theorem IsAmended.isEntry (h : IsAmended entry item) : isEntry entry item = true := by
  have hname := h.name
  have hurl := h.url
  obtain ⟨members, rfl, hall⟩ := h
  simp only [Arrs.isEntry, hname.1, hname.2, hurl, Json.pyEq, hall ("api_key", entry.apiKey) (by simp [ArrEntry.desired])]
  simp

theorem IsAmended.matchesArr {entry other : ArrEntry} (h : IsAmended other item) :
    matchesArr entry item = (decide (other.name = entry.name) || decide (other.host = entry.host)) := by
  simp only [Arrs.matchesArr, h.name.1, h.name.2, h.url, Json.pyEq, Bool.true_and]

theorem amendItem_not_obj (h : item.isObj = false) : amendItem entry item = (item, false) := by
  cases item with
  | obj members => cases h
  | _ => rfl

theorem apart {entry other : ArrEntry} (hname : other.name ≠ entry.name) (hhost : other.host ≠ entry.host) :
    arrUpsert.Apart entry other := by
  constructor
  · intro item
    cases hobj : item.isObj with
    | false => simp [arrUpsert, amendItem_not_obj hobj, matchesArr, hobj]
    | true =>
      simp only [arrUpsert]
      rw [(isAmended_amendItem hobj).matchesArr]
      simp [hname, hhost]
  · simp only [arrUpsert]
    rw [(isAmended_desired other).matchesArr]
    simp [hname, hhost]

theorem stable (entry : ArrEntry) : arrUpsert.Stable entry := by
  have hobj {item : Json} (h : matchesArr entry item = true) : item.isObj = true := by
    simp only [matchesArr, Bool.and_eq_true] at h
    exact h.1
  constructor
  · intro item hit
    simp only [arrUpsert] at hit ⊢
    rw [(isAmended_amendItem (hobj hit)).matchesArr]
    simp
  · intro item
    simp only [arrUpsert]
    cases hitem : item.isObj with
    | false => simp [amendItem_not_obj hitem]
    | true => rw [amendItem_of_isAmended (isAmended_amendItem hitem)]
  · simp only [arrUpsert]
    rw [(isAmended_desired entry).matchesArr]
    simp
  · simp only [arrUpsert]
    rw [amendItem_of_isAmended (isAmended_desired entry)]

theorem upsertArrInstance_eq (entry : ArrEntry) (items : List Json) :
    (upsertArrInstance entry items).1 = arrUpsert.put entry items := by
  induction items with
  | nil => rfl
  | cons item items ih =>
    rw [upsertArrInstance, Upsert.put]
    by_cases hit : matchesArr entry item = true
    · rw [if_pos hit]
      simp [arrUpsert, hit]
    · rw [if_neg hit]
      simp only [ih]
      simp [arrUpsert, hit]

/-! ## The list after a sync -/

section
variable {text : Text} {service : String} {entries : List ArrEntry} {instances : List Json}

theorem syncArrInstances_eq : (syncArrInstances text service entries instances).1 =
    arrUpsert.putAll (desiredEntries service entries) (retained text service entries instances) := by
  have hrun (ds : List ArrEntry) (result : List Json × Bool) : (ds.foldl
      (fun result entry => ((upsertArrInstance entry result.1).1, result.2 || (upsertArrInstance entry result.1).2))
      result).1 = arrUpsert.putAll ds result.1 := by
    induction ds generalizing result with
    | nil => rfl
    | cons d ds ih =>
      rw [List.foldl_cons, ih, Upsert.putAll, Upsert.putAll, List.foldl_cons, upsertArrInstance_eq]
  exact hrun _ _

theorem isAmended_place (h : arrUpsert.hits entry item = true) :
    IsAmended entry (arrUpsert.place entry item) := by
  simp only [arrUpsert, matchesArr, Bool.and_eq_true] at h ⊢
  exact isAmended_amendItem h.1

theorem upsertArrInstance_same {items : List Json} (h : arrUpsert.put entry items = items) :
    upsertArrInstance entry items = (items, false) := by
  induction items with
  | nil => cases h
  | cons item items ih =>
    rw [Upsert.put] at h
    rw [upsertArrInstance]
    by_cases hit : arrUpsert.hits entry item = true
    · rw [if_pos hit, List.cons.injEq] at h
      have hamended := isAmended_place hit
      rw [h.1] at hamended
      rw [if_pos (show matchesArr entry item = true from hit), amendItem_of_isAmended hamended]
    · rw [if_neg hit, List.cons.injEq] at h
      rw [if_neg (show ¬matchesArr entry item = true from hit), ih h.2]

structure OwnNames (entries : List ArrEntry) : Prop where
  names : (entries.map (·.name)).Nodup
  hosts : (entries.map (·.host)).Nodup

theorem OwnNames.nodup (h : OwnNames entries) : entries.Nodup := List.Nodup.of_map _ h.names

theorem OwnNames.apart (h : OwnNames entries) : ∀ d ∈ entries, ∀ e ∈ entries, e ≠ d → arrUpsert.Apart d e := by
  intro d hd e he hne
  refine Arrs.apart (fun hname => hne ?_) (fun hhost => hne ?_)
  · exact List.inj_on_of_nodup_map h.names he hd hname
  · exact List.inj_on_of_nodup_map h.hosts he hd hhost

theorem OwnNames.putAll_eq (h : OwnNames entries) (items : List Json) :
    arrUpsert.putAll entries items = arrUpsert.render (arrUpsert.claims entries items) := by
  apply Upsert.putAll_eq
  exact (List.Nodup.pairwise_of_forall_ne h.nodup fun e he d hd hne => h.apart d hd e he hne)

theorem isEntry_of_isAmended (h : OwnNames entries) {d e : ArrEntry} (hd : d ∈ entries) (he : e ∈ entries)
    (hitem : IsAmended e item) : isEntry d item = decide (e = d) := by
  by_cases heq : e = d
  · subst heq
    simp [hitem.isEntry]
  · have hname : e.name ≠ d.name := fun hname => heq (List.inj_on_of_nodup_map h.names he hd hname)
    simp [isEntry, hitem.name.2, Json.pyEq, hname, heq]

theorem isOperators_of_isAmended {e : ArrEntry} (he : e ∈ entries) (hitem : IsAmended e item) :
    isOperators text service entries item = false := by
  simp only [isOperators, Bool.and_eq_false_iff, Bool.not_eq_false']
  refine .inr (List.any_eq_true.2 ⟨e, he, ?_⟩)
  rw [hitem.url]
  exact Json.pyEq_self _

theorem synced_render_iff (h : OwnNames entries) (items : List Json) :
    ((∀ entry ∈ entries, (arrUpsert.render (arrUpsert.claims entries items)).countP (isEntry entry) = 1) ∧
      (∀ item ∈ arrUpsert.render (arrUpsert.claims entries items), isDumbManagedArrInstance text service item = true →
        ∃ entry ∈ entries, isEntry entry item = true) ∧
      (items.filter (isOperators text service entries)).Sublist (arrUpsert.render (arrUpsert.claims entries items))) ↔
      WellClaimed text service entries items := by
  have hafter := Upsert.after_claims (U := arrUpsert) entries items
  have hcount (entry : ArrEntry) (hentry : entry ∈ entries) :=
    Upsert.countP_render_self hafter h.nodup hentry (P := isEntry entry)
      (fun e he item hit => isEntry_of_isAmended h hentry he (isAmended_place hit))
      (fun e he => isEntry_of_isAmended h hentry he (isAmended_desired e))
  have hoperators := Upsert.filter_sublist_render hafter (P := isOperators text service entries)
    (fun e he item hit => isOperators_of_isAmended he (isAmended_place hit))
    (fun e he => isOperators_of_isAmended he (isAmended_desired e))
  constructor
  · rintro ⟨honce, hmanaged, hsub⟩ ⟨item, mark⟩ hm
    constructor
    · intro hnone
      rw [Option.isNone_iff_eq_none] at hnone
      subst hnone
      have hleft : ∀ entry ∈ entries, isEntry entry item = false := by
        intro entry hentry
        have hzero := hcount entry hentry
        rw [honce entry hentry] at hzero
        have hnone : (arrUpsert.claims entries items).marks.countP (fun m => m.2.isNone && isEntry entry m.1) = 0 := by omega
        have hitem := List.countP_eq_zero.1 hnone _ hm
        simpa using hitem
      refine ⟨?_, hleft⟩
      rw [Bool.eq_false_iff]
      intro hman
      have hin : item ∈ arrUpsert.render (arrUpsert.claims entries items) :=
        List.mem_append_left _ (List.mem_map.2 ⟨_, hm, rfl⟩)
      obtain ⟨entry, hentry, hitem⟩ := hmanaged item hin hman
      rw [hleft entry hentry] at hitem
      cases hitem
    · intro hsome
      obtain ⟨e, rfl⟩ := Option.isSome_iff_exists.1 hsome
      exact hoperators.1 hsub item e hm
  · intro hclaimed
    refine ⟨fun entry hentry => ?_, fun item hitem hman => ?_, ?_⟩
    · rw [hcount entry hentry, List.countP_eq_zero.2]
      intro m hm
      simp only [Bool.and_eq_true, not_and, Bool.not_eq_true]
      exact fun hnone => ((hclaimed m hm).1 hnone).2 entry hentry
    · rcases List.mem_append.1 hitem with hitem | hitem
      · obtain ⟨⟨a, mark⟩, hm, rfl⟩ := List.mem_map.1 hitem
        cases mark with
        | none =>
          have hleft := ((hclaimed _ hm).1 rfl).1
          rw [Upsert.renderMark] at hman
          rw [hman] at hleft
          cases hleft
        | some e =>
          have he : e ∈ entries := hafter.entries.subset (List.mem_append_left _ (List.mem_filterMap.2 ⟨_, hm, rfl⟩))
          exact ⟨e, he, (isAmended_place (hafter.hit a e hm)).isEntry⟩
      · obtain ⟨e, he, rfl⟩ := List.mem_map.1 hitem
        exact ⟨e, hafter.entries.subset (List.mem_append_right _ he), (isAmended_desired e).isEntry⟩
    · exact hoperators.2 fun a d hm => (hclaimed _ hm).2 rfl

theorem filter_retained : (retained text service entries instances).filter
    (isOperators text service (desiredEntries service entries)) =
      instances.filter (isOperators text service (desiredEntries service entries)) := by
  rw [retained, List.filter_filter]
  refine List.filter_congr fun item _ => ?_
  cases hman : isDumbManagedArrInstance text service item <;> simp [isOperators, hman]

theorem sync_again (h : OwnNames (desiredEntries service entries)) :
    syncArrInstances text service entries (syncArrInstances text service entries instances).1 =
      ((syncArrInstances text service entries instances).1, false) := by
  have hresult : (syncArrInstances text service entries instances).1 = arrUpsert.render
      (arrUpsert.claims (desiredEntries service entries) (retained text service entries instances)) := by
    rw [syncArrInstances_eq, h.putAll_eq]
  have hafter := Upsert.after_claims (U := arrUpsert) (desiredEntries service entries)
    (retained text service entries instances)
  have hwanted {entry : ArrEntry} (hentry : entry ∈ desiredEntries service entries) {item : Json}
      (hitem : IsAmended entry item) :
      ((desiredEntries service entries).any fun entry => (item.field "name").pyEq (.str entry.name)) = true := by
    refine List.any_eq_true.2 ⟨entry, hentry, ?_⟩
    rw [hitem.name.2]
    exact Json.pyEq_self _
  generalize (syncArrInstances text service entries instances).1 = result at hresult
  have hkept : retained text service entries result = result := by
    rw [retained, List.filter_eq_self]
    intro item hitem
    rw [hresult] at hitem
    rcases List.mem_append.1 hitem with hitem | hitem
    · obtain ⟨⟨a, mark⟩, hm, rfl⟩ := List.mem_map.1 hitem
      cases mark with
      | none =>
        have ha : a ∈ retained text service entries instances := by
          rw [← hafter.items]
          exact List.mem_map.2 ⟨_, hm, rfl⟩
        exact (List.mem_filter.1 ha).2
      | some e =>
        have he := hafter.entries.subset (List.mem_append_left _ (List.mem_filterMap.2 ⟨_, hm, rfl⟩))
        simp [Upsert.renderMark, hwanted he (isAmended_place (hafter.hit a e hm))]
    · obtain ⟨e, he, rfl⟩ := List.mem_map.1 hitem
      have he := hafter.entries.subset (List.mem_append_right _ he)
      simp [arrUpsert, hwanted he (isAmended_desired e)]
  have hsame (entry : ArrEntry) (hentry : entry ∈ desiredEntries service entries) :
      upsertArrInstance entry result = (result, false) := by
    apply upsertArrInstance_same
    rw [hresult]
    exact Upsert.put_again hafter h.nodup hentry (stable entry) (h.apart entry hentry)
  have hfold (ds : List ArrEntry) (hds : ∀ d ∈ ds, d ∈ desiredEntries service entries) : ds.foldl
      (fun result entry => ((upsertArrInstance entry result.1).1, result.2 || (upsertArrInstance entry result.1).2))
      (result, false) = (result, false) := by
    induction ds with
    | nil => rfl
    | cons d ds ih =>
      rw [List.foldl_cons, hsame d (hds d List.mem_cons_self), Bool.or_self]
      exact ih fun e he => hds e (List.mem_cons_of_mem _ he)
  simp only [syncArrInstances, hkept, Json.pyEq_self, Bool.not_true]
  exact hfold _ fun _ hd => hd

/-- After a sync the list is as it should be if and only if the entries claim well what has been retained. -/
theorem sync_arr_instances (text : Text) (service : String) (entries : List ArrEntry) (instances : List Json)
    (h : OwnNames (desiredEntries service entries)) :
    (Synced text service (desiredEntries service entries) instances
        (syncArrInstances text service entries instances).1 ∧
      syncArrInstances text service entries (syncArrInstances text service entries instances).1 =
        ((syncArrInstances text service entries instances).1, false)) ↔
      WellClaimed text service (desiredEntries service entries) (retained text service entries instances) := by
  rw [← synced_render_iff h, ← h.putAll_eq, ← syncArrInstances_eq, filter_retained]
  constructor
  · rintro ⟨⟨honce, hmanaged, hoperators⟩, -⟩
    exact ⟨honce, hmanaged, hoperators⟩
  · rintro ⟨honce, hmanaged, hoperators⟩
    exact ⟨⟨honce, hmanaged, hoperators⟩, sync_again h⟩

end

/-! ## Samples -/

instance (text : Text) (service : String) (entries : List ArrEntry) (items : List Json) :
    Decidable (WellClaimed text service entries items) := inferInstanceAs (Decidable (∀ _ ∈ _, _))

def arrItem (name url : String) : Json :=
  .obj [("name", .str name), ("url", .str url), ("api_key", .str "key"), ("enabled", .bool true)]

def sonarrEntries (tv anime : String) : List ArrEntry :=
  [⟨"sonarr", "sonarr:tv", tv, some "key"⟩, ⟨"sonarr", "sonarr:anime", anime, some "key"⟩]

def sonarrItems : List Json :=
  [arrItem "Remote" "https://sonarr.example.org", arrItem "sonarr:anime" "http://127.0.0.1:8990",
    arrItem "sonarr:tv" "http://127.0.0.1:8989"]

theorem sync_exchanged_ports : Synced .ascii "sonarr"
    (desiredEntries "sonarr" (sonarrEntries "http://127.0.0.1:8990" "http://127.0.0.1:8989")) sonarrItems
    (syncArrInstances .ascii "sonarr" (sonarrEntries "http://127.0.0.1:8990" "http://127.0.0.1:8989") sonarrItems).1 :=
  ((sync_arr_instances .ascii "sonarr" _ sonarrItems ⟨by decide, by decide⟩).2 (by decide +kernel)).1

/-- `tv` has moved to the port that `anime` had, and `anime` to a new one: an item `sonarr:tv` with the old port stays
behind. -/
theorem sync_moved_ports :
    ((syncArrInstances .ascii "sonarr" (sonarrEntries "http://127.0.0.1:8990" "http://127.0.0.1:8991")
      sonarrItems).1.map fun item => (Text.ascii.str (item.field "name"), Text.ascii.str (item.field "url"))) =
        [("Remote", "https://sonarr.example.org"), ("sonarr:tv", "http://127.0.0.1:8990"),
          ("sonarr:tv", "http://127.0.0.1:8989"), ("sonarr:anime", "http://127.0.0.1:8991")] ∧
    ¬Synced .ascii "sonarr"
      (desiredEntries "sonarr" (sonarrEntries "http://127.0.0.1:8990" "http://127.0.0.1:8991")) sonarrItems
      (syncArrInstances .ascii "sonarr" (sonarrEntries "http://127.0.0.1:8990" "http://127.0.0.1:8991") sonarrItems).1 := by
  have hown : OwnNames (desiredEntries "sonarr" (sonarrEntries "http://127.0.0.1:8990" "http://127.0.0.1:8991")) :=
    ⟨by decide, by decide⟩
  refine ⟨by decide +kernel, fun h => ?_⟩
  have hclaimed : WellClaimed .ascii "sonarr"
      (desiredEntries "sonarr" (sonarrEntries "http://127.0.0.1:8990" "http://127.0.0.1:8991"))
      (retained .ascii "sonarr" (sonarrEntries "http://127.0.0.1:8990" "http://127.0.0.1:8991") sonarrItems) := by
    rw [← synced_render_iff hown, ← hown.putAll_eq, ← syncArrInstances_eq, filter_retained]
    exact ⟨h.once, h.managed, h.operators⟩
  exact absurd hclaimed (by decide +kernel)

end Dumb.Arrs
