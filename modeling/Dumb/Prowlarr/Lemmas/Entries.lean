import Mathlib.Data.List.Dedup
import Dumb.Lib.Binary
import Dumb.Prowlarr.Applications

/-!
# Tags, fields and hosts

The tags that a run adds come to the same map in the next run; ports make the hosts of entries differ.
-/

namespace Dumb.Prowlarr

open Py

variable {text : Text}

/-! ## Tags -/

def norm (text : Text) (label : String) : String := text.lower (text.strip label)

theorem norm_plain {s : String} (h : Plain s) : norm text s = asciiLower s := by
  rw [norm, text.strip_plain h, text.lower_plain h]

def extend (tagMap : Dict String Nat) (new : Dict Nat String) : Dict String Nat :=
  new.foldl (fun tagMap tag => tagMap.set tag.2 tag.1) tagMap

variable {k : String}

theorem get?_extend_other : ∀ {new : Dict Nat String} {m : Dict String Nat}, (∀ tag ∈ new, tag.2 ≠ k) →
    Dict.get? k (extend m new) = Dict.get? k m
  | [], _, _ => rfl
  | tag :: new, m, h => by
    have ih := get?_extend_other (m := m.set tag.2 tag.1) fun t ht => h t (List.mem_cons_of_mem _ ht)
    rw [extend, List.foldl_cons]
    rw [extend] at ih
    rw [ih, Dict.get?_set_ne (h tag List.mem_cons_self).symm]

theorem get?_extend_congr : ∀ {new : Dict Nat String} {m n : Dict String Nat},
    Dict.get? k m = Dict.get? k n → Dict.get? k (extend m new) = Dict.get? k (extend n new)
  | [], _, _, h => h
  | tag :: new, m, n, h => by
    apply get?_extend_congr (m := m.set tag.2 tag.1) (n := n.set tag.2 tag.1)
    rw [Dict.get?_set, Dict.get?_set, h]

theorem labelled_append (tags : Dict Nat String) : ∀ {new : Dict Nat String},
    (∀ tag ∈ new, norm text tag.2 = tag.2 ∧ tag.2 ≠ "") → labelled text (tags ++ new) = extend (labelled text tags) new := by
  intro new h
  rw [labelled, List.foldl_append, ← labelled, extend]
  generalize labelled text tags = tagMap
  induction new generalizing tagMap with
  | nil => rfl
  | cons tag new ih =>
    obtain ⟨hnorm, hne⟩ := h tag List.mem_cons_self
    have hlabel : text.lower (text.strip tag.2) = tag.2 := hnorm
    rw [List.foldl_cons, List.foldl_cons, hlabel, if_neg hne]
    exact ih (fun t ht => h t (List.mem_cons_of_mem _ ht)) _

def Normal (text : Text) (labels : List String) : Prop := ∀ label ∈ labels, norm text label = label ∧ label ≠ ""

structure Ensured (labels : List String) (before after : Dict String Nat × Session text) (new : Dict Nat String) : Prop where
  tagMap : after.1 = extend before.1 new
  tags : after.2.store.tags = before.2.store.tags ++ new
  apps : after.2.store.apps = before.2.store.apps
  writes : after.2.writes.filter Write.isApplication = before.2.writes.filter Write.isApplication
  new_labels : ∀ tag ∈ new, tag.2 ∈ labels ∧ Dict.get? tag.2 before.1 = none
  present : ∀ label ∈ labels, Dict.get? label after.1 ≠ none

theorem extend_present {new : Dict Nat String} : ∀ {m : Dict String Nat}, Dict.get? k m ≠ none →
    Dict.get? k (extend m new) ≠ none := by
  induction new with
  | nil => exact fun h => h
  | cons tag new ih =>
    intro m h
    apply ih (m := m.set tag.2 tag.1)
    rw [Dict.get?_set]
    split
    · simp
    · exact h

theorem extend_there : ∀ {new : Dict Nat String} {tag : Nat × String} {m : Dict String Nat}, tag ∈ new →
    tag.2 = k → Dict.get? k (extend m new) ≠ none
  | tag :: new, tag', m, hmem, heq => by
    rcases List.mem_cons.1 hmem with rfl | hmem
    · exact extend_present (m := m.set tag'.2 tag'.1) (by rw [heq, Dict.get?_set_self]; simp)
    · exact extend_there (m := m.set tag.2 tag.1) hmem heq

theorem ensured : ∀ {labels : List String} {s : Dict String Nat × Session text}, Normal text labels →
    ∃ new, Ensured labels s (labels.foldl ensureTag s) new
  | [], s, _ => ⟨[], rfl, by simp, rfl, rfl, by simp, by simp⟩
  | label :: labels, s, h => by
    obtain ⟨hnorm, hne⟩ := h label List.mem_cons_self
    have hlabel : text.lower (text.strip label) = label := hnorm
    obtain ⟨new, hnew⟩ := ensured (s := ensureTag s label) fun l hl => h l (List.mem_cons_of_mem _ hl)
    rw [List.foldl_cons]
    by_cases hsome : (Dict.get? label s.1).isSome
    · have hsame : ensureTag s label = s := by
        rw [ensureTag, hlabel, if_pos (.inr hsome)]
      rw [hsame] at hnew ⊢
      refine ⟨new, hnew.tagMap, hnew.tags, hnew.apps, hnew.writes, ?_, ?_⟩
      · exact fun tag htag => ⟨List.mem_cons_of_mem _ (hnew.new_labels tag htag).1, (hnew.new_labels tag htag).2⟩
      · intro l hl
        rcases List.mem_cons.1 hl with rfl | hl
        · rw [hnew.tagMap]
          exact extend_present (Option.isSome_iff_ne_none.1 hsome)
        · exact hnew.present l hl
    · have hadd : ensureTag s label = (s.1.set label (fresh s.2.store.tags),
          { store := s.2.store.addTag label, writes := s.2.writes ++ [.postTag label] }) := by
        rw [ensureTag, hlabel, if_neg (by simpa [hne] using hsome)]
      rw [hadd] at hnew ⊢
      have hnone : Dict.get? label s.1 = none := by simpa using hsome
      refine ⟨(fresh s.2.store.tags, label) :: new, hnew.tagMap, ?_, hnew.apps, ?_, ?_, ?_⟩
      · rw [hnew.tags, Store.addTag, List.append_assoc, List.singleton_append]
      · rw [hnew.writes, List.filter_append]
        simp [Write.isApplication]
      · intro tag htag
        rcases List.mem_cons.1 htag with rfl | htag
        · exact ⟨List.mem_cons_self, hnone⟩
        · obtain ⟨hmem, hget⟩ := hnew.new_labels tag htag
          rw [Dict.get?_set] at hget
          split at hget
          · cases hget
          · exact ⟨List.mem_cons_of_mem _ hmem, hget⟩
      · intro l hl
        rcases List.mem_cons.1 hl with rfl | hl
        · rw [hnew.tagMap]
          exact extend_present (by simp)
        · exact hnew.present l hl

theorem ensureTags_present : ∀ {labels : List String} {s : Dict String Nat × Session text}, Normal text labels →
    (∀ label ∈ labels, Dict.get? label s.1 ≠ none) → labels.foldl ensureTag s = s
  | [], _, _, _ => rfl
  | label :: labels, s, h, hall => by
    have hlabel : text.lower (text.strip label) = label := (h label List.mem_cons_self).1
    have hsame : ensureTag s label = s := by
      rw [ensureTag, hlabel, if_pos (.inr (Option.isSome_iff_ne_none.2 (hall label List.mem_cons_self)))]
    rw [List.foldl_cons, hsame]
    exact ensureTags_present (fun l hl => h l (List.mem_cons_of_mem _ hl)) fun l hl => hall l (List.mem_cons_of_mem _ hl)

def aliasesOf (legacy : Bool) : Dict String String := if legacy then [("infinidysk", "nzbdav")] else []

def known (text : Text) (legacy : Bool) (tags : Dict Nat String) : Dict String Nat :=
  (aliasesOf legacy).foldl (addAlias text) (labelled text tags)

theorem get?_addAlias {tagMap : Dict String Nat} (k : String) :
    Dict.get? k (addAlias text tagMap ("infinidysk", "nzbdav")) =
      if k = "infinidysk" ∧ Dict.get? "infinidysk" tagMap = none then Dict.get? "nzbdav" tagMap else Dict.get? k tagMap := by
  have hlabel : text.lower (text.strip "infinidysk") = "infinidysk" := norm_plain (by decide)
  have halias : text.lower (text.strip "nzbdav") = "nzbdav" := norm_plain (by decide)
  rw [addAlias, hlabel, halias]
  cases hid : Dict.get? "nzbdav" tagMap with
  | none =>
    by_cases hk : k = "infinidysk" ∧ Dict.get? "infinidysk" tagMap = none
    · rw [if_pos hk, hk.1, hk.2]
    · rw [if_neg hk]
  | some id =>
    cases hnone : Dict.get? "infinidysk" tagMap with
    | none => simp [Dict.get?_set]
    | some id' => simp

variable {legacy : Bool}

theorem known_append {tags new : Dict Nat String}
    (hnormal : ∀ tag ∈ new, norm text tag.2 = tag.2 ∧ tag.2 ≠ "") (hnzbdav : ∀ tag ∈ new, tag.2 ≠ "nzbdav")
    (hnew : ∀ tag ∈ new, Dict.get? tag.2 (known text legacy tags) = none) (k : String) :
    Dict.get? k (known text legacy (tags ++ new)) = Dict.get? k (extend (known text legacy tags) new) := by
  unfold known aliasesOf at *
  cases legacy with
  | false =>
    simp only [Bool.false_eq_true, if_false, List.foldl_nil, labelled_append tags hnormal]
  | true =>
    simp only [if_true, List.foldl_cons, List.foldl_nil, labelled_append tags hnormal] at hnew ⊢
    rw [get?_addAlias, get?_extend_other hnzbdav]
    have hother : k ≠ "infinidysk" → Dict.get? k (extend (labelled text tags) new) =
        Dict.get? k (extend (addAlias text (labelled text tags) ("infinidysk", "nzbdav")) new) := fun hk =>
      get?_extend_congr (by rw [get?_addAlias, if_neg fun h => hk h.1])
    by_cases hk : k = "infinidysk"
    · subst hk
      by_cases hthere : ∀ tag ∈ new, tag.2 ≠ "infinidysk"
      · rw [get?_extend_other hthere, get?_extend_other hthere, get?_addAlias]
      · -- A new tag of the label itself: neither it nor the alias was known.
        obtain ⟨tag, htag, heq⟩ : ∃ tag ∈ new, tag.2 = "infinidysk" := by simpa using hthere
        have hnone := hnew tag htag
        rw [heq, get?_addAlias] at hnone
        have hlabel : Dict.get? "infinidysk" (labelled text tags) = none := by
          by_contra hlabel
          rw [if_neg fun h => hlabel h.2] at hnone
          exact hlabel hnone
        rw [if_pos ⟨rfl, hlabel⟩] at hnone
        rw [if_neg fun h => extend_there htag heq h.2]
        apply get?_extend_congr
        rw [get?_addAlias, if_pos ⟨rfl, hlabel⟩, hlabel, hnone]
    · rw [if_neg fun h => hk h.1]
      exact hother hk

/-! ## What a tag map says -/

variable {id : Nat}

theorem mem_of_labelled {tags : Dict Nat String} (h : Dict.get? k (labelled text tags) = some id) :
    ∃ label, (id, label) ∈ tags ∧ norm text label = k := by
  have hfold : ∀ (tags : Dict Nat String) (m : Dict String Nat), Dict.get? k (tags.foldl (fun tagMap tag =>
      let label := text.lower (text.strip tag.2)
      if label = "" then tagMap else tagMap.set label tag.1) m) = some id →
        Dict.get? k m = some id ∨ ∃ label, (id, label) ∈ tags ∧ norm text label = k := by
    intro tags
    induction tags with
    | nil => exact fun _ h => .inl h
    | cons tag tags ih =>
      intro m h
      rcases ih _ h with h | ⟨label, hmem, heq⟩
      · dsimp only at h
        split at h
        · exact .inl h
        · rw [Dict.get?_set] at h
          split at h
          · next hk => exact .inr ⟨tag.2, by simp [← Option.some.inj h], hk.symm⟩
          · exact .inl h
      · exact .inr ⟨label, List.mem_cons_of_mem _ hmem, heq⟩
  rcases hfold tags [] h with h | h
  · cases h
  · exact h

theorem mem_of_extend : ∀ {new : Dict Nat String} {m : Dict String Nat},
    Dict.get? k (extend m new) = some id → Dict.get? k m = some id ∨ (id, k) ∈ new
  | [], _, h => .inl h
  | tag :: new, m, h => by
    rcases mem_of_extend (m := m.set tag.2 tag.1) h with h | h
    · rw [Dict.get?_set] at h
      split at h
      · next hk => exact .inr (by simp [← Option.some.inj h, hk])
      · exact .inl h
    · exact .inr (List.mem_cons_of_mem _ h)

def IsTagOf (text : Text) (legacy : Bool) (tags : Dict Nat String) (svc : String) (id : Nat) : Prop :=
  ∃ label, (id, label) ∈ tags ∧ (norm text label = svc ∨ legacy = true ∧ svc = "infinidysk" ∧ norm text label = "nzbdav")

theorem tag_of_known {tags : Dict Nat String} {svc : String}
    (h : Dict.get? svc (known text legacy tags) = some id) : IsTagOf text legacy tags svc id := by
  unfold known aliasesOf at h
  cases legacy with
  | false =>
    obtain ⟨label, hmem, heq⟩ := mem_of_labelled h
    exact ⟨label, hmem, .inl heq⟩
  | true =>
    simp only [if_true, List.foldl_cons, List.foldl_nil] at h
    rw [get?_addAlias] at h
    split at h
    · next hk =>
      obtain ⟨label, hmem, heq⟩ := mem_of_labelled h
      exact ⟨label, hmem, .inr ⟨rfl, hk.1, heq⟩⟩
    · obtain ⟨label, hmem, heq⟩ := mem_of_labelled h
      exact ⟨label, hmem, .inl heq⟩

theorem tag_of_extend {tags new : Dict Nat String} {svc : String}
    (hnormal : ∀ tag ∈ new, norm text tag.2 = tag.2 ∧ tag.2 ≠ "")
    (h : Dict.get? svc (extend (known text legacy tags) new) = some id) : IsTagOf text legacy (tags ++ new) svc id := by
  rcases mem_of_extend h with h | h
  · obtain ⟨label, hmem, heq⟩ := tag_of_known h
    exact ⟨label, List.mem_append_left _ hmem, heq⟩
  · exact ⟨svc, List.mem_append_right _ h, .inl (hnormal _ h).1⟩

/-! ## Fields -/

variable {fields : List (String × Json)}

theorem get?_lowered {v : Json} (h : ∀ f ∈ fields, text.lower f.1 = k → f.2 = v)
    (hk : k ∈ fields.map fun f => text.lower f.1) : Dict.get? k (lowered text fields) = some v := by
  rw [lowered]
  generalize ([] : Dict String Json) = start
  induction fields generalizing start with
  | nil => exact absurd hk List.not_mem_nil
  | cons f fields ih =>
    rw [List.foldl_cons]
    by_cases hrest : k ∈ fields.map fun f => text.lower f.1
    · exact ih (fun f' hf' => h f' (List.mem_cons_of_mem _ hf')) hrest _
    · obtain rfl : k = text.lower f.1 := by
        rcases List.mem_cons.1 hk with hk | hk
        · exact hk
        · exact absurd hk hrest
      have hlast : ∀ (fields : List (String × Json)) (start : Dict String Json),
          text.lower f.1 ∉ fields.map (fun f => text.lower f.1) →
            Dict.get? (text.lower f.1) (fields.foldl (fun d f => d.set (text.lower f.1) f.2) start) =
              Dict.get? (text.lower f.1) start := by
        intro fields
        induction fields with
        | nil => exact fun _ _ => rfl
        | cons g fields ih =>
          intro start hnot
          rw [List.map_cons, List.mem_cons, not_or] at hnot
          rw [List.foldl_cons, ih _ hnot.2, Dict.get?_set_ne hnot.1]
      rw [hlast fields _ hrest, Dict.get?_set_self, h f List.mem_cons_self rfl]

theorem mem_lowered {m : String × Json} (h : m ∈ lowered text fields) :
    ∃ f ∈ fields, (text.lower f.1, f.2) = m := by
  have hmem : ∀ (fields : List (String × Json)) (start : Dict String Json),
      m ∈ fields.foldl (fun d f => d.set (text.lower f.1) f.2) start →
        m ∈ start ∨ ∃ f ∈ fields, (text.lower f.1, f.2) = m := by
    intro fields
    induction fields with
    | nil => exact fun _ h => .inl h
    | cons f fields ih =>
      intro start h
      rcases ih _ h with h | ⟨f', hf', heq⟩
      · rcases Dict.mem_set h with heq | h
        · exact .inr ⟨f, List.mem_cons_self, heq.symm⟩
        · exact .inl h
      · exact .inr ⟨f', List.mem_cons_of_mem _ hf', heq⟩
  rcases hmem fields [] h with h | h
  · exact absurd h List.not_mem_nil
  · exact h

theorem nodup_lowered (fields : List (String × Json)) : (Dict.keys (lowered text fields)).Nodup := by
  have hfold : ∀ (fields : List (String × Json)) (start : Dict String Json), (Dict.keys start).Nodup →
      (Dict.keys (fields.foldl (fun d f => d.set (text.lower f.1) f.2) start)).Nodup := by
    intro fields
    induction fields with
    | nil => exact fun _ h => h
    | cons f fields ih => exact fun start h => ih _ (Dict.nodup_keys_set h)
  exact hfold fields [] (by simp [Dict.keys])

theorem eq_of_pyEq_str {j : Json} {s : String} (h : j.pyEq (.str s) = true) : j = .str s := by
  cases j with
  | str t =>
    rw [Json.pyEq, decide_eq_true_eq] at h
    rw [h]
  | _ => simp [Json.pyEq, Json.num] at h

/-! ## Hosts -/

theorem host_chars (entry : ArrEntry) : entry.host.toList = "http://127.0.0.1:".toList ++ (toString entry.port).toList :=
  String.toList_append

theorem rstrip_host (entry : ArrEntry) : rstrip entry.host = entry.host.toList := by
  obtain ⟨hslash, hne⟩ := int_chars entry.port
  obtain ⟨cs, c, hcs⟩ : ∃ cs c, (toString entry.port).toList = cs ++ [c] := by
    cases hlast : (toString entry.port).toList using List.reverseRecOn with
    | nil => exact absurd hlast hne
    | append_singleton cs c => exact ⟨cs, c, rfl⟩
  have hc : c ≠ '/' := by
    rintro rfl
    exact hslash (hcs ▸ List.mem_append_right cs List.mem_cons_self)
  have hhost : entry.host.toList = "http://127.0.0.1:".toList ++ cs ++ [c] := by
    rw [host_chars, hcs, List.append_assoc]
  rw [rstrip, urlOf, hhost, List.reverse_append, List.reverse_singleton, List.singleton_append,
    List.dropWhile_cons_of_neg (by simpa using hc), List.reverse_cons, List.reverse_reverse]

theorem host_injective {e e' : ArrEntry} (h : e.host = e'.host) : e.port = e'.port := by
  have hlist := congrArg String.toList h
  rw [host_chars, host_chars] at hlist
  exact int_injective (List.append_cancel_left hlist)

theorem host_congr {e e' : ArrEntry} (h : e.port = e'.port) : e.host = e'.host :=
  String.ext (by rw [host_chars, host_chars, h])

end Dumb.Prowlarr

/-! ## The entries as wishes

Each entry wants its application, and finds the first one of its name or else the first one with its base URL.
-/

namespace Dumb.Prowlarr

open Py

variable {text : Text}

def Server.schemaOf (server : Server text) (entry : ArrEntry) : Schema text :=
  (findSchema server.schemas entry.service.appName).get (server.complete entry.service)

def Server.desired (server : Server text) (tagMap : Dict String Nat) (entry : ArrEntry) : Application text :=
  desiredApplication server.host tagMap entry (server.schemaOf entry)

def merged (desired : Application text) : Option (Application text) → Application text
  | some app => { desired with tags := (app.tags ++ desired.tags).dedup.mergeSort }
  | none => desired

def wishes (server : Server text) (tagMap : Dict String Nat) : Wishes (Application text) ArrEntry String where
  label entry := text.lower (server.desired tagMap entry).name
  labelOf app := text.lower app.name
  suits entry app := text.lower app.implementation = text.lower (server.schemaOf entry).implementation &&
    hasBaseUrl app entry.host
  current entry app := isApplicationCurrent app (server.desired tagMap entry)
  sent entry old := merged (server.desired tagMap entry) old

variable {server : Server text} {tagMap : Dict String Nat}

/-! ## What is sent -/

theorem desired_fields (entry : ArrEntry) : (server.desired tagMap entry).fields =
    buildFieldsFromSchema text (server.schemaOf entry).fields
      (overrides text entry.service.appName entry.host entry.apiKey server.host) := by
  rw [Server.desired, desiredApplication, buildApplicationPayload]

theorem keys_desired (entry : ArrEntry) : (server.desired tagMap entry).fields.map (fun f => text.lower f.1) =
    (server.schemaOf entry).fields.map fun f => text.lower f.1 := by
  have hkeys := congrArg (List.map text.lower) (buildFields_keys (server.schemaOf entry)
    (overrides text entry.service.appName entry.host entry.apiKey server.host))
  rw [Dict.keys, Dict.keys, List.map_map, List.map_map] at hkeys
  rw [desired_fields]
  exact hkeys

variable {entry : ArrEntry}

theorem desired_baseUrl_of {f : String × Json} (hf : f ∈ (server.desired tagMap entry).fields)
    (hname : text.lower f.1 = "baseurl") : f.2 = .str entry.host := by
  rw [desired_fields] at hf
  exact buildFields_baseUrl hf hname

theorem desired_baseUrl (entry : ArrEntry) :
    Dict.get? "baseurl" (lowered text (server.desired tagMap entry).fields) = some (.str entry.host) := by
  apply get?_lowered
  · exact fun f hf hname => desired_baseUrl_of hf hname
  · rw [keys_desired]
    exact (server.schemaOf entry).baseUrl

theorem desired_apiKey (entry : ArrEntry) :
    Dict.get? "apikey" (lowered text (server.desired tagMap entry).fields) = some (.str entry.apiKey) := by
  apply get?_lowered
  · intro f hf hname
    rw [desired_fields] at hf
    exact buildFields_apiKey hf hname
  · rw [keys_desired]
    exact (server.schemaOf entry).apiKey

variable {app : Application text}

theorem current_field {k s : String}
    (h : isApplicationCurrent app (server.desired tagMap entry) = true)
    (hk : Dict.get? k (lowered text (server.desired tagMap entry).fields) = some (.str s)) :
    Dict.get? k (lowered text app.fields) = some (.str s) := by
  rw [isApplicationCurrent, Bool.and_eq_true, List.all_eq_true] at h
  have heq := eq_of_pyEq_str (h.2 _ (Dict.mem_of_get? hk))
  cases hget : Dict.get? k (lowered text app.fields) with
  | none => rw [hget, Option.getD_none] at heq; cases heq
  | some j => rw [hget, Option.getD_some] at heq; rw [heq]

theorem current_tags
    (h : isApplicationCurrent app (server.desired tagMap entry) = true) : ∀ tag ∈ (server.desired tagMap entry).tags, tag ∈ app.tags := by
  intro tag htag
  simp only [isApplicationCurrent, Bool.and_eq_true, List.all_eq_true] at h
  simpa using h.1.2 tag htag

variable (desired : Application text)

variable (old : Option (Application text))

theorem merged_fields :
    (merged desired old).fields = desired.fields := by
  cases old <;> rfl

theorem merged_tags :
    (∀ tag ∈ desired.tags, tag ∈ (merged desired old).tags) ∧ ∀ app ∈ old, ∀ tag ∈ app.tags, tag ∈ (merged desired old).tags := by
  cases old with
  | none => exact ⟨fun _ h => h, by simp⟩
  | some app =>
    constructor
    · intro tag htag
      exact List.mem_mergeSort.2 (List.mem_dedup.2 (List.mem_append_right _ htag))
    · intro app' happ tag htag
      rw [Option.mem_some] at happ
      subst happ
      exact List.mem_mergeSort.2 (List.mem_dedup.2 (List.mem_append_left _ htag))

theorem merged_current :
    isApplicationCurrent (merged desired old) desired = true := by
  have hfields : (lowered text desired.fields).all (fun m =>
      (((lowered text (merged desired old).fields).get? m.1).getD .null).pyEq m.2) = true := by
    rw [List.all_eq_true]
    intro m hm
    rw [merged_fields, Dict.get?_of_mem (nodup_lowered desired.fields) (show (m.1, m.2) ∈ _ from hm), Option.getD_some]
    exact Json.pyEq_self m.2
  have htags : desired.tags.all (fun tag => (merged desired old).tags.contains tag) = true := by
    rw [List.all_eq_true]
    intro tag htag
    simpa using (merged_tags desired old).1 tag htag
  have hrest : (merged desired old).enable = desired.enable ∧ (merged desired old).syncLevel = desired.syncLevel ∧
      (merged desired old).implementation = desired.implementation ∧
        (merged desired old).configContract = desired.configContract := by
    cases old <;> exact ⟨rfl, rfl, rfl, rfl⟩
  obtain ⟨henable, hsync, himpl, hcontract⟩ := hrest
  rw [isApplicationCurrent, henable, hsync, himpl, hcontract, htags, hfields]
  simp

theorem hasBaseUrl_iff :
    hasBaseUrl app entry.host = true ↔ ∃ f ∈ app.fields, text.lower f.1 = "baseurl" ∧ urlOf f.2 = entry.host.toList := by
  rw [hasBaseUrl, List.any_eq_true, rstrip_host]
  simp

theorem hasBaseUrl_merged {entry entry' : ArrEntry} {old : Option (Application text)} :
    hasBaseUrl (merged (server.desired tagMap entry) old) entry'.host = true ↔ entry.port = entry'.port := by
  rw [hasBaseUrl_iff, merged_fields]
  constructor
  · rintro ⟨f, hf, hname, hurl⟩
    have hhost : urlOf (.str entry.host) = entry'.host.toList := by
      rw [← hurl, desired_baseUrl_of hf hname]
    have hlist : entry.host.toList = entry'.host.toList := by rw [← rstrip_host entry, rstrip, hhost]
    exact host_injective (String.ext hlist)
  · intro heq
    have hget : Dict.get? "baseurl" (lowered text (server.desired tagMap entry).fields) = _ := desired_baseUrl entry
    obtain ⟨f, hf, hname⟩ := mem_lowered (Dict.mem_of_get? hget)
    refine ⟨f, hf, congrArg Prod.fst hname, ?_⟩
    rw [show f.2 = .str entry.host from congrArg Prod.snd hname, host_congr heq]
    exact rstrip_host entry'

theorem lawful {entries : List ArrEntry} (hports : (entries.map (·.port)).Nodup) : (wishes server tagMap).Lawful entries where
  labelOf_sent entry old := by
    cases old <;> rfl
  current_sent entry _ old := merged_current _ old
  suits_sent e he e' he' old h := by
    rw [wishes, Bool.and_eq_true] at h
    exact (List.inj_on_of_nodup_map hports he he' (hasBaseUrl_merged.1 h.2)).symm
  current_unique e he e' he' app h h' := by
    have hurl := current_field h (desired_baseUrl e)
    have hurl' := current_field h' (desired_baseUrl e')
    rw [hurl, Option.some.injEq, Json.str.injEq] at hurl'
    exact List.inj_on_of_nodup_map hports he he' (host_injective hurl')

end Dumb.Prowlarr
