import Dumb.Metrics.Store

/-! What a sync leaves in PostgreSQL when no call of it fails: the pages that a paged reading of SQLite gets. -/

namespace Dumb.Metrics

variable {γ : Type}

def Answered (n : Nat) (fates : List Fate) : Prop := ∀ f ∈ fates.take n, f = .answered

theorem answered_zero (fates : List Fate) : Answered 0 fates := by simp [Answered]

variable {p p' : Postgres γ}

theorem call_ok {α : Type} {f : Table ℚ γ → α × Table ℚ γ} {a : α} (h : call f p = (.ok a, p')) :
    a = (f p.table).1 ∧ p'.table = (f p.table).2 ∧ ∀ n, Answered n p'.fates → Answered (n + 1) p.fates := by
  obtain ⟨t, fates⟩ := p
  cases fates with
  | nil =>
    simp only [call, Prod.mk.injEq, Except.ok.injEq] at h
    obtain ⟨rfl, rfl⟩ := h
    exact ⟨rfl, rfl, fun n _ => by simp [Answered]⟩
  | cons fate fates =>
    cases fate with
    | refused e => simp [call] at h
    | lost e => simp [call] at h
    | answered =>
      simp only [call, Prod.mk.injEq, Except.ok.injEq] at h
      obtain ⟨rfl, rfl⟩ := h
      exact ⟨rfl, rfl, fun n hn => by simpa [Answered] using hn⟩

theorem writeMany_ok {items : List (Sample γ)} {n : Nat} (hne : items ≠ [])
    (h : Postgres.writeMany items p = (.ok n, p')) :
    p'.table = p.table.upsertMany items ∧ ∀ k, Answered k p'.fates → Answered (k + 1) p.fates := by
  rw [Postgres.writeMany, if_neg hne] at h
  exact (call_ok h).2

def pagesOf (t : Table ℚ γ) (since : Option ℚ) : List (List (Sample γ)) :=
  Table.pages batchSize (· + microsecond) (t.since since)

theorem readForward_eq (t : Table ℚ γ) (since : Option ℚ) : readForward t since batchSize = (t.since since).take batchSize := by
  simp [readForward, limited, batchSize]

theorem since_next {t : Table ℚ γ} {since : Option ℚ} {last : Sample γ}
    (h : ((t.since since).take batchSize).getLast? = some last) :
    t.since (some (last.1 + microsecond)) =
      ((t.since since).drop batchSize).filter fun x => last.1 + microsecond ≤ x.1 := by
  have hpos : (0 : ℚ) < microsecond := by norm_num [microsecond]
  have hlast : last ∈ (t.since since).take batchSize := List.mem_of_getLast? h
  have hwhole : t.since (some (last.1 + microsecond)) =
      (t.since since).filter fun x => last.1 + microsecond ≤ x.1 := by
    cases since with
    | none => rfl
    | some k =>
      have hk : k ≤ last.1 := (Table.mem_since.1 (List.mem_of_mem_take hlast)).2 k rfl
      simp only [Table.since, List.filter_filter]
      apply List.filter_congr
      intro x _
      by_cases hx : last.1 + microsecond ≤ x.1
      · have hkx : k ≤ x.1 := by linarith
        simp [hx, hkx]
      · simp [hx]
  have htake : ((t.since since).take batchSize).filter (fun x => last.1 + microsecond ≤ x.1) = [] := by
    apply List.filter_eq_nil_iff.2
    intro x hx
    have hne : (t.since since).take batchSize ≠ [] := List.ne_nil_of_mem hx
    have hsorted := (t.since_sorted since).sublist (List.take_sublist batchSize _)
    have hle : x.1 ≤ last.1 := by
      rw [← List.dropLast_append_getLast hne] at hx hsorted
      rw [List.getLast?_eq_some_getLast hne, Option.some.injEq] at h
      rcases List.mem_append.1 hx with hx | hx
      · exact (h ▸ (List.pairwise_append.1 hsorted).2.2 x hx _ (List.mem_singleton.2 rfl)).le
      · rw [List.mem_singleton.1 hx, h]
    simp only [decide_eq_true_eq, not_le]
    linarith
  calc t.since (some (last.1 + microsecond))
      = (t.since since).filter fun x => last.1 + microsecond ≤ x.1 := hwhole
    _ = ((t.since since).take batchSize ++ (t.since since).drop batchSize).filter
          fun x => last.1 + microsecond ≤ x.1 := by rw [List.take_append_drop]
    _ = ((t.since since).drop batchSize).filter fun x => last.1 + microsecond ≤ x.1 := by
        rw [List.filter_append, htake, List.nil_append]

variable {sqlite : Table ℚ γ}

theorem syncLoop_ok {rounds : Nat} {since : Option ℚ} {k c : Nat}
    (h : syncLoop sqlite rounds since k p = (.ok c, p')) (hrounds : (sqlite.since since).length < rounds) :
    p'.table = (pagesOf sqlite since).foldl Table.upsertMany p.table ∧
      ∀ n, Answered n p'.fates → Answered (n + (pagesOf sqlite since).length) p.fates := by
  induction rounds generalizing since k p with
  | zero => exact absurd hrounds (Nat.not_lt_zero _)
  | succ rounds ih =>
    rw [syncLoop, readForward_eq] at h
    rw [pagesOf, Table.pages]
    cases hlast : ((sqlite.since since).take batchSize).getLast? with
    | none =>
      simp only [hlast, Prod.mk.injEq] at h
      obtain ⟨-, rfl⟩ := h
      exact ⟨rfl, fun n hn => hn⟩
    | some last =>
      have hne : (sqlite.since since).take batchSize ≠ [] := by
        intro hnil
        simp [hnil] at hlast
      simp only [hlast] at h
      split at h
      · next e q hw => simp at h
      · next n q hw =>
        obtain ⟨htable, hfates⟩ := writeMany_ok hne hw
        have hlen : ((sqlite.since since).take batchSize).length < batchSize ↔
            (sqlite.since since).length < batchSize := by
          rw [List.length_take]
          omega
        by_cases hshort : (sqlite.since since).length < batchSize
        · simp only [if_pos (hlen.2 hshort), Prod.mk.injEq] at h
          obtain ⟨-, rfl⟩ := h
          simp only [hshort, ↓reduceIte]
          exact ⟨htable, hfates⟩
        · rw [if_neg (mt hlen.1 hshort)] at h
          have hrest := since_next hlast
          have hlt : (sqlite.since (some (last.1 + microsecond))).length < rounds := by
            have hfilter := List.length_filter_le (fun x : Sample γ => decide (last.1 + microsecond ≤ x.1))
              ((sqlite.since since).drop batchSize)
            rw [← hrest, List.length_drop] at hfilter
            have hbatch : 0 < batchSize := by decide
            omega
          obtain ⟨ht, hf⟩ := ih h hlt
          rw [pagesOf, hrest] at ht hf
          simp only [hshort, ↓reduceIte, List.foldl_cons, List.length_cons]
          constructor
          · rw [ht, htable]
          · exact fun n hn => hfates _ (hf n hn)

theorem length_since_le (t : Table ℚ γ) (since : Option ℚ) : (t.since since).length ≤ t.rows.length := by
  cases since with
  | none => exact le_rfl
  | some k => exact List.length_filter_le _ _

theorem pages_agree {t : Table ℚ γ} (since : Option ℚ) {z : Sample γ} (hz : z ∈ t) :
    ∀ page ∈ pagesOf t since, ∀ x ∈ page, x.1 = z.1 → x = z :=
  fun page hp x hx hk => Table.mem_unique (Table.mem_since.1 (Table.mem_of_mem_pages page hp x hx)).1 hz hk

def Reached (sqlite postgres : Table ℚ γ) : Prop :=
  ∀ x ∈ sqlite, x ∈ postgres ∨ ∃ page ∈ pagesOf sqlite none, x ∈ page

theorem syncFull_ok {c : Nat}
    (h : syncPostgres sqlite true p = (.ok c, p')) :
    p'.table = (pagesOf sqlite none).foldl Table.upsertMany p.table ∧
      ∀ n, Answered n p'.fates → Answered (n + (pagesOf sqlite none).length) p.fates := by
  rw [syncPostgres, if_pos rfl] at h
  exact syncLoop_ok h (Nat.lt_succ_of_le (length_since_le sqlite none))

theorem Reached.held {sqlite postgres : Table ℚ γ} (h : Reached sqlite postgres) :
    ∀ x ∈ sqlite, x ∈ (pagesOf sqlite none).foldl Table.upsertMany postgres :=
  fun x hx => Table.mem_foldl_upsertMany (pages_agree none hx) (h x hx)

theorem syncOne_ok {x : Sample γ} {c : Nat}
    (h : syncPostgres (sqlite.upsert x) false p = (.ok c, p')) (hheld : ∀ y ∈ sqlite, y ∈ p.table)
    (hlate : Answered 1 p.fates → x ∈ p.table ∨ ∀ k, p.table.max? = some k → k + microsecond ≤ x.1) :
    ∀ y ∈ sqlite.upsert x, y ∈ p'.table := by
  intro y hy
  rw [syncPostgres, if_neg Bool.false_ne_true] at h
  split at h
  · simp at h
  · next latest q hlatest =>
    obtain ⟨rfl, hq, hfates⟩ := call_ok hlatest
    obtain ⟨htable, -⟩ := syncLoop_ok h (Nat.lt_succ_of_le (length_since_le _ _))
    have hkeep := pages_agree (p.table.max?.map (· + microsecond)) hy
    rw [htable, hq]
    apply Table.mem_foldl_upsertMany hkeep
    by_cases hin : y ∈ p.table
    · exact .inl hin
    · have hyx : y = x := by
        rcases Table.mem_upsert.1 hy with hyx | ⟨hold, -⟩
        · exact hyx
        · exact absurd (hheld y hold) hin
      subst hyx
      have hfirst : ∀ k, p.table.max? = some k → k + microsecond ≤ y.1 :=
        (hlate (hfates 0 (answered_zero _))).resolve_left hin
      have hpos : (0 : ℚ) < microsecond := by norm_num [microsecond]
      have hsince : (sqlite.upsert y).since (p.table.max?.map (· + microsecond)) = [y] := by
        have hsing : ([y] : List (Sample γ)).Pairwise fun a b => a.1 < b.1 := List.pairwise_singleton _ y
        apply Table.since_ext _ ⟨[y], hsing⟩ _ none
        intro z
        rw [Table.mem_since]
        constructor
        · rintro ⟨hz, hk⟩
          rcases Table.mem_upsert.1 hz with rfl | ⟨hold, -⟩
          · exact List.mem_singleton.2 rfl
          · obtain ⟨k, hmax, hle⟩ := Table.le_max (hheld z hold)
            have hnext := hk (k + microsecond) (by simp [hmax])
            linarith
        · intro hz
          cases List.mem_singleton.1 hz
          apply And.intro hy
          intro k hk
          simp only [Option.mem_def, Option.map_eq_some_iff] at hk
          obtain ⟨k', hmax, rfl⟩ := hk
          exact hfirst k' hmax
      right
      rw [pagesOf, hsince, Table.pages_singleton (by decide)]
      exact ⟨[y], List.mem_singleton.2 rfl, List.mem_singleton.2 rfl⟩

end Dumb.Metrics

/-! What each call of the manager leaves, and which calls keep PostgreSQL up to date while it is active. -/

namespace Dumb.Metrics

variable {γ : Type}

structure Current (m : Manager γ) : Prop where
  error : m.lastError = none
  configured : m.configuredProvider = .postgresql
  held : ∀ x ∈ m.sqlite, x ∈ m.postgres

def Steady (m : Manager γ) : Prop := m.activeProvider = .postgresql → Current m

abbrev Manager.tries (m : Manager γ) (retryIntervalSec : Option Int) (force : Bool) (clock : Clock) : Prop :=
  m.configuredProvider = .postgresql ∧ m.postgresAvailable retryIntervalSec force clock.check

theorem Current.tries {m : Manager γ} (h : Current m) (r : Option Int) (force : Bool) (clock : Clock) :
    m.tries r force clock := by
  apply And.intro h.configured
  simp [Manager.postgresAvailable, Manager.failing, h.error, h.configured]

theorem steady_fallenBack (m : Manager γ) (e : String) : Steady (m.fallenBack e) := fun h => nomatch h

theorem steady_promoted {m : Manager γ} (now : ℚ) (hc : m.configuredProvider = .postgresql)
    (h : ∀ x ∈ m.sqlite, x ∈ m.postgres) : Steady (m.promoted now) := fun _ => ⟨rfl, hc, h⟩

def SyncOrderly (sqlite postgres : Table ℚ γ) (more : Nat) (fates : List Fate) : Prop :=
  Answered (more + (pagesOf sqlite none).length) fates → Reached sqlite postgres

/-! ## Queries -/

/-- The query of `ask` was answered, after a full sync where PostgreSQL was not active. -/
structure Asked {α : Type} (m : Manager γ) (f : Table ℚ γ → α × Table ℚ γ) (fates : List Fate) (a : α)
    (m' : Manager γ) : Prop where
  sqlite : m'.sqlite = m.sqlite
  configured : m'.configuredProvider = m.configuredProvider
  error : m'.lastError = none
  answer : a = (f m'.postgres).1
  postgres : m.activeProvider = .postgresql ∧ m'.postgres = m.postgres ∨
    m.activeProvider = .sqlite ∧ Answered (1 + (pagesOf m.sqlite none).length) fates ∧
      m'.postgres = (pagesOf m.sqlite none).foldl Table.upsertMany m.postgres

variable {α : Type} {fates : List Fate}

variable {m m' : Manager γ}

theorem ask_none {query : Call γ α} {clock : Clock}
    (h : m.ask query clock fates = (none, m')) : m'.sqlite = m.sqlite ∧ m'.activeProvider = .sqlite := by
  unfold Manager.ask at h
  dsimp only at h
  split at h
  · cases h
    exact ⟨rfl, rfl⟩
  · split at h
    · cases h
      exact ⟨rfl, rfl⟩
    · simp at h

variable {f : Table ℚ γ → α × Table ℚ γ}

theorem ask_some (hf : ∀ t, (f t).2 = t) {clock : Clock}
    {a : α} (h : m.ask (call f) clock fates = (some a, m')) : Asked m f fates a m' := by
  unfold Manager.ask at h
  dsimp only at h
  split at h
  · simp at h
  · next c p hsync =>
    split at h
    · simp at h
    · next b q hquery =>
      obtain ⟨hb, hq, hfates⟩ := call_ok hquery
      have htable : q.table = p.table := hq.trans (hf _)
      simp only [Prod.mk.injEq, Option.some.injEq] at h
      obtain ⟨rfl, rfl⟩ := h
      cases hact : m.activeProvider with
      | postgresql =>
        simp only [hact, ne_eq, not_true_eq_false, ↓reduceIte, Prod.mk.injEq, Except.ok.injEq] at hsync
        obtain ⟨-, rfl⟩ := hsync
        exact ⟨rfl, rfl, rfl, by simp [hb, Manager.promoted, htable], .inl ⟨hact, htable⟩⟩
      | sqlite =>
        simp only [hact, ne_eq, reduceCtorEq, not_false_eq_true, ↓reduceIte] at hsync
        obtain ⟨hpages, hmore⟩ := syncFull_ok hsync
        exact ⟨rfl, rfl, rfl, by simp [hb, Manager.promoted, htable],
          .inr ⟨hact, hmore 1 (hfates 0 (answered_zero _)), htable.trans hpages⟩⟩

theorem Asked.current {a : α}
    (h : Asked m f fates a m') (hm : Steady m) (hc : m.configuredProvider = .postgresql)
    (hsync : m.activeProvider = .sqlite → SyncOrderly m.sqlite m.postgres 1 fates) : Current m' := by
  constructor
  · exact h.error
  · rw [h.configured, hc]
  · rw [h.sqlite]
    rcases h.postgres with ⟨hact, hp⟩ | ⟨hact, hans, hp⟩
    · rw [hp]
      exact (hm hact).held
    · rw [hp]
      exact (hsync hact hans).held

theorem Asked.postgres_sub {a : α}
    (h : Asked m f fates a m') : ∀ x ∈ m'.postgres, x ∈ m.sqlite ∨ x ∈ m.postgres := by
  intro x hx
  rcases h.postgres with ⟨-, hp⟩ | ⟨-, -, hp⟩
  · exact .inr (hp ▸ hx)
  · rw [hp] at hx
    rcases Table.mem_of_mem_foldl_upsertMany hx with ⟨page, hpage, hin⟩ | hold
    · exact .inl (Table.mem_since.1 (Table.mem_of_mem_pages page hpage x hin)).1
    · exact .inr hold

theorem readRows_subset {t t' : Table ℚ γ} (hsub : ∀ x ∈ t, x ∈ t') {since : Option ℚ} {limit : Int}
    (hkeys : limit ≤ 0 ∨ ∀ y ∈ t'.since since, ∃ x ∈ t, x.1 = y.1) :
    ∀ x ∈ readRows t since limit, x ∈ readRows t' since limit := by
  rcases hkeys with hlimit | hkeys
  · intro x
    simp only [readRows, limited, if_neg hlimit.not_gt, List.reverse_reverse]
    exact fun hx => Table.mem_since.2 ⟨hsub x (Table.mem_since.1 hx).1, (Table.mem_since.1 hx).2⟩
  · have heq : t.since since = t'.since since := by
      apply Table.since_ext
      intro x
      constructor
      · exact fun hx => Table.mem_since.2 ⟨hsub x (Table.mem_since.1 hx).1, (Table.mem_since.1 hx).2⟩
      · intro hx
        obtain ⟨y, hy, hkey⟩ := hkeys x hx
        obtain ⟨hin, hsince⟩ := Table.mem_since.1 hx
        cases Table.mem_unique (hsub y hy) hin hkey
        exact Table.mem_since.2 ⟨hy, hsince⟩
    simp [readRows, heq]

/-! ## Imports -/

def stored (files : List (File γ)) : Table ℚ γ := (Import.files ⟨∅, 0, 0, []⟩ files).2.sqlite

structure Import.Alike (t : Table ℚ γ) (i j : Import γ) : Prop where
  batch : i.batch = j.batch
  rows : ∀ x ∈ i.sqlite, x ∈ j.sqlite ∨ x ∈ t

variable {t : Table ℚ γ}

theorem upsertMany_alike {a b : Table ℚ γ} (h : ∀ x ∈ a, x ∈ b ∨ x ∈ t) (rows : List (Sample γ)) :
    ∀ x ∈ a.upsertMany rows, x ∈ b.upsertMany rows ∨ x ∈ t := by
  induction rows generalizing a b with
  | nil => exact h
  | cons r rows ih =>
    apply ih
    intro x hx
    rcases Table.mem_upsert.1 hx with rfl | ⟨hx, hk⟩
    · exact .inl Table.upsert_self
    · exact (h x hx).imp_left fun hb => Table.mem_upsert.2 (.inr ⟨hb, hk⟩)

theorem Import.Alike.flush {i j : Import γ} (h : Import.Alike t i j) (least : Nat) :
    Import.Alike t (i.flush least) (j.flush least) := by
  unfold Import.flush
  rw [h.batch]
  cases j.batch.mapM id with
  | none => exact ⟨rfl, h.rows⟩
  | some rows => exact ⟨rfl, upsertMany_alike h.rows rows⟩

theorem Import.Alike.line {i j : Import γ} (h : Import.Alike t i j) (l : Line γ) :
    Import.Alike t (i.line l) (j.line l) := by
  have hadd : ∀ snapshot, Import.Alike t (i.add snapshot) (j.add snapshot) := by
    intro snapshot
    have hnext : Import.Alike t { i with batch := i.batch ++ [snapshot] } { j with batch := j.batch ++ [snapshot] } :=
      ⟨by simp [h.batch], h.rows⟩
    unfold Import.add
    dsimp only
    rw [h.batch]
    by_cases hfull : importBatch ≤ (j.batch ++ [snapshot]).length
    · rw [if_pos hfull, if_pos hfull]
      have hflush := hnext.flush 1
      rwa [h.batch] at hflush
    · rw [if_neg hfull, if_neg hfull]
      rwa [h.batch] at hnext
  cases l with
  | sample x => exact hadd (some x)
  | other => exact hadd none
  | malformed => exact h

theorem Import.Alike.files {i j : Import γ} (h : Import.Alike t i j) (fs : List (File γ)) :
    Import.Alike t (i.files fs).2 (j.files fs).2 := by
  induction fs generalizing i j with
  | nil => exact h
  | cons f fs ih =>
    have hlines : Import.Alike t (f.lines.foldl Import.line i) (f.lines.foldl Import.line j) := by
      clear ih
      induction f.lines generalizing i j with
      | nil => exact h
      | cons l ls ihl => exact ihl (h.line l)
    unfold Import.files
    cases f.raises with
    | some e => exact hlines
    | none => exact ih ⟨hlines.batch, hlines.rows⟩

theorem mem_files {fs : List (File γ)} :
    ∀ x ∈ (Import.files ⟨t, 0, 0, []⟩ fs).2.sqlite, x ∈ stored fs ∨ x ∈ t := by
  have hstart : Import.Alike t ⟨t, 0, 0, []⟩ ⟨∅, 0, 0, []⟩ := ⟨rfl, fun x hx => .inr hx⟩
  exact (hstart.files fs).rows

theorem files_error {i i' : Import γ} {fs : List (File γ)} {e : String} (h : i.files fs = (.error e, i')) :
    ∃ f ∈ fs, f.raises.isSome := by
  induction fs generalizing i with
  | nil => simp [Import.files] at h
  | cons f fs ih =>
    unfold Import.files at h
    cases hr : f.raises with
    | some e' => exact ⟨f, List.mem_cons_self, by simp [hr]⟩
    | none =>
      simp only [hr] at h
      obtain ⟨g, hg, hgr⟩ := ih h
      exact ⟨g, List.mem_cons_of_mem _ hg, hgr⟩

end Dumb.Metrics
