import Dumb.Lib.Raise
import Dumb.Metrics.Lemmas.Sync

/-! PostgreSQL, while it is active, holds what SQLite holds: when, and where a clock that goes back breaks it. -/

namespace Dumb.Metrics

variable {γ : Type}

def Continuous (m : Manager γ) : Prop := m.activeProvider = .postgresql → ∀ x ∈ m.sqlite, x ∈ m.postgres

def Answers (r : Option Int) (m : Manager γ) : Step γ → Prop
  | .read clock since full limit defaultHours fates =>
    let res := m.read r clock since full limit defaultHours fates
    res.2.activeProvider = .postgresql →
      ∀ x ∈ readRows m.sqlite (Manager.readSince clock since full defaultHours) limit, x ∈ res.1.1
  | _ => True

def imports (force : Bool) (metadata : Option Migration) : Bool := force || !metadata.any (·.completed)

def Orderly (r : Option Int) (m : Manager γ) : Step γ → Prop
  | .write clock x fates =>
    (m.activeProvider = .postgresql → Answered 1 fates →
      x ∈ m.postgres ∨ ∀ k, m.postgres.max? = some k → k + microsecond ≤ x.1) ∧
    (m.activeProvider = .sqlite → m.tries r false clock → SyncOrderly (m.sqlite.upsert x) m.postgres 0 fates)
  | .read clock since full limit defaultHours fates =>
    m.tries r false clock →
      (m.activeProvider = .sqlite → SyncOrderly m.sqlite m.postgres 1 fates) ∧
      (limit ≤ 0 ∨ ∀ y ∈ m.postgres.since (Manager.readSince clock since full defaultHours), ∃ x ∈ m.sqlite, x.1 = y.1)
  | .status clock probePostgresql fates =>
    m.tries r probePostgresql clock → m.activeProvider = .sqlite → SyncOrderly m.sqlite m.postgres 1 fates
  | .migrateLegacy force files =>
    m.activeProvider = .postgresql → imports force m.metadata → (∃ f ∈ files, f.raises.isSome) →
      ∀ x ∈ stored files, x ∈ m.postgres
  | .activatePostgresql _ fates =>
    m.configuredProvider = .postgresql → SyncOrderly m.sqlite m.postgres 1 fates

/-! ## One step -/

variable {r : Option Int} {clock : Clock} {fates : List Fate} {m : Manager γ}

theorem write_steady {x : Sample γ}
    (hm : Steady m) (h : Orderly r m (.write clock x fates)) : Steady (m.write r clock x fates) := by
  obtain ⟨hlate, hfull⟩ := h
  unfold Manager.write
  dsimp only
  split
  · next hif =>
    have htry : m.tries r false clock := hif
    split
    · next c p hsync =>
      apply steady_promoted
      · exact htry.1
      show ∀ y ∈ m.sqlite.upsert x, y ∈ p.table
      cases hact : m.activeProvider with
      | postgresql =>
        simp only [hact, ne_eq, not_true_eq_false, decide_false] at hsync
        exact syncOne_ok hsync (hm hact).held (hlate hact)
      | sqlite =>
        simp only [hact, ne_eq, reduceCtorEq, not_false_eq_true, decide_true] at hsync
        obtain ⟨htable, hfates⟩ := syncFull_ok hsync
        rw [htable]
        have hans := hfates 0 (answered_zero _)
        exact (hfull hact htry hans).held
    · exact steady_fallenBack _ _
  · next hif => exact fun hact => absurd ((hm hact).tries r false clock) hif

theorem activatePostgresql_steady
    (hm : Steady m) (h : Orderly r m (.activatePostgresql clock fates)) : Steady (m.activatePostgresql clock fates).2 := by
  unfold Manager.activatePostgresql
  by_cases hc : m.configuredProvider = .postgresql
  · rw [if_neg (not_not.2 hc)]
    dsimp only
    split
    · exact steady_fallenBack _ _
    · next synced p hsync =>
      split
      · next stats q hstatus =>
        obtain ⟨-, hq, hfates⟩ := call_ok hstatus
        obtain ⟨htable, hmore⟩ := syncFull_ok hsync
        intro _
        refine ⟨rfl, hc, ?_⟩
        show ∀ x ∈ m.sqlite, x ∈ q.table
        rw [hq, htable]
        exact (h hc (hmore 1 (hfates 0 (answered_zero _)))).held
      · exact steady_fallenBack _ _
  · rw [if_pos hc]
    exact hm

theorem ask_steady {α : Type} {f : Table ℚ γ → α × Table ℚ γ} (hf : ∀ t, (f t).2 = t) (clock : Clock)
    (hm : Steady m) (hc : m.configuredProvider = .postgresql)
    (hsync : m.activeProvider = .sqlite → SyncOrderly m.sqlite m.postgres 1 fates) :
    Steady (m.ask (call f) clock fates).2 := by
  cases h : m.ask (call f) clock fates with
  | mk answer m' =>
    cases answer with
    | none =>
      intro hact
      rw [(ask_none h).2] at hact
      exact nomatch hact
    | some a => exact fun _ => (ask_some hf h).current hm hc hsync

theorem read_steady {since : Option ℚ} {full : Bool} {limit : Int}
    {defaultHours : ℚ} (hm : Steady m)
    (h : Orderly r m (.read clock since full limit defaultHours fates)) :
    Steady (m.read r clock since full limit defaultHours fates).2 ∧
      Answers r m (.read clock since full limit defaultHours fates) := by
  unfold Answers Manager.read
  dsimp only
  by_cases htry : m.tries r false clock
  · obtain ⟨hsync, hkeys⟩ := h htry
    rw [if_pos htry]
    have hsteady := ask_steady (f := fun t => (readRows t (Manager.readSince clock since full defaultHours) limit, t))
      (fun _ => rfl) clock hm htry.1 hsync
    cases hask : m.ask (Postgres.read (Manager.readSince clock since full defaultHours) limit) clock fates with
    | mk answer m' =>
      rw [show call _ = Postgres.read (Manager.readSince clock since full defaultHours) limit from rfl, hask] at hsteady
      cases answer with
      | none =>
        apply And.intro hsteady
        intro hact
        rw [(ask_none hask).2] at hact
        exact nomatch hact
      | some items =>
        apply And.intro hsteady
        intro hact
        have hasked := ask_some (fun _ => rfl) hask
        have hheld := (hsteady hact).held
        rw [hasked.sqlite] at hheld
        rw [hasked.answer]
        apply readRows_subset hheld
        apply hkeys.imp_right
        intro hsub y hy
        obtain ⟨hin, hsince⟩ := Table.mem_since.1 hy
        rcases hasked.postgres_sub y hin with hlocal | hold
        · exact ⟨y, hlocal, rfl⟩
        · exact hsub y (Table.mem_since.2 ⟨hold, hsince⟩)
  · rw [if_neg htry]
    apply And.intro hm
    exact fun hact => absurd ((hm hact).tries r false clock) htry

theorem status_steady {probe : Bool}
    (hm : Steady m) (h : Orderly r m (.status clock probe fates)) : Steady (m.status r clock probe fates).2 := by
  unfold Manager.status
  dsimp only
  by_cases htry : m.tries r probe clock
  · rw [if_pos htry]
    exact ask_steady (fun _ => rfl) _ hm htry.1 (h htry)
  · rw [if_neg htry]
    exact hm

variable {force : Bool} {files : List (File γ)}

theorem migrateLegacy_eq (h : imports force m.metadata) :
    m.migrateLegacy force files = m.migrateLegacy true files := by
  unfold Manager.migrateLegacy
  cases force with
  | true => rfl
  | false =>
    cases hmeta : m.metadata with
    | none => rfl
    | some migration =>
      obtain ⟨completed, f, s, k⟩ := migration
      cases completed with
      | false => rfl
      | true => simp [imports, hmeta] at h

theorem migrateLegacy_done (h : ¬imports force m.metadata) :
    ∃ migration, (m.migrateLegacy force files).2 = { m with lastMigration := migration } := by
  unfold Manager.migrateLegacy
  cases force with
  | true => simp [imports] at h
  | false =>
    cases hmeta : m.metadata with
    | none => simp [imports, hmeta] at h
    | some migration =>
      obtain ⟨completed, f, s, k⟩ := migration
      cases completed with
      | false => simp [imports, hmeta] at h
      | true => exact ⟨_, rfl⟩

theorem migrateLegacy_steady
    (hm : Steady m) (h : Orderly r m (.migrateLegacy force files)) : Steady (m.migrateLegacy force files).2 := by
  by_cases himports : imports force m.metadata = true
  · rw [migrateLegacy_eq himports]
    unfold Manager.migrateLegacy
    dsimp only
    split
    · next e i hfiles =>
      intro hact
      have hstored := h hact himports (files_error hfiles)
      refine ⟨(hm hact).error, (hm hact).configured, ?_⟩
      intro x hx
      have hx' : x ∈ (Import.files ⟨m.sqlite, 0, 0, []⟩ files).2.sqlite := by rwa [hfiles]
      rcases mem_files x hx' with hnew | hold
      · exact hstored x hnew
      · exact (hm hact).held x hold
    · intro hact
      dsimp only at hact
      split at hact
      · exact nomatch hact
      · next hc => exact absurd (hm hact).configured hc
  · obtain ⟨migration, heq⟩ := migrateLegacy_done himports
    rw [heq]
    exact fun hact => ⟨(hm hact).error, (hm hact).configured, (hm hact).held⟩

theorem after_steady (step : Step γ) (hm : Steady m) (h : Orderly r m step) :
    Steady (m.after r step) ∧ Answers r m step := by
  cases step with
  | write clock x fates => exact ⟨write_steady hm h, trivial⟩
  | read clock since full limit defaultHours fates => exact read_steady hm h
  | status clock probe fates => exact ⟨status_steady hm h, trivial⟩
  | migrateLegacy force files => exact ⟨migrateLegacy_steady (r := r) hm h, trivial⟩
  | activatePostgresql clock fates => exact ⟨activatePostgresql_steady (r := r) hm h, trivial⟩

/-! ## Runs -/

def OrderlyRun (r : Option Int) (m : Manager γ) (steps : List (Step γ)) : Prop :=
  Along (Manager.after r) (Orderly r) m steps

theorem run_steady {steps : List (Step γ)} (hm : Steady m)
    (h : OrderlyRun r m steps) : Steady (m.run r steps) :=
  h.foldl (fun _ step _ horderly hsteady => (after_steady step hsteady horderly).1) hm

/-- In every run of orderly steps from a new manager on any stores, PostgreSQL has what SQLite has whenever it is
active, and what it answers misses nothing of SQLite. -/
theorem run_continuous (r : Option Int) (provider : Provider) (sqlite postgres : Table ℚ γ)
    (metadata : Option Migration) (steps : List (Step γ))
    (h : OrderlyRun r (.configured provider sqlite postgres metadata) steps) :
    ∀ before after, steps = before ++ after →
      Continuous (Manager.run r (.configured provider sqlite postgres metadata) before) ∧
      ∀ step ∈ after.head?, Answers r (Manager.run r (.configured provider sqlite postgres metadata) before) step := by
  rintro before after rfl
  obtain ⟨hbefore, hafter⟩ := along_append.1 h
  have hstart : Steady (Manager.configured provider sqlite postgres metadata) := fun hact => nomatch hact
  have hsteady := run_steady hstart hbefore
  constructor
  · exact fun hact => (hsteady hact).held
  · cases after with
    | nil => simp
    | cons step rest =>
      intro st hst
      simp only [List.head?_cons, Option.mem_def, Option.some.injEq] at hst
      exact hst ▸ (after_steady step hsteady hafter.1).2

def midnight : Clock := ⟨0, 0, 0, 0⟩

def newManager : Manager String := .configured .postgresql ∅ ∅ none

theorem run_continuous_write : Continuous (newManager.run none [.write midnight (10, "ten") []]) :=
  (run_continuous none .postgresql ∅ ∅ none [.write midnight (10, "ten") []]
    ⟨⟨nofun, fun _ _ _ x hx => .inr ⟨[(10, "ten")], by
      show [(10, "ten")] ∈ Table.pages batchSize (· + microsecond) [((10 : ℚ), "ten")]
      rw [Table.pages_singleton (by decide)]
      exact List.mem_singleton.2 rfl, hx⟩⟩, trivial⟩ _ [] (List.append_nil _).symm).1

/-- The clock goes back between two writes: the second sample stays in SQLite alone while PostgreSQL is active. -/
theorem backward_write_missed :
    ¬Continuous (newManager.run none [.activatePostgresql midnight [], .write midnight (10, "ten") [],
      .write midnight (5, "five") []]) := by
  intro h
  have hmissed := h (by decide +kernel) (5, "five") (by decide +kernel)
  revert hmissed
  decide +kernel

end Dumb.Metrics
