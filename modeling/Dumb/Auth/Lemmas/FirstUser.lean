import Dumb.Auth.Lemmas.Unauthenticated

/-!
# The first user

A request that may create the first user looks at the users, adds one and puts authentication on, in steps of its
own. Where no other request is under way when the user is added, and none comes in until authentication is on, the
user stays the only one.
-/

namespace Dumb.Auth

open Py

variable {env : Env}

def CreatesUser : Request → Prop
  | .setup _ _ => True
  | .createUser _ _ => True
  | _ => False

abbrev Quiet (users : List User) : Handler → State → Prop :=
  Thread.Sound (fun s => s.config.users = users) (fun _ _ => True) fun _ _ => True

def AddsOne : Handler → Prop
  | .ret _ => True
  | .raise _ => True
  | .act f k => ∀ s, s.config.users = [] →
      ((f s).config.users = [] ∧ AddsOne (k s)) ∨ ∃ user, (f s).config.users = [user] ∧ Quiet [user] (k s) (f s)

theorem addsOne_read {β : Type} {g : State → β} {k : β → Handler}
    (h : ∀ s, s.config.users = [] → AddsOne (k (g s))) : AddsOne (Thread.read g >>= k) :=
  fun s hs => .inl ⟨hs, h s hs⟩

variable {k : Unit → Handler}

theorem addsOne_require {b : Bool} {e : HttpError} (h : b = true → AddsOne (k ())) :
    AddsOne (Thread.require b e >>= k) := by
  cases b with
  | false => trivial
  | true => exact h rfl

theorem addsOne_ofExcept {β : Type} {r : Except HttpError β} {k : β → Handler} (h : ∀ a, AddsOne (k a)) :
    AddsOne (Thread.ofExcept r >>= k) := by
  cases r with
  | error e => trivial
  | ok a => exact h a

variable {users : List User} {s : State}

theorem quiet_config {f : UserConfig → UserConfig}
    (hf : ∀ config, (f config).users = config.users) (h : ∀ s, Quiet users (k ()) s) :
    Quiet users (setConfig f >>= k) s :=
  Thread.Sound.modify_bind fun _ _ hs => ⟨(hf _).trans hs, trivial, h _⟩

theorem quiet_save (h : ∀ s, Quiet users (k ()) s) :
    Quiet users (saveConfig env.text >>= k) s :=
  Thread.Sound.modify_bind fun _ _ hs => ⟨hs, trivial, h _⟩

theorem quiet_enable (h : ∀ s, Quiet users (k ()) s) :
    Quiet users (enableAuth env.text >>= k) s := by
  simp only [enableAuth, bind_assoc]
  exact quiet_config (fun _ => rfl) fun _ => quiet_save h

theorem addsOne_addUser {username password : String} {k : Bool → Handler} (h : AddsOne (k false))
    (hadded : ∀ users s, Quiet users (k true) s) :
    AddsOne (addUser env.text env.passwords username password >>= k) := by
  simp only [addUser, bind_assoc]
  refine addsOne_read fun s hs => ?_
  split
  · exact h
  · rw [bind_assoc]
    intro s hs
    refine .inr ⟨⟨username, env.passwords.hash password, false⟩, by simp [hs], ?_⟩
    simp only [bind_assoc, pure_bind]
    exact quiet_save (hadded _)

theorem addsOne_check {username password : String} (h : AddsOne (k ())) :
    AddsOne (checkNewUser username password >>= k) := by
  simp only [checkNewUser, bind_assoc]
  exact addsOne_require fun _ => addsOne_require fun _ => addsOne_require fun _ => h

theorem initialSetup_addsOne (username password : String) : AddsOne (initialSetup env username password) := by
  rw [initialSetup]
  refine addsOne_read fun _ _ => addsOne_require fun _ => addsOne_check (addsOne_addUser trivial fun users s => ?_)
  exact Thread.Sound.require_bind (fun _ => quiet_enable fun _ => trivial) fun _ => trivial

theorem createUser_addsOne (credentials : Credentials) (username password : String) :
    AddsOne (createUser env credentials username password) := by
  simp only [createUser, getOptionalCurrentUser, requireUser, bind_assoc]
  refine addsOne_read fun _ _ => addsOne_ofExcept fun user => ?_
  refine addsOne_read fun _ _ => addsOne_read fun _ _ => addsOne_read fun _ _ => addsOne_require fun _ => ?_
  refine addsOne_check (addsOne_read fun _ _ => addsOne_require fun _ => ?_)
  refine addsOne_addUser trivial fun users s => Thread.Sound.require_bind (fun _ => ?_) fun _ => trivial
  split
  · exact quiet_config (fun _ => rfl) fun _ => quiet_enable fun _ => trivial
  · trivial

theorem handle_addsOne {call : Call} (h : CreatesUser call.request) : AddsOne (handle env call) := by
  unfold handle
  cases hcall : call.request with
  | setup username password => exact initialSetup_addsOne username password
  | createUser username password => exact createUser_addsOne call.credentials username password
  | _ => rw [hcall] at h; exact h.elim

theorem handle_refuses {call : Call} (h : CreatesUser call.request) (hfile : s.file.enabled = true)
    (husers : s.config.users ≠ []) (hun : Unauthorized env s.file call) :
    ∃ k e, handle env call = .act id k ∧ k s = .raise e := by
  unfold handle
  cases hcall : call.request with
  | setup username password =>
    refine ⟨_, ⟨400, "Users already exist. Use the login endpoint instead."⟩, rfl, ?_⟩
    have hzero : decide (s.config.users.length = 0) = false := by simpa using husers
    change Thread.bind (Thread.require (decide (s.config.users.length = 0)) _) _ = _
    rw [hzero]
    rfl
  | createUser username password =>
    obtain ⟨e, he⟩ := currentUser_refused hfile hun
    refine ⟨_, e, rfl, ?_⟩
    change Thread.bind (Thread.ofExcept (currentUser env.text s.file call.credentials)) _ = _
    rw [he]
    rfl
  | _ => rw [hcall] at h; exact h.elim

/-! ## The pool -/

/-- A turn of one request. No other one is under way when a user is added, and once there is one, requests come
in only where authentication is on, without a valid token. -/
def Apart (env : Env) (calls : List Call) (p q : Threads State HttpError Response) : Prop :=
  ∃ i, Threads.Turn i p q ∧
    (q.state.config.users ≠ p.state.config.users → ∀ j, j ≠ i → ¬p.InProgress j) ∧
    (¬p.InProgress i → p.state.config.users ≠ [] →
      p.state.file.enabled = true ∧ ∀ call, calls[i]? = some call → Unauthorized env p.state.file call)

def Waiting (env : Env) (calls : List Call) (p : Threads State HttpError Response) : Prop :=
  ∀ (i : Nat) (t : Handler), p.threads[i]? = some (false, t) →
    ∃ call, calls[i]? = some call ∧ CreatesUser call.request ∧ t = handle env call

inductive AtMostOne (env : Env) (calls : List Call) (p : Threads State HttpError Response) : Prop
  | none (hwait : Waiting env calls p) (husers : p.state.config.users = [])
      (hadds : ∀ (i : Nat) (x : Bool × Handler), p.threads[i]? = some x → AddsOne x.2)
  | one (hwait : Waiting env calls p) (user : User) (husers : p.state.config.users = [user])
      (hquiet : ∀ (i : Nat) (t : Handler), p.threads[i]? = some (true, t) → Quiet [user] t p.state)

variable {calls : List Call}

variable {p q : Threads State HttpError Response}

theorem waiting_turn {i : Nat} (h : Waiting env calls p)
    (hturn : Threads.Turn i p q) : Waiting env calls q := by
  cases hturn with
  | @mk s threads started f k hi =>
    intro j t hj
    by_cases hij : i = j
    · subst hij
      rw [List.getElem?_set_self (List.getElem?_eq_some_iff.1 hi).1] at hj
      cases hj
    · rw [List.getElem?_set_ne hij] at hj
      exact h j t hj

theorem quiet_stable {t : Handler} {s s' : State} (h : Quiet users t s) : Quiet users t s' :=
  h.stable (fun _ _ _ _ _ => trivial) (fun _ _ _ _ _ => trivial) trivial

theorem AtMostOne.turn {p q : Threads State HttpError Response} (h : AtMostOne env calls p)
    (hstep : Apart env calls p q) : AtMostOne env calls q := by
  obtain ⟨i, hturn, halone, hstart⟩ := hstep
  cases hturn with
  | @mk s threads started f k hi =>
  have hlt := (List.getElem?_eq_some_iff.1 hi).1
  cases h with
  | none hwait husers hadds =>
    have hwait' := waiting_turn hwait (.mk hi)
    rcases hadds i _ hi s husers with ⟨hnone, hk⟩ | ⟨user, hone, hk⟩
    · refine .none hwait' hnone fun j x hj => ?_
      by_cases hij : i = j
      · subst hij
        simp only [List.getElem?_set_self hlt, Option.some.injEq] at hj
        subst hj
        exact hk
      · rw [List.getElem?_set_ne hij] at hj
        exact hadds j x hj
    · -- The user has come in, and the other requests that have started have ended.
      have hothers := halone (by rw [hone, show s.config.users = [] from husers]; simp)
      refine .one hwait' user hone fun j t hj => ?_
      by_cases hij : i = j
      · subst hij
        simp only [List.getElem?_set_self hlt, Option.some.injEq, Prod.mk.injEq, true_and] at hj
        subst hj
        exact hk
      · rw [List.getElem?_set_ne hij] at hj
        cases t with
        | ret a => trivial
        | raise e => trivial
        | act f' k' => exact absurd ⟨f', k', hj⟩ (hothers j (Ne.symm hij))
  | one hwait user husers hquiet =>
    have hwait' := waiting_turn hwait (.mk hi)
    have hkeep : (f s).config.users = [user] ∧ Quiet [user] (k s) (f s) := by
      cases started with
      | true =>
        obtain ⟨hI, -, hk⟩ := hquiet i _ hi s trivial husers
        exact ⟨hI, hk⟩
      | false =>
        obtain ⟨call, hcall, hcreates, ht⟩ := hwait i _ hi
        have hnot : ¬Threads.InProgress ⟨s, threads⟩ i := by
          rintro ⟨f', k', hprogress⟩
          rw [hi] at hprogress
          cases hprogress
        have hne : s.config.users ≠ [] := by
          rw [show s.config.users = [user] from husers]
          simp
        obtain ⟨hfile, hun⟩ := hstart hnot hne
        obtain ⟨k', e, hhandle, hraise⟩ := handle_refuses hcreates hfile hne (hun call hcall)
        rw [hhandle] at ht
        cases ht
        rw [hraise]
        exact ⟨husers, trivial⟩
    refine .one hwait' user hkeep.1 fun j t hj => ?_
    by_cases hij : i = j
    · subst hij
      simp only [List.getElem?_set_self hlt, Option.some.injEq, Prod.mk.injEq, true_and] at hj
      subst hj
      exact hkeep.2
    · rw [List.getElem?_set_ne hij] at hj
      exact quiet_stable (hquiet j t hj)

theorem AtMostOne.start (husers : s.config.users = [])
    (hcalls : ∀ call ∈ calls, CreatesUser call.request) :
    AtMostOne env calls (Threads.start s (calls.map (handle env))) := by
  have hget {i : Nat} {x : Bool × Handler}
      (h : (Threads.start s (calls.map (handle env))).threads[i]? = some x) :
      ∃ call, calls[i]? = some call ∧ CreatesUser call.request ∧ x = (false, handle env call) := by
    simp only [Threads.start, List.map_map, List.getElem?_map, Option.map_eq_some_iff, Function.comp_apply] at h
    obtain ⟨call, hcall, rfl⟩ := h
    exact ⟨call, hcall, hcalls call (List.mem_of_getElem? hcall), rfl⟩
  refine .none (fun i t hi => ?_) husers fun i x hi => ?_
  · obtain ⟨call, hcall, hcreates, hx⟩ := hget hi
    cases hx
    exact ⟨call, hcall, hcreates, rfl⟩
  · obtain ⟨call, -, hcreates, rfl⟩ := hget hi
    exact handle_addsOne hcreates

theorem AtMostOne.run (h : AtMostOne env calls p)
    (hrun : Relation.ReflTransGen (Apart env calls) p q) : AtMostOne env calls q := by
  induction hrun with
  | refl => exact h
  | tail _ hstep ih => exact ih.turn hstep

theorem AtMostOne.length {p : Threads State HttpError Response} (h : AtMostOne env calls p) :
    p.state.config.users.length ≤ 1 := by
  cases h with
  | none _ husers => simp [husers]
  | one _ user husers => simp [husers]

end Dumb.Auth
