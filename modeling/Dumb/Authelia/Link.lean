import Dumb.Authelia.Router

/-!
# The linked provider

A request that gets through stores what the other endpoint would store, where the two validators agree.
-/

namespace Dumb.Authelia

open Py
open Dumb.Auth (OIDCProviderRequest)

/-- What is used of Python's texts: nothing is taken off a second time, and nothing that is printable. -/
structure Lawful (text : Text) : Prop where
  strip_strip : ∀ s, text.strip (text.strip s) = text.strip s
  strip_ends : ∀ s, (∀ c ∈ s.toList.head?, 33 ≤ c.toNat ∧ c.toNat ≤ 126) →
    (∀ c ∈ s.toList.getLast?, 33 ≤ c.toNat ∧ c.toNat ≤ 126) → text.strip s = s

section
variable (env : Env)

/-! ## What the request takes from the state -/

def registeredClients (files : Files) : Config :=
  match (Dict.get? "clients" (loadState env files)).getD (.obj []) with
  | .obj clients => clients
  | _ => []

def credentialsOf (request : LinkDumbRequest) (s : World) : String × Credentials :=
  match request.source with
  | .managed => (strOr env ((membersOf (s.config.field "authelia")).getD []) "public_url" "",
      ⟨"dumb", clientSecret env "dumb" (registeredClients env s.files)⟩)
  | _ => (Auth.rstripSlash (env.text.strip request.issuerUrl), ⟨env.text.strip request.clientId, request.clientSecret⟩)

def redirectOf (request : LinkDumbRequest) : String :=
  match absoluteBaseUrl env request.dumbPublicUrl "DUMB public URL" with
  | .ok dumbBase => dumbBase ++ String.ofList callbackPath
  | .error _ => ""

def asked (request : LinkDumbRequest) (s : World) : OIDCProviderRequest :=
  provider env request (redirectOf env request) (credentialsOf env request s).1 (credentialsOf env request s).2

structure Clean (request : LinkDumbRequest) (s : World) : Prop where
  port : ∀ p, urlparse env (env.text.strip request.dumbPublicUrl) = some p → p.portReadable = true
  issuer : Auth.rstripSlash (env.text.strip (credentialsOf env request s).1) = (credentialsOf env request s).1
  secret : env.text.strip (credentialsOf env request s).2.clientSecret ≠ ""
  scopes : request.scopes.Nodup
  groups : request.allowedGroups.Nodup

def signIn (config : Auth.UserConfig) : String × List (String × Json) × Bool := (config.mode, config.oidc, config.enabled)

/-- What the two endpoints owe each other: a linked provider is one that the other endpoint takes and leaves as it is, and a
link that fails changes nothing. -/
structure Contract (router : Auth.Env) (request : LinkDumbRequest) (s : World) : Prop where
  done : ∀ response s', (linkDumbAuth env request).run s = (.ok response, s') →
    ∃ p : OIDCProviderRequest, p.mode = request.mode.text ∧ p.confirmOidcOnly = request.confirmOidcOnly ∧
      s'.auth.config.mode = p.mode ∧ s'.auth.config.oidc = dump p ∧
      Auth.validateOidcProvider router s'.auth.config.oidc p = .ok (p.mode, dump p)
  failed : ∀ e s', (linkDumbAuth env request).run s = (.error e, s') →
    signIn s'.auth.config = signIn s.auth.config ∧ signIn s'.auth.file = signIn s.auth.file

end

/-! ## The files do not matter to sign-in -/

section
variable {env : Env}

def World.rest (s : World) : Json × Option Json × Auth.State := (s.config, s.saved, s.auth)

theorem keeps_write {op : Op} {f : World → World} (h : ∀ s, (f s).rest = s.rest) : (write env op f).Keeps World.rest := by
  rw [write]
  cases env.fate op with
  | fine => exact .modify h
  | fails => exact .raise _
  | failsLate => exact .bind (.modify h) fun _ => .raise _

theorem keeps_readText (op : Op) (file : World → File) : (readText env op file).Keeps World.rest := by
  refine .bind (.read _) fun file => ?_
  split
  · exact .pure _
  · exact .raise _
  · exact .pure _

theorem keeps_secret (name : String) : (secret env name).Keeps World.rest := by
  refine .bind (keeps_readText _ _) fun existing => ?_
  exact .ite (.pure _) (.bind (keeps_write fun _ => rfl) fun _ => .pure _)

theorem keeps_writeSecrets (names : List String) : (writeSecrets env names).Keeps World.rest := by
  induction names with
  | nil => exact .pure _
  | cons name names ih => exact .bind (keeps_secret name) fun _ => ih

variable (config : Config)

theorem keeps_notifier : (notifier env config).Keeps World.rest := by
  refine .ite ?_ ?_
  · exact .bind (.require _ _) fun _ => .pure _
  · exact .bind (keeps_write fun _ => rfl) fun _ => .pure _

theorem keeps_notifierPassword : (notifierPassword env config).Keeps World.rest := by
  refine .ite ?_ (.pure _)
  exact .bind (.read _) fun existing => .ite (keeps_write fun _ => rfl) (.pure _)

theorem keeps_identityProviders (clients : List Json) : (identityProviders env clients).Keeps World.rest := by
  refine .ite (.pure _) ?_
  exact .bind (keeps_secret _) fun _ => .pure _

theorem keeps_renderConfiguration (postgres : Json) :
    (renderConfiguration env config postgres).Keeps World.rest := by
  refine .bind (.ofExcept _) fun checked => ?_
  refine .bind (keeps_writeSecrets _) fun _ => ?_
  refine .bind (.ofExcept _) fun postgres => ?_
  refine .bind (keeps_write fun _ => rfl) fun _ => ?_
  refine .bind (keeps_notifier _) fun notifier => ?_
  refine .bind (keeps_notifierPassword _) fun _ => ?_
  refine .bind (.read _) fun state => ?_
  refine .bind (.ofExcept _) fun clients => ?_
  refine .bind (.ofExcept _) fun cookie => ?_
  refine .bind (.ofExcept _) fun document => ?_
  refine .bind (keeps_identityProviders _) fun providers => ?_
  refine .bind (keeps_write fun _ => rfl) fun _ => ?_
  exact .bind (.read _) fun users => .ite (keeps_write fun _ => rfl) (.pure _)

theorem keeps_ensureOidcClient (key clientId clientName redirectUri policy : String) :
    (ensureOidcClient env key clientId clientName redirectUri policy).Keeps World.rest := by
  refine .bind (.ofExcept _) fun parsed => ?_
  refine .bind (.require _ _) fun _ => ?_
  refine .bind (.read _) fun state => ?_
  split
  · exact .bind (keeps_write fun _ => rfl) fun _ => .pure _
  · exact .raise _

theorem keeps_managedProvider (redirectUri : String) : (managedProvider env redirectUri).Keeps World.rest := by
  have hservice : serviceConfig.Keeps World.rest := .bind (.read _) fun _ => .ofExcept _
  have hpostgres : postgresConfig.Keeps World.rest := .bind (.read _) fun _ => .pure _
  refine .bind hservice fun config => ?_
  refine .bind (.require _ _) fun _ => ?_
  refine .bind (keeps_ensureOidcClient _ _ _ _ _) fun credentials => ?_
  refine .bind hpostgres fun postgres => ?_
  refine .bind (keeps_renderConfiguration _ _) fun _ => ?_
  exact .bind (.require _ _) fun _ => .pure _

theorem keeps_linkProvider (request : LinkDumbRequest) : (linkProvider env request).Keeps World.rest := by
  refine .bind (.ofExcept _) fun dumbBase => ?_
  refine .bind (.require _ _) fun _ => ?_
  refine .bind ?_ fun credentials => ?_
  · rw [linkCredentials]
    cases request.source with
    | managed => exact keeps_managedProvider _
    | externalAuthelia => exact .pure _
    | customOidc => exact .pure _
  · exact .bind (.require _ _) fun _ => .pure _

/-! ## What is asked for -/

theorem ensureOidcClient_ok {key clientId clientName redirectUri policy : String} {s s' : World} {credentials : Credentials}
    (h : (ensureOidcClient env key clientId clientName redirectUri policy).run s = (.ok credentials, s')) :
    credentials = ⟨clientId, clientSecret env key (registeredClients env s.files)⟩ := by
  obtain ⟨parsed, -, h⟩ := Thread.run_ofExcept_bind_ok.1 h
  obtain ⟨-, h⟩ := Thread.run_require_bind_ok.1 h
  rw [Thread.run_read_bind] at h
  rw [registeredClients]
  cases hclients : (Dict.get? "clients" (loadState env s.files)).getD (.obj []) with
  | obj clients =>
    rw [hclients] at h
    obtain ⟨-, s₁, -, h⟩ := Thread.run_bind_ok.1 h
    rw [Thread.run_pure] at h
    injection h with h
    injection h with h
    exact h.symm
  | _ =>
    rw [hclients] at h
    cases h

theorem serviceConfig_run (s : World) : serviceConfig.run s =
    (orRaise (.http ⟨404, "Authelia service configuration is unavailable"⟩) (membersOf (s.config.field "authelia")), s) := by
  rw [serviceConfig, Thread.run_read_bind, Thread.run_ofExcept]

variable {found : String × Credentials}

theorem managedProvider_ok {redirectUri : String} {s s' : World}
    (h : (managedProvider env redirectUri).run s = (.ok found, s')) :
    found = (strOr env ((membersOf (s.config.field "authelia")).getD []) "public_url" "",
      ⟨"dumb", clientSecret env "dumb" (registeredClients env s.files)⟩) := by
  obtain ⟨config, s₁, hservice, h⟩ := Thread.run_bind_ok.1 h
  rw [serviceConfig_run] at hservice
  obtain ⟨hconfig, rfl⟩ := Prod.mk.inj hservice
  rw [orRaise_ok] at hconfig
  obtain ⟨-, h⟩ := Thread.run_require_bind_ok.1 h
  obtain ⟨credentials, s₂, hensure, h⟩ := Thread.run_bind_ok.1 h
  obtain ⟨postgres, s₃, -, h⟩ := Thread.run_bind_ok.1 h
  obtain ⟨-, s₄, -, h⟩ := Thread.run_bind_ok.1 h
  obtain ⟨-, h⟩ := Thread.run_require_bind_ok.1 h
  injection h with h
  injection h with h
  rw [← h, hconfig, ensureOidcClient_ok hensure, Option.getD_some]

theorem credentialsOf_custom {request : LinkDumbRequest} {s : World} (hsource : request.source ≠ .managed) :
    credentialsOf env request s = (Auth.rstripSlash (env.text.strip request.issuerUrl),
      ⟨env.text.strip request.clientId, request.clientSecret⟩) := by
  rw [credentialsOf]
  cases hsource' : request.source with
  | managed => exact absurd hsource' hsource
  | externalAuthelia => rfl
  | customOidc => rfl

theorem linkCredentials_custom {request : LinkDumbRequest} (hsource : request.source ≠ .managed) (redirectUri : String) (s : World) :
    (linkCredentials env request redirectUri).run s = (.ok (credentialsOf env request s), s) := by
  rw [linkCredentials, credentialsOf_custom hsource]
  cases hsource' : request.source with
  | managed => exact absurd hsource' hsource
  | externalAuthelia => rfl
  | customOidc => rfl

theorem linkCredentials_ok {request : LinkDumbRequest} {redirectUri : String} {s s' : World}
    (h : (linkCredentials env request redirectUri).run s = (.ok found, s')) : found = credentialsOf env request s := by
  by_cases hsource : request.source = .managed
  · have hmanaged : linkCredentials env request redirectUri = managedProvider env redirectUri := by
      rw [linkCredentials, hsource]
    rw [hmanaged] at h
    rw [managedProvider_ok h, credentialsOf, hsource]
  · rw [linkCredentials_custom hsource] at h
    exact (Except.ok.inj (Prod.mk.inj h).1).symm

theorem redirectOf_eq {request : LinkDumbRequest} {dumbBase : String}
    (hbase : absoluteBaseUrl env request.dumbPublicUrl "DUMB public URL" = .ok dumbBase) :
    redirectOf env request = dumbBase ++ String.ofList callbackPath := by
  simp only [redirectOf, hbase]

theorem linkProvider_ok {request : LinkDumbRequest} {s s' : World} {p : OIDCProviderRequest}
    (h : (linkProvider env request).run s = (.ok p, s')) :
    (∃ dumbBase, absoluteBaseUrl env request.dumbPublicUrl "DUMB public URL" = .ok dumbBase) ∧
      (request.mode = .oidc → request.confirmOidcOnly = true) ∧ (credentialsOf env request s).1 ≠ "" ∧
      (credentialsOf env request s).2.clientId ≠ "" ∧ (credentialsOf env request s).2.clientSecret ≠ "" ∧
      p = asked env request s := by
  obtain ⟨dumbBase, hbase, h⟩ := Thread.run_ofExcept_bind_ok.1 h
  obtain ⟨hmode, h⟩ := Thread.run_require_bind_ok.1 h
  obtain ⟨found, s₁, hfound, h⟩ := Thread.run_bind_ok.1 h
  have hfound := linkCredentials_ok hfound
  subst hfound
  obtain ⟨hpresent, h⟩ := Thread.run_require_bind_ok.1 h
  simp only [Bool.and_eq_true, decide_eq_true_eq] at hpresent
  injection h with h
  injection h with h
  refine ⟨⟨dumbBase, hbase⟩, fun hoidc => ?_, hpresent.1.1, hpresent.1.2, hpresent.2, ?_⟩
  · simpa [hoidc] using hmode
  · rw [asked, redirectOf_eq hbase]
    exact h.symm

/-! ## What the other endpoint makes of it -/

theorem eraseDups_sublist {α : Type} [DecidableEq α] (xs : List α) : xs.eraseDups.Sublist xs := by
  induction hn : xs.length using Nat.strongRecOn generalizing xs with
  | ind n ih =>
    cases xs with
    | nil => exact List.Sublist.refl _
    | cons x xs =>
      rw [List.eraseDups_cons]
      have hle : (xs.filter fun y => !y == x).length < n := by
        have := List.length_filter_le (fun y => !y == x) xs
        simp only [List.length_cons] at hn
        omega
      exact ((ih _ hle _ rfl).trans List.filter_sublist).cons_cons x

theorem eraseDups_eq_self {α : Type} [DecidableEq α] : ∀ {xs : List α}, xs.eraseDups = xs ↔ xs.Nodup
  | [] => by simp
  | x :: xs => by
    have hsub := eraseDups_sublist (xs.filter fun y => !y == x)
    rw [List.eraseDups_cons, List.cons.injEq, List.nodup_cons]
    constructor
    · rintro ⟨-, h⟩
      have hle := hsub.length_le
      rw [h] at hle
      have hfilter : (xs.filter fun y => !y == x) = xs := List.filter_sublist.eq_of_length_le hle
      rw [hfilter] at h
      refine ⟨fun hmem => ?_, eraseDups_eq_self.1 h⟩
      rw [← hfilter] at hmem
      simpa using (List.mem_filter.1 hmem).2
    · rintro ⟨hx, hnodup⟩
      have hfilter : (xs.filter fun y => !y == x) = xs := by
        rw [List.filter_eq_self]
        intro y hy
        have hne : y ≠ x := fun h => hx (h ▸ hy)
        simpa using hne
      exact ⟨rfl, by rw [hfilter, eraseDups_eq_self.2 hnodup]⟩

theorem lower_strip_plain (text : Text) {word : String} (hplain : Plain word) (hlower : asciiLower word = word) :
    text.lower (text.strip word) = word := by
  rw [text.strip_plain hplain, text.lower_plain hplain, hlower]

theorem Mode.normal (mode : Mode) (text : Text) : text.lower (text.strip mode.text) = mode.text := by
  cases mode with
  | oidc => exact lower_strip_plain text (by decide) (by decide)
  | hybrid => exact lower_strip_plain text (by decide) (by decide)

theorem Source.normal (source : Source) (text : Text) : text.lower (text.strip source.text) = source.text := by
  cases source with
  | managed => exact lower_strip_plain text (by decide) (by decide)
  | externalAuthelia => exact lower_strip_plain text (by decide) (by decide)
  | customOidc => exact lower_strip_plain text (by decide) (by decide)

theorem strings_inj {xs ys : List String} : Auth.strings xs = Auth.strings ys ↔ xs = ys := by
  rw [Auth.strings, Auth.strings, Json.arr.injEq]
  exact List.map_inj_right fun a b h => by injection h

theorem validate_dump_iff (router : Auth.Env) {p : OIDCProviderRequest} {mode : Mode} {source : Source}
    (hmode : p.mode = mode.text) (hsource : p.source = source.text) (hconfirm : mode = .oidc → p.confirmOidcOnly = true) :
    Auth.validateOidcProvider router (dump p) p = .ok (p.mode, dump p) ↔
      (router.text.blank (.str p.issuerUrl) = false ∧ router.text.blank (.str p.clientId) = false ∧
        router.text.blank (.str p.clientSecret) = false ∧ router.text.blank (.str p.redirectUri) = false) ∧
      router.redirect (router.text.strip p.redirectUri) = true ∧ router.text.strip p.redirectUri = p.redirectUri ∧
      router.text.strip (if p.providerName ≠ "" then p.providerName else "Single Sign-On") = p.providerName ∧
      Auth.rstripSlash (router.text.strip p.issuerUrl) = p.issuerUrl ∧
      p.scopes.eraseDups = p.scopes ∧ p.allowedGroups.eraseDups = p.allowedGroups ∧
      max 2 (min 30 p.timeoutSeconds) = p.timeoutSeconds := by
  -- the mode and the source pass
  have hknown : ¬mode.text ∉ ["local", "oidc", "hybrid"] := by cases mode <;> decide
  have hnotLocal : ¬mode.text = "local" := by cases mode <;> decide
  have hconfirmed : ¬(mode.text = "oidc" ∧ p.confirmOidcOnly = false) := by
    rintro ⟨htext, hnot⟩
    cases mode with
    | oidc =>
      rw [hconfirm rfl] at hnot
      cases hnot
    | hybrid => exact absurd htext (by decide)
  have hnamed : source.text ≠ "" := by cases source <;> decide
  have hpresent : Auth.currentSource source.text = source.text := by cases source <;> decide
  have hsupported : ¬source.text ∉ ["managed", "external_authelia", "custom_oidc"] := by cases source <;> decide
  -- the provider in force is the same one
  have hcurrent : (Json.obj (dump p)).field "source" = .str source.text := by
    rw [← hsource]
    rfl
  have horEmpty : router.text.orEmpty (.str source.text) = source.text := by
    rw [Text.orEmpty, router.text.str_str]
    simp [Json.truthy, hnamed]
  have hsecret : (Dict.get? "client_secret" (dump p)).getD (.str "") = .str p.clientSecret := rfl
  rw [Auth.validateOidcProvider]
  simp only [hmode, mode.normal, hknown, hconfirmed, hnotLocal, hsource, if_false, if_pos hnamed, source.normal, hpresent,
    hsupported, hcurrent, horEmpty, hsecret, ite_self]
  by_cases hblank : router.text.blank (.str p.issuerUrl) = false ∧ router.text.blank (.str p.clientId) = false ∧
      router.text.blank (.str p.clientSecret) = false ∧ router.text.blank (.str p.redirectUri) = false
  · have hmissing : [("issuer_url", Json.str p.issuerUrl), ("client_id", .str p.clientId),
        ("client_secret", .str p.clientSecret), ("redirect_uri", .str p.redirectUri)].filter
          (fun m => router.text.blank m.2) = [] := by simp [hblank]
    simp only [hmissing, ne_eq, not_true_eq_false, if_false, hblank, and_self, true_and]
    rw [Auth.validatedOidcRedirectUri]
    by_cases hredirect : router.redirect (router.text.strip p.redirectUri) = true
    · simp only [hredirect, if_true, true_and]
      simp [bind, Except.bind, pure, Except.pure, dump, strings_inj, hsource]
      constructor
      · rintro ⟨hname, hissuer, hredirect, hlists⟩
        exact ⟨hredirect, hname, hissuer, hlists⟩
      · rintro ⟨hredirect, hname, hissuer, hlists⟩
        exact ⟨hname, hissuer, hredirect, hlists⟩
    · simp [hredirect, bind, Except.bind]
  · have hmissing : [("issuer_url", Json.str p.issuerUrl), ("client_id", .str p.clientId),
        ("client_secret", .str p.clientSecret), ("redirect_uri", .str p.redirectUri)].filter
          (fun m => router.text.blank m.2) ≠ [] := by
      intro h
      rw [List.filter_eq_nil_iff] at h
      simp at h
      exact hblank h
    simp only [hmissing, hblank, if_true, ne_eq, not_false_eq_true, false_and, iff_false]
    intro h
    cases h

/-! ## The redirect URI -/

theorem browserFacing_iff {p : Url.Parts} : browserFacing env p = true ↔
    p.scheme = ['h', 't', 't', 'p', 's'] ∧ p.params = [] ∧ p.query = [] ∧ p.fragment = [] ∧
      browserFacing env ⟨['h', 't', 't', 'p', 's'], p.netloc, [], [], [], []⟩ = true := by
  obtain ⟨scheme, netloc, path, params, query, fragment⟩ := p
  constructor
  · intro h
    have h' := h
    simp only [browserFacing, Bool.and_eq_true, decide_eq_true_eq] at h'
    obtain ⟨⟨⟨hrest, hparams⟩, hquery⟩, hfragment⟩ := h'
    have hscheme : scheme = ['h', 't', 't', 'p', 's'] := by
      have hlist := congrArg String.toList hrest.1.1.1.1.1.1.1
      rwa [String.toList_ofList] at hlist
    subst hscheme hparams hquery hfragment
    exact ⟨rfl, rfl, rfl, rfl, h⟩
  · rintro ⟨rfl, rfl, rfl, rfl, h⟩
    exact h

theorem hostname_empty {p : Url.Parts} (h : p.netloc = []) : hostname env p = "" := by
  have hhost : p.host = [] := by
    rw [Url.Parts.host, Url.Parts.hostinfo, h]
    rfl
  have hlower : env.text.lower "" = "" := by
    rw [env.text.lower_plain (by decide)]
    rfl
  rw [hostname, hhost]
  show env.text.lower (env.text.lower "" ++ "" ++ "") = ""
  rw [hlower]
  exact hlower

theorem absoluteBaseUrl_ok {value label dumbBase : String} (h : absoluteBaseUrl env value label = .ok dumbBase) :
    ∃ p, urlparse env (env.text.strip value) = some p ∧ browserFacing env p = true ∧ p.netloc ≠ [] ∧
      dumbBase = String.ofList (Url.origin p.netloc) := by
  rw [absoluteBaseUrl] at h
  cases hparse : (urlparse env (env.text.strip value)).filter fun p => browserFacing env p && basePath p with
  | none =>
    rw [hparse] at h
    cases h
  | some p =>
    rw [hparse] at h
    injection h with h
    rw [Option.filter_eq_some_iff, Bool.and_eq_true] at hparse
    obtain ⟨hparse, hfacing, hpath⟩ := hparse
    obtain ⟨hscheme, hparams, hquery, hfragment, -⟩ := browserFacing_iff.1 hfacing
    have hpath : p.path = [] ∨ p.path = ['/'] := by simpa [basePath] using hpath
    have hnetloc : p.netloc ≠ [] := by
      intro hnil
      simp [browserFacing, hostname_empty hnil] at hfacing
    refine ⟨p, hparse, hfacing, hnetloc, ?_⟩
    rw [← h, rstripSlash, Url.geturl_origin hscheme hpath hparams hquery hfragment,
      Url.origin_stripped (Url.netloc_of_urlparse hparse) hnetloc hpath]

theorem redirectAccepted_iff {value : String} {p : Url.Parts} (hparse : urlparse env value = some p)
    (hfacing : browserFacing env p = true) :
    redirectAccepted env (String.ofList (Url.origin p.netloc) ++ String.ofList callbackPath) = true ↔
      p.portReadable = true := by
  have hread : urlparse env (String.ofList (Url.origin p.netloc) ++ String.ofList callbackPath) =
      some ⟨['h', 't', 't', 'p', 's'], p.netloc, callbackPath, [], [], []⟩ := by
    rw [urlparse, String.toList_append, String.toList_ofList, String.toList_ofList]
    exact Url.urlparse_origin (Url.netloc_of_urlparse hparse) (Url.check_of_urlparse hparse) rfl (by decide)
  have hsame : browserFacing env ⟨['h', 't', 't', 'p', 's'], p.netloc, callbackPath, [], [], []⟩ = true :=
    (browserFacing_iff.1 hfacing).2.2.2.2
  have hport : Url.Parts.portReadable ⟨['h', 't', 't', 'p', 's'], p.netloc, callbackPath, [], [], []⟩ = p.portReadable := rfl
  rw [redirectAccepted, hread, Option.any_some, hsame, hport]
  simp

/-! ## The contract -/

theorem blank_str (text : Text) (s : String) : text.blank (.str s) = decide (text.strip s = "") := by
  have horEmpty : text.orEmpty (.str s) = s := by
    by_cases hs : s = ""
    · simp [Text.orEmpty, Json.truthy, hs]
    · simp [Text.orEmpty, Json.truthy, hs, text.str_str]
  rw [Text.blank, horEmpty]

theorem strip_redirect (hlaws : Lawful env.text) (netloc : List Char) :
    env.text.strip (String.ofList (Url.origin netloc) ++ String.ofList callbackPath) =
      String.ofList (Url.origin netloc) ++ String.ofList callbackPath := by
  apply hlaws.strip_ends
  · intro c hc
    simp only [String.toList_append, String.toList_ofList, Url.origin, List.cons_append, List.head?_cons, Option.mem_def,
      Option.some.injEq] at hc
    subst hc
    decide
  · intro c hc
    have hlast : (Url.origin netloc ++ callbackPath).getLast? = some 'k' := by
      rw [List.getLast?_append]
      rfl
    simp only [String.toList_append, String.toList_ofList, hlast, Option.mem_def, Option.some.injEq] at hc
    subst hc
    decide

theorem strip_asked (hlaws : Lawful env.text) (request : LinkDumbRequest) (s : World) :
    env.text.strip (if (asked env request s).providerName ≠ "" then (asked env request s).providerName
      else "Single Sign-On") = (asked env request s).providerName := by
  have hdefault : env.text.strip "Single Sign-On" = "Single Sign-On" := hlaws.strip_ends _ (by decide) (by decide)
  by_cases hname : env.text.strip request.providerName = ""
  · simp [asked, provider, hname, hdefault]
  · simp [asked, provider, hname, hlaws.strip_strip]

theorem clientId_present (hlaws : Lawful env.text) {request : LinkDumbRequest} {s : World}
    (hclient : (credentialsOf env request s).2.clientId ≠ "") :
    env.text.strip (credentialsOf env request s).2.clientId ≠ "" := by
  rw [credentialsOf] at hclient ⊢
  cases hsource : request.source with
  | managed =>
    show env.text.strip "dumb" ≠ ""
    rw [env.text.strip_plain (by decide)]
    decide
  | externalAuthelia =>
    rw [hsource] at hclient
    show env.text.strip (env.text.strip request.clientId) ≠ ""
    rw [hlaws.strip_strip]
    exact hclient
  | customOidc =>
    rw [hsource] at hclient
    show env.text.strip (env.text.strip request.clientId) ≠ ""
    rw [hlaws.strip_strip]
    exact hclient

theorem validate_asked_iff (hlaws : Lawful env.text) (passwords : Auth.Passwords) (words : String → List String)
    {request : LinkDumbRequest} {s s' : World} {p : OIDCProviderRequest}
    (h : (linkProvider env request).run s = (.ok p, s')) :
    Auth.validateOidcProvider (routerEnv env passwords words) (dump (asked env request s)) (asked env request s) =
      .ok ((asked env request s).mode, dump (asked env request s)) ↔ Clean env request s := by
  obtain ⟨⟨dumbBase, hbase⟩, hconfirm, hissuer, hclient, -, -⟩ := linkProvider_ok h
  obtain ⟨parts, hparse, hfacing, -, rfl⟩ := absoluteBaseUrl_ok hbase
  have hredirectOf : (asked env request s).redirectUri =
      String.ofList (Url.origin parts.netloc) ++ String.ofList callbackPath := by
    exact redirectOf_eq hbase
  have hredirect : env.text.strip (asked env request s).redirectUri = (asked env request s).redirectUri := by
    rw [hredirectOf]
    exact strip_redirect hlaws parts.netloc
  have hpresent : (asked env request s).redirectUri ≠ "" := by
    intro hnil
    have hlist := congrArg String.toList (hredirectOf.symm.trans hnil)
    simp [Url.origin] at hlist
  have hport : redirectAccepted env (asked env request s).redirectUri = true ↔ parts.portReadable = true := by
    rw [hredirectOf]
    exact redirectAccepted_iff hparse hfacing
  have hclientId := clientId_present hlaws hclient
  have hissuerBlank : Auth.rstripSlash (env.text.strip (credentialsOf env request s).1) = (credentialsOf env request s).1 →
      env.text.strip (credentialsOf env request s).1 ≠ "" := by
    intro hclean hblank
    rw [hblank] at hclean
    exact hissuer hclean.symm
  have hmode : (asked env request s).mode = request.mode.text := rfl
  have hsource : (asked env request s).source = request.source.text := rfl
  rw [validate_dump_iff _ hmode hsource hconfirm]
  show (_ ∧ redirectAccepted env _ = true ∧ _) ↔ _
  simp only [blank_str, decide_eq_false_iff_not]
  constructor
  · rintro ⟨⟨-, -, hsecret, -⟩, haccepted, -, -, hclean, hscopes, hgroups, -⟩
    refine ⟨fun q hq => ?_, hclean, hsecret, eraseDups_eq_self.1 hscopes, eraseDups_eq_self.1 hgroups⟩
    obtain rfl := Option.some.inj (hparse.symm.trans hq)
    rw [← hport, ← hredirect]
    exact haccepted
  · rintro ⟨hreadable, hclean, hsecret, hscopes, hgroups⟩
    refine ⟨⟨hissuerBlank hclean, hclientId, hsecret, ?_⟩, ?_, hredirect, strip_asked hlaws request s, hclean,
      eraseDups_eq_self.2 hscopes, eraseDups_eq_self.2 hgroups, rfl⟩
    · exact fun hblank => hpresent (hredirect.symm.trans hblank)
    · show redirectAccepted env (env.text.strip _) = true
      rw [hredirect]
      exact hport.2 (hreadable parts hparse)

theorem dump_inj {p q : OIDCProviderRequest} (hmode : p.mode = q.mode) (hconfirm : p.confirmOidcOnly = q.confirmOidcOnly)
    (h : dump p = dump q) : p = q := by
  cases p
  cases q
  simp only [dump, List.cons.injEq, Prod.mk.injEq, Json.bool.injEq, Json.str.injEq, Json.int.injEq, strings_inj, true_and,
    and_true] at h hmode hconfirm
  simp [h, hmode, hconfirm]

def linked (env : Env) (request : LinkDumbRequest) (s : World) : String × List (String × Json) × Bool :=
  (request.mode.text, dump (asked env request s), true)

def Reaches (env : Env) (request : LinkDumbRequest) (s : World) : Prop :=
  ∃ p s', (linkProvider env request).run s = (.ok p, s')

structure Kept (env : Env) (request : LinkDumbRequest) (s : World) : Prop where
  clean : env.fate .saveProvider = .fine → env.fate .saveEnabled = .fine → Clean env request s
  unsaved : env.fate .saveProvider ≠ .fine →
    s.auth.config.mode = request.mode.text ∧ s.auth.config.oidc = dump (asked env request s)
  unfinished : env.fate .saveProvider = .fine → env.fate .saveEnabled ≠ .fine →
    signIn s.auth.config = linked env request s ∧ signIn s.auth.file = linked env request s

theorem Mode.saved (mode : Mode) (text : Text) (config : Auth.UserConfig) (oidc : List (String × Json)) :
    signIn (({ config with mode := mode.text, oidc := oidc } : Auth.UserConfig).saved text) =
      (mode.text, oidc, config.enabled) := by
  have hne : mode.text ≠ "" := by cases mode <;> decide
  have hknown : mode.text ∈ ["local", "oidc", "hybrid"] := by cases mode <;> decide
  simp only [signIn, Auth.UserConfig.saved, Auth.UserConfig.getAuthMode, if_pos hne, mode.normal, if_pos hknown]

def withProvider (p : OIDCProviderRequest) (config : Auth.UserConfig) : Auth.UserConfig :=
  { config with mode := p.mode, oidc := dump p }

section
variable {request : LinkDumbRequest} {s s' : World} {p : OIDCProviderRequest}
variable (h : (linkProvider env request).run s = (.ok p, s'))

include h in
theorem linkDumbAuth_unsaved (hfate : env.fate .saveProvider ≠ .fine) : (linkDumbAuth env request).run s =
    (.error .other, { s' with auth := { s'.auth with config := withProvider p s'.auth.config } }) := by
  rw [linkDumbAuth, Thread.run_bind, h]
  simp only [setAuth, saveAuth, Thread.run_modify_bind]
  cases hprovider : env.fate .saveProvider with
  | fine => exact absurd hprovider hfate
  | fails => rfl
  | failsLate => rfl

include h in
theorem linkDumbAuth_unfinished (hprovider : env.fate .saveProvider = .fine) (hfate : env.fate .saveEnabled ≠ .fine) :
    (linkDumbAuth env request).run s = (.error .other, { s' with
      auth := { s'.auth with
        config := { withProvider p s'.auth.config with enabled := true }
        file := (withProvider p s'.auth.config).saved env.text } }) := by
  rw [linkDumbAuth, Thread.run_bind, h]
  simp only [setAuth, saveAuth, hprovider, Thread.run_modify_bind]
  cases henabled : env.fate .saveEnabled with
  | fine => exact absurd henabled hfate
  | fails => rfl
  | failsLate => rfl

include h in
theorem linkDumbAuth_done (hprovider : env.fate .saveProvider = .fine) (henabled : env.fate .saveEnabled = .fine) :
    (linkDumbAuth env request).run s =
      (.ok ⟨request.mode.text, request.source.text, p.redirectUri, request.mode = .hybrid⟩, { s' with
        auth := { s'.auth with
          config := { withProvider p s'.auth.config with enabled := true }
          file := ({ withProvider p s'.auth.config with enabled := true } : Auth.UserConfig).saved env.text } }) := by
  rw [linkDumbAuth, Thread.run_bind, h]
  simp only [setAuth, saveAuth, hprovider, henabled, Thread.run_modify_bind]
  rfl

theorem contract_done {router : Auth.Env} {response : LinkDumbResponse}
    (hrun : (linkDumbAuth env request).run s = (.ok response, s')) : Contract env router request s ↔
      ∃ p : OIDCProviderRequest, p.mode = request.mode.text ∧ p.confirmOidcOnly = request.confirmOidcOnly ∧
        s'.auth.config.mode = p.mode ∧ s'.auth.config.oidc = dump p ∧
        Auth.validateOidcProvider router s'.auth.config.oidc p = .ok (p.mode, dump p) := by
  constructor
  · exact fun h => h.done response s' hrun
  · intro h
    constructor
    · intro response' s₁ hrun'
      obtain ⟨-, rfl⟩ := Prod.mk.inj (hrun.symm.trans hrun')
      exact h
    · intro e s₁ hrun'
      cases hrun.symm.trans hrun'

theorem contract_failed {router : Auth.Env} {e : Failure} (hrun : (linkDumbAuth env request).run s = (.error e, s')) :
    Contract env router request s ↔
      signIn s'.auth.config = signIn s.auth.config ∧ signIn s'.auth.file = signIn s.auth.file := by
  constructor
  · exact fun h => h.failed e s' hrun
  · intro h
    constructor
    · intro response s₁ hrun'
      cases hrun.symm.trans hrun'
    · intro e' s₁ hrun'
      obtain ⟨-, rfl⟩ := Prod.mk.inj (hrun.symm.trans hrun')
      exact h

theorem contract_of_reaches (hlaws : Lawful env.text) (passwords : Auth.Passwords) (words : String → List String)
    (h : (linkProvider env request).run s = (.ok p, s')) :
    Contract env (routerEnv env passwords words) request s ↔ Kept env request s := by
  have hvalidate := validate_asked_iff hlaws passwords words h
  have hrest : ((linkProvider env request).run s).2.rest = s.rest := keeps_linkProvider request s
  obtain rfl := (linkProvider_ok h).2.2.2.2.2
  rw [h] at hrest
  have hauth : s'.auth = s.auth := congrArg (fun rest => rest.2.2) hrest
  by_cases hprovider : env.fate .saveProvider = .fine
  · by_cases henabled : env.fate .saveEnabled = .fine
    · have hkept : Kept env request s ↔ Clean env request s :=
        ⟨fun hkept => hkept.clean hprovider henabled,
          fun hclean => ⟨fun _ _ => hclean, fun hne => absurd hprovider hne, fun _ hne => absurd henabled hne⟩⟩
      rw [hkept, ← hvalidate, contract_done (linkDumbAuth_done h hprovider henabled)]
      constructor
      · rintro ⟨q, hmode, hconfirm, -, hoidc, hvalid⟩
        obtain rfl : q = asked env request s := dump_inj hmode hconfirm hoidc.symm
        exact hvalid
      · intro hvalid
        exact ⟨asked env request s, rfl, rfl, rfl, rfl, hvalid⟩
    · have hkept : Kept env request s ↔
          signIn s.auth.config = linked env request s ∧ signIn s.auth.file = linked env request s :=
        ⟨fun hkept => hkept.unfinished hprovider henabled,
          fun hsame => ⟨fun _ he => absurd he henabled, fun hne => absurd hprovider hne, fun _ _ => hsame⟩⟩
      rw [hkept, contract_failed (linkDumbAuth_unfinished h hprovider henabled)]
      have hsaved : signIn ((withProvider (asked env request s) s'.auth.config).saved env.text) =
          (request.mode.text, dump (asked env request s), s'.auth.config.enabled) := request.mode.saved env.text _ _
      show linked env request s = _ ∧ signIn (Auth.UserConfig.saved _ _) = _ ↔ _
      rw [hsaved, hauth]
      constructor
      · rintro ⟨hconfig, hfile⟩
        have henabled : s.auth.config.enabled = true := (congrArg (fun t => t.2.2) hconfig).symm
        rw [henabled] at hfile
        exact ⟨hconfig.symm, hfile.symm⟩
      · rintro ⟨hconfig, hfile⟩
        have henabled : s.auth.config.enabled = true := congrArg (fun t => t.2.2) hconfig
        rw [henabled]
        exact ⟨hconfig.symm, hfile.symm⟩
  · have hkept : Kept env request s ↔
        s.auth.config.mode = request.mode.text ∧ s.auth.config.oidc = dump (asked env request s) :=
      ⟨fun hkept => hkept.unsaved hprovider,
        fun hsame => ⟨fun he => absurd he hprovider, fun _ => hsame, fun he => absurd he hprovider⟩⟩
    rw [hkept, contract_failed (linkDumbAuth_unsaved h hprovider)]
    show (request.mode.text, dump (asked env request s), s'.auth.config.enabled) = _ ∧ signIn s'.auth.file = _ ↔ _
    rw [hauth]
    simp only [signIn, Prod.mk.injEq, and_true]
    exact and_congr eq_comm eq_comm

end

/-- The two endpoints keep their contract if and only if a request that gets as far as the change is clean, and asks for
what is there already where it cannot be saved. -/
theorem contract_iff (env : Env) (hlaws : Lawful env.text) (passwords : Auth.Passwords) (words : String → List String)
    (request : LinkDumbRequest) (s : World) :
    Contract env (routerEnv env passwords words) request s ↔ (Reaches env request s → Kept env request s) := by
  cases hrun : (linkProvider env request).run s with
  | mk r s' =>
    cases r with
    | ok p =>
      have hreaches : Reaches env request s := ⟨p, s', hrun⟩
      rw [contract_of_reaches hlaws passwords words hrun]
      exact ⟨fun hkept _ => hkept, fun h => h hreaches⟩
    | error e =>
      have hrest : ((linkProvider env request).run s).2.rest = s.rest := keeps_linkProvider request s
      rw [hrun] at hrest
      have hauth : s'.auth = s.auth := congrArg (fun rest => rest.2.2) hrest
      have hlink : (linkDumbAuth env request).run s = (.error e, s') := by rw [linkDumbAuth, Thread.run_bind, hrun]
      have hcontract : Contract env (routerEnv env passwords words) request s := by
        rw [contract_failed hlink, hauth]
        exact ⟨rfl, rfl⟩
      refine ⟨fun _ hreaches => ?_, fun _ => hcontract⟩
      obtain ⟨p, s₁, hreaches⟩ := hreaches
      rw [hrun] at hreaches
      cases hreaches

theorem reaches_custom (hsource : request.source ≠ .managed)
    (hbase : (absoluteBaseUrl env request.dumbPublicUrl "DUMB public URL").isOk = true)
    (hmode : request.mode = .hybrid) (hissuer : Auth.rstripSlash (env.text.strip request.issuerUrl) ≠ "")
    (hclient : env.text.strip request.clientId ≠ "") (hsecret : request.clientSecret ≠ "") (s : World) :
    (linkProvider env request).run s = (.ok (asked env request s), s) := by
  obtain ⟨dumbBase, hbase⟩ : ∃ dumbBase, absoluteBaseUrl env request.dumbPublicUrl "DUMB public URL" = .ok dumbBase := by
    cases hresult : absoluteBaseUrl env request.dumbPublicUrl "DUMB public URL" with
    | error e =>
      rw [hresult] at hbase
      cases hbase
    | ok dumbBase => exact ⟨dumbBase, rfl⟩
  have hpresent : (credentialsOf env request s).1 ≠ "" ∧ (credentialsOf env request s).2.clientId ≠ "" ∧
      (credentialsOf env request s).2.clientSecret ≠ "" := by
    rw [credentialsOf_custom hsource]
    exact ⟨hissuer, hclient, hsecret⟩
  rw [linkProvider, Thread.run_bind, Thread.run_ofExcept, hbase]
  simp only []
  rw [Thread.run_bind, Thread.run_require, hmode]
  simp only [ne_eq, reduceCtorEq, not_false_eq_true, decide_true, Bool.true_or, if_true]
  rw [Thread.run_bind, linkCredentials_custom hsource]
  simp only []
  rw [Thread.run_bind, Thread.run_require]
  simp [hpresent, asked, redirectOf_eq hbase]

/-! ## Samples -/

theorem lawful_ascii : Lawful .ascii where
  strip_strip := asciiStrip_asciiStrip
  strip_ends _ hfront hback := asciiStrip_eq_self.2
    ⟨fun c hc => printable_not_white (hfront c hc).1, fun c hc => printable_not_white (hback c hc).1⟩

def asciiEnv (fate : Op → Fate) : Env where
  text := .ascii
  checkNetloc _ := true
  isIp _ := false
  int := Json.asInt
  passwordHash password := some ("hash of " ++ password)
  clientHash secret := "hash of " ++ secret
  fresh name := "fresh " ++ name
  yamlLoad _ := none
  yamlDumpSorted _ := ""
  yamlDump _ := ""
  jsonLoad _ := none
  jsonDump _ := ""
  fate := fate

def noPasswords : Auth.Passwords := ⟨id, fun _ _ => false⟩

def fineEnv : Env := asciiEnv fun _ => .fine

def unsavedEnv : Env := asciiEnv fun op => if op = .saveProvider then .fails else .fine

def address (netloc : List Char) : String := String.ofList (Url.origin netloc ++ ['/'])

def partsOf (netloc : List Char) : Url.Parts := ⟨['h', 't', 't', 'p', 's'], netloc, ['/'], [], [], []⟩

def customRequest (netloc : List Char) (secret : String) (scopes : List String) : LinkDumbRequest where
  source := .customOidc
  mode := .hybrid
  providerName := ""
  dumbPublicUrl := address netloc
  issuerUrl := "https://sso.example.org"
  discoveryUrl := ""
  clientId := "dumb"
  clientSecret := secret
  scopes := scopes
  usernameClaim := "preferred_username"
  groupsClaim := "groups"
  allowedGroups := []
  tlsVerify := true
  allowPrivateEndpoints := false
  allowHttp := false
  confirmOidcOnly := false

def freshWorld : World where
  config := .obj []
  saved := none
  files := ⟨.missing, .missing, .missing, []⟩
  auth := ⟨.default, .default, ⟨[], [], []⟩⟩

section
variable (fate : Op → Fate) (netloc : List Char) (secret : String) (scopes : List String)

theorem asciiEnv_strip : (asciiEnv fate).text.strip = asciiStrip := rfl

theorem customRequest_source : (customRequest netloc secret scopes).source ≠ .managed := by
  rw [customRequest]
  exact Source.noConfusion

theorem asciiStrip_address : asciiStrip (address netloc) = address netloc := by
  apply lawful_ascii.strip_ends
  · intro c hc
    simp only [address, String.toList_ofList, Url.origin, List.cons_append, List.head?_cons, Option.mem_def,
      Option.some.injEq] at hc
    subst hc
    decide
  · intro c hc
    simp only [address, String.toList_ofList, List.getLast?_concat, Option.mem_def, Option.some.injEq] at hc
    subst hc
    decide

variable {netloc} in
theorem urlparse_address (hnetloc : ∀ c ∈ netloc, Url.isDelimiter c = false ∧ Url.isUnsafe c = false) :
    urlparse (asciiEnv fate) (address netloc) = some (partsOf netloc) := by
  rw [urlparse, address, String.toList_ofList]
  exact Url.urlparse_origin hnetloc rfl rfl (by decide)

theorem issuer_stripped : Auth.rstripSlash (asciiStrip (Auth.rstripSlash (asciiStrip "https://sso.example.org"))) =
    Auth.rstripSlash (asciiStrip "https://sso.example.org") := by decide +kernel

variable {netloc} in
theorem clean_custom (hnetloc : ∀ c ∈ netloc, Url.isDelimiter c = false ∧ Url.isUnsafe c = false) :
    Clean (asciiEnv fate) (customRequest netloc secret scopes) freshWorld ↔
      (partsOf netloc).portReadable = true ∧
        asciiStrip secret ≠ "" ∧ scopes.Nodup := by
  have hsource := customRequest_source netloc secret scopes
  have hparse := urlparse_address fate hnetloc
  rw [← asciiStrip_address] at hparse
  constructor
  · intro h
    refine ⟨h.port _ hparse, ?_, h.scopes⟩
    have hsecret := h.secret
    rwa [credentialsOf_custom hsource, asciiEnv_strip] at hsecret
  · rintro ⟨hport, hsecret, hscopes⟩
    constructor
    · intro p hp
      obtain rfl := Option.some.inj (hparse.symm.trans hp)
      exact hport
    · rw [credentialsOf_custom hsource, asciiEnv_strip]
      simp only [customRequest]
      exact issuer_stripped
    · rw [credentialsOf_custom hsource, asciiEnv_strip]
      exact hsecret
    · exact hscopes
    · exact List.nodup_nil

variable {netloc secret} in
theorem reaches_sample (hnetloc : ∀ c ∈ netloc, Url.isDelimiter c = false ∧ Url.isUnsafe c = false)
    (hfacing : browserFacing (asciiEnv fate) (partsOf netloc) = true)
    (hsecret : secret ≠ "") : (linkProvider (asciiEnv fate) (customRequest netloc secret scopes)).run freshWorld =
      (.ok (asked (asciiEnv fate) (customRequest netloc secret scopes) freshWorld), freshWorld) := by
  have hbase : (absoluteBaseUrl (asciiEnv fate) (address netloc) "DUMB public URL").isOk = true := by
    rw [absoluteBaseUrl, asciiEnv_strip, asciiStrip_address, urlparse_address fate hnetloc, Option.filter_some, hfacing]
    rfl
  apply reaches_custom (customRequest_source netloc secret scopes) hbase rfl
  · rw [asciiEnv_strip]
    simp only [customRequest]
    decide +kernel
  · rw [asciiEnv_strip]
    simp only [customRequest]
    decide +kernel
  · exact hsecret

end

def dumbHost : List Char := "dumb.example.org:8443".toList

theorem contract_custom : Contract fineEnv (routerEnv fineEnv noPasswords fun _ => [])
    (customRequest dumbHost "secret" ["openid", "email"]) freshWorld := by
  have hclean : Clean fineEnv (customRequest dumbHost "secret" ["openid", "email"]) freshWorld :=
    (clean_custom _ _ _ (by decide +kernel)).2 ⟨by decide +kernel, by decide +kernel, by decide⟩
  have hkept : Kept fineEnv (customRequest dumbHost "secret" ["openid", "email"]) freshWorld :=
    ⟨fun _ _ => hclean, fun hne => absurd rfl hne, fun _ hne => absurd rfl hne⟩
  exact (contract_iff fineEnv lawful_ascii noPasswords (fun _ => []) (customRequest dumbHost "secret" ["openid", "email"])
    freshWorld).2 fun _ => hkept

/-- A port that is none, a blank secret and a scope said twice are stored, where the other endpoint refuses or changes
them. -/
theorem contract_broken :
    (¬Contract fineEnv (routerEnv fineEnv noPasswords fun _ => [])
        (customRequest "dumb.example.org:99999".toList "secret" ["openid"]) freshWorld ∧
      ¬Contract fineEnv (routerEnv fineEnv noPasswords fun _ => []) (customRequest dumbHost " " ["openid"]) freshWorld ∧
      ¬Contract fineEnv (routerEnv fineEnv noPasswords fun _ => [])
        (customRequest dumbHost "secret" ["openid", "openid"]) freshWorld) ∧
    ¬Contract unsavedEnv (routerEnv unsavedEnv noPasswords fun _ => [])
      (customRequest dumbHost "secret" ["openid"]) freshWorld := by
  have hhost : ∀ c ∈ dumbHost, Url.isDelimiter c = false ∧ Url.isUnsafe c = false := by decide +kernel
  have hfacing : browserFacing fineEnv (partsOf dumbHost) = true := by decide +kernel
  have hfacing' : browserFacing unsavedEnv (partsOf dumbHost) = true := by decide +kernel
  refine ⟨⟨fun h => ?_, fun h => ?_, fun h => ?_⟩, fun h => ?_⟩
  · have hfar : ∀ c ∈ "dumb.example.org:99999".toList, Url.isDelimiter c = false ∧ Url.isUnsafe c = false := by
      decide +kernel
    have hfacing'' : browserFacing fineEnv (partsOf "dumb.example.org:99999".toList) = true := by decide +kernel
    have hreaches := reaches_sample (fun _ => .fine) ["openid"] hfar hfacing'' (show "secret" ≠ "" by decide)
    have hkept := (contract_of_reaches lawful_ascii noPasswords (fun _ => []) hreaches).1 h
    exact absurd ((clean_custom _ _ _ hfar).1 (hkept.clean rfl rfl)).1 (by decide +kernel)
  · have hreaches := reaches_sample (fun _ => .fine) ["openid"] hhost hfacing (show " " ≠ "" by decide)
    have hkept := (contract_of_reaches lawful_ascii noPasswords (fun _ => []) hreaches).1 h
    exact ((clean_custom _ _ _ hhost).1 (hkept.clean rfl rfl)).2.1 (by decide +kernel)
  · have hreaches := reaches_sample (fun _ => .fine) ["openid", "openid"] hhost hfacing (show "secret" ≠ "" by decide)
    have hkept := (contract_of_reaches lawful_ascii noPasswords (fun _ => []) hreaches).1 h
    exact absurd ((clean_custom _ _ _ hhost).1 (hkept.clean rfl rfl)).2.2 (by decide)
  · have hreaches := reaches_sample (fun op => if op = .saveProvider then .fails else .fine) ["openid"] hhost hfacing'
      (show "secret" ≠ "" by decide)
    have hkept := (contract_of_reaches lawful_ascii noPasswords (fun _ => []) hreaches).1 h
    exact absurd (hkept.unsaved (by decide)).1 (by decide)

end

end Dumb.Authelia
