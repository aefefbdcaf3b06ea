import Dumb.Lib.Regex

/-!
# What is redacted in a log

`SENSITIVE_LOG_REDACTIONS` and `redact_sensitive_log_data` from `utils/logger.py`. A text is the list of its characters.
-/

namespace Dumb.Logs

open Py Re

structure Unicode where
  word : Char → Bool
  space : Char → Bool

def Unicode.ascii : Unicode where
  word c := c.isAlphanum || c = '_'
  space c := c.isWhitespace || c = '\x0b' || c = '\x0c' || (28 ≤ c.toNat && c.toNat ≤ 31)

/-- The case a letter is compared in under `IGNORECASE`. -/
def foldCase (c : Char) : Char :=
  if c = 'İ' ∨ c = 'ı' then 'i' else if c = 'ſ' then 's' else if c = 'K' then 'k' else c.toLower

def word (s : String) : Re := all (s.toList.map fun l => char fun c => foldCase c = foldCase l)

def words (ss : List String) : Re := any (ss.map word)

def oneOf (s : String) : Re := char fun c => s.toList.contains c

def noneOf (s : String) (c : Char) : Bool := !s.toList.contains c

/-- `[A-Fa-f0-9-]` and `[A-Fa-f0-9]` under `IGNORECASE`. -/
def hexOr (s : String) : Re := char fun c => "abcdef".toList.contains (foldCase c) || c.isDigit || s.toList.contains c

def fresh : Re := notAhead (word "[REDACTED]")

def redacted : List Char := "[REDACTED]".toList

section
variable (u : Unicode)

def blanks : Re := star (char u.space) false

def blanks1 : Re := plus (char u.space)

def edge : Re := boundary u.word

def notInWord : Re := notBehind fun c => u.word c || c = '-'

def upTo (s : String) : Re := plus (char fun c => noneOf s c && !u.space c)

def line : Re := char (noneOf "\r\n")

def joined (between : String) (parts : List String) : Re :=
  all ((parts.map word).intersperse (opt (oneOf between)))

def marked (groups : List (List Char)) : List Char := groups.getD 0 [] ++ redacted ++ groups.getD 1 []

def patterns : List Re := [
  all [group (all [edge u, word "AIOSTREAMS_AUTH", opt (word "_PERMISSIONS"), blanks u, oneOf ":=", blanks u]), fresh,
    plus line],
  all [group (all [edge u, word "WebDAV", blanks1 u, word "credentials", blanks u, oneOf ":", blanks u,
    star (char (noneOf "/\r\n")) true, oneOf "/", blanks u]), fresh, upTo u ""],
  all [group (all [edge u, words ["CLOUDFLARED_TUNNEL_TOKEN", "CF_TUNNEL_TOKEN", "TUNNEL_TOKEN"], blanks u, oneOf ":=",
    blanks u]), fresh, upTo u ",]\x7d"],
  all [group (all [edge u, any [word "cookie", word "set-cookie", word "authorization", word "proxy-authorization",
    all [word "x-", words ["api-key", "auth-token", "plex-token"]]], blanks u, oneOf ":", blanks u]), fresh,
    star line false],
  all [group (all [edge u, words ["authorization", "proxy-authorization"], blanks u, oneOf "=:", blanks u,
    words ["Bearer", "Basic"], blanks1 u]), fresh, upTo u ""],
  all [group (all [notInWord u, oneOf "'\"", words ["cookie", "set-cookie"], oneOf "'\"", blanks u, oneOf ":", blanks u,
    oneOf "'\""]), fresh, plus (char (noneOf "'\"\r\n\x7d"))],
  all [group (all [oneOf "?&", any [joined "_-" ["api", "key"], word "apikey", joined "_-" ["auth", "token"],
    joined "_-" ["access", "token"], joined "_-" ["refresh", "token"], joined "_-" ["id", "token"], word "x-plex-token",
    joined "_-" ["auth", "password"], word "password", word "passwd", joined "_-" ["secret", "key"], word "secret",
    joined "_-" ["client", "secret"], word "token", word "code"], oneOf "="]), fresh, upTo u "&#"],
  all [group (all [notInWord u, opt (oneOf "'\""), any [joined " _-" ["api", "key"], word "apikey",
    joined " _-" ["auth", "password"], word "password", word "passwd", joined " _-" ["secret", "key"], word "secret",
    joined " _-" ["client", "secret"], joined " _-" ["auth", "token"], joined " _-" ["access", "token"],
    joined " _-" ["refresh", "token"], joined " _-" ["sentry", "key"], word "token"], opt (oneOf "'\""), blanks u,
    oneOf ":=", blanks u, opt (oneOf "'\"")]), fresh, upTo u ",'\"]\x7d"],
  all [group (all [edge u, word "MyPlex:", blanks1 u, word "username", blanks1 u, word "is", blanks1 u]), fresh,
    plus (char (noneOf ",\r\n"))],
  all [group (all [edge u, word "Signed-in", blanks1 u, word "Token", blanks u, oneOf "("]), fresh,
    char (fun c => noneOf ")" c && !u.space c), star (char (noneOf ")\r\n")) false, group (oneOf ")")],
  all [group (any [word "--serverUuid=", all [oneOf "?&", word "machineIdentifier="]]), fresh, atLeast 16 (hexOr "-")],
  all [group (words ["/devices/", "/api/servers/"]), fresh, atLeast 32 (hexOr "")],
  all [group (all [edge u, word "MyPlex:", blanks1 u, word "Got response for", blanks1 u]), fresh,
    atLeast 32 (hexOr "")],
  all [notBehind fun c => u.word c || ".+-".toList.contains c,
    plus (char fun c => u.word c || ".!#$%&'*+/=?^_\x60\x7b|\x7d~-".toList.contains c), oneOf "@",
    plus (char fun c => c.isAlphanum || c = '-'),
    plus (all [oneOf ".", plus (char fun c => c.isAlphanum || c = '-')])]]

def redact (text : List Char) : List Char := (patterns u).foldl (fun text pattern => sub pattern marked text) text

end

end Dumb.Logs
