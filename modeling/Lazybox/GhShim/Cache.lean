import Lazybox.Core.TaskRef
import Lazybox.Library.Keyed
import Lazybox.Library.Run
import Mathlib.Data.List.MinMax

/-!
# The keys of reads

The shim that stands for `gh` in a session names each read by the host, the identity and the
repository it is asked of, the branch where that is part of the question, and its arguments.  The
variables of the environment, the remotes of the worktree and the configuration are data, and the
fingerprint of a token is a parameter.
-/

namespace Lazybox.GhShim

open WorkingClaim (Text stripPrefix)

/-- What an invocation finds around it. -/
structure Env where
  /-- `GH_HOST` -/
  ghHost : Option String
  /-- `GH_REPO` -/
  ghRepo : Option String
  /-- `GH_TOKEN`, `GITHUB_TOKEN` and `GH_ENTERPRISE_TOKEN` -/
  tokens : List (Option String)
  /-- `git remote`, and `git remote get-url` of each; nothing where git fails. -/
  remotes : Option (List (String × Option String))
  branch : Option String
  /-- The host of the configuration. -/
  githubHost : Option String
deriving DecidableEq

/-- The unit separator, between the parts of a key. -/
def separator : String := "\x1f"

def isBlank (s : String) : Bool := (trim s.toList).isEmpty

/-! ### Arguments -/

def isFlag (arg : String) : Bool := arg.toList.head? = some '-'

/-- The arguments without the flags and their values. -/
def operandsAfter (afterFlag : Bool) : List String → List String
  | [] => []
  | arg :: args =>
      let rest := operandsAfter (isFlag arg && !arg.toList.contains '=') args
      if !isFlag arg && !afterFlag then arg :: rest else rest

def operands : List String → List String := operandsAfter false

def looksLikeTarget (arg : String) : Bool :=
  (parseU64 arg.toList).isSome || "http://".toList.isPrefixOf arg.toList
    || "https://".toList.isPrefixOf arg.toList

/-- The value of a flag written `--flag=value`. -/
def attachedValue (arg : String) (flags : List String) : Option String :=
  flags.findSome? fun flag =>
    match stripPrefix (flag.toList ++ ['=']) arg.toList with
    | some value => if value ≠ [] then some (String.ofList value) else none
    | none => none

/-- The value of the first of the flags there is. -/
def flagValue (flags : List String) : List String → Option String
  | [] => none
  | arg :: args =>
      if arg ∈ flags then args.head?.filter (· ≠ "")
      else (attachedValue arg flags).or (flagValue flags args)

/-! ### Remotes -/

/-- The text after the first occurrence of another. -/
def afterText (p : Text) : Text → Option Text
  | [] => none
  | c :: s => if p <+: c :: s then some ((c :: s).drop p.length) else afterText p s

def hostOfRemote (url : Text) : Option String :=
  let afterScheme := (afterText "://".toList url).getD url
  let afterUser := ((rsplitOnce '@' afterScheme).map Prod.snd).getD afterScheme
  let host := trim (afterUser.takeWhile fun c => c ≠ '/' && c ≠ ':')
  if host ≠ [] then some (String.ofList (toAsciiLowercase host)) else none

def normalizeRemote (url : Text) : String :=
  let trimmed := TaskRef.trimEndGit (url.rdropWhile (· = '/'))
  let tail := (((rsplitOnce ':' trimmed).map Prod.snd).filter fun tail =>
    !"//".toList.isPrefixOf tail).getD trimmed
  match ((tail.dropWhile (· = '/')).splitOn '/').reverse with
  | name :: owner :: _ => String.ofList (owner ++ '/' :: name)
  | _ => String.ofList trimmed

/-- The address of the only remote. -/
def onlyRemoteUrl (env : Env) : Option Text :=
  match env.remotes.map (·.filter fun remote => !isBlank remote.1) with
  | some [only] => only.2.map fun url => trim url.toList
  | _ => none

/-! ### Keys -/

def ghHost (env : Env) : String :=
  match env.ghHost.filter fun host => !isBlank host with
  | some host => String.ofList (trim host.toList)
  | none =>
      match (onlyRemoteUrl env).bind hostOfRemote with
      | some host => host
      | none => env.githubHost.getD "github.com"

def repoScope (env : Env) (args : List String) : Option String :=
  (flagValue ["-R", "--repo"] args).or
    ((env.ghRepo.filter fun repo => !isBlank repo).or ((onlyRemoteUrl env).map normalizeRemote))

section Fingerprint

variable (fingerprint : String → String)

def answerScope (env : Env) : String :=
  let identity := match env.tokens.findSome? fun token => token.filter fun v => !isBlank v with
    | some token => fingerprint token
    | none => "ambient"
  ghHost env ++ separator ++ identity

def readKey (env : Env) (args positional : List String) (group : String) : Option String :=
  (repoScope env args).map fun scope =>
    let key := answerScope fingerprint env ++ separator ++ scope
    let key :=
      if group = "pr" ∧ ¬ positional[2]?.any looksLikeTarget then
        key ++ separator ++ env.branch.getD ""
      else key
    args.foldl (fun key arg => key ++ separator ++ arg) key

/-- An invocation of `gh` that reads. -/
structure Question where
  env : Env
  args : List String
deriving DecidableEq

namespace Question

variable (q : Question)

/-- The repository it is asked of. -/
def scope : Option String := repoScope q.env q.args

def key : Option String :=
  readKey fingerprint q.env q.args (operands q.args) ((operands q.args).headD "")

end Question

end Fingerprint

end Lazybox.GhShim

/-!
## The cache of reads

The daemon answers a read from what an identical one printed a short while ago.  A read that is
admitted runs on its own and files its output when it is done; a mutation reports the record it
changed, and the reads of its repository are dropped.

Each of these is one step, under the lock of the cache.  Whether the reserve and the quota let a
call through is part of the action, as are the configuration and the time, in nanoseconds.  The
lower case of a text is a parameter.
-/

namespace Lazybox.GhShim

def maxReadCacheTtl : ℕ := 600 * 1000000000

def maxCacheEntries : ℕ := 512

def maxCacheBytes : ℕ := 32 * 1024 * 1024

structure CachedRead where
  stdout : String
  at' : ℕ
  /-- The read that printed it. -/
  read : ℕ
deriving DecidableEq, Repr

/-- The answers under their keys. -/
abbrev Cache := List (String × CachedRead)

namespace Cache

/-- The answer to a key, unless it expired. -/
def cached (c : Cache) (key : String) (ttl now : ℕ) : Option CachedRead × Cache :=
  match (Keyed.lookup Prod.fst key c).map Prod.snd with
  | none => (none, c)
  | some entry =>
      if now - entry.at' ≤ ttl then (some entry, c) else (none, Keyed.erase Prod.fst key c)

def bytes (c : Cache) : ℕ := (c.map fun e => e.2.stdout.utf8ByteSize).sum

/-- Drop the oldest entries but `keep` until the cache is within its bounds. -/
def evict (keep : String) : ℕ → Cache → Cache
  | 0, c => c
  | fuel + 1, c =>
      if maxCacheEntries < c.length ∨ maxCacheBytes < c.bytes then
        match (c.filter fun e => e.1 ≠ keep).argmin fun e => e.2.at' with
        | none => c
        | some oldest => evict keep fuel (Keyed.erase Prod.fst oldest.1 c)
      else c

/-- Every round drops an entry. -/
def evictToCapacity (c : Cache) (keep : String) : Cache := evict keep c.length c

def store (c : Cache) (key : String) (entry : CachedRead) (ttl : ℕ) : Cache :=
  let c := c.filter fun e => entry.at' - e.2.at' ≤ ttl
  evictToCapacity ((key, entry) :: Keyed.erase Prod.fst key c) key

section Lowercase

variable (toLowercase : String → String)

/-- Whether a key is taken for one of a repository. -/
def startsWithRepo (key repo : String) : Bool :=
  (toLowercase repo).toList.isPrefixOf (toLowercase key).toList

def invalidateRepo (c : Cache) : Option String → Cache
  | none => []
  | some repo => c.filter fun e => !startsWithRepo toLowercase e.1 repo

end Lowercase

end Cache

/-! ### The daemon and its reads -/

/-- A mutation's record. -/
structure GhRecordChange where
  reference : String
  repo : Option String
deriving DecidableEq, Repr

/-- The repository of the record a mutation changed, if the record can be named. -/
def GhRecordChange.named (change : GhRecordChange) : Option (Option String) :=
  (TaskRef.parseTaskRef change.reference change.repo).map TaskRef.githubRepoOf

/-- A read that was let through. -/
structure Read where
  question : Question
  /-- A mutation of its repository was applied since. -/
  falsified : Bool

structure Daemon where
  cache : Cache
  reads : ℕ → Option Read

inductive Act where
  /-- A read asks to be let through; `allowed` is what the reserve and the quota say. -/
  | admitRead (i : ℕ) (q : Question) (enabled : Bool) (readCacheTtl now : ℕ) (allowed : Bool)
  /-- A read files its output. -/
  | file (i : ℕ) (stdout : String) (readCacheTtl now : ℕ)
  /-- A mutation reports its change. -/
  | change (change : GhRecordChange)

inductive Obs where
  | admitted (i : ℕ) (q : Question)
  /-- A read was answered with the output of another. -/
  | cached (read : ℕ)
  | applied (repo : Option String)
deriving DecidableEq

section Steps

variable (toLowercase fingerprint : String → String)

/-- The read is one of the repository. -/
def Question.Of (q : Question) (repo : String) : Prop :=
  q.scope.map toLowercase = some (toLowercase repo)

instance (q : Question) (repo : String) : Decidable (q.Of toLowercase repo) :=
  inferInstanceAs (Decidable (_ = _))

/-- A mutation of a repository was applied. -/
def Read.change (r : Read) (repo : String) : Read :=
  { r with falsified := r.falsified || decide (r.question.Of toLowercase repo) }

namespace Daemon

variable (s : Daemon)

def new : Daemon := ⟨[], fun _ => none⟩

/-- A read is let through. -/
def allow (i : ℕ) (q : Question) : Daemon × List Obs :=
  if (s.reads i).isNone then
    ({ s with reads := Function.update s.reads i (some ⟨q, false⟩) }, [.admitted i q])
  else (s, [])

def step : Act → Daemon × List Obs
  | .admitRead i q enabled readCacheTtl now allowed =>
      if !enabled then s.allow i q
      else
        match (q.key fingerprint).map fun key =>
            s.cache.cached key (min readCacheTtl maxReadCacheTtl) now with
        | some (some entry, cache) => ({ s with cache := cache }, [.cached entry.read])
        | some (none, cache) =>
            if allowed then ({ s with cache := cache } : Daemon).allow i q
            else ({ s with cache := cache }, [])
        | none => if allowed then s.allow i q else (s, [])
  | .file i stdout readCacheTtl now =>
      match (s.reads i).bind fun r => r.question.key fingerprint with
      | some key =>
          ({ s with cache :=
              s.cache.store key ⟨stdout, now, i⟩ (min readCacheTtl maxReadCacheTtl) }, [])
      | none => (s, [])
  | .change change =>
      match change.named with
      | none => (s, [])
      | some repo =>
          ({ cache := s.cache.invalidateRepo toLowercase repo
             reads := fun i => (s.reads i).map fun r =>
              repo.elim r (r.change toLowercase) }, [.applied repo])

/-- The runs of the daemon. -/
def machine : Machine Daemon Act Obs := ⟨step toLowercase fingerprint⟩

end Daemon

end Steps

end Lazybox.GhShim
