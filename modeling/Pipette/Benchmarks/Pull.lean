import Pipette.Benchmarks.Store

/-!
# Pulls and claims

`pull_remote_benchmarks` fetches the list and the details it names, `ensure_claim_benchmark_cached` the one benchmark a claim
runs. Both revalidate what is cached by its tag. A process does any number of these, and reads and prunes besides.
-/

namespace Pipette.Benchmarks

open Threads

variable {ρ δ ν : Type}

/-! ## The details of a list -/

variable (F : Format ρ δ)

/-- A type this build knows and an id it accepts. -/
def fetchesDetail (row : BenchmarkSummary ν) : Bool := F.knownType row.benchmarkType && F.acceptsId row.benchmarkId

def cachedBenchmarkEtag (benchmarkId : Text) : Act ρ δ ν (Option EntityTag) :=
  if F.acceptsId benchmarkId then remoteDetailEtag F benchmarkId else return none

structure BenchmarkDetailRequest where
  benchmarkId : Text
  previousEtag : Option EntityTag

/-- The answer for a benchmark, none when the fetch failed. -/
structure BenchmarkDetailResponse (ρ : Type) where
  benchmarkId : Text
  response : Option (Conditional ρ)

/-- The requests for these rows, with the cached tags if `revalidate`. -/
def detailRequests (F : Format ρ δ) (revalidate : Bool) : List (BenchmarkSummary ν) → Act ρ δ ν (List BenchmarkDetailRequest)
  | [] => return []
  | row :: rows => do
    let previousEtag ← if revalidate then cachedBenchmarkEtag F row.benchmarkId else pure none
    let requests ← detailRequests F revalidate rows
    return ⟨row.benchmarkId, previousEtag⟩ :: requests

/-- The answers in request order; the source sends a few requests at a time. -/
def fetchEach (server : ServerUrl) : List BenchmarkDetailRequest → Act ρ δ ν (List (BenchmarkDetailResponse ρ))
  | [] => return []
  | request :: requests => do
    let response ← call (.getBenchmark server request.benchmarkId request.previousEtag)
    let responses ← fetchEach server requests
    return ⟨request.benchmarkId, response.toOption⟩ :: responses

variable (server : ServerUrl)

/-- The answers, or `none` if there are requests and every fetch failed. -/
def fetchRemoteBenchmarkDetails (requests : List BenchmarkDetailRequest) :
    Act ρ δ ν (Option (List (BenchmarkDetailResponse ρ))) := do
  let responses ← fetchEach server requests
  if responses ≠ [] ∧ responses.all (fun r => r.response.isNone) then return none else return some responses

/-- Cache each body that converts. A failed fetch and a `304` leave the files as they are. -/
def cacheEach (F : Format ρ δ) : List (BenchmarkDetailResponse ρ) → Act ρ δ ν Bool
  | [] => return true
  | ⟨_, some (.modified value etag)⟩ :: responses =>
    match ConvertedRemote.tryFrom F value with
    | some converted => do
      if ← putRemote F converted etag then cacheEach F responses else return false
    | none => cacheEach F responses
  | _ :: responses => cacheEach F responses

def pullRemoteBenchmarkDetails (rows : List (BenchmarkSummary ν)) (revalidate : Bool) :
    Act ρ δ ν Bool := do
  let requests ← detailRequests F revalidate rows
  match ← fetchRemoteBenchmarkDetails server requests with
  | none => return false
  | some responses => cacheEach F responses

/-! ## A pull -/

/-- A pull once it has its rows and their tag: the details, the prune, the list, and last the sync state. -/
def pullRows (revalidate : Bool) (rows : List (BenchmarkSummary ν))
    (benchmarksEtag : Option EntityTag) : Act ρ δ ν (Option Nat) := do
  let fetchable := rows.filter (fetchesDetail F)
  if ← pullRemoteBenchmarkDetails F server fetchable revalidate then
    if ← pruneRemoteDetails (rows.map (·.benchmarkId)) then
      if ← putRemoteIndex rows then
        match ← call .now with
        | none => return none
        | some pulledAt =>
          if ← putSyncState ⟨pulledAt, fetchable.length, some server, benchmarksEtag⟩ then return some fetchable.length
          else return none
      else return none
    else return none
  else return none

/-- The tag a pull sends with its list request: the sync state's, if that is of the same server. -/
def previousBenchmarksEtag (hasCachedIndex : Bool) (previousSync : Option RemoteSyncState) : Option EntityTag :=
  if hasCachedIndex then previousSync.bind (·.benchmarksEtag) else none

/-- A pull that has read the sync state and the cached list: ask for the list, and go on with the cached one after a `304`. -/
def pullFrom (stored : Option RemoteSyncState) (cachedRows : List (BenchmarkSummary ν)) :
    Act ρ δ ν (Option Nat) := do
  let previousSync := stored.filter fun state => state.serverUrl = some server
  let hasCachedIndex := !cachedRows.isEmpty || previousSync.isSome
  let previousEtag := previousBenchmarksEtag hasCachedIndex previousSync
  match ← call (.listBenchmarks server previousEtag) with
  | .error _ => return none
  | .ok (.modified rows etag) => pullRows F server previousSync.isSome rows etag
  | .ok (.notModified etag) =>
    if hasCachedIndex then
      call (.took ⟨server, cachedRows, previousEtag⟩)
      pullRows F server previousSync.isSome cachedRows (etag <|> previousEtag)
    else return none

/-- Pull the catalog of a server: the number of rows whose detail is fetched, or `none` for an error. -/
def pullRemoteBenchmarks : Act ρ δ ν (Option Nat) := do
  match ← getSyncState with
  | none => return none
  | some stored =>
    match ← listRemoteIndex with
    | none => return none
    | some cachedRows => pullFrom F server stored cachedRows

/-! ## A claim -/

/-- Cache the body a claim fetched; a cache that cannot be written does not stop it. -/
def cacheClaimed (remote : ρ) (etag : Option EntityTag) : Act ρ δ ν (Option δ) :=
  match ConvertedRemote.tryFrom F remote with
  | none => return none
  | some converted => do
    let _ ← putRemote F converted etag
    return some converted.definition

/-- The definition a claim runs, revalidated by its tag; `none` is an error. An outage does not stop a host that holds it, and
a `404` does. -/
def ensureClaimBenchmarkCached (benchmarkId : Text) : Act ρ δ ν (Option δ) :=
  if F.acceptsId benchmarkId then do
    let cached := (← getRemote F benchmarkId).join
    let fetched ← call (.getBenchmark server benchmarkId (cached.bind (·.2)))
    match fetched, cached with
    | .ok (.modified value etag), _ => cacheClaimed F value etag
    | .ok (.notModified _), some (definition, _) => return some definition
    | .ok (.notModified _), none => return none
    | .error e, some (definition, _) => if e.status ≠ some 404 then return some definition else return none
    | .error _, none => return none
  else return none

/-! ## Processes -/

/-- What a process does to the store. -/
inductive Task where
  | pull (server : ServerUrl)
  | claim (server : ServerUrl) (benchmarkId : Text)
  | prune (keeping : List Text)
  | lookup (benchmarkId : Text)

def Task.run : Task → Act ρ δ ν Unit
  | .pull server => do let _ ← pullRemoteBenchmarks F server
  | .claim server benchmarkId => do let _ ← ensureClaimBenchmarkCached F server benchmarkId
  | .prune keeping => do let _ ← pruneRemoteDetails keeping
  | .lookup benchmarkId => do let _ ← getRemote F benchmarkId

/-- A process that does these tasks one after the other. -/
def work (F : Format ρ δ) : List Task → Act ρ δ ν Unit
  | [] => return ()
  | task :: tasks => do
    task.run F
    work F tasks

end Pipette.Benchmarks
