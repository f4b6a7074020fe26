import Pipette.Lib.Sha256
import Pipette.Lib.Threads
import Pipette.Mgmt

/-!
# The remote catalog on disk

The files that pulls and claims share without a lock: the list, the sync state that names its server and tag, and for each
benchmark its body as sent, with its tag in a file beside it. Each operation is one file operation or one request. The list
and the sync state are modelled after decoding; a body is its text, since its digest is taken of that.
-/

namespace Pipette.Benchmarks

open Threads

/-! ## Tags -/

/-- Hex SHA-256 of a text. -/
def textSha256 (text : Text) : Text := Sha256.hex (text.flatMap fun c => (String.utf8EncodeChar c).map UInt8.toNat)

/-- What an `.etag` file records: the digest of the body, then the tag. -/
def recorded (body : Text) (etag : EntityTag) : Text := textSha256 body ++ '\n' :: etag.value

/-- The tag an `.etag` file holds for this body; none if it records another. -/
def honored (body : Text) (record : Text) : Option EntityTag :=
  (splitOnce '\n' record).bind fun x => if x.1 = textSha256 body then EntityTag.tryNew x.2 else none

/-! ## What the files hold -/

abbrev ServerUrl := Text

/-- The wire format: a body `ρ` as the server sends it, and the definition `δ` that this build makes of it or of its file. -/
structure Format (ρ δ : Type) where
  pretty : ρ → Text
  convert : ρ → Option δ
  parse : Text → Option δ
  benchmarkId : δ → Text
  acceptsId : Text → Bool
  knownType : Text → Bool

/-- A server benchmark that converted, kept with the object the server sent. -/
structure ConvertedRemote {ρ δ : Type} (F : Format ρ δ) where
  definition : δ
  sent : ρ
  converts : F.convert sent = some definition

def ConvertedRemote.tryFrom {ρ δ : Type} (F : Format ρ δ) (sent : ρ) : Option (ConvertedRemote F) :=
  match h : F.convert sent with
  | some definition => some ⟨definition, sent, h⟩
  | none => none

/-- A row of the list, its other parameters with it. -/
structure BenchmarkSummary (ν : Type) where
  benchmarkId : Text
  benchmarkType : Text
  parameters : List (Text × ν)
  deriving DecidableEq

/-- Pull bookkeeping: the server the cached catalog came from, and the tag of the cached list. -/
structure RemoteSyncState where
  pulledAt : Text
  benchmarkCount : Nat
  serverUrl : Option ServerUrl
  benchmarksEtag : Option EntityTag

/-- An answer to a conditional request. -/
inductive Conditional (α : Type) where
  | modified (value : α) (etag : Option EntityTag)
  | notModified (etag : Option EntityTag)

/-- A list that a server answered with, and its tag. -/
structure Served (ν : Type) where
  server : ServerUrl
  rows : List (BenchmarkSummary ν)
  etag : Option EntityTag
  deriving DecidableEq

/-- What a read of a cached benchmark returned, with the body it was read from. -/
structure Returned (δ : Type) where
  benchmarkId : Text
  body : Text
  definition : δ
  etag : Option EntityTag

/-- The files under `remote/`, and what has happened to them. `answers` are the bodies servers sent with their tags, `served`
the lists, `taken` the cached lists that pulls went on with after a `304` and the tag they had sent, `returned` what reads
of cached benchmarks returned. `answered` is the list in the latest answer, none after a `304`, and `full` the list of the
last pull that was sent one and went on to write the sync state. -/
structure Disk (ρ δ ν : Type) where
  sync : Option RemoteSyncState
  index : Option (List (BenchmarkSummary ν))
  detailDir : Bool
  detail : Text → Option Text
  etag : Text → Option Text
  answers : List (ρ × Option EntityTag)
  served : List (Served ν)
  taken : List (Served ν)
  returned : List (Returned δ)
  answered : Option (List (BenchmarkSummary ν))
  full : List (BenchmarkSummary ν)

/-- A store nothing was written to. -/
def Disk.empty {ρ δ ν : Type} : Disk ρ δ ν where
  sync := none
  index := none
  detailDir := false
  detail := fun _ => none
  etag := fun _ => none
  answers := []
  served := []
  taken := []
  returned := []
  answered := none
  full := []

/-! ## Operations -/

/-- What a process does to the files and asks of a server; `took` and `returned` only note. -/
inductive Op (ρ δ ν : Type) where
  | syncExists
  | readSync
  | writeSync (state : RemoteSyncState)
  | indexExists
  | readIndex
  | writeIndex (rows : List (BenchmarkSummary ν))
  | createStateDir
  | createDetailDir
  | detailDirExists
  | readDetailDir
  | detailExists (id : Text)
  | readDetail (id : Text)
  | writeDetail (id body : Text)
  | removeDetail (id : Text)
  | readEtag (id : Text)
  | writeEtag (id record : Text)
  | removeEtag (id : Text)
  | now
  | listBenchmarks (server : ServerUrl) (ifNoneMatch : Option EntityTag)
  | getBenchmark (server : ServerUrl) (id : Text) (ifNoneMatch : Option EntityTag)
  | took (list : Served ν)
  | returned (read : Returned δ)

/-- What an operation answers; `none` and `false` are its errors. -/
abbrev Ans {ρ δ ν : Type} : Op ρ δ ν → Type
  | .syncExists => Bool
  | .readSync => Option RemoteSyncState
  | .writeSync _ => Bool
  | .indexExists => Bool
  | .readIndex => Option (List (BenchmarkSummary ν))
  | .writeIndex _ => Bool
  | .createStateDir => Bool
  | .createDetailDir => Bool
  | .detailDirExists => Bool
  | .readDetailDir => Option (List Text)
  | .detailExists _ => Bool
  | .readDetail _ => Option Text
  | .writeDetail _ _ => Bool
  | .removeDetail _ => Bool
  | .readEtag _ => Option Text
  | .writeEtag _ _ => Bool
  | .removeEtag _ => Bool
  | .now => Option Text
  | .listBenchmarks _ _ => Except ApiError (Conditional (List (BenchmarkSummary ν)))
  | .getBenchmark _ _ _ => Except ApiError (Conditional ρ)
  | .took _ => Unit
  | .returned _ => Unit

/-- What is left open: whether a file operation fails, the names a directory is listed with, the clock, the list a server has
with its tag, whether it uses a `304` where it may and names the tag in it, and what it answers a detail request. -/
structure Choice (ρ ν : Type) where
  fails : Bool
  names : List Text
  clock : Option Text
  refused : Option ApiError
  current : List (BenchmarkSummary ν)
  tag : Option EntityTag
  notModified : Bool
  names304 : Bool
  detail : Conditional ρ

variable {ρ δ ν : Type} (c : Choice ρ ν)

/-- A server answers a list request with a `304` only if the tag sent is that of its current list. -/
def act : (o : Op ρ δ ν) → Disk ρ δ ν → Ans o × Disk ρ δ ν
  | .syncExists, s => (s.sync.isSome, s)
  | .readSync, s => (if c.fails then none else s.sync, s)
  | .writeSync state, s =>
    if c.fails then (false, s) else (true, { s with sync := some state, full := s.answered.getD s.full })
  | .indexExists, s => (s.index.isSome, s)
  | .readIndex, s => (if c.fails then none else s.index, s)
  | .writeIndex rows, s => if c.fails then (false, s) else (true, { s with index := some rows })
  | .createStateDir, s => (!c.fails, s)
  | .createDetailDir, s => if c.fails then (false, s) else (true, { s with detailDir := true })
  | .detailDirExists, s => (s.detailDir, s)
  | .readDetailDir, s => (if c.fails then none else some c.names, s)
  | .detailExists id, s => ((s.detail id).isSome, s)
  | .readDetail id, s => (if c.fails then none else s.detail id, s)
  | .writeDetail id body, s =>
    if c.fails then (false, s) else (true, { s with detail := Function.update s.detail id (some body) })
  | .removeDetail id, s => if c.fails then (false, s) else (true, { s with detail := Function.update s.detail id none })
  | .readEtag id, s => (if c.fails then none else s.etag id, s)
  | .writeEtag id record, s =>
    if c.fails then (false, s) else (true, { s with etag := Function.update s.etag id (some record) })
  | .removeEtag id, s => if c.fails then (false, s) else (true, { s with etag := Function.update s.etag id none })
  | .now, s => (c.clock, s)
  | .listBenchmarks server ifNoneMatch, s =>
    match c.refused with
    | some e => (.error e, s)
    | none =>
      if c.notModified ∧ ifNoneMatch ≠ none ∧ ifNoneMatch = c.tag then
        (.ok (.notModified (if c.names304 then c.tag else none)), { s with answered := none })
      else
        (.ok (.modified c.current c.tag), { s with
          served := s.served ++ [⟨server, c.current, c.tag⟩]
          answered := some c.current })
  | .getBenchmark _ _ _, s =>
    match c.refused with
    | some e => (.error e, s)
    | none =>
      match c.detail with
      | .modified value etag => (.ok (.modified value etag), { s with answers := s.answers ++ [(value, etag)] })
      | .notModified etag => (.ok (.notModified etag), s)
  | .took list, s => ((), { s with taken := s.taken ++ [list] })
  | .returned read, s => ((), { s with returned := s.returned ++ [read] })

/-- The processes on one store, against any servers. -/
def machine (ρ δ ν : Type) : Machine (Op ρ δ ν) Ans (Disk ρ δ ν) where
  step _ o s r s' := ∃ c, act c o s = (r, s')
  exit _ s := s

/-- An operation as this choice makes it, for runs that are played. -/
def choose (_ : Tid) (o : Op ρ δ ν) (s : Disk ρ δ ν) : Option (Ans o × Disk ρ δ ν) := some (act c o s)

theorem step_of_choose (t : Tid) (o : Op ρ δ ν) (s : Disk ρ δ ν) (r : Ans o) (s' : Disk ρ δ ν)
    (h : choose c t o s = some (r, s')) : (machine ρ δ ν).step t o s r s' :=
  ⟨c, Option.some.inj h⟩

/-! ## The store -/

abbrev Act (ρ δ ν : Type) := Prog (Op ρ δ ν) Ans

/-- One operation. -/
def call (o : Op ρ δ ν) : Act ρ δ ν (Ans o) := Prog.call o

/-- The sync state, if there is one; `none` is an error. -/
def getSyncState : Act ρ δ ν (Option (Option RemoteSyncState)) := do
  if ← call .syncExists then return (← call .readSync).map some else return some none

def putSyncState (state : RemoteSyncState) : Act ρ δ ν Bool := do
  if ← call .createStateDir then call (.writeSync state) else return false

/-- The cached list, empty if there is none; `none` is an error. -/
def listRemoteIndex : Act ρ δ ν (Option (List (BenchmarkSummary ν))) := do
  if ← call .indexExists then call .readIndex else return some []

def putRemoteIndex (rows : List (BenchmarkSummary ν)) : Act ρ δ ν Bool := do
  if ← call .createStateDir then call (.writeIndex rows) else return false

variable (F : Format ρ δ)

/-- Cache a body with its tag. A kill, or two writers at once, can leave the two files from different writes; the digest in
the record then keeps the tag from being honored. -/
def putRemote (remote : ConvertedRemote F) (etag : Option EntityTag) : Act ρ δ ν Bool := do
  let id := F.benchmarkId remote.definition
  let body := F.pretty remote.sent
  if ← call (.removeEtag id) then
    if ← call .createDetailDir then
      if ← call (.writeDetail id body) then
        match etag with
        | none => return true
        | some etag => call (.writeEtag id (recorded body etag))
      else return false
    else return false
  else return false

/-- A cached benchmark and the tag of its body, if it is cached; `none` is an error. -/
def getRemote (id : Text) : Act ρ δ ν (Option (Option (δ × Option EntityTag))) := do
  if ← call (.detailExists id) then
    match ← call (.readDetail id) with
    | none => return none
    | some body =>
      match F.parse body with
      | none => return none
      | some definition =>
        let record ← call (.readEtag id)
        let etag := record.bind (honored body)
        call (.returned ⟨id, body, definition, etag⟩)
        return some (some (definition, etag))
  else return some none

/-- The tag of a cached benchmark; none also when it does not read. -/
def remoteDetailEtag (id : Text) : Act ρ δ ν (Option EntityTag) := do
  match ← getRemote F id with
  | some (some (_, etag)) => return etag
  | _ => return none

/-- Remove the files of these benchmarks, up to the first that cannot be. -/
def removeDetails : List Text → Act ρ δ ν Bool
  | [] => return true
  | id :: ids => do
    if ← call (.removeEtag id) then
      if ← call (.removeDetail id) then removeDetails ids else return false
    else return false

/-- Delete the files of benchmarks that the list no longer names. -/
def pruneRemoteDetails (keeping : List Text) : Act ρ δ ν Bool := do
  if ← call .detailDirExists then
    match ← call .readDetailDir with
    | none => return false
    | some stems => removeDetails (stems.filter fun id => !keeping.contains id)
  else return true

/-! ## Which operations the store does -/

section Only

variable {ok : Op ρ δ ν → Prop}

theorem only_getSyncState (hexists : ok .syncExists) (hread : ok .readSync) : (getSyncState : Act ρ δ ν _).Only ok := by
  refine .bind (.call hexists) fun present => ?_
  split
  · exact .bind (.call hread) fun _ => .pure _
  · exact .pure _

theorem only_putSyncState (hdir : ok .createStateDir) {state : RemoteSyncState} (hwrite : ok (.writeSync state)) :
    (putSyncState state : Act ρ δ ν Bool).Only ok := by
  refine .bind (.call hdir) fun made => ?_
  split
  · exact .call hwrite
  · exact .pure _

theorem only_listRemoteIndex (hexists : ok .indexExists) (hread : ok .readIndex) : (listRemoteIndex : Act ρ δ ν _).Only ok := by
  refine .bind (.call hexists) fun present => ?_
  split
  · exact .call hread
  · exact .pure _

theorem only_putRemoteIndex (hdir : ok .createStateDir) {rows : List (BenchmarkSummary ν)} (hwrite : ok (.writeIndex rows)) :
    (putRemoteIndex rows : Act ρ δ ν Bool).Only ok := by
  refine .bind (.call hdir) fun made => ?_
  split
  · exact .call hwrite
  · exact .pure _

theorem only_removeDetails (hetag : ∀ id, ok (.removeEtag id)) (hdetail : ∀ id, ok (.removeDetail id)) (ids : List Text) :
    (removeDetails ids : Act ρ δ ν Bool).Only ok := by
  induction ids with
  | nil => exact .pure _
  | cons id ids ih =>
    refine .bind (.call (hetag id)) fun etagGone => ?_
    split
    · refine .bind (.call (hdetail id)) fun detailGone => ?_
      split
      · exact ih
      · exact .pure _
    · exact .pure _

theorem only_pruneRemoteDetails (hdir : ok .detailDirExists) (hlist : ok .readDetailDir) (hetag : ∀ id, ok (.removeEtag id))
    (hdetail : ∀ id, ok (.removeDetail id)) (keeping : List Text) : (pruneRemoteDetails keeping : Act ρ δ ν Bool).Only ok := by
  refine .bind (.call hdir) fun present => ?_
  split
  · refine .bind (.call hlist) fun stems => ?_
    split
    · exact .pure _
    · exact only_removeDetails hetag hdetail _
  · exact .pure _

end Only

end Pipette.Benchmarks
