import Pipette.Evals.Session

/-!
# Eval cells

A cell sends the samples its checkpoint has not settled to an engine and appends each row as the engine records it, several in
one attempt (`batches`) or in one-sample attempts beside each other (`pool`); a sample lost beside others is sent again alone.
What the engine does, which worker is next, which appends fail and where the process is killed are inputs (`Env`), read off by
a clock; an attempt returns the error of a record, as the contract of a record has it. A cell logs what it does, and its
session is the replay of its log.
-/

namespace Pipette.Measurement

open Evals

/-! ## Samples and readings -/

/-- One dataset row, as an attempt receives it: its id, and its number in the dataset. -/
structure Sample where
  id : Text
  number : Nat
  deriving DecidableEq

/-- What an attempt records for one of its samples. -/
inductive Reading where
  | completed (completion : Text) (stopReason : StopReason) (stopDetail : Option Text) (completionTokens : Option Nat)
  | failed (reason : Text)
  | lost (reason : Text)
  | unfit (reason : Text)
  deriving DecidableEq

/-- One attempt of up to so many samples, or so many attempts of one. -/
inductive InFlight where
  | batch (size : ℕ+)
  | parallel (workers : ℕ+)

/-- `killed` is the end of the process; `stuck` is a loop that ran out of fuel. -/
inductive EvalError where
  | missingSamples
  | missingId (number : Nat)
  | missingMessages (id : Text)
  | outOfRange (index count : Nat)
  | recordedTwice (id : Text)
  | unrecorded (id : Text)
  | attempt
  | append (id : Text)
  | panicked
  | chunk (offset : Nat)
  | emptyChunk (offset declared : Nat)
  | overrun (offset stop declared : Nat)
  | outOfPlace (position : Nat) (id expected : Text)
  | shortfall (submitted served : Nat)
  | incomplete (failed total : Nat) (retriable exhausted unfit : List Text)
  | killed
  | stuck
  deriving DecidableEq

/-! ## The log of a cell -/

/-- What a cell does: it asks for a chunk, sends a sample, hears that one is lost, appends a row or holds one as unfit. An
append fails (`torn`), or the process is killed in one (`cut`), after `n` bytes. -/
inductive Event where
  | asked (offset : Nat)
  | sent (id : Text) (alone : Bool)
  | lost (id : Text)
  | row (c : Completion)
  | unfit (c : Completion)
  | torn (c : Completion) (n : Nat)
  | cut (c : Completion) (n : Nat)
  deriving DecidableEq

/-- What an event does to the session. -/
def Event.apply (k : Codec) : Event → Session → Session
  | .row c, s => s.append k c
  | .unfit c, s => s.recordUnfit c
  | .torn c n, s => s.appendFailed k c n
  | .cut c n, s => { s with file := s.file ++ (Session.line k c).take n }
  | .asked _, s | .sent _ _, s | .lost _, s => s

def replay (k : Codec) (start : Session) (log : List Event) : Session := log.foldl (fun s e => e.apply k s) start

/-- A cell over a checkpoint opened as `start`. -/
structure Cell (k : Codec) (start : Session) where
  session : Session
  clock : Nat
  log : List Event
  session_eq : session = replay k start log

/-- The engine's next move: it records a reading, returns, returns an error, panics, or is killed. -/
inductive Move where
  | record (index : Nat) (reading : Reading)
  | finish
  | fail
  | panic
  | die
  deriving DecidableEq

/-- An append that does not succeed: it fails, or the process is killed, after so many bytes. -/
inductive Fault where
  | fails (n : Nat)
  | dies (n : Nat)
  deriving DecidableEq

/-- By the cell's clock: the worker that moves, the move of its engine, and the fate of an append. -/
structure Env where
  pick : Nat → Nat
  move : Nat → Move
  fault : Nat → Option Fault

section

variable {k : Codec} {start : Session}

/-- A cell at its start. -/
def Cell.opened (k : Codec) (start : Session) : Cell k start := ⟨start, 0, [], rfl⟩

variable (cell : Cell k start)

def Cell.emit (e : Event) : Cell k start where
  session := e.apply k cell.session
  clock := cell.clock
  log := cell.log ++ [e]
  session_eq := by rw [cell.session_eq, replay, replay, List.foldl_append]; rfl

def Cell.tick : Cell k start := { cell with clock := cell.clock + 1 }

def Cell.emitAll (es : List Event) : Cell k start := es.foldl Cell.emit cell

/-! ## Attempts -/

/-- One attempt: its samples, which of them it has recorded, and those it lost beside others. -/
structure Attempt where
  group : List Sample
  alone : Bool
  recorded : List Bool
  lost : List Sample

def Attempt.fresh (group : List Sample) (alone : Bool) : Attempt := ⟨group, alone, group.map fun _ => false, []⟩

/-- The row of a sample that produced no completion. -/
def failedRow (id reason : Text) : Completion where
  id
  completion := []
  failed := true
  failedReason := some reason
  stopReason := .failure
  stopDetail := some reason
  completionTokens := none

variable (env : Env)

/-- Append a row to the checkpoint. -/
def appendRow (a : Attempt) (c : Completion) (cell : Cell k start) : Except EvalError Attempt × Cell k start :=
  match env.fault cell.clock with
  | none => (.ok a, cell.emit (.row c))
  | some (.fails n) => (.error (.append c.id), cell.emit (.torn c n))
  | some (.dies n) => (.error .killed, cell.emit (.cut c n))

/-- What an attempt calls for each of its samples. -/
def record (a : Attempt) (index : Nat) (reading : Reading) (cell : Cell k start) : Except EvalError Attempt × Cell k start :=
  match a.group[index]? with
  | none => (.error (.outOfRange index a.group.length), cell)
  | some sample =>
    if a.recorded[index]? = some true then (.error (.recordedTwice sample.id), cell)
    else
      let a := { a with recorded := a.recorded.set index true }
      match reading with
      | .lost reason =>
        if !a.alone then (.ok { a with lost := a.lost ++ [sample] }, cell.emit (.lost sample.id))
        else appendRow env a (failedRow sample.id reason) cell
      | .completed completion stopReason stopDetail completionTokens =>
        appendRow env a ⟨sample.id, completion, false, none, stopReason, stopDetail, completionTokens⟩ cell
      | .failed reason => appendRow env a (failedRow sample.id reason) cell
      | .unfit reason => (.ok a, cell.emit (.unfit (failedRow sample.id reason)))

/-- What an attempt that returned hands back: the samples it lost, if it recorded every one. -/
def Attempt.result (a : Attempt) : Except EvalError (List Sample) :=
  match (a.group.zip a.recorded).find? fun p => !p.2 with
  | some (sample, _) => .error (.unrecorded sample.id)
  | none => .ok a.lost

/-- An attempt goes on, or is over. -/
inductive Next where
  | more (a : Attempt)
  | ended (result : Except EvalError (List Sample))

/-- The next move of an attempt's engine. -/
def Attempt.move (a : Attempt) (cell : Cell k start) : Next × Cell k start :=
  match env.move cell.clock with
  | .record index reading =>
    match record env a index reading cell with
    | (.ok a, cell) => (.more a, cell.tick)
    | (.error e, cell) => (.ended (.error e), cell.tick)
  | .finish => (.ended a.result, cell.tick)
  | .fail => (.ended (.error .attempt), cell.tick)
  | .panic => (.ended (.error .panicked), cell.tick)
  | .die => (.ended (.error .killed), cell.tick)

def Attempt.run : Nat → Attempt → Cell k start → Except EvalError (List Sample) × Cell k start
  | 0, _, cell => (.error .stuck, cell)
  | fuel + 1, a, cell =>
    match a.move env cell with
    | (.more a, cell) => Attempt.run fuel a cell
    | (.ended result, cell) => (result, cell)

/-- A group goes out. -/
def Cell.sending (group : List Sample) (alone : Bool) : Cell k start :=
  cell.emitAll (group.map fun s => .sent s.id alone)

/-- One attempt carrying `group`. Every move but its last records one more sample. -/
def send (group : List Sample) (alone : Bool) (cell : Cell k start) : Except EvalError (List Sample) × Cell k start :=
  Attempt.run env (group.length + 1) (.fresh group alone) (cell.sending group alone)

/-- Send each sample lost beside others again, alone. -/
def settle : List Sample → Cell k start → Except EvalError Unit × Cell k start
  | [], cell => (.ok (), cell)
  | sample :: lost, cell =>
    match send env [sample] true cell with
    | (.error e, cell) => (.error e, cell)
    | (.ok _, cell) => settle lost cell

/-! ## Batches -/

/-- `size` samples per attempt, one attempt at a time. -/
def batchesFrom (size : ℕ+) : Nat → List Sample → Cell k start → Except EvalError Unit × Cell k start
  | _, [], cell => (.ok (), cell)
  | 0, _ :: _, cell => (.error .stuck, cell)
  | fuel + 1, sample :: rest, cell =>
    let group := (sample :: rest).take size
    match send env group (group.length = 1) cell with
    | (.error e, cell) => (.error e, cell)
    | (.ok lost, cell) =>
      match settle env lost cell with
      | (.error e, cell) => (.error e, cell)
      | (.ok (), cell) => batchesFrom size fuel ((sample :: rest).drop size) cell

def batches (size : ℕ+) (pending : List Sample) (cell : Cell k start) : Except EvalError Unit × Cell k start :=
  batchesFrom env size pending.length pending cell

/-! ## The pool -/

/-- Where a worker stands: before a claim, with a claimed sample, in its attempt, about to stop the claims after a loss, about
to hand over what it lost, about to stop the claims after an error, or back. -/
inductive PoolWorker where
  | claiming
  | claimed (sample : Sample)
  | attempting (a : Attempt)
  | stopping (dropped : List Sample)
  | losing (dropped : List Sample)
  | failing (e : EvalError)
  | returned (result : Except EvalError Unit)

def PoolWorker.live : PoolWorker → Bool
  | .returned _ => false
  | _ => true

def PoolWorker.error : PoolWorker → Option EvalError
  | .returned (.error e) => some e
  | _ => none

/-- How many samples are claimed, whether claiming has stopped, and what was lost. -/
structure Round (k : Codec) (start : Session) where
  claimed : Nat
  stopped : Bool
  lost : List Sample
  workers : List PoolWorker
  cell : Cell k start

def Round.fresh (workers : Nat) (cell : Cell k start) : Round k start := ⟨0, false, [], List.replicate workers .claiming, cell⟩

/-- Where a worker stands after its next step, and the round but for that. A panic passes the stop of the claims by. -/
def PoolWorker.step (rest : List Sample) (alone : Bool) (r : Round k start) : PoolWorker → PoolWorker × Round k start
  | .claiming =>
    match rest[r.claimed]?, r.stopped with
    | some sample, false => (.claimed sample, { r with claimed := r.claimed + 1, cell := r.cell.tick })
    | _, _ => (.returned (.ok ()), { r with cell := r.cell.tick })
  | .claimed sample => (.attempting (.fresh [sample] alone), { r with cell := (r.cell.sending [sample] alone).tick })
  | .attempting a =>
    match a.move env r.cell with
    | (.more a, cell) => (.attempting a, { r with cell })
    | (.ended (.ok []), cell) => (.claiming, { r with cell })
    | (.ended (.ok (sample :: dropped)), cell) => (.stopping (sample :: dropped), { r with cell })
    | (.ended (.error .panicked), cell) => (.returned (.error .panicked), { r with cell })
    | (.ended (.error .killed), cell) => (.returned (.error .killed), { r with cell })
    | (.ended (.error e), cell) => (.failing e, { r with cell })
  | .stopping dropped => (.losing dropped, { r with stopped := true, cell := r.cell.tick })
  | .losing dropped => (.claiming, { r with lost := r.lost ++ dropped, cell := r.cell.tick })
  | .failing e => (.returned (.error e), { r with stopped := true, cell := r.cell.tick })
  | .returned result => (.returned result, r)

/-- The process is killed. -/
def Round.killed (r : Round k start) : Bool := r.workers.any fun w => w.error = some .killed

/-- The workers that can move: none once the process is killed. -/
def Round.running (r : Round k start) : List Nat :=
  if r.killed then []
  else (List.range r.workers.length).filter fun i => r.workers[i]?.any PoolWorker.live

/-- Some worker that can move does. -/
def Round.step (rest : List Sample) (alone : Bool) (r : Round k start) : Option (Round k start) := do
  let i ← r.running[env.pick r.cell.clock % r.running.length]?
  let w ← r.workers[i]?
  let (w, r) := w.step env rest alone r
  return { r with workers := r.workers.set i w }

def Round.run (rest : List Sample) (alone : Bool) : Nat → Round k start → Round k start
  | 0, r => r
  | fuel + 1, r =>
    match r.step env rest alone with
    | none => r
    | some r => Round.run rest alone fuel r

/-- The first error in the order of the workers, once all of them are back. -/
def Round.result (r : Round k start) : Except EvalError Unit :=
  if r.killed then .error .killed
  else
    match r.workers.findSome? PoolWorker.error with
    | some e => .error e
    | none => if r.workers.any PoolWorker.live then .error .stuck else .ok ()

/-- `workers` one-sample attempts at once. After a loss the claims stop, the attempts in flight return, what was lost is
settled and the rest start over. A worker takes at most six steps for a sample, and one to return. -/
def poolFrom (workers : ℕ+) : Nat → List Sample → Cell k start → Except EvalError Unit × Cell k start
  | _, [], cell => (.ok (), cell)
  | 0, _ :: _, cell => (.error .stuck, cell)
  | fuel + 1, sample :: others, cell =>
    let rest := sample :: others
    let workers' := min workers.val rest.length
    let r := Round.run env rest (workers' = 1) (6 * rest.length + workers') (.fresh workers' cell)
    match r.result with
    | .error e => (.error e, r.cell)
    | .ok () =>
      match settle env r.lost r.cell with
      | (.error e, cell) => (.error e, cell)
      | (.ok (), cell) => poolFrom workers fuel (rest.drop r.claimed) cell

def pool (workers : ℕ+) (pending : List Sample) (cell : Cell k start) : Except EvalError Unit × Cell k start :=
  poolFrom env workers pending.length pending cell

/-! ## The cell -/

/-- Send `pending`, `in_flight` at a time. -/
def runSamples (inFlight : InFlight) (pending : List Sample) (cell : Cell k start) : Except EvalError Unit × Cell k start :=
  match inFlight with
  | .batch size => batches env size pending cell
  | .parallel workers => pool env workers pending cell

/-- A row of a text eval: the id it carries, and whether it carries messages. -/
structure RawRow where
  id : Option Text
  messages : Bool

/-- A dataset's rows: raw, or typed when they were parsed. -/
inductive EvalRows where
  | raw (rows : List RawRow)
  | chat (ids : List Text)

/-- Typed rows as samples, numbered from `offset`. -/
def chatSamples (ids : List Text) (offset : Nat) : List Sample := ids.mapIdx fun index id => ⟨id, offset + index + 1⟩

/-- A raw row as a sample, its id and messages checked. -/
def rawSample (index : Nat) (row : RawRow) : Except EvalError Sample :=
  match row.id with
  | none => .error (.missingId (index + 1))
  | some id => if row.messages then .ok ⟨id, index + 1⟩ else .error (.missingMessages id)

/-- The benchmark's rows, each with its id and messages checked before anything runs. -/
def dataset : Option EvalRows → Except EvalError (List Sample)
  | none => .error .missingSamples
  | some (.raw rows) => (rows.mapIdx fun index row => rawSample index row).mapM id
  | some (.chat ids) => .ok (chatSamples ids 0)

/-- A sample is settled when the checkpoint carries it and it is not to be sent again. -/
def settled (checkpoint : Session) (retryFailed : Bool) (id : Text) : Bool :=
  checkpoint.contains id && !(retryFailed && id ∈ (checkpoint.failureSplit maxSampleAttempts).1)

/-- The samples that are not settled, each id once. -/
def unsettledFrom (settled : Text → Bool) : List Text → List Sample → List Sample
  | _, [] => []
  | seen, sample :: samples =>
    if !settled sample.id && !(sample.id ∈ seen) then sample :: unsettledFrom settled (sample.id :: seen) samples
    else unsettledFrom settled seen samples

/-- The samples the checkpoint does not carry, each id once, in dataset order; with `retryFailed` also a failed row that has
attempts left. -/
def pending (samples : List Sample) (checkpoint : Session) (retryFailed : Bool) : List Sample :=
  unsettledFrom (settled checkpoint retryFailed) [] samples

/-- The distinct ids of samples. -/
def distinct (samples : List Sample) : Finset Text := (samples.map (·.id)).toFinset

variable (rows : Option EvalRows)

/-- The cell run behind `eval` and `evalComplete`: the number of distinct ids in the dataset. -/
def runCell (inFlight : InFlight) (retryFailed : Bool) (cell : Cell k start) :
    Except EvalError Nat × Cell k start :=
  match dataset rows with
  | .error e => (.error e, cell)
  | .ok samples =>
    match runSamples env inFlight (pending samples cell.session retryFailed) cell with
    | (.error e, cell) => (.error e, cell)
    | (.ok (), cell) => (.ok (distinct samples).card, cell)

/-- An eval cell whose failed rows are part of its result. -/
def eval (inFlight : InFlight) (cell : Cell k start) :
    Except EvalError (List Completion) × Cell k start :=
  match runCell env rows inFlight false cell with
  | (.error e, cell) => (.error e, cell)
  | (.ok _, cell) => (.ok cell.session.completions.list, cell)

/-- Refuse a cell with fewer rows than the dataset, or with any failed row unless that is waived. -/
def checkComplete (waived : Bool) (checkpoint : Session) (served : Nat) : Except EvalError Unit :=
  let submitted := checkpoint.completions.list.length
  if submitted ≠ served then .error (.shortfall submitted served)
  else if checkpoint.failedCount = 0 then .ok ()
  else
    let (retriable, exhausted) := checkpoint.failureSplit maxSampleAttempts
    if waived then .ok () else .error (.incomplete checkpoint.failedCount submitted retriable exhausted checkpoint.unfitIds)

/-- An eval cell that must not publish failures; `waived` is what the environment says of that. -/
def evalComplete (inFlight : InFlight) (waived : Bool) (cell : Cell k start) :
    Except EvalError (List Completion) × Cell k start :=
  match runCell env rows inFlight true cell with
  | (.error e, cell) => (.error e, cell)
  | (.ok total, cell) =>
    match checkComplete waived cell.session total with
    | .error e => (.error e, cell)
    | .ok () => (.ok cell.session.completions.list, cell)

/-! ## Datasets read a chunk at a time -/

/-- The positions and ids the checkpoint has not settled: no row, or a failed one with attempts left. -/
def chunkedPending (checkpoint : Session) (declared : Nat) (idAt : Nat → Text) : List (Nat × Text) :=
  ((List.range declared).map fun position => (position, idAt position)).filter fun p =>
    !checkpoint.contains p.2 || p.2 ∈ (checkpoint.failureSplit maxSampleAttempts).1

/-- The first row of a chunk that is not its position's. -/
def misplaced (idAt : Nat → Text) (offset : Nat) (ids : List Text) : Option (Nat × Text) :=
  (ids.mapIdx fun index id => (offset + index, id)).find? fun p => p.2 ≠ idAt p.1

/-- What keeps a chunk from being run. -/
def chunkRefused (declared : Nat) (idAt : Nat → Text) (offset : Nat) (ids : List Text) : Option EvalError :=
  if ids = [] then some (.emptyChunk offset declared)
  else if declared < offset + ids.length then some (.overrun offset (offset + ids.length) declared)
  else (misplaced idAt offset ids).map fun p => .outOfPlace p.1 p.2 (idAt p.1)

/-- How many rows a dataset holds, the id of each, no two the same, and the chunk returned when these offsets were asked for,
the last of them now. -/
structure ChunkSource where
  declared : Nat
  idAt : Nat → Text
  chunk : List Nat → Option (List Text)
  idAt_inj : ∀ i j, i < declared → j < declared → idAt i = idAt j → i = j

/-- The samples of a chunk that are to be sent. -/
def chunkPending (todo : List (Nat × Text)) (offset : Nat) (ids : List Text) : List Sample :=
  (chatSamples ids offset).filter fun s => s.id ∈ todo.map (·.2)

/-- Where the first position from `stop` on stands in the list of positions. -/
def partitionPoint (todo : List (Nat × Text)) (stop : Nat) : Nat := (todo.takeWhile fun p => p.1 < stop).length

/-- From the position at `cursor` on; `asked` are the offsets asked for so far. -/
def chunksFrom (source : ChunkSource) (inFlight : InFlight) (todo : List (Nat × Text)) :
    Nat → Nat → List Nat → Cell k start → Except EvalError Unit × Cell k start
  | fuel, cursor, asked, cell =>
    match todo[cursor]? with
    | none => (.ok (), cell)
    | some (offset, _) =>
      match fuel with
      | 0 => (.error .stuck, cell)
      | fuel + 1 =>
        let cell := cell.emit (.asked offset)
        match source.chunk (asked ++ [offset]) with
        | none => (.error (.chunk offset), cell)
        | some ids =>
          match chunkRefused source.declared source.idAt offset ids with
          | some e => (.error e, cell)
          | none =>
            let pending := chunkPending todo offset ids
            match if pending ≠ [] then runSamples env inFlight pending cell else (.ok (), cell) with
            | (.error e, cell) => (.error e, cell)
            | (.ok (), cell) =>
              chunksFrom source inFlight todo fuel (partitionPoint todo (offset + ids.length)) (asked ++ [offset]) cell

/-- A cell over a dataset read in chunks, whose result has an answer to every sample. -/
def evalCompleteChunked (source : ChunkSource) (inFlight : InFlight) (cell : Cell k start) :
    Except EvalError (List Completion) × Cell k start :=
  let todo := chunkedPending cell.session source.declared source.idAt
  match chunksFrom env source inFlight todo todo.length 0 [] cell with
  | (.error e, cell) => (.error e, cell)
  | (.ok (), cell) =>
    match checkComplete false cell.session source.declared with
    | .error e => (.error e, cell)
    | .ok () => (.ok cell.session.completions.list, cell)

end

end Pipette.Measurement
