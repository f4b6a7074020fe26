import Pipette.Download.Range
import Pipette.Mgmt

/-!
# A download that continues a broken body

The file at the destination, the writer that hashes what it forwards, and one attempt to stream an object (`resume::attempt`).
The server's replies and how the disk takes each chunk are scripts; a request past the end gets no answer. An attempt records
what it does in the log of its world.
-/

namespace Pipette.Download

/-- The bytes of a body or a file. -/
abbrev Bytes := List UInt8

/-! ## The disk -/

/-- The kinds of an I/O error the code tells apart. -/
inductive IoKind where
  | interrupted
  | unexpectedEof
  | writeZero
  | storageFull
  | quotaExceeded
  | permissionDenied
  | readOnlyFilesystem
  | outOfMemory
  | resourceBusy
  | other
  deriving DecidableEq

/-- Whether the kind names a disk or a permission that gave out on this host. -/
def namesTheHost : IoKind → Bool
  | .storageFull | .quotaExceeded | .permissionDenied | .readOnlyFilesystem | .outOfMemory | .resourceBusy => true
  | _ => false

/-- What the disk does with one `write`: it accepts the first bytes of the buffer, or fails. -/
inductive WriteStep where
  | accepts (n : Nat)
  | fails (kind : IoKind)
  deriving DecidableEq

/-- A creation of the file: the directory is refused, the file is refused, or it is made. -/
inductive CreateStep where
  | noParent (kind : IoKind)
  | refused (kind : IoKind)
  | made
  deriving DecidableEq

/-- An open file at its position, the bytes hashed so far, and their count (no file reaches the largest 64-bit value, where
the source's stays). -/
structure HashingWriter where
  pos : Nat
  hashed : Bytes
  written : Nat

def HashingWriter.new : HashingWriter := { pos := 0, hashed := [], written := 0 }

/-- One `write` of which the file accepts `n` bytes: they are put at its position, and only they are hashed. -/
def HashingWriter.write (n : Nat) (buf : Bytes) (hw : HashingWriter) (file : Bytes) : HashingWriter × Bytes :=
  let accepted := buf.take n
  ({ pos := hw.pos + accepted.length
     hashed := hw.hashed ++ accepted
     written := hw.written + accepted.length },
    file.take hw.pos ++ accepted ++ file.drop (hw.pos + accepted.length))

/-- `write_all`, again after an interrupted `write`. Past the end of its script the disk takes what is left. -/
def writeAll : List WriteStep → Bytes → HashingWriter → Bytes → Option IoKind × HashingWriter × Bytes
  | _, [], hw, file => (none, hw, file)
  | [], buf, hw, file => (none, hw.write buf.length buf file)
  | .fails .interrupted :: steps, buf, hw, file => writeAll steps buf hw file
  | .fails kind :: _, _, hw, file => (some kind, hw, file)
  | .accepts 0 :: _, _, hw, file => (some .writeZero, hw, file)
  | .accepts (n + 1) :: steps, buf, hw, file =>
    let (hw, file) := hw.write (n + 1) buf file
    writeAll steps (buf.drop (n + 1)) hw file

/-! ## The server -/

/-- One `read` of a body: bytes, or an error. -/
inductive Read where
  | data (bytes : Bytes)
  | failed (kind : IoKind)
  deriving DecidableEq

/-- A response whose body is still on the wire: what each `read` of it gives, until its end. -/
structure Body where
  status : Nat
  etagHeader : Option Text
  rangeHeader : Option Text
  contentLength : Option Nat
  reads : List Read

def Body.strongEtag (body : Body) : Option Text := Pipette.strongEtag body.etagHeader

def Body.contentRange (body : Body) : Option ContentRange := ContentRange.fromHeader body.rangeHeader

/-- What a range must match to continue a file: a strong `ETag`, and the size of the object. -/
structure Expect where
  etag : Option Text
  total : Option Nat
  deriving DecidableEq

/-- The byte where a download continues, and the `ETag` and size that the next response must match. -/
structure ResumePoint where
  offset : Nat
  etag : Text
  total : Option Nat

/-- Whether the response continues the file. -/
def ResumePoint.continuedBy (point : ResumePoint) (body : Body) : Bool :=
  body.status = 206 && body.strongEtag = some point.etag &&
    match body.contentRange with
    | some range => range.first = point.offset && (point.total = none || range.total = point.total)
    | none => false

/-- A download that an attempt did not finish. -/
structure Part where
  writer : HashingWriter
  expect : Expect
  resumedAt : Option Nat

def Part.start (expect : Expect) : Part := { writer := .new, expect, resumedAt := none }

/-- If the size is not known, take it from the `Content-Range` of the `206`. -/
def Part.resume (offset : Nat) (body : Body) (file : Part) : Part :=
  { file with
    resumedAt := file.resumedAt.or (some offset)
    expect := { file.expect with total := file.expect.total.or (body.contentRange.bind (·.total)) } }

/-- None if the file holds no bytes, or if the server gave no strong `ETag`. -/
def Part.resumePoint (file : Part) : Option ResumePoint :=
  if file.writer.written = 0 then none
  else file.expect.etag.map fun etag => { offset := file.writer.written, etag, total := file.expect.total }

/-! ## The world of a download -/

/-- What a download did, in order. `ρ` is what a refused request comes back with. -/
inductive Event (ρ : Type) where
  | requested (resume : Option ResumePoint) (reply : Except ρ Body)
  | created
  | resumed (offset : Nat)
  | verified (hashed : Bytes)
  | pinFailed

/-- The bytes counted for the artifact, and its size if known. -/
structure Reporter where
  totalBytes : Option Nat
  doneBytes : Nat

def Reporter.advance (n : Nat) (r : Reporter) : Reporter := { r with doneBytes := satAdd r.doneBytes n }

def Reporter.rewind (mark : Nat) (r : Reporter) : Reporter := { r with doneBytes := min r.doneBytes mark }

def Reporter.setTotalIfUnknown (total : Option Nat) (r : Reporter) : Reporter := { r with totalBytes := r.totalBytes.or total }

/-- The file at the destination, the replies and disk behaviour still to come, the progress, and the log. -/
structure World (ρ : Type) where
  dest : Option Bytes
  replies : List (Except ρ Body)
  chunks : List (List WriteStep)
  creates : List CreateStep
  reporter : Reporter
  log : List (Event ρ)

/-- A download that has done nothing yet. -/
def World.start {ρ : Type} (dest : Option Bytes) (replies : List (Except ρ Body)) (chunks : List (List WriteStep))
    (creates : List CreateStep) (reporter : Reporter) : World ρ :=
  { dest, replies, chunks, creates, reporter, log := [] }

/-- The server side of a download, as far as its errors and its expectations go. -/
structure Source (ρ ε : Type) where
  noAnswer : ρ
  requestError : ρ → ε
  rangeRefused : ε → Bool
  expect : Body → Expect
  ioError : IoKind → ε

section Attempt

variable {ρ ε : Type} (src : Source ρ ε)

/-- Send a request: the next reply of the server, if it gives another. -/
def Source.get (resume : Option ResumePoint) (w : World ρ) : Except ε Body × World ρ :=
  match w.replies with
  | [] => (.error (src.requestError src.noAnswer), { w with log := w.log ++ [.requested resume (.error src.noAnswer)] })
  | reply :: replies =>
    (match reply with
      | .ok body => .ok body
      | .error err => .error (src.requestError err),
      { w with replies, log := w.log ++ [.requested resume reply] })

/-- A request for the whole object, whose body starts the file from zero. -/
def openWhole (w : World ρ) : Except ε (Body × Option Part) × Option Part × World ρ :=
  match src.get none w with
  | (.ok body, w) => (.ok (body, none), none, w)
  | (.error err, w) => (.error err, none, w)

/-- The body with the file it continues, if it does, and the file left for a later attempt. A file the body does not continue
is dropped; one the server never judged is kept. -/
def openBody (part : Option Part) (w : World ρ) : Except ε (Body × Option Part) × Option Part × World ρ :=
  match part.bind Part.resumePoint with
  | none => openWhole src w
  | some point =>
    match src.get (some point) w with
    | (.ok body, w) =>
      if point.continuedBy body then
        (.ok (body, part.map (Part.resume point.offset body)), none, { w with log := w.log ++ [.resumed point.offset] })
      else if body.status = 200 then (.ok (body, none), none, w)
      else openWhole src w
    | (.error err, w) => if src.rangeRefused err then openWhole src w else (.error err, part, w)

/-- The file a body is copied into: the one it continues, or a new one, with the progress at `start`. -/
def fileFor (start : Nat) (body : Body) (continued : Option Part) (w : World ρ) : Except ε Part × World ρ :=
  match continued with
  | some file => (.ok file, w)
  | none =>
    match w.creates.headD .made with
    | .noParent kind => (.error (src.ioError kind), { w with creates := w.creates.tail })
    | .refused kind => (.error (src.ioError kind), { w with creates := w.creates.tail, reporter := w.reporter.rewind start })
    | .made =>
      (.ok (Part.start (src.expect body)),
        { w with
          dest := some []
          creates := w.creates.tail
          reporter := w.reporter.rewind start
          log := w.log ++ [.created] })

/-- The size of the buffer `copy_reporting` reads into. -/
def bufSize : Nat := 8 * 1024

/-- Copy a body to the file read by read, counting what it moves. -/
def copyReporting : List Read → HashingWriter → World ρ → Option IoKind × HashingWriter × World ρ
  | [], hw, w => (none, hw, w)
  | .data [] :: _, hw, w => (none, hw, w)
  | .failed .interrupted :: reads, hw, w => copyReporting reads hw w
  | .failed kind :: _, hw, w => (some kind, hw, w)
  | .data (b :: bytes) :: reads, hw, w =>
    if bufSize < (b :: bytes).length then (some .other, hw, w)
    else
      match writeAll (w.chunks.headD []) (b :: bytes) hw (w.dest.getD []) with
      | (some kind, hw, file) => (some kind, hw, { w with dest := some file, chunks := w.chunks.tail })
      | (none, hw, file) =>
        copyReporting reads hw
          { w with
            dest := some file
            chunks := w.chunks.tail
            reporter := w.reporter.advance (b :: bytes).length }

/-- Whether a range answer sent all of its range and the file is still short of the known size. -/
def stoppedShort (pieceEnd : Option Nat) (file : Part) : Bool :=
  pieceEnd.any (fun last => file.writer.written = satAdd last 1) && file.expect.total.any (fun total => file.writer.written < total)

/-- What a round of an attempt comes to: the attempt returns, or it asks for the bytes after a range answer. -/
inductive Round (ρ ε : Type) where
  | returned (out : Except ε Part × Option Part × World ρ)
  | again (file : Part) (w : World ρ)

/-- One round of an attempt. -/
def attemptRound (start : Nat) (part : Option Part) (w : World ρ) : Round ρ ε :=
  match openBody src part w with
  | (.error err, part, w) => .returned (.error err, part, w)
  | (.ok (body, continued), part, w) =>
    let pieceEnd := continued.bind fun _ => body.contentRange.map (·.last)
    match fileFor src start body continued w with
    | (.error err, w) => .returned (.error err, part, w)
    | (.ok file, w) =>
      match copyReporting body.reads file.writer w with
      | (some kind, writer, w) => .returned (.error (src.ioError kind), some { file with writer }, w)
      | (none, writer, w) =>
        let file := { file with writer }
        if stoppedShort pieceEnd file then .again file w else .returned (.ok file, part, w)

/-- The rounds of one attempt; none when the fuel runs out before one of them returns. -/
def attemptLoop (start : Nat) : Nat → Option Part → World ρ → Option (Except ε Part × Option Part × World ρ)
  | 0, _, _ => none
  | fuel + 1, part, w =>
    match attemptRound src start part w with
    | .returned out => some out
    | .again file w => attemptLoop start fuel (some file) w

/-- One attempt to stream the object into the destination. A round that asks again took a reply from the script, so the loop
returns within this fuel (`attempt_ends`) and the default is never taken. -/
def attempt (start : Nat) (part : Option Part) (w : World ρ) : Except ε Part × Option Part × World ρ :=
  (attemptLoop src start (w.replies.length + 1) part w).getD (.error (src.requestError src.noAnswer), part, w)

end Attempt

end Pipette.Download
