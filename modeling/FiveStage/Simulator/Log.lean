import FiveStage.Failure

/-!
# The pipeline log

The lines of the pipeline diagram, kept in memory or written to a file through a buffer. The buffer
is written out when a piece no longer fits into it.
-/

namespace FiveStage

/-- The bytes a log file buffers before it writes them out. -/
def logBufferSize : Nat := 8192

/-- A log file: where it is, and the bytes that are still to be written. -/
structure LogFile where
  path : String
  handle : Handle
  pending : ByteArray := .empty

/-- Where the lines of a log go. -/
inductive PipeLog
  | buffer (text : String)
  | file (out : LogFile)

namespace LogFile

/-- Writes out the buffered bytes. If that fails, those that are left stay in the buffer. -/
def flush (l : LogFile) (f : Files) : Option OsError × LogFile × Files :=
  let (e, handle, f) := f.write l.handle l.pending
  let written := handle.offset - l.handle.offset
  (e, { l with handle, pending := l.pending.extract written l.pending.size }, f)

/-- Adds bytes to a buffer that has room for them. Bytes that would fill an empty buffer are written
directly. -/
def add (l : LogFile) (data : ByteArray) (f : Files) : Option OsError × LogFile × Files :=
  if logBufferSize ≤ data.size then
    let (e, handle, f) := f.write l.handle data
    (e, { l with handle }, f)
  else (none, { l with pending := l.pending ++ data }, f)

/-- Writes bytes through the buffer, which is written out first if they do not fit. -/
def push (l : LogFile) (data : ByteArray) (f : Files) : Option OsError × LogFile × Files :=
  if logBufferSize < l.pending.size + data.size then
    match l.flush f with
    | (some e, l, f) => (some e, l, f)
    | (none, l, f) => l.add data f
  else l.add data f

end LogFile

namespace PipeLog

/-- Appends a line. -/
def pushLine (log : PipeLog) (line : String) (f : Files) : Option Failure × PipeLog × Files :=
  match log with
  | .buffer text => (none, .buffer (text ++ line ++ "\n"), f)
  | .file out =>
    match out.push line.toUTF8 f with
    | (some e, out, f) => (some (.io out.path e), .file out, f)
    | (none, out, f) =>
      match out.push "\n".toUTF8 f with
      | (some e, out, f) => (some (.io out.path e), .file out, f)
      | (none, out, f) => (none, .file out, f)

/-- Writes out what a log file has buffered. -/
def flush (log : PipeLog) (f : Files) : Option Failure × PipeLog × Files :=
  match log with
  | .buffer text => (none, .buffer text, f)
  | .file out =>
    match out.flush f with
    | (some e, out, f) => (some (.io out.path e), .file out, f)
    | (none, out, f) => (none, .file out, f)

/-- Gives up a log. What a log file has buffered is written out if possible. -/
def close (log : PipeLog) (f : Files) : Files := (log.flush f).2.2

/-- The lines of a log in memory. -/
def text? : PipeLog → Option String
  | .buffer text => some text
  | .file _ => none

end PipeLog

end FiveStage
