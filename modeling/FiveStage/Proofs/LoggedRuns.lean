import FiveStage.Proofs.Session

/-! # Calls of a run and their log

Calls of a run with a log compute what they compute without one (`Simulator.bare_runCalls`). A log
in memory holds exactly the lines that have been drawn (`Simulator.log_runCalls_of_buffer`), a log
in a file holds them all or there has been no space for them (`Simulator.Streams.runCalls`), and the
first write that fails is reported when the log is ended (`Simulator.finishLog_runCalls`).

The files may be changed by others between two calls of a run. A device can fill up in this way. It
can also fill up in the middle of a call, when what is written there goes beyond the space that is
left. -/

namespace FiveStage

namespace PipeLog

/-- The first failure of a log that is given the lines of one call after another, each with the
files as the call finds them, and is flushed in the end. -/
def firstFailure (log : PipeLog) (c : Core) (f : Files) :
    List (Nat × (Files → Files)) → Option Failure
  | [] => (log.flush f).1
  | (budget, change) :: calls =>
    match log.feed (change f) (c.diagram (c.taken budget)) with
    | (some e, _, _) => some e
    | (none, log, f) => log.firstFailure (c.runCycles budget) f calls

end PipeLog

namespace Simulator

variable {s : Simulator} {f : Files}

/-- Pipelined calls one after another. Before each of them the files may be changed by others. -/
def runCalls (s : Simulator) (f : Files) : List (Nat × (Files → Files)) → Simulator × Files
  | [] => (s, f)
  | (budget, change) :: calls =>
    (s.runCycles budget (change f)).1.runCalls (s.runCycles budget (change f)).2 calls

theorem core_of_bare {t : Simulator} (h : t.bare = s.bare) : t.core = s.core := by
  simpa only [bare] using congrArg Simulator.core h

theorem Current.of_bare {t : Simulator} (hs : s.Current) (h : t.bare = s.bare) : t.Current := by
  have hstatus : t.status = s.status := by simpa only [bare] using congrArg Simulator.status h
  rw [Current, hstatus, core_of_bare h]
  exact hs

/-- The log and the files have no part in what calls compute. -/
theorem bare_runCalls {t : Simulator} (hs : s.Current) (h : t.bare = s.bare) (g : Files)
    (calls : List (Nat × (Files → Files))) :
    (t.runCalls g calls).1.bare = (s.runCalls f calls).1.bare := by
  induction calls generalizing s t f g with
  | nil => exact h
  | cons call calls ih =>
    have hadvanced : (t.advanced call.1).bare = (s.advanced call.1).bare := by
      show { t.bare with
        core := t.core.runCycles call.1
        status := (t.core.runCycles call.1).pipeline.status } = _
      rw [h, core_of_bare h]
      rfl
    refine ih (hs.runCycles _) ?_ _
    rw [bare_runCycles (hs.of_bare h), bare_runCycles hs, hadvanced]

/-- The core after some calls. -/
theorem exists_elapsed (hs : s.Current) (f : Files) (calls : List (Nat × (Files → Files))) :
    ∃ n, s.core.Elapsed n (s.runCalls f calls).1.core := by
  induction calls generalizing s f with
  | nil => exact ⟨0, .refl _⟩
  | cons call calls ih =>
    obtain ⟨n, hn⟩ := ih (hs.runCycles call.1 (f := call.2 f)) _
    rw [core_of_bare (bare_runCycles hs call.1)] at hn
    exact ⟨_, (s.core.elapsed_runCycles call.1).trans hn⟩

/-- Without a log no line is taken, and a failure is kept. -/
theorem logs_runCalls_of_none (hs : s.Current) (h : s.log = none) (f : Files)
    (calls : List (Nat × (Files → Files))) :
    (s.runCalls f calls).1.log = s.log ∧ (s.runCalls f calls).1.logFailure = s.logFailure := by
  induction calls generalizing s f with
  | nil => exact ⟨rfl, rfl⟩
  | cons call calls ih =>
    have hrun : s.runCycles call.1 (call.2 f) = (s.advanced call.1, call.2 f) := by
      rw [runCycles_eq hs, takeLines, advanced, h]
    rw [runCalls, hrun]
    exact ih (.advanced s _) h _

/-! ## A log in memory -/

theorem takeLines_of_buffer {text : String} (h : s.log = some (.buffer text))
    (lines : List String) :
    s.takeLines f lines = ({ s with log := some (.buffer (text ++ Text.unlines lines)) }, f) := by
  obtain ⟨core, mode, status, dumpStart, dumpEnd, log, logFailure⟩ := s
  cases h
  simp only [takeLines, PipeLog.feed_buffer]

/-- A log in memory is given exactly the lines that are drawn. -/
theorem log_runCalls_of_buffer (hs : s.Current) {text : String} (h : s.log = some (.buffer text))
    {calls : List (Nat × (Files → Files))} {n : Nat}
    (hn : s.core.Elapsed n (s.runCalls f calls).1.core) :
    (s.runCalls f calls).1.log = some (.buffer (text ++ Text.unlines (s.core.diagram n))) ∧
      (s.runCalls f calls).1.logFailure = s.logFailure := by
  induction calls generalizing s f text n with
  | nil =>
    obtain rfl := hn.unique (.refl _)
    rw [runCalls, h, Core.diagram_zero, Text.unlines, List.flatMap_nil, String.ofList_nil,
      String.append_empty]
    exact ⟨rfl, rfl⟩
  | cons call calls ih =>
    have hfirst := s.core.elapsed_runCycles call.1
    have hrun : s.runCycles call.1 (call.2 f) =
        ({ s.advanced call.1 with log := some (.buffer
            (text ++ Text.unlines (s.core.diagram (s.core.taken call.1)))) }, call.2 f) := by
      rw [runCycles_eq hs, takeLines_of_buffer (s := s.advanced call.1) h]
    obtain ⟨m, hm⟩ := exists_elapsed (hs.runCycles call.1 (f := call.2 f)) _ calls
    obtain ⟨hlog, hfailure⟩ := ih (hs.runCycles call.1) (by rw [hrun]) hm
    rw [core_of_bare (bare_runCycles hs call.1)] at hm hlog
    obtain rfl := hn.unique (hfirst.trans hm)
    refine ⟨hlog.trans ?_, hfailure.trans ?_⟩
    · show some (PipeLog.buffer (_ ++ Text.unlines ((s.core.runCycles call.1).diagram m))) = _
      rw [Core.diagram_add, ← hfirst.reached, Text.unlines_append, String.append_assoc]
    · rw [hrun]
      rfl

/-! ## A log that fails -/

/-- The failure that has ended a log is kept. -/
theorem finishLog_runCalls_of_failed (hs : s.Current) (hlog : s.log = none) {e : Failure}
    (hfailure : s.logFailure = some e) (f : Files) (calls : List (Nat × (Files → Files))) :
    ((s.runCalls f calls).1.finishLog (s.runCalls f calls).2).1 = some e := by
  rw [finishLog, (logs_runCalls_of_none hs hlog f calls).2, hfailure]

/-- When the log is ended, the first failure of all its lines and its last flush is reported. -/
theorem finishLog_runCalls (hs : s.Current) {log : PipeLog} (hlog : s.log = some log)
    (hfailure : s.logFailure = none) (f : Files) (calls : List (Nat × (Files → Files))) :
    ((s.runCalls f calls).1.finishLog (s.runCalls f calls).2).1 =
      log.firstFailure s.core f calls := by
  induction calls generalizing s log f with
  | nil => rw [runCalls, finishLog, hfailure, hlog, PipeLog.firstFailure]
  | cons call calls ih =>
    have hrun := runCycles_eq hs call.1 (call.2 f)
    have hlog' : (s.advanced call.1).log = some log := hlog
    simp only [takeLines, hlog'] at hrun
    rw [PipeLog.firstFailure, runCalls, hrun]
    rcases log.feed (call.2 f) (s.core.diagram (s.core.taken call.1)) with ⟨_ | e, log', f'⟩
    · exact ih (s := { s.advanced call.1 with log := some log' }) rfl rfl hfailure f'
    · exact finishLog_runCalls_of_failed
        (s := { s.advanced call.1 with log := none, logFailure := some e }) rfl rfl rfl _ calls

/-! ## A log in a file -/

/-- What others do to the files between the calls: they write to other files than the one at a
place, and leave the space there as it is. -/
def Spares (l : Location) (calls : List (Nat × (Files → Files))) : Prop :=
  ∀ call ∈ calls, ∀ f, Files.Rewritten (· ≠ l) f (call.2 f)

theorem Streams.advanced {path : String} {l : Location} {ls : List String}
    (h : s.Streams path l f ls) (budget : Nat) : (s.advanced budget).Streams path l f ls := by
  cases h with
  | going out log path location holds sound => exact .going out log path location holds sound
  | failed log failure long => exact .failed log failure long

/-- The log file is given the lines of all calls, whatever becomes of the other files. -/
theorem Streams.runCalls {path : String} {l : Location} {ls : List String} (hs : s.Current)
    (h : s.Streams path l f ls) {calls : List (Nat × (Files → Files))} (hcalls : Spares l calls)
    {n : Nat} (hn : s.core.Elapsed n (s.runCalls f calls).1.core) :
    (s.runCalls f calls).1.Streams path l (s.runCalls f calls).2 (ls ++ s.core.diagram n) ∧
      Files.Rewritten (fun _ => True) f (s.runCalls f calls).2 := by
  induction calls generalizing s f ls n with
  | nil =>
    obtain rfl := hn.unique (.refl _)
    rw [Core.diagram_zero, List.append_nil]
    exact ⟨h, .refl f⟩
  | cons call calls ih =>
    obtain ⟨hcall, hrest⟩ := List.forall_mem_cons.mp hcalls
    have hfirst := s.core.elapsed_runCycles call.1
    obtain ⟨hdrawn, hf⟩ := ((h.changed (hcall f)).advanced call.1).takeLines
      (s.core.diagram (s.core.taken call.1))
    rw [← runCycles_eq hs] at hdrawn hf
    obtain ⟨m, hm⟩ := exists_elapsed (hs.runCycles call.1 (f := call.2 f)) _ calls
    obtain ⟨hend, hf'⟩ := ih (hs.runCycles call.1) hdrawn hrest hm
    rw [core_of_bare (bare_runCycles hs call.1)] at hm hend
    obtain rfl := hn.unique (hfirst.trans hm)
    refine ⟨?_, ?_⟩
    · rw [Core.diagram_add, ← hfirst.reached, ← List.append_assoc]
      exact hend
    · exact (((hcall f).mono fun _ _ => trivial).trans (hf.mono fun _ _ => trivial)).trans hf'

/-- A simulator at rest before its first cycle, without a log. -/
structure Unstarted (s : Simulator) : Prop where
  current : s.Current
  running : s.core.pipeline.status.isTerminal = false
  uncounted : s.core.machine.counters.cycles = 0
  log : s.log = none
  sound : s.logFailure = none

theorem unstarted_of_build {c : Config} {memory : Memory} (h : Simulator.build c memory = .ok s) :
    s.Unstarted := by
  cases hc : c.validate with
  | error e =>
    rw [build, hc] at h
    cases h
  | ok =>
    obtain rfl := (Arguments.build_eq_ok_iff hc).mp h
    exact ⟨rfl, rfl, rfl, rfl, rfl⟩

section Plain

variable (f : Files) (calls : List (Nat × (Files → Files)))

/-- The cycles that have been counted are those that have passed. -/
theorem Unstarted.elapsed (hs : s.Unstarted) :
    s.core.Elapsed (s.runCalls f calls).1.stats.cycles (s.runCalls f calls).1.core := by
  obtain ⟨n, hn⟩ := exists_elapsed hs.current f calls
  have hcycles : (s.runCalls f calls).1.stats.cycles = n := by
    have hcounted := hn.counted
    rw [hs.uncounted, Nat.zero_add] at hcounted
    exact hcounted
  rw [hcycles]
  exact hn

/-- Without a log there is nothing to leave out. -/
theorem Unstarted.bare (hs : s.Unstarted) :
    (s.runCalls f calls).1.bare = (s.runCalls f calls).1 := by
  obtain ⟨hlog, hfailure⟩ := logs_runCalls_of_none hs.current hs.log f calls
  show { (s.runCalls f calls).1 with log := none, logFailure := none } = _
  rw [← hs.log, ← hs.sound, ← hlog, ← hfailure]

/-- A log has no part in the run, whatever becomes of the files. -/
theorem Unstarted.passive (hs : s.Unstarted) (log : Option PipeLog) (failure : Option Failure)
    (g : Files) :
    ({ s with log, logFailure := failure }.runCalls g calls).1.bare = (s.runCalls f calls).1 := by
  rw [← hs.bare f calls]
  exact bare_runCalls (t := { s with log, logFailure := failure }) hs.current rfl g calls

/-- It has no part in the cycles that pass, either. -/
theorem Unstarted.elapsed_logging (hs : s.Unstarted) (log : Option PipeLog)
    (failure : Option Failure) (g : Files) :
    s.core.Elapsed (s.runCalls f calls).1.stats.cycles
      ({ s with log, logFailure := failure }.runCalls g calls).1.core := by
  have hsame := (hs.passive f calls log failure g).trans (hs.bare f calls).symm
  rw [core_of_bare hsame]
  exact hs.elapsed f calls

/-- A log in memory holds the lines of the cycles, and ends without a failure. -/
theorem Unstarted.enableLog (hs : s.Unstarted) :
    (s.enableLog.runCalls f calls).1.logText? =
        some (Text.unlines (s.core.diagram (s.runCalls f calls).1.stats.cycles)) ∧
      ((s.enableLog.runCalls f calls).1.finishLog (s.enableLog.runCalls f calls).2).1 = none := by
  have henabled : s.enableLog = { s with log := some (.buffer "") } := by
    rw [Simulator.enableLog, hs.log]
  obtain ⟨hlog, hfailure⟩ := log_runCalls_of_buffer
    (s := { s with log := some (.buffer "") }) hs.current rfl
    (hs.elapsed_logging f calls (some (.buffer "")) s.logFailure f)
  rw [String.empty_append] at hlog
  rw [henabled, logText?, finishLog, hlog, hfailure]
  refine ⟨rfl, ?_⟩
  simp only [hs.sound, PipeLog.flush]

end Plain

/-- Cycles have passed exactly if there has been a call. -/
theorem Unstarted.cycles_eq_zero_iff (hs : s.Unstarted) (f : Files)
    (calls : List (Nat × (Files → Files))) :
    (s.runCalls f calls).1.stats.cycles = 0 ↔ calls = [] := by
  cases calls with
  | nil => exact ⟨fun _ => rfl, fun _ => hs.uncounted⟩
  | cons call calls =>
    refine ⟨fun hzero => ?_, nofun⟩
    obtain ⟨m, hm⟩ := exists_elapsed (hs.current.runCycles call.1 (f := call.2 f)) _ calls
    rw [core_of_bare (bare_runCycles hs.current call.1)] at hm
    have hcycles := (hs.elapsed f (call :: calls)).unique
      ((s.core.elapsed_runCycles call.1).trans hm)
    have hpos := Core.taken_pos hs.running call.1
    omega

/-- How a stream that has been opened ends: it fails exactly if there is no space for the lines of
the cycles, and otherwise the file holds them. -/
theorem Unstarted.streamed (hs : s.Unstarted) {path : String} {l : Location}
    (hl : f.OpensAt path l) {r : Simulator × Files} (h : s.streamLog path f = .ok r)
    {calls : List (Nat × (Files → Files))} (hcalls : Spares l calls) :
    let text := (Text.unlines (s.core.diagram (s.runCalls f calls).1.stats.cycles)).toUTF8
    let ended := (r.1.runCalls r.2 calls).1.finishLog (r.1.runCalls r.2 calls).2
    ended.1 = (if f.fits l text.size then none else some (.io path .noSpace)) ∧
      (f.isFull l = false → ended.1 = none → ended.2.2.read path = .ok text) := by
  intro text ended
  obtain ⟨l', hl', rfl⟩ := streamLog_eq_ok hs.log h
  obtain rfl := hl'.unique hl
  obtain ⟨-, hcreated⟩ := Files.receives_created hl
  have hend := hs.elapsed_logging f calls (some (.file { path, handle := ⟨l', 0⟩ })) s.logFailure
    (if f.isFull l' then f else f.put l' .empty)
  have hbegun := Streams.init (s := { s with log := some (.file { path, handle := ⟨l', 0⟩ }) })
    hl rfl hs.sound
  obtain ⟨hstreams, hcalled⟩ := hbegun.runCalls (by exact hs.current) hcalls hend
  rw [List.nil_append] at hstreams
  obtain ⟨hfailure, -, -, hwritten, hlines⟩ := hstreams.finishLog
  have hreach := (hcreated.mono fun _ _ => trivial).trans hcalled
  rw [hreach.fits] at hfailure
  rw [hreach.full, hreach.fits] at hlines
  refine ⟨hfailure, fun hfull hnone => ?_⟩
  have hfits : f.fits l' text.size = true := by
    rw [hnone] at hfailure
    split at hfailure
    next hfits => exact hfits
    next => cases hfailure
  have hended := hreach.trans (hwritten.mono fun _ _ => trivial)
  exact Files.read_of_opensAt (hended.opensAt_iff.mpr hl) (hlines hfull hfits)

end Simulator

/-- The log of the pipeline is faithful, and it has no part in the run.

The lines are those of the cycles of the run, in order and one for each: each shows the slots right
behind its cycle and begins with its number. A log in memory holds exactly them, and its text falls
into them again. Whatever the log is, if there is one, and whatever becomes of the files, all but
the log is the same in the end; and when the log is ended, the first failure of its lines and of its
last flush is reported. A stream that is opened before the first cycle fails exactly if there is no
space for the lines, which a device that takes no data never has for a line. Otherwise the file
holds the text that a log in memory holds. -/
theorem pipeline_log_faithful {c : Config} {memory : Memory} {s : Simulator}
    (h : Simulator.build c memory = .ok s) (calls : List (Nat × (Files → Files))) (f : Files) :
    let plain := (s.runCalls f calls).1
    let cycles := plain.stats.cycles
    let lines := s.core.diagram cycles
    (plain.core = Core.runTicks cycles s.core ∧ lines.length = cycles ∧
      ∀ n line, lines[n]? = some line →
        (Core.runTicks n s.core).pipeline.status.isTerminal = false ∧
          line = Snapshot.line ⟨n, (Core.runTicks (n + 1) s.core).pipeline.slots⟩ ∧
          ∃ rest, line = "Cycle: " ++ Text.padLeft 8 ' ' (Text.decimal n) ++ rest) ∧
    ((s.enableLog.runCalls f calls).1.logText? = some (Text.unlines lines) ∧
      ((s.enableLog.runCalls f calls).1.finishLog (s.enableLog.runCalls f calls).2).1 = none ∧
      Text.lines (Text.unlines lines).toList = lines.map String.toList ++ [[]]) ∧
    (∀ log failure g,
      ({ s with log, logFailure := failure }.runCalls g calls).1.bare = plain) ∧
    (∀ log g, let r := { s with log := some log }.runCalls g calls
      (r.1.finishLog r.2).1 = log.firstFailure s.core g calls) ∧
    (∀ path s₁ f₁, s.streamLog path f = .ok (s₁, f₁) → ∃ l, f.OpensAt path l ∧
      let text := (Text.unlines lines).toUTF8
      (f.isFull l = true → (f.fits l text.size = true ↔ calls = [])) ∧
      (f.isFull l = false → f.limits = [] → f.fits l text.size = true) ∧
      (Simulator.Spares l calls → let r := s₁.runCalls f₁ calls
        (r.1.finishLog r.2).1 =
            (if f.fits l text.size then none else some (.io path .noSpace)) ∧
          (f.isFull l = false → (r.1.finishLog r.2).1 = none →
            (r.1.finishLog r.2).2.2.read path = .ok text))) := by
  intro plain cycles lines
  have hs := Simulator.unstarted_of_build h
  have hplain : s.core.Elapsed cycles plain.core := hs.elapsed f calls
  refine ⟨⟨hplain.reached, s.core.length_diagram cycles, ?_⟩, ?_, hs.passive f calls, ?_, ?_⟩
  · intro n line hline
    obtain ⟨hrunning, hsnapshot⟩ := hplain.line hs.uncounted hline
    refine ⟨hrunning, hsnapshot, ?_⟩
    simp only [hsnapshot, Snapshot.line, String.append_assoc]
    exact ⟨_, rfl⟩
  · obtain ⟨htext, hnone⟩ := hs.enableLog f calls
    exact ⟨htext, hnone, Text.lines_unlines fun line hline => Core.notMem_diagram hline⟩
  · intro log g
    exact Simulator.finishLog_runCalls (s := { s with log := some log }) hs.current rfl hs.sound g
      calls
  · intro path s₁ f₁ hstream
    obtain ⟨l, hl, -⟩ := Simulator.streamLog_eq_ok hs.log hstream
    refine ⟨l, hl, fun hfull => ?_, fun hfull hlimits => Files.fits_of_limits_nil hlimits hfull,
      hs.streamed hl hstream⟩
    rw [Files.fits_of_full hfull, ← hs.cycles_eq_zero_iff f calls]
    constructor
    · intro hsize
      have hle := Text.length_le_size_unlines lines
      rw [hsize, s.core.length_diagram cycles] at hle
      exact Nat.le_zero.mp hle
    · intro hcycles
      have hnil : lines = [] :=
        List.eq_nil_of_length_eq_zero ((s.core.length_diagram _).trans hcycles)
      rw [hnil]
      rfl

/-- A place at which there is space for ten bytes. -/
def Files.scarce : Files := { nodes := [], limits := [(["log"], 10)] }

/-- Two calls, the second of which runs to the end, draw the lines of 17 cycles. A log of them on a
device that takes no data reports that, and so does one for which space is scarce. -/
theorem pipeline_log_faithful_storing :
    ∃ s, Simulator.build {} Machine.storing.memory = .ok s ∧
      (s.enableLog.runCalls .empty [(3, id), (40, id)]).1.logText? =
        some (Text.unlines (s.core.diagram 17)) ∧
      (∃ r, s.streamLog "/dev/full" .empty = .ok r ∧
        ((r.1.runCalls r.2 [(3, id), (40, id)]).1.finishLog
            (r.1.runCalls r.2 [(3, id), (40, id)]).2).1 = some (.io "/dev/full" .noSpace)) ∧
      ∃ r, s.streamLog "log" .scarce = .ok r ∧
        ((r.1.runCalls r.2 [(3, id), (40, id)]).1.finishLog
            (r.1.runCalls r.2 [(3, id), (40, id)]).2).1 = some (.io "log" .noSpace) := by
  have hbuild : Simulator.build {} Machine.storing.memory =
      .ok (Arguments.simulator {} Machine.storing.memory) :=
    (Arguments.build_eq_ok_iff rfl).mpr rfl
  obtain ⟨-, ⟨htext, -⟩, -, -, hdevice⟩ :=
    pipeline_log_faithful hbuild [(3, id), (40, id)] .empty
  obtain ⟨⟨-, hlength, -⟩, -, -, -, hscarce⟩ :=
    pipeline_log_faithful hbuild [(3, id), (40, id)] .scarce
  have hcycles : ((Arguments.simulator {} Machine.storing.memory).runCalls .empty
      [(3, id), (40, id)]).1.stats.cycles = 17 := by decide +kernel
  have hcycles' : ((Arguments.simulator {} Machine.storing.memory).runCalls .scarce
      [(3, id), (40, id)]).1.stats.cycles = 17 := by decide +kernel
  rw [hcycles] at htext
  have hspares (l : Location) : Simulator.Spares l [(3, id), (40, id)] := by
    intro call hcall f
    simp only [List.mem_cons, List.not_mem_nil, or_false] at hcall
    rcases hcall with rfl | rfl <;> exact .refl f
  refine ⟨_, hbuild, htext, ?_, ?_⟩
  · have hopens : Files.empty.OpensAt "/dev/full" ["/", "dev", "full"] :=
      ⟨by decide +kernel, by decide⟩
    have hopen := Files.create_of_opensAt hopens
    refine ⟨_, by rw [Simulator.streamLog, hopen], ?_⟩
    obtain ⟨l, hl, hfull, -, hend⟩ := hdevice "/dev/full" _ _ (by rw [Simulator.streamLog, hopen])
    obtain rfl := hl.unique hopens
    exact (hend (hspares _)).1.trans
      (if_neg fun hfits => List.cons_ne_nil _ _ ((hfull (by decide)).mp hfits))
  · have hopens : Files.scarce.OpensAt "log" ["log"] := ⟨by decide +kernel, by decide⟩
    have hopen := Files.create_of_opensAt hopens
    refine ⟨_, by rw [Simulator.streamLog, hopen], ?_⟩
    obtain ⟨l, hl, -, -, hend⟩ := hscarce "log" _ _ (by rw [Simulator.streamLog, hopen])
    obtain rfl := hl.unique hopens
    refine (hend (hspares _)).1.trans (if_neg fun hfits => ?_)
    have hroom : Files.scarce.room? ["log"] = some 10 := by decide
    rw [Files.fits, hroom] at hfits
    have hsize := Nat.le_trans (Text.length_le_size_unlines _) (of_decide_eq_true hfits)
    rw [hlength, hcycles'] at hsize
    exact absurd hsize (by decide)

end FiveStage
