import FiveStage.Proofs.Diagram
import FiveStage.Proofs.Files
import FiveStage.Proofs.Resumption

/-! # The log of a run

A log file is a buffer in front of a file. What it has been given is what the file holds together
with what is still buffered (`LogFile.Holds`), however the pieces fall on the size of the buffer. It
goes on until there is no space for what it has been given, and fails then (`LogFile.GoesOn`).

A run with a log is the run without one, and the lines of its cycles given to the log
(`Simulator.runCycles_eq`). So a log in a file holds all the lines when it is ended, or reports that
there was no space for them (`Simulator.Streams.finishLog`). -/

namespace FiveStage

namespace Text

/-- Lines as a text, each with its end. -/
def unlines (ls : List String) : String :=
  String.ofList (ls.flatMap fun line => line.toList ++ ['\n'])

theorem unlines_append (ls ls' : List String) :
    unlines (ls ++ ls') = unlines ls ++ unlines ls' := by
  rw [unlines, List.flatMap_append, String.ofList_append]
  rfl

theorem toUTF8_unlines_append (ls ls' : List String) :
    (unlines (ls ++ ls')).toUTF8 = (unlines ls).toUTF8 ++ (unlines ls').toUTF8 := by
  rw [unlines_append]
  exact String.toByteArray_append

theorem unlines_singleton (line : String) : unlines [line] = line ++ "\n" := by
  rw [unlines, List.flatMap_singleton, String.ofList_append, String.ofList_toList]

/-- Each line takes at least one byte. -/
theorem length_le_size_unlines (ls : List String) : ls.length ≤ (unlines ls).toUTF8.size := by
  induction ls with
  | nil => exact Nat.zero_le _
  | cons line ls ih =>
    have hline : 1 ≤ (unlines [line]).toUTF8.size := by
      rw [unlines_singleton, String.toUTF8_eq_toByteArray, String.toByteArray_append,
        ByteArray.size_append]
      exact Nat.le_add_left _ _
    rw [← List.singleton_append, toUTF8_unlines_append, ByteArray.size_append, List.length_append,
      List.length_singleton]
    omega

/-- The lines of a text of lines, behind the last of which nothing follows. -/
theorem lines_unlines {ls : List String} (h : ∀ line ∈ ls, '\n' ∉ line.toList) :
    lines (unlines ls).toList = ls.map String.toList ++ [[]] := by
  rw [unlines, String.toList_ofList, lines]
  induction ls with
  | nil => rfl
  | cons line ls ih =>
    rw [List.flatMap_cons, List.append_assoc, List.singleton_append,
      splitOn_cons (h line List.mem_cons_self), ih fun l hl => h l (List.mem_cons_of_mem _ hl)]
    rfl

end Text

namespace LogFile

variable {out out' : LogFile} {f f' : Files} {data data' : ByteArray} {e : OsError}
variable {r : Option OsError × LogFile × Files}

/-- What a log file has been given: what is written, and what is still buffered. -/
def Holds (out : LogFile) (f : Files) (data : ByteArray) : Prop :=
  ∃ content, f.Receives out.handle content ∧ content ++ out.pending = data

/-- When nothing is buffered, all is written. -/
theorem Holds.written (h : out.Holds f data) (hempty : out.pending = .empty) :
    f.Receives out.handle data := by
  obtain ⟨content, hr, hdata⟩ := h
  rw [hempty, ByteArray.append_empty] at hdata
  exact hdata ▸ hr

/-- A log file goes on with more data: it holds them, or it fails because there is no space for all
of them. No other file changes. -/
structure GoesOn (out : LogFile) (f : Files) (data : ByteArray)
    (r : Option OsError × LogFile × Files) : Prop where
  path : r.2.1.path = out.path
  location : r.2.1.handle.location = out.handle.location
  rewritten : Files.Rewritten (· = out.handle.location) f r.2.2
  outcome : r.1 = none ∧ r.2.1.Holds r.2.2 data ∨
    r.1 = some .noSpace ∧ f.fits out.handle.location data.size = false

theorem GoesOn.trans (h : out.GoesOn f data (none, out', f')) (h' : out'.GoesOn f' data' r) :
    out.GoesOn f data' r where
  path := h'.path.trans h.path
  location := h'.location.trans h.location
  rewritten := h.rewritten.trans (h.location ▸ h'.rewritten)
  outcome := by
    have hlocation : out'.handle.location = out.handle.location := h.location
    rcases h'.outcome with hholds | ⟨herror, hlong⟩
    · exact .inl hholds
    · rw [h.rewritten.fits, hlocation] at hlong
      exact .inr ⟨herror, hlong⟩

theorem GoesOn.holds (h : out.GoesOn f data (none, out', f')) : out'.Holds f' data := by
  rcases h.outcome with ⟨-, hholds⟩ | ⟨herror, -⟩
  · exact hholds
  · cases herror

/-- What fails with some data fails with more. -/
theorem GoesOn.more (h : out.GoesOn f data (some e, out', f')) (rest : ByteArray) :
    out.GoesOn f (data ++ rest) (some e, out', f') where
  path := h.path
  location := h.location
  rewritten := h.rewritten
  outcome := by
    rcases h.outcome with ⟨hnone, -⟩ | ⟨herror, hlong⟩
    · cases hnone
    · refine .inr ⟨herror, Files.fits_eq_false_mono ?_ hlong⟩
      rw [ByteArray.size_append]
      exact Nat.le_add_right _ _

theorem pending_flush {content taken : ByteArray} (hr : f.Receives out.handle content)
    (hw : (f.write out.handle out.pending).2.2.Receives (f.write out.handle out.pending).2.1
      (content ++ taken)) :
    (out.flush f).2.1.pending = out.pending.extract taken.size out.pending.size := by
  have hoffset := hw.offset
  rw [ByteArray.size_append, ← hr.offset] at hoffset
  show out.pending.extract ((f.write out.handle out.pending).2.1.offset - out.handle.offset) _ = _
  rw [hoffset, Nat.add_sub_cancel_left]

/-- Nothing is lost when the buffer is written out. It is empty then, or there is no space for all
that has been given. -/
theorem Holds.flush (h : out.Holds f data) :
    (out.flush f).2.1.Holds (out.flush f).2.2 data ∧
      ((out.flush f).1 = none ∧ (out.flush f).2.1.pending = .empty ∨
        (out.flush f).1 = some .noSpace ∧ f.fits out.handle.location data.size = false) := by
  obtain ⟨content, hr, hdata⟩ := h
  cases hr.takes out.pending with
  | whole ok receives fits =>
    have hpending : (out.flush f).2.1.pending = .empty := by
      rw [pending_flush hr receives, ByteArray.extract_same]
    refine ⟨⟨_, receives, ?_⟩, .inl ⟨ok, hpending⟩⟩
    rw [hpending, ByteArray.append_empty, hdata]
  | part taken left split error receives long =>
    have hpending : (out.flush f).2.1.pending = left := by
      rw [pending_flush hr receives, split]
      exact ByteArray.extract_append_eq_right rfl ByteArray.size_append
    refine ⟨⟨_, receives, ?_⟩, .inr ⟨error, hdata ▸ long⟩⟩
    rw [hpending, ByteArray.append_assoc, ← split, hdata]

theorem Holds.goesOn_flush (h : out.Holds f data) : out.GoesOn f data (out.flush f) where
  path := rfl
  location := rfl
  rewritten := Files.rewritten_write f out.handle out.pending
  outcome := h.flush.2.imp (fun hok => ⟨hok.1, h.flush.1⟩) id

/-- Bytes go into the buffer, or through an empty one. -/
theorem Holds.add (h : out.Holds f data) (extra : ByteArray)
    (hpending : logBufferSize ≤ extra.size → out.pending = .empty) :
    out.GoesOn f (data ++ extra) (out.add extra f) := by
  obtain ⟨content, hr, hdata⟩ := h
  rw [LogFile.add]
  split
  next hlong =>
    obtain rfl : content = data := by rw [← hdata, hpending hlong, ByteArray.append_empty]
    refine ⟨rfl, rfl, Files.rewritten_write f out.handle extra, ?_⟩
    cases hr.takes extra with
    | whole ok receives fits =>
      exact .inl ⟨ok, _, receives, by rw [hpending hlong, ByteArray.append_empty]⟩
    | part taken left split error receives long => exact .inr ⟨error, long⟩
  next =>
    refine ⟨rfl, rfl, .refl f, .inl ⟨rfl, content, hr, ?_⟩⟩
    rw [← hdata, ByteArray.append_assoc]

theorem Holds.push (h : out.Holds f data) (extra : ByteArray) :
    out.GoesOn f (data ++ extra) (out.push extra f) := by
  rw [LogFile.push]
  split
  · have hflush := h.goesOn_flush
    obtain ⟨-, hempty⟩ := h.flush
    generalize out.flush f = w at hflush hempty
    obtain ⟨_ | e, out₁, f₁⟩ := w
    · refine hflush.trans (hflush.holds.add extra fun _ => ?_)
      rcases hempty with ⟨-, hempty⟩ | ⟨herror, -⟩
      · exact hempty
      · cases herror
    · exact hflush.more extra
  next hfits =>
    refine h.add extra fun hlong => ByteArray.size_eq_zero_iff.mp ?_
    omega

end LogFile

namespace PipeLog

variable {out : LogFile} {f : Files} {ls : List String}

/-- Gives lines to a log one after another, up to the first that fails. -/
def feed (log : PipeLog) (f : Files) : List String → Option Failure × PipeLog × Files
  | [] => (none, log, f)
  | line :: rest =>
    match log.pushLine line f with
    | (some e, log, f) => (some e, log, f)
    | (none, log, f) => log.feed f rest

/-- A line is given to a log file in two pieces. -/
theorem pushLine_goesOn (h : out.Holds f (Text.unlines ls).toUTF8) (line : String) :
    ∃ r, out.GoesOn f (Text.unlines (ls ++ [line])).toUTF8 r ∧
      pushLine (.file out) line f = (r.1.map (.io out.path), .file r.2.1, r.2.2) := by
  have htext : (Text.unlines (ls ++ [line])).toUTF8 =
      (Text.unlines ls).toUTF8 ++ line.toUTF8 ++ "\n".toUTF8 := by
    rw [Text.toUTF8_unlines_append, Text.unlines_singleton, ByteArray.append_assoc]
    exact congrArg _ String.toByteArray_append
  have hfirst := h.push line.toUTF8
  rw [htext, pushLine]
  generalize out.push line.toUTF8 f = w at hfirst
  obtain ⟨_ | e, out₁, f₁⟩ := w
  · have hsecond := hfirst.trans (hfirst.holds.push "\n".toUTF8)
    refine ⟨_, hsecond, ?_⟩
    simp only
    generalize out₁.push "\n".toUTF8 f₁ = w at hsecond
    obtain ⟨_ | e, out₂, f₂⟩ := w
    · rfl
    · exact congrArg (fun path => (some (Failure.io path e), file out₂, f₂)) hsecond.path
  · refine ⟨_, hfirst.more _, ?_⟩
    exact congrArg (fun path => (some (Failure.io path e), file out₁, f₁)) hfirst.path

theorem flush_file (out : LogFile) (f : Files) :
    (PipeLog.file out).flush f =
      ((out.flush f).1.map (.io out.path), .file (out.flush f).2.1, (out.flush f).2.2) := by
  have hpath : (out.flush f).2.1.path = out.path := rfl
  rw [flush, ← hpath]
  rcases out.flush f with ⟨_ | e, out', f'⟩ <;> rfl

/-- A log file that is given up changes no other file. -/
theorem rewritten_close (out : LogFile) (f : Files) :
    Files.Rewritten (· = out.handle.location) f ((PipeLog.file out).close f) := by
  rw [close, flush_file]
  exact Files.rewritten_write f out.handle out.pending

/-- A log file goes on with lines, up to the first for which there is no space. -/
theorem feed_goesOn (h : out.Holds f (Text.unlines ls).toUTF8) (lines : List String) :
    ∃ r, out.GoesOn f (Text.unlines (ls ++ lines)).toUTF8 r ∧
      (PipeLog.file out).feed f lines = (r.1.map (.io out.path), .file r.2.1, r.2.2) := by
  induction lines generalizing out f ls with
  | nil =>
    rw [List.append_nil]
    exact ⟨(none, out, f), ⟨rfl, rfl, .refl f, .inl ⟨rfl, h⟩⟩, rfl⟩
  | cons line rest ih =>
    obtain ⟨⟨_ | e, out₁, f₁⟩, hline, hpush⟩ := pushLine_goesOn h line
    · obtain ⟨r, hrest, hfeed⟩ := ih hline.holds
      rw [List.append_assoc] at hrest
      have hpath : out₁.path = out.path := hline.path
      refine ⟨r, hline.trans hrest, ?_⟩
      rw [feed, hpush, ← hpath]
      exact hfeed
    · have hmore := hline.more (Text.unlines rest).toUTF8
      rw [← Text.toUTF8_unlines_append, List.append_assoc] at hmore
      refine ⟨_, hmore, ?_⟩
      rw [feed, hpush]
      rfl

theorem feed_buffer (text : String) (f : Files) (lines : List String) :
    (PipeLog.buffer text).feed f lines = (none, .buffer (text ++ Text.unlines lines), f) := by
  induction lines generalizing text with
  | nil => rw [feed, Text.unlines, List.flatMap_nil, String.ofList_nil, String.append_empty]
  | cons line rest ih =>
    have hfirst : (PipeLog.buffer text).feed f (line :: rest) =
        (PipeLog.buffer (text ++ line ++ "\n")).feed f rest := rfl
    rw [hfirst, ih, ← List.singleton_append, Text.unlines_append, Text.unlines_singleton]
    simp only [String.append_assoc]

end PipeLog

namespace Core

/-- The lines of the pipeline diagram for the next `n` cycles. -/
def diagram (n : Nat) (c : Core) : List String :=
  (List.range n).map fun i => (runTicks (i + 1) c).snapshot.line

theorem diagram_zero (c : Core) : c.diagram 0 = [] := rfl

theorem diagram_succ (n : Nat) (c : Core) :
    c.diagram (n + 1) = c.tick.snapshot.line :: c.tick.diagram n := by
  rw [diagram, List.range_succ_eq_map, List.map_cons, List.map_map, runTicks_succ]
  refine congrArg _ (List.map_congr_left fun i _ => ?_)
  rw [Function.comp_apply, runTicks_succ (i + 1)]

theorem length_diagram (n : Nat) (c : Core) : (c.diagram n).length = n := by
  rw [diagram, List.length_map, List.length_range]

theorem notMem_diagram {n : Nat} {c : Core} {line : String} (h : line ∈ c.diagram n) :
    '\n' ∉ line.toList := by
  obtain ⟨i, -, rfl⟩ := List.mem_map.mp h
  exact Snapshot.notMem_line _

/-- A core after `n` cycles, none of which comes behind the end of the run. -/
structure Elapsed (c : Core) (n : Nat) (c' : Core) : Prop where
  reached : c' = runTicks n c
  running : ∀ k < n, (runTicks k c).pipeline.status.isTerminal = false
  counted : c'.machine.counters.cycles = c.machine.counters.cycles + n

theorem Elapsed.refl (c : Core) : Elapsed c 0 c :=
  ⟨rfl, fun k hk => absurd hk (Nat.not_lt_zero k), rfl⟩

theorem Elapsed.trans {c c' c'' : Core} {m n : Nat} (h : Elapsed c m c') (h' : Elapsed c' n c'') :
    Elapsed c (m + n) c'' where
  reached := by rw [runTicks_add, ← h.reached, ← h'.reached]
  running k hk := by
    by_cases hm : k < m
    · exact h.running k hm
    · obtain ⟨j, rfl⟩ := Nat.exists_eq_add_of_le (Nat.le_of_not_lt hm)
      rw [runTicks_add, ← h.reached]
      exact h'.running j (by omega)
  counted := by rw [h'.counted, h.counted, Nat.add_assoc]

theorem Elapsed.tick {c : Core} (h : c.pipeline.status.isTerminal = false) :
    Elapsed c 1 c.tick where
  reached := (runTicks_one_more 0 c).symm
  running k hk := by
    obtain rfl : k = 0 := by omega
    exact h
  counted := cycles_tick h

theorem Elapsed.unique {c c' : Core} {m n : Nat} (h : Elapsed c m c') (h' : Elapsed c n c') :
    m = n := by
  have hcounted := h.counted
  rw [h'.counted] at hcounted
  omega

/-- The cycles of a run up to one of them. -/
theorem Elapsed.upTo {c c' : Core} {n k : Nat} (h : Elapsed c n c') (hk : k ≤ n) :
    Elapsed c k (runTicks k c) := by
  induction k with
  | zero => exact .refl c
  | succ k ih =>
    rw [runTicks_one_more]
    exact (ih (Nat.le_of_succ_le hk)).trans (.tick (h.running k hk))

/-- A line of the diagram of a run from its first cycle on. -/
theorem Elapsed.line {c c' : Core} {n k : Nat} {line : String} (h : Elapsed c n c')
    (hc : c.machine.counters.cycles = 0) (hline : (c.diagram n)[k]? = some line) :
    (runTicks k c).pipeline.status.isTerminal = false ∧
      line = Snapshot.line ⟨k, (runTicks (k + 1) c).pipeline.slots⟩ := by
  rw [diagram, List.getElem?_map, Option.map_eq_some_iff] at hline
  obtain ⟨k', hk, rfl⟩ := hline
  obtain ⟨hlt, hk⟩ := List.getElem?_eq_some_iff.mp hk
  rw [List.length_range] at hlt
  rw [List.getElem_range] at hk
  subst hk
  have hcounted := (h.upTo hlt).counted
  refine ⟨h.running k hlt, ?_⟩
  rw [snapshot, hcounted, hc, Nat.zero_add]
  rfl

theorem exists_elapsed (n : Nat) (c : Core) : ∃ k, Elapsed c k (runTicks n c) := by
  induction n generalizing c with
  | zero => exact ⟨0, .refl c⟩
  | succ n ih =>
    cases ht : c.pipeline.status.isTerminal with
    | true =>
      rw [runTicks_of_terminal ht]
      exact ⟨0, .refl c⟩
    | false =>
      obtain ⟨k, hk⟩ := ih c.tick
      rw [runTicks_succ]
      exact ⟨1 + k, (Elapsed.tick ht).trans hk⟩

theorem diagram_add (m n : Nat) (c : Core) :
    c.diagram (m + n) = c.diagram m ++ (runTicks m c).diagram n := by
  rw [diagram, List.range_add, List.map_append, List.map_map]
  refine congrArg _ (List.map_congr_left fun k _ => ?_)
  rw [Function.comp_apply, Nat.add_assoc, runTicks_add]

/-- The cycles that a call for a budget takes. -/
def taken (c : Core) (budget : Nat) : Nat :=
  (c.runCycles budget).machine.counters.cycles - c.machine.counters.cycles

theorem elapsed_runCycles (c : Core) (budget : Nat) :
    c.Elapsed (c.taken budget) (c.runCycles budget) := by
  obtain ⟨k, hk⟩ := c.exists_elapsed (budgetLimit budget)
  have htaken : c.taken budget = k := by
    rw [taken, runCycles, hk.counted]
    omega
  rw [htaken]
  exact hk

/-- A call of a run that has not ended takes cycles. -/
theorem taken_pos {c : Core} (h : c.pipeline.status.isTerminal = false) (budget : Nat) :
    0 < c.taken budget := by
  obtain ⟨n, hn⟩ := Nat.exists_eq_succ_of_ne_zero (Nat.ne_of_gt (budgetLimit_pos budget))
  have hcore : c.runCycles budget = runTicks n c.tick := by rw [runCycles, hn, runTicks_succ]
  obtain ⟨k, hk⟩ := c.tick.exists_elapsed n
  rw [(c.elapsed_runCycles budget).unique (hcore ▸ (Elapsed.tick h).trans hk)]
  omega

end Core

namespace Simulator

variable {s : Simulator} {f g : Files} {l : Location} {ls : List String} {path : String}

theorem logTick_of_log {log : PipeLog} (h : s.log = some log) :
    s.logTick f =
      match log.pushLine s.core.tick.snapshot.line f with
      | (none, log, f) => ({ s with core := s.core.tick, log := some log }, f)
      | (some e, log, f) =>
        ({ s with core := s.core.tick, log := none, logFailure := some e }, log.close f) := by
  obtain ⟨core, mode, status, dumpStart, dumpEnd, log, logFailure⟩ := s
  cases h
  rfl

/-- A simulator but for its log. -/
def bare (s : Simulator) : Simulator := { s with log := none, logFailure := none }

/-- Gives lines to the log of a simulator, if it has one. A failure ends the log and is kept. -/
def takeLines (s : Simulator) (f : Files) (lines : List String) : Simulator × Files :=
  match s.log with
  | none => (s, f)
  | some log =>
    match log.feed f lines with
    | (none, log, f) => ({ s with log := some log }, f)
    | (some e, log, f) => ({ s with log := none, logFailure := some e }, log.close f)

/-- The simulator after a call for a budget of cycles, but for its log. -/
def advanced (s : Simulator) (budget : Nat) : Simulator :=
  { s with core := s.core.runCycles budget, status := (s.core.runCycles budget).pipeline.status }

theorem takeLines_nil (s : Simulator) (f : Files) : s.takeLines f [] = (s, f) := by
  obtain ⟨core, mode, status, dumpStart, dumpEnd, log, logFailure⟩ := s
  cases log <;> rfl

theorem takeLines_of_log {log : PipeLog} (h : s.log = some log) (lines : List String) :
    s.takeLines f lines =
      match log.feed f lines with
      | (none, log, f) => ({ s with log := some log }, f)
      | (some e, log, f) => ({ s with log := none, logFailure := some e }, log.close f) := by
  rw [takeLines, h]

theorem bare_takeLines (s : Simulator) (f : Files) (lines : List String) :
    (s.takeLines f lines).1.bare = s.bare := by
  unfold takeLines
  split
  · rfl
  · split <;> rfl

/-- A run with a log is a run without one, and the lines of its cycles for the log. -/
theorem tickLogged_eq {n k : Nat} (hk : s.core.Elapsed k (Core.runTicks n s.core)) :
    tickLogged n s f =
      { s with core := Core.runTicks n s.core }.takeLines f (s.core.diagram k) := by
  induction n generalizing s f k with
  | zero =>
    obtain rfl := hk.unique (.refl _)
    exact (takeLines_nil s f).symm
  | succ n ih =>
    cases ht : s.core.pipeline.status.isTerminal with
    | true =>
      rw [Core.runTicks_of_terminal ht] at hk ⊢
      obtain rfl := hk.unique (.refl _)
      rw [tickLogged_of_terminal s f ht]
      exact (takeLines_nil s f).symm
    | false =>
      have hcore : (s.logTick f).1.core = s.core.tick := (logCycle_frame _ f).1
      obtain ⟨m, hm⟩ := s.core.tick.exists_elapsed n
      rw [Core.runTicks_succ] at hk ⊢
      obtain rfl : k = m + 1 := hk.unique (Nat.add_comm m 1 ▸ (Core.Elapsed.tick ht).trans hm)
      rw [tickLogged_succ, if_neg (by simp [ht]), ih (hcore.symm ▸ hm), hcore, Core.diagram_succ]
      obtain ⟨core, mode, status, dumpStart, dumpEnd, log, logFailure⟩ := s
      cases log with
      | none => rfl
      | some log =>
        rw [logTick_of_log rfl]
        simp only [takeLines, PipeLog.feed]
        rcases log.pushLine core.tick.snapshot.line f with ⟨_ | e, log', f'⟩ <;> rfl

/-- The status of the last call is that of the pipeline, as it is before the first one. -/
def Current (s : Simulator) : Prop := s.status = s.core.pipeline.status

theorem Current.takeLines (h : s.Current) (lines : List String) :
    (s.takeLines f lines).1.Current := by
  unfold Simulator.takeLines
  split
  · exact h
  · split <;> exact h

/-- A call is one without a log, and the lines it draws for the log. -/
theorem runCycles_eq (h : s.Current) (budget : Nat) (f : Files) :
    s.runCycles budget f =
      (s.advanced budget).takeLines f (s.core.diagram (s.core.taken budget)) := by
  have helapsed := s.core.elapsed_runCycles budget
  rw [Simulator.runCycles]
  cases ht : s.status.isTerminal with
  | true =>
    have htp : s.core.pipeline.status.isTerminal = true := h ▸ ht
    have hcore : s.core.runCycles budget = s.core := Core.runTicks_of_terminal htp _
    have hsame : s.advanced budget = s := by rw [advanced, hcore, ← h]
    rw [hcore] at helapsed
    rw [if_pos rfl, hsame, helapsed.unique (.refl _), Core.diagram_zero, takeLines_nil]
  | false =>
    rw [if_neg (by simp), tickLogged_eq helapsed]
    obtain ⟨core, mode, status, dumpStart, dumpEnd, log, logFailure⟩ := s
    cases log with
    | none => rfl
    | some log =>
      simp only [takeLines, advanced, Core.runCycles]
      rcases log.feed f (core.diagram (core.taken budget)) with ⟨_ | e, log', f'⟩ <;> rfl

theorem Current.advanced (s : Simulator) (budget : Nat) : (s.advanced budget).Current := rfl

theorem Current.runCycles (h : s.Current) (budget : Nat) : (s.runCycles budget f).1.Current := by
  rw [runCycles_eq h]
  exact (Current.advanced s budget).takeLines _

/-- The log and the files have no part in what a call computes. -/
theorem bare_runCycles (h : s.Current) (budget : Nat) :
    (s.runCycles budget f).1.bare = (s.advanced budget).bare := by
  rw [runCycles_eq h, bare_takeLines]

/-- A simulator that streams its log to the file at a place and has drawn some lines: it has given
them to the file, or the log has failed because there is no space for them. -/
inductive Streams (path : String) (l : Location) (s : Simulator) (f : Files)
    (ls : List String) : Prop
  | going (out : LogFile) (log : s.log = some (.file out)) (path : out.path = path)
      (location : out.handle.location = l) (holds : out.Holds f (Text.unlines ls).toUTF8)
      (sound : s.logFailure = none)
  | failed (log : s.log = none) (failure : s.logFailure = some (.io path .noSpace))
      (long : f.fits l (Text.unlines ls).toUTF8.size = false)

/-- The lines that are drawn next go to the same file. -/
theorem Streams.takeLines (h : s.Streams path l f ls) (lines : List String) :
    (s.takeLines f lines).1.Streams path l (s.takeLines f lines).2 (ls ++ lines) ∧
      Files.Rewritten (· = l) f (s.takeLines f lines).2 := by
  cases h with
  | failed log failure long =>
    rw [Simulator.takeLines, log]
    refine ⟨.failed log failure (Files.fits_eq_false_mono ?_ long), .refl f⟩
    rw [Text.toUTF8_unlines_append, ByteArray.size_append]
    exact Nat.le_add_right _ _
  | going out log hpath hlocation holds sound =>
    subst hpath hlocation
    obtain ⟨⟨_ | e, out', f'⟩, hon, hfeed⟩ := PipeLog.feed_goesOn holds lines
    · rw [takeLines_of_log log, hfeed]
      exact ⟨.going out' rfl hon.path hon.location hon.holds sound, hon.rewritten⟩
    · rcases hon.outcome with ⟨hnone, -⟩ | ⟨herror, hlong⟩
      · cases hnone
      · cases herror
        have hlocation : out'.handle.location = out.handle.location := hon.location
        have hclosed := hon.rewritten.trans (hlocation ▸ PipeLog.rewritten_close out' f')
        rw [takeLines_of_log log, hfeed]
        exact ⟨.failed rfl rfl ((hclosed.fits _ _).trans hlong), hclosed⟩

/-- Changes to other files do not disturb it. -/
theorem Streams.changed (h : s.Streams path l f ls) (hg : Files.Rewritten (· ≠ l) f g) :
    s.Streams path l g ls := by
  cases h with
  | failed log failure long => exact .failed log failure ((hg.fits _ _).trans long)
  | going out log hpath hlocation holds sound =>
    obtain ⟨content, hr, hdata⟩ := holds
    refine .going out log hpath hlocation ⟨content, ⟨?_, hr.offset, ?_⟩, hdata⟩ sound
    · rw [hg.kept _ (fun hne => hne hlocation)]
      exact hr.found
    · rw [hg.fits]
      exact hr.fits

/-- When its log is ended, the file holds all lines, or it is reported that there is no space for
them. -/
theorem Streams.finishLog (h : s.Streams path l f ls) :
    (s.finishLog f).1 =
        (if f.fits l (Text.unlines ls).toUTF8.size then none else some (.io path .noSpace)) ∧
      (s.finishLog f).2.1.bare = s.bare ∧ (s.finishLog f).2.1.logText? = none ∧
      Files.Rewritten (· = l) f (s.finishLog f).2.2 ∧
      (f.isFull l = false → f.fits l (Text.unlines ls).toUTF8.size = true →
        (s.finishLog f).2.2.lookup l = some (.file (Text.unlines ls).toUTF8)) := by
  cases h with
  | failed log failure long =>
    rw [Simulator.finishLog, failure]
    refine ⟨(if_neg (Bool.eq_false_iff.mp long)).symm, rfl, ?_, .refl f, fun _ hfits => ?_⟩
    · rw [logText?, log]
    · exact absurd hfits (Bool.eq_false_iff.mp long)
  | going out log hpath hlocation holds sound =>
    subst hpath hlocation
    have hon := holds.goesOn_flush
    obtain ⟨hholds, hflush⟩ := holds.flush
    rw [Simulator.finishLog, sound, log]
    simp only [PipeLog.flush_file]
    rcases hflush with ⟨hnone, hempty⟩ | ⟨herror, hlong⟩
    · have hwritten := hholds.written hempty
      have hfits := (hon.rewritten.fits _ _).symm.trans hwritten.fits
      refine ⟨?_, rfl, rfl, hon.rewritten, fun hfull _ => ?_⟩
      · rw [hnone]
        exact (if_pos hfits).symm
      · exact hwritten.lookup ((hon.rewritten.full _).trans hfull)
    · refine ⟨?_, rfl, rfl, hon.rewritten,
        fun _ hfits => absurd hfits (Bool.eq_false_iff.mp hlong)⟩
      rw [herror]
      exact (if_neg (Bool.eq_false_iff.mp hlong)).symm

/-- A stream that has been opened goes to the place its path leads to. -/
theorem streamLog_eq_ok (hlog : s.log = none) {r : Simulator × Files}
    (h : s.streamLog path f = .ok r) :
    ∃ l, f.OpensAt path l ∧
      r = ({ s with log := some (.file { path, handle := ⟨l, 0⟩ }) },
        if f.isFull l then f else f.put l .empty) := by
  cases hcreate : f.create path with
  | error e =>
    rw [streamLog, hcreate] at h
    cases h
  | ok created =>
    obtain ⟨l, hl⟩ := Files.create_eq_ok_iff.mp ⟨_, hcreate⟩
    obtain rfl := Except.ok.inj (hcreate.symm.trans (Files.create_of_opensAt hl))
    rw [streamLog, hcreate, hlog] at h
    exact ⟨l, hl, (Except.ok.inj h).symm⟩

/-- A stream that has been opened has been given no lines. -/
theorem Streams.init (hl : f.OpensAt path l)
    (log : s.log = some (.file { path, handle := ⟨l, 0⟩ })) (sound : s.logFailure = none) :
    s.Streams path l (if f.isFull l then f else f.put l .empty) [] :=
  .going _ log rfl rfl ⟨.empty, (Files.receives_created hl).1, rfl⟩ sound

end Simulator

end FiveStage
