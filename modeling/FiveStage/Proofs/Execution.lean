import FiveStage.Proofs.Refinement
import FiveStage.Proofs.Units

/-! # Execution of single instructions

One step of the functional machine does what the instruction set says about the mnemonic of the word
at the program counter (`step_executes`). A step that completes changes registers, memory and
program counter by what the units compute, and what they compute is known class by class. -/

namespace FiveStage

open Instruction

theorem Instruction.legal_of_completed {i : Instruction} (h : i.stepEnd = .completed) :
    i.flags.legal = true ∧ i.memFault = false := by
  unfold stepEnd at h
  split at h
  next => cases h
  next hgood => simpa using hgood

namespace Machine

variable {m : Machine} {w : InstWord}

theorem step_eq_accessed (hw : m.fetchWord m.pc = w) :
    m.step.1 = (prepared m.regs m.pc w m.nextId).accessed m.memory := by
  rw [step_fst, ← hw]
  rfl

/-- A word that is an instruction other than the halt word completes when its access fits. -/
theorem completed_of_fits (hw : m.fetchWord m.pc = w) (hl : w.flags.legal = true)
    (hh : w.flags.halt = false) (hfit : (prepared m.regs m.pc w m.nextId).Fits m.memory) :
    m.step.1.stepEnd = .completed := by
  rw [step_eq_accessed hw]
  refine Sequential.stepEnd_completed (by simpa using hl) ?_ (by simpa using hh)
  rw [accessed_eq]
  simp [hfit]

section Completed

variable (hw : m.fetchWord m.pc = w) (hend : m.step.1.stepEnd = .completed)

include hw hend

theorem pc_step : m.step.2.pc = (m.issue w).successor := by
  rw [(step_snd_of_completed hend).1]
  show m.step.1.nextPc = _
  rw [step_eq_accessed hw, accessed_nextPc, prepared_nextPc]
  rfl

theorem fits_step : (prepared m.regs m.pc w m.nextId).Fits m.memory := by
  have hfit := (step_snd_of_completed hend).2
  rw [step_eq_accessed hw, accessed_eq] at hfit
  exact hfit

/-- A store writes the low bytes of its second operand, no other instruction changes the memory. -/
theorem memory_step :
    m.step.2.memory =
      if !w.flags.readsMem && w.flags.writesMem then
        m.memory.write (prepared m.regs m.pc w m.nextId).memAddress
          (toLittleEndian (Width.ofFunct3 w.funct3).bytes (m.issue w).op2.toNat)
      else m.memory := by
  rw [(step_snd_of_completed hend).1]
  show m.step.1.stored m.memory = _
  rw [step_eq_accessed hw, accessed_eq, prepared, withAddress_eq]
  rfl

/-- The destination receives what a load has read, or else the arithmetic result. -/
theorem result_step :
    m.step.1.result =
      if w.flags.readsMem then
        extendLoaded w.funct3
          (m.memory.value (prepared m.regs m.pc w m.nextId).memAddress
            (Width.ofFunct3 w.funct3).bytes)
      else if w.flags.arithLogic then (m.issue w).compute else 0 := by
  have hfit := fits_step hw hend
  rw [step_eq_accessed hw]
  unfold result
  rw [accessed_flags, prepared_flags]
  cases hr : w.flags.readsMem with
  | true =>
    rw [if_pos rfl, if_pos rfl, accessed_eq]
    simp only [prepared_flags, hr, hfit, Bool.true_or, true_and, if_true, loaded]
    rw [prepared, withAddress_eq]
    rfl
  | false =>
    rw [accessed_eq, prepared, withAddress_eq]
    rfl

theorem dest_step :
    m.step.1.dest = if w.flags.writesRd = true ∧ w.rd ≠ 0 then some w.rd else none := by
  obtain ⟨hl, hf⟩ := legal_of_completed hend
  have hlive : m.step.1.isLive = true := by simp [step_eq_accessed hw, isLive]
  have hflags : m.step.1.flags = w.flags := by simp [step_eq_accessed hw]
  have hrd : m.step.1.rd = w.rd := by simp [step_eq_accessed hw]
  unfold dest
  rw [hlive, hl, hf, hflags, hrd]
  simp

theorem register_step (r : Nat) :
    m.step.2.regs.read r =
      if w.flags.writesRd = true ∧ r = w.rd ∧ r ≠ 0 then m.step.1.result else m.regs.read r := by
  have hrd : m.step.1.rd = w.rd := by simp [step_eq_accessed hw]
  rw [(step_snd_of_completed hend).1]
  show (m.step.1.commit m.regs).read r = _
  rw [read_commit (writesRegister_of_rd (hrd ▸ rd_lt w)), dest_step hw hend]
  by_cases hwrites : w.flags.writesRd = true ∧ w.rd ≠ 0
  · by_cases hr : w.rd = r
    · subst hr; simp [hwrites]
    · simp [hr, Ne.symm hr]
  · have hnone : ¬ (w.flags.writesRd = true ∧ r = w.rd ∧ r ≠ 0) := by
      rintro ⟨h1, rfl, h3⟩
      exact hwrites ⟨h1, h3⟩
    rw [if_neg hwrites, if_neg hnone, if_neg nofun]

end Completed

/-- A load or store reaches memory with the address that its operands give. -/
theorem memAddress_prepared (h : w.flags.readsMem = true ∨ w.flags.writesMem = true) :
    (prepared m.regs m.pc w m.nextId).memAddress = (m.issue w).effectiveAddress := by
  rw [prepared, withAddress_eq]
  exact if_pos ((Bool.or_eq_true _ _).mpr h)

theorem width_prepared :
    (prepared m.regs m.pc w m.nextId).width = Width.ofFunct3 w.funct3 := by
  rw [prepared, withAddress_eq]
  rfl

end Machine

section Classes

variable {m : Machine} {w : InstWord} {o : Opcode} {k : Mnemonic}

theorem Opcode.eq_load {o : Opcode} (h : o.flags.readsMem = true) : o = .load := by
  cases o <;> first | rfl | cases h

theorem Opcode.eq_store {o : Opcode} (h : o.flags.writesMem = true) : o = .store := by
  cases o <;> first | rfl | cases h

theorem Opcode.arithLogic_of_writesRd {o : Opcode} (h : o.flags.writesRd = true)
    (hr : o.flags.readsMem = false) : o.flags.arithLogic = true := by
  cases o <;> first | rfl | exact Bool.noConfusion h | exact Bool.noConfusion hr

theorem Encoding.result_none {f3 f7 : Nat} (he : Encoding k o f3 f7)
    (h : o.flags.writesRd = false) : k.result? w m = none := by
  cases he <;> first | rfl | cases h

namespace InstWord.OfClass

theorem memAddress_load (hc : w.OfClass o) (h : o.flags.readsMem = true) :
    (prepared m.regs m.pc w m.nextId).memAddress = Mnemonic.loadAddress w m := by
  rw [Machine.memAddress_prepared (.inl (hc.flags ▸ h))]
  cases Opcode.eq_load h
  exact hc.address_load

theorem memAddress_store (hc : w.OfClass o) (h : o.flags.writesMem = true) :
    (prepared m.regs m.pc w m.nextId).memAddress = Mnemonic.storeAddress w m := by
  rw [Machine.memAddress_prepared (.inr (hc.flags ▸ h))]
  cases Opcode.eq_store h
  exact hc.address_store

theorem fits (hc : w.OfClass o) (he : Encoding k o w.funct3 w.funct7) (hr : k.InRange w m) :
    (prepared m.regs m.pc w m.nextId).Fits m.memory := by
  intro hacc
  rw [prepared_flags, hc.flags] at hacc
  rw [Machine.width_prepared]
  rcases hacc with h | h
  · rw [hc.memAddress_load h]
    exact hr.load _ (by rw [he.loadBytes_eq, if_pos h])
  · rw [hc.memAddress_store h]
    exact hr.store _ (by rw [he.storeBytes_eq, if_pos h])

variable (hc : w.OfClass o) (he : Encoding k o w.funct3 w.funct7)
  (hw : m.fetchWord m.pc = w) (hend : m.step.1.stepEnd = .completed)

include hc he hw hend

theorem memory_step :
    m.step.2.memory =
      match k.storeBytes? with
      | some n =>
        m.memory.write (Mnemonic.storeAddress w m) (toLittleEndian n (m.regs.read w.rs2).toNat)
      | none => m.memory := by
  rw [Machine.memory_step hw hend, hc.flags, he.storeBytes_eq]
  cases h : o.flags.writesMem with
  | true =>
    cases Opcode.eq_store h
    rw [hc.memAddress_store rfl, hc.op2_issue rfl]
    rfl
  | false => simp

variable (hr : k.InRange w m)

include hr

theorem result_step (h : o.flags.writesRd = true) : k.result? w m = some m.step.1.result := by
  rw [Machine.result_step hw hend, hc.flags]
  cases hread : o.flags.readsMem with
  | true =>
    cases Opcode.eq_load hread
    rw [if_pos rfl, hc.memAddress_load rfl, ← hc.address_load]
    exact hc.result_load he hr
  | false =>
    have harith := Opcode.arithLogic_of_writesRd h hread
    rw [harith]
    exact hc.result_arith harith he

theorem register_step (r : Nat) : m.step.2.regs.read r = k.register w m r := by
  rw [Machine.register_step hw hend, hc.flags]
  unfold Mnemonic.register
  cases h : o.flags.writesRd with
  | true =>
    rw [hc.result_step he hw hend hr h]
    simp
  | false =>
    rw [he.result_none h]
    simp

theorem executes : k.Executes w m m.step.2 where
  pc := by rw [Machine.pc_step hw hend, hc.successor_eq he]
  register := hc.register_step he hw hend hr
  zero := rfl
  base := by
    rw [hc.memory_step he hw hend]
    split <;> rfl
  size := by
    rw [hc.memory_step he hw hend]
    split
    · exact Memory.size_write _ _ _
    · rfl
  cell a := by
    rw [hc.memory_step he hw hend]
    unfold Mnemonic.cell
    cases h : k.storeBytes? with
    | some n => exact m.memory.cell_store (hr.store n h) _ a
    | none => rfl

end InstWord.OfClass

/-- The no-op is an addition to register 0. -/
theorem executes_nop (hw : m.fetchWord m.pc = InstWord.nop) :
    m.step.1.stepEnd = .completed ∧ Mnemonic.addi.Executes InstWord.nop m m.step.2 := by
  have hfit : (prepared m.regs m.pc InstWord.nop m.nextId).Fits m.memory := by
    intro hacc
    rw [prepared_flags] at hacc
    rcases hacc with h | h <;> cases h
  have hend := Machine.completed_of_fits hw rfl rfl hfit
  have hmem : m.step.2.memory = m.memory := Machine.memory_step hw hend
  have hregs (r : Nat) : m.step.2.regs.read r = m.regs.read r := by
    rw [Machine.register_step hw hend, if_neg]
    rintro ⟨hwrites, -⟩
    cases hwrites
  refine ⟨hend, ?_, ?_, rfl, ?_, ?_, ?_⟩
  · rw [Machine.pc_step hw hend, successor_of_not_control (by rfl)]
    exact Word.add_four m.pc
  · intro r
    have hrd : ¬ (r = InstWord.nop.rd ∧ r ≠ 0) := fun ⟨hr, h0⟩ => h0 hr
    exact (hregs r).trans (if_neg hrd).symm
  · rw [hmem]
  · rw [hmem]
  · intro a
    rw [hmem]
    rfl

theorem InstWord.ofClass_of_legal (hl : w.flags.legal = true) (hh : w ≠ InstWord.halt)
    (hn : w ≠ InstWord.nop) : ∃ o, w.OfClass o ∧ o.accepts w.funct3 w.funct7 = true := by
  cases hc : w.class? with
  | none =>
    rw [flags, if_neg hh, if_neg hn, hc] at hl
    cases hl
  | some o =>
    have hcode : Opcode.ofCode? w.opcode = some o ∧ o.accepts w.funct3 w.funct7 = true := by
      unfold class? at hc
      split at hc
      next o' ho' =>
        split at hc
        next ha => cases hc; exact ⟨ho', ha⟩
        next => cases hc
      next => cases hc
    refine ⟨o, ⟨hcode.1, ?_, ?_⟩, hcode.2⟩
    · rw [flags, if_neg hh, if_neg hn, hc]
    · rw [immediate, if_neg (by simp [hh, hn]), hc]

end Classes

/-- Every legal word but the halt word is named after an instruction of the instruction set, and
when its access, if any, is in range, one step completes and does what that instruction does. -/
theorem step_executes (m : Machine) (hl : (m.fetchWord m.pc).flags.legal = true)
    (hh : m.fetchWord m.pc ≠ InstWord.halt) :
    (∃ k : Mnemonic, (m.fetchWord m.pc).mnemonic? = some k.name) ∧
    ∀ k : Mnemonic, (m.fetchWord m.pc).mnemonic? = some k.name → k.InRange (m.fetchWord m.pc) m →
      m.step.1.stepEnd = .completed ∧ k.Executes (m.fetchWord m.pc) m m.step.2 := by
  suffices h : ∃ k : Mnemonic, (m.fetchWord m.pc).mnemonic? = some k.name ∧
      (k.InRange (m.fetchWord m.pc) m →
        m.step.1.stepEnd = .completed ∧ k.Executes (m.fetchWord m.pc) m m.step.2) by
    obtain ⟨k, hk, hstep⟩ := h
    refine ⟨⟨k, hk⟩, fun k' hk' hr => ?_⟩
    obtain rfl := Mnemonic.name_injective (Option.some.inj (hk'.symm.trans hk))
    exact hstep hr
  by_cases hn : m.fetchWord m.pc = InstWord.nop
  · -- its flags are not those of its class
    refine ⟨.addi, by rw [hn]; decide, fun _ => ?_⟩
    have h := executes_nop hn
    rwa [← hn] at h
  · obtain ⟨o, hc, ha⟩ := InstWord.ofClass_of_legal hl hh hn
    obtain ⟨k, he⟩ := (Encoding.accepts_iff (BitVec.isLt _)).mp ha
    refine ⟨k, ?_, fun hr => ?_⟩
    · unfold InstWord.mnemonic?
      rw [hc.code]
      exact he.name_eq
    · have hhalt : (m.fetchWord m.pc).flags.halt = false := by
        rw [hc.flags]
        cases o <;> rfl
      have hend := Machine.completed_of_fits rfl hl hhalt (hc.fits he hr)
      exact ⟨hend, hc.executes he rfl hend hr⟩

/-- A machine about to jump to 3 bytes behind the address in register 5, which receives the link. -/
def Machine.linking : Machine :=
  .ofConfig {} (.ofWords 0 [0x003282E7]) (Registers.zero.write 5 0x100)

/-- The target is taken from the register before the link is written, and is even. -/
theorem step_executes_linking :
    (Machine.linking.fetchWord Machine.linking.pc).flags.legal = true ∧
    Machine.linking.fetchWord Machine.linking.pc ≠ InstWord.halt ∧
    Machine.linking.step.1.stepEnd = .completed ∧
    Machine.linking.step.2.pc = 0x102 ∧ Machine.linking.step.2.regs.read 5 = 4 := by
  have hl : (Machine.linking.fetchWord Machine.linking.pc).flags.legal = true := by decide
  have hh : Machine.linking.fetchWord Machine.linking.pc ≠ InstWord.halt := by decide
  have hname : (Machine.linking.fetchWord Machine.linking.pc).mnemonic? =
      some Mnemonic.jalr.name := by decide
  obtain ⟨hend, hstep⟩ := (step_executes Machine.linking hl hh).2 .jalr hname ⟨nofun, nofun⟩
  exact ⟨hl, hh, hend, hstep.pc.trans (by decide), (hstep.register 5).trans (by decide)⟩

end FiveStage
