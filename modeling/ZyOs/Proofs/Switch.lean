/-
What the pieces of `switch.s` and `kernel.s` do with the stack.

The entries only push (`run_vector`, `run_syscallHandler`): what they leave is the context they
were entered with, as a `struct intr_stack` (`entered_context`), and `intr_exit` makes that
context again (`run_intrExit`).  `switch_to` pushes seven dwords and pops five of another stack
(`switched`).  The C functions that make such stacks by hand assign fields of them.
-/
import ZyOs.Kernel.Switch

namespace ZyOs.Switch

open Library.Ia32

variable {x : Text} {c c' k : Cpu} {n : Fin 0x30} {w w' a b lo sp t u err esp : UInt32}
  {mem mem' : Dwords} {ws : List UInt32}

/-! ### `intr_exit` -/

theorem iretd_outer (h : c.cpl < (c.peek 4).toUInt16 &&& 3) :
    c.iretd = (({ ((c.drop 12).setSeg .cs (c.peek 4).toUInt16) with
      eip := c.peek 0, eflags := c.peek 8 }.setReg .esp (c.peek 12)).setSeg .ss (c.peek 16).toUInt16) := if_pos h

theorem run_intrExit_eq : c.run intrExit = Cpu.iretd
    { reg := fun
        | .eax => intrField c.mem (c.reg .esp) .eax
        | .ecx => intrField c.mem (c.reg .esp) .ecx
        | .edx => intrField c.mem (c.reg .esp) .edx
        | .ebx => intrField c.mem (c.reg .esp) .ebx
        | .esp => c.reg .esp + 56
        | .ebp => intrField c.mem (c.reg .esp) .ebp
        | .esi => intrField c.mem (c.reg .esp) .esi
        | .edi => intrField c.mem (c.reg .esp) .edi
      seg := fun
        | .es => (intrField c.mem (c.reg .esp) .es).toUInt16
        | .cs => c.seg .cs
        | .ss => c.seg .ss
        | .ds => (intrField c.mem (c.reg .esp) .ds).toUInt16
        | .fs => (intrField c.mem (c.reg .esp) .fs).toUInt16
        | .gs => (intrField c.mem (c.reg .esp) .gs).toUInt16
      eip := c.eip
      eflags := c.eflags
      mem := c.mem } := by
  simp only [intrExit, Cpu.run_cons, Cpu.run_nil, Cpu.exec]
  congr 1
  apply Cpu.ext
  · funext r
    cases r <;> simp [Cpu.popad, intrField, IntrField.offset, UInt32.add_assoc]
  · funext r
    cases r <;> simp [Cpu.popad, intrField, IntrField.offset, UInt32.add_assoc]
  · rfl
  · rfl
  · rfl

/-- `intr_exit` to user code. -/
theorem run_intrExit (h : c.cpl < (intrField c.mem (c.reg .esp) .cs).toUInt16 &&& 3) :
    (c.run intrExit).toRegisters = intrContext c.mem (c.reg .esp) := by
  rw [run_intrExit_eq, iretd_outer]
  · apply Registers.ext
    · funext r
      cases r <;> simp [intrContext, intrField, IntrField.offset, UInt32.add_assoc]
    · funext r
      cases r <;> simp [intrContext, intrField, IntrField.offset, UInt32.add_assoc]
    · simp [intrContext, intrField, IntrField.offset]
    · simp [intrContext, intrField, IntrField.offset, UInt32.add_assoc]
  · simpa [intrField, IntrField.offset, UInt32.add_assoc, Registers.cpl] using h

theorem run_intrExit_mem : (c.run intrExit).mem = c.mem := by
  rw [run_intrExit_eq]
  unfold Cpu.iretd
  dsimp only
  split <;> simp

/-! ### The entries -/

/-- What the entries of `kernel.s` push of a context, the first one first. -/
def savedWords (c : Registers) (esp : UInt32) : List UInt32 :=
  [(c.seg .ds).toUInt32, (c.seg .es).toUInt32, (c.seg .fs).toUInt32, (c.seg .gs).toUInt32,
   c.reg .eax, c.reg .ecx, c.reg .edx, c.reg .ebx, esp, c.reg .ebp, c.reg .esi, c.reg .edi]

theorem run_save (c : Cpu) (is : List Instr) :
    c.run (.pushSeg .ds :: .pushSeg .es :: .pushSeg .fs :: .pushSeg .gs :: .pushad :: is) =
      (c.pushes (savedWords c.toRegisters (c.reg .esp - 4 - 4 - 4 - 4))).run is := by
  simp [Cpu.exec, Cpu.pushad, savedWords]

theorem savedWords_pushes (ws : List UInt32) :
    savedWords (c.pushes ws).toRegisters = savedWords c.toRegisters := by
  funext esp
  simp [savedWords, pushes_reg]

/-- What `VECTOR` pushes for an error code. -/
def zeroWords (n : Fin 0x30) : List UInt32 := if errorCode n then [] else [0]

/-- The stack pointer `pushad` finds. -/
def espDummy (c : Cpu) (ws : List UInt32) : UInt32 := (c.pushes ws).reg .esp - 4 - 4 - 4 - 4

/-- What `VECTOR` does up to the words of `intr_stack` before the last. -/
theorem run_vector_call (c : Cpu) (w w' : UInt32) (op : Operand) : ∃ eax eip,
    c.run [.movAl 0x20, .outAl 0xa0, .outAl 0x20, .pushImm w, .call w' op] =
      ((c.pushes [w, w']).setReg .eax eax).goto eip := by
  refine ⟨c.reg .eax &&& 0xffffff00 ||| (0x20 : UInt8).toUInt32, ?_⟩
  rw [← setReg_pushes (by decide)]
  exact ⟨_, rfl⟩

theorem run_syscall_call (c : Cpu) (w w' a : UInt32) :
    c.run [.pushImm w, .pushReg .edx, .pushReg .ecx, .pushReg .ebx, .call w' (.index a .eax)] =
      (c.pushes [w, c.reg .edx, c.reg .ecx, c.reg .ebx, w']).goto
        ((c.pushes [w, c.reg .edx, c.reg .ecx, c.reg .ebx]).mem (a + c.reg .eax * 4)) :=
  rfl

theorem run_vector (c : Cpu) : ∃ eax eip,
    c.run (vector x n) = ((c.pushes (zeroWords n ++
      savedWords c.toRegisters (espDummy c (zeroWords n)) ++ [UInt32.ofNat n.val, x.intrRet n])).setReg
        .eax eax).goto eip := by
  have hzero : ∀ is, c.run ((if errorCode n then .nop else .pushImm 0) :: is) =
      (c.pushes (zeroWords n)).run is := by
    intro is
    unfold zeroWords
    split <;> rfl
  obtain ⟨eax, eip, hcall⟩ := run_vector_call
    ((c.pushes (zeroWords n)).pushes (savedWords c.toRegisters (espDummy c (zeroWords n))))
    (UInt32.ofNat n.val) (x.intrRet n) (.abs (x.idtTable + UInt32.ofNat n.val * 4))
  refine ⟨eax, eip, ?_⟩
  rw [vector, hzero, run_save, savedWords_pushes, Cpu.pushes_append, Cpu.pushes_append, ← hcall]
  rfl

/-- What `syscall_handler` has pushed when it calls. -/
def syscallWords (c : Cpu) : List UInt32 :=
  [0] ++ savedWords c.toRegisters (espDummy c [0]) ++
    [0x80, c.reg .edx, c.reg .ecx, c.reg .ebx]

theorem run_syscallHandler (c : Cpu) :
    c.run (syscallHandler x) = (c.pushes (syscallWords c ++ [x.syscallRet])).goto
      ((c.pushes (syscallWords c)).mem (x.syscallTable + c.reg .eax * 4)) := by
  have hzero : ∀ is, c.run (.pushImm 0 :: is) = (c.pushes [0]).run is := fun _ => rfl
  have hreg : ∀ r ≠ Reg.esp,
      ((c.pushes [0]).pushes (savedWords c.toRegisters (espDummy c [0]))).reg r = c.reg r :=
    fun r h => by rw [pushes_reg h, pushes_reg h]
  have hesp : (c.pushes [0]).reg .esp - 4 - 4 - 4 - 4 = espDummy c [0] := rfl
  have hwords : c.pushes (syscallWords c) =
      ((c.pushes [0]).pushes (savedWords c.toRegisters (espDummy c [0]))).pushes
        [0x80, c.reg .edx, c.reg .ecx, c.reg .ebx] := by
    rw [syscallWords, Cpu.pushes_append, Cpu.pushes_append]
  rw [syscallHandler, hzero, run_save, savedWords_pushes, hesp, Cpu.pushes_append, hwords]
  generalize (c.pushes [0]).pushes (savedWords c.toRegisters (espDummy c [0])) = d at hreg
  rw [run_syscall_call, hreg _ (by decide), hreg _ (by decide), hreg _ (by decide),
    hreg _ (by decide)]
  rfl

/-- What lies on the stack of a task that has come from user code with context `c`. -/
def frameWords (c : Registers) (err esp : UInt32) : List UInt32 :=
  [(c.seg .ss).toUInt32, c.reg .esp, c.eflags, (c.seg .cs).toUInt32, c.eip, err] ++ savedWords c esp

theorem intrContext_of_onStack {k : Registers} {mem : Dwords} {a err esp : UInt32}
    (h : OnStack mem (a + 4) (frameWords k err esp).reverse) : intrContext mem a = k := by
  simp only [frameWords, savedWords, List.cons_append, List.nil_append, List.reverse_cons,
    List.reverse_nil, OnStack, UInt32.add_assoc] at h
  obtain ⟨hedi, hesi, hebp, -, hebx, hedx, hecx, heax, hgs, hfs, hes, hds, -, heip, hcs, hefl, hesp, hss, -⟩ := h
  apply Registers.ext
  · funext r
    cases r
    · exact heax
    · exact hecx
    · exact hedx
    · exact hebx
    · exact hesp
    · exact hebp
    · exact hesi
    · exact hedi
  · funext r
    cases r
    · exact (congrArg UInt32.toUInt16 hes).trans (UInt16.toUInt16_toUInt32 _)
    · exact (congrArg UInt32.toUInt16 hcs).trans (UInt16.toUInt16_toUInt32 _)
    · exact (congrArg UInt32.toUInt16 hss).trans (UInt16.toUInt16_toUInt32 _)
    · exact (congrArg UInt32.toUInt16 hds).trans (UInt16.toUInt16_toUInt32 _)
    · exact (congrArg UInt32.toUInt16 hfs).trans (UInt16.toUInt16_toUInt32 _)
    · exact (congrArg UInt32.toUInt16 hgs).trans (UInt16.toUInt16_toUInt32 _)
  · exact heip
  · exact hefl

/-- A task in the kernel has the context it came with on its stack. -/
theorem entered_context (hws : ws.length ≤ 0x1000) :
    intrContext ((c.setReg .esp w).pushes (frameWords c.toRegisters err esp ++ ws)).mem (w - 76) =
      c.toRegisters := by
  have hesp : ((c.setReg .esp w).pushes (frameWords c.toRegisters err esp)).reg .esp = w - 72 := by
    rw [pushes_esp, Cpu.setReg_reg, Function.update_self]
    rfl
  have hframe : OnStack ((c.setReg .esp w).pushes (frameWords c.toRegisters err esp)).mem
      (w - 72) (frameWords c.toRegisters err esp).reverse := by
    rw [← hesp, ← List.append_nil (frameWords c.toRegisters err esp).reverse]
    exact onStack_pushes trivial (by simp [frameWords, savedWords])
  rw [Cpu.pushes_append]
  generalize hd : (c.setReg .esp w).pushes (frameWords c.toRegisters err esp) = d at hesp hframe
  have hkept : Spared d.mem (d.pushes ws).mem (w - 72) 72 := by
    apply spared_pushes
    rw [hesp, UInt32.sub_self]
    show 0 + 72 + _ ≤ _
    omega
  apply intrContext_of_onStack
  have hw : w - 76 + 4 = w - 72 := by grind
  rw [hw]
  apply hframe.spared hkept
  rw [UInt32.sub_self]
  simp [frameWords, savedWords]

/-- The processor with what an interrupt of user code has pushed. -/
theorem interrupt_outer (g : Gate) (tss : Tss) (e : Option UInt32) (h : 0 < c.cpl) :
    (c.interrupt g tss e).mem = ((c.setReg .esp tss.esp0).pushes (c.interrupted e)).mem ∧
    (c.interrupt g tss e).reg .esp =
      tss.esp0 - 4 * UInt32.ofNat (c.interrupted e).length ∧
    (c.interrupt g tss e).seg .cs = g.selector ∧
    savedWords (c.interrupt g tss e).toRegisters = savedWords c.toRegisters := by
  have hc : c.interrupt g tss e = { (((((c.setReg .esp tss.esp0).setSeg .ss tss.ss0).pushes
      (c.interrupted e)).setSeg .cs g.selector)) with
        eip := g.offset, eflags := gateFlags c.eflags } := by
    rw [Cpu.interrupt, if_pos h]
  rw [hc]
  refine ⟨pushes_congr rfl rfl, ?_, ?_, ?_⟩
  · simp [pushes_esp]
  · simp
  · funext esp
    simp [savedWords, pushes_reg]

/-- What an entry of `kernel.s` leaves that has pushed `vs` and `savedWords`, and `ws` for the
call. -/
structure Entered (c : Cpu) (top : UInt32) (ws : List UInt32) (c' : Cpu) : Prop where
  mem : ∃ err esp, c'.mem = ((c.setReg .esp top).pushes (frameWords c.toRegisters err esp ++ ws)).mem
  esp : c'.reg .esp = top - 72 - 4 * UInt32.ofNat ws.length
  cs : c'.seg .cs = selectorKCode

theorem entered_of_pushes {g : Gate} (tss : Tss) {e : Option UInt32} {vs : List UInt32}
    (h : 0 < c.cpl) (hg : g.selector = selectorKCode) (hvs : ∃ err, e.toList ++ vs = [err])
    (hmem : c'.mem = ((c.interrupt g tss e).pushes (vs ++
      savedWords (c.interrupt g tss e).toRegisters esp ++ ws)).mem)
    (hesp : c'.reg .esp = ((c.interrupt g tss e).pushes (vs ++
      savedWords (c.interrupt g tss e).toRegisters esp ++ ws)).reg .esp)
    (hseg : c'.seg = (c.interrupt g tss e).seg) : Entered c tss.esp0 ws c' := by
  obtain ⟨err, hvs⟩ := hvs
  obtain ⟨hm, hs, hcs, hsaved⟩ := interrupt_outer g tss e h
  have hwords : c.interrupted e ++ vs = [(c.seg .ss).toUInt32, c.reg .esp, c.eflags,
      (c.seg .cs).toUInt32, c.eip, err] := by
    rw [Registers.interrupted, if_pos h, List.append_assoc, hvs]
    rfl
  have hframe : c.interrupted e ++ (vs ++ savedWords c.toRegisters esp ++ ws) =
      frameWords c.toRegisters err esp ++ ws := by
    rw [frameWords, ← hwords, List.append_assoc, List.append_assoc, List.append_assoc]
  have hbase : (c.interrupt g tss e).reg .esp =
      ((c.setReg .esp tss.esp0).pushes (c.interrupted e)).reg .esp := by
    rw [hs, pushes_esp, Cpu.setReg_reg, Function.update_self]
  refine ⟨⟨err, esp, ?_⟩, ?_, ?_⟩
  · rw [hmem, hsaved, ← hframe, Cpu.pushes_append (l := c.interrupted e)]
    exact pushes_congr hm hbase
  · rw [hesp, hsaved, pushes_esp, hbase, ← pushes_esp, ← Cpu.pushes_append, hframe, pushes_esp,
      Cpu.setReg_reg, Function.update_self, List.length_append, UInt32.ofNat_add]
    have h18 : UInt32.ofNat (frameWords c.toRegisters err esp).length = 18 := rfl
    rw [h18]
    grind
  · rw [hseg, hcs, hg]

theorem Tasks.intrCpu_entered {s : Tasks} {e : Option UInt32} (h : 0 < s.cpu.cpl)
    (he : e.isSome = errorCode n) :
    Entered s.cpu s.esp0 [UInt32.ofNat n.val, x.intrRet n] (s.intrCpu x n e) := by
  obtain ⟨eax, eip, hrun⟩ := run_vector (x := x) (n := n)
    (s.cpu.interrupt ⟨selectorKCode, x.intrEntry n⟩ s.tss e)
  rw [Tasks.intrCpu, hrun]
  refine entered_of_pushes s.tss h rfl ?_ rfl ?_ ?_
  · unfold zeroWords
    cases e with
    | none =>
        rw [← he]
        exact ⟨0, rfl⟩
    | some err =>
        rw [← he]
        exact ⟨err, rfl⟩
  · simp
  · simp

theorem Entered.onStack (h : Entered c w ws c') (hws : ws.length ≤ 0x1000) :
    OnStack c'.mem (c'.reg .esp) ws.reverse := by
  obtain ⟨⟨err, esp, hmem⟩, hesp, -⟩ := h
  have htop : ((c.setReg .esp w).pushes (frameWords c.toRegisters err esp ++ ws)).reg .esp =
      c'.reg .esp := by
    have h18 : UInt32.ofNat (frameWords c.toRegisters err esp).length = 18 := rfl
    rw [pushes_esp, hesp, List.length_append, UInt32.ofNat_add, h18, Cpu.setReg_reg,
      Function.update_self]
    grind
  have hlen : (frameWords c.toRegisters err esp).length = 18 := rfl
  have hall : OnStack ((c.setReg .esp w).pushes (frameWords c.toRegisters err esp ++ ws)).mem
      (((c.setReg .esp w).pushes (frameWords c.toRegisters err esp ++ ws)).reg .esp)
      ((frameWords c.toRegisters err esp ++ ws).reverse ++ []) := by
    apply onStack_pushes
    · trivial
    · rw [List.length_append, hlen, List.length_nil]
      omega
  rw [htop, ← hmem, List.append_nil, List.reverse_append] at hall
  exact hall.left

/-- The interrupted registers that are passed on. -/
theorem interrupt_reg {s : Tasks} {g : Gate} {e : Option UInt32} {r : Reg} (h : 0 < s.cpu.cpl)
    (hr : r ≠ .esp) : (s.cpu.interrupt g s.tss e).reg r = s.cpu.reg r := by
  simp [Cpu.interrupt, if_pos h, pushes_reg hr, Function.update_of_ne hr]

theorem Tasks.syscallCpu_entered {s : Tasks} (h : 0 < s.cpu.cpl) :
    Entered s.cpu s.esp0 [0x80, s.cpu.reg .edx, s.cpu.reg .ecx, s.cpu.reg .ebx, x.syscallRet]
      (s.syscallCpu x) := by
  have hrun := run_syscallHandler (x := x)
    (s.cpu.interrupt ⟨selectorKCode, x.syscallHandler⟩ s.tss none)
  rw [Tasks.syscallCpu, hrun, syscallWords, interrupt_reg h (by decide), interrupt_reg h (by decide),
    interrupt_reg h (by decide), List.append_assoc]
  refine entered_of_pushes s.tss h rfl ⟨0, rfl⟩ rfl ?_ ?_
  · simp
  · simp

/-- The function in the table under the number in `eax` is called. -/
theorem Tasks.syscallCpu_eip {s : Tasks} (h : 0 < s.cpu.cpl)
    (ha : 92 ≤ s.esp0 - 1 - (x.syscallTable + s.cpu.reg .eax * 4)) :
    (s.syscallCpu x).eip = s.cpu.mem (x.syscallTable + s.cpu.reg .eax * 4) := by
  obtain ⟨hm, hs, -, -⟩ := interrupt_outer ⟨selectorKCode, x.syscallHandler⟩ s.tss none h
  have hlen : (s.cpu.interrupted none).length = 5 := by
    rw [Registers.interrupted, if_pos h]
    rfl
  have hfar : 92 ≤ (s.esp0 - 1 - (x.syscallTable + s.cpu.reg .eax * 4)).toNat :=
    UInt32.le_iff_toNat_le.mp ha
  rw [Tasks.syscallCpu, run_syscallHandler, Cpu.goto_eip, interrupt_reg h (by decide)]
  generalize x.syscallTable + s.cpu.reg .eax * 4 = b at *
  rw [pushes_mem, hm, pushes_mem]
  · rfl
  · rw [hlen, Cpu.setReg_reg, Function.update_self]
    show 20 ≤ (s.esp0 - 1 - b).toNat
    omega
  · have hsub : s.esp0 - 20 - 1 - b = s.esp0 - 1 - b - 20 := by grind
    have hfar' : 68 ≤ s.esp0 - 1 - b - 20 := by grind
    have hfar'' : 68 ≤ (s.esp0 - 1 - b - 20).toNat := UInt32.le_iff_toNat_le.mp hfar'
    rw [hs, hlen, show (4 : UInt32) * UInt32.ofNat 5 = 20 from rfl]
    show 4 * 17 ≤ (s.esp0 - 20 - 1 - b).toNat
    rw [hsub]
    omega

/-! ### `switch_to` -/

/-- What a C function finds again when a call returns. -/
@[ext] structure KernelContext where
  ebp : UInt32
  ebx : UInt32
  edi : UInt32
  esi : UInt32
  eip : UInt32
  esp : UInt32

/-- What a task that is not running goes on with. -/
def savedContext (mem : Dwords) (t : UInt32) : KernelContext where
  ebp := mem (mem t)
  ebx := mem (mem t + 4)
  edi := mem (mem t + 8)
  esi := mem (mem t + 12)
  eip := mem (mem t + 16)
  esp := mem t + 20

def kernelContext (c : Cpu) : KernelContext where
  ebp := c.reg .ebp
  ebx := c.reg .ebx
  edi := c.reg .edi
  esi := c.reg .esi
  eip := c.eip
  esp := c.reg .esp

/-- The words `switch_to` finds and leaves on the stack of the running task. -/
def switchWords (c : Cpu) (cur next ret : UInt32) : List UInt32 :=
  [next, cur, ret, c.reg .esi, c.reg .edi, c.reg .ebx, c.reg .ebp]

theorem switchWords_onStack (cur next ret : UInt32) :
    OnStack (c.pushes (switchWords c cur next ret)).mem (c.reg .esp - 28)
      (switchWords c cur next ret).reverse := by
  have hesp : (c.pushes (switchWords c cur next ret)).reg .esp = c.reg .esp - 28 := by
    rw [pushes_esp]
    rfl
  rw [← hesp, ← List.append_nil (switchWords c cur next ret).reverse]
  exact onStack_pushes trivial (by simp [switchWords])

/-- `switch_to(cur, next)` -/
theorem switched (cur next ret : UInt32) (h : 28 ≤ cur - (c.reg .esp - 28)) :
    let c' := (((c.push next).push cur).push ret).run switchTo
    c'.mem = Function.update (c.pushes (switchWords c cur next ret)).mem cur (c.reg .esp - 28) ∧
    kernelContext c' = savedContext c'.mem next ∧ c'.seg = c.seg := by
  intro c'
  have hwords : ((((c.push next).push cur).push ret).run (switchTo.take 4)) =
      c.pushes (switchWords c cur next ret) := by
    simp [switchTo, switchWords, Cpu.exec]
  have hc' : c' = (c.pushes (switchWords c cur next ret)).run (switchTo.drop 4) := by
    rw [← hwords, ← Cpu.run_append, List.take_append_drop]
  have hesp : (c.pushes (switchWords c cur next ret)).reg .esp = c.reg .esp - 28 := by
    rw [pushes_esp]
    rfl
  have hseg : (c.pushes (switchWords c cur next ret)).seg = c.seg := pushes_seg
  have hholds := switchWords_onStack (c := c) cur next ret
  generalize c.pushes (switchWords c cur next ret) = d at *
  generalize c.reg .esp - 28 = sp at *
  obtain ⟨-, -, -, -, -, hcur, hnext, -⟩ := hholds
  simp only [UInt32.add_assoc] at hcur hnext
  change d.mem (sp + 20) = cur at hcur
  change d.mem (sp + 24) = next at hnext
  have hne : sp + 24 ≠ cur := by
    rintro rfl
    exact absurd h (by grind)
  rw [hc']
  refine ⟨?_, ?_, ?_⟩
  · simp [switchTo, Cpu.exec, Cpu.addr, hesp, hcur]
  · apply KernelContext.ext <;>
      simp [switchTo, Cpu.exec, Cpu.addr, hesp, hcur, hnext, hne, kernelContext, savedContext,
        UInt32.add_assoc]
  · simp [switchTo, Cpu.exec, hseg]

/-- What the task that is left will go on with. -/
theorem savedContext_switched {cur next ret : UInt32} (h : 28 ≤ cur - (c.reg .esp - 28)) :
    savedContext (Function.update (c.pushes (switchWords c cur next ret)).mem cur (c.reg .esp - 28))
      cur = { kernelContext c with eip := ret, esp := c.reg .esp - 8 } := by
  have hholds : OnStack (Function.update (c.pushes (switchWords c cur next ret)).mem cur
      (c.reg .esp - 28)) (c.reg .esp - 28) (switchWords c cur next ret).reverse :=
    (switchWords_onStack cur next ret).update (UInt32.le_iff_toNat_le.mp h)
  obtain ⟨hebp, hebx, hedi, hesi, hret, -⟩ := hholds
  simp only [UInt32.add_assoc] at hebx hedi hesi hret
  unfold savedContext
  rw [Function.update_self]
  apply KernelContext.ext
  · exact hebp
  · exact hebx
  · exact hedi
  · exact hesi
  · exact hret
  · show c.reg .esp - 28 + 20 = c.reg .esp - 8
    grind

/-- The rest of the memory. -/
theorem switched_mem {cur next ret : UInt32} (hcur : a ≠ cur) (ha : 28 ≤ c.reg .esp - 1 - a) :
    Function.update (c.pushes (switchWords c cur next ret)).mem cur (c.reg .esp - 28) a =
      c.mem a := by
  rw [Function.update_of_ne hcur]
  exact pushes_mem (UInt32.le_iff_toNat_le.mp ha)

/-! ### Fields -/

theorem setIntr_outside {fs : List (IntrField × UInt32)} (h : 76 ≤ a - b) :
    setIntr mem b fs a = mem a := by
  induction fs generalizing mem with
  | nil => rfl
  | cons f fs ih =>
      obtain ⟨f, w⟩ := f
      have hne : a ≠ b + f.offset := by
        rintro rfl
        cases f <;> simp only [IntrField.offset] at h <;> grind
      rw [setIntr, ih, Function.update_of_ne hne]

theorem IntrField.offset_inj {f g : IntrField} : f.offset = g.offset ↔ f = g := by
  constructor
  · intro h
    cases f <;> cases g <;> first | rfl | exact absurd h (by decide)
  · rintro rfl
    rfl

/-- An assignment to a field is one to no other. -/
theorem intrField_update {f g : IntrField} : intrField (Function.update mem (b + f.offset) w) b g =
    if g = f then w else intrField mem b g := by
  unfold intrField
  by_cases h : g = f
  · rw [h, if_pos rfl, Function.update_self]
  · rw [if_neg h, Function.update_of_ne]
    rw [Ne, UInt32.add_right_inj, IntrField.offset_inj]
    exact h

/-! ### Stacks made by hand -/

theorem intrContext_congr (h : Spared mem mem' a 76) : intrContext mem' a = intrContext mem a := by
  have hfield : ∀ f, intrField mem' a f = intrField mem a f := by
    intro f
    apply h
    cases f <;> simp only [IntrField.offset] <;> grind
  unfold intrContext
  simp only [hfield]

/-- The result is in the field `eax`. -/
theorem intrContext_eax (h : ∀ f, intrField mem' b f = if f = .eax then w else intrField mem a f) :
    intrContext mem' b = (intrContext mem a).setReg .eax w := by
  apply Registers.ext
  · funext r
    cases r <;> simp [intrContext, h, Registers.setReg]
  · funext r
    cases r <;> simp [intrContext, h, Registers.setReg]
  · simp [intrContext, h, Registers.setReg]
  · simp [intrContext, h, Registers.setReg]

/-- `sys_execv` changes four fields. -/
theorem intrContext_execvStack (mem : Dwords) (cur argv argc entryPoint : UInt32) :
    intrContext (execvStack mem cur argv argc entryPoint) (intr0Stack cur) =
      { (((intrContext mem (intr0Stack cur)).setReg .ebx argv).setReg .ecx argc).setReg .esp
          0xc0000000 with eip := entryPoint } := by
  apply Registers.ext
  · funext r
    cases r <;> simp [execvStack, setIntr, intrContext, intrField_update, Registers.setReg]
  · funext r
    cases r <;> simp [execvStack, setIntr, intrContext, intrField_update, Registers.setReg]
  · simp [execvStack, setIntr, intrContext, intrField_update]
  · simp [execvStack, setIntr, intrContext, intrField_update, Registers.setReg]

/-- The context a process begins in. -/
def startContext (function esp : UInt32) : Registers where
  reg
    | .esp => esp
    | _ => 0
  seg
    | .cs => selectorUCode
    | .gs => 0
    | _ => selectorUData
  eip := function
  eflags := 0x202

/-- `start_process` after its first part: the stack is still missing. -/
def Started (function : UInt32) (k : Registers) : Prop :=
  ∃ esp ss, k = { startContext function esp with
    seg := Function.update (startContext function esp).seg .ss ss }

theorem started_startProcess {function : UInt32} :
    Started function (intrContext (startProcess mem t function) (mem t + 4 * sizeofThreadStack)) := by
  refine ⟨intrField (startProcess mem t function) (mem t + 4 * sizeofThreadStack) .esp,
    (intrField (startProcess mem t function) (mem t + 4 * sizeofThreadStack) .ss).toUInt16, ?_⟩
  apply Registers.ext
  · funext r
    cases r <;> simp [startProcess, setIntr, intrContext, intrField_update, startContext]
  · funext r
    cases r <;> simp [startProcess, setIntr, intrContext, intrField_update, startContext]
  · simp [startProcess, setIntr, intrContext, intrField_update, startContext]
  · simp [startProcess, setIntr, intrContext, intrField_update, startContext]

theorem intrContext_startProcessEnd {function page : UInt32}
    (h : Started function (intrContext mem a)) :
    intrContext (startProcessEnd mem a page) a = startContext function (page + pageSize) := by
  obtain ⟨esp, ss, hk⟩ := h
  have hreg : ∀ r, (intrContext mem a).reg r = (startContext function esp).reg r := by
    intro r
    rw [hk]
  have hseg : ∀ r, (intrContext mem a).seg r =
      Function.update (startContext function esp).seg .ss ss r := by
    intro r
    rw [hk]
  apply Registers.ext
  · funext r
    have h := hreg r
    cases r <;>
      simp [startProcessEnd, setIntr, intrContext, intrField_update, startContext] at h ⊢ <;>
      exact h
  · funext r
    have h := hseg r
    cases r <;>
      simp [startProcessEnd, setIntr, intrContext, intrField_update, startContext] at h ⊢ <;>
      exact h
  · have h := congrArg Registers.eip hk
    simpa [startProcessEnd, setIntr, intrContext, intrField_update, startContext] using h
  · have h := congrArg Registers.eflags hk
    simpa [startProcessEnd, setIntr, intrContext, intrField_update, startContext] using h

theorem intr0Stack_eq : intr0Stack t = t + 4020 := by
  unfold intr0Stack pageSize sizeofIntrStack
  grind

theorem copyPage_inside (h : a < 4096) : copyPage mem t u (t + a) = mem (u + a) := by
  have hsub : t + a - t = a := by grind
  rw [copyPage, hsub, if_pos (show a < pageSize from h)]

theorem copyPage_outside (h : 4096 ≤ a - t) : copyPage mem t u a = mem a := by
  rw [copyPage, if_neg]
  exact UInt32.not_lt.mpr h

/-- The words `build_child_stack` writes, by their place in the page. -/
theorem buildChildStack_eq : buildChildStack x mem t =
    Function.update (Function.update (Function.update (Function.update (Function.update
      (Function.update (Function.update mem (t + 4052) 0) (t + 4016) x.intrExit)
      (t + 4004) 0) (t + 4000) 0) (t + 4012) 0) (t + 4008) 0) t (t + 4000) := by
  have haddr : ∀ d : UInt32, t + 4020 - d = t + (4020 - d) := by
    intro d
    grind
  simp [buildChildStack, intr0Stack_eq, setIntr, IntrField.offset, haddr, UInt32.add_assoc]

theorem buildChildStack_outside (h : 4096 ≤ a - t) : buildChildStack x mem t a = mem a := by
  rw [buildChildStack_eq]
  simp only [Function.update_apply]
  grind

theorem buildChildStack_self : buildChildStack x mem t t = t + 4000 := by
  rw [buildChildStack_eq, Function.update_self]

theorem savedContext_buildChildStack :
    savedContext (buildChildStack x mem t) t = ⟨0, 0, 0, 0, x.intrExit, t + 4020⟩ := by
  rw [buildChildStack_eq]
  simp [savedContext, UInt32.add_assoc]

/-- A child comes back as its parent, with 0 for the result. -/
theorem intrContext_buildChildStack :
    intrContext (buildChildStack x mem t) (t + 4020) = (intrContext mem (t + 4020)).setReg .eax 0 := by
  apply intrContext_eax
  intro f
  rw [buildChildStack_eq]
  cases f <;> simp [intrField, IntrField.offset, UInt32.add_assoc]

theorem intrContext_copyPage :
    intrContext (copyPage mem t u) (t + 4020) = intrContext mem (u + 4020) := by
  have hfield : ∀ f, intrField (copyPage mem t u) (t + 4020) f = intrField mem (u + 4020) f := by
    intro f
    unfold intrField
    rw [UInt32.add_assoc, copyPage_inside, UInt32.add_assoc]
    cases f <;> decide
  unfold intrContext
  simp only [hfield]

/-- The words `thread_create` writes. -/
theorem threadCreate_eq {f g : UInt32} : threadCreate x (initStack mem t) t f g =
    Function.update (Function.update (Function.update (Function.update (Function.update
      (Function.update (Function.update (Function.update mem t (t + 3664)) (t + 3680) x.kernelThread)
      (t + 3688) f) (t + 3692) g) (t + 3664) 0) (t + 3668) 0) (t + 3676) 0) (t + 3672) 0 := by
  have haddr : t + 4096 - 304 - 128 = t + 3664 := by grind
  simp [threadCreate, initStack, setThread, ThreadField.offset, pageSize, sizeofIntrStack,
    sizeofThreadStack, haddr, UInt32.add_assoc]

theorem threadCreate_outside {f g : UInt32} (h : 4096 ≤ a - t) :
    threadCreate x (initStack mem t) t f g a = mem a := by
  rw [threadCreate_eq]
  simp only [Function.update_apply]
  grind

theorem threadCreate_self {f g : UInt32} : threadCreate x (initStack mem t) t f g t = t + 3664 := by
  rw [threadCreate_eq]
  simp

/-- A new thread begins in `kernel_thread`. -/
theorem savedContext_threadCreate {f g : UInt32} :
    savedContext (threadCreate x (initStack mem t) t f g) t =
      ⟨0, 0, 0, 0, x.kernelThread, t + 3684⟩ := by
  rw [threadCreate_eq]
  simp [savedContext, UInt32.add_assoc]

/-- Its arguments lie where a C function looks for them. -/
theorem args_threadCreate {f g : UInt32} :
    OnStack (threadCreate x (initStack mem t) t f g) (t + 3684 + 4) [f, g] := by
  rw [threadCreate_eq]
  simp [OnStack, UInt32.add_assoc]

end ZyOs.Switch
