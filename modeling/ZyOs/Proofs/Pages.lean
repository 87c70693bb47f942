/-
Frames of the kernel's pool.

A frame is safe from being given out twice as long as its bit is set.  Between the scan of
`palloc` and its set it is not: whoever scans then finds the same frame.  The locks do not
prevent it, because `page_table_add` takes tables from the kernel's pool under the lock of
the pool its caller uses.
-/
import ZyOs.Kernel.Pages
import ZyOs.Proofs.Bitmap

namespace ZyOs

open Library

variable {s s' : PageSys} {t u i : Nat} {pc : PagePc} {job : PageJob} {call : PageCall}

/-! ### Fields -/

namespace PageSys

@[simp] theorem goto_self : (s.goto t pc).pc t = pc := if_pos rfl

theorem goto_ne (h : u ≠ t) : (s.goto t pc).pc u = s.pc u := if_neg h

@[simp] theorem goto_kernelPool : (s.goto t pc).kernelPool = s.kernelPool := rfl

@[simp] theorem goto_frames : (s.goto t pc).frames = s.frames := rfl

/-! ### The invariant -/

/-- Task `t` has found frame `i` of the kernel's pool free and not set its bit yet. -/
def Holds (s : PageSys) (t i : Nat) : Prop :=
  (∃ job, s.pc t = .set job i ∧ job.pf = .kernel) ∨ ∃ job, s.pc t = .tableSet job i

/-- Task `t` is about to scan the kernel's pool. -/
def Scans (s : PageSys) (t : Nat) : Prop :=
  (∃ job, s.pc t = .scan job ∧ job.pf = .kernel) ∨ ∃ job, s.pc t = .tableScan job

/-- Bit `i` of the kernel's pool. -/
def used (s : PageSys) (i : Nat) : Bool := s.kernelPool.poolBitmap.bitmapScanTest i

/-- The address of frame `i` of the kernel's pool. -/
def frame (s : PageSys) (i : Nat) : Nat := i * pageSize + s.kernelPool.phyAddrStart

end PageSys

structure PageInv (s : PageSys) : Prop where
  len : 8 * s.kernelPool.poolBitmap.bmapBytesLen ≤ 2 ^ 31
  nodup : s.frames.Nodup
  used : ∀ f ∈ s.frames, ∃ i, f = s.frame i ∧ s.used i = true
  clear : ∀ t i, s.Holds t i → s.used i = false
  one : ∀ t u i j, s.Holds t i → s.Holds u j → t = u

/-- The kernel's pool is scanned only while nobody is between the scan and the set of one of its
frames. -/
def ScansAlone (s : PageSys) (a : PageAction) : Prop :=
  ∀ t, a = .step t → s.Scans t → ∀ u i, ¬ s.Holds u i

theorem PageSys.holds_congr (hpc : s'.pc t = s.pc t) : s'.Holds t i ↔ s.Holds t i := by
  unfold Holds
  rw [hpc]

/-- Who holds a frame holds one. -/
theorem PageSys.Holds.unique {j : Nat} (h : s.Holds t i) (h' : s.Holds t j) : i = j := by
  rcases h with ⟨job, hpc, _⟩ | ⟨job, hpc⟩
  · rcases h' with ⟨job', hpc', _⟩ | ⟨job', hpc'⟩
    · rw [hpc] at hpc'
      injection hpc'
    · rw [hpc] at hpc'
      cases hpc'
  · rcases h' with ⟨job', hpc', _⟩ | ⟨job', hpc'⟩
    · rw [hpc] at hpc'
      cases hpc'
    · rw [hpc] at hpc'
      injection hpc'

/-! ### Steps -/

/-- A step that leaves the kernel's pool and the frames alone and after which nobody new holds a
frame. -/
theorem PageInv.congr (h : PageInv s) (hbits : s'.kernelPool.poolBitmap = s.kernelPool.poolBitmap)
    (hstart : s'.kernelPool.phyAddrStart = s.kernelPool.phyAddrStart)
    (hframes : s'.frames = s.frames) (hholds : ∀ u i, s'.Holds u i → s.Holds u i) : PageInv s' := by
  have hused : ∀ i, s'.used i = s.used i := fun i => by rw [PageSys.used, hbits, PageSys.used]
  have hframe : ∀ i, s'.frame i = s.frame i := fun i => by rw [PageSys.frame, hstart, PageSys.frame]
  refine ⟨hbits ▸ h.len, hframes ▸ h.nodup, fun f hf => ?_, fun u i hu => ?_,
    fun u v i j hu hv => h.one u v i j (hholds u i hu) (hholds v j hv)⟩
  · obtain ⟨i, hi, hset⟩ := h.used f (hframes ▸ hf)
    exact ⟨i, hi.trans (hframe i).symm, (hused i).trans hset⟩
  · exact (hused i).trans (h.clear u i (hholds u i hu))

/-- A place at which no frame is held. -/
def PagePc.Free (pc : PagePc) : Prop :=
  (∀ job i, pc = .set job i → job.pf ≠ .kernel) ∧ ∀ job i, pc ≠ .tableSet job i

theorem PageSys.holds_of_goto (hpc : pc.Free) (h : (s.goto t pc).Holds u i) :
    u ≠ t ∧ s.Holds u i := by
  by_cases hut : u = t
  · rw [hut, PageSys.Holds, PageSys.goto_self] at h
    rcases h with ⟨job, hset, hpf⟩ | ⟨job, hset⟩
    · exact absurd hpf (hpc.1 job i hset)
    · exact absurd hset (hpc.2 job i)
  · exact ⟨hut, (PageSys.holds_congr (PageSys.goto_ne hut)).mp h⟩

theorem PageInv.goto (h : PageInv s) (hpc : pc.Free) : PageInv (s.goto t pc) :=
  h.congr rfl rfl rfl fun _ _ hu => (PageSys.holds_of_goto hpc hu).2

/-- Task `t` goes on at a place like that in a state that differs from `s` elsewhere. -/
theorem PageInv.congr_goto (h : PageInv s)
    (hbits : s'.kernelPool.poolBitmap = s.kernelPool.poolBitmap)
    (hstart : s'.kernelPool.phyAddrStart = s.kernelPool.phyAddrStart)
    (hframes : s'.frames = s.frames) (hpcs : s'.pc = s.pc) (hpc : pc.Free) :
    PageInv (s'.goto t pc) := by
  refine (h.congr hbits hstart hframes fun u i hu => ?_).goto hpc
  rwa [PageSys.holds_congr (congrFun hpcs u)] at hu

/-- Only the lock of a pool is changed. -/
theorem PageInv.withLock (h : PageInv s) (pf : PoolFlag) (lock : Mutex) (hpc : pc.Free) :
    PageInv ((s.withPool { s.pool pf with lock := lock } pf).goto t pc) := by
  cases pf with
  | kernel => exact h.congr_goto rfl rfl rfl rfl hpc
  | user => exact h.congr_goto rfl rfl rfl rfl hpc

/-- The virtual addresses are no matter. -/
theorem PageInv.withVaddrs (h : PageInv s) (v : VirtualAddr) (pf : PoolFlag) (hpc : pc.Free) :
    PageInv ((s.withVaddrs u v pf).goto t pc) := by
  cases pf with
  | kernel => exact h.congr_goto rfl rfl rfl rfl hpc
  | user => exact h.congr_goto rfl rfl rfl rfl hpc

theorem wp_mallocPage (h : PageInv s) (pf : PoolFlag) (pgCnt : Nat) :
    Prog.wp (fun _ => True) (mallocPage t pf pgCnt) (fun _ => PageInv) s := by
  refine Prog.wp_get_bind (Prog.wp_bind (Prog.wp_lift (fun _ _ => ?_) fun _ _ => trivial))
  refine Prog.wp_bind (Prog.wp_lift (fun p _ => ?_) fun _ _ => trivial)
  obtain ⟨v, vaddr⟩ := p
  cases vaddr with
  | none => exact Prog.wp_set (h.withVaddrs v pf (by simp [PagePc.Free]))
  | some vaddr => exact Prog.wp_set (h.withVaddrs v pf (by simp [PagePc.Free]))

theorem wp_getAPage (h : PageInv s) (pf : PoolFlag) (vaddr : Nat) :
    Prog.wp (fun _ => True) (getAPage t pf vaddr) (fun _ => PageInv) s := by
  refine Prog.wp_get_bind (Prog.wp_ite (fun _ => ?_) fun _ => ?_)
  · refine Prog.wp_bind (Prog.wp_lift (fun _ _ => ?_) fun _ _ => trivial)
    exact Prog.wp_set (h.withVaddrs _ pf (by simp [PagePc.Free]))
  · exact Prog.wp_lift (fun _ hok => by cases hok) fun _ _ => trivial

theorem wp_pageCallStep (h : PageInv s) (pf : PoolFlag) (call : PageCall) :
    Prog.wp (fun _ => True) (pageCallStep t pf call) (fun _ => PageInv) s := by
  cases call with
  | getKernelPages pgCnt => exact wp_mallocPage h pf pgCnt
  | getUserPages pgCnt => exact wp_mallocPage h pf pgCnt
  | sysMalloc size listEmpty =>
      refine Prog.wp_ite (fun _ => wp_mallocPage h pf _) fun _ => ?_
      refine Prog.wp_ite (fun _ => wp_mallocPage h pf 1) fun _ => ?_
      exact Prog.wp_modify (h.goto (by simp [PagePc.Free]))
  | getAPage _ vaddr => exact wp_getAPage h pf vaddr

/-- The kernel's pool is scanned while nobody holds one of its frames. -/
theorem PageInv.scan (h : PageInv s) (hnone : ∀ u i, ¬ s.Holds u i) {n : Int}
    (hscan : s.kernelPool.poolBitmap.bitmapScan 1 = .ok n)
    (hpc : ∀ j, (s.goto t pc).Holds t j → j = n.toNat) : PageInv (s.goto t pc) := by
  obtain ⟨i, hn, _, hclear, _⟩ := Bitmap.scan_one h.len hscan
  have hself : ∀ u j, (s.goto t pc).Holds u j → u = t := by
    intro u j hu
    by_contra hut
    exact hnone u j ((PageSys.holds_congr (PageSys.goto_ne hut)).mp hu)
  refine ⟨h.len, h.nodup, h.used, fun u j hu => ?_,
    fun u v j k hu hv => (hself u j hu).trans (hself v k hv).symm⟩
  have hj := hpc j (hself u j hu ▸ hu)
  rw [hj, hn, Int.toNat_natCast]
  exact hclear

theorem wp_pallocScan (h : PageInv s) {pf : PoolFlag} {found : Nat → PagePc} {none : PageM Unit}
    (hkernel : pf = .kernel → ∀ u i, ¬ s.Holds u i) (huser : pf = .user → ∀ i, (found i).Free)
    (hfound : ∀ i j, (s.goto t (found i)).Holds t j → j = i)
    (hnone : Prog.wp (fun _ => True) none (fun _ => PageInv) s) :
    Prog.wp (fun _ => True) (pallocScan t pf found none) (fun _ => PageInv) s := by
  refine Prog.wp_get_bind (Prog.wp_bind (Prog.wp_lift (fun n hscan => ?_) fun _ _ => trivial))
  refine Prog.wp_ite (fun _ => hnone) fun _ => Prog.wp_set ?_
  cases pf with
  | kernel => exact h.scan (hkernel rfl) hscan (hfound n.toNat)
  | user => exact h.goto (huser rfl n.toNat)

/-- The frame task `t` holds is given out. -/
theorem PageInv.give (h : PageInv s) (ht : s.Holds t i) (hpc : pc.Free) {bitmap : Bitmap}
    (hbitmap : bitmap = s.kernelPool.poolBitmap.bitmapSet i true)
    (hbits : s'.kernelPool.poolBitmap = bitmap)
    (hstart : s'.kernelPool.phyAddrStart = s.kernelPool.phyAddrStart)
    (hframes : s'.frames = s.frame i :: s.frames) (hpcs : s'.pc = s.pc) :
    PageInv (s'.goto t pc) := by
  have hused : ∀ j, (s'.goto t pc).used j = if j = i then true else s.used j := by
    intro j
    rw [PageSys.used, PageSys.goto_kernelPool, hbits, hbitmap, Bitmap.scanTest_set]
    rfl
  have hframe : ∀ j, (s'.goto t pc).frame j = s.frame j := by
    intro j
    rw [PageSys.frame, PageSys.goto_kernelPool, hstart, PageSys.frame]
  have hnone : ∀ u j, ¬ (s'.goto t pc).Holds u j := by
    intro u j hu
    obtain ⟨hut, hu⟩ := PageSys.holds_of_goto hpc hu
    rw [PageSys.holds_congr (congrFun hpcs u)] at hu
    exact hut (h.one u t j i hu ht)
  have hnew : s.frame i ∉ s.frames := by
    intro hmem
    obtain ⟨j, hj, hset⟩ := h.used _ hmem
    have hij : i = j := by
      simp only [PageSys.frame, pageSize] at hj
      omega
    rw [← hij, h.clear t i ht] at hset
    cases hset
  refine ⟨?_, ?_, fun f hf => ?_, fun u j hu => absurd hu (hnone u j),
    fun u _ j _ hu => absurd hu (hnone u j)⟩
  · rw [PageSys.goto_kernelPool, hbits, hbitmap]
    exact h.len
  · rw [PageSys.goto_frames, hframes]
    exact List.nodup_cons.mpr ⟨hnew, h.nodup⟩
  · rw [PageSys.goto_frames, hframes, List.mem_cons] at hf
    rcases hf with rfl | hf
    · exact ⟨i, (hframe i).symm, by rw [hused, if_pos rfl]⟩
    · obtain ⟨j, hj, hset⟩ := h.used f hf
      refine ⟨j, hj.trans (hframe j).symm, ?_⟩
      rw [hused, hset]
      exact ite_self true

theorem wp_setStep (h : PageInv s) (hpc : s.pc t = .set job i) :
    Prog.wp (fun _ => True) (do pallocSet job.pf i; modify fun s => s.goto t (.table job))
      (fun _ => PageInv) s := by
  refine Prog.wp_bind (Prog.wp_get_bind ?_)
  cases hpf : job.pf with
  | kernel =>
      exact Prog.wp_set (Prog.wp_modify (h.give (.inl ⟨job, hpc, hpf⟩) (by simp [PagePc.Free]) rfl
        rfl rfl rfl rfl))
  | user =>
      exact Prog.wp_set (Prog.wp_modify (h.congr_goto rfl rfl rfl rfl (by simp [PagePc.Free])))

theorem wp_tableSet (h : PageInv s) (hpc : s.pc t = .tableSet job i) :
    Prog.wp (fun _ => True) (do
      pallocSet .kernel i
      newTable t job
      modify fun s => s.goto t (.map job)) (fun _ => PageInv) s := by
  refine Prog.wp_bind (Prog.wp_get_bind (Prog.wp_set ?_))
  refine Prog.wp_bind (Prog.wp_modify (Prog.wp_modify ?_))
  exact h.give (.inr ⟨job, hpc⟩) (by simp [PagePc.Free]) rfl rfl rfl rfl rfl

theorem wp_mapPage (h : PageInv s) :
    Prog.wp (fun _ => True) (mapPage t job) (fun _ => PageInv) s := by
  refine Prog.wp_get_bind (Prog.wp_bind (Prog.wp_lift (fun _ _ => ?_) fun _ _ => trivial))
  refine Prog.wp_ite (fun _ => Prog.wp_set ?_) fun _ => Prog.wp_set ?_
  · exact h.congr_goto rfl rfl rfl rfl (by simp [PagePc.Free])
  · exact h.congr_goto rfl rfl rfl rfl (by simp [PagePc.Free])

theorem wp_pageStep (h : PageInv s) (hok : s.Scans t → ∀ u i, ¬ s.Holds u i) :
    Prog.wp (fun _ => True) (pageStep t) (fun _ => PageInv) s := by
  refine Prog.wp_get_bind ?_
  cases hpc : s.pc t with
  | idle => exact Prog.wp_pure h
  | acquire call => exact Prog.wp_set (h.withLock _ _ (by simp [PagePc.Free]))
  | vaddr call => exact wp_pageCallStep h _ call
  | scan job =>
      refine wp_pallocScan h (fun hpf => hok (.inl ⟨job, hpc, hpf⟩)) (fun hpf i => ?_)
        (fun i j hj => ?_) (Prog.wp_modify (h.goto ?_))
      · simp [PagePc.Free, hpf]
      · simp only [PageSys.Holds, PageSys.goto_self] at hj
        obtain ⟨_, ⟨⟩, _⟩ | ⟨_, ⟨⟩⟩ := hj
        rfl
      · split <;> simp [PagePc.Free]
  | set job i => exact wp_setStep h hpc
  | table job =>
      refine Prog.wp_set (h.goto ?_)
      split <;> simp [PagePc.Free]
  | tableScan job =>
      refine wp_pallocScan h (fun _ => hok (.inr ⟨job, hpc⟩)) (fun hpf => by cases hpf)
        (fun i j hj => ?_) (Prog.wp_bind (Prog.wp_modify (Prog.wp_modify ?_)))
      · simp only [PageSys.Holds, PageSys.goto_self] at hj
        obtain ⟨_, ⟨⟩, _⟩ | ⟨_, ⟨⟩⟩ := hj
        rfl
      · exact h.congr_goto rfl rfl rfl rfl (by simp [PagePc.Free])
  | tableSet job i => exact wp_tableSet h hpc
  | map job => exact wp_mapPage h
  | release pf =>
      exact Prog.wp_bind (Prog.wp_lift
        (fun _ _ => Prog.wp_set (h.withLock _ _ (by simp [PagePc.Free]))) fun _ _ => trivial)

/-- `pfree` clears the bit of the frame it takes back. -/
theorem wp_pfree (h : PageInv s) {f : Nat} (hf : f ∈ s.frames) :
    Prog.wp (fun _ => True) (pfree f) (fun _ => PageInv) s := by
  refine Prog.wp_get_bind (Prog.wp_set ?_)
  have hnodup : (s.frames.erase f).Nodup := h.nodup.erase f
  by_cases hpf : s.userPool.phyAddrStart ≤ f
  · rw [if_pos hpf]
    exact ⟨h.len, hnodup, fun g hg => h.used g (List.mem_of_mem_erase hg), h.clear, h.one⟩
  · rw [if_neg hpf]
    have hused : ∀ j k b, (s.kernelPool.poolBitmap.bitmapSet j b).bitmapScanTest k
        = if k = j then b else s.used k := fun j k b => Bitmap.scanTest_set _ j k b
    obtain ⟨i, rfl, _⟩ := h.used f hf
    have hidx : (s.frame i - (s.pool .kernel).phyAddrStart) / pageSize = i := by
      show (i * pageSize + s.kernelPool.phyAddrStart - s.kernelPool.phyAddrStart) / pageSize = i
      rw [Nat.add_sub_cancel, Nat.mul_div_cancel _ (by decide)]
    rw [hidx]
    refine ⟨h.len, hnodup, fun g hg => ?_, fun u j hu => ?_, h.one⟩
    · have hne := h.nodup.mem_erase_iff.mp hg
      obtain ⟨j, hj, hset⟩ := h.used g hne.2
      refine ⟨j, hj, (hused i j false).trans ?_⟩
      rw [if_neg fun hji => hne.1 (by rw [hj, hji]), hset]
    · refine (hused i j false).trans ?_
      by_cases hji : j = i
      · exact if_pos hji
      · rw [if_neg hji]
        exact h.clear u j hu

theorem wp_pageCall (h : PageInv s) (call : PageCall) :
    Prog.wp (fun _ => True) (pageCall t call) (fun _ => PageInv) s := by
  refine Prog.wp_get_bind ?_
  cases call with
  | sysMalloc size listEmpty =>
      exact Prog.wp_ite (fun _ => Prog.wp_set (h.goto (by simp [PagePc.Free]))) fun _ =>
        Prog.wp_pure h
  | getKernelPages _ => exact Prog.wp_set (h.goto (by simp [PagePc.Free]))
  | getUserPages _ => exact Prog.wp_set (h.goto (by simp [PagePc.Free]))
  | getAPage _ _ => exact Prog.wp_set (h.goto (by simp [PagePc.Free]))

theorem wp_pageExec (h : PageInv s) {a : PageAction} (hen : s.Enabled a) (hok : ScansAlone s a) :
    Prog.wp (fun _ => True) (pageMachine.exec a) (fun _ => PageInv) s := by
  cases a with
  | call t call => exact wp_pageCall h call
  | step t => exact wp_pageStep h (hok t rfl)
  | free f => exact wp_pfree h hen

theorem memPoolInit_inv (allMem : Nat) (bits : Mem) (userVaddr : Nat → VirtualAddr)
    (isUser : Nat → Bool) (pde pte : Nat → Nat → Bool) :
    PageInv (memPoolInit allMem bits userVaddr isUser pde pte) where
  len := by
    show 8 * (sub32 allMem (pageSize * 256 + 0x100000) / pageSize % 2 ^ 16 / 2 / 8) ≤ 2 ^ 31
    omega
  nodup := List.nodup_nil
  used := fun _ hf => absurd hf List.not_mem_nil
  clear := by
    rintro t i (⟨_, hpc, _⟩ | ⟨_, hpc⟩)
    · cases hpc
    · cases hpc
  one := by
    rintro t u i j (⟨_, hpc, _⟩ | ⟨_, hpc⟩)
    · cases hpc
    · cases hpc

/-! ### Runs -/

/-- **In every run in which the kernel's pool is scanned only while nobody is between a scan of
it and the set, no frame of it is given out twice without being freed.** -/
theorem frames_once (s : PageSys) (h : pageMachine.Reach ScansAlone s) : s.frames.Nodup := by
  have hinit : ∀ s, pageMachine.init s → PageInv s := by
    rintro _ ⟨allMem, bits, userVaddr, isUser, pde, pte, _, rfl⟩
    exact memPoolInit_inv allMem bits userVaddr isUser pde pte
  have hinv : PageInv s := h.invariant (E := fun _ => True) hinit
    fun _ _ hinv hen hok => wp_pageExec hinv hen hok
  exact hinv.nodup

/-- A place at which a pool is scanned. -/
def PagePc.scans : PagePc → Bool
  | .scan _ => true
  | .tableScan _ => true
  | _ => false

/-- 32 MB; task 0 is a process without a table at its addresses, the others are kernel threads. -/
def pagesOf32Mb : PageSys :=
  memPoolInit 0x2000000 (fun _ => 0) (fun _ => ⟨⟨24567, fun _ => 0⟩, 0x8048000⟩) (fun t => t = 0)
    (fun k _ => k = 0) (fun _ _ => false)

theorem pagesOf32Mb_init : pageMachine.init pagesOf32Mb :=
  ⟨_, _, _, _, _, _, fun _ _ => rfl, rfl⟩

theorem PageSys.Scans.scans {s : PageSys} {t : Nat} (h : s.Scans t) : (s.pc t).scans = true := by
  rcases h with ⟨job, hpc, _⟩ | ⟨job, hpc⟩
  · rw [hpc]
    rfl
  · rw [hpc]
    rfl

/-- The process takes a table for its page while a thread is in `get_kernel_pages`, and neither
scans the kernel's pool before the other one has set its bit. -/
theorem frames_once_two : ∃ s, pageMachine.Reach ScansAlone s ∧ s.frames = [0x201000, 0x200000] ∧
    s.frames.Nodup := by
  have hrun : ((pageMachine.play [.call 0 (.getUserPages 1), .call 1 (.getKernelPages 1), .step 0,
      .step 0, .step 0, .step 0, .step 1, .step 1, .step 0, .step 0, .step 0, .step 1, .step 1]
      pagesOf32Mb).map fun s => s.frames) = some [0x201000, 0x200000] := by decide
  obtain ⟨s, hplay, hs⟩ := Option.map_eq_some_iff.mp hrun
  have hreach : pageMachine.Reach ScansAlone s := by
    refine Machine.reach_of_playOk (.start pagesOf32Mb_init) (fun n hn t ht => ?_) hplay
    change n < 13 at hn
    interval_cases n <;> cases ht <;> rintro t ⟨⟩ hscan u i hu <;>
      first
      | exact absurd hscan.scans (by decide)
      -- where somebody scans, nobody is at a set
      | rcases u with _ | _ | u <;> rcases hu with ⟨_, hset, _⟩ | ⟨_, hset⟩ <;> cases hset
  exact ⟨s, hreach, hs, frames_once s hreach⟩

/-- The process takes a table for its page, under the lock of the user's pool, while a thread is
in `get_kernel_pages`: both are given the first frame. -/
theorem frames_twice : ∃ s, pageMachine.Reach (fun _ _ => True) s ∧ ¬ s.frames.Nodup := by
  have hrun : ((pageMachine.play [.call 0 (.getUserPages 1), .call 1 (.getKernelPages 1), .step 0,
      .step 0, .step 0, .step 0, .step 0, .step 0, .step 1, .step 1, .step 1, .step 0, .step 1]
      pagesOf32Mb).map fun s => s.frames) = some [0x200000, 0x200000] := by decide
  obtain ⟨s, hplay, hs⟩ := Option.map_eq_some_iff.mp hrun
  refine ⟨s, Machine.reach_of_play (.start pagesOf32Mb_init) hplay, ?_⟩
  rw [hs]
  decide

end ZyOs
