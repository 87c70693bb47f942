/-
The inodes in memory and the inodes on disk.

Between system calls an open inode says what its slot in the table says, and a number
is open at most once.  A call that only looks at the disk opens inodes and closes them
again: `Held s₀ s held` says that `s` is `s₀` with the inodes in `held` opened on top,
and when nothing is held any more everything that was open is as it was.
-/
import ZyOs.Proofs.FileTable

namespace ZyOs

open Library

/-- What is open agrees with the disk. -/
structure Cache (s : Fs) : Prop where
  nodup : s.openInodes.Nodup
  heap : ∀ a ∈ s.openInodes, a ∈ s.heap
  opened : ∀ a ∈ s.openInodes, 1 ≤ (s.inodes a).iOpenCnts
  number : ∀ a ∈ s.openInodes, (s.inodes a).iNo.toNat < 4096
  same : ∀ a ∈ s.openInodes, Inode.Same (s.inodes a) (diskInode s (s.inodes a).iNo.toNat)
  unique : ∀ a ∈ s.openInodes, ∀ b ∈ s.openInodes, (s.inodes a).iNo = (s.inodes b).iNo → a = b
  files : ∀ g < maxFileOpen, ∀ a, (s.fileTable g).fdInode = some a → a ∈ s.openInodes

/-- The inodes in `held` are opened on top of `s₀`, those in `new` were read for it. -/
structure Opened (s₀ s : Fs) (held new : List Nat) : Prop where
  disk : s.disk = s₀.disk
  part : s.part = s₀.part
  rootInode : s.rootInode = s₀.rootInode
  fileTable : s.fileTable = s₀.fileTable
  tasks : s.tasks = s₀.tasks
  cur : s.cur = s₀.cur
  openInodes : s.openInodes = new ++ s₀.openInodes
  heap : ∀ a, a ∈ s.heap ↔ a ∈ new ∨ a ∈ s₀.heap
  nodup : new.Nodup
  fresh : ∀ a ∈ new, a ∉ s₀.heap ∧ a ∈ held
  read : ∀ a ∈ new, ∃ no < 4096, (diskInode s₀ no).iNo.toNat = no ∧
    s.inodes a = { diskInode s₀ no with iOpenCnts := held.count a }
  kept : ∀ a ∈ s₀.heap, s.inodes a
    = { s₀.inodes a with iOpenCnts := (s₀.inodes a).iOpenCnts + held.count a }
  unique : ∀ a ∈ s.openInodes, ∀ b ∈ s.openInodes, (s.inodes a).iNo = (s.inodes b).iNo → a = b
  held : ∀ a ∈ held, a ∈ s.openInodes

/-- The inodes in `held` are opened on top of `s₀`. -/
def Held (s₀ s : Fs) (held : List Nat) : Prop := ∃ new, Opened s₀ s held new

variable {env : FsEnv} {s₀ s s' : Fs} {a no : Nat} {held new : List Nat}

theorem Inode.Same.refl (n : Inode) : Inode.Same n n := ⟨rfl, rfl, fun _ _ => rfl⟩

theorem Inode.Same.symm {n n' : Inode} (h : Inode.Same n n') : Inode.Same n' n :=
  ⟨h.iNo.symm, h.iSize.symm, fun k hk => (h.sectors k hk).symm⟩

theorem Inode.Same.trans {n n' n'' : Inode} (h : Inode.Same n n') (h' : Inode.Same n' n'') :
    Inode.Same n n'' :=
  ⟨h.iNo.trans h'.iNo, h.iSize.trans h'.iSize,
    fun k hk => (h.sectors k hk).trans (h'.sectors k hk)⟩

theorem Inode.Same.withCnts {n n' : Inode} (h : Inode.Same n n') (cnt : Nat) :
    Inode.Same { n with iOpenCnts := cnt } n' := ⟨h.iNo, h.iSize, h.sectors⟩

theorem diskInode_congr (hdisk : s'.disk = s.disk) (hpart : s'.part = s.part) (no : Nat) :
    diskInode s' no = diskInode s no := by
  unfold diskInode
  rw [hdisk, hpart]

/-! ### What is held -/

theorem Held.refl (h : Cache s) : Held s s [] :=
  ⟨[], { disk := rfl, part := rfl, rootInode := rfl, fileTable := rfl, tasks := rfl, cur := rfl
         openInodes := rfl, heap := by simp, nodup := List.nodup_nil, fresh := by simp
         read := by simp, kept := by simp, unique := h.unique, held := by simp }⟩

theorem Opened.old_ne (h : Opened s₀ s held new) (ha : a ∈ new) {b : Nat} (hb : b ∈ s₀.heap) :
    b ≠ a := fun hba => (h.fresh a ha).1 (hba ▸ hb)

/-- What is open on top agrees with the disk as well. -/
theorem Opened.cache (h : Opened s₀ s held new) (hc : Cache s₀) : Cache s := by
  have hdisk := fun no => diskInode_congr h.disk h.part no
  have hmem : ∀ b ∈ s.openInodes, b ∈ new ∨ b ∈ s₀.openInodes := by
    intro b hb
    rwa [h.openInodes, List.mem_append] at hb
  refine ⟨?_, ?_, ?_, ?_, ?_, h.unique, ?_⟩
  · rw [h.openInodes, List.nodup_append]
    exact ⟨h.nodup, hc.nodup, fun b hb c hc' hbc => (h.fresh b hb).1 (hbc ▸ hc.heap c hc')⟩
  · intro b hb
    rw [h.heap]
    exact (hmem b hb).imp_right (hc.heap b)
  · intro b hb
    rcases hmem b hb with hn | ho
    · obtain ⟨_, _, _, heq⟩ := h.read b hn
      rw [heq]
      exact List.count_pos_iff.mpr (h.fresh b hn).2
    · rw [h.kept b (hc.heap b ho)]
      exact Nat.le_add_right_of_le (hc.opened b ho)
  · intro b hb
    rcases hmem b hb with hn | ho
    · obtain ⟨no, hno, hdno, heq⟩ := h.read b hn
      simp only [heq, hdno]
      exact hno
    · rw [h.kept b (hc.heap b ho)]
      exact hc.number b ho
  · intro b hb
    rw [hdisk]
    rcases hmem b hb with hn | ho
    · obtain ⟨no, -, hdno, heq⟩ := h.read b hn
      simp only [heq, hdno]
      exact (Inode.Same.refl _).withCnts _
    · rw [h.kept b (hc.heap b ho)]
      exact (hc.same b ho).withCnts _
  · intro g hg b hb
    rw [h.fileTable] at hb
    rw [h.openInodes]
    exact List.mem_append_right _ (hc.files g hg b hb)

theorem Held.cache (h : Held s₀ s held) (hc : Cache s₀) : Cache s :=
  h.elim fun _ h => h.cache hc

/-! ### Opening -/

theorem findOpen_none {inodes : Nat → Inode} : ∀ {l : List Nat}, findOpen inodes no l = none →
    ∀ a ∈ l, (inodes a).iNo.toNat ≠ no := by
  intro l
  induction l with
  | nil => simp
  | cons b l ih =>
      intro h
      rw [findOpen] at h
      by_cases hb : (inodes b).iNo.toNat = no
      · simp [hb] at h
      · rw [if_neg hb] at h
        simpa [hb] using ih h

theorem inodeOpen_hit (h : findOpen s.inodes no s.openInodes = some a) : inodeOpen env no s
    = .ok (a, s.withInode a { s.inodes a with iOpenCnts := (s.inodes a).iOpenCnts + 1 }) := by
  simp only [inodeOpen]
  rw [Prog.bind_of_run (Prog.get_run s)]
  simp only [h]
  rw [Prog.bind_of_run (putInode_run _ _ s)]
  rfl

theorem inodeOpen_miss (hfit : s.part.TableFits) (hno : no < 4096)
    (h : findOpen s.inodes no s.openInodes = none) : inodeOpen env no s
      = .ok (env.newAddr s.heap, s.loaded (env.newAddr s.heap) (diskInode s no)) := by
  obtain ⟨s', hrun, -⟩ := inodeOpen_run env hfit hno h
  rcases inodeOpen_cases hrun with ⟨hmem, hnum, -⟩ | ⟨-, -, rfl⟩
  · exact absurd hnum (findOpen_none h _ hmem)
  · exact hrun

/-- An inode that is open is opened once more. -/
theorem Opened.again (h : Opened s₀ s held new) (ha : a ∈ s.openInodes) :
    Opened s₀ (s.withInode a { s.inodes a with iOpenCnts := (s.inodes a).iOpenCnts + 1 })
      (a :: held) new := by
  have hiNo : ∀ b, ((s.withInode a { s.inodes a with
      iOpenCnts := (s.inodes a).iOpenCnts + 1 }).inodes b).iNo = (s.inodes b).iNo := by
    intro b
    by_cases hba : b = a
    · rw [hba, withInode_self]
    · rw [withInode_ne _ _ _ _ hba]
  refine { h with fresh := ?_, read := ?_, kept := ?_, unique := ?_, held := ?_ }
  · exact fun b hb => ⟨(h.fresh b hb).1, List.mem_cons_of_mem _ (h.fresh b hb).2⟩
  · intro b hb
    obtain ⟨no, hno, hdno, heq⟩ := h.read b hb
    refine ⟨no, hno, hdno, ?_⟩
    by_cases hba : b = a
    · subst hba
      rw [withInode_self, heq, List.count_cons_self]
    · rw [withInode_ne _ _ _ _ hba, heq, List.count_cons_of_ne (Ne.symm hba)]
  · intro b hb
    by_cases hba : b = a
    · subst hba
      rw [withInode_self, h.kept b hb, List.count_cons_self]
      rfl
    · rw [withInode_ne _ _ _ _ hba, h.kept b hb, List.count_cons_of_ne (Ne.symm hba)]
  · intro b hb c hc' hbc
    rw [hiNo, hiNo] at hbc
    exact h.unique b hb c hc' hbc
  · intro b hb
    rcases List.mem_cons.mp hb with rfl | hb
    · exact ha
    · exact h.held b hb

/-- An inode that is not open is read from its slot. -/
theorem Opened.loaded (h : Opened s₀ s held new) (hc : Cache s₀) (hno : no < 4096)
    (hdno : (diskInode s₀ no).iNo.toNat = no) (hfresh : a ∉ s.heap)
    (hmiss : ∀ b ∈ s.openInodes, (s.inodes b).iNo.toNat ≠ no) :
    Opened s₀ (s.loaded a (diskInode s₀ no)) (a :: held) (a :: new) := by
  have hne : ∀ b ∈ s.heap, b ≠ a := fun b hb hba => hfresh (hba ▸ hb)
  have hself : (s.loaded a (diskInode s₀ no)).inodes a
      = { diskInode s₀ no with iOpenCnts := 1 } := withInode_self _ _ _
  have hother : ∀ b ≠ a, (s.loaded a (diskInode s₀ no)).inodes b = s.inodes b :=
    fun b hb => withInode_ne _ _ _ _ hb
  have hcache := h.cache hc
  have hcount : held.count a = 0 :=
    List.count_eq_zero.mpr fun hmem => hfresh (hcache.heap a (h.held a hmem))
  refine { h with openInodes := ?_, heap := ?_, nodup := ?_, fresh := ?_, read := ?_, kept := ?_,
                  unique := ?_, held := ?_ }
  · exact congrArg (a :: ·) h.openInodes
  · intro b
    simp only [Fs.loaded, Finset.mem_insert, h.heap, List.mem_cons, or_assoc]
  · exact List.nodup_cons.mpr ⟨fun hn => hfresh ((h.heap a).mpr (.inl hn)), h.nodup⟩
  · intro b hb
    rcases List.mem_cons.mp hb with rfl | hb
    · exact ⟨fun hold => hfresh ((h.heap b).mpr (.inr hold)), List.mem_cons_self⟩
    · exact ⟨(h.fresh b hb).1, List.mem_cons_of_mem _ (h.fresh b hb).2⟩
  · intro b hb
    rcases List.mem_cons.mp hb with rfl | hb
    · exact ⟨no, hno, hdno, by rw [hself, List.count_cons_self, hcount]⟩
    · obtain ⟨no', hno', hdno', heq⟩ := h.read b hb
      have hba := hne b ((h.heap b).mpr (.inl hb))
      exact ⟨no', hno', hdno', by rw [hother b hba, heq, List.count_cons_of_ne (Ne.symm hba)]⟩
  · intro b hb
    have hba := hne b ((h.heap b).mpr (.inr hb))
    rw [hother b hba, h.kept b hb, List.count_cons_of_ne (Ne.symm hba)]
  · have hnum : ∀ b ∈ s.openInodes, ((s.loaded a (diskInode s₀ no)).inodes a).iNo
        ≠ ((s.loaded a (diskInode s₀ no)).inodes b).iNo := by
      intro b hb heq
      rw [hself, hother b (hne b (hcache.heap b hb))] at heq
      exact hmiss b hb (by rw [← heq]; exact hdno)
    intro b hb c hc' hbc
    rcases List.mem_cons.mp hb with rfl | hb' <;> rcases List.mem_cons.mp hc' with rfl | hc'
    · rfl
    · exact absurd hbc (hnum c hc')
    · exact absurd hbc.symm (hnum b hb')
    · rw [hother b (hne b (hcache.heap b hb')), hother c (hne c (hcache.heap c hc'))] at hbc
      exact h.unique b hb' c hc' hbc
  · intro b hb
    rcases List.mem_cons.mp hb with rfl | hb
    · exact List.mem_cons_self
    · exact List.mem_cons_of_mem _ (h.held b hb)

variable (env) in
/-- `inode_open` of a number whose slot has that number in it. -/
theorem Held.inodeOpen (h : Held s₀ s held) (hc : Cache s₀) (hfit : s₀.part.TableFits)
    (hno : no < 4096) (hdno : (diskInode s₀ no).iNo.toNat = no) :
    ∃ a s', inodeOpen env no s = .ok (a, s') ∧ Held s₀ s' (a :: held) ∧
      Inode.Same (s'.inodes a) (diskInode s₀ no) := by
  obtain ⟨new, h⟩ := h
  have hsame : ∀ {a s'}, Held s₀ s' (a :: held) → (s'.inodes a).iNo.toNat = no →
      Inode.Same (s'.inodes a) (diskInode s₀ no) := by
    intro a s' h' hnum
    obtain ⟨_, h'⟩ := h'
    have := (h'.cache hc).same a (h'.held a List.mem_cons_self)
    rwa [hnum, diskInode_congr h'.disk h'.part] at this
  cases hfind : findOpen s.inodes no s.openInodes with
  | some a =>
      obtain ⟨hmem, hnum⟩ := findOpen_some hfind
      have hheld := h.again hmem
      exact ⟨a, _, inodeOpen_hit hfind, ⟨new, hheld⟩,
        hsame ⟨new, hheld⟩ (by rw [withInode_self]; exact hnum)⟩
  | none =>
      have hheld := h.loaded hc hno hdno (env.newAddr_fresh s.heap) (findOpen_none hfind)
      rw [← diskInode_congr h.disk h.part] at hheld
      refine ⟨_, _, inodeOpen_miss (h.part ▸ hfit) hno hfind, ⟨_, hheld⟩, hsame ⟨_, hheld⟩ ?_⟩
      rw [show (s.loaded (env.newAddr s.heap) (diskInode s no)).inodes (env.newAddr s.heap)
        = { diskInode s no with iOpenCnts := 1 } from withInode_self _ _ _,
        diskInode_congr h.disk h.part]
      exact hdno

/-! ### Closing -/

theorem Held.perm {held' : List Nat} (h : Held s₀ s held) (hp : held.Perm held') :
    Held s₀ s held' := by
  obtain ⟨new, h⟩ := h
  refine ⟨new, { h with fresh := ?_, read := ?_, kept := ?_, held := ?_ }⟩
  · exact fun b hb => ⟨(h.fresh b hb).1, hp.mem_iff.mp (h.fresh b hb).2⟩
  · intro b hb
    rw [← hp.count_eq]
    exact h.read b hb
  · intro b hb
    rw [← hp.count_eq]
    exact h.kept b hb
  · exact fun b hb => h.held b (hp.mem_iff.mpr hb)

theorem decrOpenCnts_eq {cnt : Nat} (h : 1 ≤ cnt) : decrOpenCnts cnt = cnt - 1 :=
  if_neg (by omega)

/-- The last user of an inode closes it. -/
theorem closed_last (h : (s.inodes a).iOpenCnts = 1) : s.closed a
    = { s.withInode a { s.inodes a with iOpenCnts := 0 } with
        openInodes := s.openInodes.erase a, heap := s.heap.erase a } := by
  simp only [Fs.closed, h]
  rfl

/-- A user of an inode that has others closes it. -/
theorem closed_shared (h : 2 ≤ (s.inodes a).iOpenCnts) : s.closed a
    = s.withInode a { s.inodes a with iOpenCnts := (s.inodes a).iOpenCnts - 1 } := by
  have hd : decrOpenCnts (s.inodes a).iOpenCnts = (s.inodes a).iOpenCnts - 1 :=
    decrOpenCnts_eq (by omega)
  simp only [Fs.closed, hd]
  rw [if_neg (by omega)]

theorem count_erase_of_ne {b : Nat} (hba : b ≠ a) : (held.erase a).count b = held.count b :=
  List.count_erase_of_ne (by simpa using hba)

/-- An inode that was read on top and has one user left is dropped. -/
theorem Opened.dropped (h : Opened s₀ s held new) (hc : Cache s₀) (ha : a ∈ new)
    (hcnt : held.count a = 1) :
    Opened s₀ (s.closed a) (held.erase a) (new.erase a) := by
  obtain ⟨no, -, -, heq⟩ := h.read a ha
  rw [closed_last (by rw [heq]; exact hcnt)]
  have hmem : ∀ b ∈ new.erase a, b ≠ a ∧ b ∈ new := fun b hb =>
    h.nodup.mem_erase_iff.mp hb
  have hdone : ∀ b, b ∈ held.erase a → b ≠ a := by
    intro b hb hba
    have : 0 < (held.erase a).count a := List.count_pos_iff.mpr (hba ▸ hb)
    rw [List.count_erase_self] at this
    omega
  refine { h with openInodes := ?_, heap := ?_, nodup := h.nodup.erase a, fresh := ?_, read := ?_,
                  kept := ?_, unique := ?_, held := ?_ }
  · simp only [h.openInodes]
    exact List.erase_append_left _ ha
  · intro b
    simp only [Finset.mem_erase, h.heap]
    rw [h.nodup.mem_erase_iff]
    constructor
    · rintro ⟨hba, hb | hb⟩
      · exact .inl ⟨hba, hb⟩
      · exact .inr hb
    · rintro (⟨hba, hb⟩ | hb)
      · exact ⟨hba, .inl hb⟩
      · exact ⟨h.old_ne ha hb, .inr hb⟩
  · exact fun b hb => ⟨(h.fresh b (hmem b hb).2).1,
      (List.mem_erase_of_ne (hmem b hb).1).mpr (h.fresh b (hmem b hb).2).2⟩
  · intro b hb
    obtain ⟨no, hno, hdno, hb'⟩ := h.read b (hmem b hb).2
    exact ⟨no, hno, hdno, by
      rw [count_erase_of_ne (hmem b hb).1]
      exact (withInode_ne _ _ _ _ (hmem b hb).1).trans hb'⟩
  · intro b hb
    have hba := h.old_ne ha hb
    rw [count_erase_of_ne hba]
    exact (withInode_ne _ _ _ _ hba).trans (h.kept b hb)
  · intro b hb c hc' hbc
    have hopen : ∀ x ∈ s.openInodes.erase a, x ≠ a ∧ x ∈ s.openInodes := fun x hx =>
      (h.cache hc).nodup.mem_erase_iff.mp hx
    obtain ⟨hba, hb⟩ := hopen b hb
    obtain ⟨hca, hc'⟩ := hopen c hc'
    rw [withInode_ne _ _ _ _ hba, withInode_ne _ _ _ _ hca] at hbc
    exact h.unique b hb c hc' hbc
  · exact fun b hb => (List.mem_erase_of_ne (hdone b hb)).mpr
      (h.held b (List.mem_of_mem_erase hb))

/-- An inode that has other users stays. -/
theorem Opened.shared (h : Opened s₀ s held new) (ha : a ∈ held)
    (hnew : a ∈ new → 2 ≤ held.count a) (htwo : 2 ≤ (s.inodes a).iOpenCnts) :
    Opened s₀ (s.closed a) (held.erase a) new := by
  rw [closed_shared htwo]
  have hcnt : 1 ≤ held.count a := List.count_pos_iff.mpr ha
  have hiNo : ∀ b, ((s.withInode a { s.inodes a with
      iOpenCnts := (s.inodes a).iOpenCnts - 1 }).inodes b).iNo = (s.inodes b).iNo := by
    intro b
    by_cases hba : b = a
    · rw [hba, withInode_self]
    · rw [withInode_ne _ _ _ _ hba]
  refine { h with fresh := ?_, read := ?_, kept := ?_, unique := ?_, held := ?_ }
  · intro b hb
    refine ⟨(h.fresh b hb).1, ?_⟩
    by_cases hba : b = a
    · subst hba
      have := hnew hb
      exact List.count_pos_iff.mp (by rw [List.count_erase_self]; omega)
    · exact (List.mem_erase_of_ne hba).mpr (h.fresh b hb).2
  · intro b hb
    obtain ⟨no, hno, hdno, heq⟩ := h.read b hb
    refine ⟨no, hno, hdno, ?_⟩
    by_cases hba : b = a
    · subst hba
      rw [withInode_self, heq, List.count_erase_self]
    · rw [withInode_ne _ _ _ _ hba, heq, count_erase_of_ne hba]
  · intro b hb
    by_cases hba : b = a
    · subst hba
      rw [withInode_self, h.kept b hb, List.count_erase_self]
      simp only [Nat.add_sub_assoc hcnt]
    · rw [withInode_ne _ _ _ _ hba, h.kept b hb, count_erase_of_ne hba]
  · intro b hb c hc' hbc
    rw [hiNo, hiNo] at hbc
    exact h.unique b hb c hc' hbc
  · exact fun b hb => h.held b (List.mem_of_mem_erase hb)

/-- `inode_close` of an inode that is held. -/
theorem Held.closed (h : Held s₀ s held) (hc : Cache s₀) (ha : a ∈ held) :
    Held s₀ (s.closed a) (held.erase a) := by
  obtain ⟨new, h⟩ := h
  have hcnt : 1 ≤ held.count a := List.count_pos_iff.mpr ha
  by_cases hnew : a ∈ new
  · obtain ⟨no, -, -, heq⟩ := h.read a hnew
    by_cases hone : held.count a = 1
    · exact ⟨_, h.dropped hc hnew hone⟩
    · exact ⟨_, h.shared ha (fun _ => by omega) (by rw [heq]; show 2 ≤ held.count a; omega)⟩
  · have hold : a ∈ s₀.openInodes := by
      have := h.held a ha
      rw [h.openInodes, List.mem_append] at this
      exact this.resolve_left hnew
    refine ⟨_, h.shared ha (fun hn => absurd hn hnew) ?_⟩
    rw [h.kept a (hc.heap a hold)]
    have := hc.opened a hold
    show 2 ≤ (s₀.inodes a).iOpenCnts + held.count a
    omega

/-- `dir_close` of a directory that is held. -/
theorem Held.dirClose {d : DirPtr} (h : Held s₀ s (d.opens ++ held)) (hc : Cache s₀) :
    ∃ s', dirClose d s = .ok ((), s') ∧ Held s₀ s' held := by
  cases d with
  | root => exact ⟨s, rfl, h⟩
  | opened a =>
      refine ⟨_, inodeClose_run a s, ?_⟩
      have := h.closed hc (a := a) (by simp [DirPtr.opens])
      simpa [DirPtr.opens] using this

variable (env) in
/-- `dir_open` of a number whose slot has that number in it. -/
theorem Held.dirOpen (h : Held s₀ s held) (hc : Cache s₀) (hfit : s₀.part.TableFits)
    (hno : no < 4096) (hdno : (diskInode s₀ no).iNo.toNat = no) :
    ∃ d s', dirOpen env no s = .ok (d, s') ∧ Held s₀ s' (d.opens ++ held) ∧
      Inode.Same (s'.inodes (d.inode s')) (diskInode s₀ no) := by
  obtain ⟨a, s', hrun, hheld, hsame⟩ := h.inodeOpen env hc hfit hno hdno
  exact ⟨.opened a, s', by rw [ZyOs.dirOpen, Prog.bind_of_run hrun, Prog.pure_run], hheld, hsame⟩

end ZyOs
