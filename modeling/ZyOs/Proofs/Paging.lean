/-
What the code of `kernel/memory.c` reads and writes through the page tables.

The physical memory is frames of 1024 words; `word` is one of them.  A directory is a frame, and
so is a table, and `pageFrame` is the frame a page is mapped to.  An access by an address is an
access to a word of the frame its page is mapped to (`pageWalk_eq`), and a `memset` or `memcpy` of
a page overwrites a frame.  What is written to a frame that is neither the directory nor a table
on the way leaves all pages where they are.
-/
import ZyOs.Proofs.PageTables
import ZyOs.Kernel.AddressSpace

namespace ZyOs

open Library

/-! ### Frames and words -/

/-- The frame an entry names. -/
def frameNo (entry : UInt32) : Nat := entry.toNat / 4096

theorem frameNo_lt (entry : UInt32) : frameNo entry < 2 ^ 20 := by
  have := entry.toNat_lt
  unfold frameNo
  omega

/-- Word `i` of frame `f`. -/
def PhysMem.word (phys : PhysMem) (f i : Nat) : UInt32 := phys (UInt32.ofNat (4096 * f + 4 * i))

/-- The words `lo` to `hi - 1` of frame `f` are overwritten. -/
def PhysMem.write (phys : PhysMem) (f lo hi : Nat) (g : Nat → UInt32) : PhysMem := fun a =>
  if a.toNat % 4 = 0 ∧ a.toNat / 4096 = f ∧ lo ≤ a.toNat % 4096 / 4 ∧ a.toNat % 4096 / 4 < hi then
    g (a.toNat % 4096 / 4)
  else phys a

/-- The frame page `p` is mapped to by the directory in frame `d`. -/
def pageFrame (phys : PhysMem) (d p : Nat) : Option Nat :=
  let pde := phys.word d (p / 1024)
  if isPresent pde then
    let pte := phys.word (frameNo pde) (p % 1024)
    if isPresent pte then some (frameNo pte) else none
  else none

variable {phys : PhysMem} {d f f' g i i' lo hi mid n p : Nat} {w : Nat → UInt32}
  {cr3 vaddr entry : UInt32}

theorem toNat_wordAddr (hf : f < 2 ^ 20) (hi : i < 1024) :
    (UInt32.ofNat (4096 * f + 4 * i)).toNat = 4096 * f + 4 * i := by
  rw [UInt32.toNat_ofNat']
  omega

theorem PhysMem.word_write (hf : f < 2 ^ 20) (hi' : i < 1024) :
    (phys.write f' lo hi w).word f i = if f = f' ∧ lo ≤ i ∧ i < hi then w i else phys.word f i := by
  have hdiv : (4096 * f + 4 * i) / 4096 = f := by omega
  have hmod : (4096 * f + 4 * i) % 4096 / 4 = i := by omega
  have hzero : (4096 * f + 4 * i) % 4 = 0 := by omega
  simp only [PhysMem.word, PhysMem.write, toNat_wordAddr hf hi', hdiv, hmod, hzero, true_and]

theorem PhysMem.word_write_ne (hf : f < 2 ^ 20) (hi' : i < 1024) (hne : f ≠ f') :
    (phys.write f' lo hi w).word f i = phys.word f i := by
  rw [word_write hf hi', if_neg (by simp [hne])]

theorem PhysMem.write_write (h : lo ≤ mid) (h' : mid ≤ hi) :
    (phys.write f lo mid w).write f mid hi w = phys.write f lo hi w := by
  funext a
  unfold PhysMem.write
  by_cases hin : a.toNat % 4 = 0 ∧ a.toNat / 4096 = f ∧ mid ≤ a.toNat % 4096 / 4 ∧
      a.toNat % 4096 / 4 < hi
  · rw [if_pos hin, if_pos ⟨hin.1, hin.2.1, by omega, hin.2.2.2⟩]
  · rw [if_neg hin]
    by_cases hlow : a.toNat % 4 = 0 ∧ a.toNat / 4096 = f ∧ lo ≤ a.toNat % 4096 / 4 ∧
        a.toNat % 4096 / 4 < mid
    · rw [if_pos hlow, if_pos ⟨hlow.1, hlow.2.1, hlow.2.2.1, by omega⟩]
    · rw [if_neg hlow, if_neg fun hc => ?_]
      have hmid : mid ≤ a.toNat % 4096 / 4 := by
        by_contra hlt
        exact hlow ⟨hc.1, hc.2.1, hc.2.2.1, by omega⟩
      exact hin ⟨hc.1, hc.2.1, hmid, hc.2.2.2⟩

theorem PhysMem.write_nil : phys.write f lo lo w = phys := by
  funext a
  unfold PhysMem.write
  exact if_neg fun hc => by omega

theorem PhysMem.write_congr {w' : Nat → UInt32} (h : ∀ k, lo ≤ k → k < hi → w k = w' k) :
    phys.write f lo hi w = phys.write f lo hi w' := by
  funext a
  unfold PhysMem.write
  by_cases hin : a.toNat % 4 = 0 ∧ a.toNat / 4096 = f ∧ lo ≤ a.toNat % 4096 / 4 ∧
      a.toNat % 4096 / 4 < hi
  · rw [if_pos hin, if_pos hin, h _ hin.2.2.1 hin.2.2.2]
  · rw [if_neg hin, if_neg hin]

/-! ### The walk -/

/-- The address of entry `i` of the frame that `entry` names. -/
theorem entryAddr (entry i : UInt32) (hi : i.toNat < 1024) :
    frameOf entry + i * 4 = UInt32.ofNat (4096 * frameNo entry + 4 * i.toNat) := by
  have hlt := entry.toNat_lt
  apply UInt32.toNat_inj.mp
  rw [toNat_wordAddr (frameNo_lt entry) hi, UInt32.toNat_add, UInt32.toNat_mul, frameOf,
    toNat_and_high (k := 12) _ _ (by decide) rfl, frameNo]
  simp only [UInt32.reduceToNat]
  omega

/-- An access by an address is one to the frame its page is mapped to. -/
theorem pageWalk_eq (phys : PhysMem) (cr3 vaddr : UInt32) : pageWalk phys cr3 vaddr
    = (pageFrame phys (frameNo cr3) (vaddr.toNat / 4096)).map
        fun f => UInt32.ofNat (4096 * f + vaddr.toNat % 4096) := by
  have hlt := vaddr.toNat_lt
  have hpde : (vaddr >>> 22).toNat = vaddr.toNat / 4096 / 1024 := by
    rw [toNat_pdeField]
    omega
  have hpte : (vaddr >>> 12 &&& 0x3ff).toNat = vaddr.toNat / 4096 % 1024 := toNat_pteField vaddr
  have hoff : ∀ e : UInt32, frameOf e + (vaddr &&& 0xfff)
      = UInt32.ofNat (4096 * frameNo e + vaddr.toNat % 4096) := by
    intro e
    have he := e.toNat_lt
    apply UInt32.toNat_inj.mp
    rw [UInt32.toNat_add, frameOf, toNat_and_high (k := 12) _ _ (by decide) rfl,
      toNat_and_low (k := 12) _ _ rfl, UInt32.toNat_ofNat', frameNo]
    omega
  unfold pageWalk pageFrame pdeAddr pteAddr
  simp only [entryAddr _ _ (show (vaddr >>> 22).toNat < 1024 by omega),
    entryAddr _ _ (show (vaddr >>> 12 &&& 0x3ff).toNat < 1024 by omega), hpde, hpte, hoff]
  unfold PhysMem.word
  split_ifs <;> rfl

theorem pageFrame_lt (h : pageFrame phys d p = some f) : f < 2 ^ 20 := by
  unfold pageFrame at h
  simp only at h
  split_ifs at h
  exact Option.some.inj h ▸ frameNo_lt _

/-- The directory in frame `d` names itself in its last entry. -/
structure IsDir (phys : PhysMem) (d : Nat) : Prop where
  present : isPresent (phys.word d 1023)
  frame : frameNo (phys.word d 1023) = d

theorem IsDir.lt (h : IsDir phys d) : d < 2 ^ 20 := h.frame ▸ frameNo_lt _

/-- Under the last entry the tables are pages, and the directory is the last of them. -/
theorem IsDir.window (h : IsDir phys d) (hi : i < 1024) :
    pageFrame phys d (1023 * 1024 + i) =
      if isPresent (phys.word d i) then some (frameNo (phys.word d i)) else none := by
  have hdiv : (1023 * 1024 + i) / 1024 = 1023 := by omega
  have hmod : (1023 * 1024 + i) % 1024 = i := by omega
  unfold pageFrame
  simp only [hdiv, hmod, if_pos h.present, h.frame]

theorem IsDir.window_self (h : IsDir phys d) : pageFrame phys d (1023 * 1024 + 1023) = some d := by
  rw [h.window (by omega), if_pos h.present, h.frame]

/-! ### What is written elsewhere -/

/-- A directory that is not written to, nor the table for page `p`. -/
theorem pageFrame_write (hd : d < 2 ^ 20) (hp : p < 2 ^ 20) (hne : d ≠ f)
    (htable : isPresent (phys.word d (p / 1024)) → frameNo (phys.word d (p / 1024)) ≠ f) :
    pageFrame (phys.write f lo hi w) d p = pageFrame phys d p := by
  unfold pageFrame
  simp only [PhysMem.word_write_ne hd (show p / 1024 < 1024 by omega) hne]
  by_cases hpde : isPresent (phys.word d (p / 1024))
  · rw [if_pos hpde, if_pos hpde]
    simp only [PhysMem.word_write_ne (frameNo_lt _) (show p % 1024 < 1024 by omega) (htable hpde)]
  · rw [if_neg hpde, if_neg hpde]

theorem IsDir.write (h : IsDir phys d) (hne : d ≠ f) : IsDir (phys.write f lo hi w) d := by
  have hword : (phys.write f lo hi w).word d 1023 = phys.word d 1023 :=
    PhysMem.word_write_ne h.lt (by omega) hne
  exact ⟨hword.symm ▸ h.present, hword.symm ▸ h.frame⟩

namespace Paged

variable {s s' : PagedMem} {u : UInt32}

/-- Words of a frame are overwritten. -/
def PagedMem.write (s : PagedMem) (f lo hi : Nat) (g : Nat → UInt32) : PagedMem :=
  { s with phys := s.phys.write f lo hi g }

theorem PagedMem.word_write (hf : f < 2 ^ 20) (hi' : i < 1024) :
    (s.write f' lo hi w).phys.word f i
      = if f = f' ∧ lo ≤ i ∧ i < hi then w i else s.phys.word f i :=
  PhysMem.word_write hf hi'

theorem PagedMem.word_write_ne (hf : f < 2 ^ 20) (hi' : i < 1024) (hne : f ≠ f') :
    (s.write f' lo hi w).phys.word f i = s.phys.word f i :=
  PhysMem.word_write_ne hf hi' hne

/-- The frame page `p` of the current address space is mapped to. -/
def PagedMem.frame (s : PagedMem) (p : Nat) : Option Nat := pageFrame s.phys (frameNo s.cr3) p

/-! ### One word -/

theorem loadWord_run (h : s.frame (vaddr.toNat / 4096) = some f) (hal : vaddr.toNat % 4 = 0) :
    loadWord vaddr s = .ok (s.phys.word f (vaddr.toNat % 4096 / 4), s) := by
  rw [loadWord, Prog.bind_of_run (Prog.get_run s), pageWalk_eq,
    show pageFrame s.phys (frameNo s.cr3) (vaddr.toNat / 4096) = some f from h]
  rw [PhysMem.word, show 4 * (vaddr.toNat % 4096 / 4) = vaddr.toNat % 4096 by omega]
  rfl

theorem frame_lt (h : s.frame p = some f) : f < 2 ^ 20 := pageFrame_lt h

theorem storeWord_run (h : s.frame (vaddr.toNat / 4096) = some f) (hal : vaddr.toNat % 4 = 0) :
    storeWord vaddr u s
      = .ok ((), s.write f (vaddr.toNat % 4096 / 4) (vaddr.toNat % 4096 / 4 + 1) fun _ => u) := by
  have hf := frame_lt h
  rw [storeWord, Prog.bind_of_run (Prog.get_run s), pageWalk_eq,
    show pageFrame s.phys (frameNo s.cr3) (vaddr.toNat / 4096) = some f from h]
  have hphys : (fun b => if b = UInt32.ofNat (4096 * f + vaddr.toNat % 4096) then u else s.phys b)
      = s.phys.write f (vaddr.toNat % 4096 / 4) (vaddr.toNat % 4096 / 4 + 1) fun _ => u := by
    funext b
    have hb := b.toNat_lt
    unfold PhysMem.write
    refine if_congr ?_ rfl rfl
    rw [← UInt32.toNat_inj, UInt32.toNat_ofNat']
    omega
  show Except.ok _ = _
  rw [hphys]
  rfl

/-! ### Many words of a page -/

/-- A page whose frame is not on the way to it. -/
structure PagedMem.Writable (s : PagedMem) (p f : Nat) : Prop where
  page : p < 2 ^ 20
  mapped : s.frame p = some f
  dir : frameNo s.cr3 ≠ f
  table : frameNo (s.phys.word (frameNo s.cr3) (p / 1024)) ≠ f

theorem frame_write (hp : p < 2 ^ 20) (hdir : frameNo s.cr3 ≠ f)
    (htable : isPresent (s.phys.word (frameNo s.cr3) (p / 1024)) →
      frameNo (s.phys.word (frameNo s.cr3) (p / 1024)) ≠ f) :
    (s.write f lo hi w).frame p = s.frame p :=
  pageFrame_write (frameNo_lt _) hp hdir htable

theorem PagedMem.Writable.write (h : s.Writable p f) : (s.write f lo hi w).Writable p f where
  page := h.page
  mapped := by rw [frame_write h.page h.dir fun _ => h.table]; exact h.mapped
  dir := h.dir
  table := by
    have hlt : p / 1024 < 1024 := by have := h.page; omega
    show frameNo ((s.phys.write f lo hi w).word (frameNo s.cr3) (p / 1024)) ≠ f
    rw [PhysMem.word_write_ne (frameNo_lt _) hlt h.dir]
    exact h.table

theorem write_write (h : lo ≤ mid) (h' : mid ≤ hi) :
    (s.write f lo mid w).write f mid hi w = s.write f lo hi w := by
  unfold PagedMem.write
  rw [PhysMem.write_write h h']

theorem write_nil : s.write f lo lo w = s := by
  unfold PagedMem.write
  rw [PhysMem.write_nil]

theorem toNat_page_add (hp : p < 2 ^ 20) (hv : vaddr.toNat = 4096 * p + 4 * lo)
    (hlo : lo + 1 < 1024) : (vaddr + 4).toNat = 4096 * p + 4 * (lo + 1) := by
  rw [UInt32.toNat_add, hv]
  simp only [UInt32.reduceToNat]
  omega

/-- `memset` inside of a page. -/
theorem clearWords_run (hpage : s.Writable p f) (hv : vaddr.toNat = 4096 * p + 4 * lo)
    (hle : lo + n ≤ 1024) :
    clearWords n vaddr s = .ok ((), s.write f lo (lo + n) fun _ => 0) := by
  induction n generalizing s vaddr lo with
  | zero =>
      rw [clearWords, Nat.add_zero, write_nil]
      rfl
  | succ n ih =>
      have hp := hpage.page
      have hdiv : vaddr.toNat / 4096 = p := by omega
      have hmod : vaddr.toNat % 4096 / 4 = lo := by omega
      have hstore := storeWord_run (u := 0) (hdiv.symm ▸ hpage.mapped)
        (show vaddr.toNat % 4 = 0 by omega)
      rw [hmod] at hstore
      rw [clearWords, Prog.bind_of_run hstore]
      by_cases hn : n = 0
      · subst hn
        rfl
      · rw [ih hpage.write (toNat_page_add hp hv (by omega))
          (show lo + 1 + n ≤ 1024 by omega), write_write (by omega) (by omega),
          show lo + 1 + n = lo + (n + 1) by omega]

/-- `memcpy` inside of a page, from a page in another frame. -/
theorem copyWords_run {dst src : UInt32} {q : Nat} (hpage : s.Writable p f)
    (hq : q < 2 ^ 20) (hsrc : s.frame q = some g) (hne : g ≠ f)
    (hqtable : frameNo (s.phys.word (frameNo s.cr3) (q / 1024)) ≠ f) {lo' : Nat}
    (hdst : dst.toNat = 4096 * p + 4 * lo) (hs : src.toNat = 4096 * q + 4 * lo')
    (hle : lo + n ≤ 1024) (hle' : lo' + n ≤ 1024) :
    copyWords n dst src s
      = .ok ((), s.write f lo (lo + n) fun k => s.phys.word g (k - lo + lo')) := by
  induction n generalizing s dst src lo lo' with
  | zero =>
      rw [copyWords, Nat.add_zero, write_nil]
      rfl
  | succ n ih =>
      have hp := hpage.page
      have hg := frame_lt hsrc
      have hdiv : dst.toNat / 4096 = p := by omega
      have hmod : dst.toNat % 4096 / 4 = lo := by omega
      have hdiv' : src.toNat / 4096 = q := by omega
      have hmod' : src.toNat % 4096 / 4 = lo' := by omega
      have hload := loadWord_run (hdiv'.symm ▸ hsrc) (show src.toNat % 4 = 0 by omega)
      rw [hmod'] at hload
      have hstore := storeWord_run (u := s.phys.word g lo') (hdiv.symm ▸ hpage.mapped)
        (show dst.toNat % 4 = 0 by omega)
      rw [hmod] at hstore
      rw [copyWords, Prog.bind_of_run hload, Prog.bind_of_run hstore]
      have hfirst : s.write f lo (lo + 1) (fun _ => s.phys.word g lo')
          = s.write f lo (lo + 1) fun k => s.phys.word g (k - lo + lo') := by
        unfold PagedMem.write
        rw [PhysMem.write_congr fun k hk hk' => ?_]
        rw [show k - lo + lo' = lo' by omega]
      rw [hfirst]
      by_cases hn : n = 0
      · subst hn
        rfl
      · rw [ih hpage.write ?_ ?_ (toNat_page_add hp hdst (by omega))
          (toNat_page_add hq hs (by omega)) (by omega) (by omega)]
        · have hrest : (s.write f lo (lo + 1) fun k => s.phys.word g (k - lo + lo')).write f (lo + 1)
              (lo + 1 + n) (fun k => (s.write f lo (lo + 1) fun k =>
                s.phys.word g (k - lo + lo')).phys.word g (k - (lo + 1) + (lo' + 1)))
              = (s.write f lo (lo + 1) fun k => s.phys.word g (k - lo + lo')).write f (lo + 1)
                (lo + 1 + n) fun k => s.phys.word g (k - lo + lo') := by
            unfold PagedMem.write
            dsimp only
            rw [PhysMem.write_congr fun k hk hk' => ?_]
            rw [PhysMem.word_write_ne hg (by omega) hne,
              show k - (lo + 1) + (lo' + 1) = k - lo + lo' by omega]
          rw [hrest, write_write (by omega) (by omega), show lo + 1 + n = lo + (n + 1) by omega]
        · rw [frame_write hq hpage.dir fun _ => hqtable]
          exact hsrc
        · show frameNo ((s.phys.write f lo (lo + 1) _).word (frameNo s.cr3) (q / 1024)) ≠ f
          rw [PhysMem.word_write_ne (frameNo_lt _) (by omega) hpage.dir]
          exact hqtable

end Paged

end ZyOs
