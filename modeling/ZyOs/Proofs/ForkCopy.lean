/-
What `fork` makes of the pages.

`copy_body_stack3` goes through the bits of the parent's addresses.  A page that is marked is
copied into a buffer of the kernel, which both see, and from there, under the child's directory,
into a frame that was nobody's.  `Copying` is the invariant: the pages done so far are there and
hold what the parent's hold, the others are not there, and nobody but the child and the buffer has
changed.
-/
import ZyOs.Proofs.Processes

namespace ZyOs.Paged

open Library Prog

variable {s s' s₀ s₁ s₂ : PagedMem} {dir dir' : Nat → Option Nat}
  {owner owner' owner₁ owner₂ : Nat → Owner} {a b c : Context} {pf : PoolFlag}
  {d f g i k l n p q t u lo child parent : Nat} {vaddr : UInt32} {U H S done done' : Nat → Prop}

/-- Fewer errors are allowed. -/
theorem wp_weaken {α : Type} {x : PagedM α} {Q : α → PagedMem → Prop}
    (h : wp (fun _ => False) x Q s) : wp Halt.PagesShort x Q s := by
  obtain ⟨r, hr⟩ := h.returns
  exact wp_of_run hr (h.of_run hr)

/-! ### Another directory -/

theorem frameNo_ofNat (hd : d < 2 ^ 20) : frameNo (UInt32.ofNat (4096 * d)) = d := by
  rw [frameNo, UInt32.toNat_ofNat']
  omega

theorem Owned.withCr3 (h : Owned s dir owner) (x : UInt32) (u : Nat) :
    Owned { s with cr3 := x, cur := u } dir owner := by
  refine ⟨h.layout, fun pf => ?_, h.low, h.apart, fun pf => ?_, fun b => ?_, fun b => ?_, fun b => ?_,
    h.pgDir, h.thread, h.pcb⟩
  · have hpool := h.pool pf
    cases pf <;> exact hpool
  · have hused := h.used pf
    cases pf <;> exact hused
  · have hhome := h.home b
    cases b <;> exact hhome
  · have hcovers := h.covers b
    cases b <;> exact hcovers
  · have hmarked := h.marked b
    cases b <;> exact hmarked

theorem Keeps.withCr3 (x : UInt32) (u : Nat) :
    Keeps U H s dir { s with cr3 := x, cur := u } dir :=
  ⟨fun _ _ h => h, fun _ _ _ => rfl, fun _ _ _ _ _ => rfl, fun _ _ _ _ _ _ _ _ => rfl,
    fun _ _ _ _ hmap => hmap, fun _ _ _ _ _ hdir => ⟨hdir, fun _ _ => rfl⟩⟩

/-- `page_dir_activate` of a process. -/
theorem pageDirActivate_run (h : Owned s dir owner) (hc : c.directory dir = some (frameNo s.cr3))
    (ht : dir t = some d) :
    pageDirActivate t s = .ok ((), { s with cr3 := UInt32.ofNat (4096 * d) }) := by
  obtain ⟨hne, q, hq, hheap, hmap⟩ := h.pgDir t d ht
  have hprocess : s.IsProcess t := hne
  rw [pageDirActivate, bind_of_run (get_run s), if_pos hprocess,
    bind_of_run (translate_run h hc (.inl rfl) hheap.hasPage hq hmap)]
  rfl

/-! ### One page -/

/-- The pages in `done` have been copied to the child, through page `l`. -/
structure Copying (dir : Nat → Option Nat) (child parent l : Nat) (s₀ : PagedMem) (done : Nat → Prop)
    (s : PagedMem) (owner : Nat → Owner) : Prop where
  owned : Owned s dir owner
  books : Books (fun _ => False) s owner
  keeps : Keeps (· ≠ child) (· = l) s₀ dir s dir
  buffer : ∃ f, s.map dir .kernel l = some f ∧ Layout.Plain dir owner f
  vaddrs : ∀ b, s.vaddrOf b = s₀.vaddrOf b
  pgDir : ∀ t, (s.task t).pgDir = (s₀.task t).pgDir
  tasks : s.tasks = s₀.tasks
  cur : s.cur = s₀.cur
  cr3 : s.cr3 = s₀.cr3
  copied : ∀ p, (Context.process child).HasPage p → done p → ∃ f g,
    s.map dir (.process child) p = some f ∧ s₀.map dir (.process parent) p = some g ∧
      ∀ i < 1024, s.phys.word f i = s₀.phys.word g i
  others : ∀ p, (Context.process child).HasPage p → ¬ done p → s.map dir (.process child) p = none

/-- The table on the way to a page is no plain frame. -/
theorem Owned.table_ne (h : Owned s dir owner) (hc : c.directory dir = some (frameNo s.cr3))
    (hseen : Seen c a) (hp : a.HasPage p) (hmap : s.map dir a p = some f)
    (hplain : Layout.Plain dir owner g) : frameNo (s.phys.word (frameNo s.cr3) (p / 1024)) ≠ g := by
  obtain ⟨d, hd⟩ := directory_seen hc hseen
  rw [PagedMem.map, mapping_of_directory hd] at hmap
  rw [h.layout.word_seen hc hseen hd hp]
  intro heq
  exact hplain.notTable a _ (heq ▸ h.layout.table a d _ hd hp (present_of_pageFrame hmap))

/-- A page is copied to a plain one. -/
theorem copyPage_run {dst src : UInt32} (h : Owned s dir owner)
    (hc : c.directory dir = some (frameNo s.cr3)) (hseen : Seen c a) (hp : a.HasPage p)
    (hmap : s.map dir a p = some f) (hplain : Layout.Plain dir owner f) (hseen' : Seen c b)
    (hq : b.HasPage q) (hmap' : s.map dir b q = some g) (hne : g ≠ f) (hdst : dst.toNat = 4096 * p)
    (hsrc : src.toNat = 4096 * q) :
    copyWords 1024 dst src s = .ok ((), s.write f 0 1024 fun i => s.phys.word g i) := by
  have hrun := copyWords_run (n := 1024) (h.writable hc hseen hp hmap hplain) hq.lt
    ((h.frame hc hseen' hq).trans hmap') hne (h.table_ne hc hseen' hq hmap' hplain)
    (show dst.toNat = 4096 * p + 4 * 0 by omega) (show src.toNat = 4096 * q + 4 * 0 by omega)
    (by omega) (by omega)
  rw [hrun]
  rfl

/-- The parent is running, the child has a directory and takes over the parent's addresses, and
all that is marked among them is there. -/
structure Twins (dir : Nat → Option Nat) (child parent l : Nat) (s₀ : PagedMem) : Prop where
  ne : parent ≠ child
  childDir : ∃ d, dir child = some d
  parentDir : ∃ d, dir parent = some d ∧ s₀.cr3 = UInt32.ofNat (4096 * d)
  buffer : Context.kernel.HeapPage l
  same : s₀.vaddrOf (.process child) = s₀.vaddrOf (.process parent)
  covers : (Context.process parent).Covers (s₀.vaddrOf (.process parent))
  exact : ∀ p, (Context.process parent).HasPage p → (s₀.vaddrOf (.process parent)).Holds p →
    s₀.map dir (.process parent) p ≠ none

/-- `copy_body_stack3`, for one page. -/
theorem copyPage_spec (h : Copying dir child parent l s₀ done s owner)
    (htwins : Twins dir child parent l s₀) (hp : (Context.process child).HeapPage p)
    (hholds : (s₀.vaddrOf (.process parent)).Holds p) (hnot : ¬ done p)
    {bufPage processVaddr : UInt32} (hbuf : bufPage.toNat = 4096 * l)
    (hvaddr : processVaddr.toNat = 4096 * p) :
    wp Halt.PagesShort (copyPage child parent bufPage processVaddr) (fun _ s' => ∃ owner',
      Copying dir child parent l s₀ (fun q => done q ∨ q = p) s' owner') s := by
  have howned := h.owned
  have hpage : ∀ t, (Context.process t).HasPage p := fun t => hp.hasPage
  have hne := htwins.ne
  have hl := htwins.buffer
  obtain ⟨dc, hchild⟩ := htwins.childDir
  obtain ⟨dp, hparent, hactive⟩ := htwins.parentDir
  obtain ⟨g, hmap⟩ := Option.ne_none_iff_exists'.mp (htwins.exact p (hpage parent) hholds)
  rw [← htwins.same] at hholds
  have hdc : dc < 2 ^ 20 := howned.layout.dir_lt (a := .process child) hchild
  have hdp : dp < 2 ^ 20 := howned.layout.dir_lt (a := .process parent) hparent
  have hcr3 : s.cr3 = UInt32.ofNat (4096 * dp) := h.cr3.trans hactive
  have hc : (Context.process parent).directory dir = some (frameNo s.cr3) := by
    rw [hcr3, frameNo_ofNat hdp]
    exact hparent
  obtain ⟨fb, hfb, hplain⟩ := h.buffer
  have hfblt := mapping_lt hfb
  have hmapParent : s.map dir (.process parent) p = some g :=
    (h.keeps.maps parent p hne (by simp [hparent]) (hpage parent)).trans hmap
  have hglt := mapping_lt hmap
  have hgfb : g ≠ fb := by
    rintro rfl
    cases (howned.layout.page_inj (hpage parent) hl.hasPage hmapParent hfb).1
  -- the parent's page is in the buffer
  have hrun₁ := copyPage_run howned hc (.inl rfl) hl.hasPage hfb hplain (.inr rfl) (hpage parent)
    hmapParent hgfb hbuf hvaddr
  obtain ⟨howned₁, hmaps₁⟩ := howned.write hplain 0 1024 fun i => s.phys.word g i
  have hkeeps₁ := Keeps.write howned hl.hasPage hfb hplain 0 1024 fun i => s.phys.word g i
  refine wp_bind (wp_of_run hrun₁ ?_)
  set s₁ := s.write fb 0 1024 fun i => s.phys.word g i with hs₁
  have hword₁ : ∀ i < 1024, s₁.phys.word fb i = s.phys.word g i := by
    intro i hi
    rw [hs₁, PagedMem.word_write hfblt hi, if_pos ⟨rfl, Nat.zero_le i, hi⟩]
  have hc₁ : (Context.process parent).directory dir = some (frameNo s₁.cr3) := hc
  -- the child's directory
  refine wp_bind (wp_of_run (pageDirActivate_run howned₁ hc₁ hchild) ?_)
  have howned₂ := howned₁.withCr3 (UInt32.ofNat (4096 * dc)) s₁.cur
  have hc₂ : (Context.process child).directory dir = some (frameNo (UInt32.ofNat (4096 * dc))) := by
    rw [frameNo_ofNat hdc]
    exact hchild
  set s₂ : PagedMem := { s₁ with cr3 := UInt32.ofNat (4096 * dc) } with hs₂
  have hnone₂ : s₂.map dir (.process child) p = none :=
    (hmaps₁ _ p (hpage child)).trans (h.others p (hpage child) hnot)
  have hholds₂ : (s₂.vaddrOf (.process child)).Holds p := by
    rw [show s₂.vaddrOf (.process child) = s.vaddrOf (.process child) from rfl, h.vaddrs]
    exact hholds
  refine wp_bind (wp_mono (getAPageWithoutOpvaddrbitmap_spec (a := .process child) howned₂ hc₂ (.inr rfl)
    hvaddr hp hnone₂ hholds₂) ?_)
  rintro r s₃ ⟨rfl, owner₃, howned₃, hgrow₃, hvaddr₃, hgained₃, hbooks₃⟩
  obtain ⟨f, hf, hnobody⟩ := hgained₃ p ⟨le_rfl, by omega⟩
  have hflt := mapping_lt hf
  have hc₃ : (Context.process child).directory dir = some (frameNo s₃.cr3) := by
    rw [hgrow₃.cr3]
    exact hc₂
  have hownerfb := howned.layout.page .kernel l fb hl.hasPage hfb
  have hfb₂ : s₂.map dir .kernel l = some fb := (hmaps₁ .kernel l hl.hasPage).trans hfb
  have hfb₃ : s₃.map dir .kernel l = some fb := by
    rw [hgrow₃.maps .kernel l hl.hasPage (by simp)]
    exact hfb₂
  have hplainfb : Layout.Plain dir owner₃ fb := howned₃.plain hl.hasPage hfb₃ hplain.notDir
  have hplainf := howned₃.plain_process (hpage child) hf
  have hfbf : fb ≠ f := by
    rintro rfl
    rw [hownerfb] at hnobody
    cases hnobody
  -- the buffer is in the child's page
  have hrun₄ := copyPage_run howned₃ hc₃ (.inr rfl) (hpage child) hf hplainf (.inl rfl) hl.hasPage hfb₃
    hfbf hvaddr hbuf
  obtain ⟨howned₄, hmaps₄⟩ := howned₃.write hplainf 0 1024 fun i => s₃.phys.word fb i
  have hkeeps₄ := Keeps.write howned₃ (hpage child) hf hplainf 0 1024 fun i => s₃.phys.word fb i
  refine wp_bind (wp_of_run hrun₄ ?_)
  set s₄ := s₃.write f 0 1024 fun i => s₃.phys.word fb i with hs₄
  have hc₄ : (Context.process child).directory dir = some (frameNo s₄.cr3) := hc₃
  refine wp_of_run (pageDirActivate_run howned₄ hc₄ hparent) ⟨owner₃, ?_⟩
  have hkeeps : Keeps (· ≠ child) (· = l) s dir s₄ dir := by
    have h₁ : Keeps (· ≠ child) (· = l) s dir s₁ dir := hkeeps₁.mono (fun _ _ => by simp) fun _ hq => hq.2
    have h₂ : Keeps (· ≠ child) (· = l) s₁ dir s₂ dir := Keeps.withCr3 _ s₁.cur
    have h₃ : Keeps (· ≠ child) (· = l) s₂ dir s₃ dir :=
      (hgrow₃.keeps howned₂ fun q hq => by
        obtain rfl : q = p := by omega
        exact hnone₂).mono (fun u hu => by simpa using Ne.symm hu) fun _ hq => hq.elim
    have h₄ : Keeps (· ≠ child) (· = l) s₃ dir s₄ dir :=
      hkeeps₄.mono (fun u hu => by simpa using Ne.symm hu) fun _ hq => by simp at hq
    exact ((h₁.next h₂).next h₃).next h₄
  have hmapsAll : ∀ q, (Context.process child).HasPage q → q ≠ p →
      s₄.map dir (.process child) q = s.map dir (.process child) q := by
    intro q hq hqp
    rw [hmaps₄ _ q hq, hgrow₃.maps _ q hq fun hc => hqp (by omega)]
    exact hmaps₁ _ q hq
  have hvaddr₄ : ∀ b, s₄.vaddrOf b = s₀.vaddrOf b := by
    intro b
    rw [← h.vaddrs b]
    have hb := hvaddr₃ b
    cases b <;> exact hb
  have hbooks₄ : Books (fun _ => False) s₄ owner₃ := by
    have hbooks₂ : Books (fun _ => False) s₂ owner := h.books.congr fun pf => by cases pf <;> rfl
    exact (hbooks₃ _ hbooks₂).congr fun pf => by cases pf <;> rfl
  refine ⟨howned₄.withCr3 _ s₄.cur, hbooks₄.congr fun pf => by cases pf <;> rfl,
    h.keeps.next (hkeeps.next (Keeps.withCr3 _ s₄.cur)), ?_, ?_, ?_, ?_, ?_, hactive.symm, ?_, ?_⟩
  · exact ⟨fb, (hmaps₄ .kernel l hl.hasPage).trans hfb₃, hplainfb⟩
  · intro b
    rw [← hvaddr₄ b]
    cases b <;> rfl
  · intro t
    exact (hgrow₃.pgDir t).trans (h.pgDir t)
  · exact hgrow₃.tasks.trans h.tasks
  · exact hgrow₃.cur.trans h.cur
  · intro q hq hdone
    by_cases hqp : q = p
    · subst hqp
      refine ⟨f, g, (hmaps₄ _ q hq).trans hf, hmap, fun i hi => ?_⟩
      have hcopy : s₄.phys.word f i = s₃.phys.word fb i := by
        rw [hs₄, PagedMem.word_write hflt hi, if_pos ⟨rfl, Nat.zero_le i, hi⟩]
      have hbuffer : s₃.phys.word fb i = s₂.phys.word fb i :=
        hgrow₃.words .kernel l fb i hownerfb hplain.notDir hfblt hi
      calc s₄.phys.word f i = s₃.phys.word fb i := hcopy
        _ = s₁.phys.word fb i := hbuffer
        _ = s.phys.word g i := hword₁ i hi
        _ = s₀.phys.word g i := h.keeps.words parent q g i hne (hpage parent) hmap hi
    · obtain ⟨fq, gq, hfq, hgq, hwords⟩ := h.copied q hq (hdone.resolve_right hqp)
      have hfq₄ : s₄.map dir (.process child) q = some fq := (hmapsAll q hq hqp).trans hfq
      have hfqlt := mapping_lt hfq
      refine ⟨fq, gq, hfq₄, hgq, fun i hi => ?_⟩
      have hplainq := howned.plain_process hq hfq
      have hne₁ : fq ≠ fb := by
        rintro rfl
        cases (howned.layout.page_inj hq hl.hasPage hfq hfb).1
      have hne₄ : fq ≠ f := by
        rintro rfl
        exact hqp (howned₄.layout.page_inj hq (hpage child) hfq₄ ((hmaps₄ _ p (hpage child)).trans hf)).2
      have hword₄ : s₄.phys.word fq i = s₃.phys.word fq i := by
        rw [hs₄, PagedMem.word_write_ne hfqlt hi hne₄]
      have hword₃ : s₃.phys.word fq i = s₂.phys.word fq i :=
        hgrow₃.words _ q fq i (howned.layout.page _ q fq hq hfq) hplainq.notDir hfqlt hi
      have hword₂ : s₁.phys.word fq i = s.phys.word fq i := by
        rw [hs₁, PagedMem.word_write_ne hfqlt hi hne₁]
      calc s₄.phys.word fq i = s₃.phys.word fq i := hword₄
        _ = s₁.phys.word fq i := hword₃
        _ = s.phys.word fq i := hword₂
        _ = s₀.phys.word gq i := hwords i hi
  · intro q hq hnotq
    exact (hmapsAll q hq fun hqp => hnotq (.inr hqp)).trans (h.others q hq fun hd => hnotq (.inl hd))

/-! ### All pages -/

theorem Copying.congr (h : Copying dir child parent l s₀ done s owner)
    (hdone : ∀ p, done p ↔ done' p) : Copying dir child parent l s₀ done' s owner :=
  ⟨h.owned, h.books, h.keeps, h.buffer, h.vaddrs, h.pgDir, h.tasks, h.cur, h.cr3,
    fun p hp hd => h.copied p hp ((hdone p).mpr hd), fun p hp hd => h.others p hp (mt (hdone p).mp hd)⟩

/-- The marked pages among the first `k`. -/
def UpTo (v : VirtualAddr) (k : Nat) (p : Nat) : Prop :=
  v.vaddrStart / 4096 ≤ p ∧ p < v.vaddrStart / 4096 + k ∧
    v.vaddrBitmap.bitmapScanTest (p - v.vaddrStart / 4096) = true

/-- A bit as the loop looks at it. -/
theorem test_bit {b : Bitmap} (hi : i < 8) :
    bitMask i &&& b.bits k ≠ 0 ↔ b.bitmapScanTest (k * 8 + i) = true := by
  rw [Bitmap.bitmapScanTest, show (k * 8 + i) / 8 = k by omega, show (k * 8 + i) % 8 = i by omega,
    bne_iff_ne, UInt8.and_comm]

theorem upTo_succ {v : VirtualAddr} (hset : v.vaddrBitmap.bitmapScanTest k = true) (p : Nat) :
    UpTo v k p ∨ p = v.vaddrStart / 4096 + k ↔ UpTo v (k + 1) p := by
  unfold UpTo
  constructor
  · rintro (⟨hlow, hhigh, hbit⟩ | rfl)
    · exact ⟨hlow, by omega, hbit⟩
    · refine ⟨by omega, by omega, ?_⟩
      rwa [Nat.add_sub_cancel_left]
  · rintro ⟨hlow, hhigh, hbit⟩
    by_cases hp : p = v.vaddrStart / 4096 + k
    · exact .inr hp
    · exact .inl ⟨hlow, by omega, hbit⟩

/-- Bits that are clear are passed over. -/
theorem upTo_skip {v : VirtualAddr} {m : Nat} (hkm : k ≤ m)
    (hclear : ∀ j, k ≤ j → j < m → v.vaddrBitmap.bitmapScanTest j ≠ true) (p : Nat) :
    UpTo v k p ↔ UpTo v m p := by
  refine ⟨fun ⟨hlow, hhigh, hbit⟩ => ⟨hlow, by omega, hbit⟩, fun ⟨hlow, hhigh, hbit⟩ => ?_⟩
  refine ⟨hlow, ?_, hbit⟩
  by_contra hge
  exact hclear (p - v.vaddrStart / 4096) (by omega) (by omega) hbit

variable {v : VirtualAddr} {bufPage : UInt32}

/-- The inner loop. -/
theorem copyBits_spec (htwins : Twins dir child parent l s₀) (hv : v = s₀.vaddrOf (.process parent))
    (hbuf : bufPage.toNat = 4096 * l) (hk : k < v.vaddrBitmap.bmapBytesLen) (hn : i + n = 8)
    (h : Copying dir child parent l s₀ (UpTo v (k * 8 + i)) s owner) :
    wp Halt.PagesShort (copyBits child parent bufPage v k n i) (fun _ s' => ∃ owner',
      Copying dir child parent l s₀ (UpTo v (k * 8 + 8)) s' owner') s := by
  induction n generalizing s owner i with
  | zero =>
      obtain rfl : i = 8 := by omega
      exact wp_pure ⟨owner, h⟩
  | succ n ih =>
      have hfits : v.Fits := hv ▸ htwins.covers.fits
      have haligned := hfits.aligned
      have htop := hfits.top
      by_cases hbit : bitMask i &&& v.vaddrBitmap.bits k ≠ 0
      · have hset := (test_bit (by omega)).mp hbit
        have hheap := htwins.covers.pages (k * 8 + i) (by rw [← hv]; omega)
        rw [← hv] at hheap
        have hholds : v.Holds (v.vaddrStart / 4096 + (k * 8 + i)) :=
          ⟨(marked_iff_bit hfits (by omega)).mpr hset, by omega⟩
        have hnot : ¬ UpTo v (k * 8 + i) (v.vaddrStart / 4096 + (k * 8 + i)) := fun hc =>
          absurd hc.2.1 (lt_irrefl _)
        have hlt := hheap.hasPage.lt
        have haddr : (UInt32.ofNat ((k * 8 + i) * pageSize + v.vaddrStart)).toNat
            = 4096 * (v.vaddrStart / 4096 + (k * 8 + i)) := by
          rw [UInt32.toNat_ofNat', show pageSize = 4096 from rfl]
          omega
        unfold copyBits
        rw [if_pos hbit]
        refine wp_bind (wp_mono (copyPage_spec h htwins hheap (hv ▸ hholds) hnot hbuf haddr) ?_)
        rintro - s₁ ⟨owner₁, h₁⟩
        exact ih (by omega) (h₁.congr (upTo_succ hset))
      · unfold copyBits
        rw [if_neg hbit]
        refine ih (by omega) (h.congr (upTo_skip (by omega) fun j hj hj' => ?_))
        rw [show j = k * 8 + i by omega]
        exact mt (test_bit (by omega)).mpr hbit

/-- The outer one. -/
theorem copyBytes_spec (htwins : Twins dir child parent l s₀) (hv : v = s₀.vaddrOf (.process parent))
    (hbuf : bufPage.toNat = 4096 * l) (hn : k + n = v.vaddrBitmap.bmapBytesLen)
    (h : Copying dir child parent l s₀ (UpTo v (k * 8)) s owner) :
    wp Halt.PagesShort (copyBytes child parent bufPage v n k) (fun _ s' => ∃ owner',
      Copying dir child parent l s₀ (UpTo v (8 * v.vaddrBitmap.bmapBytesLen)) s' owner') s := by
  induction n generalizing s owner k with
  | zero =>
      rw [← hn, Nat.add_zero, Nat.mul_comm 8 k]
      exact wp_pure ⟨owner, h⟩
  | succ n ih =>
      by_cases hbyte : v.vaddrBitmap.bits k ≠ 0
      · unfold copyBytes
        rw [if_pos hbyte]
        refine wp_bind (wp_mono (copyBits_spec htwins hv hbuf (by omega) (show 0 + 8 = 8 by omega) h) ?_)
        rintro - s₁ ⟨owner₁, h₁⟩
        exact ih (by omega) (Nat.succ_mul k 8 ▸ h₁)
      · unfold copyBytes
        rw [if_neg hbyte]
        refine ih (by omega) (h.congr (upTo_skip (by omega) fun j hj hj' => ?_))
        rw [show j = k * 8 + (j - k * 8) by omega]
        refine mt (test_bit (by omega)).mpr ?_
        rw [not_not.mp hbyte]
        simp

/-- The pages that are marked are all those the loops come to. -/
theorem upTo_all (hv : v.Fits) (p : Nat) :
    UpTo v (8 * v.vaddrBitmap.bmapBytesLen) p ↔ v.Holds p := by
  have haligned := hv.aligned
  constructor
  · rintro ⟨hlow, hhigh, hbit⟩
    have hmarked := (marked_iff_bit hv (i := p - v.vaddrStart / 4096) (by omega)).mpr hbit
    rw [show v.vaddrStart / 4096 + (p - v.vaddrStart / 4096) = p by omega] at hmarked
    exact ⟨hmarked, by omega⟩
  · intro h
    have hhigh := h.high
    obtain ⟨-, hlow, -, -⟩ := h.marked
    have hmarked := h.marked
    rw [show p = v.vaddrStart / 4096 + (p - v.vaddrStart / 4096) by omega,
      marked_iff_bit hv (by omega)] at hmarked
    exact ⟨by omega, by omega, hmarked⟩

/-- `copy_body_stack3` -/
theorem copyBodyStack3_spec (htwins : Twins dir child parent l s₀) (hbuf : bufPage.toNat = 4096 * l)
    (h : Copying dir child parent l s₀ (fun _ => False) s₀ owner) :
    wp Halt.PagesShort (copyBodyStack3 child parent bufPage) (fun _ s' => ∃ owner',
      Copying dir child parent l s₀ (s₀.vaddrOf (.process parent)).Holds s' owner') s₀ := by
  refine wp_get_bind (wp_mono (copyBytes_spec htwins rfl hbuf (Nat.zero_add _)
    (h.congr fun p => ⟨False.elim, fun hc => by have := hc.1; have := hc.2.1; omega⟩)) ?_)
  rintro - s' ⟨owner', h'⟩
  exact ⟨owner', h'.congr fun p => upTo_all htwins.covers.fits p⟩

/-! ### The calls -/

/-- What an address space holds at page `p`. -/
def PagedMem.view (s : PagedMem) (dir : Nat → Option Nat) (a : Context) (p : Nat) :
    Option (Fin 1024 → UInt32) :=
  (s.map dir a p).map fun f i => s.phys.word f i

theorem view_congr (hmap : s'.map dir' b q = s.map dir a p)
    (hwords : ∀ f, s.map dir a p = some f → ∀ i < 1024, s'.phys.word f i = s.phys.word f i) :
    s'.view dir' b q = s.view dir a p := by
  unfold PagedMem.view
  rw [hmap]
  cases hf : s.map dir a p with
  | none => rfl
  | some f =>
      simp only [Option.map_some, Option.some.injEq]
      funext i
      exact hwords f hf i i.isLt

theorem Keeps.view (h : Keeps U H s dir s' dir') (hu : U u) (hdir : dir u ≠ none)
    (hp : (Context.process u).HasPage p) :
    s'.view dir' (.process u) p = s.view dir (.process u) p :=
  view_congr (h.maps u p hu hdir hp) fun f hf i hi => h.words u p f i hu hp hf hi

/-- The child has a space of its own that holds what the parent's does, and nothing else has
changed. -/
structure Forked (s : PagedMem) (dir : Nat → Option Nat) (child parent : Nat) (s' : PagedMem)
    (dir' : Nat → Option Nat) (owner' : Nat → Owner) : Prop where
  owned : Owned s' dir' owner'
  exact : Exact s' dir'
  books : Books (fun _ => False) s' owner'
  own : ∃ d, dir' = Function.update dir child (some d)
  keeps : Keeps (fun _ => True) (fun _ => False) s dir s' dir'
  vaddr : s'.vaddrOf (.process child) = s.vaddrOf (.process parent)
  view : ∀ p, (Context.process child).HasPage p →
    s'.view dir' (.process child) p = s.view dir (.process parent) p
  tasks : s'.tasks = s.tasks
  cur : s'.cur = s.cur
  cr3 : s'.cr3 = s.cr3

/-- `copy_pcb_vaddrbitmap_stack0` -/
theorem copyPcbVaddrbitmapStack0_spec (h : Making s dir child s owner)
    (hc : c.directory dir = some (frameNo s.cr3)) (hroom : s.kernelVaddr.vaddrBitmap.HasRun 23) :
    wp Halt.PagesShort (copyPcbVaddrbitmapStack0 child parent) (fun r s' => r = true ∧ ∃ owner',
      Making s dir child s' owner' ∧
      s'.vaddrOf (.process child) = s.vaddrOf (.process parent)) s := by
  have hpages : bitmapPgCnt = 23 := by decide
  have h₁ := h.withTask (s.task parent)
  refine wp_bind (wp_modify ?_)
  refine wp_bind (wp_mono (getPages_spec (a := .kernel) (n := bitmapPgCnt) h₁.owned (h₁.active hc)
    (.inl rfl) (.inl rfl) (.inr (hpages ▸ hroom))) ?_)
  rintro r s₂ ⟨lo, owner₂, rfl, hgot, -, -⟩
  refine wp_pure ⟨rfl, owner₂, h₁.got hgot, ?_⟩
  rw [hgot.grow.vaddrs (.process child) (by simp)]
  show ((s.withTask child (s.task parent)).task child).userProcessVaddr = _
  rw [task_withTask]
  rfl

/-- The pages of a process have all that `Twins` asks for once its directory is there. -/
theorem Joined.twins {dp : Nat} (hjoin : Joined s dir child s' dir' owner')
    (hparent : dir parent = some dp) (hcr3 : s.cr3 = UInt32.ofNat (4096 * dp))
    (hl : Context.kernel.HeapPage l)
    (hvaddr : s'.vaddrOf (.process child) = s.vaddrOf (.process parent)) :
    Twins dir' child parent l s' := by
  have hne : parent ≠ child := by
    rintro rfl
    rw [hjoin.new] at hparent
    cases hparent
  have hdir := hjoin.keeps.dirs parent dp hparent
  have hsame := hjoin.keeps.vaddr parent trivial (by simp [hparent])
  obtain ⟨dc, hown⟩ := hjoin.own
  refine ⟨hne, ⟨dc, ?_⟩, ⟨dp, hdir, hjoin.cr3.trans hcr3⟩, hl, hvaddr.trans hsame.symm, ?_, ?_⟩
  · rw [hown, Function.update_self]
  · exact hjoin.owned.covers (.process parent) dp hdir
  · intro p hp hholds
    refine hjoin.exact (.process parent) p ?_ ?_ hp hholds
    · simp [hne]
    · rw [show (Context.process parent).directory dir' = some dp from hdir]
      exact Option.some_ne_none dp

/-- Nothing has been copied yet. -/
theorem Joined.copying (hjoin : Joined s dir child s' dir' owner') (hl : Context.kernel.HeapPage l)
    (hmap : s.map dir .kernel l = some f) (hnot : ∀ t, dir t ≠ some f) :
    Copying dir' child parent l s' (fun _ => False) s' owner' := by
  have hmap' := hjoin.keeps.kernel l f hl (fun h => h) hmap
  have hnot' := (hjoin.keeps.heap l f hl (fun h => h) hmap hnot).1
  exact ⟨hjoin.owned, hjoin.books, .refl, ⟨f, hmap', hjoin.owned.plain hl.hasPage hmap' hnot'⟩, fun _ => rfl,
    fun _ => rfl, rfl, rfl, rfl, fun _ _ hd => hd.elim, fun p hp _ => hjoin.empty p hp⟩

/-- When all is copied, all that is marked is there. -/
theorem Copying.exact (h : Copying dir child parent l s₀ (s₀.vaddrOf (.process parent)).Holds s owner)
    (htwins : Twins dir child parent l s₀) (h₀ : Owned s₀ dir owner₁)
    (hexact : ∀ (a : Context) p, a ≠ .process child → a.directory dir ≠ none → a.HasPage p →
      (s₀.vaddrOf a).Holds p → s₀.map dir a p ≠ none) : Exact s dir := by
  intro a p ha hp hholds
  rw [h.vaddrs] at hholds
  by_cases hchild : a = .process child
  · subst hchild
    rw [htwins.same] at hholds
    obtain ⟨f, g, hf, -⟩ := h.copied p hp hholds
    rw [hf]
    exact Option.some_ne_none f
  · have hold := hexact a p hchild ha hp hholds
    obtain ⟨f, hf⟩ := Option.ne_none_iff_exists'.mp hold
    cases a with
    | kernel =>
        by_cases hpl : p = l
        · subst hpl
          obtain ⟨g, hg, -⟩ := h.buffer
          rw [hg]
          exact Option.some_ne_none g
        · have hheap := h₀.heapPage_of_holds (a := .kernel) rfl hholds
          rw [h.keeps.kernel p f hheap hpl hf]
          exact Option.some_ne_none f
    | process u =>
        have hne : u ≠ child := by
          rintro rfl
          exact hchild rfl
        rw [h.keeps.maps u p hne ha hp]
        exact hold

/-- The child holds what the parent does. -/
theorem Copying.view (h : Copying dir child parent l s₀ (s₀.vaddrOf (.process parent)).Holds s owner)
    (h₀ : Owned s₀ dir owner₁) (hp : (Context.process child).HasPage p) :
    s.view dir (.process child) p = s₀.view dir (.process parent) p := by
  by_cases hholds : (s₀.vaddrOf (.process parent)).Holds p
  · obtain ⟨f, g, hf, hg, hwords⟩ := h.copied p hp hholds
    unfold PagedMem.view
    rw [hf, hg]
    simp only [Option.map_some, Option.some.injEq]
    funext i
    exact hwords i i.isLt
  · have hnone : s₀.map dir (.process parent) p = none := by
      by_contra hsome
      obtain ⟨f, hf⟩ := Option.ne_none_iff_exists'.mp hsome
      have hlt : p / 1024 < 768 := hp
      exact hholds (h₀.marked (.process parent) p f (show p < 768 * 1024 by omega) hf)
    unfold PagedMem.view
    rw [h.others p hp hholds, hnone]
    rfl

/-- The buffer is given back. -/
theorem Copying.mayFree (h : Copying dir' child parent l s₀ done s owner) (hl : Context.kernel.HeapPage l)
    (hnot : ∀ t, t ∈ s₀.tasks ∨ dir' t ≠ none → t ≠ 4096 * l) : MayFreeAll s dir' .kernel l 1 := by
  intro q hq
  obtain rfl : q = l := by omega
  obtain ⟨f, hf, hplain⟩ := h.buffer
  refine ⟨f, hl, hf, hplain.notDir, fun _ t ht => hnot t ?_⟩
  rwa [h.tasks] at ht

/-- `copy_process` -/
theorem copyProcess_spec {dp : Nat} (h : Making s dir child s₁ owner₁) (hparent : dir parent = some dp)
    (hcr3 : s.cr3 = UInt32.ofNat (4096 * dp)) (hroom : s₁.kernelVaddr.vaddrBitmap.HasRun 24) :
    wp Halt.PagesShort (copyProcess child parent) (fun r s' => r = true ∧ ∃ dir' owner',
      Forked s₁ dir child parent s' dir' owner') s₁ := by
  have hdp : dp < 2 ^ 20 := h.owned.layout.dir_lt (a := .process parent) hparent
  have hcr3₁ : s₁.cr3 = UInt32.ofNat (4096 * dp) := h.cr3.trans hcr3
  have hc : (Context.process parent).directory dir = some (frameNo s₁.cr3) := by
    rw [hcr3₁, frameNo_ofNat hdp]
    exact hparent
  have hfits := (h.owned.covers .kernel 256 rfl).fits
  -- the buffer
  refine wp_bind (wp_mono (getPages_spec (a := .kernel) (n := 1) h.owned hc (.inl rfl) (.inl rfl)
    (.inl rfl)) ?_)
  rintro r s₂ ⟨l, owner₂, rfl, hgot, hfull, -⟩
  have hin : From l 1 l := ⟨le_rfl, by omega⟩
  have hheap := hgot.heap l hin
  have hlt := hheap.hasPage.lt
  have hbuf : (UInt32.ofNat (4096 * l)).toNat = 4096 * l := by
    rw [UInt32.toNat_ofNat']
    omega
  obtain ⟨f, hf, hnobody⟩ := hgot.gained l hin
  have hnotDir : ∀ t, dir t ≠ some f := fun t ht =>
    h.owned.layout.owner_directory (a := .process t) ht hnobody
  obtain ⟨hnoTask, hnoDir⟩ := h.owned.no_task hheap (hgot.free l hin)
  have hroom₂ : s₂.kernelVaddr.vaddrBitmap.HasRun 23 :=
    hasRun_after_first hfits hroom hgot.takes (hfull rfl)
  have h₂ := (h.got hgot).rebase
  have hc₂ : (Context.process parent).directory dir = some (frameNo s₂.cr3) := by
    rw [hgot.grow.cr3]
    exact hc
  -- the child's record, and its directory
  refine wp_bind (wp_mono (copyPcbVaddrbitmapStack0_spec h₂ hc₂ hroom₂) ?_)
  rintro r s₃ ⟨rfl, owner₃, h₃, hvaddr₃⟩
  have hcovers : (Context.process child).Covers (s₃.task child).userProcessVaddr := by
    rw [show (s₃.task child).userProcessVaddr = _ from hvaddr₃]
    have hcovers₂ := h₂.owned.covers (.process parent) dp hparent
    exact ⟨hcovers₂.fits, hcovers₂.pages⟩
  refine wp_bind (wp_mono (createPageDir_join h₃ hc₂ hcovers) ?_)
  rintro pgDir s₄ ⟨hne, dir', owner₅, hjoin, hvaddr₅⟩
  refine wp_bind (wp_modify ?_)
  rw [if_neg hne]
  generalize s₄.withTask child { s₄.task child with pgDir := pgDir } = s₅ at hjoin hvaddr₅ ⊢
  -- the pages
  have htwins := hjoin.twins hparent (hgot.grow.cr3.trans hcr3₁) hheap (hvaddr₅.trans hvaddr₃)
  refine wp_bind (wp_mono (copyBodyStack3_spec htwins hbuf (hjoin.copying hheap hf hnotDir)) ?_)
  rintro - s₆ ⟨owner₆, hcopy⟩
  have hparent' := hjoin.keeps.dirs parent dp hparent
  have hc₆ : (Context.process parent).directory dir' = some (frameNo s₆.cr3) := by
    rw [hcopy.cr3, hjoin.cr3, hgot.grow.cr3, hcr3₁, frameNo_ofNat hdp]
    exact hparent'
  have hfree : MayFreeAll s₆ dir' .kernel l 1 := by
    refine hcopy.mayFree hheap ?_
    rintro t (ht | ht) rfl
    · rw [hjoin.tasks, hgot.grow.tasks] at ht
      exact hnoTask ht
    · obtain ⟨d, hown⟩ := hjoin.own
      rw [hown] at ht
      by_cases htc : 4096 * l = child
      · obtain ⟨q, hq, -, hqmap⟩ := h.pcb
        rw [show q = l by omega] at hqmap
        exact hqmap (hgot.free l hin)
      · rw [Function.update_of_ne htc] at ht
        exact ht hnoDir
  have hspec := mfreePage_spec (a := .kernel) (n := 1) hcopy.owned hc₆ (.inl rfl) (.inl rfl) hbuf
    (by omega) hfree
  refine wp_bind (wp_mono (wp_weaken hspec) ?_)
  rintro - s₇ ⟨owner₇, hlost⟩
  have hkeeps₂ : Keeps (fun _ => True) (fun _ => False) s₁ dir s₂ dir :=
    (hgot.keeps h.owned).mono (fun _ _ => by simp) fun _ hp => hp
  have hkeeps₅ := hkeeps₂.next hjoin.keeps
  have hkeeps₇ : Keeps (· ≠ child) (· = l) s₅ dir' s₇ dir' :=
    hcopy.keeps.next ((hlost.keeps hcopy.owned).mono (fun _ _ => by simp) fun q hq => by omega)
  refine wp_pure ⟨rfl, dir', owner₇, hlost.owned, ?_, hlost.books _ hcopy.books, hjoin.own, ?_, ?_, ?_, ?_, ?_, ?_⟩
  · exact hlost.exact (hcopy.exact htwins hjoin.owned hjoin.exact)
  · refine hkeeps₅.trans hkeeps₇ ?_ ?_
    · rintro u - hu rfl
      exact hu h.new
    · rintro p - hp rfl
      exact hp (hgot.free p hin)
  · rw [hlost.shrink.vaddrs (.process child) (by simp), hcopy.vaddrs, htwins.same]
    exact hkeeps₅.vaddr parent trivial (by simp [hparent])
  · intro p hp
    have hchild : s₇.view dir' (.process child) p = s₆.view dir' (.process child) p := by
      have hdir : dir' child ≠ none := by
        obtain ⟨d, hd⟩ := htwins.childDir
        simp [hd]
      exact ((hlost.keeps hcopy.owned).mono (fun u (_ : True) => by simp) fun _ hq => hq).view
        trivial hdir hp
    rw [hchild, hcopy.view hjoin.owned hp]
    exact hkeeps₅.view trivial (by simp [hparent]) hp
  · rw [hlost.shrink.tasks, hcopy.tasks, hjoin.tasks, hgot.grow.tasks]
  · rw [hlost.shrink.cur, hcopy.cur, hjoin.cur, hgot.grow.cur]
  · rw [hlost.shrink.cr3, hcopy.cr3, hjoin.cr3, hgot.grow.cr3]

/-- `sys_fork`, when the pages do not run short. -/
theorem sysFork_spec {dp : Nat} (h : Owned s dir owner) (hexact : Exact s dir)
    (hbooks : Books (fun _ => False) s owner) (hparent : dir s.cur = some dp) (hcr3 : s.cr3 = UInt32.ofNat (4096 * dp))
    (hroom : s.kernelVaddr.vaddrBitmap.HasRun 25) :
    wp Halt.PagesShort sysFork (fun r s' => ∃ child dir' owner' s₁, r = some child ∧
      child ∉ s.tasks ∧ dir child = none ∧ Forked s dir child s.cur s₁ dir' owner' ∧
      s' = { s₁ with tasks := s₁.tasks ++ [child] }) s := by
  have hdp : dp < 2 ^ 20 := h.layout.dir_lt (a := .process s.cur) hparent
  have hc : (Context.process s.cur).directory dir = some (frameNo s.cr3) := by
    rw [hcr3, frameNo_ofNat hdp]
    exact hparent
  have hfits := (h.covers .kernel 256 rfl).fits
  refine wp_get_bind (wp_bind (wp_mono (getPages_spec (a := .kernel) (n := 1) h hc (.inl rfl) (.inl rfl)
    (.inl rfl)) ?_))
  rintro r s₁ ⟨l, owner₁, rfl, hgot, hfull, -⟩
  have hlt := (hgot.heap l ⟨le_rfl, by omega⟩).hasPage.lt
  have hv : (UInt32.ofNat (4096 * l)).toNat = 4096 * l := by
    rw [UInt32.toNat_ofNat']
    omega
  have hm := Making.start h hexact hbooks hgot
  have hprocess : s₁.IsProcess s.cur := by
    unfold PagedMem.IsProcess
    rw [hgot.grow.pgDir]
    exact (h.pgDir s.cur dp hparent).1
  refine wp_bind (wp_of_run (get_run s₁) ?_)
  refine wp_bind (wp_of_run (assertPaged_pos hprocess _ _) ?_)
  simp only [hv]
  refine wp_bind (wp_mono (copyProcess_spec hm hparent hcr3
    (hasRun_after_first hfits hroom hgot.takes (hfull rfl))) ?_)
  rintro r s₂ ⟨rfl, dir', owner', hfork⟩
  have hkeeps : Keeps (fun _ => True) (fun _ => False) s dir s₁ dir := hm.keeps
  refine wp_bind (wp_modify (wp_pure ⟨_, dir', owner', s₂, rfl, hm.notTask, hm.new, ?_, rfl⟩))
  refine ⟨hfork.owned, hfork.exact, hfork.books, hfork.own, hkeeps.next hfork.keeps, ?_, ?_, ?_, ?_, ?_⟩
  · rw [hfork.vaddr]
    exact hkeeps.vaddr s.cur trivial (by simp [hparent])
  · intro p hp
    rw [hfork.view p hp]
    exact hkeeps.view trivial (by simp [hparent]) hp
  · rw [hfork.tasks, hm.tasks]
  · rw [hfork.cur, hm.cur]
  · rw [hfork.cr3, hm.cr3]

end ZyOs.Paged
