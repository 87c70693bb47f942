/-
What the page tables in memory say, for all address spaces at once.

The kernel's half of the addresses is one space, and the user's half is one for every process.
A space has entries in a directory, tables and pages.  Every frame of the memory has one owner:
nobody, the loader, or one table or one page of one space.  `Layout` says that the entries of all
directories agree with that, so a frame is never in two places.  The code changes the tables in
four ways, and each keeps the layout: it fills an entry of a table (`Layout.enter`), clears one
(`Layout.clear`), adds a table (`Layout.addTable`) and makes a page a directory (`Layout.addDir`).
-/
import ZyOs.Proofs.Paging

namespace ZyOs

open Library

namespace Context

/-- The entries of a directory that are about a space; the last one is the directory itself. -/
def HasEntry : Context → Nat → Prop
  | .kernel, i => 768 ≤ i ∧ i < 1023
  | .process _, i => i < 768

/-- The pages of a space. -/
def HasPage (a : Context) (p : Nat) : Prop := a.HasEntry (p / 1024)

/-- The directory: that of the loader serves for the kernel. -/
def directory (dir : Nat → Option Nat) : Context → Option Nat
  | .kernel => some 256
  | .process t => dir t

theorem HasEntry.lt {a : Context} {i : Nat} (h : a.HasEntry i) : i < 1023 := by
  cases a with
  | kernel => exact h.2
  | process t =>
      have hlt : i < 768 := h
      omega

end Context

namespace Paged

/-- Whose a frame is. -/
inductive Owner where
  | nobody
  /-- the loader's directory -/
  | loader
  | table (a : Context) (i : Nat)
  | page (a : Context) (p : Nat)
deriving DecidableEq

/-- It has been given to a space. -/
def Owner.Given : Owner → Prop
  | .nobody | .loader => False
  | .table _ _ | .page _ _ => True

@[simp] theorem Owner.given_table {a : Context} {i : Nat} : (Owner.table a i).Given := trivial

@[simp] theorem Owner.given_page {a : Context} {p : Nat} : (Owner.page a p).Given := trivial

/-- The frame of page `p` of a space. -/
def mapping (phys : PhysMem) (dir : Nat → Option Nat) (a : Context) (p : Nat) : Option Nat :=
  (a.directory dir).bind fun d => pageFrame phys d p

/-- The entries of all directories and tables agree with whose the frames are. -/
structure Layout (phys : PhysMem) (dir : Nat → Option Nat) (owner : Nat → Owner) : Prop where
  loader : owner 256 = .loader
  kernelPde : ∀ i, 768 ≤ i → i < 1023 → isPresent (phys.word 256 i)
  isDir : ∀ (a : Context) d, a.directory dir = some d → IsDir phys d
  dirOwner : ∀ t d, dir t = some d → ∃ q, owner d = .page .kernel q
  dirInj : ∀ t u d, dir t = some d → dir u = some d → t = u
  share : ∀ t d i, dir t = some d → 768 ≤ i → i < 1023 → phys.word d i = phys.word 256 i
  table : ∀ (a : Context) d i, a.directory dir = some d → a.HasEntry i → isPresent (phys.word d i) →
    owner (frameNo (phys.word d i)) = .table a i
  tableOf : ∀ a i f, owner f = .table a i → ∃ d, a.directory dir = some d ∧ a.HasEntry i ∧
    isPresent (phys.word d i) ∧ frameNo (phys.word d i) = f
  page : ∀ (a : Context) p f, a.HasPage p → mapping phys dir a p = some f → owner f = .page a p
  pageOf : ∀ a p f, owner f = .page a p → a.HasPage p ∧ mapping phys dir a p = some f

variable {phys phys' : PhysMem} {dir dir' : Nat → Option Nat} {owner owner' : Nat → Owner}
  {a b : Context} {d d' f g i k p q t u : Nat} {e entry : UInt32}

/-! ### One table entry -/

theorem pageFrame_of_present (hpde : isPresent (phys.word d (p / 1024))) :
    pageFrame phys d p =
      if isPresent (phys.word (frameNo (phys.word d (p / 1024))) (p % 1024)) then
        some (frameNo (phys.word (frameNo (phys.word d (p / 1024))) (p % 1024)))
      else none := by
  unfold pageFrame
  simp only [if_pos hpde]

theorem pageFrame_of_absent (hpde : ¬ isPresent (phys.word d (p / 1024))) :
    pageFrame phys d p = none := by
  unfold pageFrame
  simp only [if_neg hpde]

theorem present_of_pageFrame (h : pageFrame phys d p = some f) :
    isPresent (phys.word d (p / 1024)) := by
  by_contra hpde
  rw [pageFrame_of_absent hpde] at h
  cases h

/-- Two directories that agree about the table have the same page there. -/
theorem pageFrame_congr (h : phys.word d (p / 1024) = phys.word d' (p / 1024)) :
    pageFrame phys d p = pageFrame phys d' p := by
  unfold pageFrame
  simp only [h]

/-- Two memories that agree about the entry of the directory and that of the table. -/
theorem pageFrame_congr_mem (hpde : phys'.word d (p / 1024) = phys.word d (p / 1024))
    (hpte : isPresent (phys.word d (p / 1024)) →
      phys'.word (frameNo (phys.word d (p / 1024))) (p % 1024)
        = phys.word (frameNo (phys.word d (p / 1024))) (p % 1024)) :
    pageFrame phys' d p = pageFrame phys d p := by
  by_cases hpresent : isPresent (phys.word d (p / 1024))
  · rw [pageFrame_of_present (hpde ▸ hpresent), pageFrame_of_present hpresent, hpde, hpte hpresent]
  · rw [pageFrame_of_absent (hpde ▸ hpresent), pageFrame_of_absent hpresent]

theorem mapping_of_directory (h : a.directory dir = some d) :
    mapping phys dir a p = pageFrame phys d p := by
  rw [mapping, h]
  rfl

theorem directory_of_mapping (h : mapping phys dir a p = some f) :
    ∃ d, a.directory dir = some d ∧ pageFrame phys d p = some f :=
  Option.bind_eq_some_iff.mp h

theorem mapping_lt (h : mapping phys dir a p = some f) : f < 2 ^ 20 := by
  obtain ⟨d, -, hframe⟩ := directory_of_mapping h
  exact pageFrame_lt hframe

/-- The one entry of frame `f` with number `k` becomes `e`. -/
abbrev setWord (phys : PhysMem) (f k : Nat) (e : UInt32) : PhysMem :=
  phys.write f k (k + 1) fun _ => e

theorem word_setWord (hf : f < 2 ^ 20) (hi : i < 1024) :
    (setWord phys g k e).word f i = if f = g ∧ i = k then e else phys.word f i := by
  rw [PhysMem.word_write hf hi]
  refine if_congr ?_ rfl rfl
  omega

namespace Layout

/-! ### What it says -/

theorem dir_lt (h : Layout phys dir owner) (ha : a.directory dir = some d) : d < 2 ^ 20 :=
  (h.isDir a d ha).lt

/-- A frame has one place. -/
theorem page_inj (h : Layout phys dir owner) (ha : a.HasPage p) (hb : b.HasPage q)
    (hp : mapping phys dir a p = some f) (hq : mapping phys dir b q = some f) : a = b ∧ p = q := by
  have howner := (h.page a p f ha hp).symm.trans (h.page b q f hb hq)
  cases howner
  exact ⟨rfl, rfl⟩

/-- The kernel's half is there under every directory. -/
theorem pageFrame_kernel (h : Layout phys dir owner) (ha : a.directory dir = some d)
    (hp : Context.kernel.HasPage p) : pageFrame phys d p = mapping phys dir .kernel p := by
  rw [mapping_of_directory (a := .kernel) (d := 256) rfl]
  cases a with
  | kernel =>
      cases ha
      rfl
  | process t => exact pageFrame_congr (h.share t d _ ha hp.1 hp.2)

/-- The table for an entry of the space, and it is no directory. -/
theorem table_ne_dir (h : Layout phys dir owner) (ha : a.directory dir = some d)
    (hi : a.HasEntry i) (hpde : isPresent (phys.word d i)) (hb : b.directory dir = some d') :
    d' ≠ frameNo (phys.word d i) := by
  intro hc
  have howner := h.table a d i ha hi hpde
  rw [← hc] at howner
  cases b with
  | kernel =>
      cases hb
      rw [h.loader] at howner
      cases howner
  | process u =>
      obtain ⟨q, hq⟩ := h.dirOwner u d' hb
      rw [hq] at howner
      cases howner

/-- Tables of different entries are different. -/
theorem table_inj (h : Layout phys dir owner) (ha : a.directory dir = some d) (hi : a.HasEntry i)
    (hpde : isPresent (phys.word d i)) (hb : b.directory dir = some d') (hk : b.HasEntry k)
    (hpde' : isPresent (phys.word d' k))
    (heq : frameNo (phys.word d i) = frameNo (phys.word d' k)) : a = b ∧ i = k := by
  have howner := h.table a d i ha hi hpde
  rw [heq, h.table b d' k hb hk hpde'] at howner
  cases howner
  exact ⟨rfl, rfl⟩

/-- Two memories that agree where directories and tables are. -/
theorem mapping_congr (h : Layout phys dir owner)
    (hdir : ∀ (a : Context) d i, a.directory dir = some d → i < 1024 → phys'.word d i = phys.word d i)
    (htable : ∀ f i b k, owner f = .table b k → f < 2 ^ 20 → i < 1024 →
      phys'.word f i = phys.word f i) (ha : a.HasPage p) :
    mapping phys' dir a p = mapping phys dir a p := by
  cases hd : a.directory dir with
  | none =>
      unfold mapping
      rw [hd]
      rfl
  | some d =>
      have hlt := Context.HasEntry.lt ha
      rw [mapping_of_directory hd, mapping_of_directory hd]
      refine pageFrame_congr_mem (hdir a d _ hd (by omega)) fun hpde => ?_
      exact htable _ _ a (p / 1024) (h.table a d _ hd ha hpde) (frameNo_lt _)
        (Nat.mod_lt _ (by decide))

/-- What is written to other frames is no matter. -/
theorem congr (h : Layout phys dir owner)
    (hdir : ∀ (a : Context) d i, a.directory dir = some d → i < 1024 → phys'.word d i = phys.word d i)
    (htable : ∀ f i b k, owner f = .table b k → f < 2 ^ 20 → i < 1024 →
      phys'.word f i = phys.word f i) : Layout phys' dir owner where
  loader := h.loader
  kernelPde i hi hi' := by
    rw [hdir .kernel 256 i rfl (by omega)]
    exact h.kernelPde i hi hi'
  isDir a d ha := by
    have hword := hdir a d 1023 ha (by omega)
    have hd := h.isDir a d ha
    exact ⟨hword.symm ▸ hd.present, hword.symm ▸ hd.frame⟩
  dirOwner := h.dirOwner
  dirInj := h.dirInj
  share t d i ht hi hi' := by
    rw [hdir (.process t) d i ht (by omega), hdir .kernel 256 i rfl (by omega)]
    exact h.share t d i ht hi hi'
  table a d i ha hi hpde := by
    have hlt := hi.lt
    rw [hdir a d i ha (by omega)] at hpde ⊢
    exact h.table a d i ha hi hpde
  tableOf a i f hf := by
    obtain ⟨d, hd, hi, hpde⟩ := h.tableOf a i f hf
    have hlt := hi.lt
    rw [← hdir a d i hd (by omega)] at hpde
    exact ⟨d, hd, hi, hpde⟩
  page a p f ha hp := h.page a p f ha ((h.mapping_congr hdir htable ha).symm.trans hp)
  pageOf a p f hf := by
    obtain ⟨hp, hmap⟩ := h.pageOf a p f hf
    exact ⟨hp, (h.mapping_congr hdir htable hp).trans hmap⟩

/-! ### A frame that is neither a directory nor a table -/

/-- `f` holds no directory and no table. -/
structure Plain (dir : Nat → Option Nat) (owner : Nat → Owner) (f : Nat) : Prop where
  notLoader : owner f ≠ .loader
  notTable : ∀ b k, owner f ≠ .table b k
  notDir : ∀ t, dir t ≠ some f

theorem Plain.ne_directory (hf : Plain dir owner f) (h : Layout phys dir owner)
    (ha : a.directory dir = some d) : d ≠ f := by
  rintro rfl
  cases a with
  | kernel =>
      cases ha
      exact hf.notLoader h.loader
  | process t => exact hf.notDir t ha

/-- A plain frame is overwritten. -/
theorem write (h : Layout phys dir owner) (hf : Plain dir owner f) (lo hi : Nat)
    (w : Nat → UInt32) : Layout (phys.write f lo hi w) dir owner ∧
      ∀ (b : Context) q, b.HasPage q → mapping (phys.write f lo hi w) dir b q = mapping phys dir b q := by
  have hdir : ∀ (b : Context) d i, b.directory dir = some d → i < 1024 →
      (phys.write f lo hi w).word d i = phys.word d i := by
    intro b d i hb hi
    exact PhysMem.word_write_ne (h.dir_lt hb) hi (hf.ne_directory h hb)
  have htable : ∀ g i b k, owner g = .table b k → g < 2 ^ 20 → i < 1024 →
      (phys.write f lo hi w).word g i = phys.word g i := by
    intro g i b k hg hlt hi
    refine PhysMem.word_write_ne hlt hi ?_
    rintro rfl
    exact hf.notTable b k hg
  exact ⟨h.congr hdir htable, fun b q hq => h.mapping_congr hdir htable hq⟩

/-! ### An entry of a table -/

/-- The other pages, when an entry of a table changes. -/
theorem mapping_setWord_ne (h : Layout phys dir owner) (ha : a.directory dir = some d)
    (hp : a.HasPage p) (hpde : isPresent (phys.word d (p / 1024))) (hb : b.HasPage q)
    (hne : ¬ (b = a ∧ q = p)) :
    mapping (setWord phys (frameNo (phys.word d (p / 1024))) (p % 1024) e) dir b q
      = mapping phys dir b q := by
  cases hd' : b.directory dir with
  | none =>
      unfold mapping
      rw [hd']
      rfl
  | some d' =>
      have hlt := Context.HasEntry.lt hb
      rw [mapping_of_directory hd', mapping_of_directory hd']
      refine pageFrame_congr_mem ?_ fun hpde' => ?_
      · exact PhysMem.word_write_ne (h.dir_lt hd') (by omega) (h.table_ne_dir ha hp hpde hd')
      · rw [word_setWord (frameNo_lt _) (Nat.mod_lt _ (by decide)), if_neg]
        intro ⟨hframe, hmod⟩
        obtain ⟨hba, hdiv⟩ := h.table_inj hd' hb hpde' ha hp hpde hframe
        exact hne ⟨hba, by omega⟩

/-- The page of the entry itself. -/
theorem mapping_setWord_self (h : Layout phys dir owner) (ha : a.directory dir = some d)
    (hp : a.HasPage p) (hpde : isPresent (phys.word d (p / 1024))) :
    mapping (setWord phys (frameNo (phys.word d (p / 1024))) (p % 1024) e) dir a p
      = if isPresent e then some (frameNo e) else none := by
  have hlt := Context.HasEntry.lt hp
  have hword : (setWord phys (frameNo (phys.word d (p / 1024))) (p % 1024) e).word d (p / 1024)
      = phys.word d (p / 1024) :=
    PhysMem.word_write_ne (h.dir_lt ha) (by omega) (h.table_ne_dir ha hp hpde ha)
  rw [mapping_of_directory ha, pageFrame_of_present (hword.symm ▸ hpde), hword,
    word_setWord (frameNo_lt _) (Nat.mod_lt _ (by decide))]
  simp only [and_self, if_true]

/-- Any change of an entry, when whose the frames are follows it. -/
theorem setWord_of (h : Layout phys dir owner) (ha : a.directory dir = some d)
    (hp : a.HasPage p) (hpde : isPresent (phys.word d (p / 1024)))
    (hloader : owner' 256 = .loader)
    (hdirOwner : ∀ t d, dir t = some d → ∃ q, owner' d = .page .kernel q)
    (htable : ∀ f b k, owner' f = .table b k ↔ owner f = .table b k)
    (hpage : ∀ f b q, owner' f = .page b q → if b = a ∧ q = p then
      (if isPresent e then some (frameNo e) else none) = some f else owner f = .page b q)
    (hother : ∀ (b : Context) q f, b.HasPage q → ¬ (b = a ∧ q = p) → mapping phys dir b q = some f →
      owner' f = .page b q)
    (hself : ∀ f, (if isPresent e then some (frameNo e) else none) = some f →
      owner' f = .page a p) :
    Layout (setWord phys (frameNo (phys.word d (p / 1024))) (p % 1024) e) dir owner' := by
  have hword : ∀ (b : Context) d' i, b.directory dir = some d' → i < 1024 →
      (setWord phys (frameNo (phys.word d (p / 1024))) (p % 1024) e).word d' i = phys.word d' i :=
    fun b d' i hb hi => PhysMem.word_write_ne (h.dir_lt hb) hi (h.table_ne_dir ha hp hpde hb)
  refine ⟨hloader, ?_, ?_, hdirOwner, h.dirInj, ?_, ?_, ?_, ?_, ?_⟩
  · intro i hi hi'
    rw [hword .kernel 256 i rfl (by omega)]
    exact h.kernelPde i hi hi'
  · intro b d' hb
    have hw := hword b d' 1023 hb (by omega)
    have hd := h.isDir b d' hb
    exact ⟨hw.symm ▸ hd.present, hw.symm ▸ hd.frame⟩
  · intro t d' i ht hi hi'
    rw [hword (.process t) d' i ht (by omega), hword .kernel 256 i rfl (by omega)]
    exact h.share t d' i ht hi hi'
  · intro b d' i hb hi hpresent
    have hlt := hi.lt
    rw [hword b d' i hb (by omega)] at hpresent ⊢
    exact (htable _ _ _).mpr (h.table b d' i hb hi hpresent)
  · intro b k f hf
    obtain ⟨d', hd', hk, hpresent⟩ := h.tableOf b k f ((htable f b k).mp hf)
    have hlt := hk.lt
    rw [← hword b d' k hd' (by omega)] at hpresent
    exact ⟨d', hd', hk, hpresent⟩
  · intro b q f hb hq
    by_cases hsame : b = a ∧ q = p
    · obtain ⟨rfl, rfl⟩ := hsame
      rw [h.mapping_setWord_self ha hp hpde] at hq
      exact hself f hq
    · rw [h.mapping_setWord_ne ha hp hpde hb hsame] at hq
      exact hother b q f hb hsame hq
  · intro b q f hf
    have hplace := hpage f b q hf
    by_cases hsame : b = a ∧ q = p
    · rw [if_pos hsame] at hplace
      obtain ⟨rfl, rfl⟩ := hsame
      exact ⟨hp, (h.mapping_setWord_self ha hp hpde).trans hplace⟩
    · rw [if_neg hsame] at hplace
      obtain ⟨hq, hmap⟩ := h.pageOf b q f hplace
      exact ⟨hq, (h.mapping_setWord_ne ha hp hpde hq hsame).trans hmap⟩

/-- A page that was not there gets a frame that was nobody's. -/
theorem enter (h : Layout phys dir owner) (ha : a.directory dir = some d) (hp : a.HasPage p)
    (hpde : isPresent (phys.word d (p / 1024))) (hnone : mapping phys dir a p = none)
    (he : isPresent e) (hfree : owner (frameNo e) = .nobody) :
    Layout (setWord phys (frameNo (phys.word d (p / 1024))) (p % 1024) e) dir
      (Function.update owner (frameNo e) (.page a p)) := by
  have hkeep : ∀ f, owner f ≠ .nobody →
      Function.update owner (frameNo e) (.page a p) f = owner f := by
    intro f hf
    refine Function.update_of_ne ?_ _ _
    rintro rfl
    exact hf hfree
  refine h.setWord_of ha hp hpde ?_ ?_ ?_ ?_ ?_ ?_
  · rw [hkeep _ (by simp [h.loader]), h.loader]
  · intro t d' ht
    obtain ⟨q, hq⟩ := h.dirOwner t d' ht
    exact ⟨q, by rw [hkeep _ (by simp [hq]), hq]⟩
  · intro f b k
    by_cases hf : f = frameNo e
    · rw [hf, Function.update_self, hfree]
      simp
    · rw [Function.update_of_ne hf]
  · intro f b q hf
    by_cases hfe : f = frameNo e
    · rw [hfe, Function.update_self] at hf
      cases hf
      rw [if_pos ⟨rfl, rfl⟩, if_pos he, hfe]
    · rw [Function.update_of_ne hfe] at hf
      rw [if_neg]
      · exact hf
      · rintro ⟨rfl, rfl⟩
        rw [(h.pageOf b q f hf).2] at hnone
        cases hnone
  · intro b q f hb hne hq
    have howner := h.page b q f hb hq
    rw [hkeep _ (by simp [howner]), howner]
  · intro f hf
    rw [if_pos he] at hf
    cases hf
    exact Function.update_self _ _ _

/-- A page that is no directory is taken away, and its frame is nobody's again. -/
theorem clear (h : Layout phys dir owner) (ha : a.directory dir = some d) (hp : a.HasPage p)
    (hf : mapping phys dir a p = some f) (hdir : ∀ t, dir t ≠ some f) (he : ¬ isPresent e) :
    Layout (setWord phys (frameNo (phys.word d (p / 1024))) (p % 1024) e) dir
      (Function.update owner f .nobody) := by
  have howner := h.page a p f hp hf
  have hkeep : ∀ g, owner g ≠ .page a p → Function.update owner f .nobody g = owner g := by
    intro g hg
    refine Function.update_of_ne ?_ _ _
    rintro rfl
    exact hg howner
  have hmap := hf
  rw [mapping_of_directory ha] at hf
  refine h.setWord_of ha hp (present_of_pageFrame hf) ?_ ?_ ?_ ?_ ?_ ?_
  · rw [hkeep _ (by simp [h.loader]), h.loader]
  · intro t d' ht
    obtain ⟨q, hq⟩ := h.dirOwner t d' ht
    refine ⟨q, ?_⟩
    rw [Function.update_of_ne, hq]
    rintro rfl
    exact hdir t ht
  · intro g b k
    by_cases hgf : g = f
    · rw [hgf, Function.update_self, howner]
      simp
    · rw [Function.update_of_ne hgf]
  · intro g b q hg
    by_cases hgf : g = f
    · rw [hgf, Function.update_self] at hg
      cases hg
    · rw [Function.update_of_ne hgf] at hg
      rw [if_neg]
      · exact hg
      · rintro ⟨rfl, rfl⟩
        rw [(h.pageOf b q g hg).2] at hmap
        exact hgf (Option.some.inj hmap)
  · intro b q g hb hne hq
    have hg := h.page b q g hb hq
    rw [hkeep _, hg]
    rw [hg]
    rintro ⟨⟩
    exact hne ⟨rfl, rfl⟩
  · intro g hg
    rw [if_neg he] at hg
    cases hg

/-! ### A table, and a directory -/

/-- Entry `i` of directory `d` is an empty table in frame `f`. -/
abbrev newTable (phys : PhysMem) (d i : Nat) (e : UInt32) : PhysMem :=
  (setWord phys d i e).write (frameNo e) 0 1024 fun _ => 0

theorem word_newTable (hf : f < 2 ^ 20) (hi : k < 1024) :
    (newTable phys d i e).word f k
      = if f = frameNo e then 0 else if f = d ∧ k = i then e else phys.word f k := by
  rw [PhysMem.word_write hf hi, word_setWord hf hi]
  refine if_congr ?_ rfl rfl
  omega

theorem not_present_zero : ¬ isPresent 0 := by
  simp [isPresent]

/-- The directory is only that process's. -/
theorem directory_inj (h : Layout phys dir owner) (ht : dir t = some d)
    (ha : a.directory dir = some d) : a = .process t := by
  cases a with
  | kernel =>
      cases ha
      obtain ⟨q, hq⟩ := h.dirOwner t 256 ht
      rw [h.loader] at hq
      cases hq
  | process u => rw [h.dirInj u t d ha ht]

theorem owner_directory (h : Layout phys dir owner) (ha : a.directory dir = some d) :
    owner d ≠ .nobody := by
  cases a with
  | kernel =>
      cases ha
      simp [h.loader]
  | process t =>
      obtain ⟨q, hq⟩ := h.dirOwner t d ha
      simp [hq]

theorem mapping_newTable (h : Layout phys dir owner) (ht : dir t = some d) (hi : i < 768)
    (habsent : ¬ isPresent (phys.word d i)) (hfree : owner (frameNo e) = .nobody)
    (hb : b.HasPage q) :
    mapping (newTable phys d i e) dir b q = mapping phys dir b q := by
  have hne : ∀ f, owner f ≠ .nobody → f ≠ frameNo e := by
    rintro f hf rfl
    exact hf hfree
  cases hd' : b.directory dir with
  | none =>
      unfold mapping
      rw [hd']
      rfl
  | some d' =>
      have hlt := Context.HasEntry.lt hb
      have hd := h.dir_lt hd'
      have hmod : q % 1024 < 1024 := Nat.mod_lt _ (by decide)
      have hdne := hne d' (h.owner_directory hd')
      rw [mapping_of_directory hd', mapping_of_directory hd']
      by_cases hsame : d' = d ∧ q / 1024 = i
      · -- nothing was there, and the table is empty
        obtain ⟨rfl, hqi⟩ := hsame
        have hpde : (newTable phys d' i e).word d' (q / 1024) = e := by
          rw [word_newTable hd (by omega), if_neg hdne, if_pos ⟨rfl, hqi⟩]
        have hold : pageFrame phys d' q = none := pageFrame_of_absent (hqi.symm ▸ habsent)
        rw [hold]
        by_cases he : isPresent e
        · rw [pageFrame_of_present (hpde.symm ▸ he), hpde, word_newTable (frameNo_lt _) hmod,
            if_pos rfl, if_neg not_present_zero]
        · exact pageFrame_of_absent (hpde.symm ▸ he)
      · refine pageFrame_congr_mem ?_ fun hpde => ?_
        · rw [word_newTable hd (by omega), if_neg hdne, if_neg hsame]
        · have howner := h.table b d' _ hd' hb hpde
          have hdir := h.table_ne_dir hd' hb hpde (b := .process t) ht
          rw [word_newTable (frameNo_lt _) hmod, if_neg (hne _ (by simp [howner])),
            if_neg fun hc => hdir hc.1.symm]

/-- A table where there was none, in a frame that was nobody's. -/
theorem addTable (h : Layout phys dir owner) (ht : dir t = some d) (hi : i < 768)
    (habsent : ¬ isPresent (phys.word d i)) (he : isPresent e) (hfree : owner (frameNo e) = .nobody) :
    Layout (newTable phys d i e) dir (Function.update owner (frameNo e) (.table (.process t) i)) := by
  have hne : ∀ f, owner f ≠ .nobody → f ≠ frameNo e := by
    rintro f hf rfl
    exact hf hfree
  have hkeep : ∀ f, owner f ≠ .nobody →
      Function.update owner (frameNo e) (.table (.process t) i) f = owner f :=
    fun f hf => Function.update_of_ne (hne f hf) _ _
  have hword : ∀ (b : Context) d' j, b.directory dir = some d' → j < 1024 → ¬ (d' = d ∧ j = i) →
      (newTable phys d i e).word d' j = phys.word d' j := by
    intro b d' j hb hj hother
    rw [word_newTable (h.dir_lt hb) hj, if_neg (hne d' (h.owner_directory hb)), if_neg hother]
  refine ⟨?_, ?_, ?_, ?_, h.dirInj, ?_, ?_, ?_, ?_, ?_⟩
  · rw [hkeep _ (by simp [h.loader]), h.loader]
  · intro j hj hj'
    rw [hword .kernel 256 j rfl (by omega) (by omega)]
    exact h.kernelPde j hj hj'
  · intro b d' hb
    have hw := hword b d' 1023 hb (by omega) (by omega)
    have hd := h.isDir b d' hb
    exact ⟨hw.symm ▸ hd.present, hw.symm ▸ hd.frame⟩
  · intro u d' hu
    obtain ⟨q, hq⟩ := h.dirOwner u d' hu
    exact ⟨q, by rw [hkeep _ (by simp [hq]), hq]⟩
  · intro u d' j hu hj hj'
    rw [hword (.process u) d' j hu (by omega) (by omega), hword .kernel 256 j rfl (by omega) (by omega)]
    exact h.share u d' j hu hj hj'
  · intro b d' j hb hj hpresent
    have hlt := hj.lt
    by_cases hsame : d' = d ∧ j = i
    · obtain ⟨rfl, rfl⟩ := hsame
      obtain rfl := h.directory_inj ht hb
      rw [word_newTable (h.dir_lt hb) (by omega), if_neg (hne d' (h.owner_directory hb)),
        if_pos ⟨rfl, rfl⟩]
      exact Function.update_self _ _ _
    · rw [hword b d' j hb (by omega) hsame] at hpresent ⊢
      have howner := h.table b d' j hb hj hpresent
      rw [hkeep _ (by simp [howner]), howner]
  · intro b j f hf
    by_cases hfe : f = frameNo e
    · rw [hfe, Function.update_self] at hf
      cases hf
      refine ⟨d, ht, hi, ?_⟩
      rw [word_newTable (h.dir_lt (a := .process t) ht) (by omega),
        if_neg (hne d (h.owner_directory (a := .process t) ht)), if_pos ⟨rfl, rfl⟩, hfe]
      exact ⟨he, rfl⟩
    · rw [Function.update_of_ne hfe] at hf
      obtain ⟨d', hd', hj, hpresent⟩ := h.tableOf b j f hf
      have hlt := hj.lt
      refine ⟨d', hd', hj, ?_⟩
      rw [hword b d' j hd' (by omega)]
      · exact hpresent
      · rintro ⟨rfl, rfl⟩
        exact habsent hpresent.1
  · intro b q f hb hq
    rw [h.mapping_newTable ht hi habsent hfree hb] at hq
    have howner := h.page b q f hb hq
    rw [hkeep _ (by simp [howner]), howner]
  · intro b q f hf
    by_cases hfe : f = frameNo e
    · rw [hfe, Function.update_self] at hf
      cases hf
    · rw [Function.update_of_ne hfe] at hf
      obtain ⟨hq, hmap⟩ := h.pageOf b q f hf
      exact ⟨hq, (h.mapping_newTable ht hi habsent hfree hq).trans hmap⟩

/-- A page of the kernel becomes the directory of a process that had none. -/
theorem addDir (h : Layout phys dir owner) (hnew : dir t = none) (howner : owner d = .page .kernel q)
    (hother : ∀ u, dir u ≠ some d) (hself : IsDir phys d)
    (hshare : ∀ i, 768 ≤ i → i < 1023 → phys.word d i = phys.word 256 i)
    (hempty : ∀ i < 768, ¬ isPresent (phys.word d i)) :
    Layout phys (Function.update dir t (some d)) owner := by
  have hdir : ∀ u d', Function.update dir t (some d) u = some d' →
      u = t ∧ d' = d ∨ dir u = some d' := by
    intro u d' hu
    by_cases hut : u = t
    · subst hut
      rw [Function.update_self] at hu
      exact .inl ⟨rfl, (Option.some.inj hu).symm⟩
    · rw [Function.update_of_ne hut] at hu
      exact .inr hu
  have hspace : ∀ (b : Context) d', b.directory (Function.update dir t (some d)) = some d' →
      b = .process t ∧ d' = d ∨ b.directory dir = some d' := by
    intro b d' hb
    cases b with
    | kernel => exact .inr hb
    | process u =>
        rcases hdir u d' hb with ⟨rfl, rfl⟩ | hu
        · exact .inl ⟨rfl, rfl⟩
        · exact .inr hu
  have hkeep : ∀ (b : Context) d', b.directory dir = some d' →
      b.directory (Function.update dir t (some d)) = some d' := by
    intro b d' hb
    cases b with
    | kernel => exact hb
    | process u =>
        have hut : u ≠ t := by
          rintro rfl
          rw [show dir u = some d' from hb] at hnew
          cases hnew
        show Function.update dir t (some d) u = some d'
        rw [Function.update_of_ne hut]
        exact hb
  refine ⟨h.loader, h.kernelPde, ?_, ?_, ?_, ?_, ?_, ?_, ?_, ?_⟩
  · intro b d' hb
    rcases hspace b d' hb with ⟨-, rfl⟩ | hb
    · exact hself
    · exact h.isDir b d' hb
  · intro u d' hu
    rcases hdir u d' hu with ⟨-, rfl⟩ | hu
    · exact ⟨q, howner⟩
    · exact h.dirOwner u d' hu
  · intro u v d' hu hv
    rcases hdir u d' hu with ⟨rfl, rfl⟩ | hu
    · rcases hdir v d' hv with ⟨rfl, -⟩ | hv
      · rfl
      · exact absurd hv (hother v)
    · rcases hdir v d' hv with ⟨-, hd⟩ | hv
      · exact absurd (hd ▸ hu) (hother u)
      · exact h.dirInj u v d' hu hv
  · intro u d' i hu
    rcases hdir u d' hu with ⟨-, rfl⟩ | hu
    · exact hshare i
    · exact h.share u d' i hu
  · intro b d' i hb hi hpresent
    rcases hspace b d' hb with ⟨rfl, rfl⟩ | hb
    · exact absurd hpresent (hempty i hi)
    · exact h.table b d' i hb hi hpresent
  · intro b i f hf
    obtain ⟨d', hd', hpresent⟩ := h.tableOf b i f hf
    exact ⟨d', hkeep b d' hd', hpresent⟩
  · intro b p f hb hp
    obtain ⟨d', hd', hframe⟩ := directory_of_mapping hp
    rcases hspace b d' hd' with ⟨rfl, rfl⟩ | hd'
    · exact absurd (present_of_pageFrame hframe) (hempty _ hb)
    · exact h.page b p f hb ((mapping_of_directory hd').trans hframe)
  · intro b p f hf
    obtain ⟨hp, hmap⟩ := h.pageOf b p f hf
    obtain ⟨d', hd', hframe⟩ := directory_of_mapping hmap
    exact ⟨hp, (mapping_of_directory (hkeep b d' hd')).trans hframe⟩

theorem mapping_addDir (hb : b ≠ .process t) :
    mapping phys (Function.update dir t (some d)) b p = mapping phys dir b p := by
  cases b with
  | kernel => rfl
  | process u =>
      have hut : u ≠ t := by
        rintro rfl
        exact hb rfl
      have hdir : Function.update dir t (some d) u = dir u := Function.update_of_ne hut _ _
      show (Function.update dir t (some d) u).bind _ = (dir u).bind _
      rw [hdir]

end Layout

end Paged

end ZyOs
