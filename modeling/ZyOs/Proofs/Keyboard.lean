/-
What the keyboard handler puts into the ring, against a decoder that knows which keys are held.

The handler keeps one flag for both shift keys: a press of either sets it and a release of either
clears it.  So it says what the last event of a shift key was, and that is whether one of them is
held unless both have been down together.
-/
import Mathlib.Data.Finset.Insert
import Mathlib.Tactic
import ZyOs.Kernel.Keyboard

namespace ZyOs

/-- A key by its make code.  The key whose break code would be the prefix does not exist. -/
structure Key where
  ext : Bool
  code : Fin 128
  real : code ≠ 0x60
deriving DecidableEq

/-- A key goes down or comes up. -/
inductive KeyEvent where
  | press (k : Key)
  | release (k : Key)
deriving DecidableEq

namespace Key

def shiftL : Key := ⟨false, 0x2a, by decide⟩
def shiftR : Key := ⟨false, 0x36, by decide⟩
def capsLock : Key := ⟨false, 0x3a, by decide⟩

/-- One of the two shift keys. -/
def IsShift (k : Key) : Prop := k = shiftL ∨ k = shiftR

instance (k : Key) : Decidable k.IsShift := inferInstanceAs (Decidable (_ ∨ _))

/-- The two characters on the key, 0 for a key without any.  No key with the prefix has one. -/
def chars (k : Key) : UInt8 × UInt8 :=
  if k.ext then (0, 0) else keymap.getD k.code (0, 0)

def IsLetter (k : Key) : Prop := 97 ≤ k.chars.1 ∧ k.chars.1 ≤ 122

instance (k : Key) : Decidable k.IsLetter := inferInstanceAs (Decidable (_ ∧ _))

/-- The character a key gives. -/
def char (k : Key) (shift caps : Bool) : Option UInt8 :=
  let c :=
    if k.IsLetter then if shift ^^ caps then k.chars.1 - 32 else k.chars.1
    else if shift then k.chars.2 else k.chars.1
  if c = 0 then none else some c

/-- It depends on the shift keys what the key gives. -/
def IsShifted (k : Key) : Prop := k.char true false ≠ k.char false false

instance (k : Key) : Decidable k.IsShifted := inferInstanceAs (Decidable (_ ≠ _))

end Key

/-- The bytes the keyboard sends: the prefix, and the make code or the break code. -/
def KeyEvent.bytes : KeyEvent → List UInt8
  | .press k => (if k.ext then [0xe0] else []) ++ [UInt8.ofNat k.code]
  | .release k => (if k.ext then [0xe0] else []) ++ [UInt8.ofNat (k.code + 128)]

/-- The decoder the handler is measured by. -/
structure Decoder where
  held : Finset Key
  caps : Bool

namespace Decoder

/-- Some shift key is held. -/
def shiftHeld (d : Decoder) : Bool := Key.shiftL ∈ d.held ∨ Key.shiftR ∈ d.held

def event (d : Decoder) : KeyEvent → Decoder × Option UInt8
  | .press k =>
      ({ held := insert k d.held, caps := if k = Key.capsLock then !d.caps else d.caps },
        k.char d.shiftHeld d.caps)
  | .release k => ({ d with held := d.held.erase k }, none)

def events : Decoder → List KeyEvent → Decoder × List UInt8
  | d, [] => (d, [])
  | d, e :: rest =>
      let (d, c) := d.event e
      let (d, cs) := events d rest
      (d, c.toList ++ cs)

end Decoder

/-- No key is held at first. -/
def decoderInit : Decoder := ⟨∅, false⟩

/-- The flags after these events, and what they put into a ring that is never full. -/
def keyboardAfter (es : List KeyEvent) : Keyboard × List UInt8 :=
  keyboardInit.interrupts ((es.flatMap KeyEvent.bytes).map fun byte => (byte, false))

/-- The event is one of a shift key. -/
def KeyEvent.OfShift : KeyEvent → Prop
  | .press k => k.IsShift
  | .release k => k.IsShift

instance : DecidablePred KeyEvent.OfShift
  | .press k => inferInstanceAs (Decidable k.IsShift)
  | .release k => inferInstanceAs (Decidable k.IsShift)

/-- The last event of a shift key. -/
def lastShift (es : List KeyEvent) : Option KeyEvent :=
  (es.filter fun e => e.OfShift).getLast?

/-- Whenever a key goes down that has two characters and a shift key came up last, none is held. -/
def SteadyShift (es : List KeyEvent) : Prop :=
  ∀ p k, p ++ [.press k] <+: es → k.IsShifted → ∀ k', lastShift p = some (.release k') →
    (decoderInit.events p).1.shiftHeld = false

/-! ### One event -/

/-- What a key does to the flag of the shift keys. -/
def KeyEvent.shiftFlag : KeyEvent → Bool → Bool
  | .press k, flag => if k.IsShift then true else flag
  | .release k, flag => if k.IsShift then false else flag

/-- What a key does to the toggle. -/
def KeyEvent.capsFlag : KeyEvent → Bool → Bool
  | .press k, caps => if k = Key.capsLock then !caps else caps
  | .release _, caps => caps

/-- The character that comes of an event. -/
def KeyEvent.char : KeyEvent → Bool → Bool → Option UInt8
  | .press k, shift, caps => k.char shift caps
  | .release _, _, _ => none

/-- The flags that matter after an event, and what it has put into the ring. -/
structure KeyDone (e : KeyEvent) (shift caps : Bool) (r : Keyboard × List UInt8) : Prop where
  prefixOver : r.1.extScanCode = false
  flag : r.1.shiftStatus = e.shiftFlag shift
  toggle : r.1.capsLockStatus = e.capsFlag caps
  out : r.2 = (e.char shift caps).toList

instance (e : KeyEvent) (shift caps : Bool) (r : Keyboard × List UInt8) :
    Decidable (KeyDone e shift caps r) :=
  decidable_of_iff (r.1.extScanCode = false ∧ r.1.shiftStatus = e.shiftFlag shift ∧
      r.1.capsLockStatus = e.capsFlag caps ∧ r.2 = (e.char shift caps).toList)
    ⟨fun h => ⟨h.1, h.2.1, h.2.2.1, h.2.2.2⟩, fun h => ⟨h.prefixOver, h.flag, h.toggle, h.out⟩⟩

theorem interrupts_code : ∀ (ctrl shift alt caps ext : Bool) (code : Fin 128)
    (real : code ≠ 0x60), ∀ e ∈ [KeyEvent.press ⟨ext, code, real⟩, .release ⟨ext, code, real⟩],
      KeyDone e shift caps (Keyboard.interrupts ⟨ctrl, shift, alt, caps, false⟩
        (e.bytes.map fun byte => (byte, false))) := by
  decide +kernel

/-- The step: any key in any state of the flags. -/
theorem interrupts_event (s : Keyboard) (hs : s.extScanCode = false) (e : KeyEvent) :
    KeyDone e s.shiftStatus s.capsLockStatus
      (s.interrupts (e.bytes.map fun byte => (byte, false))) := by
  obtain ⟨ctrl, shift, alt, caps, ext⟩ := s
  cases hs
  cases e with
  | press k => exact interrupts_code ctrl shift alt caps k.ext k.code k.real _ (by simp)
  | release k => exact interrupts_code ctrl shift alt caps k.ext k.code k.real _ (by simp)

theorem char_shift : ∀ (ext : Bool) (code : Fin 128) (real : code ≠ 0x60) (caps : Bool),
    ((⟨ext, code, real⟩ : Key).char true caps).isSome =
        ((⟨ext, code, real⟩ : Key).char false caps).isSome ∧
      ((⟨ext, code, real⟩ : Key).IsShifted ↔
        (⟨ext, code, real⟩ : Key).char true caps ≠ (⟨ext, code, real⟩ : Key).char false caps) := by
  decide +kernel

/-- Whether a key gives a character does not depend on the shift keys. -/
theorem Key.char_isSome (k : Key) (shift shift' caps : Bool) :
    (k.char shift caps).isSome = (k.char shift' caps).isSome := by
  have hall := (char_shift k.ext k.code k.real caps).1
  cases shift <;> cases shift' <;> first | rfl | exact hall | exact hall.symm

/-- And which one it is depends on them with caps lock as it does without. -/
theorem Key.isShifted_iff (k : Key) (caps : Bool) :
    k.IsShifted ↔ k.char true caps ≠ k.char false caps :=
  (char_shift k.ext k.code k.real caps).2

/-! ### A run -/

theorem Keyboard.interrupts_append (p q : List (UInt8 × Bool)) : ∀ (s : Keyboard),
    s.interrupts (p ++ q) =
      (((s.interrupts p).1.interrupts q).1,
        (s.interrupts p).2 ++ ((s.interrupts p).1.interrupts q).2) := by
  induction p with
  | nil => exact fun s => rfl
  | cons b p ih =>
      intro s
      simp only [List.cons_append, interrupts, ih, List.append_assoc]

theorem Decoder.events_append (p q : List KeyEvent) : ∀ (d : Decoder),
    d.events (p ++ q) =
      (((d.events p).1.events q).1, (d.events p).2 ++ ((d.events p).1.events q).2) := by
  induction p with
  | nil => exact fun d => rfl
  | cons e p ih =>
      intro d
      simp only [List.cons_append, events, ih, List.append_assoc]

theorem keyboardAfter_concat (p : List KeyEvent) (e : KeyEvent) :
    keyboardAfter (p ++ [e]) =
      (((keyboardAfter p).1.interrupts (e.bytes.map fun byte => (byte, false))).1,
        (keyboardAfter p).2 ++
          ((keyboardAfter p).1.interrupts (e.bytes.map fun byte => (byte, false))).2) := by
  rw [keyboardAfter, List.flatMap_append, List.map_append, Keyboard.interrupts_append,
    List.flatMap_singleton]
  rfl

theorem decoder_concat (p : List KeyEvent) (e : KeyEvent) :
    decoderInit.events (p ++ [e]) =
      (((decoderInit.events p).1.event e).1,
        (decoderInit.events p).2 ++ ((decoderInit.events p).1.event e).2.toList) := by
  rw [Decoder.events_append]
  simp only [Decoder.events, List.append_nil]

theorem lastShift_concat (p : List KeyEvent) (e : KeyEvent) :
    lastShift (p ++ [e]) = if e.OfShift then some e else lastShift p := by
  rw [lastShift, List.filter_append]
  by_cases he : e.OfShift
  · rw [if_pos he, List.filter_cons_of_pos (by simpa using he), List.filter_nil,
      List.getLast?_concat]
  · rw [if_neg he, List.filter_cons_of_neg (by simpa using he), List.filter_nil, List.append_nil]
    rfl

/-- What the handler and the decoder have in common after a run. -/
structure InStep (p : List KeyEvent) (s : Keyboard) (d : Decoder) : Prop where
  prefixOver : s.extScanCode = false
  caps : s.capsLockStatus = d.caps
  pressed : s.shiftStatus = true ↔ ∃ k, lastShift p = some (.press k)
  held : s.shiftStatus = true → d.shiftHeld = true
  some_of_held : d.shiftHeld = true → ∃ e, lastShift p = some e

theorem Decoder.shiftHeld_iff (d : Decoder) :
    d.shiftHeld = true ↔ ∃ k, k.IsShift ∧ k ∈ d.held := by
  rw [shiftHeld, decide_eq_true_iff]
  constructor
  · rintro (h | h)
    · exact ⟨_, .inl rfl, h⟩
    · exact ⟨_, .inr rfl, h⟩
  · rintro ⟨k, rfl | rfl, h⟩
    · exact .inl h
    · exact .inr h

/-- A key that is no shift key leaves the shift keys as they are. -/
theorem Decoder.shiftHeld_event (d : Decoder) {e : KeyEvent} (he : ¬ e.OfShift) :
    (d.event e).1.shiftHeld = d.shiftHeld := by
  rw [Bool.eq_iff_iff, shiftHeld_iff, shiftHeld_iff]
  refine exists_congr fun k => and_congr_right fun hk => ?_
  cases e with
  | press k' =>
      show k ∈ insert k' d.held ↔ _
      rw [Finset.mem_insert, or_iff_right]
      rintro rfl
      exact he hk
  | release k' =>
      show k ∈ d.held.erase k' ↔ _
      rw [Finset.mem_erase, and_iff_right]
      rintro rfl
      exact he hk

theorem InStep.event {p : List KeyEvent} {s : Keyboard} {d : Decoder} (h : InStep p s d)
    (e : KeyEvent) :
    InStep (p ++ [e]) (s.interrupts (e.bytes.map fun byte => (byte, false))).1 (d.event e).1 := by
  obtain ⟨hbegin, hflag, htoggle, -⟩ := interrupts_event s h.prefixOver e
  have hcaps : (s.interrupts (e.bytes.map fun byte => (byte, false))).1.capsLockStatus =
      (d.event e).1.caps := by
    rw [htoggle, h.caps]
    cases e <;> rfl
  by_cases he : e.OfShift
  · have hlast : lastShift (p ++ [e]) = some e := by rw [lastShift_concat, if_pos he]
    cases e with
    | press k =>
        have hk : k.IsShift := he
        have hon := hflag.trans (if_pos hk)
        refine ⟨hbegin, hcaps, iff_of_true hon ⟨k, hlast⟩, fun _ => ?_, fun _ => ⟨_, hlast⟩⟩
        exact (Decoder.shiftHeld_iff _).mpr ⟨k, hk, Finset.mem_insert_self k d.held⟩
    | release k =>
        have hoff := hflag.trans (if_pos (show k.IsShift from he))
        refine ⟨hbegin, hcaps, iff_of_false (by rw [hoff]; decide) ?_, fun hc => ?_,
          fun _ => ⟨_, hlast⟩⟩
        · rintro ⟨k', hk'⟩
          exact nomatch hlast.symm.trans hk'
        · rw [hoff] at hc
          exact absurd hc (by decide)
  · have hlast : lastShift (p ++ [e]) = lastShift p := by rw [lastShift_concat, if_neg he]
    have hsame : e.shiftFlag s.shiftStatus = s.shiftStatus := by
      cases e with
      | press k => exact if_neg he
      | release k => exact if_neg he
    rw [hsame] at hflag
    refine ⟨hbegin, hcaps, ?_, ?_, ?_⟩
    · rw [hflag, hlast]
      exact h.pressed
    · rw [hflag, Decoder.shiftHeld_event d he]
      exact h.held
    · rw [hlast, Decoder.shiftHeld_event d he]
      exact h.some_of_held

/-- The run: the two are in step after any sequence of keys. -/
theorem inStep_run (p : List KeyEvent) :
    InStep p (keyboardAfter p).1 (decoderInit.events p).1 := by
  induction p using List.reverseRecOn with
  | nil =>
      refine ⟨rfl, rfl, iff_of_false (by decide) ?_, by decide, fun hc => absurd hc (by decide)⟩
      rintro ⟨k, hk⟩
      exact nomatch hk
  | append_singleton p e ih =>
      rw [keyboardAfter_concat, decoder_concat]
      exact ih.event e

/-! ### What comes out -/

theorem Key.char_eq_iff (k : Key) (shift shift' caps : Bool) :
    k.char shift caps = k.char shift' caps ↔ (k.IsShifted → shift = shift') := by
  have hiff := k.isShifted_iff caps
  rcases shift <;> rcases shift'
  · exact iff_of_true rfl fun _ => rfl
  · rw [hiff]
    exact ⟨fun h hne => absurd h.symm hne, fun h => by_contra fun hne => nomatch h (Ne.symm hne)⟩
  · rw [hiff]
    exact ⟨fun h hne => absurd h hne, fun h => by_contra fun hne => nomatch h hne⟩
  · exact iff_of_true rfl fun _ => rfl

/-- The flag is right unless a shift key that came up last has left another one held. -/
theorem InStep.flag_iff {p : List KeyEvent} {s : Keyboard} {d : Decoder} (h : InStep p s d) :
    s.shiftStatus = d.shiftHeld ↔ ∀ k, lastShift p = some (.release k) → d.shiftHeld = false := by
  constructor
  · intro heq k hk
    rw [← heq, Bool.eq_false_iff]
    intro hs
    obtain ⟨k', hk'⟩ := h.pressed.mp hs
    exact nomatch hk.symm.trans hk'
  · intro hrel
    rw [Bool.eq_iff_iff]
    refine ⟨h.held, fun hd => ?_⟩
    obtain ⟨e, he⟩ := h.some_of_held hd
    cases e with
    | press k => exact h.pressed.mpr ⟨k, he⟩
    | release k => exact absurd hd (by rw [hrel k he]; decide)

theorem toList_inj {α : Type} {a b : Option α} : a.toList = b.toList ↔ a = b := by
  cases a <;> cases b <;> simp

/-- Both give a character or neither does, and it is the same one if the key does not depend on
the shift keys or the flag is right. -/
theorem InStep.char_iff {p : List KeyEvent} {s : Keyboard} {d : Decoder} (h : InStep p s d)
    (e : KeyEvent) :
    (s.interrupts (e.bytes.map fun byte => (byte, false))).2 = (d.event e).2.toList ↔
      ∀ k, e = .press k → k.IsShifted → ∀ k', lastShift p = some (.release k') →
        d.shiftHeld = false := by
  rw [(interrupts_event s h.prefixOver e).out, h.caps]
  cases e with
  | release k => exact iff_of_true rfl fun _ hk => nomatch hk
  | press k =>
      show (k.char s.shiftStatus d.caps).toList = (k.char d.shiftHeld d.caps).toList ↔ _
      rw [toList_inj, Key.char_eq_iff, h.flag_iff]
      constructor
      · rintro hk _ ⟨rfl⟩
        exact hk
      · exact fun hk => hk k rfl

theorem InStep.out_length {p : List KeyEvent} {s : Keyboard} {d : Decoder} (h : InStep p s d)
    (e : KeyEvent) :
    (s.interrupts (e.bytes.map fun byte => (byte, false))).2.length =
      (d.event e).2.toList.length := by
  rw [(interrupts_event s h.prefixOver e).out, h.caps]
  cases e with
  | release k => rfl
  | press k =>
      show (k.char s.shiftStatus d.caps).toList.length = (k.char d.shiftHeld d.caps).toList.length
      rw [Option.length_toList, Option.length_toList, k.char_isSome s.shiftStatus d.shiftHeld]

theorem steadyShift_concat (p : List KeyEvent) (e : KeyEvent) :
    SteadyShift (p ++ [e]) ↔ SteadyShift p ∧
      ∀ k, e = .press k → k.IsShifted → ∀ k', lastShift p = some (.release k') →
        (decoderInit.events p).1.shiftHeld = false := by
  constructor
  · intro h
    refine ⟨fun q k hq => h q k (hq.trans (List.prefix_append p [e])), ?_⟩
    rintro k rfl
    exact h p k (List.prefix_refl _)
  · rintro ⟨hp, he⟩ q k hq
    rcases List.prefix_concat_iff.mp hq with heq | hq
    · obtain ⟨rfl, hk⟩ := List.append_inj' heq rfl
      exact he k (List.singleton_inj.mp hk).symm
    · exact hp q k hq

/-- The handler gives the characters of the decoder exactly on the runs in which no key that has
two characters goes down while one shift key is held and the other came up last. -/
theorem keyboard_decodes_iff (es : List KeyEvent) :
    (keyboardAfter es).2 = (decoderInit.events es).2 ↔ SteadyShift es := by
  induction es using List.reverseRecOn with
  | nil => exact iff_of_true rfl fun p k hp => absurd (List.prefix_nil.mp hp) (by simp)
  | append_singleton p e ih =>
      have hstep := inStep_run p
      rw [keyboardAfter_concat, decoder_concat, steadyShift_concat, ← ih, ← hstep.char_iff e]
      constructor
      · exact fun h => List.append_inj' h (hstep.out_length e)
      · exact fun ⟨hp, he⟩ => by rw [hp, he]

/-- Left shift goes down, then right shift; left shift comes up, and `a` is typed. -/
theorem keyboard_decodes_two_shifts :
    ¬ ∀ es : List KeyEvent, (keyboardAfter es).2 = (decoderInit.events es).2 := by
  intro h
  let a : Key := ⟨false, 0x1e, by decide⟩
  have ha := h [.press Key.shiftL, .press Key.shiftR, .release Key.shiftL, .press a, .release a,
    .release Key.shiftR]
  revert ha
  decide +kernel

end ZyOs
