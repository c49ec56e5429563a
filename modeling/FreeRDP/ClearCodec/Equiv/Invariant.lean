import FreeRDP.ClearCodec.Basic
import FreeRDP.Lib.Triple

/-!
# What every step of a ClearCodec call keeps

`Inv` collects what holds throughout a call: the writes to the destination and to `TempBuffer` stay
inside as long as the headers found in the message are sane, the cache entries hold as many bytes as
their counts promise, and the accesses to them stay within these bytes.  The programs of the decoder
are taken through it from the bottom up; `Stays` is the statement about each of them.
-/

namespace FreeRDP.Clear

open Triples

/-! ### Headers and accesses -/

/-- The origin of the update rectangle is not so far behind the destination, or so close to
`2 ^ 32`, that the sums and differences of `convert_color` with 16-bit offsets and sizes wrap. -/
def Call.Near (call : Call) : Prop :=
  call.nXDst + 2 * 0xFFFF < 2 ^ 32 ∧ call.nXDst + 0xFFFF ≤ call.nDstWidth + 2 ^ 31 ∧
    call.nYDst + 2 * 0xFFFF < 2 ^ 32 ∧ call.nYDst + 0xFFFF ≤ call.nDstHeight + 2 ^ 31

instance (call : Call) : Decidable call.Near := inferInstanceAs (Decidable (_ ∧ _))

/-- What a header has to satisfy.  A run may not wrap the count of pixels; the columns and rows of a
band that are drawn have to lie in the destination, and so has an NSCodec bitmap; an uncompressed
bitmap may not start in the column right behind the destination. -/
def Event.Sane (call : Call) : Event → Prop
  | .run pixelIndex runLengthFactor => pixelIndex + runLengthFactor < 2 ^ 32
  | .band xStart xEnd yStart yEnd =>
    call.nWidth = 0 ∨ call.nHeight = 0 ∨
      (call.nXDst + xStart + min (xEnd - xStart + 1) call.nWidth ≤ call.nDstWidth ∧
        call.nYDst + yStart + min (yEnd - yStart + 1) call.nHeight ≤ call.nDstHeight)
  | .subcodec 0 xStart _ _ _ =>
    call.nXDst + xStart ≠ call.nDstWidth ∨ formatsEqualNoAlpha PIXEL_FORMAT_BGR24 call.dstFormat
  | .subcodec 1 xStart yStart width height =>
    height = 0 ∨ (call.nXDst + xStart + max 1 width ≤ call.nDstWidth ∧
      call.nYDst + yStart + height ≤ call.nDstHeight)
  | _ => True

/-- The pixels that an event writes lie in the destination, or among the first `nWidth * nHeight`
pixels of `TempBuffer`. -/
def Event.Inside (call : Call) : Event → Prop
  | .dst x y width height =>
    ∀ i < width, ∀ j < height, x + i < call.nDstWidth ∧ y + j < call.nDstHeight
  | .temp first count => first + count ≤ call.nWidth * call.nHeight
  | _ => True

/-- An access to a cache entry stays within its allocation. -/
def Event.Within : Event → Prop
  | .entry bytes allocated => bytes ≤ allocated
  | _ => True

/-- An entry holds the bytes of its pixels. -/
structure Entry.Ok (e : Entry) (bpp : ℕ) : Prop where
  count_le : e.count ≤ e.size
  size_le : e.size * bpp ≤ e.allocated

theorem Entry.Ok.le {e : Entry} {bpp n : ℕ} (h : e.Ok bpp) (hn : n ≤ e.count) :
    n * bpp ≤ e.allocated :=
  (Nat.mul_le_mul_right bpp (hn.trans h.count_le)).trans h.size_le

/-- No allocation for a cache entry fails. -/
def Env.Allocates (env : Env) : Prop := ∀ n, env.entryAlloc n = true

/-! ### The invariant -/

/-- What holds throughout a call, once its format is set.  `fit` is what has to be assumed for the
statements about the entries; `facts` are headers that are known to have
been found, and `held` are the counts of some entries. -/
structure Inv (env : Env) (call : Call) (fit : Prop) (facts : List Event)
    (held : List (Cache × ℕ × ℕ)) (s : State) : Prop where
  alloc : fit → env.Allocates
  format : s.clear.format = call.dstFormat
  safe : call.Near → (∀ e ∈ s.log, e.Sane call) → ∀ e ∈ s.log, e.Inside call
  mem : ∀ e ∈ facts, e ∈ s.log
  ok : fit → ∀ cache i, (s.clear.entries cache i).Ok (bytesPerPixel call.dstFormat)
  held : ∀ r ∈ held, (s.clear.entries r.1 r.2.1).count = r.2.2
  within : fit → call.Near → ∀ e ∈ s.log, e.Within

variable {env : Env} {call : Call} {fit : Prop} {facts : List Event} {held : List (Cache × ℕ × ℕ)}
  {s s' : State}

/-- The invariant is about the format, the entries and the log only. -/
theorem Inv.congr (h : Inv env call fit facts held s) (hformat : s'.clear.format = s.clear.format)
    (hentries : s'.clear.entries = s.clear.entries) (hlog : s'.log = s.log) :
    Inv env call fit facts held s' where
  alloc := h.alloc
  format := hformat.trans h.format
  safe := hlog ▸ h.safe
  mem := hlog ▸ h.mem
  ok := hentries ▸ h.ok
  held := hentries ▸ h.held
  within := hlog ▸ h.within

theorem Inv.weaken (h : Inv env call fit facts held s) : Inv env call fit [] [] s :=
  { h with
    mem := fun _ he => absurd he List.not_mem_nil
    held := fun _ he => absurd he List.not_mem_nil }

theorem Inv.tail {e : Event} (h : Inv env call fit (e :: facts) held s) :
    Inv env call fit facts held s :=
  { h with mem := fun r hr => h.mem r (List.mem_cons_of_mem e hr) }

/-- The state with one more event in the log. -/
def State.add (s : State) (e : Event) : State := { s with log := s.log ++ [e] }

/-- An event may be added if what it writes is inside and what it touches within, given the headers
that are known. -/
theorem Inv.add (h : Inv env call fit facts held s) {e : Event}
    (hinside : call.Near → (∀ r ∈ facts, r.Sane call) → e.Inside call)
    (hwithin : fit → call.Near → e.Within) :
    Inv env call fit (e :: facts) held (s.add e) where
  alloc := h.alloc
  format := h.format
  safe hnear hsane r hr := by
    have hold : ∀ r ∈ s.log, r.Sane call := fun r hr => hsane r (List.mem_append_left _ hr)
    rcases List.mem_append.mp hr with hr | hr
    · exact h.safe hnear hold r hr
    · rw [List.mem_singleton.mp hr]
      exact hinside hnear fun r hr => hold r (h.mem r hr)
  mem r hr := by
    rcases List.mem_cons.mp hr with rfl | hr
    · exact List.mem_append_right _ (List.mem_singleton_self r)
    · exact List.mem_append_left _ (h.mem r hr)
  ok := h.ok
  held := h.held
  within hfit hnear r hr := by
    rcases List.mem_append.mp hr with hr | hr
    · exact h.within hfit hnear r hr
    · rw [List.mem_singleton.mp hr]
      exact hwithin hfit hnear

/-- The program returns, or fails, with the invariant kept. -/
def Stays (env : Env) (call : Call) (fit : Prop) (facts : List Event)
    (held : List (Cache × ℕ × ℕ)) {α : Type} (x : M α) : Prop :=
  Triple (Inv env call fit [] []) (Inv env call fit facts held) x fun _ => Inv env call fit facts held

section Rules

variable {α β : Type} {x : M α} {f : α → M β}

theorem Stays.bind (hx : Stays env call fit facts held x)
    (hf : ∀ a, Stays env call fit facts held (f a)) : Stays env call fit facts held (x >>= f) :=
  Triple.bind hx hf

/-- A program whose value is known to satisfy `φ`. -/
theorem Stays.bind_of {φ : α → Prop}
    (hx : Triple (Inv env call fit [] []) (Inv env call fit facts held) x
      fun a s => φ a ∧ Inv env call fit facts held s)
    (hf : ∀ a, φ a → Stays env call fit facts held (f a)) : Stays env call fit facts held (x >>= f) :=
  Triple.bind hx fun a s h => hf a h.1 s h.2

theorem stays_pure (a : α) : Stays env call fit facts held (pure a : M α) := fun _ h => h

theorem stays_throw : Stays env call fit facts held (throw () : M α) := fun _ h => h.weaken

theorem stays_modify {f : State → State} (hformat : ∀ s, (f s).clear.format = s.clear.format)
    (hentries : ∀ s, (f s).clear.entries = s.clear.entries) (hlog : ∀ s, (f s).log = s.log) :
    Stays env call fit facts held (modify f : M PUnit) :=
  fun s h => h.congr (hformat s) (hentries s) (hlog s)

theorem stays_require (c : Prop) [Decidable c] : Stays env call fit facts held (require c) := by
  unfold require
  split_ifs
  · exact stays_pure ()
  · exact stays_throw

/-- Behind a check its condition is known. -/
theorem guarded {c : Prop} [Decidable c] {f : Unit → M β} {Q : β → State → Prop}
    (h : c → Triple (Inv env call fit [] []) (Inv env call fit facts held) (f ()) Q) :
    Triple (Inv env call fit [] []) (Inv env call fit facts held) (require c >>= f) Q :=
  Triple.guard (fun _ hs => hs.weaken) h

theorem Stays.onlyIf {c : Prop} [Decidable c] {x : M Unit}
    (h : c → Stays env call fit facts held x) : Stays env call fit facts held (onlyIf c x) := by
  unfold Clear.onlyIf
  split_ifs with hc
  · exact h hc
  · exact stays_pure ()

theorem stays_remaining : Stays env call fit facts held remaining := fun _ h => h

theorem stays_requireBytes (n : ℕ) : Stays env call fit facts held (requireBytes n) :=
  stays_remaining.bind fun _ => stays_require _

theorem stays_ask (answers : ℕ → Bool) : Stays env call fit facts held (ask answers) :=
  fun _ h => h.congr rfl rfl rfl

theorem stays_seek (n : ℕ) : Stays env call fit facts held (seek n) :=
  stays_modify (fun _ => rfl) (fun _ => rfl) fun _ => rfl

theorem stays_readU8 : Stays env call fit facts held readU8 := fun _ h => h.congr rfl rfl rfl

theorem readU16_lt : Triple (Inv env call fit [] []) (Inv env call fit facts held) readU16
    fun a s => a < 2 ^ 16 ∧ Inv env call fit facts held s := by
  intro s h
  have hlo := (s.stream.headD 0).toNat_lt
  have hhi := (s.stream.tail.headD 0).toNat_lt
  refine ⟨?_, h.congr rfl rfl rfl⟩
  show (s.stream.headD 0).toNat + 2 ^ 8 * (s.stream.tail.headD 0).toNat < 2 ^ 16
  omega

theorem stays_readU16 : Stays env call fit facts held readU16 :=
  readU16_lt.conseq (fun _ h => h) fun _ _ h => h.2

theorem stays_readU32 : Stays env call fit facts held readU32 :=
  stays_readU16.bind fun _ => stays_readU16.bind fun _ => stays_pure _

theorem stays_getEntry (cache : Cache) (i : ℕ) : Stays env call fit facts held (getEntry cache i) :=
  fun _ h => h

theorem getClear_format : Triple (Inv env call fit [] []) (Inv env call fit facts held) getClear
    fun clear s => clear.format = call.dstFormat ∧ Inv env call fit facts held s :=
  fun _ h => ⟨h.format, h⟩

theorem stays_getClear : Stays env call fit facts held getClear := fun _ h => h

theorem stays_modifyClear {f : Context → Context} (hformat : ∀ c, (f c).format = c.format)
    (hentries : ∀ c, (f c).entries = c.entries) :
    Stays env call fit facts held (modifyClear f) :=
  stays_modify (fun s => hformat s.clear) (fun s => hentries s.clear) fun _ => rfl

/-- A header is noted and is a fact from there on. -/
theorem Stays.note {e : Event} {f : Unit → M β} (hinside : e.Inside call) (hwithin : e.Within)
    (h : Stays env call fit (e :: facts) held (f ())) : Stays env call fit facts held (emit e >>= f) := by
  have hemit : Triple (Inv env call fit [] []) (Inv env call fit facts held) (emit e)
      fun _ => Inv env call fit (e :: facts) held :=
    fun _ hs => hs.add (fun _ _ => hinside) fun _ _ => hwithin
  exact hemit.bind fun _ => h.conseq (fun _ hs => hs) fun _ _ hs => hs.tail

theorem stays_emit {e : Event}
    (hinside : call.Near → (∀ r ∈ facts, r.Sane call) → e.Inside call) (hwithin : e.Within) :
    Stays env call fit facts held (emit e) :=
  fun _ h => (h.add hinside fun _ _ => hwithin).tail

end Rules

end FreeRDP.Clear
