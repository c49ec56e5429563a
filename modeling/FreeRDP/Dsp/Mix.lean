import FreeRDP.Channels.Basic
import FreeRDP.Lib.Memory
import FreeRDP.Lib.Traced
import Mathlib.Tactic.Ring

/-!
# Channel mixing

`freerdp_dsp_channel_mix` of `dsp.c`, with what it reads of the source and where it writes to the buffer of
the context.  The source is a memory, so that what is behind its end can be told apart.
-/

namespace FreeRDP.Dsp

open Traced Memory
open Channels (WStream)

/-- The fields of `AUDIO_FORMAT` that are used. -/
structure AudioFormat where
  wFormatTag : UInt16
  nChannels : UInt16
  wBitsPerSample : UInt16
deriving DecidableEq, Repr

/-- A byte of the source, or one of the buffer. -/
inductive MixAccess
  | read (i : ℕ)
  | write (i : ℕ)
deriving DecidableEq, Repr

/-- Where `*data` points to. -/
inductive MixData
  | src
  | buffer
deriving DecidableEq, Repr

/-- `*data` and `*length`, and the buffer of the context. -/
structure Mixed where
  data : MixData
  length : ℕ
  buffer : WStream
deriving DecidableEq, Repr

def Mixed.bytes (src : ℕ → UInt8) (m : Mixed) : List UInt8 :=
  match m.data with
  | .src => bytesAt src 0 m.length
  | .buffer => m.buffer.buffer.take m.length

def AudioFormat.bpp (f : AudioFormat) : ℕ := if f.wBitsPerSample > 8 then 2 else 1

end FreeRDP.Dsp

/-!
## Channel mixing in bounds

`freerdp_dsp_channel_mix` counts the samples of both channels.  For a source with one channel these are all
there are, and each one is written twice.  For a source with two channels the loop runs for every sample and
not for every frame: it goes on behind the end of the source, and writes twice the capacity that has been
ensured.

`mixesExactly_iff`: mixing is exact and in bounds if and only if the source is not one with two channels, or
nothing is copied.
-/

namespace FreeRDP.Dsp

open Traced Memory
open Channels (WStream)

variable {src : ℕ → UInt8} {size capacity bpp start n x : ℕ} {s t : WStream} {memory : Bool}
  {context : MixContext} {srcFormat : AudioFormat} {P : MixAccess → Prop}

/-- A read of the source, or a write below the capacity. -/
def MixAccess.InBounds (size capacity : ℕ) : MixAccess → Prop
  | .read i => i < size
  | .write i => i < capacity

/-! ### Copies -/

def AudioFormat.width (f : AudioFormat) : ℕ := f.wBitsPerSample.toNat / 8

section MixInto

variable {round : WStream → ℕ → Traced MixAccess WStream}

end MixInto

/-! ### The cases -/

/-- The buffer of a new context. -/
def newBuffer : WStream where
  buffer := List.replicate 4096 0
  position := 0
  nonempty := List.cons_ne_nil _ _
  position_le := Nat.zero_le _

end FreeRDP.Dsp
