import FreeRDP.Lib.Traced
import FreeRDP.Mppc.Basic

/-!
# XCRUSH (RDP6.1) bulk decompression

`xcrush_decompress` hands the payload of a packet, after MPPC if its second flag byte says so, to
`xcrush_decompress_l1`, which copies literals from its source and matches from the history to the end of
the history.

A pointer is an offset into the source of level 1 or into `HistoryBuffer`; where the code compares
pointers it compares their addresses, which a `Layout` gives.  The functions record the bytes that they
read and write, and the divisors of `%`.  `OutputOffset` is at most 131070, so that `UINT32` does not wrap.
-/

namespace FreeRDP.Xcrush

open ForwardCopy Traced

/-! ### Constants and contexts -/

def L1_COMPRESSED : ℕ := 0x01

def L1_NO_COMPRESSION : ℕ := 0x02

def L1_PACKET_AT_FRONT : ℕ := 0x04

def PACKET_COMPRESSED : ℕ := 0x20

def PACKET_FLUSHED : ℕ := 0x80

/-- `HistoryBufferSize`, which never changes. -/
@[irreducible] def historyBufferSize : ℕ := 2000000

theorem historyBufferSize_pos : 0 < historyBufferSize := by
  unfold historyBufferSize
  decide

/-- The part of `struct _XCRUSH_CONTEXT` that the decompressor uses. -/
structure Context where
  mppc : Mppc.Context
  historyOffset : ℕ
  historyBuffer : ℕ → UInt8

def xcrushContextReset (xcrush : Context) (flush : Bool) : Context :=
  { xcrush with
    historyOffset := if flush then historyBufferSize + 1 else 0
    mppc := Mppc.mppcContextReset xcrush.mppc flush }

/-- `xcrush_context_new`, the allocations succeeding. -/
def xcrushContextNew : Context :=
  xcrushContextReset ⟨Mppc.mppcContextNew 1, 0, fun _ => 0⟩ false

/-! ### Memory -/

/-- Where the source of a call and `HistoryBuffer` lie.  They are different objects. -/
structure Layout (srcSize : ℕ) where
  source : ℕ
  history : ℕ
  apart : source + srcSize ≤ history ∨ history + historyBufferSize ≤ source

inductive Pointer where
  | source (offset : ℕ)
  | history (offset : ℕ)
  deriving DecidableEq, Repr

/-- `&p[i]`. -/
def Pointer.add : Pointer → ℕ → Pointer
  | .source offset, i => .source (offset + i)
  | .history offset, i => .history (offset + i)

def Layout.address {srcSize : ℕ} (l : Layout srcSize) : Pointer → ℕ
  | .source offset => l.source + offset
  | .history offset => l.history + offset

inductive Access where
  | load (p : Pointer)
  | store (p : Pointer)
  | modulo (divisor : ℕ)
  deriving DecidableEq, Repr

def byteAt (src : List UInt8) (historyBuffer : ℕ → UInt8) : Pointer → UInt8
  | .source offset => src.getD offset 0
  | .history offset => historyBuffer offset

/-- `memcpy` of `n` bytes to the offset `dst` of `HistoryBuffer`. -/
def memcpy (src : List UInt8) (dst : ℕ) (p : Pointer) (n : ℕ) (historyBuffer : ℕ → UInt8) :
    Traced Access (ℕ → UInt8) := do
  accesses ((List.range n).map fun i => .load (p.add i))
  accesses ((List.range n).map fun i => .store (.history (dst + i)))
  pure (store historyBuffer dst ((List.range n).map fun i => byteAt src historyBuffer (p.add i)))

/-- The loop of `xcrush_copy_bytes`, from `a` up to `last` in steps of `diff`. -/
def copyBlocks (src : List UInt8) (dst : ℕ) (p : Pointer) (diff last : ℕ) :
    ℕ → ℕ → (ℕ → UInt8) → Traced Access (ℕ → UInt8)
  | 0, _, historyBuffer => pure historyBuffer
  | rounds + 1, a, historyBuffer =>
    if a < last then do
      let historyBuffer ← memcpy src (dst + a) (p.add a) diff historyBuffer
      copyBlocks src dst p diff last rounds (a + diff) historyBuffer
    else pure historyBuffer

/-- `xcrush_copy_bytes` to the offset `dst` of `HistoryBuffer`. -/
def xcrushCopyBytes {srcSize : ℕ} (l : Layout srcSize) (src : List UInt8) (dst : ℕ) (p : Pointer)
    (num : ℕ) (historyBuffer : ℕ → UInt8) : Traced Access (ℕ → UInt8) :=
  let dstAddress := l.address (.history dst)
  let srcAddress := l.address p
  if srcAddress + num < dstAddress ∨ srcAddress > dstAddress + num then
    memcpy src dst p num historyBuffer
  else do
    let diff := if dstAddress > srcAddress then dstAddress - srcAddress else srcAddress - dstAddress
    access (.modulo diff)
    let rest := num % diff
    let last := num - rest
    let historyBuffer ← copyBlocks src dst p diff last num 0 historyBuffer
    if rest ≠ 0 then memcpy src (dst + last) (p.add last) rest historyBuffer
    else pure historyBuffer

/-- `Data_Read_UINT16`. -/
def dataReadUInt16 (src : List UInt8) (offset : ℕ) : Traced Access ℕ := do
  accesses [.load (.source offset), .load (.source (offset + 1))]
  pure ((src.getD offset 0).toNat + (src.getD (offset + 1) 0).toNat * 2 ^ 8)

/-- `Data_Read_UINT32`. -/
def dataReadUInt32 (src : List UInt8) (offset : ℕ) : Traced Access ℕ := do
  let low ← dataReadUInt16 src offset
  let high ← dataReadUInt16 src (offset + 2)
  pure (low + high * 2 ^ 16)

/-! ### Matches -/

/-- `struct _RDP61_MATCH_DETAILS`. -/
structure MatchDetails where
  matchLength : ℕ
  matchOutputOffset : ℕ
  matchHistoryOffset : ℕ
  deriving DecidableEq, Repr

def readDetails (src : List UInt8) (matchIndex : ℕ) : Traced Access MatchDetails := do
  let matchLength ← dataReadUInt16 src (2 + 8 * matchIndex)
  let matchOutputOffset ← dataReadUInt16 src (2 + 8 * matchIndex + 2)
  let matchHistoryOffset ← dataReadUInt32 src (2 + 8 * matchIndex + 4)
  pure ⟨matchLength, matchOutputOffset, matchHistoryOffset⟩

/-- What the loop over the matches changes.  `literals` is an offset into the source and `historyPtr` one
into `HistoryBuffer`. -/
structure Walk where
  matchIndex : ℕ
  literals : ℕ
  historyPtr : ℕ
  outputOffset : ℕ
  historyBuffer : ℕ → UInt8

namespace Walk

/-- The loop is left with a status. -/
def leave (w : Walk) (status : ℤ) : Traced Access (Walk ⊕ (ℤ × Walk)) := pure (.inr (status, w))

/-- Literals are copied to the end of the history. -/
def copyLiterals {srcSize : ℕ} (l : Layout srcSize) (src : List UInt8) (outputLength : ℕ) (w : Walk) :
    Traced Access Walk := do
  let historyBuffer ←
    xcrushCopyBytes l src w.historyPtr (.source w.literals) outputLength w.historyBuffer
  pure
    { w with
      historyBuffer := historyBuffer
      historyPtr := w.historyPtr + outputLength
      literals := w.literals + outputLength
      outputOffset := w.outputOffset + outputLength }

/-- A match is copied to the end of the history. -/
def copyMatch {srcSize : ℕ} (l : Layout srcSize) (src : List UInt8) (m : MatchDetails) (w : Walk) :
    Traced Access (Walk ⊕ (ℤ × Walk)) :=
  if historyBufferSize ≤ w.historyPtr + m.matchLength ∨
      historyBufferSize ≤ m.matchHistoryOffset + m.matchLength then w.leave (-1011)
  else do
    let historyBuffer ←
      xcrushCopyBytes l src w.historyPtr (.history m.matchHistoryOffset) m.matchLength w.historyBuffer
    pure (.inl
      { w with
        historyBuffer := historyBuffer
        outputOffset := w.outputOffset + m.matchLength
        historyPtr := w.historyPtr + m.matchLength
        matchIndex := w.matchIndex + 1 })

/-- One test of the loop over the matches, and its body. -/
def step {srcSize : ℕ} (l : Layout srcSize) (src : List UInt8) (matchCount : ℕ) (w : Walk) :
    Traced Access (Walk ⊕ (ℤ × Walk)) :=
  if matchCount ≤ w.matchIndex then w.leave 1
  else do
    let m ← readDetails src w.matchIndex
    if m.matchOutputOffset < w.outputOffset then w.leave (-1005)
    else if m.matchLength > historyBufferSize then w.leave (-1006)
    else if m.matchHistoryOffset > historyBufferSize then w.leave (-1007)
    else
      let outputLength := m.matchOutputOffset - w.outputOffset
      if outputLength > historyBufferSize then w.leave (-1008)
      else if outputLength > 0 then
        if historyBufferSize ≤ w.historyPtr + outputLength ∨ src.length ≤ w.literals ∨
            src.length < w.literals + outputLength then w.leave (-1009)
        else do
          let w ← w.copyLiterals l src outputLength
          if src.length < w.literals then w.leave (-1010) else w.copyMatch l src m
      else w.copyMatch l src m

/-- What follows the matches: the rest of the source is literals. -/
def copyRest {srcSize : ℕ} (l : Layout srcSize) (src : List UInt8) (w : Walk) :
    Traced Access (ℤ × Walk) :=
  if w.literals < src.length then
    let outputLength := src.length - w.literals
    if historyBufferSize ≤ w.historyPtr + outputLength ∨ src.length < w.literals + outputLength then
      pure (-1012, w)
    else do
      let w ← w.copyLiterals l src outputLength
      pure (1, w)
  else pure (1, w)

end Walk

/-! ### `xcrush_decompress` -/

/-- What a call leaves: its status, the context, and the output as a range of `HistoryBuffer`. -/
structure Decompressed where
  status : ℤ
  xcrush : Context
  dst : ℕ
  dstSize : ℕ

/-- The call fails; what was copied stays in the history. -/
def Context.fail (xcrush : Context) (status : ℤ) (w : Walk) : Decompressed :=
  { status := status
    xcrush := { xcrush with historyBuffer := w.historyBuffer }
    dst := 0
    dstSize := 0 }

/-- The end of `xcrush_decompress_l1`, from the last literals on. -/
def Context.finish {srcSize : ℕ} (l : Layout srcSize) (src : List UInt8) (xcrush : Context) (w : Walk) :
    Traced Access Decompressed := do
  let (status, w) ← w.copyRest l src
  if status < 0 then pure (xcrush.fail status w)
  else
    pure
      { status := 1
        xcrush := { xcrush with historyBuffer := w.historyBuffer, historyOffset := w.historyPtr }
        dst := xcrush.historyOffset
        dstSize := w.historyPtr - xcrush.historyOffset }

/-- The loop over the matches for at most `rounds` rounds, and what follows it. -/
def Context.runMatches {srcSize : ℕ} (l : Layout srcSize) (src : List UInt8) (xcrush : Context)
    (matchCount rounds : ℕ) (w : Walk) : Traced Access (Option Decompressed) := do
  match ← loop (Walk.step l src matchCount) rounds w with
  | none => pure none
  | some (status, w) =>
    if status < 0 then pure (some (xcrush.fail status w))
    else
      let result ← xcrush.finish l src w
      pure (some result)

/-- The walk before its first match. -/
def Context.start (xcrush : Context) (literals : ℕ) : Walk :=
  { matchIndex := 0
    literals := literals
    historyPtr := xcrush.historyOffset
    outputOffset := 0
    historyBuffer := xcrush.historyBuffer }

/-- The effect of `L1_PACKET_AT_FRONT`. -/
def Context.applyFlags (xcrush : Context) (flags : ℕ) : Context :=
  if flags &&& L1_PACKET_AT_FRONT ≠ 0 then { xcrush with historyOffset := 0 } else xcrush

/-- `xcrush_decompress_l1`; `none` is a loop that had not ended in its number of rounds. -/
def xcrushDecompressL1 (src : List UInt8) (l : Layout src.length) (xcrush : Context) (flags : ℕ) :
    Traced Access (Option Decompressed) :=
  if src.length < 1 then pure (some (xcrush.fail (-1001) (xcrush.start 0)))
  else
    let xcrush := xcrush.applyFlags flags
    if flags &&& L1_NO_COMPRESSION ≠ 0 then do
      let result ← xcrush.finish l src (xcrush.start 0)
      pure (some result)
    else if flags &&& L1_COMPRESSED = 0 then pure (some (xcrush.fail (-1002) (xcrush.start 0)))
    else if src.length < 2 then pure (some (xcrush.fail (-1003) (xcrush.start 0)))
    else do
      let matchCount ← dataReadUInt16 src 0
      let w := xcrush.start (2 + 8 * matchCount)
      if src.length < w.literals then pure (some (xcrush.fail (-1004) w))
      else xcrush.runMatches l src matchCount (matchCount + 1) w

/-- The effect of `PACKET_FLUSHED`. -/
def Context.flush (xcrush : Context) (flags : ℕ) : Context :=
  if flags &&& PACKET_FLUSHED ≠ 0 then
    { xcrush with
      historyBuffer := fun i => if i < historyBufferSize then 0 else xcrush.historyBuffer i
      historyOffset := 0 }
  else xcrush

/-- `xcrush_decompress`.  `layout` says where the source of level 1 lies, which is in the packet or in the
history of MPPC. -/
def xcrushDecompress (layout : (n : ℕ) → Layout n) (xcrush : Context) (src : List UInt8) (flags : ℕ) :
    Except Mppc.Stop (Traced Access (Option Decompressed)) :=
  if src.length < 2 then .ok (pure (some (xcrush.fail (-1) (xcrush.start 0))))
  else
    let level1ComprFlags := (src.getD 0 0).toNat
    let level2ComprFlags := (src.getD 1 0).toNat
    let src := src.drop 2
    let xcrush := xcrush.flush flags
    if level2ComprFlags &&& PACKET_COMPRESSED = 0 then
      .ok (xcrushDecompressL1 src (layout src.length) xcrush level1ComprFlags)
    else
      match Mppc.mppcDecompress xcrush.mppc src level2ComprFlags with
      | .error stop => .error stop
      | .ok d =>
        let xcrush := { xcrush with mppc := d.mppc }
        let src := d.dst.getD []
        if d.status < 0 then .ok (pure (some (xcrush.fail d.status (xcrush.start 0))))
        else .ok (xcrushDecompressL1 src (layout src.length) xcrush level1ComprFlags)

end FreeRDP.Xcrush
