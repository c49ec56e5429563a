import FreeRDP.BitStream.Basic
import FreeRDP.Lib.Traced
import FreeRDP.Progressive.Decompress

/-!
# Upgrades of progressive tiles

`progressive_rfx_upgrade_component` of `codec/progressive.c` and what it is built on.  An upgrade
refines the coefficients of a component, sub-band by sub-band: the bits of a coefficient whose sign is
known come from the raw stream, those of the others from a run-length coded one.

A program records the number of bits that every sub-band is refined by, and the amounts of the shifts
on the way.  A shift of a 32-bit word by 32 or more is undefined in C: nothing is said about what comes
behind one.
-/

namespace FreeRDP.Progressive

/-- A sub-band of a component. -/
inductive Band where
  | LL3
  | HL3
  | LH3
  | HH3
  | HL2
  | LH2
  | HH2
  | HL1
  | LH1
  | HH1
deriving DecidableEq, Repr

def Quant.get (q : Quant) : Band → ℕ
  | .LL3 => q.LL3
  | .HL3 => q.HL3
  | .LH3 => q.LH3
  | .HH3 => q.HH3
  | .HL2 => q.HL2
  | .LH2 => q.LH2
  | .HH2 => q.HH2
  | .HL1 => q.HL1
  | .LH1 => q.LH1
  | .HH1 => q.HH1

/-- What an upgrade records: the number of bits that a sub-band is refined by, and the amount of a
shift. -/
inductive Event where
  | block (band : Band) (numBits : ℕ)
  | shift (amount : ℕ)

open Traced

/-! ### Streams -/

/-- The difference of two `UINT32` numbers. -/
def sub32 (a b : ℕ) : ℕ := (a + 2 ^ 32 - b) % 2 ^ 32

/-- The amounts by which `BitStream_Shift` shifts the words of a stream. -/
def shiftAmounts (bs : BitStream) (nbits : ℕ) : List ℕ :=
  if nbits = 0 then []
  else if nbits < 32 then
    let offset := bs.offset + nbits
    [nbits, nbits, sub32 32 nbits, nbits] ++
      if offset < 32 ∨ offset - 32 = 0 then []
      else [offset - 32, sub32 32 (offset - 32), offset - 32]
  else []

def bitStreamShift (bs : BitStream) (nbits : ℕ) : Traced Event BitStream := do
  accesses ((shiftAmounts bs nbits).map .shift)
  pure (bs.shift nbits)

/-- The next `n` bits of a stream, which leave it. -/
def readBits (bs : BitStream) (n : ℕ) : Traced Event (ℕ × BitStream) := do
  accesses [.shift n, .shift (sub32 32 n)]
  let mask := sub32 (1 <<< n % 2 ^ 32) 1
  let bits := (bs.accumulator >>> sub32 32 n) &&& mask
  let bs ← bitStreamShift bs n
  pure (bits, bs)

def readBit (bs : BitStream) : Traced Event (Bool × BitStream) := do
  let bit := bs.accumulator &&& 0x80000000 ≠ 0
  let bs ← bitStreamShift bs 1
  pure (bit, bs)

/-! ### Coefficients -/

/-- `RFX_PROGRESSIVE_UPGRADE_STATE`. -/
structure UpgradeState where
  nonLL : Bool
  srl : BitStream
  raw : BitStream
  kp : ℕ
  nz : ℕ
  mode : Bool

/-- The conversion to `INT16`. -/
def toInt16 (n : ℤ) : ℤ := n.bmod (2 ^ 16)

/-- The loop of `progressive_rfx_srl_read` with `rounds` rounds left before `mag` is `max`. -/
def srlMagnitude : ℕ → ℕ → BitStream → Traced Event (ℕ × BitStream)
  | 0, mag, bs => pure (mag, bs)
  | rounds + 1, mag, bs => do
    let (bit, bs) ← readBit bs
    if bit then pure (mag, bs) else srlMagnitude rounds (mag + 1) bs

/-- The unary encoding of `progressive_rfx_srl_read`: a sign and a magnitude. -/
def srlUnary (state : UpgradeState) (numBits : ℕ) : Traced Event (ℤ × UpgradeState) := do
  let (sign, srl) ← readBit state.srl
  let state :=
    { state with mode := false, srl := srl, kp := if state.kp < 6 then 0 else state.kp - 6 }
  if numBits = 1 then pure (if sign then -1 else 1, state)
  else do
    access (.shift numBits)
    let max := sub32 (1 <<< numBits % 2 ^ 32) 1
    let (mag, srl) ← srlMagnitude (max - 1) 1 state.srl
    pure (toInt16 (if sign then -mag else mag), { state with srl := srl })

/-- The length of a run of zeros that is shorter than `1 << k`. -/
def srlRun (state : UpgradeState) (k : ℕ) : Traced Event UpgradeState :=
  if k = 0 then pure { state with nz := 0, mode := true }
  else do
    let (nz, srl) ← readBits state.srl k
    pure { state with nz := nz, mode := true, srl := srl }

/-- `progressive_rfx_srl_read`. -/
def srlRead (state : UpgradeState) (numBits : ℕ) : Traced Event (ℤ × UpgradeState) :=
  if state.nz ≠ 0 then pure (0, { state with nz := state.nz - 1 })
  else if state.mode then srlUnary state numBits
  else do
    let k := state.kp / 8
    let (bit, srl) ← readBit state.srl
    let state := { state with srl := srl }
    if bit then do
      let state ← srlRun state k
      if state.nz ≠ 0 then pure (0, { state with nz := state.nz - 1 })
      else srlUnary state numBits
    else do
      access (.shift k)
      pure (0, { state with nz := 1 <<< k - 1, kp := min (state.kp + 4) 80 })

/-- The padding of a stream to whole bytes. -/
def pad (bs : BitStream) : ℕ := if bs.position % 8 ≠ 0 then 8 - bs.position % 8 else 0

/-- The last lines of `progressive_rfx_upgrade_state_finish`. -/
def skipLastByte (bs : BitStream) : Traced Event BitStream :=
  if bs.remainingLength = 8 then bitStreamShift bs 8 else pure bs

/-- `progressive_rfx_upgrade_state_finish`. -/
def upgradeStateFinish (state : UpgradeState) : Traced Event UpgradeState := do
  let raw ← bitStreamShift state.raw (pad state.raw)
  let srl ← bitStreamShift state.srl (pad state.srl)
  let srl ← skipLastByte srl
  pure { state with raw := raw, srl := srl }

/-! ### Components -/

/-- What a component is upgraded in: the state and the arrays `current` and `sign`. -/
structure Upgrade where
  state : UpgradeState
  current : ℕ → ℤ
  sign : ℕ → ℤ

/-- `buffer[index] += input << shift`. -/
def Upgrade.add (u : Upgrade) (index : ℕ) (input : ℤ) (shift : ℕ) : Upgrade :=
  { u with current :=
    Function.update u.current index (toInt16 (u.current index + input * 2 ^ shift)) }

/-- The next bits of the raw stream, as `INT16`. -/
def readRaw (u : Upgrade) (numBits : ℕ) : Traced Event (ℤ × Upgrade) := do
  let (input, raw) ← readBits u.state.raw numBits
  pure (toInt16 input, { u with state := { u.state with raw := raw } })

/-- What the coefficient `index` outside LL3 is refined by. -/
def readInput (u : Upgrade) (numBits index : ℕ) : Traced Event (ℤ × Upgrade) :=
  if u.sign index > 0 then readRaw u numBits
  else if u.sign index < 0 then do
    let (input, u) ← readRaw u numBits
    pure (toInt16 (-input), u)
  else do
    let (input, state) ← srlRead u.state numBits
    pure (input, { u with state := state, sign := Function.update u.sign index input })

/-- What the coefficient `index` is refined by: those of LL3 have no sign. -/
def readCoefficient (u : Upgrade) (numBits index : ℕ) : Traced Event (ℤ × Upgrade) :=
  if u.state.nonLL then readInput u numBits index else readRaw u numBits

/-- A round of `progressive_rfx_upgrade_block`. -/
def upgradeIndex (shift numBits : ℕ) (u : Upgrade) (index : ℕ) : Traced Event Upgrade := do
  let (input, u) ← readCoefficient u numBits index
  access (.shift shift)
  pure (u.add index input shift)

/-- `progressive_rfx_upgrade_block`: the coefficients from `offset` on. -/
def upgradeBlock (u : Upgrade) (offset length shift numBits : ℕ) : Traced Event Upgrade :=
  if numBits = 0 then pure u
  else (List.range' offset length).foldlM (upgradeIndex shift numBits) u

/-- The sub-bands of a component, with their offsets and lengths. -/
def upgradeBands : List (Band × ℕ × ℕ) :=
  [(.HL1, 0, 1023), (.LH1, 1023, 1023), (.HH1, 2046, 961), (.HL2, 3007, 272), (.LH2, 3279, 272),
    (.HH2, 3551, 256), (.HL3, 3807, 72), (.LH3, 3879, 72), (.HH3, 3951, 64), (.LL3, 4015, 81)]

def Upgrade.enter (u : Upgrade) (band : Band) : Upgrade :=
  { u with state := { u.state with nonLL := band ≠ .LL3 } }

/-- The call of `progressive_rfx_upgrade_block` for a sub-band. -/
def upgradeBand (shift numBits : Quant) (u : Upgrade) : Band × ℕ × ℕ → Traced Event Upgrade
  | (band, offset, length) => do
    access (.block band (numBits.get band))
    upgradeBlock (u.enter band) offset length (shift.get band) (numBits.get band)

/-- A stream at the head of some bytes. -/
def attach (data : List UInt8) : BitStream :=
  (BitStream.new.attach (fun i => data.getD i 0) data.length).fetch

def startUpgrade (current sign : List ℤ) (srlData rawData : List UInt8) : Upgrade where
  state :=
    { nonLL := true, srl := attach srlData, raw := attach rawData, kp := 8, nz := 0, mode := false }
  current := fun i => current.getD i 0
  sign := fun i => sign.getD i 0

/-- `progressive_rfx_upgrade_component`.  `dwt2dDecode` is `progressive_rfx_dwt_2d_decode`, which
leaves the coefficients of `current` as they are: whether it succeeds, and the buffer. -/
def upgradeComponent (dwt2dDecode : List ℤ → Bool → Bool → Bool × List ℤ)
    (shift _bitPos numBits : Quant) (current sign : List ℤ) (srlData rawData : List UInt8)
    (coeffDiff _subbandDiff extrapolate : Bool) : Traced Event Component := do
  let u ← upgradeBands.foldlM (upgradeBand shift numBits)
    (startUpgrade current sign srlData rawData)
  let state ← upgradeStateFinish u.state
  let current := (List.range 4096).map u.current
  let sign := (List.range 4096).map u.sign
  let aRawLen := (state.raw.position + 7) % 2 ^ 32 / 8
  let aSrlLen := (state.srl.position + 7) % 2 ^ 32 / 8
  if aRawLen ≠ rawData.length ∨ aSrlLen ≠ srlData.length then pure ⟨false, [], current, sign⟩
  else
    let (ok, buffer) := dwt2dDecode current coeffDiff extrapolate
    pure ⟨ok, buffer, current, sign⟩

/-! ### Tiles -/

inductive Channel where
  | y
  | cb
  | cr
deriving DecidableEq, Repr

def Tile.bitPos (tile : Tile) : Channel → Quant
  | .y => tile.yBitPos
  | .cb => tile.cbBitPos
  | .cr => tile.crBitPos

variable (env : Env) (dwt2dDecode : List ℤ → Bool → Bool → Bool × List ℤ)

/-- The surroundings in which the components are upgraded by `upgradeComponent`. -/
def upgradingEnv : Env :=
  { env with
    upgradeComponent := fun shift bitPos numBits current sign srlData rawData coeffDiff sub ext =>
      (upgradeComponent dwt2dDecode shift bitPos numBits current sign srlData rawData coeffDiff sub
        ext).value }

/-- `runComponents` with what the components record: a component is only transformed if those before
it have been. -/
def runTraced (format : ℕ) (tile : Tile) (y cb cr : Traced Event Component) :
    Traced (Channel × Event) Tile := do
  let yDone ← y.map (Prod.mk .y)
  if yDone.ok then do
    let cbDone ← cb.map (Prod.mk .cb)
    if cbDone.ok then do
      let crDone ← cr.map (Prod.mk .cr)
      pure (runComponents env format tile yDone cbDone crDone)
    else pure (runComponents env format tile yDone cbDone cr.value)
  else pure (runComponents env format tile yDone cb.value cr.value)

/-- `progressive_decompress_tile_upgrade`, with what it records. -/
def decompressTileUpgradeTraced (format contextFlags : ℕ) (region : BlockRegion) (tile : Tile) :
    Traced (Channel × Event) Tile :=
  upgradeTile (upgradeComponent dwt2dDecode) (runTraced env format) pure contextFlags region tile

/-- `progressive_process_tiles_tile_work_callback`, with what an upgrade records. -/
def tileWorkTraced (format contextFlags : ℕ) (region : BlockRegion) (tile : Tile) :
    Traced (Channel × Event) Tile :=
  if tile.blockType = PROGRESSIVE_WBT_TILE_SIMPLE ∨ tile.blockType = PROGRESSIVE_WBT_TILE_FIRST then
    pure (decompressTileFirst env format contextFlags region tile)
  else if tile.blockType = PROGRESSIVE_WBT_TILE_UPGRADE then
    decompressTileUpgradeTraced env dwt2dDecode format contextFlags region tile
  else pure tile

/-! ### The history of a tile -/

/-- What can happen to a tile of the surface: a tile block replaces it, and it is decoded in a
region. -/
inductive Action where
  | replace (block : Tile) (upgrade : Bool)
  | work (format contextFlags : ℕ) (region : BlockRegion)

/-- What an action makes of a tile, and records. -/
def Action.perform (tile : Tile) : Action → Traced (Channel × Event) Tile
  | .replace block upgrade => pure (tile.replace block upgrade)
  | .work format contextFlags region =>
    tileWorkTraced env dwt2dDecode format contextFlags region tile

/-- The progressive quantization values of a component. -/
def ProgQuant.get (prog : ProgQuant) : Channel → Quant
  | .y => prog.yQuantValues
  | .cb => prog.cbQuantValues
  | .cr => prog.crQuantValues

/-- The tables of a region that `progressive_wb_region` has let pass. -/
structure BlockRegion.Accepted (region : BlockRegion) : Prop where
  length : region.quantVals.length = region.numQuant
  quantVals : ∀ quant ∈ region.quantVals, quant.inRange
  quantProgVals : ∀ prog ∈ region.quantProgVals, ∀ channel band,
    ((prog.get channel).get band) < 2 ^ 4

/-- An action with a region that has been accepted. -/
def Action.Accepted : Action → Prop
  | .replace _ _ => True
  | .work _ _ region => region.Accepted

def Acts (tile : Tile) (action : Action) (next : Tile) : Prop :=
  action.Accepted ∧ next = (action.perform env dwt2dDecode tile).value

end FreeRDP.Progressive
