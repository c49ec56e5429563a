import FreeRDP.BitStream.Equiv
import FreeRDP.Lib.Run
import FreeRDP.Progressive.Equiv.Copies
import FreeRDP.Progressive.Upgrade

/-!
# Upgrades stay within their words

The amounts of the shifts of an upgrade depend on three numbers: where a stream stands in its word, the
run-length parameter `kp`, and the number of bits that a sub-band is refined by.  The first two keep to
their bounds whatever the streams hold (`UpgradeState.Bounded`); the third is a difference of bytes, and
in its bounds as long as the bit positions of a tile do not grow.
-/

namespace FreeRDP.Progressive

open Traced Triples

/-! ### Bands -/

@[simp] theorem get_quantAdd (q1 q2 : Quant) (band : Band) :
    (quantAdd q1 q2).get band = (q1.get band + q2.get band) % 2 ^ 8 := by
  cases band <;> rfl

@[simp] theorem get_quantSub (q1 q2 : Quant) (band : Band) :
    (quantSub q1 q2).get band = (q1.get band + 2 ^ 8 - q2.get band) % 2 ^ 8 := by
  cases band <;> rfl

@[simp] theorem get_all (n : ℕ) (band : Band) : (Quant.all n).get band = n := by
  cases band <;> rfl

theorem get_mem_toList (q : Quant) (band : Band) : q.get band ∈ q.toList := by
  cases band <;> simp [Quant.get, Quant.toList]

/-- A difference that does not wrap is that of the numbers. -/
theorem get_quantSub_of_le {q1 q2 : Quant} {band : Band} (h : q2.get band ≤ q1.get band)
    (h1 : q1.get band < 2 ^ 8) : (quantSub q1 q2).get band = q1.get band - q2.get band := by
  rw [get_quantSub]
  omega

/-! ### Streams -/

/-- A record that is in order: a sub-band is refined by the number of bits that it is to be refined
by, and a shift is by less than the size of a word. -/
def Event.Within (numBits : Quant) : Event → Prop
  | .block band n => n = numBits.get band
  | .shift amount => amount ≤ 31

theorem sub32_of_le {a b : ℕ} (h : b ≤ a) (ha : a < 2 ^ 32) : sub32 a b = a - b := by
  unfold sub32
  omega

variable {numBits : Quant}

theorem shiftAmounts_le {bs : BitStream} (h : bs.offset < 32) (n : ℕ) :
    ∀ amount ∈ shiftAmounts bs n, amount ≤ 31 := by
  unfold shiftAmounts
  split_ifs with h0 hn
  · exact fun _ => nofun
  · dsimp only
    rw [sub32_of_le (by omega) (by omega), sub32_of_le (by omega) (by omega)]
    intro amount hamount
    split_ifs at hamount with hword
    · simp only [List.append_nil, List.mem_cons, List.not_mem_nil, or_false] at hamount
      omega
    · simp only [List.cons_append, List.nil_append, List.mem_cons, List.not_mem_nil,
        or_false] at hamount
      omega
  · exact fun _ => nofun

theorem bitStreamShift_spec {bs : BitStream} (h : bs.offset < 32) (n : ℕ) :
    (bitStreamShift bs n).Ensures (Event.Within numBits) fun bs' => bs'.offset < 32 := by
  constructor
  · refine (safe_bind _ _).mpr ⟨?_, (safe_pure _).mpr trivial⟩
    rw [safe_accesses, List.forall_mem_map]
    exact shiftAmounts_le h n
  · exact BitStream.offset_shift_lt h n

theorem readBits_spec {bs : BitStream} (h : bs.offset < 32) {n : ℕ} (h0 : 0 < n) (hn : n ≤ 31) :
    (readBits bs n).Ensures (Event.Within numBits) fun r => r.2.offset < 32 := by
  have hamounts : (accesses [.shift n, .shift (sub32 32 n)] : Traced Event Unit).Ensures
      (Event.Within numBits) fun _ => True := by
    refine ⟨(safe_accesses _).mpr ?_, trivial⟩
    rw [sub32_of_le (by omega) (by omega), List.forall_mem_cons, List.forall_mem_singleton]
    exact ⟨hn, show 32 - n ≤ 31 by omega⟩
  refine hamounts.bind fun _ _ => (bitStreamShift_spec h n).bind fun bs' hbs' => ?_
  exact ensures_pure hbs'

theorem readBit_spec {bs : BitStream} (h : bs.offset < 32) :
    (readBit bs).Ensures (Event.Within numBits) fun r => r.2.offset < 32 :=
  (bitStreamShift_spec h 1).bind fun _ hbs' => ensures_pure hbs'

theorem access_shift_spec {amount : ℕ} (h : amount ≤ 31) :
    (access (.shift amount)).Ensures (Event.Within numBits) fun _ => True :=
  ⟨(safe_access _).mpr h, trivial⟩

/-! ### Coefficients -/

/-- What the state keeps to whatever the streams hold. -/
structure UpgradeState.Bounded (state : UpgradeState) : Prop where
  srl : state.srl.offset < 32
  raw : state.raw.offset < 32
  kp : state.kp ≤ 80

theorem srlMagnitude_spec (rounds mag : ℕ) {bs : BitStream} (h : bs.offset < 32) :
    (srlMagnitude rounds mag bs).Ensures (Event.Within numBits) fun r => r.2.offset < 32 := by
  induction rounds generalizing mag bs with
  | zero => exact ensures_pure h
  | succ rounds ih =>
    refine (readBit_spec h).bind ?_
    rintro ⟨bit, bs'⟩ hbs'
    exact ensures_ite (fun _ => ensures_pure hbs') fun _ => ih (mag + 1) hbs'

variable {state : UpgradeState} {n : ℕ}

theorem srlUnary_spec (h : state.Bounded) (hn : n ≤ 31) :
    (srlUnary state n).Ensures (Event.Within numBits) fun r => r.2.Bounded := by
  refine (readBit_spec h.srl).bind ?_
  rintro ⟨sign, srl⟩ hsrl
  have hkp : (if state.kp < 6 then 0 else state.kp - 6) ≤ 80 := by
    have := h.kp
    split_ifs <;> omega
  refine ensures_ite (fun _ => ?_) (fun _ => ?_)
  · exact ensures_pure ⟨hsrl, h.raw, hkp⟩
  · refine (access_shift_spec hn).bind fun _ _ => (srlMagnitude_spec _ 1 hsrl).bind ?_
    rintro ⟨mag, srl'⟩ hsrl'
    exact ensures_pure ⟨hsrl', h.raw, hkp⟩

theorem srlRun_spec (h : state.Bounded) {k : ℕ} (hk : k ≤ 31) :
    (srlRun state k).Ensures (Event.Within numBits) UpgradeState.Bounded := by
  unfold srlRun
  split_ifs with h0
  · exact ensures_pure ⟨h.srl, h.raw, h.kp⟩
  · refine (readBits_spec h.srl (Nat.pos_of_ne_zero h0) hk).bind ?_
    rintro ⟨nz, srl⟩ hsrl
    exact ensures_pure ⟨hsrl, h.raw, h.kp⟩

theorem srlRead_spec (h : state.Bounded) (hn : n ≤ 31) :
    (srlRead state n).Ensures (Event.Within numBits) fun r => r.2.Bounded := by
  have hk : state.kp / 8 ≤ 31 := by
    have := h.kp
    omega
  unfold srlRead
  split_ifs with hnz hmode
  · exact ensures_pure ⟨h.srl, h.raw, h.kp⟩
  · exact srlUnary_spec h hn
  · refine (readBit_spec h.srl).bind ?_
    rintro ⟨bit, srl⟩ hsrl
    refine ensures_ite (fun _ => ?_) (fun _ => ?_)
    · have hstate : UpgradeState.Bounded { state with srl := srl } := ⟨hsrl, h.raw, h.kp⟩
      refine (srlRun_spec hstate hk).bind fun state' hstate' => ?_
      refine ensures_ite (fun _ => ?_) (fun _ => ?_)
      · exact ensures_pure ⟨hstate'.srl, hstate'.raw, hstate'.kp⟩
      · exact srlUnary_spec hstate' hn
    · exact (access_shift_spec hk).bind fun _ _ =>
        ensures_pure ⟨hsrl, h.raw, Nat.min_le_right _ _⟩

theorem skipLastByte_spec {bs : BitStream} (h : bs.offset < 32) :
    (skipLastByte bs).Ensures (Event.Within numBits) fun bs' => bs'.offset < 32 := by
  unfold skipLastByte
  split_ifs
  · exact bitStreamShift_spec h 8
  · exact ensures_pure h

theorem upgradeStateFinish_spec (h : state.Bounded) :
    (upgradeStateFinish state).Ensures (Event.Within numBits) UpgradeState.Bounded := by
  refine (bitStreamShift_spec h.raw _).bind fun raw hraw => ?_
  refine (bitStreamShift_spec h.srl _).bind fun srl hsrl => ?_
  refine (skipLastByte_spec hsrl).bind fun srl' hsrl' => ?_
  exact ensures_pure ⟨hsrl', hraw, h.kp⟩

/-! ### Components -/

variable {u : Upgrade}

theorem readRaw_spec (h : u.state.Bounded) (h0 : 0 < n) (hn : n ≤ 31) :
    (readRaw u n).Ensures (Event.Within numBits) fun r => r.2.state.Bounded := by
  refine (readBits_spec h.raw h0 hn).bind ?_
  rintro ⟨input, raw⟩ hraw
  exact ensures_pure ⟨h.srl, hraw, h.kp⟩

theorem readInput_spec (h : u.state.Bounded) (h0 : 0 < n) (hn : n ≤ 31) (index : ℕ) :
    (readInput u n index).Ensures (Event.Within numBits) fun r => r.2.state.Bounded := by
  unfold readInput
  split_ifs with hpos hneg
  · exact readRaw_spec h h0 hn
  · refine (readRaw_spec h h0 hn).bind ?_
    rintro ⟨input, u'⟩ hu'
    exact ensures_pure hu'
  · refine (srlRead_spec h hn).bind ?_
    rintro ⟨input, state'⟩ hstate'
    exact ensures_pure hstate'

theorem upgradeIndex_spec (h : u.state.Bounded) (h0 : 0 < n) (hn : n ≤ 31) {shift : ℕ}
    (hshift : shift ≤ 31) (index : ℕ) :
    (upgradeIndex shift n u index).Ensures (Event.Within numBits) fun u' => u'.state.Bounded := by
  have hinput : (readCoefficient u n index).Ensures (Event.Within numBits)
      fun r => r.2.state.Bounded :=
    ensures_ite (fun _ => readInput_spec h h0 hn index) fun _ => readRaw_spec h h0 hn
  refine hinput.bind ?_
  rintro ⟨input, u'⟩ hu'
  exact (access_shift_spec hshift).bind fun _ _ => ensures_pure hu'

theorem upgradeBlock_spec (h : u.state.Bounded) (hn : n ≤ 31) {shift : ℕ} (hshift : shift ≤ 31)
    (offset length : ℕ) :
    (upgradeBlock u offset length shift n).Ensures (Event.Within numBits)
      fun u' => u'.state.Bounded := by
  unfold upgradeBlock
  split_ifs with h0
  · exact ensures_pure h
  · exact ensures_foldlM (I := fun u' : Upgrade => u'.state.Bounded) _ h fun u' index _ hu' =>
      upgradeIndex_spec hu' (Nat.pos_of_ne_zero h0) hn hshift index

theorem upgradeBand_spec (h : u.state.Bounded) {shift : Quant} (hn : ∀ band, numBits.get band ≤ 31)
    (hshift : ∀ band, shift.get band ≤ 31) (block : Band × ℕ × ℕ) :
    (upgradeBand shift numBits u block).Ensures (Event.Within numBits)
      fun u' => u'.state.Bounded := by
  obtain ⟨band, offset, length⟩ := block
  have hblock : (access (.block band (numBits.get band))).Ensures (Event.Within numBits)
      fun _ => True := ⟨(safe_access _).mpr rfl, trivial⟩
  have henter : (u.enter band).state.Bounded := ⟨h.srl, h.raw, h.kp⟩
  exact hblock.bind fun _ _ => upgradeBlock_spec henter (hn band) (hshift band) offset length

theorem offset_attach (data : List UInt8) : (attach data).offset < 32 :=
  (BitStream.readsAt_fetch _ _ _).offset_lt

/-- A component keeps to the words if no sub-band is refined by more than 31 bits. -/
theorem upgradeComponent_safe (dwt2dDecode : List ℤ → Bool → Bool → Bool × List ℤ)
    {shift : Quant} (hn : ∀ band, numBits.get band ≤ 31) (hshift : ∀ band, shift.get band ≤ 31)
    (bitPos : Quant) (current sign : List ℤ) (srlData rawData : List UInt8)
    (coeffDiff subbandDiff extrapolate : Bool) :
    (upgradeComponent dwt2dDecode shift bitPos numBits current sign srlData rawData coeffDiff
      subbandDiff extrapolate).Safe (Event.Within numBits) := by
  have hbands : (upgradeBands.foldlM (upgradeBand shift numBits)
      (startUpgrade current sign srlData rawData)).Ensures (Event.Within numBits)
      fun u => u.state.Bounded :=
    ensures_foldlM _ ⟨offset_attach srlData, offset_attach rawData, show 8 ≤ 80 by decide⟩
      fun u block _ hu => upgradeBand_spec hu hn hshift block
  refine (safe_bind _ _).mpr ⟨hbands.1, (safe_bind _ _).mpr ⟨?_, ?_⟩⟩
  · exact (upgradeStateFinish_spec hbands.2).1
  · dsimp only
    split_ifs <;> exact (safe_pure _).mpr trivial

/-! ### Tiles -/

/-- The bit positions that the quantization values of a tile lead to. -/
def newBitPos : Quant × Quant × Quant × ProgQuant → Channel → Quant
  | (quantY, _, _, prog), .y => quantAdd quantY prog.yQuantValues
  | (_, quantCb, _, prog), .cb => quantAdd quantCb prog.cbQuantValues
  | (_, _, quantCr, prog), .cr => quantAdd quantCr prog.crQuantValues

/-- A record of an upgrade that is in order: a sub-band is refined by the difference of its bit
positions, and a shift is by less than the size of a word. -/
def Refines (old new : Tile) : Channel × Event → Prop
  | (channel, .block band numBits) =>
    (numBits : ℤ) = (old.bitPos channel).get band - (new.bitPos channel).get band ∧ numBits ≤ 30
  | (_, .shift amount) => amount ≤ 31

variable (env : Env) (dwt2dDecode : List ℤ → Bool → Bool → Bool × List ℤ)
  (format contextFlags : ℕ) {region : BlockRegion} {tile : Tile}
  {quants : Quant × Quant × Quant × ProgQuant}

theorem value_runTraced (tile : Tile) (y cb cr : Traced Event Component) :
    (runTraced env format tile y cb cr).value =
      runComponents env format tile y.value cb.value cr.value := by
  unfold runTraced
  rw [value_bind, value_map, value_ite, value_bind, value_map, value_ite, value_bind, value_map]
  split_ifs <;> rfl

theorem safe_runTraced {P : Channel × Event → Prop} {y cb cr : Traced Event Component}
    (hy : y.Safe fun e => P (.y, e)) (hcb : cb.Safe fun e => P (.cb, e))
    (hcr : cr.Safe fun e => P (.cr, e)) (tile : Tile) :
    (runTraced env format tile y cb cr).Safe P := by
  refine (safe_bind _ _).mpr ⟨(safe_map _ _).mpr hy, safe_ite.mpr ⟨fun _ => ?_, fun _ => ?_⟩⟩
  · refine (safe_bind _ _).mpr ⟨(safe_map _ _).mpr hcb, safe_ite.mpr ⟨fun _ => ?_, fun _ => ?_⟩⟩
    · exact (safe_bind _ _).mpr ⟨(safe_map _ _).mpr hcr, (safe_pure _).mpr trivial⟩
    · exact (safe_pure _).mpr trivial
  · exact (safe_pure _).mpr trivial

@[simp] theorem bitPos_runComponents (tile : Tile) (y cb cr : Component) (channel : Channel) :
    (runComponents env format tile y cb cr).bitPos channel = tile.bitPos channel := by
  unfold runComponents
  dsimp only
  split_ifs <;> cases channel <;> rfl

/-- What is recorded does not change what is computed. -/
theorem value_decompressTileUpgradeTraced (region : BlockRegion) (tile : Tile) :
    (decompressTileUpgradeTraced env dwt2dDecode format contextFlags region tile).value =
      decompressTileUpgrade (upgradingEnv env dwt2dDecode) format contextFlags region tile := by
  unfold decompressTileUpgradeTraced decompressTileUpgrade upgradeTile
  dsimp only
  cases tileQuants { tile with pass := (tile.pass + 1) % 2 ^ 16 } region with
  | none => rfl
  | some quants => exact value_runTraced env format _ _ _ _

theorem value_tileWorkTraced (region : BlockRegion) (tile : Tile) :
    (tileWorkTraced env dwt2dDecode format contextFlags region tile).value =
      tileWork (upgradingEnv env dwt2dDecode) format contextFlags region tile := by
  unfold tileWorkTraced tileWork
  rw [value_ite, value_ite, value_decompressTileUpgradeTraced]
  rfl

/-- The bit positions of a tile once it has been decoded: those that its quantization values lead to,
or the old ones where these are refused. -/
def workedBitPos (region : BlockRegion) (tile : Tile) (channel : Channel) : Quant :=
  match tileQuants tile region with
  | none => tile.bitPos channel
  | some quants => newBitPos quants channel

theorem bitPos_decompressTileFirst (region : BlockRegion) (tile : Tile) (channel : Channel) :
    (decompressTileFirst env format contextFlags region tile).bitPos channel =
      workedBitPos region tile channel := by
  have hquants : tileQuants { tile with pass := 1 } region = tileQuants tile region := rfl
  unfold decompressTileFirst workedBitPos
  dsimp only
  rw [hquants]
  cases tileQuants tile region with
  | none => cases channel <;> rfl
  | some quants =>
    refine (bitPos_runComponents ..).trans ?_
    cases channel <;> rfl

theorem bitPos_decompressTileUpgrade (region : BlockRegion) (tile : Tile) (channel : Channel) :
    (decompressTileUpgrade env format contextFlags region tile).bitPos channel =
      workedBitPos region tile channel := by
  have hquants : tileQuants { tile with pass := (tile.pass + 1) % 2 ^ 16 } region =
    tileQuants tile region := rfl
  unfold decompressTileUpgrade upgradeTile workedBitPos
  dsimp only
  rw [hquants]
  cases tileQuants tile region with
  | none => cases channel <;> rfl
  | some quants =>
    refine (bitPos_runComponents ..).trans ?_
    cases channel <;> rfl

@[simp] theorem bitPos_replace (tile block : Tile) (upgrade : Bool) (channel : Channel) :
    (tile.replace block upgrade).bitPos channel = tile.bitPos channel := by
  unfold Tile.replace
  cases upgrade <;> cases channel <;> rfl

theorem bitPos_tileWork (region : BlockRegion) (tile : Tile) (channel : Channel) :
    (tileWork env format contextFlags region tile).bitPos channel = tile.bitPos channel ∨
      (tileWork env format contextFlags region tile).bitPos channel =
        workedBitPos region tile channel := by
  unfold tileWork
  split_ifs
  · exact .inr (bitPos_decompressTileFirst ..)
  · exact .inr (bitPos_decompressTileUpgrade ..)
  · exact .inl rfl

/-! ### Accepted tables -/

theorem inRange_get {quant : Quant} (h : quant.inRange) (band : Band) :
    6 ≤ quant.get band ∧ quant.get band ≤ 15 := by
  have hall := List.all_eq_true.mp h _ (get_mem_toList quant band)
  exact of_decide_eq_true hall

/-- The quantization values that are selected are among those of the region. -/
theorem getD_mem {region : BlockRegion} (h : region.Accepted) {i : ℕ} (hi : ¬ i ≥ region.numQuant) :
    region.quantVals.getD i (Quant.all 0) ∈ region.quantVals := by
  have hlt : i < region.quantVals.length := by
    rw [h.length]
    omega
  rw [List.getD_eq_getElem _ _ hlt]
  exact List.getElem_mem hlt

theorem progQuant_lt {region : BlockRegion} (h : region.Accepted) (i : ℕ) (channel : Channel)
    (band : Band) :
    ((region.quantProgVals.getD i quantProgValFull).get channel).get band < 2 ^ 4 := by
  rcases Nat.lt_or_ge i region.quantProgVals.length with hi | hi
  · rw [List.getD_eq_getElem _ _ hi]
    exact h.quantProgVals _ (List.getElem_mem hi) channel band
  · rw [List.getD_eq_default _ _ hi]
    cases channel <;> exact (get_all 0 band).trans_lt (Nat.two_pow_pos 4)

theorem get_quantAdd_mem {quant prog : Quant} (h : quant.inRange) {band : Band}
    (hprog : prog.get band < 2 ^ 4) :
    6 ≤ (quantAdd quant prog).get band ∧ (quantAdd quant prog).get band ≤ 30 := by
  have hquant := inRange_get h band
  rw [get_quantAdd]
  omega

/-- The bit positions that accepted tables lead to. -/
theorem newBitPos_mem (h : region.Accepted) (hquants : tileQuants tile region = some quants)
    (channel : Channel) (band : Band) :
    6 ≤ (newBitPos quants channel).get band ∧ (newBitPos quants channel).get band ≤ 30 := by
  unfold tileQuants at hquants
  dsimp only at hquants
  split_ifs at hquants with hindex hfull hquality
  all_goals
    simp only [not_or] at hindex
    obtain ⟨hy, hcb, hcr⟩ := hindex
    have hquantVals := fun i hi => h.quantVals _ (getD_mem h (i := i) hi)
    rw [← Option.some.inj hquants]
  · have hzero : (Quant.all 0).get band < 2 ^ 4 := (get_all 0 band).trans_lt (Nat.two_pow_pos 4)
    cases channel with
    | y => exact get_quantAdd_mem (hquantVals _ hy) hzero
    | cb => exact get_quantAdd_mem (hquantVals _ hcb) hzero
    | cr => exact get_quantAdd_mem (hquantVals _ hcr) hzero
  · have hprog := fun channel => progQuant_lt h tile.quality channel band
    cases channel with
    | y => exact get_quantAdd_mem (hquantVals _ hy) (hprog .y)
    | cb => exact get_quantAdd_mem (hquantVals _ hcb) (hprog .cb)
    | cr => exact get_quantAdd_mem (hquantVals _ hcr) (hprog .cr)

/-! ### Upgrades that improve -/

/-- The bit positions of a tile are within those that tables can lead to. -/
def Tile.Bounded (tile : Tile) : Prop := ∀ channel band, (tile.bitPos channel).get band ≤ 30

/-- No bit position of a tile grows where it is upgraded. -/
def Action.Improves (tile : Tile) : Action → Prop
  | .replace _ _ => True
  | .work _ _ region => tile.blockType = PROGRESSIVE_WBT_TILE_UPGRADE → ∀ channel band,
    (workedBitPos region tile channel).get band ≤ (tile.bitPos channel).get band

theorem workedBitPos_le (h : region.Accepted) (htile : tile.Bounded) (channel : Channel)
    (band : Band) : (workedBitPos region tile channel).get band ≤ 30 := by
  unfold workedBitPos
  split
  · exact htile channel band
  · next hquants => exact (newBitPos_mem h hquants channel band).2

theorem Event.Within.refines {old new : Tile} {channel : Channel}
    (h : ∀ band, (numBits.get band : ℤ) =
      (old.bitPos channel).get band - (new.bitPos channel).get band ∧ numBits.get band ≤ 30)
    {event : Event} (hevent : event.Within numBits) : Refines old new (channel, event) := by
  cases event with
  | block band n =>
    have hn : n = numBits.get band := hevent
    rw [hn]
    exact h band
  | shift amount => exact hevent

/-- The upgrade of a component from bit positions that do not grow. -/
theorem component_refines {old new : Tile} {channel : Channel} {q : Quant}
    (hq : new.bitPos channel = q) (hmem : ∀ band, 6 ≤ q.get band ∧ q.get band ≤ 30)
    (hold : old.Bounded) (hle : ∀ band, q.get band ≤ (old.bitPos channel).get band)
    (bitPos : Quant) (current sign : List ℤ) (srlData rawData : List UInt8)
    (coeffDiff subbandDiff extrapolate : Bool) :
    (upgradeComponent dwt2dDecode (quantLsub q 1) bitPos (quantSub (old.bitPos channel) q) current
      sign srlData rawData coeffDiff subbandDiff extrapolate).Safe
      fun event => Refines old new (channel, event) := by
  have hnumBits : ∀ band, (quantSub (old.bitPos channel) q).get band =
      (old.bitPos channel).get band - q.get band := fun band =>
    get_quantSub_of_le (hle band) ((hold channel band).trans_lt (by decide))
  have hshift : ∀ band, (quantLsub q 1).get band ≤ 31 := by
    intro band
    have := hmem band
    rw [quantLsub, get_quantSub, get_all]
    omega
  have hn : ∀ band, (quantSub (old.bitPos channel) q).get band ≤ 31 := by
    intro band
    have := hold channel band
    rw [hnumBits]
    omega
  refine (upgradeComponent_safe dwt2dDecode hn hshift bitPos current sign srlData rawData
    coeffDiff subbandDiff extrapolate).mono fun event hevent => hevent.refines fun band => ?_
  have hb := hold channel band
  have hl := hle band
  rw [hnumBits, hq]
  omega

theorem decompressTileUpgradeTraced_refines (h : region.Accepted) (htile : tile.Bounded)
    (hle : ∀ channel band,
      (workedBitPos region tile channel).get band ≤ (tile.bitPos channel).get band)
    {new : Tile} (hnew : ∀ channel, new.bitPos channel = workedBitPos region tile channel) :
    (decompressTileUpgradeTraced env dwt2dDecode format contextFlags region tile).Safe
      (Refines tile new) := by
  have hquants : tileQuants { tile with pass := (tile.pass + 1) % 2 ^ 16 } region =
    tileQuants tile region := rfl
  unfold decompressTileUpgradeTraced upgradeTile
  dsimp only
  rw [hquants]
  cases hsome : tileQuants tile region with
  | none => exact (safe_pure _).mpr trivial
  | some quants =>
    have hworked : ∀ channel, workedBitPos region tile channel = newBitPos quants channel := by
      intro channel
      rw [workedBitPos, hsome]
    have hmem := newBitPos_mem h hsome
    simp only [hworked] at hle hnew
    refine safe_runTraced env format ?_ ?_ ?_ _
    · exact component_refines dwt2dDecode (hnew .y) (hmem .y) htile (hle .y) _ _ _ _ _ _ _ _
    · exact component_refines dwt2dDecode (hnew .cb) (hmem .cb) htile (hle .cb) _ _ _ _ _ _ _ _
    · exact component_refines dwt2dDecode (hnew .cr) (hmem .cr) htile (hle .cr) _ _ _ _ _ _ _ _

/-! ### The history of a tile -/

variable {action : Action} {next : Tile}

/-- Whatever happens to a tile, its bit positions stay in their bounds. -/
theorem Acts.bounded (h : Acts env dwt2dDecode tile action next) (htile : tile.Bounded) :
    next.Bounded := by
  obtain ⟨haccepted, rfl⟩ := h
  intro channel band
  cases action with
  | replace block upgrade =>
    show ((tile.replace block upgrade).bitPos channel).get band ≤ 30
    rw [bitPos_replace]
    exact htile channel band
  | work format contextFlags region =>
    show ((tileWorkTraced env dwt2dDecode format contextFlags region tile).value.bitPos
      channel).get band ≤ 30
    rw [value_tileWorkTraced]
    rcases bitPos_tileWork (upgradingEnv env dwt2dDecode) format contextFlags region tile channel
      with hold | hworked
    · rw [hold]
      exact htile channel band
    · rw [hworked]
      exact workedBitPos_le haccepted htile channel band

/-- An action that improves a tile records what is in order. -/
theorem Acts.refines (h : Acts env dwt2dDecode tile action next) (htile : tile.Bounded)
    (himproves : action.Improves tile) :
    (action.perform env dwt2dDecode tile).Safe (Refines tile next) := by
  obtain ⟨haccepted, rfl⟩ := h
  cases action with
  | replace block upgrade => exact (safe_pure _).mpr trivial
  | work format contextFlags region =>
    show (tileWorkTraced env dwt2dDecode format contextFlags region tile).Safe (Refines tile
      (tileWorkTraced env dwt2dDecode format contextFlags region tile).value)
    by_cases hfirst : tile.blockType = PROGRESSIVE_WBT_TILE_SIMPLE ∨
      tile.blockType = PROGRESSIVE_WBT_TILE_FIRST
    · rw [tileWorkTraced, if_pos hfirst]
      exact (safe_pure _).mpr trivial
    · by_cases hupgrade : tile.blockType = PROGRESSIVE_WBT_TILE_UPGRADE
      · rw [tileWorkTraced, if_neg hfirst, if_pos hupgrade]
        refine decompressTileUpgradeTraced_refines env dwt2dDecode format contextFlags haccepted
          htile (himproves hupgrade) fun channel => ?_
        rw [value_decompressTileUpgradeTraced, bitPos_decompressTileUpgrade]
      · rw [tileWorkTraced, if_neg hfirst, if_neg hupgrade]
        exact (safe_pure _).mpr trivial

theorem bounded_fresh (data : Pixels) (current sign : Planes) :
    (Tile.fresh data current sign).Bounded := by
  intro channel band
  have hzero : (Tile.fresh data current sign).bitPos channel = Quant.all 0 := by
    cases channel <;> rfl
  rw [hzero, get_all]
  exact Nat.zero_le 30

/-- Every sub-band of a component is refined. -/
theorem block_mem_upgradeComponent (shift bitPos numBits : Quant) (current sign : List ℤ)
    (srlData rawData : List UInt8) (coeffDiff subbandDiff extrapolate : Bool) (band : Band) :
    .block band (numBits.get band) ∈ (upgradeComponent dwt2dDecode shift bitPos numBits current sign
      srlData rawData coeffDiff subbandDiff extrapolate).trace := by
  have hband : ∃ block ∈ upgradeBands, block.1 = band := by
    cases band <;> decide
  obtain ⟨⟨band, offset, length⟩, hmem, rfl⟩ := hband
  have hblock : ∀ u, .block band (numBits.get band) ∈
      (upgradeBand shift numBits u (band, offset, length)).trace := by
    intro u
    exact List.mem_append_left _ (List.mem_singleton_self _)
  exact List.mem_append_left _ (mem_trace_foldlM hblock hmem _)

/-- The luminance of an upgraded tile, which is transformed first, is only refined in order if its bit
positions do not grow. -/
theorem Acts.improves_luma (h : Acts env dwt2dDecode tile (.work format contextFlags region) next)
    (hupgrade : tile.blockType = PROGRESSIVE_WBT_TILE_UPGRADE)
    (hsafe : ((Action.work format contextFlags region).perform env dwt2dDecode tile).Safe
      (Refines tile next)) (band : Band) :
    (workedBitPos region tile .y).get band ≤ (tile.bitPos .y).get band := by
  have hfirst : ¬ (tile.blockType = PROGRESSIVE_WBT_TILE_SIMPLE ∨
      tile.blockType = PROGRESSIVE_WBT_TILE_FIRST) := by
    rw [hupgrade]
    decide
  have hperform : (Action.work format contextFlags region).perform env dwt2dDecode tile =
      decompressTileUpgradeTraced env dwt2dDecode format contextFlags region tile := by
    show tileWorkTraced env dwt2dDecode format contextFlags region tile = _
    rw [tileWorkTraced, if_neg hfirst, if_pos hupgrade]
  have hnext : next.bitPos .y = workedBitPos region tile .y := by
    rw [h.2, hperform, value_decompressTileUpgradeTraced, bitPos_decompressTileUpgrade]
  have hquants : tileQuants { tile with pass := (tile.pass + 1) % 2 ^ 16 } region =
    tileQuants tile region := rfl
  rw [hperform] at hsafe
  unfold decompressTileUpgradeTraced upgradeTile at hsafe
  dsimp only at hsafe
  rw [hquants] at hsafe
  cases hsome : tileQuants tile region with
  | none => rw [workedBitPos, hsome]
  | some quants =>
    rw [hsome] at hsafe
    obtain ⟨hy, -⟩ := (safe_bind _ _).mp hsafe
    have hblock := (safe_map _ _).mp hy _ (block_mem_upgradeComponent dwt2dDecode _ _ _ _ _ _ _ _ _ _
      band)
    obtain ⟨hdiff, -⟩ := hblock
    rw [hnext] at hdiff
    omega

/-- In a run whose actions all improve the tile, every action records what is in order. -/
theorem upgrades_refine (data : Pixels) (current sign : Planes) {actions : List Action}
    (himproves : ∀ before tile action next, before ++ [action] <+: actions →
      Runs (Acts env dwt2dDecode) (Tile.fresh data current sign) before tile →
      Acts env dwt2dDecode tile action next → action.Improves tile) :
    ∀ before tile action next, before ++ [action] <+: actions →
      Runs (Acts env dwt2dDecode) (Tile.fresh data current sign) before tile →
      Acts env dwt2dDecode tile action next →
      (action.perform env dwt2dDecode tile).Safe (Refines tile next) := by
  intro before tile action next hpre hrun hacts
  have htile : tile.Bounded := hrun.invariant (bounded_fresh data current sign)
    fun _ _ _ ht hstep => hstep.bounded env dwt2dDecode ht
  exact hacts.refines env dwt2dDecode htile
    (himproves before tile action next hpre hrun hacts)

theorem Acts.eq_foldl {start : Tile} {actions : List Action}
    (h : Runs (Acts env dwt2dDecode) start actions tile) :
    tile = actions.foldl (fun t action => (action.perform env dwt2dDecode t).value) start := by
  induction h with
  | nil => rfl
  | snoc _ hlast ih =>
    rw [List.foldl_append, ← ih]
    exact hlast.2

/-- A region with the quantization value 6, which is progressively raised by 1 at the quality 0. -/
def gradedRegion : BlockRegion :=
  { BlockRegion.zero with
    numQuant := 1, quantVals := [Quant.all 6], numProgQuant := 1
    quantProgVals := [⟨Quant.all 1, Quant.all 1, Quant.all 1⟩] }

theorem gradedRegion_accepted : gradedRegion.Accepted where
  length := rfl
  quantVals := by decide
  quantProgVals := by
    intro prog hprog channel band
    rw [List.mem_singleton.mp hprog]
    cases channel <;> exact (get_all 1 band).trans_lt (by decide)

/-- A tile block of the quality `quality`, without data. -/
def tileOf (blockType quality : ℕ) : Tile :=
  { Tile.zero with blockType := blockType, quality := quality }

/-- A first tile of the quality 0 and its upgrade to the full quality. -/
def gradedActions : List Action :=
  [.replace (tileOf PROGRESSIVE_WBT_TILE_FIRST 0) false, .work 0 0 gradedRegion,
    .replace (tileOf PROGRESSIVE_WBT_TILE_UPGRADE 0xFF) true, .work 0 0 gradedRegion]

theorem get_newBitPos_all (prog : ProgQuant) (n : ℕ) (channel : Channel) {band : Band}
    (h : (prog.get channel).get band = n) (hn : n < 16) :
    (newBitPos (Quant.all 6, Quant.all 6, Quant.all 6, prog) channel).get band = 6 + n := by
  have hadd : newBitPos (Quant.all 6, Quant.all 6, Quant.all 6, prog) channel =
      quantAdd (Quant.all 6) (prog.get channel) := by
    cases channel <;> rfl
  rw [hadd, get_quantAdd, get_all, h]
  omega

theorem bitPos_gradedFirst (start : Tile) (channel : Channel) (band : Band) :
    ((tileWorkTraced env dwt2dDecode 0 0 gradedRegion
      (start.replace (tileOf PROGRESSIVE_WBT_TILE_FIRST 0) false)).value.bitPos channel).get band =
      7 := by
  have hfirst : tileWork (upgradingEnv env dwt2dDecode) 0 0 gradedRegion
      (start.replace (tileOf PROGRESSIVE_WBT_TILE_FIRST 0) false) =
      decompressTileFirst (upgradingEnv env dwt2dDecode) 0 0 gradedRegion
        (start.replace (tileOf PROGRESSIVE_WBT_TILE_FIRST 0) false) := if_pos (Or.inr rfl)
  rw [value_tileWorkTraced, hfirst, bitPos_decompressTileFirst]
  refine get_newBitPos_all ⟨Quant.all 1, Quant.all 1, Quant.all 1⟩ 1 channel ?_ (by decide)
  cases channel <;> exact get_all 1 band

theorem gradedActions_improve (start : Tile) :
    ∀ before tile action next, before ++ [action] <+: gradedActions →
      Runs (Acts env dwt2dDecode) start before tile →
      Acts env dwt2dDecode tile action next → action.Improves tile := by
  intro before tile action next hpre hrun _
  have htile := Acts.eq_foldl env dwt2dDecode hrun
  unfold gradedActions at hpre
  rcases before with _ | ⟨b1, _ | ⟨b2, _ | ⟨b3, _ | ⟨b4, rest⟩⟩⟩⟩
  · simp only [List.nil_append, List.cons_prefix_cons, List.nil_prefix, and_true] at hpre
    rw [hpre]
    trivial
  · simp only [List.cons_append, List.nil_append, List.cons_prefix_cons, List.nil_prefix,
      and_true] at hpre
    obtain ⟨rfl, rfl⟩ := hpre
    rw [htile]
    intro hupgrade
    have hblocks : PROGRESSIVE_WBT_TILE_FIRST = PROGRESSIVE_WBT_TILE_UPGRADE := hupgrade
    exact absurd hblocks (by decide)
  · simp only [List.cons_append, List.nil_append, List.cons_prefix_cons, List.nil_prefix,
      and_true] at hpre
    rw [hpre.2.2]
    trivial
  · simp only [List.cons_append, List.nil_append, List.cons_prefix_cons, List.nil_prefix,
      and_true] at hpre
    obtain ⟨rfl, rfl, rfl, rfl⟩ := hpre
    rw [htile]
    intro _ channel band
    have hnew : (newBitPos (Quant.all 6, Quant.all 6, Quant.all 6, quantProgValFull) channel).get
        band = 6 := by
      refine get_newBitPos_all quantProgValFull 0 channel ?_ (by decide)
      cases channel <;> exact get_all 0 band
    have hold := bitPos_gradedFirst env dwt2dDecode start channel band
    show (newBitPos (Quant.all 6, Quant.all 6, Quant.all 6, quantProgValFull) channel).get band ≤
      ((Tile.replace (tileWorkTraced env dwt2dDecode 0 0 gradedRegion
        (start.replace (tileOf PROGRESSIVE_WBT_TILE_FIRST 0) false)).value
          (tileOf PROGRESSIVE_WBT_TILE_UPGRADE 0xFF) true).bitPos channel).get band
    rw [bitPos_replace, hnew, hold]
    decide
  · exact absurd hpre.length_le (by simp)

/-- Coefficients that are the colours already. -/
def plainDwt (current : List ℤ) (_coeffDiff _extrapolate : Bool) : Bool × List ℤ := (true, current)

/-- A first tile and its upgrade. -/
theorem upgrades_refine_graded :
    ∃ tile next, tile.blockType = PROGRESSIVE_WBT_TILE_UPGRADE ∧
      Acts plain plainDwt tile (.work 0 0 gradedRegion) next ∧
      ((Action.work 0 0 gradedRegion).perform plain plainDwt tile).Safe (Refines tile next) := by
  have hrun : ∃ tile, tile.blockType = PROGRESSIVE_WBT_TILE_UPGRADE ∧
      Runs (Acts plain plainDwt) (Tile.fresh (fun _ _ => 0) ⟨[], [], []⟩ ⟨[], [], []⟩)
        (gradedActions.take 3) tile :=
    ⟨_, rfl, ((Runs.nil.snoc ⟨trivial, rfl⟩).snoc ⟨gradedRegion_accepted, rfl⟩).snoc ⟨trivial, rfl⟩⟩
  obtain ⟨tile, hupgrade, hrun⟩ := hrun
  have hacts : Acts plain plainDwt tile (.work 0 0 gradedRegion)
      ((Action.work 0 0 gradedRegion).perform plain plainDwt tile).value :=
    ⟨gradedRegion_accepted, rfl⟩
  exact ⟨tile, _, hupgrade, hacts, upgrades_refine plain plainDwt _ _ _
    (gradedActions_improve plain plainDwt _) _ _ _ _ (List.prefix_refl _) hrun hacts⟩

/-- An upgrade of a tile that has not been decoded yet: from 0 to 6 in one byte. -/
theorem not_upgrades_refine :
    ¬ ∀ (env : Env) (dwt2dDecode : List ℤ → Bool → Bool → Bool × List ℤ) (data : Pixels)
      (current sign : Planes) (before : List Action) (tile : Tile) (action : Action) (next : Tile),
      Runs (Acts env dwt2dDecode) (Tile.fresh data current sign) before tile →
      Acts env dwt2dDecode tile action next →
      (action.perform env dwt2dDecode tile).Safe (Refines tile next) := by
  intro h
  have hrun : Runs (Acts plain plainDwt) (Tile.fresh (fun _ _ => 0) ⟨[], [], []⟩ ⟨[], [], []⟩)
      [.replace (tileOf PROGRESSIVE_WBT_TILE_UPGRADE 0xFF) true]
      ((Tile.fresh (fun _ _ => 0) ⟨[], [], []⟩ ⟨[], [], []⟩).replace
        (tileOf PROGRESSIVE_WBT_TILE_UPGRADE 0xFF) true) := Runs.nil.snoc ⟨trivial, rfl⟩
  have hacts : Acts plain plainDwt ((Tile.fresh (fun _ _ => 0) ⟨[], [], []⟩ ⟨[], [], []⟩).replace
      (tileOf PROGRESSIVE_WBT_TILE_UPGRADE 0xFF) true) (.work 0 0 gradedRegion) _ :=
    ⟨gradedRegion_accepted, rfl⟩
  have hle := hacts.improves_luma plain plainDwt 0 0 rfl
    (h plain plainDwt _ _ _ _ _ _ _ hrun hacts) .HL1
  exact absurd hle (by decide)

end FreeRDP.Progressive
