import FreeRDP.Crypto.Ber

/-!
# Domain parameters

`libfreerdp/core/mcs.c`: the eight numbers that the two sides of a connection agree upon.  A client sends
a target, a minimum and a maximum, and the server merges them.

The function that merges has `none` where the source returns `FALSE`, whose caller gives up the connection
and looks at none of the numbers that have been stored by then.
-/

namespace FreeRDP.Core

open Wire Crypto

structure DomainParameters where
  maxChannelIds : UInt32
  maxUserIds : UInt32
  maxTokenIds : UInt32
  numPriorities : UInt32
  minThroughput : UInt32
  maxHeight : UInt32
  maxMCSPDUsize : UInt32
  protocolVersion : UInt32
deriving DecidableEq

def mcsInitDomainParameters (maxChannelIds maxUserIds maxTokenIds maxMCSPDUsize : UInt32) :
    DomainParameters where
  maxChannelIds := maxChannelIds
  maxUserIds := maxUserIds
  maxTokenIds := maxTokenIds
  maxMCSPDUsize := maxMCSPDUsize
  numPriorities := 1
  minThroughput := 0
  maxHeight := 1
  protocolVersion := 2

/-! ### Sending -/

/-- `ber_read_integer` into a `UINT32`. -/
def readParameter : Reader UInt32 := do
  let value ← berReadInteger
  return UInt32.ofNat value

/-- `ber_write_integer` of a `UINT32`. -/
def writeParameter (value : UInt32) : List UInt8 := (berWriteInteger value.toNat).bytes

def mcsReadDomainParameters : Reader DomainParameters := do
  let _length ← berReadSequenceTag
  let maxChannelIds ← readParameter
  let maxUserIds ← readParameter
  let maxTokenIds ← readParameter
  let numPriorities ← readParameter
  let minThroughput ← readParameter
  let maxHeight ← readParameter
  let maxMCSPDUsize ← readParameter
  let protocolVersion ← readParameter
  return { maxChannelIds, maxUserIds, maxTokenIds, numPriorities, minThroughput, maxHeight,
           maxMCSPDUsize, protocolVersion }

/-- What `mcs_write_domain_parameters` writes into its temporary stream. -/
def parametersContent (p : DomainParameters) : List UInt8 :=
  writeParameter p.maxChannelIds ++ (writeParameter p.maxUserIds ++ (writeParameter p.maxTokenIds ++
    (writeParameter p.numPriorities ++ (writeParameter p.minThroughput ++ (writeParameter p.maxHeight ++
      (writeParameter p.maxMCSPDUsize ++ writeParameter p.protocolVersion))))))

def mcsWriteDomainParameters (p : DomainParameters) : List UInt8 :=
  (berWriteSequenceTag (parametersContent p).length).bytes ++ parametersContent p

/-! ### Merging -/

/-- A target that is at least `least`, or else `least`, if the maximum allows it. -/
def mergeLeast (least target maximum : UInt32) : Option UInt32 :=
  if target ≥ least then some target
  else if maximum ≥ least then some least
  else none

def mergeFixed (value : UInt32) (allowed : Prop) [Decidable allowed] : Option UInt32 :=
  if allowed then some value else none

/-- The part of the merge that is about `maxMCSPDUsize`. -/
def mergeMaxMcsPduSize (target minimum maximum : UInt32) : Option UInt32 :=
  if target ≥ 1024 then
    if target ≤ 65528 then some target
    else if minimum ≥ 124 ∧ minimum ≤ 65528 then some 65528
    else none
  -- Unlike the target, the maximum is not compared to 65528.
  else if maximum ≥ 124 then some maximum
  else none

def mcsMergeDomainParameters (target minimum maximum : DomainParameters) :
    Option DomainParameters := do
  let maxChannelIds ← mergeLeast 4 target.maxChannelIds maximum.maxChannelIds
  let maxUserIds ← mergeLeast 3 target.maxUserIds maximum.maxUserIds
  let numPriorities ← mergeFixed 1 (minimum.numPriorities ≤ 1)
  let maxHeight ← mergeFixed 1 (target.maxHeight = 1 ∨ minimum.maxHeight ≤ 1)
  let maxMCSPDUsize ←
    mergeMaxMcsPduSize target.maxMCSPDUsize minimum.maxMCSPDUsize maximum.maxMCSPDUsize
  let protocolVersion ←
    mergeFixed 2
      (target.protocolVersion = 2 ∨ minimum.protocolVersion ≤ 2 ∧ maximum.protocolVersion ≥ 2)
  return { maxChannelIds, maxUserIds, maxTokenIds := target.maxTokenIds, numPriorities,
           minThroughput := target.minThroughput, maxHeight, maxMCSPDUsize, protocolVersion }

end FreeRDP.Core

/-!
## The limits of domain parameters

Parameters are read back as they have been written, whatever they are: `reads_mcsReadDomainParameters`.

A merge stays within the limits of the protocol, except for the size of a PDU: the maximum replaces a small
target, and is compared to the lower limit only.  `negotiates_iff` has the parameters for which this goes
wrong.
-/

namespace FreeRDP.Core

open Wire Crypto

/-! ### Reading back -/

theorem reads_readParameter (value : UInt32) : Reads readParameter (writeParameter value) value :=
  (reads_berReadInteger value.toNat_lt).map (UInt32.ofNat_toNat)

theorem length_writeParameter_le (value : UInt32) : (writeParameter value).length ≤ 6 := by
  unfold writeParameter
  rw [(length_berWriteInteger value.toNat).1]
  unfold berSizeofInteger
  split_ifs <;> decide

theorem length_parametersContent_le (p : DomainParameters) : (parametersContent p).length ≤ 48 := by
  grind [parametersContent, length_writeParameter_le]

theorem reads_mcsReadDomainParameters (p : DomainParameters) :
    Reads mcsReadDomainParameters (mcsWriteDomainParameters p) p := by
  have hlength : (parametersContent p).length ≤ 0xFFFF :=
    (length_parametersContent_le p).trans (by decide)
  apply (reads_berReadSequenceTag hlength).bind
  apply (reads_readParameter p.maxChannelIds).bind
  apply (reads_readParameter p.maxUserIds).bind
  apply (reads_readParameter p.maxTokenIds).bind
  apply (reads_readParameter p.numPriorities).bind
  apply (reads_readParameter p.minThroughput).bind
  apply (reads_readParameter p.maxHeight).bind
  apply (reads_readParameter p.maxMCSPDUsize).bind
  exact (reads_readParameter p.protocolVersion).map rfl

/-! ### Merging -/

structure WithinLimits (p : DomainParameters) : Prop where
  maxChannelIds : p.maxChannelIds ≥ 4
  maxUserIds : p.maxUserIds ≥ 3
  numPriorities : p.numPriorities = 1
  maxHeight : p.maxHeight = 1
  le_maxMCSPDUsize : 124 ≤ p.maxMCSPDUsize
  maxMCSPDUsize_le : p.maxMCSPDUsize ≤ 65528
  protocolVersion : p.protocolVersion = 2

/-- The merge finds a value for every parameter other than `maxMCSPDUsize`. -/
structure Agrees (target minimum maximum : DomainParameters) : Prop where
  maxChannelIds : target.maxChannelIds ≥ 4 ∨ maximum.maxChannelIds ≥ 4
  maxUserIds : target.maxUserIds ≥ 3 ∨ maximum.maxUserIds ≥ 3
  numPriorities : minimum.numPriorities ≤ 1
  maxHeight : target.maxHeight = 1 ∨ minimum.maxHeight ≤ 1
  protocolVersion :
    target.protocolVersion = 2 ∨ minimum.protocolVersion ≤ 2 ∧ maximum.protocolVersion ≥ 2

/-- A small target is replaced by a maximum that is beyond the limit. -/
def Oversized (target maximum : UInt32) : Prop := target < 1024 ∧ 65528 < maximum

/-- What the merge gives is within the limits, and any parameters survive being sent. -/
def Negotiates (target minimum maximum : DomainParameters) : Prop :=
  (∀ merged, mcsMergeDomainParameters target minimum maximum = some merged → WithinLimits merged) ∧
    ∀ p, Reads mcsReadDomainParameters (mcsWriteDomainParameters p) p

/-- The parameters that a merge gives, one by one. -/
structure Merges (target minimum maximum merged : DomainParameters) : Prop where
  maxChannelIds : mergeLeast 4 target.maxChannelIds maximum.maxChannelIds = some merged.maxChannelIds
  maxUserIds : mergeLeast 3 target.maxUserIds maximum.maxUserIds = some merged.maxUserIds
  maxTokenIds : merged.maxTokenIds = target.maxTokenIds
  numPriorities : minimum.numPriorities ≤ 1 ∧ merged.numPriorities = 1
  minThroughput : merged.minThroughput = target.minThroughput
  maxHeight : (target.maxHeight = 1 ∨ minimum.maxHeight ≤ 1) ∧ merged.maxHeight = 1
  maxMCSPDUsize :
    mergeMaxMcsPduSize target.maxMCSPDUsize minimum.maxMCSPDUsize maximum.maxMCSPDUsize =
      some merged.maxMCSPDUsize
  protocolVersion :
    (target.protocolVersion = 2 ∨ minimum.protocolVersion ≤ 2 ∧ maximum.protocolVersion ≥ 2) ∧
      merged.protocolVersion = 2

section Parameter

variable {least value target minimum maximum merged : UInt32} {allowed : Prop} [Decidable allowed]

theorem mergeFixed_eq_some_iff : mergeFixed value allowed = some merged ↔ allowed ∧ merged = value := by
  rw [mergeFixed, Option.ite_none_right_eq_some, Option.some_inj, eq_comm (a := value)]

theorem le_of_mergeLeast (h : mergeLeast least target maximum = some merged) : least ≤ merged := by
  unfold mergeLeast at h
  split_ifs at h with htarget
  · exact Option.some.inj h ▸ htarget
  · exact Option.some.inj h ▸ UInt32.le_refl least

theorem mergeLeast_isSome_iff :
    (∃ merged, mergeLeast least target maximum = some merged) ↔ target ≥ least ∨ maximum ≥ least := by
  unfold mergeLeast
  constructor
  · rintro ⟨merged, h⟩
    split_ifs at h with htarget hmaximum
    · exact Or.inl htarget
    · exact Or.inr hmaximum
  · intro h
    by_cases htarget : target ≥ least
    · exact ⟨target, if_pos htarget⟩
    · exact ⟨least, by rw [if_neg htarget, if_pos (h.resolve_left htarget)]⟩

theorem le_of_mergeMaxMcsPduSize (h : mergeMaxMcsPduSize target minimum maximum = some merged) :
    124 ≤ merged := by
  unfold mergeMaxMcsPduSize at h
  split_ifs at h with htarget hlimit hminimum hmaximum
  · exact Option.some.inj h ▸ UInt32.le_trans (by decide) htarget
  · exact Option.some.inj h ▸ by decide
  · exact Option.some.inj h ▸ hmaximum

theorem mergeMaxMcsPduSize_le_iff (h : mergeMaxMcsPduSize target minimum maximum = some merged) :
    merged ≤ 65528 ↔ ¬ Oversized target maximum := by
  unfold mergeMaxMcsPduSize at h
  unfold Oversized
  split_ifs at h with htarget hlimit hminimum hmaximum
  · exact iff_of_true (Option.some.inj h ▸ hlimit) fun hover => UInt32.not_lt.mpr htarget hover.1
  · exact iff_of_true (Option.some.inj h ▸ UInt32.le_refl _) fun hover => UInt32.not_lt.mpr htarget hover.1
  · obtain rfl := Option.some.inj h
    rw [← UInt32.not_lt, and_iff_right (UInt32.not_le.mp htarget)]

theorem mergeMaxMcsPduSize_of_oversized (h : Oversized target maximum) :
    mergeMaxMcsPduSize target minimum maximum = some maximum := by
  have hmaximum : 124 ≤ maximum := UInt32.le_trans (by decide) (UInt32.le_of_lt h.2)
  rw [mergeMaxMcsPduSize, if_neg (UInt32.not_le.mpr h.1), if_pos hmaximum]

end Parameter

section Merge

variable {target minimum maximum merged : DomainParameters}

theorem mcsMergeDomainParameters_eq_some_iff :
    mcsMergeDomainParameters target minimum maximum = some merged ↔
      Merges target minimum maximum merged := by
  simp only [mcsMergeDomainParameters, Option.bind_eq_bind, Option.bind_eq_some_iff,
    mergeFixed_eq_some_iff, Option.pure_def, Option.some_inj]
  constructor
  · rintro ⟨maxChannelIds, hmaxChannelIds, maxUserIds, hmaxUserIds, _, hnumPriorities, _, hmaxHeight,
      maxMCSPDUsize, hmaxMCSPDUsize, _, hprotocolVersion, rfl⟩
    exact ⟨hmaxChannelIds, hmaxUserIds, rfl, hnumPriorities, rfl, hmaxHeight, hmaxMCSPDUsize,
      hprotocolVersion⟩
  · intro h
    refine ⟨_, h.maxChannelIds, _, h.maxUserIds, _, h.numPriorities, _, h.maxHeight, _,
      h.maxMCSPDUsize, _, h.protocolVersion, ?_⟩
    rw [← h.maxTokenIds, ← h.minThroughput]

theorem Merges.agrees (h : Merges target minimum maximum merged) : Agrees target minimum maximum where
  maxChannelIds := mergeLeast_isSome_iff.mp ⟨_, h.maxChannelIds⟩
  maxUserIds := mergeLeast_isSome_iff.mp ⟨_, h.maxUserIds⟩
  numPriorities := h.numPriorities.1
  maxHeight := h.maxHeight.1
  protocolVersion := h.protocolVersion.1

/-- An oversized maximum is what the merge gives, if the other parameters agree. -/
theorem Agrees.exists_merges (h : Agrees target minimum maximum)
    (hover : Oversized target.maxMCSPDUsize maximum.maxMCSPDUsize) :
    ∃ merged, Merges target minimum maximum merged := by
  obtain ⟨maxChannelIds, hmaxChannelIds⟩ := mergeLeast_isSome_iff.mpr h.maxChannelIds
  obtain ⟨maxUserIds, hmaxUserIds⟩ := mergeLeast_isSome_iff.mpr h.maxUserIds
  exact ⟨⟨maxChannelIds, maxUserIds, target.maxTokenIds, 1, target.minThroughput, 1,
    maximum.maxMCSPDUsize, 2⟩, hmaxChannelIds, hmaxUserIds, rfl, ⟨h.numPriorities, rfl⟩, rfl,
    ⟨h.maxHeight, rfl⟩, mergeMaxMcsPduSize_of_oversized hover, ⟨h.protocolVersion, rfl⟩⟩

theorem Merges.withinLimits_iff (h : Merges target minimum maximum merged) :
    WithinLimits merged ↔ ¬ Oversized target.maxMCSPDUsize maximum.maxMCSPDUsize := by
  rw [← mergeMaxMcsPduSize_le_iff h.maxMCSPDUsize]
  constructor
  · exact WithinLimits.maxMCSPDUsize_le
  · intro hle
    exact ⟨le_of_mergeLeast h.maxChannelIds, le_of_mergeLeast h.maxUserIds, h.numPriorities.2,
      h.maxHeight.2, le_of_mergeMaxMcsPduSize h.maxMCSPDUsize, hle, h.protocolVersion.2⟩

end Merge

/-- A merge is within the limits, and parameters survive being sent, unless the sides agree about
everything else while an oversized maximum replaces a small target. -/
theorem negotiates_iff (target minimum maximum : DomainParameters) :
    Negotiates target minimum maximum ↔
      ¬ (Agrees target minimum maximum ∧ Oversized target.maxMCSPDUsize maximum.maxMCSPDUsize) := by
  constructor
  · rintro ⟨hlimits, -⟩ ⟨hagrees, hover⟩
    obtain ⟨merged, hmerges⟩ := hagrees.exists_merges hover
    exact hmerges.withinLimits_iff.mp
      (hlimits merged (mcsMergeDomainParameters_eq_some_iff.mpr hmerges)) hover
  · intro h
    constructor
    · intro merged hmerge
      have hmerges := mcsMergeDomainParameters_eq_some_iff.mp hmerge
      exact hmerges.withinLimits_iff.mpr fun hover => h ⟨hmerges.agrees, hover⟩
    · exact reads_mcsReadDomainParameters

/-- A client that asks for a PDU of 1023 bytes, with the other parameters of `mcs_new`, may send 65535. -/
theorem not_negotiates :
    ∃ merged,
      mcsMergeDomainParameters (mcsInitDomainParameters 34 2 0 0x3FF)
          (mcsInitDomainParameters 1 1 1 0x420) (mcsInitDomainParameters 0xFFFF 0xFC17 0xFFFF 0xFFFF) =
        some merged ∧
      merged.maxMCSPDUsize = 65535 ∧
      ¬ Negotiates (mcsInitDomainParameters 34 2 0 0x3FF) (mcsInitDomainParameters 1 1 1 0x420)
        (mcsInitDomainParameters 0xFFFF 0xFC17 0xFFFF 0xFFFF) := by
  refine ⟨⟨34, 3, 0, 1, 0, 1, 65535, 2⟩, by decide +kernel, rfl, ?_⟩
  intro h
  have hmerged : WithinLimits ⟨34, 3, 0, 1, 0, 1, 65535, 2⟩ := h.1 _ (by decide +kernel)
  exact absurd hmerged.maxMCSPDUsize_le (by decide)

end FreeRDP.Core
